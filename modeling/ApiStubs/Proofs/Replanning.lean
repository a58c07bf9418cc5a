import ApiStubs.Proofs.Excluding
import ApiStubs.Proofs.Inventory
import ApiStubs.Proofs.Planning
import ApiStubs.Proofs.Reloading

/-!
# Proofs — Replanning — planning a run again

What a survey describes is settled by the markers and the modules of a tree, so two trees that have
these in common have the same survey (`Survey.SameModules.survey_eq`).  Pages add neither, and
directories that are made for them are no packages.

The exclusions are read against the root.  One without `..` comes to the same location whether or
not something stands there (`Disk.Sourced.rule_eq`).  So a run that has written pages, into the
documented tree or elsewhere, is followed by the same plan (`Disk.Sourced.packages_eq`) and by a
loader that starts at the same place (`Disk.Sourced.loader_eq`).
-/

namespace ApiStubs

open FilePath (IsFileName Component)

namespace Survey

/-! ### Surveys of the same modules -/

/-- Two lists of the same members are the same list, if both are in the same order. -/
theorem eq_of_ordered {α : Type} {r : α → α → Prop} (hr : ∀ a b, r a b → ¬ r b a)
    {l others : List α} (h : l.Pairwise r) (hothers : others.Pairwise r)
    (hmem : ∀ a, a ∈ l ↔ a ∈ others) : l = others := by
  have : Std.Irrefl r := ⟨fun a ha => hr a a ha ha⟩
  have : Std.Antisymm r := ⟨fun a b hab hba => absurd hba (hr a b hab)⟩
  exact h.eq_of_mem_iff hothers hmem

/-- The other tree has the same markers and modules, wherever they stand. -/
structure SameModules (selection : Selection) (root : Location) (disk other : Disk) : Prop where
  marked : ∀ here, Marked other here ↔ Marked disk here
  hasModule : ∀ here file, HasModule other selection here file ↔ HasModule disk selection here file
  rootPackage : rootPackage? other root.path = rootPackage? disk root.path

/-- There is one package that a place describes. -/
theorem Describes.unique {disk : Disk} {selection : Selection} {root names : Location}
    {package other : Package} (h : Describes disk selection root names package)
    (hother : Describes disk selection root names other) : package = other := by
  have hmodules : package.modules = other.modules :=
    eq_of_ordered (fun a b hab hba => by
      obtain ⟨hb, hfirst⟩ := hab
      obtain ⟨ha, hsecond⟩ := hba
      simp only [ha, hb, Bool.false_eq_true, false_or] at hfirst hsecond
      exact lt_asymm hfirst hsecond)
      h.ordered hother.ordered fun file => (h.modules file).trans (hother.modules file).symm
  have hsubpackages : package.subpackages = other.subpackages :=
    eq_of_ordered (fun _ _ => lt_asymm) h.ascending hother.ascending
      fun name => (h.subpackages name).trans (hother.subpackages name).symm
  have hname := h.name.trans hother.name.symm
  have hpath := h.path.trans hother.path.symm
  obtain ⟨name, path, modules, subpackages⟩ := package
  simp only at hmodules hsubpackages hname hpath
  rw [hmodules, hsubpackages, hname, hpath]

namespace SameModules

variable {selection : Selection} {root : Location} {disk other : Disk}
  (h : SameModules selection root disk other)

include h

theorem symm : SameModules selection root other disk :=
  ⟨fun here => (h.marked here).symm, fun here file => (h.hasModule here file).symm,
    h.rootPackage.symm⟩

theorem hasPackage {here : Location} {name : String} :
    HasPackage other selection here name ↔ HasPackage disk selection here name := by
  rw [HasPackage, HasPackage, h.marked]

theorem documentable {here : Location} :
    Documentable other selection here ↔ Documentable disk selection here := by
  simp only [Documentable, h.hasPackage, h.hasModule]

theorem entered {names : Location} (hentered : Entered disk selection root names) :
    Entered other selection root names where
  included := hentered.included
  packages above name hbelow :=
    (hentered.packages above name hbelow).imp_right (h.marked _).mpr

theorem documented {names : Location} (hdocumented : Documented disk selection root names) :
    Documented other selection root names where
  entered := h.entered hdocumented.entered
  marked := (h.marked _).mpr hdocumented.marked
  documentable := h.documentable.mpr hdocumented.documentable

theorem unreachable {names : Location} {file : ModuleFile}
    (hlong : Unreachable disk selection root names file) :
    Unreachable other selection root names file where
  entered := h.entered hlong.entered
  marked := (h.marked _).mpr hlong.marked
  listed := (h.hasModule _ _).mpr hlong.listed
  long := hlong.long

theorem describes {names : Location} {package : Package}
    (hdescribes : Describes disk selection root names package) :
    Describes other selection root names package where
  name := by rw [h.rootPackage, hdescribes.name]
  path := hdescribes.path
  modules file := (hdescribes.modules file).trans (h.hasModule _ _).symm
  ordered := hdescribes.ordered
  subpackages name := (hdescribes.subpackages name).trans h.hasPackage.symm
  ascending := hdescribes.ascending

/-- **The same packages are listed**, in the same order. -/
theorem survey_eq (hdisk : disk.WellFormed) (hfree : disk.LinkFree root)
    (hroot : disk.Canonical root) (hother : other.WellFormed) (hotherFree : other.LinkFree root)
    (hotherRoot : other.Canonical root) {packages : List Package}
    (hsurvey : survey disk selection root.path = .ok packages) :
    survey other selection root.path = .ok packages := by
  rcases survey_cases hdisk hfree hroot selection with
    ⟨listed, places, hok, hreached, hsorted, hplaces, hdescribed⟩ | ⟨_, _, -, hno⟩
  swap
  · cases hsurvey.symm.trans hno
  cases hsurvey.symm.trans hok
  rcases survey_cases hother hotherFree hotherRoot selection with
    ⟨found, others, hfound, -, hordered, hothers, hfoundDescribed⟩ | ⟨names, file, hlong, -⟩
  swap
  · exact absurd (h.symm.unreachable hlong) (hreached names file)
  obtain rfl : places = others :=
    eq_of_ordered (fun _ _ => lt_asymm) hsorted hordered fun names =>
      ⟨fun hmem => (hothers names).mpr (h.documented ((hplaces names).mp hmem)),
        fun hmem => (hplaces names).mpr (h.symm.documented ((hothers names).mp hmem))⟩
  rw [hfound]
  refine congrArg Except.ok ?_
  clear hok hfound hsurvey hsorted hordered hplaces hothers
  induction hdescribed generalizing found with
  | nil =>
    cases hfoundDescribed
    rfl
  | cons hfirst hrest ih =>
    cases hfoundDescribed with
    | cons hown hmore => rw [(h.describes hfirst).unique hown, ih _ hmore]

end SameModules

end Survey

namespace Disk.Sourced

open Survey

variable {disk later : Disk} (h : Sourced disk later) (hdisk : disk.WellFormed)

include h

/-- Module files are sources, and so are markers. -/
theorem marked_iff (here : Location) : Marked later here ↔ Marked disk here := by
  simp only [Marked, h.entryAt_iff Python.isSource_packageMarker]

include hdisk

/-- The modules of a directory are those it had. -/
theorem hasModule_iff {selection : Selection} (here : Location) (file : ModuleFile) :
    HasModule later selection here file ↔ HasModule disk selection here file := by
  rw [HasModule, HasModule]
  refine and_congr_right fun hmodule => exists_congr fun content =>
    and_congr_left fun _ => ⟨fun hentry => ?_, fun hentry => ?_⟩
  · have hname := (h.wellFormed.above hentry).2.1
    rw [(ModuleFile.fileName_eq hname hmodule).1] at hentry ⊢
    exact (h.entryAt_iff (Python.isSource_append _)).mp hentry
  · have hname := (hdisk.above hentry).2.1
    rw [(ModuleFile.fileName_eq hname hmodule).1] at hentry ⊢
    exact (h.entryAt_iff (Python.isSource_append _)).mpr hentry

theorem rootPackage?_eq {root : Location} (hroot : root.Proper) :
    rootPackage? later root.path = rootPackage? disk root.path := by
  rw [rootPackage?, rootPackage?, h.isPackage hdisk (Location.up_notMem_path hroot)]

theorem sameModules (selection : Selection) {root : Location} (hroot : root.Proper) :
    SameModules selection root disk later :=
  ⟨h.marked_iff, h.hasModule_iff hdisk, h.rootPackage?_eq hdisk hroot⟩

theorem searchRootFor_eq {root : Location} (hroot : root.Proper) :
    Python.searchRootFor later root.path = Python.searchRootFor disk root.path := by
  rw [Python.searchRootFor, Python.searchRootFor, h.isPackage hdisk (Location.up_notMem_path hroot)]

end Disk.Sourced

/-! ### Exclusions that are read again -/

/-- Without `..`, the names of an absolute path are left of it in its normal form. -/
theorem FilePath.normalize_of_up_notMem {path : FilePath} (habsolute : path.isAbsolute = true)
    (hup : ".." ∉ path.pieces) :
    path.normalize = Location.path (path.pieces.filter fun piece => !isFiller piece) := by
  refine Location.normalize_of_components ?_
  rw [components, if_pos habsolute]
  refine congrArg (Component.root :: ·) ?_
  generalize path.pieces = pieces at hup
  induction pieces with
  | nil => rfl
  | cons piece rest ih =>
    rw [List.mem_cons, not_or] at hup
    obtain ⟨hpiece, hrest⟩ := hup
    rw [List.filterMap_cons, List.filter_cons]
    by_cases hempty : piece = ""
    · subst hempty
      exact ih hrest
    by_cases hhere : piece = "."
    · subst hhere
      exact ih hrest
    have hname : Component.ofPiece? piece = some (.name piece) := by
      rw [Component.ofPiece?.eq_def]
      split
      · exact absurd rfl hempty
      · exact absurd rfl hhere
      · exact absurd rfl hpiece
      · rfl
    rw [hname, if_pos (by simp [isFiller, hempty, hhere]), List.map_cons, ih hrest]

namespace Exclusions

/-- An exclusion stands for an absolute path, and does not go up if it is not written so. -/
theorem anchor_path {root : Location} (hroot : root.Proper) {raw : String}
    (hraw : ".." ∉ Text.pieces '/' raw) :
    (anchor root.path raw).isAbsolute = true ∧ ".." ∉ (anchor root.path raw).pieces := by
  rw [anchor]
  split
  · rename_i hwritten
    refine ⟨?_, hraw⟩
    rcases Bool.or_eq_true_iff.mp hwritten with habsolute | hbelow
    · exact habsolute
    · have hslash : "/".toList <+: root.path.text.toList := by simp [Location.path]
      rw [Text.startsWith, List.isPrefixOf_iff_prefix] at hbelow
      rw [FilePath.isAbsolute, Text.startsWith, List.isPrefixOf_iff_prefix]
      exact hslash.trans hbelow
  · rename_i hrelative
    rw [Bool.or_eq_true, not_or] at hrelative
    have hstart : Text.startsWith raw "/" = false := Bool.eq_false_iff.mpr hrelative.1
    refine ⟨?_, fun hup => ?_⟩
    · rw [FilePath.isAbsolute, FilePath.startsWith_separator, Location.text_join_asDirectory hstart,
        String.toList_append, Location.asDirectory_path hroot]
      rfl
    · exact (FilePath.mem_pieces_join hup).elim (Location.up_notMem_path hroot) hraw

end Exclusions

/-- An exclusion that does not go up is the same rule in a tree with the same sources. -/
theorem Disk.Sourced.rule_eq {disk later : Disk} (h : Sourced disk later) {root : Location}
    (hroot : root.Proper) {raw : String} (hraw : ".." ∉ Text.pieces '/' raw) :
    Exclusions.rule later root.path raw = Exclusions.rule disk root.path raw := by
  obtain ⟨habsolute, hup⟩ := Exclusions.anchor_path hroot hraw
  rw [Exclusions.rule, Exclusions.rule]
  generalize Exclusions.anchor root.path raw = path at habsolute hup
  rw [canonicalize, canonicalize]
  cases hfind : disk.find true path with
  | ok place =>
    obtain ⟨found, hfound, -⟩ := h.grown.find hfind
    rw [hfound]
    rfl
  | error cause =>
    cases hlater : later.find true path with
    | error other => rfl
    | ok place =>
      -- what has come to stand there since stands where the path says
      have hresolve := find_eq_ok.mp hlater
      rw [resolve, if_pos habsolute] at hresolve
      split at hresolve
      · cases hresolve
      split at hresolve
      · cases hresolve
      have hplace := location_of_walk h.linkless hup hresolve
      simp only [Except.map]
      rw [hplace, List.nil_append, FilePath.normalize_of_up_notMem habsolute hup]

/-! ### Packages that are looked for again -/

namespace Settings

variable {settings : Settings} {disk : Disk}

theorem resolveRoot_eq_ok {root : FilePath} : settings.resolveRoot disk = .ok root ↔
    ∃ here : Location, root = here.path ∧ disk.find true settings.root = .ok (here, .directory) := by
  rw [resolveRoot, Disk.pathExists, Disk.isDirectory, Disk.canonicalize]
  cases hfind : disk.find true settings.root with
  | error cause => simp [Except.isOk, Except.toBool]
  | ok place =>
    obtain ⟨here, entry⟩ := place
    cases entry <;> simp [Except.isOk, Except.toBool, Except.map, Except.mapError, eq_comm]

/-- There are packages where the root, the selection and the survey are there, and some is found. -/
theorem packages_eq_ok {packages : List Package} : settings.packages disk = .ok packages ↔
    ∃ root selection, settings.resolveRoot disk = .ok root
      ∧ settings.selection disk root = .ok selection ∧ survey disk selection root = .ok packages
      ∧ packages ≠ [] := by
  rw [Settings.packages, Survey.bind_eq_ok]
  refine exists_congr fun root => ?_
  simp only [Survey.bind_eq_ok]
  constructor
  · rintro ⟨hroot, selection, hselection, found, hfound, hnonempty⟩
    split at hnonempty
    · cases hnonempty
    · rename_i hne
      cases hnonempty
      exact ⟨selection, hroot, hselection, hfound, fun hnil => hne (by simp [hnil])⟩
  · rintro ⟨selection, hroot, hselection, hfound, hne⟩
    exact ⟨hroot, selection, hselection, packages, hfound, if_neg (by simpa using hne)⟩

end Settings

/-- A survey that comes to its end has found its root. -/
theorem Survey.canonical_of_survey {disk : Disk} (hdisk : disk.WellFormed) {selection : Selection}
    {root : Location} (hroot : disk.entryAt root = some .directory) {packages : List Package}
    (h : survey disk selection root.path = .ok packages) : disk.Canonical root := by
  have hfind := hdisk.find_path hroot (by simp)
  by_cases hlong : maxPathBytes < root.path.text.utf8ByteSize
  · have hlost := hfind false
    rw [if_pos hlong] at hlost
    rw [survey, Disk.traverse, hlost] at h
    cases h
  · have hfound := hfind true
    rwa [if_neg hlong] at hfound

namespace Disk.Sourced

variable {disk later : Disk} (h : Sourced disk later) (hdisk : disk.WellFormed)
  {settings : Settings}

include h hdisk

/-- **The packages are found again**, though pages may have been written among them. -/
theorem packages_eq (hup : ∀ raw ∈ settings.excludedDirectories, ".." ∉ Text.pieces '/' raw)
    {packages : List Package} (hpackages : settings.packages disk = .ok packages) :
    settings.packages later = .ok packages := by
  obtain ⟨root, selection, hroot, hselection, hsurvey, hne⟩ := Settings.packages_eq_ok.mp hpackages
  obtain ⟨here, rfl, hfind⟩ := Settings.resolveRoot_eq_ok.mp hroot
  have hentry := entryAt_of_resolve (resolve_of_find hfind)
  have hproper := hdisk.proper hentry
  have hcanonical := Survey.canonical_of_survey hdisk hentry hsurvey
  have hrules : Exclusions.ofPaths later here.path settings.excludedDirectories
      = Exclusions.ofPaths disk here.path settings.excludedDirectories :=
    congrArg Exclusions.mk (List.map_congr_left fun raw hraw => h.rule_eq hproper (hup raw hraw))
  refine Settings.packages_eq_ok.mpr ⟨here.path, selection, ?_, ?_, ?_, hne⟩
  · exact Settings.resolveRoot_eq_ok.mpr ⟨here, rfl, h.grown.find_directory hfind⟩
  · rw [← hselection, Settings.selection, Settings.selection, hrules]
  · exact (h.sameModules hdisk selection hproper).survey_eq hdisk
      ((h.grown.linkless h.linkless).linkFree hdisk here) hcanonical h.wellFormed
      (h.linkless.linkFree h.wellFormed here) (h.grown.find_directory hcanonical) hsurvey

/-- **Modules are looked for in the same place** again. -/
theorem loader_eq {loader : Python.Loader} (hloader : settings.loader disk = .ok loader) :
    settings.loader later = .ok loader ∧ ".." ∉ loader.searchRoot.pieces := by
  obtain ⟨root, hroot, hforTree⟩ := Survey.bind_eq_ok.mp hloader
  cases hforTree
  obtain ⟨here, rfl, hfind⟩ := Settings.resolveRoot_eq_ok.mp hroot
  have hproper := hdisk.proper (entryAt_of_resolve (resolve_of_find hfind))
  refine ⟨?_, Python.up_notMem_searchRootFor disk hproper⟩
  have hlater := Settings.resolveRoot_eq_ok.mpr ⟨here, rfl, h.grown.find_directory hfind⟩
  rw [Settings.loader, hlater, Python.Loader.forTree, ← h.searchRootFor_eq hdisk hproper]
  rfl

end Disk.Sourced

end ApiStubs
