import ApiStubs.Proofs.Surveying

/-!
# Proofs — Inventory — the packages of a tree without links

Where no link is below the root, what a survey lists can be said from the tree alone: the places
that visible, included packages lead to (`Survey.Entered`) and that have something to document
(`Survey.Documented`), each with the modules and packages that stand directly in it
(`Survey.Describes`), in the order of the names on the way.  Only a module file whose path is too
long to be looked up keeps a survey from coming to its end: `Survey.survey_inventory`.
-/

namespace ApiStubs.Survey

open FilePath (IsFileName)
open Python (packageMarker)

/-! ### What the tree holds -/

/-- The directory holds a package marker, at a path that can be looked up. -/
def Marked (disk : Disk) (here : Location) : Prop :=
  (∃ content, disk.entryAt (here ++ [packageMarker]) = some (.file content))
    ∧ (Location.path (here ++ [packageMarker])).text.utf8ByteSize ≤ maxPathBytes

/-- A module file of a directory that no pattern covers, with its size. -/
def HasModule (disk : Disk) (selection : Selection) (here : Location) (file : ModuleFile) : Prop :=
  selection.isModuleFile file.fileName = true
    ∧ ∃ content, disk.entryAt (here ++ [file.fileName]) = some (.file content)
      ∧ file.size = content.size

/-- A visible package in a directory that no rule leaves out. -/
def HasPackage (disk : Disk) (selection : Selection) (here : Location) (name : String) : Prop :=
  isVisibleDirectory name = true
    ∧ selection.exclusions.covers (Location.path (here ++ [name])) = false
    ∧ Marked disk (here ++ [name])

/-- A directory with something to document: a package, a module besides the marker, or a marker
that is not trivial. -/
def Documentable (disk : Disk) (selection : Selection) (here : Location) : Prop :=
  (∃ name, HasPackage disk selection here name)
    ∨ ∃ file, HasModule disk selection here file
      ∧ (file.isMarker = false ∨ trivialSize < file.size)

/-- No directory on the way is left out, and each below the root is a visible package. -/
structure Entered (disk : Disk) (selection : Selection) (root names : Location) : Prop where
  included : ∀ above, above <+: names →
    selection.exclusions.covers (Location.path (root ++ above)) = false
  packages : ∀ above name, above ++ [name] <+: names →
    isVisibleDirectory name = true ∧ Marked disk (root ++ (above ++ [name]))

/-- A package that a survey comes to, with something to document. -/
structure Documented (disk : Disk) (selection : Selection) (root names : Location) : Prop where
  entered : Entered disk selection root names
  marked : Marked disk (root ++ names)
  documentable : Documentable disk selection (root ++ names)

/-- The package that stands at names below the root: its marker comes first among its modules, the
others follow in the order of their names. -/
structure Describes (disk : Disk) (selection : Selection) (root names : Location)
    (package : Package) : Prop where
  name : package.name = Dotted.ofComponents ((rootPackage? disk root.path).toList ++ names)
  path : package.path = Location.path (root ++ names)
  modules : ∀ file, file ∈ package.modules ↔ HasModule disk selection (root ++ names) file
  ordered : package.modules.Pairwise fun a b =>
    b.isMarker = false ∧ (a.isMarker = true ∨ a.fileName < b.fileName)
  subpackages : ∀ name, name ∈ package.subpackages ↔ HasPackage disk selection (root ++ names) name
  ascending : package.subpackages.Pairwise (· < ·)

/-- A module file that is to be listed, at a path that is too long to be looked up. -/
structure Unreachable (disk : Disk) (selection : Selection) (root names : Location)
    (file : ModuleFile) : Prop where
  entered : Entered disk selection root names
  marked : Marked disk (root ++ names)
  listed : HasModule disk selection (root ++ names) file
  long : maxPathBytes < (Location.path (root ++ names ++ [file.fileName])).text.utf8ByteSize

/-- The module that something listed in a directory is. -/
def moduleOf (selection : Selection) (child : String × Entry) : Option ModuleFile :=
  match child.2 with
  | .file content =>
    if selection.isModuleFile child.1 then some ⟨child.1, content.size⟩ else none
  | _ => none

/-- The modules among the listed children are the files that are called like modules. -/
theorem moduleOf_eq_some {selection : Selection} {child : String × Entry} {file : ModuleFile} :
    moduleOf selection child = some file ↔
      child.1 = file.fileName ∧ selection.isModuleFile file.fileName = true
        ∧ ∃ content, child.2 = .file content ∧ file.size = content.size := by
  obtain ⟨name, entry⟩ := child
  obtain ⟨fileName, size⟩ := file
  cases entry with
  | directory => simp [moduleOf]
  | link target => simp [moduleOf]
  | file content =>
    simp only [moduleOf]
    constructor
    · intro h
      split at h
      · cases h
        exact ⟨rfl, ‹_›, content, rfl, rfl⟩
      · cases h
    · rintro ⟨rfl, hmodule, other, hother, rfl⟩
      cases hother
      exact if_pos hmodule

/-! ### Directories that are entered -/

section

variable {disk : Disk} (hdisk : disk.WellFormed) {selection : Selection} {root : Location}

include hdisk

theorem Marked.directory {here : Location} (h : Marked disk here) :
    disk.entryAt here = some .directory := by
  obtain ⟨⟨content, hentry⟩, -⟩ := h
  exact (hdisk.above hentry).1

/-- The path of a directory is no longer than the paths of what is in it. -/
theorem Marked.short {here : Location} (h : Marked disk here) :
    here.path.text.utf8ByteSize ≤ maxPathBytes := by
  refine Nat.le_trans ?_ h.2
  have hproper := hdisk.proper (h.directory hdisk)
  rw [Location.path_concat hproper Python.isFileName_packageMarker, FilePath.text_join (by decide),
    String.utf8ByteSize_append]
  split
  · exact Nat.le_add_right _ _
  · rw [String.utf8ByteSize_append]
    omega

theorem isPackage_path {here : Location} (hfree : disk.LinkFree here)
    (hdir : disk.entryAt here = some .directory) :
    Python.isPackage disk here.path = true ↔ Marked disk here := by
  rw [Python.isPackage, ← Location.path_concat (hdisk.proper hdir)
    Python.isFileName_packageMarker, hdisk.isFile_path hdir Python.isFileName_packageMarker]
  · rfl
  · intro target hlink
    exact hfree.kind_ne hlink rfl

/-- A directory is entered where no rule covers it and, below the root, a visible package is. -/
theorem enters_iff (hfree : disk.LinkFree root) {names : Location} {entry : Entry}
    (hentry : disk.entryAt (root ++ names) = some entry) :
    enters disk selection (Disk.visitAt root names entry) = true ↔
      entry = .directory
        ∧ selection.exclusions.covers (Location.path (root ++ names)) = false
        ∧ ∀ name ∈ names.getLast?,
          isVisibleDirectory name = true ∧ Marked disk (root ++ names) := by
  rw [enters, Bool.and_eq_true, decide_eq_true_iff, Disk.visitAt, Entry.kind_eq_directory]
  refine and_congr_right fun hdir => ?_
  subst hdir
  rw [← isPackage_path hdisk (hfree.below names) hentry]
  -- the start has no name, and is entered whatever it is called
  cases hlast : names.getLast? with
  | none => simp [Visit.name?, hlast]
  | some name =>
    simp only [Visit.name?, hlast, Bool.and_eq_true, decide_eq_true_iff, kindOf_eq_package,
      Option.mem_some_iff, forall_eq']
    tauto

/-- A survey goes down into directories that are not excluded, and below the root into visible
packages. -/
theorem kept_enters_iff (hfree : disk.LinkFree root) {names : Location} :
    disk.Kept (enters disk selection) root names ↔
      disk.entryAt (root ++ names) = some .directory
        ∧ selection.exclusions.covers (Location.path (root ++ names)) = false
        ∧ ∀ name ∈ names.getLast?,
          isVisibleDirectory name = true ∧ Marked disk (root ++ names) := by
  constructor
  · rintro ⟨entry, hentry, hkeep⟩
    obtain ⟨rfl, hrest⟩ := (enters_iff hdisk hfree hentry).mp hkeep
    exact ⟨hentry, hrest⟩
  · rintro ⟨hentry, hrest⟩
    exact ⟨_, hentry, (enters_iff hdisk hfree hentry).mpr ⟨rfl, hrest⟩⟩

/-- The places that kept entries lead to are those that are entered. -/
theorem entered_iff (hfree : disk.LinkFree root) (hroot : disk.entryAt root = some .directory)
    {names : Location} : Entered disk selection root names ↔
      ∀ above, above <+: names → disk.Kept (enters disk selection) root above := by
  constructor
  · rintro ⟨hincluded, hpackages⟩ above habove
    refine (kept_enters_iff hdisk hfree).mpr ⟨?_, hincluded above habove, ?_⟩
    · rcases List.eq_nil_or_concat' above with rfl | ⟨front, name, rfl⟩
      · rwa [List.append_nil]
      · exact (hpackages front name habove).2.directory hdisk
    · rcases List.eq_nil_or_concat' above with rfl | ⟨front, name, rfl⟩
      · simp
      · intro other hother
        rw [List.getLast?_concat, Option.mem_some_iff] at hother
        exact hother ▸ hpackages front name habove
  · intro hkept
    refine ⟨fun above habove => ?_, fun above name habove => ?_⟩
    · exact ((kept_enters_iff hdisk hfree).mp (hkept above habove)).2.1
    · exact ((kept_enters_iff hdisk hfree).mp (hkept _ habove)).2.2 name (by simp)

/-- A survey visits the directories that are entered. -/
theorem mem_visits_iff (hfree : disk.LinkFree root) (hroot : disk.Canonical root) {visit : Visit} :
    visit ∈ disk.visitsBelow (enters disk selection) root disk.everyLevel [] .directory ↔
      ∃ names, Entered disk selection root names
        ∧ visit = Disk.visitAt root names .directory := by
  have hentry := hroot.entryAt
  have hstart : disk.entryAt (root ++ []) = some .directory := by rwa [List.append_nil]
  rw [hdisk.mem_visitsBelow hstart]
  constructor
  · rintro ⟨names, found, -, hfound, rfl, hkept⟩
    simp only [List.nil_append] at hfound hkept ⊢
    obtain ⟨hdirectory, -⟩ := (kept_enters_iff hdisk hfree).mp (hkept names List.prefix_rfl)
    cases hfound.symm.trans hdirectory
    exact ⟨names, (entered_iff hdisk hfree hentry).mpr hkept, rfl⟩
  · rintro ⟨names, hentered, rfl⟩
    have hkept := (entered_iff hdisk hfree hentry).mp hentered
    obtain ⟨hfound, -⟩ := (kept_enters_iff hdisk hfree).mp (hkept names List.prefix_rfl)
    refine ⟨names, .directory, ?_, hfound, rfl, hkept⟩
    have hlength := hdisk.length_le hfound
    rw [List.length_append] at hlength
    refine Nat.le_trans ?_ (Nat.le_mul_of_pos_right _ (Nat.succ_pos (disk.entries.length + 1)))
    omega

/-- The places that a survey goes down to, in the order of the names on the way. -/
theorem exists_places (hfree : disk.LinkFree root) (hroot : disk.Canonical root) :
    ∃ places : List Location,
      disk.traverse ⟨true, enters disk selection, disk.everyLevel⟩ root.path
          = ⟨places.map fun names => Disk.visitAt root names .directory, none⟩
        ∧ places.Pairwise (· < ·)
        ∧ ∀ names, names ∈ places ↔ Entered disk selection root names := by
  have hshort : ∀ names : Location, disk.Kept (enters disk selection) root names →
      (Location.path (root ++ names)).text.utf8ByteSize ≤ maxPathBytes := by
    intro names hkept
    obtain ⟨-, -, hmarked⟩ := (kept_enters_iff hdisk hfree).mp hkept
    rcases List.eq_nil_or_concat' names with rfl | ⟨above, name, rfl⟩
    · rw [List.append_nil]
      exact hroot.short hdisk
    · exact (hmarked name (by simp)).2.short hdisk
  have htraverse := @Disk.WellFormed.traverse_eq _ hdisk _ hroot hfree
    ⟨true, enters disk selection, disk.everyLevel⟩ fun names hkept _ => hshort names hkept
  have hstart : disk.entryAt (root ++ []) = some .directory := by
    rw [List.append_nil]
    exact hroot.entryAt
  have hsorted := hdisk.visitsBelow_sorted (enters disk selection) disk.everyLevel hstart
  refine ⟨(disk.visitsBelow (enters disk selection) root disk.everyLevel [] .directory).map
    Visit.names, ?_, List.pairwise_map.mpr hsorted, fun names => ?_⟩
  · -- Only directories are visited, so a visit is told by its place.
    have hsame : ∀ visit ∈ disk.visitsBelow (enters disk selection) root disk.everyLevel []
        .directory, Disk.visitAt root visit.names .directory = visit := by
      intro visit hvisit
      obtain ⟨names, -, rfl⟩ := (mem_visits_iff hdisk hfree hroot).mp hvisit
      rfl
    rw [htraverse, List.map_map]
    exact congrArg (Traversal.mk · none)
      ((List.map_congr_left hsame).trans (List.map_id _)).symm
  · rw [List.mem_map]
    constructor
    · rintro ⟨visit, hvisit, rfl⟩
      obtain ⟨names, hentered, rfl⟩ := (mem_visits_iff hdisk hfree hroot).mp hvisit
      exact hentered
    · intro hentered
      exact ⟨_, (mem_visits_iff hdisk hfree hroot).mpr ⟨names, hentered, rfl⟩, rfl⟩

/-! ### What stands in a package -/

/-- What stands directly in a directory is what it lists. -/
theorem children_eq {here : Location} (hfree : disk.LinkFree here) (hhere : disk.Canonical here) :
    (disk.traverse childRule here.path).fault = none ∧ children disk here.path
      = (disk.listing here).map fun child => Disk.visitAt here [child.1] child.2 := by
  have htraverse := @Disk.WellFormed.traverse_eq _ hdisk _ hhere hfree childRule fun names _ hlevels => by
    obtain rfl := List.eq_nil_of_length_eq_zero (Nat.lt_one_iff.mp hlevels)
    rw [List.append_nil]
    exact hhere.short hdisk
  have hlisted : (disk.listing here).map (fun child => Disk.visitAt here [child.1] child.2)
      = ((disk.listing here).map fun child => Disk.visitAt here [child.1] child.2).filter
        fun visit => visit.names ≠ [] := by
    refine (List.filter_eq_self.mpr fun visit hvisit => ?_).symm
    obtain ⟨child, -, rfl⟩ := List.mem_map.mp hvisit
    simp [Disk.visitAt]
  refine ⟨by rw [htraverse], ?_⟩
  rw [children, htraverse, hlisted]
  simp [Disk.visitsBelow, childRule, Disk.visitAt, ← List.map_eq_flatMap]

/-- A visit to a module looks its file up, and fails where the path of the file is too long. -/
theorem module?_visitAt {here : Location} {child : String × Entry}
    (hchild : child ∈ disk.listing here) :
    module? disk selection (Disk.visitAt here [child.1] child.2)
      = match moduleOf selection child with
        | none => .ok none
        | some file =>
          if maxPathBytes < (Location.path (here ++ [file.fileName])).text.utf8ByteSize then
            .error (.traversal (Location.path (here ++ [file.fileName])) .nameTooLong)
          else .ok (some file) := by
  obtain ⟨name, entry⟩ := child
  have hentry := hdisk.mem_listing.mp hchild
  cases entry with
  | directory => rfl
  | link target => rfl
  | file content =>
    have hsize := hdisk.fileSize_path hentry
    simp only [module?, moduleOf, Disk.visitAt, Entry.kind, Visit.name?, List.getLast?_singleton,
      hsize]
    split
    · by_cases hlong : maxPathBytes < (Location.path (here ++ [name])).text.utf8ByteSize
        <;> simp [hlong]
    · rfl

/-- The modules of a directory are read, unless the path of one is too long. -/
theorem readModules_cases {here : Location} {listed : List (String × Entry)}
    (hlisted : ∀ child ∈ listed, child ∈ disk.listing here) :
    (readModules disk selection (listed.map fun child => Disk.visitAt here [child.1] child.2)
          = .ok (listed.filterMap (moduleOf selection))
        ∧ ∀ file ∈ listed.filterMap (moduleOf selection),
          (Location.path (here ++ [file.fileName])).text.utf8ByteSize ≤ maxPathBytes)
      ∨ ∃ file ∈ listed.filterMap (moduleOf selection),
        maxPathBytes < (Location.path (here ++ [file.fileName])).text.utf8ByteSize
        ∧ readModules disk selection (listed.map fun child => Disk.visitAt here [child.1] child.2)
          = .error (.traversal (Location.path (here ++ [file.fileName])) .nameTooLong) := by
  induction listed with
  | nil => exact .inl ⟨rfl, by simp⟩
  | cons child rest ih =>
    obtain ⟨hchild, hrest⟩ := List.forall_mem_cons.mp hlisted
    have hmodule := @module?_visitAt _ hdisk selection _ _ hchild
    rw [List.map_cons, readModules]
    cases hfile : moduleOf selection child with
    | none =>
      simp only [hfile] at hmodule
      rw [List.filterMap_cons_none hfile, hmodule]
      rcases ih hrest with ⟨hread, hshort⟩ | ⟨file, hmem, hlong, hread⟩
      · exact .inl ⟨by rw [hread]; rfl, hshort⟩
      · exact .inr ⟨file, hmem, hlong, by rw [hread]; rfl⟩
    | some file =>
      simp only [hfile] at hmodule
      rw [List.filterMap_cons_some hfile, hmodule]
      by_cases hlong : maxPathBytes < (Location.path (here ++ [file.fileName])).text.utf8ByteSize
      · exact .inr ⟨file, List.mem_cons_self, hlong, by rw [if_pos hlong]; rfl⟩
      rw [if_neg hlong]
      rcases ih hrest with ⟨hread, hshort⟩ | ⟨other, hmem, hother, hread⟩
      · exact .inl ⟨by rw [hread]; rfl, List.forall_mem_cons.mpr ⟨Nat.not_lt.mp hlong, hshort⟩⟩
      · exact .inr ⟨other, List.mem_cons_of_mem _ hmem, hother, by rw [hread]; rfl⟩

/-- The modules listed in a directory are those it has, in the order of their names. -/
theorem mem_filterMap_moduleOf {here : Location} {file : ModuleFile} :
    file ∈ (disk.listing here).filterMap (moduleOf selection)
      ↔ HasModule disk selection here file := by
  rw [List.mem_filterMap]
  constructor
  · rintro ⟨⟨name, entry⟩, hchild, hfile⟩
    obtain ⟨rfl, hmodule, content, rfl, hsize⟩ := moduleOf_eq_some.mp hfile
    exact ⟨hmodule, content, hdisk.mem_listing.mp hchild, hsize⟩
  · rintro ⟨hmodule, content, hentry, hsize⟩
    exact ⟨_, hdisk.mem_listing.mpr hentry, moduleOf_eq_some.mpr ⟨rfl, hmodule, content, rfl, hsize⟩⟩

theorem filterMap_moduleOf_sorted (here : Location) :
    ((disk.listing here).filterMap (moduleOf selection)).Pairwise
      fun a b => a.fileName < b.fileName := by
  rw [List.pairwise_filterMap]
  refine (hdisk.listing_sorted here).imp fun hlt a ha b hb => ?_
  rwa [← (moduleOf_eq_some.mp ha).1, ← (moduleOf_eq_some.mp hb).1]

/-- A visit finds a package below where a package stands. -/
theorem subpackage?_visitAt {here : Location} {child : String × Entry} {name : String}
    (hfree : disk.LinkFree here) (hchild : child ∈ disk.listing here) :
    subpackage? disk selection (Disk.visitAt here [child.1] child.2) = some name
      ↔ child.1 = name ∧ HasPackage disk selection here name := by
  obtain ⟨own, entry⟩ := child
  have hentry := hdisk.mem_listing.mp hchild
  rw [subpackage?_eq_some]
  constructor
  · rintro ⟨hname, hkind, hvisible, hpackage⟩
    cases hname
    obtain rfl := Entry.kind_eq_directory.mp hkind
    obtain ⟨hincluded, hmarker⟩ := kindOf_eq_package.mp hpackage
    exact ⟨rfl, hvisible, hincluded, (isPackage_path hdisk (hfree.below [own]) hentry).mp hmarker⟩
  · rintro ⟨rfl, hvisible, hincluded, hmarked⟩
    obtain rfl := Option.some.inj (hentry.symm.trans (hmarked.directory hdisk))
    exact ⟨rfl, rfl, hvisible, kindOf_eq_package.mpr ⟨hincluded,
      (isPackage_path hdisk (hfree.below [own]) hentry).mpr hmarked⟩⟩

/-- The packages named in a directory are those it has, in the order of their names. -/
theorem mem_filterMap_subpackage? {here : Location} (hfree : disk.LinkFree here) {name : String} :
    name ∈ ((disk.listing here).map fun child => Disk.visitAt here [child.1] child.2).filterMap
        (subpackage? disk selection) ↔ HasPackage disk selection here name := by
  simp only [List.filterMap_map, List.mem_filterMap, Function.comp_apply]
  constructor
  · rintro ⟨child, hchild, hname⟩
    exact ((subpackage?_visitAt hdisk hfree hchild).mp hname).2
  · intro hpackage
    have hchild := hdisk.mem_listing.mpr (hpackage.2.2.directory hdisk)
    exact ⟨_, hchild, (subpackage?_visitAt hdisk hfree hchild).mpr ⟨rfl, hpackage⟩⟩

theorem filterMap_subpackage?_sorted {here : Location} (hfree : disk.LinkFree here) :
    (((disk.listing here).map fun child => Disk.visitAt here [child.1] child.2).filterMap
      (subpackage? disk selection)).Pairwise (· < ·) := by
  rw [List.filterMap_map, List.pairwise_filterMap]
  refine (hdisk.listing_sorted here).imp_of_mem fun ha hb hlt x hx y hy => ?_
  rwa [← ((subpackage?_visitAt hdisk hfree ha).mp hx).1,
    ← ((subpackage?_visitAt hdisk hfree hb).mp hy).1]

end

/-- The marker comes first, and the other modules keep their order. -/
theorem markerFirst_ordered {modules : List ModuleFile}
    (h : modules.Pairwise fun a b => a.fileName < b.fileName) :
    (markerFirst modules).Pairwise fun a b =>
      b.isMarker = false ∧ (a.isMarker = true ∨ a.fileName < b.fileName) := by
  rw [markerFirst]
  split
  · rename_i marker hmarker
    obtain ⟨his, before, after, rfl, hbefore⟩ := List.find?_eq_some_iff_append.mp hmarker
    rw [List.eraseP_append_right _ (by simpa using hbefore), List.eraseP_cons_of_pos his]
    have hafter := (List.pairwise_cons.mp (List.pairwise_append.mp h).2.1).1
    have hplain : ∀ file ∈ before ++ after, file.isMarker = false := by
      refine List.forall_mem_append.mpr ⟨by simpa using hbefore, fun file hfile => ?_⟩
      -- a second marker would have the first one's name
      refine Bool.eq_false_iff.mpr fun hmarker => (hafter file hfile).ne ?_
      exact (of_decide_eq_true his).trans (of_decide_eq_true hmarker).symm
    have hrest : (before ++ after).Pairwise fun a b => a.fileName < b.fileName :=
      h.sublist (List.Sublist.append_left (List.sublist_cons_self marker after) before)
    exact List.pairwise_cons.mpr ⟨fun file hfile => ⟨hplain file hfile, .inl his⟩,
      hrest.imp_of_mem fun _ hb hlt => ⟨hplain _ hb, .inr hlt⟩⟩
  · rename_i hnone
    exact h.imp_of_mem fun _ hb hlt =>
      ⟨Bool.eq_false_iff.mpr (List.find?_eq_none.mp hnone _ hb), .inr hlt⟩

/-- A package is empty when it holds trivial markers only. -/
theorem isEmpty_iff {package : Package}
    (hsame : ∀ file ∈ package.modules, ∀ other ∈ package.modules,
      file.isMarker = true → other.isMarker = true → file.size = other.size) :
    package.isEmpty = true ↔ package.subpackages = []
      ∧ ∀ file ∈ package.modules, file.isMarker = true ∧ file.size ≤ trivialSize := by
  rw [Package.isEmpty, Bool.and_eq_true, Bool.and_eq_true, List.isEmpty_iff, List.all_eq_true,
    and_assoc, forall₂_and]
  refine and_congr_right fun _ => and_congr_right fun hmarkers => ?_
  cases hfind : package.modules.find? ModuleFile.isMarker with
  | none =>
    simp only [Option.map_none, Option.getD_none, true_iff]
    exact fun file hfile => absurd (hmarkers file hfile) (List.find?_eq_none.mp hfind file hfile)
  | some marker =>
    have hmem := List.mem_of_find?_eq_some hfind
    rw [Option.map_some, Option.getD_some, ModuleFile.isTrivial, isTrivialSize, decide_eq_true_iff]
    constructor
    · intro htrivial file hfile
      rwa [hsame file hfile marker hmem (hmarkers file hfile) (hmarkers marker hmem)]
    · exact fun hall => hall marker hmem

theorem not_documentable {disk : Disk} {selection : Selection} {here : Location} :
    ¬ Documentable disk selection here ↔ (∀ name, ¬ HasPackage disk selection here name)
      ∧ ∀ file, HasModule disk selection here file →
        file.isMarker = true ∧ file.size ≤ trivialSize := by
  rw [Documentable, not_or, not_exists, not_exists]
  refine and_congr_right fun _ => forall_congr' fun file => ?_
  rw [not_and, not_or, Bool.not_eq_false, Nat.not_lt]

theorem HasModule.size_eq {disk : Disk} {selection : Selection} {here : Location}
    {file other : ModuleFile} (h : HasModule disk selection here file)
    (hother : HasModule disk selection here other) (hname : file.fileName = other.fileName) :
    file.size = other.size := by
  obtain ⟨-, content, hentry, hsize⟩ := h
  obtain ⟨-, found, hfound, hotherSize⟩ := hother
  rw [hname] at hentry
  cases hentry.symm.trans hfound
  rw [hsize, hotherSize]

/-- A package is passed over when it has nothing to document. -/
theorem Describes.isEmpty_eq_false {disk : Disk} {selection : Selection} {root names : Location}
    {package : Package} (h : Describes disk selection root names package) :
    package.isEmpty = false ↔ Documentable disk selection (root ++ names) := by
  have hempty : package.isEmpty = true ↔ ¬ Documentable disk selection (root ++ names) := by
    rw [not_documentable, isEmpty_iff, List.eq_nil_iff_forall_not_mem]
    · simp only [h.subpackages, h.modules]
    · intro file hfile other hother hmarker hotherMarker
      exact ((h.modules file).mp hfile).size_eq ((h.modules other).mp hother)
        ((of_decide_eq_true hmarker).trans (of_decide_eq_true hotherMarker).symm)
  rw [← Bool.not_eq_true, hempty, not_not]

section

variable {disk : Disk} (hdisk : disk.WellFormed) {selection : Selection} {root : Location}

include hdisk

theorem Marked.canonical {here : Location} (h : Marked disk here) : disk.Canonical here := by
  have hfind := hdisk.find_path (h.directory hdisk) (by simp) true
  rwa [if_neg (Nat.not_lt.mpr (h.short hdisk))] at hfind

/-- The package at a place is read as it is described, unless the path of a module is too long. -/
theorem readPackage_cases (hfree : disk.LinkFree root) {names : Location}
    (hmarked : Marked disk (root ++ names)) {name : String}
    (hname : name = Dotted.ofComponents ((rootPackage? disk root.path).toList ++ names)) :
    (∃ package,
        readPackage disk selection name (Location.path (root ++ names)) = .ok package
        ∧ Describes disk selection root names package
        ∧ ∀ file, HasModule disk selection (root ++ names) file →
          (Location.path (root ++ names ++ [file.fileName])).text.utf8ByteSize ≤ maxPathBytes)
      ∨ ∃ file, HasModule disk selection (root ++ names) file
        ∧ maxPathBytes < (Location.path (root ++ names ++ [file.fileName])).text.utf8ByteSize
        ∧ readPackage disk selection name (Location.path (root ++ names))
          = .error (.traversal (Location.path (root ++ names ++ [file.fileName])) .nameTooLong) := by
  have hbelow := hfree.below names
  obtain ⟨hfault, hchildren⟩ := children_eq hdisk hbelow (hmarked.canonical hdisk)
  have hcases := @readModules_cases _ hdisk selection (root ++ names) _ fun child hchild => hchild
  rw [← hchildren] at hcases
  rcases hcases with ⟨hread, hshort⟩ | ⟨file, hfile, hlong, hread⟩
  · refine .inl ⟨_, readPackage_eq_ok.mpr ⟨_, hread, hfault, rfl⟩, ⟨hname, rfl, ?_, ?_, ?_, ?_⟩, ?_⟩
    · intro file
      rw [mem_markerFirst, mem_filterMap_moduleOf hdisk]
    · exact markerFirst_ordered (filterMap_moduleOf_sorted hdisk (root ++ names))
    · intro sub
      rw [hchildren, mem_filterMap_subpackage? hdisk hbelow]
    · rw [hchildren]
      exact filterMap_subpackage?_sorted hdisk hbelow
    · exact fun file hfile => hshort file ((mem_filterMap_moduleOf hdisk).mpr hfile)
  · exact .inr ⟨file, (mem_filterMap_moduleOf hdisk).mp hfile, hlong, readPackage_eq_error hread⟩

/-- **One place that is entered** adds nothing where there is nothing to document, and otherwise the
package that is described, unless the path of a module is too long. -/
theorem readPackages_step (hfree : disk.LinkFree root) (hroot : disk.entryAt root = some .directory)
    {names : Location} (hentered : Entered disk selection root names) (rest : List Visit) :
    (¬ Documented disk selection root names
        ∧ (∀ file, ¬ Unreachable disk selection root names file)
        ∧ readPackages disk selection ((rootPackage? disk root.path).getD "")
            (Disk.visitAt root names .directory :: rest)
          = readPackages disk selection ((rootPackage? disk root.path).getD "") rest)
      ∨ (∃ package, Documented disk selection root names
        ∧ Describes disk selection root names package
        ∧ (∀ file, ¬ Unreachable disk selection root names file)
        ∧ readPackages disk selection ((rootPackage? disk root.path).getD "")
            (Disk.visitAt root names .directory :: rest)
          = (readPackages disk selection ((rootPackage? disk root.path).getD "") rest).map
              (package :: ·))
      ∨ ∃ file, Unreachable disk selection root names file
        ∧ readPackages disk selection ((rootPackage? disk root.path).getD "")
            (Disk.visitAt root names .directory :: rest)
          = .error (.traversal (Location.path (root ++ names ++ [file.fileName])) .nameTooLong) := by
  have hdirectory : disk.entryAt (root ++ names) = some .directory :=
    ((kept_enters_iff hdisk hfree).mp
      ((entered_iff hdisk hfree hroot).mp hentered names List.prefix_rfl)).1
  have hproper := (Location.Proper.of_append (hdisk.proper hdirectory)).2
  have hkind : selection.kindOf disk (Location.path (root ++ names)) = .package ↔
      Marked disk (root ++ names) := by
    rw [kindOf_eq_package, isPackage_path hdisk (hfree.below names) hdirectory]
    exact and_iff_right (hentered.included names List.prefix_rfl)
  simp only [readPackages, Disk.visitAt]
  by_cases hmarked : Marked disk (root ++ names)
  swap
  · -- only the root is entered without a marker
    exact .inl ⟨fun h => hmarked h.marked, fun file h => hmarked h.marked,
      if_pos fun hpackage => hmarked (hkind.mp hpackage)⟩
  simp only [hkind.mpr hmarked, ne_eq, not_true_eq_false, if_false]
  rcases @readPackage_cases _ hdisk selection _ hfree _ hmarked _
    (join_rootPackage? disk root.path hproper) with
    ⟨package, hread, hdescribes, hshort⟩ | ⟨file, hfile, hlong, hread⟩
  swap
  · exact .inr (.inr ⟨file, ⟨hentered, hmarked, hfile, hlong⟩, by rw [hread]; rfl⟩)
  have hreached : ∀ file, ¬ Unreachable disk selection root names file :=
    fun file h => Nat.not_lt.mpr (hshort file h.listed) h.long
  have hdocumentable := hdescribes.isEmpty_eq_false
  rw [hread]
  cases hempty : package.isEmpty with
  | true =>
    rw [hempty, Bool.true_eq_false, false_iff] at hdocumentable
    refine .inl ⟨fun h => hdocumentable h.documentable, hreached, ?_⟩
    cases readPackages disk selection ((rootPackage? disk root.path).getD "") rest with
    | error fault => rfl
    | ok others => exact congrArg Except.ok (if_pos hempty)
  | false =>
    refine .inr (.inl ⟨package, ⟨hentered, hmarked, hdocumentable.mp hempty⟩, hdescribes, hreached,
      ?_⟩)
    cases readPackages disk selection ((rootPackage? disk root.path).getD "") rest with
    | error fault => rfl
    | ok others => exact congrArg Except.ok (if_neg (by simp [hempty]))

open Classical in
/-- The packages at places that are entered are read as they are described, those with nothing to
document passed over, unless the path of a module is too long. -/
theorem readPackages_cases (hfree : disk.LinkFree root) (hroot : disk.entryAt root = some .directory)
    {places : List Location} (hplaces : ∀ names ∈ places, Entered disk selection root names) :
    (∃ packages, readPackages disk selection ((rootPackage? disk root.path).getD "")
          (places.map fun names => Disk.visitAt root names .directory) = .ok packages
        ∧ (∀ names ∈ places, ∀ file, ¬ Unreachable disk selection root names file)
        ∧ List.Forall₂ (Describes disk selection root)
          (places.filter fun names => Documented disk selection root names) packages)
      ∨ ∃ names file, Unreachable disk selection root names file
        ∧ readPackages disk selection ((rootPackage? disk root.path).getD "")
            (places.map fun names => Disk.visitAt root names .directory)
          = .error (.traversal (Location.path (root ++ names ++ [file.fileName])) .nameTooLong) := by
  induction places with
  | nil => exact .inl ⟨[], rfl, by simp, .nil⟩
  | cons names rest ih =>
    obtain ⟨hentered, hrest⟩ := List.forall_mem_cons.mp hplaces
    rw [List.map_cons]
    rcases readPackages_step hdisk hfree hroot hentered
        (rest.map fun names => Disk.visitAt root names .directory) with
      ⟨hnone, hfirst, hread⟩ | ⟨package, hdocumented, hdescribes, hfirst, hread⟩
        | ⟨file, hlong, hread⟩
    · rw [hread, List.filter_cons_of_neg (by simpa using hnone)]
      rcases ih hrest with ⟨packages, hothers, hreached, hdescribed⟩ | hlong
      · exact .inl ⟨packages, hothers, List.forall_mem_cons.mpr ⟨hfirst, hreached⟩, hdescribed⟩
      · exact .inr hlong
    · rw [hread, List.filter_cons_of_pos (by simpa using hdocumented)]
      rcases ih hrest with ⟨packages, hothers, hreached, hdescribed⟩ | ⟨other, file, hlong, hothers⟩
      · exact .inl ⟨package :: packages, by rw [hothers]; rfl,
          List.forall_mem_cons.mpr ⟨hfirst, hreached⟩, .cons hdescribes hdescribed⟩
      · exact .inr ⟨other, file, hlong, by rw [hothers]; rfl⟩
    · exact .inr ⟨names, file, hlong, hread⟩

end

/-- The root has a name for what is below it when it is a package. -/
theorem rootPackage?_eq_some {disk : Disk} (hdisk : disk.WellFormed) {root : Location}
    (hfree : disk.LinkFree root) (hroot : disk.Canonical root) (hne : root ≠ []) {name : String} :
    rootPackage? disk root.path = some name ↔ Marked disk root ∧ root.getLast? = some name := by
  obtain ⟨above, own, rfl⟩ := (List.eq_nil_or_concat' root).resolve_left hne
  obtain ⟨habove, hown⟩ := (hdisk.proper hroot.entryAt).of_append
  rw [rootPackage?, Location.fileName?_path habove (hown own List.mem_cons_self),
    List.getLast?_concat, ← isPackage_path hdisk hfree hroot.entryAt]
  cases Python.isPackage disk (Location.path (above ++ [own])) <;> simp

/-- A survey comes to its end unless the path of a module that it is to list is too long. -/
theorem survey_cases {disk : Disk} (hdisk : disk.WellFormed) {root : Location}
    (hfree : disk.LinkFree root) (hroot : disk.Canonical root) (selection : Selection) :
    (∃ packages places, survey disk selection root.path = .ok packages
        ∧ (∀ names file, ¬ Unreachable disk selection root names file)
        ∧ places.Pairwise (· < ·)
        ∧ (∀ names, names ∈ places ↔ Documented disk selection root names)
        ∧ List.Forall₂ (Describes disk selection root) places packages)
      ∨ ∃ names file, Unreachable disk selection root names file
        ∧ survey disk selection root.path = .error
          (.traversal (Location.path (root ++ names ++ [file.fileName])) .nameTooLong) := by
  classical
  obtain ⟨places, htraverse, hsorted, hplaces⟩ := @exists_places _ hdisk selection _ hfree hroot
  rcases readPackages_cases hdisk hfree hroot.entryAt fun names hnames => (hplaces names).mp hnames
    with ⟨packages, hread, hreached, hdescribed⟩ | ⟨names, file, hlong, hread⟩
  · refine .inl ⟨packages, _, ?_, fun names file hlong => ?_, hsorted.filter _, fun names => ?_,
      hdescribed⟩
    · rw [survey, htraverse, hread]
      rfl
    · exact hreached names ((hplaces names).mpr hlong.entered) file hlong
    · rw [List.mem_filter, decide_eq_true_iff, hplaces]
      exact and_iff_right_of_imp Documented.entered
  · refine .inr ⟨names, file, hlong, ?_⟩
    rw [survey, htraverse, hread]
    rfl

/-- **What a survey lists of a tree without links**: each place with something to document once, in
the order of the names on the way, with what stands directly in it. The root gives its name to what
is below it when it is a package. Only a module file whose path is too long ends a survey early. -/
theorem survey_inventory {disk : Disk} (hdisk : disk.WellFormed) {root : Location}
    (hfree : disk.LinkFree root) (hroot : disk.Canonical root) (hne : root ≠ [])
    (selection : Selection) :
    (∀ name, rootPackage? disk root.path = some name
        ↔ Marked disk root ∧ root.getLast? = some name)
      ∧ ((∃ packages places, survey disk selection root.path = .ok packages
          ∧ (∀ names file, ¬ Unreachable disk selection root names file)
          ∧ places.Pairwise (· < ·)
          ∧ (∀ names, names ∈ places ↔ Documented disk selection root names)
          ∧ List.Forall₂ (Describes disk selection root) places packages)
        ∨ ∃ names file, Unreachable disk selection root names file
          ∧ survey disk selection root.path = .error
            (.traversal (Location.path (root ++ names ++ [file.fileName])) .nameTooLong)) :=
  ⟨fun _ => rootPackage?_eq_some hdisk hfree hroot hne, survey_cases hdisk hfree hroot selection⟩

/-- A package with a module, packages below it, one of them empty, and a private directory. -/
def shelves : Disk where
  entries := [
    (["pkg"], .directory),
    (["pkg", "__init__.py"], .file (.text "")),
    (["pkg", "zeta.py"], .file (.text "")),
    (["pkg", "util"], .directory),
    (["pkg", "util", "__init__.py"], .file (.text "x = 1")),
    (["pkg", "empty"], .directory),
    (["pkg", "empty", "__init__.py"], .file (.text "")),
    (["pkg", "_own"], .directory),
    (["pkg", "_own", "__init__.py"], .file (.text "y = 2"))]
  workingDirectory := []

theorem survey_inventory_shelves :
    shelves.WellFormed ∧ shelves.LinkFree ["pkg"] ∧ shelves.Canonical ["pkg"]
      ∧ ∃ places : List Location, places.Pairwise (· < ·)
        ∧ (∀ names, names ∈ places ↔ Documented shelves ⟨⟨[]⟩, []⟩ ["pkg"] names)
        ∧ List.Forall₂ (Describes shelves ⟨⟨[]⟩, []⟩ ["pkg"]) places [
          ⟨"pkg", ⟨"/pkg"⟩, [⟨"__init__.py", 0⟩, ⟨"zeta.py", 0⟩], ["empty", "util"]⟩,
          ⟨"pkg.util", ⟨"/pkg/util"⟩, [⟨"__init__.py", 5⟩], []⟩] := by
  refine ⟨by decide +kernel, by decide, by decide +kernel, ?_⟩
  have hsurvey : survey shelves ⟨⟨[]⟩, []⟩ (Location.path ["pkg"]) = .ok [
      ⟨"pkg", ⟨"/pkg"⟩, [⟨"__init__.py", 0⟩, ⟨"zeta.py", 0⟩], ["empty", "util"]⟩,
      ⟨"pkg.util", ⟨"/pkg/util"⟩, [⟨"__init__.py", 5⟩], []⟩] := by decide +kernel
  rcases (@survey_inventory shelves (by decide +kernel) ["pkg"] (by decide) (by decide +kernel)
    (by decide) ⟨⟨[]⟩, []⟩).2 with
    ⟨packages, places, hok, -, hsorted, hplaces, hdescribed⟩ | ⟨names, file, -, herror⟩
  · cases hsurvey.symm.trans hok
    exact ⟨places, hsorted, hplaces, hdescribed⟩
  · cases hsurvey.symm.trans herror

/-! ### A path that is too long -/

/-- Directories inside each other, with files in the last. -/
def corridor (way : Location) (files : List (String × String)) : Disk where
  entries := way.prefixes.map (fun above => (above, .directory))
    ++ files.map fun file => (way ++ [file.1], .file (.text file.2))
  workingDirectory := []

/-- The places of a corridor are different ones. -/
theorem corridor_keys_nodup {way : Location} {files : List (String × String)}
    (honce : (files.map Prod.fst).Nodup) :
    ((corridor way files).entries.map Prod.fst).Nodup := by
  rw [corridor, List.map_append, List.map_map, List.map_map, List.nodup_append]
  refine ⟨?_, ?_, ?_⟩
  · exact (List.map_id way.prefixes).symm ▸ way.nodup_prefixes
  · have hnames : (files.map Prod.fst).map (fun name => way ++ [name])
        = files.map (Prod.fst ∘ fun file => (way ++ [file.1], Entry.file (.text file.2))) := by
      rw [List.map_map]
      rfl
    rw [← hnames]
    exact honce.map fun _ _ hsame => List.head_eq_of_cons_eq (List.append_cancel_left hsame)
  · rintro above habove place hplace rfl
    -- a file is deeper than every directory
    obtain ⟨other, hother, rfl⟩ := List.mem_map.mp habove
    obtain ⟨file, -, hfile⟩ := List.mem_map.mp hplace
    have hlength := (Location.mem_prefixes.mp hother).1.length_le
    rw [show other = way ++ [file.1] from hfile.symm, List.length_append] at hlength
    exact absurd hlength (by simp)

theorem corridor_directory {way above : Location} {files : List (String × String)}
    (honce : (files.map Prod.fst).Nodup) (h : above <+: way) :
    (corridor way files).entryAt above = some .directory := by
  by_cases hnil : above = []
  · rw [hnil]
    rfl
  · refine Disk.entryAt_of_nodup (corridor_keys_nodup honce) hnil (List.mem_append_left _ ?_)
    exact List.mem_map_of_mem (Location.mem_prefixes.mpr ⟨h, hnil⟩)

theorem corridor_file {way : Location} {files : List (String × String)}
    (honce : (files.map Prod.fst).Nodup) {file : String × String} (hfile : file ∈ files) :
    (corridor way files).entryAt (way ++ [file.1]) = some (.file (.text file.2)) :=
  Disk.entryAt_of_nodup (corridor_keys_nodup honce) (by simp)
    (List.mem_append_right _ (List.mem_map_of_mem hfile))

/-- A corridor is a well-formed tree if its names can be names of files. -/
theorem corridor_wellFormed {way : Location} {files : List (String × String)}
    (hway : ∀ name ∈ way, IsFileName name ∧ name.utf8ByteSize ≤ maxNameBytes)
    (hfiles : ∀ file ∈ files, IsFileName file.1 ∧ file.1.utf8ByteSize ≤ maxNameBytes)
    (honce : (files.map Prod.fst).Nodup) : (corridor way files).WellFormed where
  inside place hplace := by
    rcases List.mem_append.mp hplace with hmem | hmem
    · obtain ⟨above, habove, rfl⟩ := List.mem_map.mp hmem
      obtain ⟨hbelow, hne⟩ := Location.mem_prefixes.mp habove
      exact ⟨hne, corridor_directory honce ((List.dropLast_prefix above).trans hbelow)⟩
    · obtain ⟨file, -, rfl⟩ := List.mem_map.mp hmem
      refine ⟨by simp, ?_⟩
      rw [List.dropLast_concat]
      exact corridor_directory honce List.prefix_rfl
  named place hplace name hname := by
    rcases List.mem_append.mp hplace with hmem | hmem
    · obtain ⟨above, habove, rfl⟩ := List.mem_map.mp hmem
      exact hway name ((Location.mem_prefixes.mp habove).1.subset (List.mem_of_getLast? hname))
    · obtain ⟨file, hfile, rfl⟩ := List.mem_map.mp hmem
      rw [List.getLast?_concat, Option.mem_some_iff] at hname
      exact hname ▸ hfiles file hfile
  once := corridor_keys_nodup honce

theorem corridor_linkFree (way : Location) (files : List (String × String)) (root : Location) :
    (corridor way files).LinkFree root := by
  intro place hplace _
  rcases List.mem_append.mp hplace with habove | hfile
  · obtain ⟨above, -, rfl⟩ := List.mem_map.mp habove
    simp [Entry.kind]
  · obtain ⟨file, -, rfl⟩ := List.mem_map.mp hfile
    simp [Entry.kind]

/-- A path of equal names has the size of one name, with its separator, for each of them. -/
theorem size_path_replicate {name : String} (hname : IsFileName name) (depth : Nat) :
    (Location.path (List.replicate (depth + 1) name)).text.utf8ByteSize
      = (depth + 1) * (name.utf8ByteSize + 1) := by
  induction depth with
  | zero =>
    have hone : (Location.path [name]).text = "/" ++ name := by
      simp [Location.path, Text.join, Text.glue]
    rw [Nat.zero_add, List.replicate_one, hone, String.utf8ByteSize_append, Nat.one_mul,
      Nat.add_comm]
    rfl
  | succ depth ih =>
    have hproper : Location.Proper (List.replicate (depth + 1) name) :=
      fun other hother => List.eq_of_mem_replicate hother ▸ hname
    rw [List.replicate_succ', Location.size_path_concat hproper (by simp) hname, ih,
      Nat.succ_mul (depth + 1)]
    omega

/-- A name of so many letters. -/
def nameOf (count : Nat) : String := String.ofList (List.replicate count 'd')

theorem size_nameOf (count : Nat) : (nameOf count).utf8ByteSize = count := by
  induction count with
  | zero => rfl
  | succ count ih =>
    rw [nameOf] at ih ⊢
    rw [List.replicate_succ', String.ofList_append, String.utf8ByteSize_append, ih]
    rfl

theorem isFileName_nameOf {count : Nat} (h : 2 < count) : IsFileName (nameOf count) := by
  refine FilePath.isFileName_of_long (fun hseparator => ?_) (by rwa [size_nameOf])
  rw [nameOf, String.toList_ofList] at hseparator
  exact absurd (List.eq_of_mem_replicate hseparator) (by decide)

/-- A way whose path leaves room for the name of a package marker. -/
def deepWay : Location := List.replicate 16 (nameOf 254)

def deepFiles : List (String × String) := [("__init__.py", "x = 1"), ("distant_place.py", "y = 2")]

/-- A package at the end of a long way, with a module whose name is longer than the marker's. -/
def deep : Disk := corridor deepWay deepFiles

theorem deepWay_size : deepWay.path.text.utf8ByteSize = 4080 := by
  rw [deepWay, size_path_replicate (isFileName_nameOf (by decide)) 15, size_nameOf]

theorem deepFiles_nodup : (deepFiles.map Prod.fst).Nodup := by decide

theorem deep_wellFormed : deep.WellFormed := by
  refine corridor_wellFormed (fun name hname => ?_) (by decide +kernel) deepFiles_nodup
  rw [List.eq_of_mem_replicate hname, size_nameOf]
  exact ⟨isFileName_nameOf (by decide), by decide⟩

/-- **A module at a path that is too long** is not listed, and neither is anything else: the survey
of the package ends with a fault. -/
theorem deep_not_surveyed :
    deep.WellFormed ∧ deep.LinkFree deepWay ∧ deep.Canonical deepWay ∧ deepWay ≠ []
      ∧ Documented deep ⟨⟨[]⟩, []⟩ deepWay []
      ∧ ∀ packages, survey deep ⟨⟨[]⟩, []⟩ deepWay.path ≠ .ok packages := by
  have hne : deepWay ≠ [] := List.cons_ne_nil _ _
  have hdirectory : deep.entryAt deepWay = some .directory :=
    corridor_directory deepFiles_nodup List.prefix_rfl
  have hmarker : deep.entryAt (deepWay ++ ["__init__.py"]) = some (.file (.text "x = 1")) :=
    @corridor_file deepWay deepFiles deepFiles_nodup ("__init__.py", "x = 1") (by decide)
  have hdistant : deep.entryAt (deepWay ++ ["distant_place.py"]) = some (.file (.text "y = 2")) :=
    @corridor_file deepWay deepFiles deepFiles_nodup ("distant_place.py", "y = 2") (by decide)
  have hproper := deep_wellFormed.proper hdirectory
  have hfree : deep.LinkFree deepWay := corridor_linkFree deepWay deepFiles deepWay
  have hcanonical : deep.Canonical deepWay := by
    have hfind := deep_wellFormed.find_path hdirectory (by simp) true
    rwa [deepWay_size, if_neg (by decide)] at hfind
  have hmarked : Marked deep (deepWay ++ []) := by
    rw [List.append_nil]
    refine ⟨⟨_, hmarker⟩, ?_⟩
    rw [Location.size_path_concat hproper hne Python.isFileName_packageMarker, deepWay_size]
    decide
  have hmodule : HasModule deep ⟨⟨[]⟩, []⟩ (deepWay ++ []) ⟨"distant_place.py", 5⟩ := by
    rw [List.append_nil]
    exact ⟨by decide +kernel, _, hdistant, by decide⟩
  have hentered : Entered deep ⟨⟨[]⟩, []⟩ deepWay [] :=
    ⟨fun _ _ => rfl, fun above name hbelow => absurd (List.prefix_nil.mp hbelow) (by simp)⟩
  have hlong : Unreachable deep ⟨⟨[]⟩, []⟩ deepWay [] ⟨"distant_place.py", 5⟩ := by
    refine ⟨hentered, hmarked, hmodule, ?_⟩
    rw [List.append_nil, Location.size_path_concat hproper hne (by decide), deepWay_size]
    decide
  refine ⟨deep_wellFormed, hfree, hcanonical, hne,
    ⟨hentered, hmarked, .inr ⟨_, hmodule, .inl (by decide)⟩⟩, fun packages hsurvey => ?_⟩
  rcases survey_cases deep_wellFormed hfree hcanonical ⟨⟨[]⟩, []⟩ with
    ⟨-, -, -, hreached, -⟩ | ⟨names, file, -, herror⟩
  · exact hreached [] _ hlong
  · cases hsurvey.symm.trans herror

end ApiStubs.Survey
