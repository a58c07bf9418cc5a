import ApiStubs.Proofs.Surveying
import ApiStubs.Python.Loader

/-!
# Proofs — Module paths — where the modules of a survey are imported from

A survey names a module by the directories on the way to its file; the loader reads directories off
the name again.  The two agree on a file exactly when no dot in a directory or file name can be
taken for one between names, and no package of the same name hides the file.
-/

namespace ApiStubs

open FilePath (IsFileName)

/-! ### Dotted names and their components -/

namespace Text

theorem cut_glue_flatMap (sep : Char) {parts : List (List Char)} (h : parts ≠ []) :
    cut sep (glue sep parts) = parts.flatMap (cut sep) := by
  induction parts with
  | nil => exact absurd rfl h
  | cons part rest ih =>
    cases rest with
    | nil => simp [glue]
    | cons next more =>
      rw [glue, cut_append_cut, ih (List.cons_ne_nil next more)]
      rfl

/-- The pieces of a joined text are those of its parts. -/
theorem pieces_join_flatMap (sep : Char) {parts : List String} (h : parts ≠ []) :
    pieces sep (join sep parts) = parts.flatMap (pieces sep) := by
  have hparts : parts.map String.toList ≠ [] := fun hnil => h (List.map_eq_nil_iff.mp hnil)
  rw [pieces, join, String.toList_ofList, cut_glue_flatMap sep hparts, List.flatMap_map,
    List.map_flatMap]
  rfl

/-- A text is what stands before the last separator, the separator, and what stands behind it. -/
theorem eq_of_splitLast? {sep : Char} {s before after : String}
    (h : splitLast? sep s = some (before, after)) :
    s = before ++ String.singleton sep ++ after := by
  rw [splitLast?] at h
  split at h
  · cases h
  · rename_i found rest hdrop
    cases h
    have hfound : found = sep := by
      have hnot := List.head?_dropWhile_not (fun c => decide (c ≠ sep)) s.toList.reverse
      rw [hdrop] at hnot
      simpa using hnot
    have hsplit := List.takeWhile_append_dropWhile (p := fun c => decide (c ≠ sep))
      (l := s.toList.reverse)
    rw [hdrop, hfound] at hsplit
    have hwhole := congrArg List.reverse hsplit
    rw [List.reverse_reverse] at hwhole
    refine String.toList_inj.mp (hwhole.symm.trans ?_)
    simp

end Text

namespace Dotted

theorem join_ofComponents {parts : List String} (hparts : "" ∉ parts) {inner : String}
    (hinner : inner ≠ "") : join (ofComponents parts) inner = ofComponents (parts ++ [inner]) := by
  by_cases hnil : parts = []
  · subst hnil
    simp [join, ofComponents, Text.join, Text.glue]
  · have hne : ofComponents parts ≠ "" := fun hempty => hnil (Text.join_eq_empty hparts hempty)
    rw [join, if_neg hne, if_neg hinner, ofComponents, ofComponents, Text.join_concat '.' hnil]
    rfl

theorem components_ofComponents {parts : List String} (hparts : parts ≠ []) :
    components (ofComponents parts) = parts.flatMap components :=
  Text.pieces_join_flatMap '.' hparts

/-- Parts without a dot are the components of the name they make. -/
theorem components_of_no_dot {parts : List String} (hparts : parts ≠ [])
    (h : ∀ part ∈ parts, '.' ∉ part.toList) : components (ofComponents parts) = parts :=
  Text.pieces_join hparts h

end Dotted

/-! ### The names of module files -/

namespace FilePath

theorem fileName?_mk {name : String} (h : IsFileName name) :
    FilePath.fileName? ⟨name⟩ = some name := by
  have hjoin : (FilePath.mk "").join name = ⟨name⟩ := by
    rw [join, not_startsWith_separator h.no_separator]
    simp
  rw [← hjoin, fileName?_join h]

/-- A name with an extension is its stem, a dot and the extension. -/
theorem eq_stem_append {name extension : String} (hname : IsFileName name)
    (h : extension? ⟨name⟩ = some extension) :
    ∃ stem, stem? ⟨name⟩ = some stem ∧ stem ≠ "" ∧ name = stem ++ "." ++ extension := by
  rw [extension?, fileName?_mk hname, Option.bind_some, splitExtension] at h
  rw [stem?, fileName?_mk hname, Option.map_some, splitExtension]
  split at h
  · rename_i before after hsplit
    split at h
    · cases h
    · rename_i hbefore
      cases h
      have hwhole := Text.eq_of_splitLast? hsplit
      rw [show String.singleton '.' = "." by decide] at hwhole
      exact ⟨before, by simp only [if_neg hbefore], hbefore, hwhole⟩
  · cases h

end FilePath

/-- A listed module file is named after its stem. -/
theorem ModuleFile.fileName_eq {selection : Selection} {file : ModuleFile}
    (hname : IsFileName file.fileName) (h : selection.isModuleFile file.fileName = true) :
    file.fileName = file.stem ++ ".py" ∧ file.stem ≠ "" := by
  rw [Selection.isModuleFile, Bool.and_eq_true, beq_iff_eq] at h
  obtain ⟨stem, hstem, hne, heq⟩ := FilePath.eq_stem_append hname h.1
  have hown : file.stem = stem := by rw [ModuleFile.stem, hstem, Option.getD_some]
  rw [hown]
  exact ⟨by rw [heq, String.append_assoc]; rfl, hne⟩

namespace Survey

open Python (locate isPackage packageMarker moduleExtension searchRootFor)

/-! ### From a file back to its name -/

/-- A name without empty components is looked for as a package first, then as a plain module. -/
theorem locate_eq (disk : Disk) {root : FilePath} {name : String}
    (h : "" ∉ Dotted.components name) : locate disk root name =
      if isPackage disk (root.joinAll (Dotted.components name)) then
        some ⟨(root.joinAll (Dotted.components name)).join packageMarker, true⟩
      else if disk.isFile
          ((root.joinAll (Dotted.components name)).withExtension moduleExtension) then
        some ⟨(root.joinAll (Dotted.components name)).withExtension moduleExtension, false⟩
      else none := by
  rw [locate]
  exact if_neg h

theorem withExtension_path {above : Location} {name : String} (habove : above.Proper)
    (hname : IsFileName name) (hdot : '.' ∉ name.toList) :
    (Location.path (above ++ [name])).withExtension moduleExtension
      = above.path.join (name ++ ".py") := by
  rw [Location.path_concat habove hname]
  exact FilePath.withExtension_join hname hdot above.path

theorem isFileName_extended {name : String} (h : IsFileName name) : IsFileName (name ++ ".py") := by
  refine FilePath.isFileName_of_long ?_ ?_
  · rw [String.toList_append, List.mem_append, not_or]
    exact ⟨h.no_separator, by decide⟩
  · rw [String.utf8ByteSize_append]
    exact Nat.lt_add_left name.utf8ByteSize (by decide)

/-- A module that is found at a file is named by the directories on the way to it, and by the
file's stem unless the file is a marker. -/
theorem components_of_located {disk : Disk} {above directories : Location} {fileName name : String}
    {location : Python.Location} (habove : above.Proper) (hdirectories : directories.Proper)
    (hfile : IsFileName fileName)
    (hparts : ∀ part ∈ Dotted.components name, part ≠ "" → IsFileName part ∧ '.' ∉ part.toList)
    (hlocate : locate disk above.path name = some location)
    (hpath : location.path = (Location.path (above ++ directories)).join fileName) :
    (Dotted.components name = directories ∧ fileName = packageMarker) ∨
      ∃ last, Dotted.components name = directories ++ [last] ∧ fileName = last ++ ".py"
        ∧ isPackage disk (Location.path (above ++ (directories ++ [last]))) = false := by
  have hempty := (Python.locate_eq_some hlocate).1
  have hproper : Location.Proper (Dotted.components name) :=
    fun part hpart => (hparts part hpart fun heq => hempty (heq ▸ hpart)).1
  rw [locate_eq disk hempty, ← Location.path_append habove hproper] at hlocate
  split at hlocate
  · cases hlocate
    obtain ⟨hsame, hmarker⟩ := Location.join_injective (habove.append hproper)
      (habove.append hdirectories) Python.isFileName_packageMarker hfile hpath
    exact .inl ⟨List.append_cancel_left hsame, hmarker.symm⟩
  · rename_i hplain
    split at hlocate
    swap
    · cases hlocate
    cases hlocate
    obtain ⟨before, last, hlast⟩ : ∃ before last, Dotted.components name = before ++ [last] :=
      ⟨_, _, (List.dropLast_append_getLast (Text.pieces_ne_nil '.' name)).symm⟩
    obtain ⟨hown, hdot⟩ := hparts last (by simp [hlast]) fun heq => hempty (by simp [hlast, heq])
    rw [hlast] at hproper hpath hplain
    have hbefore := habove.append (Location.Proper.of_append hproper).1
    rw [← List.append_assoc, withExtension_path hbefore hown hdot] at hpath
    obtain ⟨hsame, hextended⟩ := Location.join_injective hbefore (habove.append hdirectories)
      (isFileName_extended hown) hfile hpath
    rw [List.append_cancel_left hsame] at hplain hlast
    exact .inr ⟨last, hlast, hextended.symm, by simpa using hplain⟩

/-! ### From a name to its file -/

/-- The components of a name made of parts of file names are file names without dots. -/
theorem isFileName_of_components {parts : Location} (h : ∀ part ∈ parts, '/' ∉ part.toList)
    (hne : parts ≠ []) {component : String}
    (hcomponent : component ∈ Dotted.components (Dotted.ofComponents parts))
    (hempty : component ≠ "") : IsFileName component ∧ '.' ∉ component.toList := by
  rw [Dotted.components_ofComponents hne] at hcomponent
  obtain ⟨part, hpart, hmem⟩ := List.mem_flatMap.mp hcomponent
  exact Python.isFileName_of_component (h part hpart) hmem hempty

theorem locate_package {disk : Disk} {above directories : Location} (habove : above.Proper)
    (hdirectories : directories.Proper) (hne : directories ≠ [])
    (hdots : ∀ name ∈ directories, '.' ∉ name.toList)
    (hpackage : isPackage disk (Location.path (above ++ directories)) = true) :
    locate disk above.path (Dotted.ofComponents directories)
      = some ⟨(Location.path (above ++ directories)).join packageMarker, true⟩ := by
  have hcomponents := Dotted.components_of_no_dot hne hdots
  rw [locate_eq disk (by rw [hcomponents]; exact ne_empty_of_proper hdirectories), hcomponents,
    ← Location.path_append habove hdirectories, if_pos hpackage]

/-- A name without dots in its parts is located at the file that the parts lead to. -/
theorem locate_plain {disk : Disk} {above directories : Location} {stem : String}
    (habove : above.Proper) (hdirectories : directories.Proper) (hstem : IsFileName stem)
    (hdots : ∀ name ∈ directories ++ [stem], '.' ∉ name.toList)
    (hunhidden : isPackage disk ((Location.path (above ++ directories)).join stem) = false)
    (hfile : disk.isFile ((Location.path (above ++ directories)).join (stem ++ ".py")) = true) :
    locate disk above.path (Dotted.ofComponents (directories ++ [stem]))
      = some ⟨(Location.path (above ++ directories)).join (stem ++ ".py"), false⟩ := by
  have hparts := hdirectories.append (.singleton hstem)
  have hcomponents := Dotted.components_of_no_dot (by simp) hdots
  have hbefore := habove.append hdirectories
  have hpath : above.path.joinAll (directories ++ [stem])
      = Location.path (above ++ directories ++ [stem]) := by
    rw [← Location.path_append habove hparts, List.append_assoc]
  rw [locate_eq disk (by rw [hcomponents]; exact ne_empty_of_proper hparts), hcomponents, hpath,
    withExtension_path hbefore hstem (hdots stem (by simp)), Location.path_concat hbefore hstem,
    if_neg (by simp [hunhidden]), if_pos hfile]

/-! ### The modules of a survey -/

/-- A package is looked for from the directory above it. -/
theorem searchRootFor_path (disk : Disk) {root : Location} (hroot : root.Proper) (hne : root ≠ []) :
    ∃ above : Location, above.Proper ∧ root = above ++ (rootPackage? disk root.path).toList
      ∧ searchRootFor disk root.path = above.path := by
  obtain ⟨above, name, rfl⟩ := (List.eq_nil_or_concat' root).resolve_left hne
  obtain ⟨habove, hname⟩ := hroot.of_append
  have hown := hname name List.mem_cons_self
  rw [rootPackage?, searchRootFor, Location.fileName?_path habove hown,
    Location.parent?_path habove hown]
  split
  · exact ⟨above, habove, rfl, rfl⟩
  · exact ⟨_, hroot, (List.append_nil _).symm, rfl⟩

/-- No dot is in the way from a module's name to its file, and no package of that name is. The
directories are those that the package's name is made of. -/
structure Importable (disk : Disk) (directories : List String) (package : Package)
    (file : ModuleFile) : Prop where
  undotted : ∀ name ∈ directories, '.' ∉ name.toList
  stem : file.isMarker = false → '.' ∉ file.stem.toList
  unhidden : file.isMarker = false →
    disk.isFile ((package.path.join file.stem).join packageMarker) = false

/-- A module file of a package that is named after the directories on the way to it. -/
structure Placed (disk : Disk) (above directories : Location) (package : Package)
    (file : ModuleFile) : Prop where
  base : above.Proper
  proper : directories.Proper
  nonempty : directories ≠ []
  path : package.path = Location.path (above ++ directories)
  name : package.name = Dotted.ofComponents directories
  fileName : IsFileName file.fileName
  stem : file.fileName = file.stem ++ ".py" ∧ file.stem ≠ ""
  found : disk.isFile (package.path.join file.fileName) = true

namespace Placed

variable {disk : Disk} {above directories : Location} {package : Package} {file : ModuleFile}

theorem moduleName_marker (h : Placed disk above directories package file)
    (hmarker : file.isMarker = true) :
    package.moduleName file = Dotted.ofComponents directories := by
  rw [Package.moduleName, if_pos hmarker, h.name]

theorem moduleName_plain (h : Placed disk above directories package file)
    (hplain : file.isMarker = false) :
    package.moduleName file = Dotted.ofComponents (directories ++ [file.stem]) := by
  rw [Package.moduleName, hplain, if_neg Bool.false_ne_true, h.name,
    Dotted.join_ofComponents (ne_empty_of_proper h.proper) h.stem.2]

theorem no_separator (h : Placed disk above directories package file) :
    ∀ part ∈ directories ++ [file.stem], '/' ∉ part.toList := by
  have hname := h.fileName.no_separator
  rw [h.stem.1, String.toList_append, List.mem_append, not_or] at hname
  refine List.forall_mem_append.mpr ⟨fun part hpart => (h.proper part hpart).no_separator, ?_⟩
  exact List.forall_mem_singleton.mpr hname.1

/-- Where nothing is in the way, a module is found at its file. -/
theorem located (h : Placed disk above directories package file)
    (himportable : Importable disk directories package file) :
    locate disk above.path (package.moduleName file)
      = some ⟨package.path.join file.fileName, file.isMarker⟩ := by
  have hfound := h.found
  cases hmarker : file.isMarker with
  | true =>
    have hname : file.fileName = packageMarker := of_decide_eq_true hmarker
    rw [h.path, hname] at hfound
    rw [h.moduleName_marker hmarker, h.path, hname]
    exact locate_package h.base h.proper h.nonempty himportable.undotted hfound
  | false =>
    have hunhidden := himportable.unhidden hmarker
    have hnames : ∀ name ∈ directories ++ [file.stem], '.' ∉ name.toList :=
      List.forall_mem_append.mpr ⟨himportable.undotted,
        List.forall_mem_singleton.mpr (himportable.stem hmarker)⟩
    have hcomponents := Dotted.components_of_no_dot (by simp) hnames
    have hstem : IsFileName file.stem :=
      (isFileName_of_components h.no_separator (by simp) (by simp [hcomponents]) h.stem.2).1
    rw [h.stem.1, h.path] at hfound
    rw [h.path] at hunhidden
    rw [h.moduleName_plain hmarker, h.stem.1, h.path]
    exact locate_plain h.base h.proper hstem hnames hunhidden hfound

/-- Where a package is found at its marker, its directories have no dots. -/
theorem importable_marker (h : Placed disk above directories package file)
    (hmarker : file.isMarker = true) {location : Python.Location}
    (hlocate : locate disk above.path (package.moduleName file) = some location)
    (hpath : location.path = package.path.join file.fileName) :
    Importable disk directories package file := by
  rw [h.path] at hpath
  rw [h.moduleName_marker hmarker] at hlocate
  have hparts := fun part hpart => @isFileName_of_components _
    (List.forall_mem_append.mp h.no_separator).1 h.nonempty part hpart
  -- Either all parts of the name are directories, or the last of them is the name of the file.
  have hundotted : ∀ {more : Location},
      Dotted.components (Dotted.ofComponents directories) = directories ++ more →
      ∀ name ∈ directories, '.' ∉ name.toList := by
    intro more hcomponents name hname
    refine (hparts name ?_ fun heq => ne_empty_of_proper h.proper (heq ▸ hname)).2
    rw [hcomponents]
    exact List.mem_append_left more hname
  refine ⟨?_, fun hplain => ?_, fun hplain => ?_⟩
  · rcases components_of_located h.base h.proper h.fileName hparts hlocate hpath
      with ⟨hcomponents, -⟩ | ⟨last, hcomponents, -⟩
    · exact @hundotted [] (by rw [hcomponents, List.append_nil])
    · exact hundotted hcomponents
  all_goals
    rw [hmarker] at hplain
    cases hplain

/-- Where another module is found at its file, its name has no dots, and it is not hidden. -/
theorem importable_plain (h : Placed disk above directories package file)
    (hmarker : file.isMarker = false) {location : Python.Location}
    (hlocate : locate disk above.path (package.moduleName file) = some location)
    (hpath : location.path = package.path.join file.fileName) :
    Importable disk directories package file := by
  rw [h.path] at hpath
  rw [h.moduleName_plain hmarker] at hlocate
  have hparts := fun part hpart =>
    @isFileName_of_components _ h.no_separator (by simp) part hpart
  rcases components_of_located h.base h.proper h.fileName hparts hlocate hpath
    with ⟨-, hname⟩ | ⟨last, hcomponents, hname, hunhidden⟩
  · rw [ModuleFile.isMarker, hname] at hmarker
    exact absurd hmarker (by decide)
  have hstem : file.stem = last := by
    rw [h.stem.1] at hname
    exact String.append_left_inj ".py" |>.mp hname
  rw [hcomponents, ← hstem] at hparts
  rw [← hstem, ← List.append_assoc] at hunhidden
  refine ⟨fun name hname => ?_, fun _ => ?_, fun _ => ?_⟩
  · exact (hparts name (List.mem_append_left _ hname) fun heq =>
      ne_empty_of_proper h.proper (heq ▸ hname)).2
  · exact (hparts file.stem (by simp) h.stem.2).2
  · rw [h.path, ← Location.path_concat]
    · exact hunhidden
    · exact h.base.append h.proper
    · exact (hparts file.stem (by simp) h.stem.2).1

/-- Where a module is found at its file, nothing is in the way. -/
theorem importable (h : Placed disk above directories package file) {location : Python.Location}
    (hlocate : locate disk above.path (package.moduleName file) = some location)
    (hpath : location.path = package.path.join file.fileName) :
    Importable disk directories package file := by
  cases hmarker : file.isMarker with
  | true => exact h.importable_marker hmarker hlocate hpath
  | false => exact h.importable_plain hmarker hlocate hpath

end Placed

variable {disk : Disk} {selection : Selection}

/-- A package is at the root only where the root is one, and has its name then. -/
theorem directories_ne_nil {root names : Location} {package : Package} (hroot : root.Proper)
    (hne : root ≠ []) (hpath : package.path = Location.path (root ++ names))
    (hkind : selection.kindOf disk package.path = .package) :
    (rootPackage? disk root.path).toList ++ names ≠ [] := by
  intro hnil
  obtain ⟨htop, rfl⟩ := List.append_eq_nil_iff.mp hnil
  obtain ⟨above, name, rfl⟩ := (List.eq_nil_or_concat' root).resolve_left hne
  obtain ⟨habove, hname⟩ := hroot.of_append
  rw [List.append_nil] at hpath
  rw [hpath] at hkind
  rw [rootPackage?, if_pos (kindOf_eq_package.mp hkind).2,
    Location.fileName?_path habove (hname name List.mem_cons_self)] at htop
  cases htop

/-- **The modules of a survey** are those that the loader finds by their names, wherever no dot and
no package is in the way; elsewhere the loader finds no file or another one. -/
theorem located_iff_importable (hdisk : disk.WellFormed) {root : Location}
    (hroot : disk.Canonical root) (hne : root ≠ []) {packages : List Package}
    (hsurvey : survey disk selection root.path = .ok packages) {package : Package}
    (hpackage : package ∈ packages) {file : ModuleFile} (hfile : file ∈ package.modules) :
    ∃ names : Location, names.Proper ∧ package.path = Location.path (root ++ names)
      ∧ (locate disk (Python.Loader.forTree disk root.path).searchRoot (package.moduleName file)
            = some ⟨package.path.join file.fileName, file.isMarker⟩
          ↔ Importable disk ((rootPackage? disk root.path).toList ++ names) package file)
      ∧ (¬ Importable disk ((rootPackage? disk root.path).toList ++ names) package file →
          ∀ location, locate disk (Python.Loader.forTree disk root.path).searchRoot
              (package.moduleName file) = some location →
            location.path ≠ package.path.join file.fileName) := by
  obtain ⟨names, hproper, hpath, hname, hkind, hmodules, -⟩ := surveyed hdisk hsurvey hpackage
  have hrooted := hdisk.proper hroot.entryAt
  obtain ⟨above, habove, hsplit, hsearch⟩ := searchRootFor_path disk hrooted hne
  obtain ⟨hfileName, hmodule, hfound⟩ := hmodules file hfile
  rw [← Location.path_append hrooted hproper] at hpath
  have hplaced : Placed disk above ((rootPackage? disk root.path).toList ++ names) package file := by
    refine ⟨habove, ?_, ?_, ?_, hname, hfileName, ModuleFile.fileName_eq hfileName hmodule, hfound⟩
    · rw [hsplit] at hrooted
      exact (Location.Proper.of_append hrooted).2.append hproper
    · exact directories_ne_nil hrooted hne hpath hkind
    · rw [hpath, ← List.append_assoc, ← hsplit]
  have hlocated : ∀ {location : Python.Location},
      locate disk (Python.Loader.forTree disk root.path).searchRoot (package.moduleName file)
        = some location → location.path = package.path.join file.fileName →
      Importable disk ((rootPackage? disk root.path).toList ++ names) package file := by
    intro location hlocate
    rw [Python.Loader.forTree, hsearch] at hlocate
    exact hplaced.importable hlocate
  refine ⟨names, hproper, hpath, ⟨fun h => hlocated h rfl, fun h => ?_⟩,
    fun hnot location h heq => hnot (hlocated h heq)⟩
  rw [Python.Loader.forTree, hsearch]
  exact hplaced.located h

/-- A package with a module and a package of one name, and another module. -/
def shadowing : Disk where
  entries := [
    (["pkg"], .directory),
    (["pkg", "__init__.py"], .file (.text "")),
    (["pkg", "core.py"], .file (.text "x = 1")),
    (["pkg", "core"], .directory),
    (["pkg", "core", "__init__.py"], .file (.text "y = 2"))]
  workingDirectory := []

/-- The package that is surveyed at the top of that tree. -/
def shadowingPackage : Package :=
  ⟨"pkg", ⟨"/pkg"⟩, [⟨"__init__.py", 0⟩, ⟨"core.py", 5⟩], ["core"]⟩

/-- The module is listed, and is not found by its name: the package hides it. -/
theorem located_iff_importable_shadowing :
    shadowing.WellFormed ∧ shadowing.Canonical ["pkg"]
      ∧ (locate shadowing (Python.Loader.forTree shadowing ⟨"/pkg"⟩).searchRoot
          (shadowingPackage.moduleName ⟨"core.py", 5⟩)).map Python.Location.path
        = some ⟨"/pkg/core/__init__.py"⟩
      ∧ ∃ names : Location, names.Proper ∧ shadowingPackage.path = Location.path (["pkg"] ++ names)
        ∧ (locate shadowing (Python.Loader.forTree shadowing ⟨"/pkg"⟩).searchRoot
              (shadowingPackage.moduleName ⟨"core.py", 5⟩) = some ⟨⟨"/pkg/core.py"⟩, false⟩
            ↔ Importable shadowing ((rootPackage? shadowing ⟨"/pkg"⟩).toList ++ names) shadowingPackage
              ⟨"core.py", 5⟩)
        ∧ (¬ Importable shadowing ((rootPackage? shadowing ⟨"/pkg"⟩).toList ++ names) shadowingPackage
              ⟨"core.py", 5⟩ →
            ∀ location, locate shadowing (Python.Loader.forTree shadowing ⟨"/pkg"⟩).searchRoot
                (shadowingPackage.moduleName ⟨"core.py", 5⟩) = some location →
              location.path ≠ ⟨"/pkg/core.py"⟩) := by
  have hsurvey : survey shadowing ⟨⟨[]⟩, []⟩ (Location.path ["pkg"])
      = .ok [shadowingPackage, ⟨"pkg.core", ⟨"/pkg/core"⟩, [⟨"__init__.py", 5⟩], []⟩] := by
    decide +kernel
  have hwell : shadowing.WellFormed := by decide +kernel
  have hroot : shadowing.Canonical ["pkg"] := by decide +kernel
  exact ⟨hwell, hroot, by decide +kernel, located_iff_importable hwell hroot (by decide) hsurvey
    List.mem_cons_self (List.mem_cons_of_mem _ List.mem_cons_self)⟩

end Survey

end ApiStubs
