import ApiStubs.Proofs.ModulePaths
import ApiStubs.Proofs.Sourcing
import ApiStubs.Python.Loader

/-!
# Proofs — Reloading — modules that are loaded while pages are written

A loader looks for modules at paths without `..`, and takes code from sources only
(`FilePath.OfSource`).  Such a path leads to the same file, with the same text, in every tree that
has kept what was there and has got no other sources (`Disk.Sourced.find_iff`).  So the modules of
both trees are found at the same places with the same code, and loading one of them comes to the
same (`Disk.Sourced.load_eq`).
-/

namespace ApiStubs

open FilePath (IsFileName)

namespace FilePath

/-! ### Paths of sources -/

/-- If the path ends in a name, it does not go up, and the name is that of a source. -/
def OfSource (path : FilePath) : Prop :=
  ∀ front name, path.pieces = front ++ [name] → IsFileName name →
    ".." ∉ front ∧ Python.IsSource name

theorem up_notMem_front {directory : FilePath} (h : ".." ∉ directory.pieces) :
    ".." ∉ directory.front := by
  rcases directory.pieces_eq_front with heq | heq <;> rw [heq] at h
  · exact h
  · exact fun hmem => h (List.mem_append_left _ hmem)

/-- What is written behind a path has the pieces of both. -/
theorem mem_pieces_join {directory : FilePath} {other piece : String}
    (h : piece ∈ (directory.join other).pieces) :
    piece ∈ directory.pieces ∨ piece ∈ Text.pieces '/' other := by
  by_cases habsolute : Text.startsWith other "/" = true
  · rw [join, habsolute] at h
    exact .inr h
  rw [Bool.not_eq_true] at habsolute
  rw [pieces, text_join habsolute] at h
  by_cases hempty : directory.text = ""
  · simp only [hempty, decide_true, Bool.true_or, if_true, String.empty_append] at h
    exact .inr h
  by_cases hends : Text.endsWith directory.text '/' = true
  · obtain ⟨before, hbefore⟩ := toList_of_endsWith hends
    rw [if_pos (by simp [hends]), Text.pieces, String.toList_append, hbefore, List.append_assoc,
      List.singleton_append, Text.cut_append_cut, List.map_append, List.mem_append] at h
    rw [pieces_of_endsWith hbefore]
    exact h.imp_left (List.mem_append_left _)
  · have hslash : "/".toList = ['/'] := rfl
    rw [if_neg (by simp [hempty, hends]), Text.pieces, String.toList_append, String.toList_append,
      hslash, List.append_assoc, List.singleton_append, Text.cut_append_cut, List.map_append,
      List.mem_append] at h
    exact h

theorem up_notMem_joinAll {directory : FilePath} {names : List String}
    (h : ".." ∉ directory.pieces) (hnames : ∀ name ∈ names, ".." ∉ Text.pieces '/' name) :
    ".." ∉ (directory.joinAll names).pieces := by
  induction names generalizing directory with
  | nil => exact h
  | cons name rest ih =>
    obtain ⟨hname, hrest⟩ := List.forall_mem_cons.mp hnames
    exact ih (fun hup => (mem_pieces_join hup).elim h hname) hrest

/-- The marker of a directory is a source. -/
theorem ofSource_packageMarker {directory : FilePath} (h : ".." ∉ directory.pieces) :
    OfSource (directory.join Python.packageMarker) := by
  intro front name hpieces _
  rw [pieces_join Python.isFileName_packageMarker.no_separator] at hpieces
  obtain ⟨rfl, hname⟩ := List.append_inj' hpieces rfl
  cases hname
  exact ⟨up_notMem_front h, Python.isSource_packageMarker⟩

/-- Another extension brings no separator in. -/
theorem exchangeExtension_no_separator {name : String} (h : '/' ∉ name.toList) :
    '/' ∉ (exchangeExtension name "py").toList := by
  have hstem : '/' ∉ (splitExtension name).1.toList := by
    rw [splitExtension]
    split
    · rename_i before after hsplit
      split
      · exact h
      · rw [Text.eq_of_splitLast? hsplit, String.append_assoc, String.toList_append] at h
        exact fun hmem => h (List.mem_append_left _ hmem)
    · exact h
  rw [exchangeExtension]
  split
  · decide
  rw [if_neg (by decide), String.append_assoc, String.toList_append]
  exact List.not_mem_append hstem (by decide)

/-- With the extension of modules a name is that of a source, or none. -/
theorem exchangeExtension_cases (name : String) :
    exchangeExtension name "py" = ".." ∨ Python.IsSource (exchangeExtension name "py") := by
  rw [exchangeExtension]
  by_cases hstem : (splitExtension name).1 = "."
  · exact .inl (if_pos hstem)
  · rw [if_neg hstem, if_neg (by decide), String.append_assoc]
    exact .inr (Python.isSource_append _)

/-- Exchanging an extension leaves the pieces before the last name as they are. -/
theorem pieces_withExtension {path : FilePath} {name : String} (h : path.fileName? = some name) :
    ∃ before, (path.withExtension "py").pieces = before ++ [exchangeExtension name "py"]
      ∧ before ⊆ path.pieces := by
  obtain ⟨first, rest, hpieces⟩ := List.exists_cons_of_ne_nil (Text.pieces_ne_nil '/' path.text)
  rw [← pieces] at hpieces
  obtain ⟨fillers, -, hdropped, -⟩ := dropFillers_cons first rest
  have hreverse : (dropFillers (first :: rest)).reverse ≠ [] := by simp [dropFillers]
  obtain ⟨last, front, hfront⟩ := List.exists_cons_of_ne_nil hreverse
  have hkept : dropFillers (first :: rest) = front.reverse ++ [last] := by
    rw [← List.reverse_reverse (dropFillers (first :: rest)), hfront, List.reverse_cons]
  have hsubset : front.reverse ⊆ path.pieces := by
    rw [hpieces, hdropped, hkept, List.append_assoc]
    exact List.subset_append_left _ _
  have hseparators : ∀ part ∈ front.reverse ++ [exchangeExtension name "py"],
      '/' ∉ part.toList := by
    refine List.forall_mem_append.mpr ⟨fun part hpart hmem => ?_, List.forall_mem_singleton.mpr ?_⟩
    · exact (Text.mem_pieces (hsubset hpart) '/' hmem).2 rfl
    · exact exchangeExtension_no_separator (isFileName_of_fileName? h).no_separator
  refine ⟨front.reverse, ?_, hsubset⟩
  rw [withExtension, h, hpieces, hfront]
  exact Text.pieces_join (by simp) hseparators

/-- A directory's path with the extension of modules is that of a source. -/
theorem ofSource_withExtension {path : FilePath} (h : ".." ∉ path.pieces) :
    OfSource (path.withExtension Python.moduleExtension) := by
  intro front name hpieces hname
  cases hown : path.fileName? with
  | none =>
    -- a path that does not end in a name stays as it is
    have hsame : path.withExtension Python.moduleExtension = path := by rw [withExtension, hown]
    rw [hsame] at hpieces
    exact absurd (hown.symm.trans (fileName?_of_pieces hpieces hname)) (by simp)
  | some own =>
    obtain ⟨before, hbefore, hsubset⟩ := pieces_withExtension hown
    obtain ⟨rfl, hlast⟩ := List.append_inj' (hpieces.symm.trans hbefore) rfl
    cases hlast
    exact ⟨fun hup => h (hsubset hup), (exchangeExtension_cases own).resolve_left hname.not_up⟩

end FilePath

namespace Disk

/-! ### Sources that are looked up -/

theorem isFile_iff {disk : Disk} {path : FilePath} :
    disk.isFile path = true ↔ ∃ here content, disk.find true path = .ok (here, .file content) := by
  rw [isFile]
  split
  · rename_i here content hfind
    simp [hfind]
  · rename_i hno
    simp only [Bool.false_eq_true, false_iff, not_exists]
    exact hno

namespace Sourced

variable {disk later : Disk}

/-- **A source is found in both trees**, with the same text, or in neither. -/
theorem find_iff (h : Sourced disk later) (hdisk : disk.WellFormed) {path : FilePath}
    (hpath : path.OfSource) {here : Location} {content : Content} :
    later.find true path = .ok (here, .file content)
      ↔ disk.find true path = .ok (here, .file content) := by
  have hearlier : ∀ {found}, later.find true path = .ok (here, .file found) →
      disk.find true path = .ok (here, .file found) := by
    intro found hfind
    have hresolve := find_eq_ok.mp hfind
    rcases h.wellFormed.named_of_resolve h.linkless hresolve with
      ⟨_, hno⟩ | ⟨above, name, hlook, hseparator, hlast, hno | ⟨_, htarget⟩⟩
    · cases hno
    · cases hno
    · cases htarget
      obtain ⟨front, hfront⟩ := List.getLast?_eq_some_iff.mp hlast
      obtain ⟨hup, hname⟩ := hpath front name hfront ⟨hseparator, hlook.no_filler, hlook.not_up⟩
      have hpieces : ".." ∉ path.pieces := by
        rw [hfront]
        exact List.not_mem_append hup (by simpa using hlook.not_up.symm)
      exact hdisk.find_earlier h.grown h.linkless hpieces hfind
        (h.sources _ _ _ hname (entryAt_of_resolve hresolve))
  refine ⟨hearlier, fun hfind => ?_⟩
  obtain ⟨found, hfound, hblank⟩ := h.grown.find hfind
  obtain ⟨other, rfl⟩ := Entry.blank_eq_file.mp hblank
  rw [hearlier hfound] at hfind
  cases hfind
  exact hfound

variable (h : Sourced disk later) (hdisk : disk.WellFormed)

include h hdisk

theorem isFile {path : FilePath} (hpath : path.OfSource) : later.isFile path = disk.isFile path := by
  rw [Bool.eq_iff_iff, isFile_iff, isFile_iff]
  simp only [h.find_iff hdisk hpath]

theorem isPackage {directory : FilePath} (hup : ".." ∉ directory.pieces) :
    Python.isPackage later directory = Python.isPackage disk directory :=
  h.isFile hdisk (FilePath.ofSource_packageMarker hup)

theorem readText {path : FilePath} (hpath : path.OfSource) (hfile : disk.isFile path = true) :
    later.readText path = disk.readText path := by
  obtain ⟨here, content, hfind⟩ := isFile_iff.mp hfile
  rw [Disk.readText, Disk.readText, hfind, (h.find_iff hdisk hpath).mpr hfind]

end Sourced

end Disk

namespace Python

/-! ### Modules that are loaded -/

/-- The directory of a module's name does not go up: its components have no dots. -/
theorem up_notMem_directory {root : FilePath} (h : ".." ∉ root.pieces) (name : String) :
    ".." ∉ (root.joinAll (Dotted.components name)).pieces := by
  refine FilePath.up_notMem_joinAll h fun part hpart hup => ?_
  have hdot : '.' ∈ part.toList := (Text.mem_pieces hup '.' (by decide)).1
  exact (Text.mem_pieces hpart '.' hdot).2 rfl

theorem ofSource_of_locate {disk : Disk} {root : FilePath} (hroot : ".." ∉ root.pieces)
    {name : String} {location : Location} (h : locate disk root name = some location) :
    location.path.OfSource ∧ disk.isFile location.path = true := by
  obtain ⟨-, hfile, hpath | hpath⟩ := locate_eq_some h
  · exact ⟨hpath ▸ FilePath.ofSource_packageMarker (up_notMem_directory hroot name), hfile⟩
  · exact ⟨hpath ▸ FilePath.ofSource_withExtension (up_notMem_directory hroot name), hfile⟩

namespace Tree

/-- The other tree has the same modules at the same places, with the same code. -/
structure Same (tree other : Tree) : Prop where
  locate : other.locate = tree.locate
  code : ∀ name location, tree.locate name = some location →
    other.code location.path = tree.code location.path

variable {tree other : Tree} (h : Same tree other)

include h

theorem Same.scope (load : String → Importing SymbolTable) (name : String) (location : Location) :
    other.scope load name location = tree.scope load name location := by
  rw [Tree.scope, Tree.scope, h.locate]

theorem Same.loadFresh (load : String → Importing SymbolTable) (name : String) :
    other.loadFresh load name = tree.loadFresh load name := by
  rw [Tree.loadFresh, Tree.loadFresh, h.locate]
  cases hlocate : tree.locate name with
  | none => rfl
  | some location =>
    have hreplay : other.replay load name location = tree.replay load name location := by
      rw [Tree.replay, Tree.replay, h.code name location hlocate, h.scope]
    simp only [hreplay]

/-- **The same modules are loaded** from trees with the same code. -/
theorem Same.load (depth : Nat) (name : String) : other.load depth name = tree.load depth name := by
  induction depth generalizing name with
  | zero => rfl
  | succ depth ih =>
    have hload : other.load depth = tree.load depth := funext ih
    rw [Tree.load, Tree.load, hload, h.locate]
    simp only [h.loadFresh]

end Tree

end Python

namespace Disk.Sourced

variable {disk later : Disk} (h : Sourced disk later) (hdisk : disk.WellFormed)

include h hdisk

/-- The modules below a search root that does not go up are the same in both trees. -/
theorem same_below {root : FilePath} (hroot : ".." ∉ root.pieces) :
    Python.Tree.Same (.below disk root) (.below later root) where
  locate := by
    funext name
    have hdirectory := Python.up_notMem_directory hroot name
    show Python.locate later root name = Python.locate disk root name
    rw [Python.locate, Python.locate]
    simp only [h.isPackage hdisk hdirectory,
      h.isFile hdisk (FilePath.ofSource_withExtension hdirectory)]
  code name location hlocate := by
    obtain ⟨hpath, hfile⟩ := Python.ofSource_of_locate hroot hlocate
    rw [Python.Tree.below, Python.Tree.below]
    simp only [h.readText hdisk hpath hfile]

/-- **A module is loaded as it was** before anything was written. -/
theorem load_eq {loader : Python.Loader} (hroot : ".." ∉ loader.searchRoot.pieces) (name : String) :
    Python.Loader.load later name loader = Python.Loader.load disk name loader := by
  have hsame := h.same_below hdisk hroot
  rw [Python.Loader.load, Python.Loader.load, Python.Loader.tree, Python.Loader.tree,
    hsame.load loader.nesting name]

end Disk.Sourced

/-! ### The root -/

namespace Location

theorem up_notMem_path {here : Location} (h : here.Proper) : ".." ∉ here.path.pieces := by
  rcases List.eq_nil_or_concat' here with rfl | ⟨above, name, rfl⟩
  · decide
  · obtain ⟨habove, hname⟩ := h.of_append
    rw [pieces_path habove (hname name List.mem_cons_self)]
    intro hup
    rcases List.mem_cons.mp hup with hno | hmem
    · exact absurd hno (by decide)
    · exact (h ".." hmem).not_up rfl

end Location

namespace Python

theorem up_notMem_searchRootFor (disk : Disk) {here : ApiStubs.Location} (h : here.Proper) :
    ".." ∉ (searchRootFor disk here.path).pieces := by
  rw [searchRootFor]
  split
  · rcases List.eq_nil_or_concat' here with rfl | ⟨above, name, rfl⟩
    · decide
    · obtain ⟨habove, hname⟩ := h.of_append
      rw [Location.parent?_path habove (hname name List.mem_cons_self)]
      exact Location.up_notMem_path habove
  · exact Location.up_notMem_path h

end Python

end ApiStubs
