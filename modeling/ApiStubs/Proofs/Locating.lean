import ApiStubs.Proofs.Failing
import ApiStubs.Proofs.ImportGraph
import ApiStubs.Proofs.Walking
import Mathlib.Data.List.TakeWhile

/-!
# Proofs — Locating — the files behind module names

The file of a module is found by a path that is written with the components of its name.  So a
module name that holds no separator of paths is shorter than that path, and there are fewer such
names than loads can nest: `Loader.within_of_plain`.

What a module is replayed from is the text of a file of the tree: `Tree.below_code` and
`Disk.mem_entries_of_readText`.  A source that cannot be read or parsed fails as an import:
`Tree.below_code_error`.
-/

namespace ApiStubs

/-! ### The length of a joined text -/

namespace Text

theorem length_glue (sep : Char) {parts : List (List Char)} (h : parts ≠ []) :
    (glue sep parts).length + 1 = (parts.map List.length).sum + parts.length := by
  induction parts with
  | nil => exact absurd rfl h
  | cons part rest ih =>
    cases rest with
    | nil => simp [glue]
    | cons next more =>
      have hrest := ih (List.cons_ne_nil next more)
      rw [glue, List.length_append, List.length_cons, List.map_cons, List.sum_cons,
        List.length_cons]
      omega

theorem length_join (sep : Char) {parts : List String} (h : parts ≠ []) :
    (join sep parts).length + 1 = (parts.map String.length).sum + parts.length := by
  have hglue := length_glue sep (fun hnil => h (List.map_eq_nil_iff.mp hnil) :
    parts.map String.toList ≠ [])
  rw [List.map_map, List.length_map] at hglue
  rw [join, String.length_ofList, hglue]
  rfl

/-- The characters of a piece are those of the text, without the separator. -/
theorem mem_cut {sep : Char} {s : List Char} :
    ∀ piece ∈ cut sep s, ∀ c ∈ piece, c ∈ s ∧ c ≠ sep := by
  induction s with
  | nil => simp [cut]
  | cons first rest ih =>
    rw [cut]
    cases hcut : cut sep rest with
    | nil => exact absurd hcut (cut_ne_nil sep rest)
    | cons front others =>
      rw [hcut] at ih
      obtain ⟨hfront, hothers⟩ := List.forall_mem_cons.mp ih
      have hlater : ∀ piece : List Char, (∀ c ∈ piece, c ∈ rest ∧ c ≠ sep) →
          ∀ c ∈ piece, c ∈ first :: rest ∧ c ≠ sep :=
        fun piece h c hc => ⟨List.mem_cons_of_mem _ (h c hc).1, (h c hc).2⟩
      dsimp only
      -- a separator starts a piece of its own, another character joins the first piece
      by_cases hsep : first = sep
      · rw [if_pos hsep]
        refine List.forall_mem_cons.mpr
          ⟨List.forall_mem_nil _, List.forall_mem_cons.mpr ⟨hlater _ hfront, ?_⟩⟩
        exact fun piece hp => hlater piece (hothers piece hp)
      · rw [if_neg hsep]
        refine List.forall_mem_cons.mpr ⟨List.forall_mem_cons.mpr ?_, ?_⟩
        · exact ⟨⟨List.mem_cons_self, hsep⟩, hlater _ hfront⟩
        · exact fun piece hp => hlater piece (hothers piece hp)

theorem mem_pieces {sep : Char} {s piece : String} (h : piece ∈ pieces sep s) :
    ∀ c ∈ piece.toList, c ∈ s.toList ∧ c ≠ sep := by
  obtain ⟨letters, hletters, rfl⟩ := List.mem_map.mp h
  rw [String.toList_ofList]
  exact mem_cut letters hletters

theorem pieces_ne_nil (sep : Char) (s : String) : pieces sep s ≠ [] :=
  fun h => cut_ne_nil sep s.toList (List.map_eq_nil_iff.mp h)

/-- The separators in a text and its pieces are all of it. -/
theorem length_pieces (sep : Char) (s : String) :
    ((pieces sep s).map String.length).sum + (pieces sep s).length = s.length + 1 := by
  rw [← length_join sep (pieces_ne_nil sep s), join_pieces]

theorem splitLast?_eq_none {sep : Char} {s : String} (h : sep ∉ s.toList) :
    splitLast? sep s = none := by
  have hdrop : s.toList.reverse.dropWhile (· ≠ sep) = [] := by
    rw [List.dropWhile_eq_nil_iff]
    intro c hc
    rw [List.mem_reverse] at hc
    exact decide_eq_true fun heq => h (heq ▸ hc)
  rw [splitLast?, hdrop]

theorem length_le_utf8ByteSize (s : String) : s.length ≤ s.utf8ByteSize := by
  have hlist : ∀ letters : List Char, letters.length ≤ (String.ofList letters).utf8ByteSize := by
    intro letters
    induction letters with
    | nil => exact Nat.zero_le _
    | cons c rest ih =>
      have hc := c.utf8Size_pos
      rw [← List.singleton_append, String.ofList_append, String.utf8ByteSize_append]
      simp
      omega
  have h := hlist s.toList
  rwa [String.ofList_toList, String.length_toList] at h

end Text

/-! ### Paths of several names -/

namespace FilePath

/-- A name at the end of a text is followed by no separator. -/
theorem IsFileName.not_endsWith {name : String} (h : IsFileName name) (before : String) :
    Text.endsWith (before ++ name) '/' = false := by
  rw [Text.endsWith, String.toList_append, List.getLast?_append, beq_eq_false_iff_ne]
  cases hlast : name.toList.getLast? with
  | none =>
    have hempty := String.toList_eq_nil_iff.mp (List.getLast?_eq_none_iff.mp hlast)
    exact absurd h.no_filler (by rw [hempty]; decide)
  | some c =>
    rintro heq
    cases heq
    exact h.no_separator (List.mem_of_getLast? hlast)

theorem front_join {name : String} (h : IsFileName name) (directory : FilePath) :
    (directory.join name).front = directory.front ++ [name] := by
  have hends : Text.endsWith (directory.join name).text '/' = false := by
    rw [text_join (not_startsWith_separator h.no_separator), h.not_endsWith]
  rw [← pieces_join h.no_separator, front, if_neg (h.join_nonempty directory), hends,
    if_neg Bool.false_ne_true]

theorem front_joinAll {names : List String} (h : ∀ name ∈ names, IsFileName name)
    (directory : FilePath) : (directory.joinAll names).front = directory.front ++ names := by
  induction names generalizing directory with
  | nil => exact (List.append_nil _).symm
  | cons name rest ih =>
    obtain ⟨hname, hrest⟩ := List.forall_mem_cons.mp h
    show ((directory.join name).joinAll rest).front = _
    rw [ih hrest, front_join hname, List.append_assoc, List.singleton_append]

theorem dropFillers_append {name : String} (h : isFiller name = false) (front : List String) :
    dropFillers (front ++ [name]) = front ++ [name] := by
  cases front with
  | nil => rfl
  | cons first rest =>
    rw [List.cons_append, dropFillers, List.reverse_append, List.reverse_singleton,
      List.singleton_append, List.dropWhile_cons_of_neg (by simp [h])]
    simp

theorem IsFileName.ofPiece? {name : String} (h : IsFileName name) :
    Component.ofPiece? name = some (.name name) := by
  rw [Component.ofPiece?.eq_def]
  split
  · exact absurd h.no_filler (by decide)
  · exact absurd h.no_filler (by decide)
  · exact absurd rfl h.not_up
  · rfl

/-- A path is called by its last piece, if that is a name. -/
theorem fileName?_of_pieces {path : FilePath} {front : List String} {name : String}
    (hpieces : path.pieces = front ++ [name]) (hname : IsFileName name) :
    path.fileName? = some name := by
  -- a root or a `.` in front comes before the names, and is none of them
  have hcomponents : ∃ before, path.components = before ++ [.name name] := by
    have hlast : ∀ front : List String, (front ++ [name]).filterMap Component.ofPiece?
        = front.filterMap Component.ofPiece? ++ [.name name] := by
      intro front
      rw [List.filterMap_append]
      simp [hname.ofPiece?]
    rw [components, hpieces]
    split
    · exact ⟨_, by rw [hlast, ← List.cons_append]⟩
    · split
      · rename_i rest hdot
        cases front with
        | nil =>
          cases hdot
          exact absurd hname.no_filler (by decide)
        | cons first others =>
          cases hdot
          exact ⟨.here :: others.filterMap Component.ofPiece?, congrArg _ (hlast others)⟩
      · exact ⟨_, hlast _⟩
  obtain ⟨before, hbefore⟩ := hcomponents
  rw [fileName?, hbefore, List.getLast?_concat]

theorem fileName?_join {name : String} (h : IsFileName name) (directory : FilePath) :
    (directory.join name).fileName? = some name :=
  fileName?_of_pieces (pieces_join h.no_separator directory) h

theorem exchangeExtension_of_no_dot {name : String} (h : IsFileName name)
    (hdot : '.' ∉ name.toList) : exchangeExtension name "py" = name ++ ".py" := by
  have hstem : (splitExtension name).1 = name := by
    rw [splitExtension, Text.splitLast?_eq_none hdot]
  have hname : name ≠ "." := by
    rintro rfl
    exact absurd h.no_filler (by decide)
  rw [exchangeExtension, hstem, if_neg hname, if_neg (by decide), String.append_assoc]
  rfl

/-- A name without a dot gets an extension. -/
theorem withExtension_join {name : String} (h : IsFileName name) (hdot : '.' ∉ name.toList)
    (directory : FilePath) :
    (directory.join name).withExtension "py" = directory.join (name ++ ".py") := by
  have hseparator : '/' ∉ (name ++ ".py").toList := by
    rw [String.toList_append, List.mem_append, not_or]
    exact ⟨h.no_separator, by decide⟩
  have htext : (directory.join (name ++ ".py")).text
      = Text.join '/' (directory.front ++ [name ++ ".py"]) := by
    rw [← pieces_join hseparator]
    exact (Text.join_pieces '/' _).symm
  rw [withExtension, fileName?_join h, pieces_join h.no_separator, dropFillers_append h.no_filler,
    List.reverse_append, List.reverse_singleton, List.singleton_append]
  simp only [List.reverse_reverse, exchangeExtension_of_no_dot h hdot, ← htext]

end FilePath

namespace Disk

/-! ### Files that are found -/

theorem resolve_of_find {disk : Disk} {follow : Bool} {path : FilePath} {here : Location}
    {entry : Entry} (h : disk.find follow path = .ok (here, entry)) :
    disk.resolve follow path = .ok (.found here entry) := by
  rw [find] at h
  split at h
  · rename_i hresolve
    cases h
    exact hresolve
  · cases h
  · cases h

/-- The path of a file is no longer than paths can be. -/
theorem utf8ByteSize_le_of_isFile {disk : Disk} {path : FilePath} (h : disk.isFile path = true) :
    path.text.utf8ByteSize ≤ maxPathBytes := by
  rw [isFile] at h
  split at h
  · rename_i hfind
    have hresolve := resolve_of_find hfind
    by_cases hlong : maxPathBytes < path.text.utf8ByteSize
    · rw [resolve, if_pos hlong] at hresolve
      split at hresolve <;> cases hresolve
    · exact Nat.not_lt.mp hlong
  · cases h

/-- A text that is read is that of a file of the tree. -/
theorem mem_entries_of_readText {disk : Disk} {path : FilePath} {text : String}
    (h : disk.readText path = .ok text) :
    ∃ place, (place, Entry.file (.text text)) ∈ disk.entries := by
  rw [readText] at h
  split at h
  · rename_i here found hfind
    cases h
    have hentry := entryAt_of_resolve (resolve_of_find hfind)
    cases here with
    | nil => cases hentry
    | cons first rest =>
      obtain ⟨before, after, hentries, -⟩ := List.lookup_eq_some_iff.mp hentry
      exact ⟨first :: rest, by rw [hentries]; simp⟩
  all_goals cases h

end Disk

namespace Python

/-! ### The files of modules -/

/-- The components of a module name are names of files. -/
theorem isFileName_of_component {name part : String} (hname : '/' ∉ name.toList)
    (hpart : part ∈ Dotted.components name) (hempty : part ≠ "") :
    FilePath.IsFileName part ∧ '.' ∉ part.toList := by
  have hchars := Text.mem_pieces hpart
  have hdot : '.' ∉ part.toList := fun h => (hchars '.' h).2 rfl
  refine ⟨⟨fun h => hname (hchars '/' h).1, ?_, ?_⟩, hdot⟩
  · have hhere : part ≠ "." := by
      rintro rfl
      exact hdot (by decide)
    simp [FilePath.isFiller, hempty, hhere]
  · rintro rfl
    exact hdot (by decide)

/-- **Where modules are found**: a file, either the marker in the directory that the name spells or
that directory's path with an extension. -/
theorem locate_eq_some {disk : Disk} {root : FilePath} {name : String} {location : Location}
    (h : locate disk root name = some location) :
    "" ∉ Dotted.components name ∧ disk.isFile location.path = true ∧
      (location.path = (root.joinAll (Dotted.components name)).join packageMarker
        ∨ location.path
          = (root.joinAll (Dotted.components name)).withExtension moduleExtension) := by
  rw [locate] at h
  dsimp only at h
  split at h
  · cases h
  rename_i hempty
  split at h
  · rename_i hpackage
    cases h
    exact ⟨hempty, hpackage, .inl rfl⟩
  · split at h
    · rename_i hfile
      cases h
      exact ⟨hempty, hfile, .inr rfl⟩
    · cases h

/-- The last names in the path of a module's file are the components of its name, or are as long
and more. -/
theorem pieces_of_locate {disk : Disk} {root : FilePath} {name : String} {location : Location}
    (hlocate : locate disk root name = some location) (hname : '/' ∉ name.toList) :
    ∃ names : List String, location.path.pieces = root.front ++ names ∧
      name.length + 1 ≤ (names.map String.length).sum + names.length := by
  have hlength := Text.length_pieces '.' name
  obtain ⟨hempty, -, hpath⟩ := locate_eq_some hlocate
  have hparts : ∀ part ∈ Dotted.components name,
      FilePath.IsFileName part ∧ '.' ∉ part.toList := fun part hpart =>
    isFileName_of_component hname hpart fun he => hempty (he ▸ hpart)
  rcases hpath with hpath | hpath
  · have hmarker : '/' ∉ packageMarker.toList := by decide
    refine ⟨Dotted.components name ++ [packageMarker], ?_, ?_⟩
    · rw [hpath, FilePath.pieces_join hmarker,
        FilePath.front_joinAll fun part hp => (hparts part hp).1, List.append_assoc]
    · rw [Dotted.components]
      simp only [List.map_append, List.sum_append, List.length_append]
      omega
  · -- the last component becomes the name of the file
    obtain ⟨before, last, hlast⟩ : ∃ before last, Dotted.components name = before ++ [last] :=
      ⟨_, _, (List.dropLast_append_getLast (Text.pieces_ne_nil '.' name)).symm⟩
    rw [hlast] at hparts hpath
    obtain ⟨hbefore, hown, -⟩ := List.forall_mem_append.mp hparts |>.imp_right
      List.forall_mem_cons.mp
    have hdirectory : root.joinAll (before ++ [last]) = (root.joinAll before).join last := by
      simp [FilePath.joinAll]
    have hfile : '/' ∉ (last ++ ".py").toList := by
      rw [String.toList_append, List.mem_append, not_or]
      exact ⟨hown.1.no_separator, by decide⟩
    refine ⟨before ++ [last ++ ".py"], ?_, ?_⟩
    · rw [hpath, hdirectory, moduleExtension, FilePath.withExtension_join hown.1 hown.2,
        FilePath.pieces_join hfile, FilePath.front_joinAll fun part hp => (hbefore part hp).1,
        List.append_assoc]
    · rw [Dotted.components] at hlast
      rw [hlast] at hlength
      simp only [List.map_append, List.sum_append, List.length_append, List.map_cons, List.map_nil,
        List.sum_cons, List.sum_nil, List.length_singleton, String.length_append] at hlength ⊢
      omega

/-- A module name without separators is no longer than a path can be. -/
theorem length_le_of_located {disk : Disk} {root : FilePath} {name : String}
    (hlocated : (Tree.below disk root).Located name) (hname : '/' ∉ name.toList) :
    name.length ≤ maxPathBytes := by
  obtain ⟨location, hlocate⟩ := Option.isSome_iff_exists.mp hlocated
  obtain ⟨names, hpieces, hlong⟩ := pieces_of_locate hlocate hname
  have hpath := Disk.utf8ByteSize_le_of_isFile (locate_eq_some hlocate).2.1
  have hbytes := Text.length_le_utf8ByteSize location.path.text
  have hlength : (location.path.pieces.map String.length).sum + location.path.pieces.length
      = location.path.text.length + 1 := Text.length_pieces '/' _
  rw [hpieces, List.map_append, List.sum_append, List.length_append] at hlength
  omega

/-- **No loader nests too deeply** that is asked for modules of plain names only. -/
theorem Loader.within_of_plain {disk : Disk} {loader : Loader}
    (hnesting : loader.nesting = maxNesting) {name : String}
    (hplain : ∀ other ∈ (loader.tree disk).reach name, '/' ∉ other.toList) :
    (loader.tree disk).Within loader.nesting name := by
  rw [hnesting]
  exact Tree.within_maxNesting fun other ho =>
    length_le_of_located (Tree.located_of_mem_reach ho) (hplain other ho)

/-! ### The code of modules -/

/-- The code of a module is what its text spells. -/
theorem Tree.below_code {disk : Disk} {root path : FilePath} {statements : List Statement} :
    (Tree.below disk root).code path = .ok statements ↔
      ∃ text, disk.readText path = .ok text ∧
        (Source.ofText? text).map Source.statements = some statements := by
  cases htext : disk.readText path with
  | error cause => simp [Tree.below, htext]
  | ok text => cases hsource : Source.ofText? text <;> simp [Tree.below, htext, hsource]

/-- What goes wrong when a source is read or parsed is the cause of a failed import, and no error
of the disk any more. -/
theorem Tree.below_code_error {disk : Disk} {root path : FilePath} {cause : ImportError} :
    (Tree.below disk root).code path = .error cause ↔
      (∃ error, disk.readText path = .error error ∧ cause = .unreadable path error)
      ∨ ∃ text, disk.readText path = .ok text ∧ Source.ofText? text = none
        ∧ cause = .badSyntax path := by
  cases htext : disk.readText path with
  | error error => simp [Tree.below, htext, eq_comm]
  | ok text => cases hsource : Source.ofText? text <;> simp [Tree.below, htext, hsource, eq_comm]

/-- Whatever a loader knows already, a load of its fails for a reason. -/
theorem Loader.load_explained {disk : Disk} {loader : Loader} {name : String}
    {failure : ImportFailure} (h : (loader.load disk name).1 = .error failure) :
    (loader.tree disk).Explains failure :=
  (loader.tree disk).load_failsAs loader.nesting name loader.cache failure h

end Python

end ApiStubs
