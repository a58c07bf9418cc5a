import ApiStubs.Proofs.Descending
import Mathlib.Data.List.DropRight

/-!
# Proofs — Making — directories that are made twice

A path is cut at its separators, and its parent is a shorter path with the same pieces in front
(`FilePath.pieces_parent?`).  A directory is made with every parent that is missing, the outermost
first; once that has gone well, making the directory again changes nothing
(`Disk.attemptDirectories_again`).

When it fails, the parents that were made before stay.  Then it fails again, for the same reason and
with nothing more made (`Disk.attemptDirectories_fails_again`).  There is one exception: a path with
`..` can go up from a directory that was missing, so that nothing behind it was looked at before; it
can have met a file by its name, and meets the same file in the way the second time.
-/

namespace ApiStubs

namespace FilePath

/-! ### Separators and fillers at the end of a path -/

/-- What is dropped from the end of a list, and what is left. -/
theorem exists_dropped {α : Type} (p : α → Bool) (list : List α) :
    ∃ dropped, (∀ a ∈ dropped, p a = true)
      ∧ list = (list.reverse.dropWhile p).reverse ++ dropped
      ∧ ∀ before a, (list.reverse.dropWhile p).reverse = before ++ [a] → p a = false := by
  refine ⟨list.rtakeWhile p, fun a ha => List.mem_rtakeWhile_imp ha,
    List.rdropWhile_append_rtakeWhile.symm, fun before a h => ?_⟩
  have hlast : list.rdropWhile p = before ++ [a] := h
  have hne : list.rdropWhile p ≠ [] := by simp [hlast]
  simpa [hlast] using List.rdropWhile_last_not p list hne

/-- Fillers are dropped from the end, and the first piece is kept. -/
theorem dropFillers_cons (first : String) (rest : List String) :
    ∃ fillers, (∀ piece ∈ fillers, isFiller piece = true)
      ∧ first :: rest = dropFillers (first :: rest) ++ fillers
      ∧ (dropFillers (first :: rest) = [first]
        ∨ ∃ before name, dropFillers (first :: rest) = first :: before ++ [name]
          ∧ isFiller name = false) := by
  obtain ⟨fillers, hfillers, hrest, hlast⟩ := exists_dropped isFiller rest
  refine ⟨fillers, hfillers, by rw [dropFillers, List.cons_append, ← hrest], ?_⟩
  rw [dropFillers]
  rcases List.eq_nil_or_concat' (rest.reverse.dropWhile isFiller).reverse with
    hnil | ⟨before, name, hname⟩
  · exact .inl (by rw [hnil])
  · exact .inr ⟨before, name, by rw [hname, List.cons_append], hlast before name hname⟩

theorem cut_replicate (s : List Char) (k : Nat) :
    Text.cut '/' (s ++ List.replicate k '/') = Text.cut '/' s ++ List.replicate k [] := by
  induction k generalizing s with
  | zero => simp
  | succ k ih =>
    have hnil := ih []
    rw [List.nil_append] at hnil
    rw [List.replicate_succ, Text.cut_append_cut, hnil]
    rfl

/-- A path is read as it is without the separators at its end, which are empty pieces; unless it is
made of separators only, and leads to the root. -/
theorem pieces_withoutTrailing (path : FilePath) :
    ((Disk.withoutTrailing path).text = "/" ∧ path.isAbsolute = true
        ∧ ∀ piece ∈ path.pieces, piece = "")
      ∨ (Disk.withoutTrailing path).isAbsolute = path.isAbsolute
        ∧ ((Disk.withoutTrailing path).text = "" ↔ path.text = "")
        ∧ ∃ k, path.pieces = (Disk.withoutTrailing path).pieces ++ List.replicate k "" := by
  obtain ⟨dropped, hdropped, htext, -⟩ := exists_dropped (· = '/') path.text.toList
  have hall : dropped = List.replicate dropped.length '/' :=
    List.eq_replicate_of_mem fun c hc => of_decide_eq_true (hdropped c hc)
  rw [Disk.withoutTrailing]
  cases hkept : path.text.toList.reverse.dropWhile (· = '/') with
  | nil =>
    rw [hkept, List.reverse_nil, hall] at htext
    cases habsolute : path.isAbsolute with
    | true =>
      refine .inl ⟨rfl, rfl, fun piece hpiece => ?_⟩
      rw [pieces, Text.pieces, htext, cut_replicate] at hpiece
      simp only [Text.cut, List.map_append, List.map_replicate, List.mem_append,
        List.map_singleton, List.mem_singleton, List.mem_replicate] at hpiece
      exact hpiece.elim id And.right
    | false => exact .inr ⟨habsolute, Iff.rfl, 0, by simp⟩
  | cons c before =>
    rw [hkept] at htext
    refine .inr ⟨?_, ?_, dropped.length, ?_⟩
    · obtain ⟨first, rest, hfirst⟩ :=
        List.exists_cons_of_ne_nil (l := (c :: before).reverse) (by simp)
      rw [isAbsolute, isAbsolute, startsWith_separator, startsWith_separator, htext]
      simp [hfirst]
    · rw [← String.toList_eq_nil_iff, ← String.toList_eq_nil_iff (b := path.text), htext]
      simp
    · rw [pieces, pieces, Text.pieces, Text.pieces, htext, hall, cut_replicate]
      simp

/-- A path is absolute if an empty piece stands in front of others. -/
theorem isAbsolute_iff {path : FilePath} :
    path.isAbsolute = true ↔ ∃ next rest, path.pieces = "" :: next :: rest := by
  rw [isAbsolute, startsWith_separator, beq_iff_eq]
  constructor
  · intro hhead
    obtain ⟨rest, hrest⟩ := List.head?_eq_some_iff.mp hhead
    obtain ⟨next, more, hmore⟩ := List.exists_cons_of_ne_nil (Text.cut_ne_nil '/' rest)
    refine ⟨String.ofList next, more.map String.ofList, ?_⟩
    rw [pieces, Text.pieces, hrest, ← List.nil_append ('/' :: rest), Text.cut_append_cut, hmore]
    rfl
  · rintro ⟨next, rest, hpieces⟩
    have htext := Text.join_pieces '/' path.text
    rw [← pieces, hpieces, Text.join_cons '/' "" (List.cons_ne_nil next rest)] at htext
    rw [← htext]
    simp

theorem pieces_ofPieces {parts : List String} (hne : parts ≠ []) (hempty : parts ≠ [""])
    (h : ∀ part ∈ parts, '/' ∉ part.toList) (absolute : Bool) :
    (ofPieces absolute parts).pieces = parts := by
  rw [ofPieces]
  · exact Text.pieces_join hne h
  · exact hempty

/-- **A path is written behind its parent**, unless that is the root or the empty path. -/
theorem pieces_parent? {path above : FilePath} (h : path.parent? = some above)
    (hsteps : above.components ≠ []) :
    above.text = "/" ∨ (above.isAbsolute = path.isAbsolute ∧ above.pieces.getLast? ≠ some ""
      ∧ ∃ behind, path.pieces = above.pieces ++ behind ∧ ∃ name ∈ behind, isFiller name = false) := by
  have hseparators : ∀ piece ∈ path.pieces, '/' ∉ piece.toList :=
    fun piece hpiece hmem => (Text.mem_pieces hpiece '/' hmem).2 rfl
  have hnothing : components ⟨""⟩ = [] := by decide
  obtain ⟨first, rest, hpieces⟩ := List.exists_cons_of_ne_nil (Text.pieces_ne_nil '/' path.text)
  rw [← pieces] at hpieces
  rw [parent?, hpieces] at h
  obtain ⟨fillers, -, hdropped, hfirst | ⟨before, name, hname, hnoFiller⟩⟩ :=
    dropFillers_cons first rest
  · -- a path of one step has the empty path for its parent
    rw [hfirst, List.reverse_singleton] at h
    simp only at h
    split at h
    · cases h
    · cases h
      exact absurd hnothing hsteps
  obtain ⟨others, -, hothers, hlast⟩ := dropFillers_cons first before
  rw [hname] at h hdropped
  have hreverse : (first :: before ++ [name]).reverse = name :: (first :: before).reverse := by simp
  obtain ⟨next, more, hmore⟩ := List.exists_cons_of_ne_nil (l := (first :: before).reverse) (by simp)
  rw [hreverse, hmore] at h
  simp only [← hmore, List.reverse_reverse, Option.some.injEq] at h
  by_cases hroot : dropFillers (first :: before) = [""]
  · rw [hroot, ofPieces] at h
    cases habsolute : path.isAbsolute with
    | true =>
      rw [habsolute] at h
      exact .inl (h ▸ rfl)
    | false =>
      rw [habsolute] at h
      exact absurd (h ▸ hnothing) hsteps
  -- the parent has the first pieces of the path, up to its own last name
  generalize dropFillers (first :: before) = kept at h hothers hlast hroot
  have hwhole : path.pieces = kept ++ (others ++ [name] ++ fillers) := by
    rw [hpieces, hdropped, hothers, List.append_assoc, List.append_assoc, List.append_assoc]
  have habove : above.pieces = kept := by
    have hkept : kept ≠ [] := by rcases hlast with hlast | ⟨_, _, hlast, -⟩ <;> simp [hlast]
    rw [← h]
    refine pieces_ofPieces hkept hroot (fun part hpart => ?_) _
    exact hseparators part (hwhole ▸ List.mem_append_left _ hpart)
  refine .inr ⟨?_, ?_, _, by rw [habove]; exact hwhole, name, by simp, hnoFiller⟩
  · rw [Bool.eq_iff_iff, isAbsolute_iff, isAbsolute_iff, habove, hwhole]
    rcases hlast with rfl | ⟨middle, last, rfl, -⟩
    · have hne : first ≠ "" := fun heq => hroot (by rw [heq])
      simp [hne]
    · cases middle <;> cases others <;> simp
  · rw [habove]
    rcases hlast with rfl | ⟨middle, last, rfl, hfiller⟩
    · intro heq
      exact hroot (by simpa using heq)
    · rw [List.getLast?_concat]
      intro heq
      rw [Option.some.inj heq] at hfiller
      cases hfiller

/-- The first pieces of a path, written as a path, are no longer. -/
theorem size_le_of_pieces {path above : FilePath} {behind : List String}
    (h : path.pieces = above.pieces ++ behind) :
    above.text.utf8ByteSize ≤ path.text.utf8ByteSize := by
  induction behind using List.reverseRecOn generalizing path with
  | nil =>
    have habove := Text.join_pieces '/' above.text
    have hpath := Text.join_pieces '/' path.text
    rw [← pieces] at habove hpath
    rw [← habove, ← hpath, h, List.append_nil]
  | append_singleton behind last ih =>
    have hne : above.pieces ++ behind ≠ [] :=
      List.append_ne_nil_of_left_ne_nil (Text.pieces_ne_nil '/' above.text) _
    have hseparators : ∀ part ∈ above.pieces ++ behind, '/' ∉ part.toList := fun part hpart hmem =>
      (Text.mem_pieces (h ▸ List.append_assoc above.pieces behind [last] ▸
        List.mem_append_left [last] hpart : part ∈ path.pieces) '/' hmem).2 rfl
    have hshorter := @ih ⟨Text.join '/' (above.pieces ++ behind)⟩
      (Text.pieces_join hne hseparators)
    refine Nat.le_trans hshorter ?_
    have hpath := Text.join_pieces '/' path.text
    rw [← pieces, h, ← List.append_assoc, Text.join_concat '/' hne] at hpath
    rw [← hpath, String.append_assoc, String.utf8ByteSize_append]
    exact Nat.le_add_right _ _

/-- Without the separators at their ends, too, a path is written behind its parent. -/
theorem pieces_withoutTrailing_parent? {path above : FilePath} (h : path.parent? = some above)
    (hsteps : above.components ≠ []) : above.text = "/" ∨
      ((Disk.withoutTrailing path).isAbsolute = (Disk.withoutTrailing above).isAbsolute
        ∧ ∃ behind, behind ≠ []
          ∧ (Disk.withoutTrailing path).pieces = (Disk.withoutTrailing above).pieces ++ behind) := by
  rcases pieces_parent? h hsteps with
    hroot | ⟨habsolute, hlast, behind, hbehind, name, hname, hfiller⟩
  · exact .inl hroot
  have hne : name ≠ "" := fun heq => by
    rw [heq] at hfiller
    cases hfiller
  -- there are no separators at the end of the parent
  have habove : (Disk.withoutTrailing above).isAbsolute = above.isAbsolute
      ∧ (Disk.withoutTrailing above).pieces = above.pieces := by
    rcases pieces_withoutTrailing above with ⟨-, -, hall⟩ | ⟨hsame, -, k, hk⟩
    · obtain ⟨before, last, hpieces⟩ := (List.eq_nil_or_concat' above.pieces).resolve_left
        (Text.pieces_ne_nil '/' above.text)
      rw [hpieces, List.getLast?_concat] at hlast
      exact absurd (congrArg some (hall last (by simp [hpieces]))) hlast
    · cases k with
      | zero => exact ⟨hsame, by simpa using hk.symm⟩
      | succ k =>
        rw [hk, List.replicate_succ', ← List.append_assoc, List.getLast?_concat] at hlast
        exact absurd rfl hlast
  rcases pieces_withoutTrailing path with ⟨-, -, hall⟩ | ⟨hsame, -, k, hk⟩
  · exact absurd (hall name (hbehind ▸ List.mem_append_right _ hname)) hne
  refine .inr ⟨by rw [hsame, habove.1, habsolute], ?_⟩
  rw [hbehind] at hk
  rw [habove.2]
  rcases List.append_eq_append_iff.mp hk with ⟨rest, hpath, hrest⟩ | ⟨rest, -, hrest⟩
  · refine ⟨rest, fun hnil => ?_, hpath⟩
    rw [hnil, List.nil_append] at hrest
    exact hne (List.eq_of_mem_replicate (hrest ▸ hname))
  · exact absurd (List.eq_of_mem_replicate
      (hrest ▸ List.mem_append_right rest hname : name ∈ List.replicate k "")) hne

/-- A path that is short enough to be looked up is so without the separators at its end. -/
theorem short_withoutTrailing {path : FilePath} (h : path.text.utf8ByteSize ≤ maxPathBytes) :
    (Disk.withoutTrailing path).text.utf8ByteSize ≤ maxPathBytes := by
  rcases pieces_withoutTrailing path with ⟨hroot, -, -⟩ | ⟨-, -, k, hk⟩
  · rw [hroot]
    decide
  · exact Nat.le_trans (size_le_of_pieces hk) h

/-- A path that leads somewhere is not empty without the separators at its end. -/
theorem withoutTrailing_ne_empty {path : FilePath} (h : path.components ≠ []) :
    (Disk.withoutTrailing path).text ≠ "" := by
  have hpath : path.text ≠ "" := fun heq => h (by
    obtain rfl : path = ⟨""⟩ := congrArg FilePath.mk heq
    decide)
  rcases pieces_withoutTrailing path with ⟨hroot, -, -⟩ | ⟨-, hempty, -⟩
  · rw [hroot]
    decide
  · exact mt hempty.mp hpath

theorem up_notMem_withoutTrailing {path : FilePath} (h : ".." ∉ path.pieces) :
    ".." ∉ (Disk.withoutTrailing path).pieces := by
  rcases pieces_withoutTrailing path with ⟨hroot, -, -⟩ | ⟨-, -, k, hk⟩
  · rw [pieces, hroot]
    decide
  · exact fun hup => h (hk ▸ List.mem_append_left _ hup)

theorem up_notMem_parent? {path above : FilePath} (hparent : path.parent? = some above)
    (hsteps : above.components ≠ []) (h : ".." ∉ path.pieces) : ".." ∉ above.pieces := by
  rcases pieces_parent? hparent hsteps with hroot | ⟨-, -, behind, hbehind, -⟩
  · rw [pieces, hroot]
    decide
  · exact fun hup => h (hbehind ▸ List.mem_append_left _ hup)

end FilePath

namespace Disk

/-! ### Paths behind one that fails -/

/-- What is behind a path that cannot be looked up cannot be looked up either. -/
theorem WellFormed.walk_append_error {disk : Disk} (hdisk : disk.WellFormed)
    (hfree : disk.Linkless) {links : Nat} {here : Location} {front : List String}
    {cause : DiskError} (hfront : front ≠ []) (h : disk.walk true links here front = .error cause)
    (rest : List String) : disk.walk true links here (front ++ rest) = .error cause := by
  induction front generalizing here with
  | nil => exact absurd rfl hfront
  | cons piece front ih =>
    rw [walk_cons] at h
    rw [List.cons_append, walk_cons]
    cases hstride : disk.stride here piece with
    | refused reason =>
      rw [hstride] at h
      exact h
    | reaches there =>
      rw [hstride] at h
      by_cases hlast : front = []
      · simp only [hlast, walk_nil, hdisk.directory_of_reaches hstride, reduceCtorEq] at h
      · exact ih hlast h
    | missing next =>
      simp only [hstride] at h
      split at h <;> cases h
      simp [*]
    | file next content =>
      simp only [hstride] at h
      split at h <;> cases h
      simp [*]
    | link next target => exact absurd hstride (hfree.stride_ne_link here next piece target)

/-- Behind a file there is nothing to look up. -/
theorem walk_append_file {disk : Disk} (hfree : disk.Linkless) {links : Nat} {here there : Location}
    {front rest : List String} {content : Content} (hrest : rest ≠ [])
    (h : disk.walk true links here front = .ok (.found there (.file content))) :
    disk.walk true links here (front ++ rest) = .error .notDirectory := by
  induction front generalizing here with
  | nil =>
    rw [walk_nil] at h
    split at h <;> cases h
    obtain ⟨piece, more, rfl⟩ := List.exists_cons_of_ne_nil hrest
    have hrefused : disk.stride there piece = .refused .notDirectory := by simp [stride, *]
    rw [List.nil_append, walk_cons, hrefused]
  | cons piece front ih =>
    rw [List.cons_append, walk_cons]
    cases goes_of_walk h with
    | on hstride hfront =>
      simp only [hstride]
      exact ih hfront
    | file hstride hlast => simp [hstride, hlast, hrest]
    | along hstride _ => exact absurd hstride (hfree.stride_ne_link _ _ _ _)

/-- Looking up never fails because something exists. -/
theorem stride_ne_exists (disk : Disk) (here : Location) (piece : String) :
    disk.stride here piece ≠ .refused .exists := by
  rw [stride]
  split
  · simp
  split
  · simp
  split
  · simp
  split
  · simp
  split <;> simp

/-- No look-up fails because something is there. -/
theorem Linkless.walk_ne_exists {disk : Disk} (hfree : disk.Linkless) (links : Nat)
    (here : Location) (pieces : List String) :
    disk.walk true links here pieces ≠ .error .exists := by
  induction pieces generalizing here with
  | nil =>
    rw [walk_nil]
    split <;> simp
  | cons piece rest ih =>
    rw [walk_cons]
    cases hstride : disk.stride here piece with
    | refused cause =>
      simp only [ne_eq, Except.error.injEq]
      rintro rfl
      exact disk.stride_ne_exists here piece hstride
    | reaches there => exact ih there
    | missing next =>
      simp only
      split <;> simp
    | file next content =>
      simp only
      split <;> simp
    | link next target => exact absurd hstride (hfree.stride_ne_link here next piece target)

/-- Fillers lead no further from a directory. -/
theorem walk_fillers {disk : Disk} {links : Nat} {here : Location} {fillers : List String}
    (hdir : disk.entryAt here = some .directory)
    (hfillers : ∀ piece ∈ fillers, FilePath.isFiller piece = true) :
    disk.walk true links here fillers = .ok (.found here .directory) := by
  induction fillers with
  | nil => rw [walk_nil, hdir]
  | cons piece rest ih =>
    obtain ⟨hpiece, hrest⟩ := List.forall_mem_cons.mp hfillers
    have hstride : disk.stride here piece = .reaches here := by
      rw [stride, if_neg (not_not_intro hdir), if_pos hpiece]
    rw [walk_cons, hstride]
    exact ih hrest

theorem resolve_eq_walk {disk : Disk} {path : FilePath} (hempty : path.text ≠ "")
    (hshort : path.text.utf8ByteSize ≤ maxPathBytes) :
    disk.resolve true path = disk.walk true maxLinks (disk.start path) path.pieces := by
  rw [resolve, if_neg hempty, if_neg (Nat.not_lt.mpr hshort)]
  rfl

/-! ### Making one directory -/

theorem isDirectory_iff_find {disk : Disk} {path : FilePath} :
    disk.isDirectory path = true ↔ ∃ here, disk.find true path = .ok (here, .directory) := by
  rw [isDirectory]
  split
  · rename_i here hfind
    simp [hfind]
  · rename_i hno
    simp only [Bool.false_eq_true, false_iff, not_exists]
    exact hno

theorem find_eq_ok {disk : Disk} {follow : Bool} {path : FilePath} {here : Location} {entry : Entry} :
    disk.find follow path = .ok (here, entry) ↔ disk.resolve follow path = .ok (.found here entry) := by
  refine ⟨resolve_of_find, fun h => ?_⟩
  rw [find, h]

theorem resolve_root (disk : Disk) (path : FilePath) (h : path.text = "/") :
    disk.resolve true path = .ok (.found [] .directory) := by
  obtain rfl : path = ⟨"/"⟩ := congrArg FilePath.mk h
  rfl

/-- Empty pieces behind a walk to a directory change nothing. -/
theorem walk_trailing {disk : Disk} {links : Nat} {here there : Location} {pieces : List String}
    (k : Nat) : disk.walk true links here (pieces ++ List.replicate k "")
        = .ok (.found there .directory)
      ↔ disk.walk true links here pieces = .ok (.found there .directory) := by
  have hfillers : ∀ piece ∈ List.replicate k "", FilePath.isFiller piece = true :=
    fun piece hpiece => by rw [List.eq_of_mem_replicate hpiece]; rfl
  constructor
  · intro h
    cases k with
    | zero => simpa using h
    | succ k =>
      -- The walk goes on behind the pieces, so they lead to a directory.
      obtain ⟨between, hbetween⟩ := directory_of_walk_append (by simp) h
      obtain ⟨left, hleft⟩ := walk_append hbetween
      rw [hleft, walk_fillers (entryAt_of_walk hbetween) hfillers] at h
      cases h
      exact hbetween
  · intro h
    obtain ⟨left, hleft⟩ := walk_append h
    rw [hleft, walk_fillers (entryAt_of_walk h) hfillers]

/-- A path leads to a directory as it does without the separators at its end. -/
theorem isDirectory_iff {disk : Disk} {path : FilePath} :
    disk.isDirectory path = true ↔ path.text.utf8ByteSize ≤ maxPathBytes
      ∧ ∃ here, disk.resolve true (withoutTrailing path) = .ok (.found here .directory) := by
  rw [isDirectory_iff_find]
  simp only [find_eq_ok]
  by_cases hshort : path.text.utf8ByteSize ≤ maxPathBytes
  swap
  · refine ⟨?_, fun h => absurd h.1 hshort⟩
    rintro ⟨here, hresolve⟩
    rw [resolve, if_pos (Nat.not_le.mp hshort)] at hresolve
    split at hresolve <;> cases hresolve
  refine Iff.trans ?_ (and_iff_right hshort).symm
  rcases path.pieces_withoutTrailing with ⟨hroot, habsolute, hall⟩ | ⟨habsolute, hempty, k, hpieces⟩
  · rw [resolve_root disk _ hroot]
    have hne : path.text ≠ "" := fun hempty => by
      rw [FilePath.isAbsolute, hempty] at habsolute
      cases habsolute
    have hfillers : ∀ piece ∈ path.pieces, FilePath.isFiller piece = true :=
      fun piece hpiece => by rw [hall piece hpiece]; rfl
    have hstart : disk.start path = [] := by rw [start, if_pos habsolute]
    rw [resolve_eq_walk hne hshort, hstart, walk_fillers rfl hfillers]
  by_cases hne : path.text = ""
  · rw [resolve, resolve, if_pos hne, if_pos (hempty.mpr hne)]
  have hless := FilePath.short_withoutTrailing hshort
  have hstart : disk.start (withoutTrailing path) = disk.start path := by rw [start, start, habsolute]
  rw [resolve_eq_walk hne hshort, resolve_eq_walk (mt hempty.mp hne) hless, hstart, hpieces]
  exact exists_congr fun _ => walk_trailing k

namespace Linkless

variable {disk : Disk} (hfree : disk.Linkless)

include hfree

/-- What making one directory comes to. -/
theorem makeDirectory_eq (path : FilePath) : disk.makeDirectory path =
    if maxPathBytes < path.text.utf8ByteSize then .error .nameTooLong
    else match disk.resolve true (withoutTrailing path) with
      | .ok (.free here) => .ok (disk.set here .directory)
      | .ok (.found _ _) => .error .exists
      | .error e => .error e := by
  rewrite [makeDirectory, hfree.resolve_follow]
  rfl

theorem makeDirectory_of_isDirectory {path : FilePath} (h : disk.isDirectory path = true) :
    disk.makeDirectory path = .error .exists := by
  obtain ⟨hshort, here, hresolve⟩ := isDirectory_iff.mp h
  rw [hfree.makeDirectory_eq, if_neg (Nat.not_lt.mpr hshort), hresolve]

/-- A directory that was made is one. -/
theorem isDirectory_of_makeDirectory {made : Disk} {path : FilePath}
    (h : disk.makeDirectory path = .ok made) : made.isDirectory path = true := by
  rw [hfree.makeDirectory_eq] at h
  split at h
  · cases h
  rename_i hshort
  split at h
  · rename_i here hresolve
    cases h
    exact isDirectory_iff.mpr ⟨Nat.not_lt.mp hshort, here, resolve_set_free (by simp) hresolve⟩
  · cases h
  · cases h

/-- Where something is in the way of a directory, it is a file. -/
theorem file_of_makeDirectory_exists {path : FilePath} (h : disk.makeDirectory path = .error .exists)
    (hdir : ¬ disk.isDirectory path = true) :
    ∃ here content, disk.resolve true (withoutTrailing path) = .ok (.found here (.file content)) := by
  rw [hfree.makeDirectory_eq] at h
  split at h
  · cases h
  rename_i hshort
  split at h
  · cases h
  · rename_i here entry hresolve
    cases entry with
    | directory =>
      exact absurd (isDirectory_iff.mpr ⟨Nat.not_lt.mp hshort, here, hresolve⟩) hdir
    | file content => exact ⟨here, content, hresolve⟩
    | link target => exact absurd (entryAt_of_resolve hresolve) (hfree here target)
  · rename_i hresolve
    cases h
    rw [resolve] at hresolve
    split at hresolve
    · cases hresolve
    split at hresolve
    · cases hresolve
    exact absurd hresolve (hfree.walk_ne_exists _ _ _)

theorem makeDirectory_of_file {path : FilePath} {here : Location} {content : Content}
    (hshort : path.text.utf8ByteSize ≤ maxPathBytes)
    (h : disk.resolve true (withoutTrailing path) = .ok (.found here (.file content))) :
    disk.makeDirectory path = .error .exists := by
  rw [hfree.makeDirectory_eq, if_neg (Nat.not_lt.mpr hshort), h]

end Linkless

/-! ### A directory and its parent -/

/-- A path is resolved by way of its parent: the walk to the parent, and on from there. -/
theorem resolve_withoutTrailing_of_parent? {disk : Disk} {path above : FilePath}
    (h : path.parent? = some above) (hsteps : above.components ≠ [])
    (hshort : path.text.utf8ByteSize ≤ maxPathBytes) :
    above.text = "/" ∨ (above.text.utf8ByteSize ≤ maxPathBytes ∧ ∃ behind, behind ≠ []
      ∧ disk.resolve true (withoutTrailing above) = disk.walk true maxLinks
          (disk.start (withoutTrailing above)) (withoutTrailing above).pieces
      ∧ disk.resolve true (withoutTrailing path) = disk.walk true maxLinks
          (disk.start (withoutTrailing above)) ((withoutTrailing above).pieces ++ behind)) := by
  rcases FilePath.pieces_withoutTrailing_parent? h hsteps with hroot | ⟨habsolute, behind, hne, hpieces⟩
  · exact .inl hroot
  rcases FilePath.pieces_parent? h hsteps with hroot | ⟨-, -, more, hmore, -⟩
  · exact .inl hroot
  have haboveShort := Nat.le_trans (FilePath.size_le_of_pieces hmore) hshort
  have habove := FilePath.withoutTrailing_ne_empty hsteps
  -- Behind the pieces of the parent there is one more, so the path has two at least.
  have hpath : (withoutTrailing path).text ≠ "" := by
    intro heq
    have hlength := congrArg List.length hpieces
    rw [FilePath.pieces, heq, List.length_append] at hlength
    have hone : (Text.pieces '/' "").length = 1 := by decide
    have hpos := List.length_pos_iff.mpr hne
    have hfirst := List.length_pos_iff.mpr (Text.pieces_ne_nil '/' (withoutTrailing above).text)
    rw [FilePath.pieces] at hlength
    omega
  have hstart : disk.start (withoutTrailing path) = disk.start (withoutTrailing above) := by
    rw [start, start, habsolute]
  refine .inr ⟨haboveShort, behind, hne,
    resolve_eq_walk habove (FilePath.short_withoutTrailing haboveShort), ?_⟩
  rw [resolve_eq_walk hpath (FilePath.short_withoutTrailing hshort), hstart, hpieces]

namespace WellFormed

variable {disk : Disk} (hdisk : disk.WellFormed) (hfree : disk.Linkless)

include hdisk hfree

/-- What keeps a parent from being made keeps the directory from being made. -/
theorem makeDirectory_of_parent_error {path above : FilePath} {cause : DiskError}
    (hparent : path.parent? = some above) (hsteps : above.components ≠ [])
    (hshort : path.text.utf8ByteSize ≤ maxPathBytes)
    (h : disk.makeDirectory above = .error cause) (hcause : cause ≠ .exists) :
    disk.makeDirectory path = .error cause := by
  rw [hfree.makeDirectory_eq] at h
  rcases @resolve_withoutTrailing_of_parent? disk _ _ hparent hsteps hshort with
    hroot | ⟨habove, behind, -, hfront, hwhole⟩
  · obtain rfl : above = ⟨"/"⟩ := congrArg FilePath.mk hroot
    cases h
    exact absurd rfl hcause
  rw [if_neg (Nat.not_lt.mpr habove), hfront] at h
  rw [hfree.makeDirectory_eq, if_neg (Nat.not_lt.mpr hshort), hwhole]
  split at h
  · cases h
  · cases h
    exact absurd rfl hcause
  · rename_i hwalk
    cases h
    have hfront : (withoutTrailing above).pieces ≠ [] := Text.pieces_ne_nil '/' _
    rw [hdisk.walk_append_error hfree hfront hwalk]

omit hdisk in
/-- Nothing is made below a file. -/
theorem makeDirectory_of_parent_file {path above : FilePath} {here : Location} {content : Content}
    (hparent : path.parent? = some above) (hsteps : above.components ≠ [])
    (hshort : path.text.utf8ByteSize ≤ maxPathBytes)
    (h : disk.resolve true (withoutTrailing above) = .ok (.found here (.file content))) :
    disk.makeDirectory path = .error .notDirectory := by
  rcases @resolve_withoutTrailing_of_parent? disk _ _ hparent hsteps hshort with
    hroot | ⟨-, behind, hne, hfront, hwhole⟩
  · obtain rfl : above = ⟨"/"⟩ := congrArg FilePath.mk hroot
    cases h
  rw [hfront] at h
  rw [hfree.makeDirectory_eq, if_neg (Nat.not_lt.mpr hshort), hwhole, walk_append_file hfree hne h]

end WellFormed

/-! ### Making a directory with its parents -/

/-- A path comes in front of its parents, unless it has no components. -/
theorem withParents_succ (path : FilePath) (limit : Nat) :
    withParents path (limit + 1) = [] ∧ path.components = []
      ∨ path.components ≠ [] ∧ ∃ parents, withParents path (limit + 1) = path :: parents
        ∧ (parents = [] ∨ ∃ above, path.parent? = some above
          ∧ parents = withParents above limit) := by
  rw [withParents]
  by_cases hsteps : path.components = []
  · exact .inl ⟨if_pos hsteps, hsteps⟩
  refine .inr ⟨hsteps, _, if_neg hsteps, ?_⟩
  cases path.parent? with
  | none => exact .inl rfl
  | some above => exact .inr ⟨above, rfl, rfl⟩

/-- What has been made is a directory. -/
theorem isDirectory_of_makeEach {disk made : Disk} {path : FilePath} {parents : List FilePath}
    (hfree : disk.Linkless) (h : disk.makeEach (path :: parents) = (none, made)) :
    made.isDirectory path = true := by
  rw [makeEach] at h
  split at h
  · rename_i hmade
    cases h
    exact hfree.isDirectory_of_makeDirectory hmade
  · split at h
    · cases h
    · rename_i above hparents
      have hwide := disk.makeEach_widens parents
      rw [hparents] at hwide
      split at h
      · rename_i hmade
        cases h
        exact (hwide.linkless hfree).isDirectory_of_makeDirectory hmade
      · split at h
        · cases h
          assumption
        · cases h
  · split at h
    · cases h
      assumption
    · cases h

/-- Where the directory is, nothing is made. -/
theorem makeEach_of_isDirectory {disk : Disk} {path : FilePath} (parents : List FilePath)
    (hfree : disk.Linkless) (h : disk.isDirectory path = true) :
    disk.makeEach (path :: parents) = (none, disk) := by
  rw [makeEach, hfree.makeDirectory_of_isDirectory h]
  simp [h]

/-- **What has been made once** need not be made again. -/
theorem makeEach_again {disk made later : Disk} {paths : List FilePath} (hfree : later.Linkless)
    (h : disk.makeEach paths = (none, made)) (hgrown : Grown made later) :
    later.makeEach paths = (none, later) := by
  cases paths with
  | nil => rfl
  | cons path parents =>
    have hbefore := (Grown.of_widens (disk.makeEach_widens (path :: parents))).linkless
      (h ▸ hgrown.linkless hfree)
    exact makeEach_of_isDirectory parents hfree
      (hgrown.isDirectory (isDirectory_of_makeEach hbefore h))

theorem SameShape.symm {disk later : Disk} (h : SameShape disk later) : SameShape later disk :=
  ⟨h.workingDirectory.symm, fun here => (h.shapes here).symm⟩

theorem SameShape.isDirectory {disk later : Disk} (h : SameShape disk later) (path : FilePath) :
    later.isDirectory path = disk.isDirectory path :=
  Bool.eq_iff_iff.mpr ⟨h.symm.grown.isDirectory, h.grown.isDirectory⟩

/-- What cannot be made in a tree cannot be made in another of the same shape. -/
theorem SameShape.makeDirectory_error {disk later : Disk} (h : SameShape disk later)
    {path : FilePath} {cause : DiskError} (hmake : disk.makeDirectory path = .error cause) :
    later.makeDirectory path = .error cause := by
  rw [makeDirectory] at hmake ⊢
  split at hmake
  · rwa [if_pos ‹_›]
  rw [if_neg ‹_›]
  split at hmake
  · cases hmake
  · rename_i hresolve
    obtain ⟨found, hfound, -⟩ := h.resolve_found hresolve
    rw [hfound]
    exact hmake
  · rename_i hresolve
    rw [h.resolve_error hresolve]
    exact hmake

/-- What keeps a directory from being made, unless a parent is missing, keeps it from being made with
its parents. -/
theorem makeEach_of_error {disk : Disk} {path : FilePath} (parents : List FilePath)
    {cause : DiskError} (h : disk.makeDirectory path = .error cause)
    (hdir : ¬ disk.isDirectory path = true) (hcause : cause ≠ .noEntry) :
    disk.makeEach (path :: parents) = (some cause, disk) := by
  rw [makeEach, h]
  cases cause <;> simp_all

/-- A failure to make one directory with its parents. -/
theorem makeEach_eq_some {disk later : Disk} {path : FilePath} {parents : List FilePath}
    {cause : DiskError} (h : disk.makeEach (path :: parents) = (some cause, later)) :
    (disk.makeDirectory path = .error cause ∧ cause ≠ .noEntry ∧ later = disk
        ∧ ¬ disk.isDirectory path = true)
      ∨ disk.makeDirectory path = .error .noEntry
        ∧ (disk.makeEach parents = (some cause, later)
          ∨ disk.makeEach parents = (none, later) ∧ later.makeDirectory path = .error cause
            ∧ ¬ later.isDirectory path = true) := by
  rw [makeEach] at h
  split at h
  · cases h
  · rename_i hmissing
    split at h
    · rename_i hparents
      cases h
      exact .inr ⟨hmissing, .inl hparents⟩
    · rename_i above hparents
      split at h
      · cases h
      · rename_i hmake
        split at h
        · cases h
        · cases h
          exact .inr ⟨hmissing, .inr ⟨hparents, hmake, ‹_›⟩⟩
  · rename_i reason hreason hmake
    split at h
    · cases h
    · cases h
      exact .inl ⟨hmake, hreason, rfl, ‹_›⟩

namespace WellFormed

variable {disk : Disk} (hdisk : disk.WellFormed) (hfree : disk.Linkless)

include hdisk hfree

/-- **A parent that cannot be made** keeps the directory from being made: for the same reason, or
because the parent is a file. -/
theorem makeEach_of_parent_failed {path above : FilePath} {limit : Nat} {cause : DiskError}
    (hparent : path.parent? = some above) (hshort : path.text.utf8ByteSize ≤ maxPathBytes)
    (h : disk.makeEach (withParents above limit) = (some cause, disk)) :
    disk.makeEach (path :: withParents above limit) = (some cause, disk)
      ∨ cause = .exists
        ∧ disk.makeEach (path :: withParents above limit) = (some .notDirectory, disk) := by
  cases limit with
  | zero => cases h
  | succ limit =>
    rcases withParents_succ above limit with ⟨hnone, -⟩ | ⟨hsteps, parents, hparents, -⟩
    · rw [hnone] at h
      cases h
    rw [hparents] at h ⊢
    have hnot : ∀ {reason}, disk.makeDirectory path = .error reason → reason ≠ .exists →
        ¬ disk.isDirectory path = true := by
      intro reason hreason hne hdir
      rw [hfree.makeDirectory_of_isDirectory hdir] at hreason
      exact hne (Except.error.inj hreason).symm
    rcases makeEach_eq_some h with ⟨hmake, hcause, -, hdir⟩ | ⟨hmissing, -⟩
    · by_cases hexists : cause = .exists
      · subst hexists
        obtain ⟨here, content, hfile⟩ := hfree.file_of_makeDirectory_exists hmake hdir
        have hbelow := makeDirectory_of_parent_file hfree hparent hsteps hshort hfile
        exact .inr ⟨rfl, makeEach_of_error _ hbelow (hnot hbelow (by simp)) (by simp)⟩
      · have hbelow := hdisk.makeDirectory_of_parent_error hfree hparent hsteps hshort hmake hexists
        exact .inl (makeEach_of_error _ hbelow (hnot hbelow hexists) hcause)
    · -- the parent is tried again, and fails again
      have hbelow :=
        hdisk.makeDirectory_of_parent_error hfree hparent hsteps hshort hmissing (by simp)
      left
      rw [makeEach, hbelow]
      simp [h]

end WellFormed

theorem size_le_of_makeDirectory {disk : Disk} {path : FilePath} {cause : DiskError}
    (h : disk.makeDirectory path = .error cause) (hcause : cause ≠ .nameTooLong) :
    path.text.utf8ByteSize ≤ maxPathBytes := by
  rw [makeDirectory] at h
  split at h
  · cases h
    exact absurd rfl hcause
  · exact Nat.not_lt.mp ‹_›

/-- **A directory that could not be made** cannot be made the next time.  The reason is the same,
unless a file was found in the way only when directories in front of it had been made. -/
theorem makeEach_fails_again {disk later again : Disk} {path : FilePath} {limit : Nat}
    {cause : DiskError} (hfree : disk.Linkless) (hagain : again.WellFormed)
    (h : disk.makeEach (withParents path limit) = (some cause, later))
    (hsame : SameShape later again) :
    again.makeEach (withParents path limit) = (some cause, again)
      ∨ cause = .exists ∧ disk.makeDirectory path = .error .noEntry
        ∧ again.makeEach (withParents path limit) = (some .notDirectory, again) := by
  have hwide := disk.makeEach_widens (withParents path limit)
  rw [h] at hwide
  have hagainFree := hsame.linkless (hwide.linkless hfree)
  induction limit generalizing path with
  | zero => cases h
  | succ limit ih =>
    rcases withParents_succ path limit with ⟨hnone, -⟩ | ⟨-, parents, hparents, hfrom⟩
    · rw [hnone] at h
      cases h
    rw [hparents] at h ⊢
    rcases makeEach_eq_some h with
      ⟨hmake, hcause, rfl, hdir⟩ | ⟨hmissing, hfails | ⟨hmade, hmake, hdir⟩⟩
    · -- it fails at once, and nothing has changed
      rw [← hsame.isDirectory] at hdir
      exact .inl (makeEach_of_error _ (hsame.makeDirectory_error hmake) hdir hcause)
    · -- a parent fails
      have hshort := size_le_of_makeDirectory hmissing (by simp)
      rcases hfrom with rfl | ⟨above, hparent, rfl⟩
      · cases hfails
      rcases ih hfails with hstill | ⟨hexists, -, hother⟩
      · rcases hagain.makeEach_of_parent_failed hagainFree hparent hshort hstill with
          heq | ⟨hexists, hother⟩
        · exact .inl heq
        · exact .inr ⟨hexists, hmissing, hother⟩
      · rcases hagain.makeEach_of_parent_failed hagainFree hparent hshort hother with
          heq | ⟨hno, -⟩
        · exact .inr ⟨hexists, hmissing, heq⟩
        · cases hno
    · -- its parents have been made
      have hstill := hsame.makeDirectory_error hmake
      rw [← hsame.isDirectory] at hdir
      left
      by_cases hcause : cause = .noEntry
      · subst hcause
        rw [makeEach, hstill, makeEach_again hagainFree hmade hsame.grown]
        simp [hstill, hdir]
      · exact makeEach_of_error _ hstill hdir hcause

/-- Without `..` in its path, a directory is kept from being made by a file that was there. -/
theorem WellFormed.makeDirectory_of_makeEach_exists {disk later : Disk} (hdisk : disk.WellFormed)
    (hfree : disk.Linkless) {path : FilePath} {limit : Nat} (hup : ".." ∉ path.pieces)
    (h : disk.makeEach (withParents path limit) = (some .exists, later)) :
    disk.makeDirectory path = .error .exists := by
  induction limit generalizing path with
  | zero => cases h
  | succ limit ih =>
    have hwide := disk.makeEach_widens (withParents path (limit + 1))
    rw [h] at hwide
    rcases withParents_succ path limit with ⟨hnone, -⟩ | ⟨-, parents, hparents, hfrom⟩
    · rw [hnone] at h
      cases h
    rw [hparents] at h
    rcases makeEach_eq_some h with ⟨hmake, -⟩ | ⟨hmissing, hfails | ⟨-, hmake, hdir⟩⟩
    · exact hmake
    · -- a file among the parents would have been met at once
      have hshort := size_le_of_makeDirectory hmissing (by simp)
      rcases hfrom with rfl | ⟨above, hparent, rfl⟩
      · cases hfails
      cases limit with
      | zero => cases hfails
      | succ limit =>
        rcases withParents_succ above limit with ⟨hnone, -⟩ | ⟨hsteps, others, hothers, -⟩
        · rw [hnone] at hfails
          cases hfails
        have habove := ih (FilePath.up_notMem_parent? hparent hsteps hup) hfails
        rw [hothers] at hfails
        have hnot : ¬ disk.isDirectory above = true := fun hdir => by
          rw [makeEach_of_isDirectory others hfree hdir] at hfails
          cases hfails
        obtain ⟨here, content, hfile⟩ := hfree.file_of_makeDirectory_exists habove hnot
        rw [makeDirectory_of_parent_file hfree hparent hsteps hshort hfile] at hmissing
        cases hmissing
    · -- what is in the way now is a file, and was there before
      have hshort := size_le_of_makeDirectory hmissing (by simp)
      obtain ⟨here, content, hfile⟩ :=
        (hwide.linkless hfree).file_of_makeDirectory_exists hmake hdir
      have hentry := (hwide.added here _ (entryAt_of_resolve hfile)).resolve_right (by simp)
      have hearlier := hdisk.find_earlier (Grown.of_widens hwide) (hwide.linkless hfree)
        (FilePath.up_notMem_withoutTrailing hup) (find_eq_ok.mpr hfile) hentry
      exact hfree.makeDirectory_of_file hshort (find_eq_ok.mp hearlier)

/-! ### A destination -/

/-- **A destination that has been made** is there to stay. -/
theorem attemptDirectories_again {disk made later : Disk} {path : FilePath} (hfree : later.Linkless)
    (h : disk.attemptDirectories path = (none, made)) (hgrown : Grown made later) :
    later.attemptDirectories path = (none, later) := makeEach_again hfree h hgrown

/-- **A destination that could not be made** cannot be made the next time, for the same reason;
unless its path goes up again from a directory that was missing, and comes to a file then. -/
theorem attemptDirectories_fails_again {disk later again : Disk} {path : FilePath}
    {cause : DiskError} (hdisk : disk.WellFormed) (hfree : disk.Linkless)
    (hagain : again.WellFormed) (h : disk.attemptDirectories path = (some cause, later))
    (hsame : SameShape later again) :
    again.attemptDirectories path = (some cause, again)
      ∨ ".." ∈ path.pieces ∧ cause = .exists
        ∧ again.attemptDirectories path = (some .notDirectory, again) := by
  rcases makeEach_fails_again hfree hagain h hsame with hstill | ⟨rfl, hmissing, hother⟩
  · exact .inl hstill
  · refine .inr ⟨Decidable.byContradiction fun hup => ?_, rfl, hother⟩
    rw [hdisk.makeDirectory_of_makeEach_exists hfree hup h] at hmissing
    cases hmissing

end Disk

end ApiStubs
