/-!
# Text — cutting and joining

Texts are cut at a separating character and joined again. Dotted names, file paths and patterns
are all lists of pieces written with one separator, so the two functions stand here once.

`pieces_join` is the law the rest leans on: pieces free of the separator come back from the
joined text.
-/

namespace ApiStubs.Text

/-- The pieces of a character list between the occurrences of `sep`; there is always one. -/
def cut (sep : Char) : List Char → List (List Char)
  | [] => [[]]
  | c :: rest =>
    match cut sep rest with
    | [] => [[c]]
    | piece :: others => if c = sep then [] :: piece :: others else (c :: piece) :: others

/-- The pieces of a text between the occurrences of `sep`. -/
def pieces (sep : Char) (s : String) : List String :=
  (cut sep s.toList).map String.ofList

/-- Character lists written one after the other with `sep` between them. -/
def glue (sep : Char) : List (List Char) → List Char
  | [] => []
  | [piece] => piece
  | piece :: next :: rest => piece ++ sep :: glue sep (next :: rest)

/-- Texts written one after the other with `sep` between them. -/
def join (sep : Char) (parts : List String) : String :=
  String.ofList (glue sep (parts.map String.toList))

/-- The text starts with `start`. -/
def startsWith (s start : String) : Bool :=
  start.toList.isPrefixOf s.toList

/-- The text ends with the character `c`. -/
def endsWith (s : String) (c : Char) : Bool :=
  s.toList.getLast? == some c

/-- The text before the last occurrence of `sep` and the text after it. -/
def splitLast? (sep : Char) (s : String) : Option (String × String) :=
  let backwards := s.toList.reverse
  match backwards.dropWhile (· ≠ sep) with
  | [] => none
  | _ :: before =>
    some (String.ofList before.reverse, String.ofList (backwards.takeWhile (· ≠ sep)).reverse)

/-- The text before the first occurrence of `sep`, or all of it. -/
def beforeFirst (sep : Char) (s : String) : String :=
  String.ofList (s.toList.takeWhile (· ≠ sep))

/-- Every occurrence of one character exchanged for another. -/
def exchange (old new : Char) (s : String) : String :=
  String.ofList (s.toList.map fun c => if c = old then new else c)

/-! ### Cutting undoes joining -/

theorem cut_ne_nil (sep : Char) (s : List Char) : cut sep s ≠ [] := by
  induction s with
  | nil => simp [cut]
  | cons c rest ih =>
    rw [cut]
    cases h : cut sep rest with
    | nil => exact absurd h ih
    | cons piece others => by_cases hc : c = sep <;> simp [hc]

theorem cut_eq_singleton {sep : Char} {s : List Char} (h : sep ∉ s) : cut sep s = [s] := by
  induction s with
  | nil => rfl
  | cons c rest ih =>
    have hc : c ≠ sep := fun e => h (by simp [e])
    have hr : sep ∉ rest := fun e => h (by simp [e])
    simp [cut, ih hr, hc]

theorem cut_append {sep : Char} {s : List Char} (h : sep ∉ s) (rest : List Char) :
    cut sep (s ++ sep :: rest) = s :: cut sep rest := by
  induction s with
  | nil =>
    cases hr : cut sep rest with
    | nil => exact absurd hr (cut_ne_nil sep rest)
    | cons piece others => simp [cut, hr]
  | cons c tail ih =>
    have hc : c ≠ sep := fun e => h (by simp [e])
    have ht : sep ∉ tail := fun e => h (by simp [e])
    simp [cut, ih ht, hc]

theorem cut_glue {sep : Char} {parts : List (List Char)} (hne : parts ≠ [])
    (h : ∀ p ∈ parts, sep ∉ p) : cut sep (glue sep parts) = parts := by
  induction parts with
  | nil => exact absurd rfl hne
  | cons p rest ih =>
    cases rest with
    | nil => simpa [glue] using cut_eq_singleton (h p (by simp))
    | cons q more =>
      rw [glue, cut_append (h p (by simp)), ih (by simp) (fun x hx => h x (by simp [hx]))]

theorem glue_cut (sep : Char) (s : List Char) : glue sep (cut sep s) = s := by
  induction s with
  | nil => rfl
  | cons c rest ih =>
    cases hr : cut sep rest with
    | nil => exact absurd hr (cut_ne_nil sep rest)
    | cons piece others =>
      rw [hr] at ih
      by_cases hc : c = sep
      · simp [cut, hr, hc, glue, ih]
      · cases others with
        | nil => simpa [cut, hr, hc, glue] using ih
        | cons q more => simpa [cut, hr, hc, glue] using ih

/-- Pieces without the separator come back from the joined text. -/
theorem pieces_join {sep : Char} {parts : List String} (hne : parts ≠ [])
    (h : ∀ p ∈ parts, sep ∉ p.toList) : pieces sep (join sep parts) = parts := by
  have hg : cut sep (glue sep (parts.map String.toList)) = parts.map String.toList := by
    apply cut_glue (by simpa using hne)
    intro p hp
    obtain ⟨q, hq, rfl⟩ := List.mem_map.mp hp
    exact h q hq
  simp [pieces, join, hg, List.map_map]

/-- The pieces of a text, joined, are the text. -/
theorem join_pieces (sep : Char) (s : String) : join sep (pieces sep s) = s := by
  simp [pieces, join, List.map_map, Function.comp_def, glue_cut]

end ApiStubs.Text
