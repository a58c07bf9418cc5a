import ApiStubs.Proofs.Noting
import ApiStubs.Proofs.Reexports

/-!
# Proofs — Relative imports — from which package they start

A relative import starts from a package: the module itself if it is one, or else the package around
it.  One dot stands for that package and each further dot for the package around it, so that there
are as many levels as that package has components (`Tree.anchor`).  An import of more levels fails;
every other import is one of a name that begins with the top-level package of the module, and is
replayed as the import of that name: `Tree.relative_import_resolved`.

The levels of an import are the dots in front of its name, however the reader takes them one or
three at a time: `Read.run_dots`.
-/

namespace ApiStubs

/-! ### Components of dotted names -/

namespace Text

theorem head?_cut (sep : Char) (s : List Char) :
    (cut sep s).head? = some (s.takeWhile (· ≠ sep)) := by
  induction s with
  | nil => rfl
  | cons c rest ih =>
    rw [cut]
    cases hcut : cut sep rest with
    | nil => exact absurd hcut (cut_ne_nil sep rest)
    | cons piece others =>
      rw [hcut, List.head?_cons, Option.some.injEq] at ih
      by_cases hc : c = sep
      · simp [hc]
      · simp [hc, ih]

/-- A part that is joined itself may as well be its parts. -/
theorem join_join (sep : Char) (before : List String) {parts : List String} (h : parts ≠ []) :
    join sep (before ++ [join sep parts]) = join sep (before ++ parts) := by
  induction before with
  | nil => simp [join, glue]
  | cons first rest ih =>
    rw [List.cons_append, List.cons_append, join_cons sep first (by simp),
      join_cons sep first (by simp [h]), ih]

end Text

namespace Dotted

/-- The components of what is written behind the dots of an import, which may be nothing. -/
def behind (written : String) : List String := if written = "" then [] else components written

theorem ofComponents_components (name : String) : ofComponents (components name) = name :=
  Text.join_pieces '.' name

theorem no_dot_of_mem {name part : String} (h : part ∈ components name) : '.' ∉ part.toList :=
  fun hdot => (Text.mem_pieces h '.' hdot).2 rfl

theorem top_eq_head? (name : String) : some (top name) = (components name).head? := by
  rw [components, Text.pieces, List.head?_map, Text.head?_cut]
  rfl

/-- The package around a module has all components of its name but the last. -/
theorem parent?_eq (name : String) :
    parent? name = if (components name).dropLast = [] then none
      else some (ofComponents (components name).dropLast) := by
  obtain ⟨above, last, hparts⟩ : ∃ above last, components name = above ++ [last] :=
    ⟨_, _, (List.dropLast_append_getLast (Text.pieces_ne_nil '.' name)).symm⟩
  have hname := ofComponents_components name
  have hlast : '.' ∉ last.toList := no_dot_of_mem (hparts ▸ List.mem_append_right _ (by simp))
  rw [hparts] at hname ⊢
  rw [List.dropLast_concat]
  by_cases habove : above = []
  · subst habove
    have hsame : last = name := by simpa [ofComponents, Text.join, Text.glue] using hname
    rw [if_pos rfl, parent?, ← hsame, Text.splitLast?_eq_none hlast]
    rfl
  · rw [if_neg habove, ← hname, parent?, ofComponents, Text.join_concat '.' habove,
      Text.splitLast?_append _ hlast]
    rfl

/-- A name behind another one has the components of both. -/
theorem join_eq_ofComponents {parts : List String} (hne : parts ≠ []) (hparts : "" ∉ parts)
    (written : String) :
    join (ofComponents parts) written = ofComponents (parts ++ behind written) := by
  rw [behind]
  split
  · rename_i hempty
    have hname : ofComponents parts ≠ "" := fun h => hne (Text.join_eq_empty hparts h)
    rw [List.append_nil, join, if_neg hname, if_pos hempty]
  · rename_i hwritten
    rw [join_ofComponents hparts hwritten]
    have hjoin := Text.join_join '.' parts (Text.pieces_ne_nil '.' written)
    rw [Text.join_pieces] at hjoin
    exact hjoin

end Dotted

namespace Python

/-! ### The package that relative imports start from -/

namespace Tree

variable (tree : Tree)

/-- The components of the package that the relative imports of a module start from: those of a
package itself, and for a plain module those of the package around it. -/
def anchor (name : String) (location : Location) : List String :=
  if location.isPackage then Dotted.components name else (Dotted.components name).dropLast

theorem length_anchor (name : String) (location : Location) : (anchor name location).length
    = if location.isPackage then (Dotted.components name).length
      else (Dotted.components name).length - 1 := by
  rw [anchor]
  split
  · rfl
  · exact List.length_dropLast

theorem anchor_begins (name : String) (location : Location) :
    anchor name location <+: Dotted.components name := by
  rw [anchor]
  split
  · exact List.prefix_rfl
  · exact List.dropLast_prefix _

variable {tree} {load : String → Importing SymbolTable} {name : String} {location : Location}

/-- The package of a module's scope has these components. -/
theorem package_scope (h : "" ∉ Dotted.components name) :
    (if (tree.scope load name location).package = "" then []
      else Dotted.components (tree.scope load name location).package) = anchor name location := by
  show (if (if location.isPackage then name else (Dotted.parent? name).getD "") = "" then []
    else Dotted.components (if location.isPackage then name else (Dotted.parent? name).getD ""))
      = anchor name location
  rw [anchor]
  cases location.isPackage with
  | true =>
    have hname : name ≠ "" := by
      rintro rfl
      exact h (by decide)
    simp [hname]
  | false =>
    have habove : "" ∉ (Dotted.components name).dropLast := fun hmem =>
      h (List.mem_of_mem_dropLast hmem)
    simp only [Bool.false_eq_true, if_false]
    rw [Dotted.parent?_eq]
    by_cases hnil : (Dotted.components name).dropLast = []
    · simp [hnil]
    · have hne : Dotted.ofComponents (Dotted.components name).dropLast ≠ "" :=
        fun hempty => hnil (Text.join_eq_empty habove hempty)
      rw [if_neg hnil, Option.getD_some, if_neg hne]
      exact Dotted.components_of_no_dot hnil fun part hpart =>
        Dotted.no_dot_of_mem (List.mem_of_mem_dropLast hpart)

/-- **What a relative import resolves to**: the package that is so many levels up, and the name
behind the dots; too many levels are a failure of the module. -/
theorem resolve_relative (h : "" ∉ Dotted.components name) {level : Nat} (hlevel : 1 ≤ level)
    (written : String) : (tree.scope load name location).resolve (.relative level written)
      = if level ≤ (anchor name location).length then
          .ok (Dotted.ofComponents ((anchor name location).take
            ((anchor name location).length - level + 1) ++ Dotted.behind written))
        else .error ⟨name, .beyondTopLevel⟩ := by
  have hempty : "" ∉ anchor name location := fun hmem =>
    h ((anchor_begins name location).subset hmem)
  rw [Scope.resolve]
  simp only [package_scope h]
  generalize anchor name location = package at hempty
  by_cases hle : level ≤ package.length
  · have hcount : package.length - (level - 1) = package.length - level + 1 := by omega
    have hne : package.take (package.length - level + 1) ≠ [] := fun hnil => by
      have hlength := congrArg List.length hnil
      rw [List.length_take, List.length_nil] at hlength
      omega
    rw [if_pos hle, hcount, if_neg hne,
      Dotted.join_eq_ofComponents hne fun hmem => hempty (List.mem_of_mem_take hmem)]
  · have hcount : package.length - (level - 1) = 0 := by omega
    rw [if_neg hle, hcount, List.take_zero, if_pos rfl]
    rfl

end Tree

/-! ### The dots of a relative import -/

theorem eq_of_sign {c : Char} (h : c = '.' ∨ c.isDigit = true) :
    c = '.' ∨ c = '0' ∨ c = '1' ∨ c = '2' ∨ c = '3' ∨ c = '4' ∨ c = '5' ∨ c = '6' ∨ c = '7'
      ∨ c = '8' ∨ c = '9' := by
  refine h.imp_right fun hdigit => ?_
  have hrange : 48 ≤ c.toNat ∧ c.toNat ≤ 57 := by
    simpa [Char.isDigit, UInt32.le_iff_toNat_le] using hdigit
  have hcodes : ∀ more < 10, Char.ofNat (48 + more)
      ∈ ['0', '1', '2', '3', '4', '5', '6', '7', '8', '9'] := by decide
  have hc := hcodes (c.toNat - 48) (by omega)
  rw [Nat.add_sub_cancel' hrange.1, Char.ofNat_toNat] at hc
  simpa using hc

/-- A dot or a digit is no layout. -/
theorem lexeme_of_sign {cursor : Cursor} {c : Char} {behind : List Char}
    (hc : c = '.' ∨ c.isDigit = true) (h : cursor.rest = c :: behind) :
    cursor.lexeme {} = ⟨(tokenAt (c :: behind)).1, c :: behind,
      { cursor with rest := (tokenAt (c :: behind)).2 }, false, false⟩ := by
  rw [Cursor.lexeme, h]
  rcases eq_of_sign hc with rfl | rfl | rfl | rfl | rfl | rfl | rfl | rfl | rfl | rfl | rfl <;>
    (rw [Cursor.search.eq_def]; rfl)

/-- A word starts like an identifier. -/
theorem isIdentifierStart_of_tokenAt {c : Char} {behind : List Char} {word : String}
    (h : (tokenAt (c :: behind)).1 = .word word) : isIdentifierStart c = true := by
  rw [tokenAt.eq_def] at h
  dsimp only at h
  split at h
  · assumption
  split at h
  · cases h
  split at h
  · cases h
  split at h
  · split at h <;> cases h
  · cases h

/-- Where a word comes next, no dot or digit does. -/
theorem not_sign_of_word {cursor : Cursor} {c : Char} {behind : List Char} {word : String}
    (h : cursor.rest = c :: behind) (hword : (cursor.lexeme {}).token = .word word) :
    c ≠ '.' ∧ c.isDigit = false := by
  rw [← Bool.not_eq_true, ne_eq, ← not_or]
  intro hc
  rw [lexeme_of_sign hc h] at hword
  have hstart := isIdentifierStart_of_tokenAt hword
  rcases eq_of_sign hc with rfl | rfl | rfl | rfl | rfl | rfl | rfl | rfl | rfl | rfl | rfl <;>
    cases hstart

/-- Three dots are one token. -/
theorem tokenAt_dots (behind : List Char) :
    tokenAt ('.' :: '.' :: '.' :: behind) = (.symbol "...", behind) := rfl

/-- A dot is a sign of its own before anything but a digit or two more dots. -/
theorem tokenAt_dot {c : Char} {behind : List Char} (hdigit : c.isDigit = false)
    (hdots : c = '.' → behind.head? ≠ some '.') :
    tokenAt ('.' :: c :: behind) = (.symbol ".", c :: behind) := by
  have hnumber : afterNumber? ('.' :: c :: behind) = none := by simp [afterNumber?, hdigit]
  have hstart : isIdentifierStart '.' = false := by decide
  by_cases hc : c = '.'
  · subst hc
    cases behind with
    | nil => rfl
    | cons next more =>
      have hnext : '.' ≠ next := fun heq => hdots rfl (by rw [heq]; rfl)
      simp [tokenAt, hnumber, hstart, symbols, behind?, hnext]
  · simp [tokenAt, hnumber, hstart, symbols, behind?, Ne.symm hc]

namespace Read

theorem run_take? (expect : Expect) (token : Token) (cursor : Cursor) :
    take? expect token cursor = if (cursor.lexeme expect).token = token then
        some (true, { (cursor.lexeme expect).after with names := cursor.names })
      else some (false, cursor) := by
  show (if (cursor.lexeme expect).token = token then (do pass (cursor.lexeme expect); return true)
    else (return false : Read Bool)) cursor = _
  split <;> rfl

theorem run_bind_some {α β : Type} {x : Read α} {before between : Cursor} {a : α}
    (h : x before = some (a, between)) (f : α → Read β) : (x >>= f) before = f a between := by
  show (x before).bind (fun result => f result.1 result.2) = _
  rw [h]
  rfl

/-- Dots are counted one or three at a time. -/
theorem run_dots_succ (rounds : Nat) {cursor : Cursor} {taken behind : List Char} {sign : String}
    {count : Nat} (hsign : sign = "." ∧ count = 1 ∨ sign = "..." ∧ count = 3)
    (h : cursor.rest = '.' :: taken) (htoken : tokenAt ('.' :: taken) = (.symbol sign, behind)) :
    dots (rounds + 1) cursor = (dots rounds { cursor with rest := behind }).map
      fun result => (count + result.1, result.2) := by
  have hlexeme := lexeme_of_sign (.inl rfl) h
  rw [htoken] at hlexeme
  have hbind : ∀ count, (do return count + (← dots rounds) : Read Nat)
      { cursor with rest := behind } = (dots rounds { cursor with rest := behind }).map
        fun result => (count + result.1, result.2) := by
    intro count
    show (dots rounds { cursor with rest := behind }).bind _ = _
    cases dots rounds { cursor with rest := behind } <;> rfl
  rw [dots]
  rcases hsign with ⟨rfl, rfl⟩ | ⟨rfl, rfl⟩
  · have hone : take? {} (.symbol ".") cursor = some (true, { cursor with rest := behind }) := by
      rw [run_take?, hlexeme, if_pos rfl]
    rw [run_bind_some hone, if_pos rfl, hbind]
  · have hone : take? {} (.symbol ".") cursor = some (false, cursor) := by
      rw [run_take?, hlexeme, if_neg (by simp)]
    have hthree : take? {} (.symbol "...") cursor
        = some (true, { cursor with rest := behind }) := by
      rw [run_take?, hlexeme, if_pos rfl]
    rw [run_bind_some hone, if_neg Bool.false_ne_true, run_bind_some hthree, if_pos rfl, hbind]

theorem run_dots_word (rounds : Nat) {cursor : Cursor} {word : String}
    (hword : (cursor.lexeme {}).token = .word word) :
    dots (rounds + 1) cursor = some (0, cursor) := by
  have hnone : ∀ sign, take? {} (.symbol sign) cursor = some (false, cursor) := by
    intro sign
    rw [run_take?, hword, if_neg nofun]
  rw [dots, run_bind_some (hnone "."), if_neg Bool.false_ne_true, run_bind_some (hnone "..."),
    if_neg Bool.false_ne_true]
  rfl

/-- **The dots in front of a word** are counted. -/
theorem run_dots {level limit : Nat} (hlevel : level < limit) {cursor : Cursor} {c : Char}
    {behind : List Char} {word : String}
    (hword : ({ cursor with rest := c :: behind }.lexeme {}).token = .word word) :
    dots limit { cursor with rest := List.replicate level '.' ++ c :: behind }
      = some (level, { cursor with rest := c :: behind }) := by
  obtain ⟨hc, hdigit⟩ := not_sign_of_word rfl hword
  -- The reader takes three dots at once where it can, so the induction goes back one or three.
  induction level using Nat.strongRecOn generalizing limit with
  | ind level ih =>
    obtain ⟨rounds, rfl⟩ := Nat.exists_eq_add_of_lt (Nat.zero_lt_of_lt hlevel)
    rw [Nat.zero_add] at hlevel ⊢
    match level with
    | 0 => exact run_dots_word _ hword
    | 1 =>
      have hone := @tokenAt_dot c behind hdigit fun heq => absurd heq hc
      rw [run_dots_succ _ (.inl ⟨rfl, rfl⟩) rfl hone]
      exact congrArg _ (ih 0 (by omega) (by omega))
    | 2 =>
      have hone : tokenAt ('.' :: '.' :: c :: behind) = (.symbol ".", '.' :: c :: behind) :=
        tokenAt_dot (by decide) fun _ heq => hc (Option.some.inj heq)
      rw [run_dots_succ _ (.inl ⟨rfl, rfl⟩) rfl hone]
      exact congrArg _ (ih 1 (by omega) (by omega))
    | level + 3 =>
      rw [run_dots_succ _ (.inr ⟨rfl, rfl⟩) rfl (tokenAt_dots _), Nat.add_comm level 3]
      exact congrArg _ (ih level (by omega) (by omega))

/-- Behind its source an import goes on with what is imported. -/
theorem importFrom_of_tail {limit : Nat} {source : ImportSource} {between after : Cursor}
    {statement : Statement}
    (h : (do
      keyword "import"
      if ← take? {} (.symbol "*") then return .importFrom source .everything
      else return .importFrom source (.listed (← bracketedImports limit)) : Read Statement) between
      = some (statement, after)) : ∃ names, statement = .importFrom source names := by
  obtain ⟨-, _, -, h⟩ := run_bind h
  obtain ⟨star, _, -, h⟩ := run_bind h
  split at h
  · cases h
    exact ⟨_, rfl⟩
  · obtain ⟨listed, _, -, h⟩ := run_bind h
    cases h
    exact ⟨_, rfl⟩

/-- **A `from` import with dots** is read as one of so many levels, from the name behind them. -/
theorem fromImport_dots {level limit : Nat} (hlevel : 1 ≤ level) (hlimit : level < limit)
    {cursor after : Cursor} {c : Char} {behind : List Char} {word : String} {statement : Statement}
    (hword : ({ cursor with rest := c :: behind }.lexeme {}).token = .word word)
    (h : fromImport limit { cursor with rest := List.replicate level '.' ++ c :: behind }
      = some (statement, after)) :
    ∃ written names, statement = .importFrom (.relative level written) names ∧
      if word = "import" then written = "" else
        ∃ between, dottedName limit {} {} { cursor with rest := c :: behind }
          = some (written, between) := by
  obtain ⟨further, rfl⟩ := Nat.exists_eq_add_of_le' hlevel
  have hfuture : take? {} (.word "__future__")
      { cursor with rest := List.replicate (further + 1) '.' ++ c :: behind } = some (false,
        { cursor with rest := List.replicate (further + 1) '.' ++ c :: behind }) := by
    rw [run_take?, if_neg]
    intro htoken
    exact (not_sign_of_word rfl htoken).1 rfl
  rw [fromImport, run_bind_some hfuture, if_neg Bool.false_ne_true,
    run_bind_some (run_dots hlimit hword)] at h
  obtain ⟨next, _, hnext, h⟩ := run_bind h
  cases hnext
  rw [hword] at h
  dsimp only at h
  rw [if_neg (Nat.succ_ne_zero further)] at h
  by_cases himport : word = "import"
  · -- There is no name behind the dots.
    rw [if_pos (congrArg _ himport)] at h
    obtain ⟨names, rfl⟩ := importFrom_of_tail h
    exact ⟨"", names, rfl, by rw [if_pos himport]⟩
  · rw [if_neg fun htoken => himport (Token.word.inj htoken)] at h
    obtain ⟨source, between, hsource, h⟩ := run_bind h
    obtain ⟨names, rfl⟩ := importFrom_of_tail h
    obtain ⟨⟨written, _⟩, hwritten, hpure⟩ := Option.bind_eq_some_iff.mp hsource
    cases hpure
    exact ⟨written, names, rfl, by rw [if_neg himport]; exact ⟨between, hwritten⟩⟩

end Read

/-! ### Where relative imports lead -/

namespace Tree

variable (tree : Tree) {name : String} {location : Location}

/-- The modules a relative import can lead to are inside the package that it starts from. -/
theorem resolve_relative_ok (h : "" ∉ Dotted.components name)
    (load : String → Importing SymbolTable) {level : Nat} (hlevel : 1 ≤ level)
    (written target : String) :
    (tree.scope load name location).resolve (.relative level written) = .ok target
      ↔ level ≤ (anchor name location).length ∧ Dotted.components target
        = (anchor name location).take ((anchor name location).length - level + 1)
          ++ Dotted.behind written := by
  rw [resolve_relative h hlevel]
  have hdots : ∀ part ∈ (anchor name location).take ((anchor name location).length - level + 1)
      ++ Dotted.behind written, '.' ∉ part.toList := by
    intro part hpart
    rcases List.mem_append.mp hpart with hpart | hpart
    · exact Dotted.no_dot_of_mem ((anchor_begins name location).subset (List.mem_of_mem_take hpart))
    · rw [Dotted.behind] at hpart
      split at hpart
      · cases hpart
      · exact Dotted.no_dot_of_mem hpart
  split
  · rename_i hle
    have hne : (anchor name location).take ((anchor name location).length - level + 1)
        ++ Dotted.behind written ≠ [] := by
      intro hnil
      have hlength := congrArg List.length (List.append_eq_nil_iff.mp hnil).1
      rw [List.length_take, List.length_nil] at hlength
      omega
    constructor
    · intro hok
      cases hok
      exact ⟨hle, Dotted.components_of_no_dot hne hdots⟩
    · rintro ⟨-, hparts⟩
      rw [← hparts, Dotted.ofComponents_components]
  · rename_i hlt
    exact ⟨nofun, fun hok => absurd hok.1 hlt⟩

/-- A relative import fails exactly where it leads out of the top package. -/
theorem resolve_relative_error (h : "" ∉ Dotted.components name)
    (load : String → Importing SymbolTable) {level : Nat} (hlevel : 1 ≤ level) (written : String)
    (failure : ImportFailure) :
    (tree.scope load name location).resolve (.relative level written) = .error failure
      ↔ (anchor name location).length < level ∧ failure = ⟨name, .beyondTopLevel⟩ := by
  rw [resolve_relative h hlevel]
  split
  · rename_i hle
    exact ⟨nofun, fun herror => absurd hle (Nat.not_le.mpr herror.1)⟩
  · rename_i hlt
    rw [Except.error.injEq]
    exact ⟨fun heq => ⟨Nat.not_le.mp hlt, heq.symm⟩, fun herror => herror.2.symm⟩

/-- A relative import stays below the top-level package of its module. -/
theorem top_of_resolve_relative (h : "" ∉ Dotted.components name)
    (load : String → Importing SymbolTable) {level : Nat} (hlevel : 1 ≤ level)
    {written target : String}
    (hok : (tree.scope load name location).resolve (.relative level written) = .ok target) :
    Dotted.top target = Dotted.top name := by
  obtain ⟨hle, hparts⟩ := (resolve_relative_ok tree h load hlevel written target).mp hok
  obtain ⟨below, hbelow⟩ := anchor_begins name location
  rw [← Option.some.injEq, Dotted.top_eq_head?, Dotted.top_eq_head?, hparts, ← hbelow]
  cases hanchor : anchor name location with
  | nil => rw [hanchor, List.length_nil] at hle; omega
  | cons first rest => rfl

/-- The relative imports of a package and of the plain modules right inside it start from the same
package. -/
theorem anchor_inside {inner : String} {innerLocation : Location}
    (hparent : Dotted.parent? inner = some name) (hpackage : location.isPackage = true)
    (hplain : innerLocation.isPackage = false) :
    anchor inner innerLocation = anchor name location := by
  rw [Dotted.parent?_eq] at hparent
  split at hparent
  · cases hparent
  rename_i hne
  have hname := Option.some.inj hparent
  rw [anchor, anchor, hpackage, hplain, if_pos rfl, if_neg Bool.false_ne_true, ← hname]
  exact (Dotted.components_of_no_dot hne fun part hpart =>
    Dotted.no_dot_of_mem (List.mem_of_mem_dropLast hpart)).symm

end Tree

/-- An import counts as the import of what its source resolves to. -/
theorem Scope.replay_resolved {scope : Scope} {source : ImportSource} {target : String}
    (h : scope.resolve source = .ok target) (names : ImportedNames) :
    scope.replay (.importFrom source names)
      = scope.replay (.importFrom (.absolute target) names) := by
  rw [replay, replay, importFrom, importFrom, h]
  rfl

/-- Without a module to import from there is nothing to import. -/
theorem Scope.replay_unresolved {scope : Scope} {source : ImportSource} {failure : ImportFailure}
    (h : scope.resolve source = .error failure) (names : ImportedNames) (cache : Cache) :
    scope.replay (.importFrom source names) cache = (.error failure, cache) := by
  rw [replay, importFrom, h]
  rfl

/-- **Where a relative import leads.**  The first levels, as many as the package it starts from has
components, lead to that package and the ones around it, and so to a module of the same top-level
package, which is imported as if its whole name were written.  Any further level is a failure of
the module with the import.  A package and the plain modules right inside it have the same relative
imports.  The level is the number of dots in front of the name. -/
theorem Tree.relative_import_resolved {disk : Disk} {root : FilePath} {name : String}
    {location : Location} (h : Python.locate disk root name = some location)
    (load : String → Importing SymbolTable) {level : Nat} (hlevel : 1 ≤ level) (written : String) :
    let scope := (below disk root).scope load name location
    let package := anchor name location
    (package <+: Dotted.components name ∧ package.length
      = if location.isPackage then (Dotted.components name).length
        else (Dotted.components name).length - 1) ∧
    (∀ target, scope.resolve (.relative level written) = .ok target ↔ level ≤ package.length
      ∧ Dotted.components target
        = package.take (package.length - level + 1) ++ Dotted.behind written) ∧
    (∀ failure, scope.resolve (.relative level written) = .error failure
      ↔ package.length < level ∧ failure = ⟨name, .beyondTopLevel⟩) ∧
    (∀ target, scope.resolve (.relative level written) = .ok target →
      Dotted.top target = Dotted.top name ∧ ∀ names,
        scope.replay (.importFrom (.relative level written) names)
          = scope.replay (.importFrom (.absolute target) names)) ∧
    (package.length < level → ∀ names cache,
      scope.replay (.importFrom (.relative level written) names) cache
        = (.error ⟨name, .beyondTopLevel⟩, cache)) ∧
    (∀ inner innerLocation, location.isPackage = true → Dotted.parent? inner = some name →
      Python.locate disk root inner = some innerLocation → innerLocation.isPackage = false →
      ∀ target, ((below disk root).scope load inner innerLocation).resolve (.relative level written)
        = .ok target ↔ scope.resolve (.relative level written) = .ok target) ∧
    ∀ (limit : Nat) (cursor after : Cursor) c behind word statement, level < limit →
      ({ cursor with rest := c :: behind }.lexeme {}).token = .word word →
      Read.fromImport limit { cursor with rest := List.replicate level '.' ++ c :: behind }
        = some (statement, after) →
      ∃ source names, statement = .importFrom (.relative level source) names ∧
        if word = "import" then source = "" else
          ∃ between, Read.dottedName limit {} {} { cursor with rest := c :: behind }
            = some (source, between) := by
  intro scope package
  obtain ⟨hempty, -, -⟩ := locate_eq_some h
  have hok : ∀ target, scope.resolve (.relative level written) = .ok target ↔ _ :=
    resolve_relative_ok _ hempty load hlevel written
  have herror : ∀ failure, scope.resolve (.relative level written) = .error failure ↔ _ :=
    resolve_relative_error _ hempty load hlevel written
  refine ⟨⟨anchor_begins name location, length_anchor name location⟩, hok, herror,
    fun target htarget => ⟨top_of_resolve_relative _ hempty load hlevel htarget,
      Scope.replay_resolved htarget⟩,
    fun hlt => Scope.replay_unresolved ((herror _).mpr ⟨hlt, rfl⟩), ?_, ?_⟩
  · intro inner innerLocation hpackage hparent hinner hplain target
    rw [resolve_relative_ok _ (locate_eq_some hinner).1 load hlevel, hok,
      anchor_inside hparent hpackage hplain]
  · exact fun limit cursor after c behind word statement hlimit hword =>
      Read.fromImport_dots hlevel hlimit hword

/-- From a module below three packages, three levels lead to the outermost one and four to none. -/
theorem relative_import_resolved_layered :
    ((Tree.below layered ⟨"/w"⟩).scope ((Tree.below layered ⟨"/w"⟩).load 5) "lib.pkg.core.impl"
        ⟨⟨"/w/lib/pkg/core/impl.py"⟩, false⟩).resolve (.relative 3 "other") = .ok "lib.other"
    ∧ ((Tree.below layered ⟨"/w"⟩).scope ((Tree.below layered ⟨"/w"⟩).load 5) "lib.pkg.core.impl"
        ⟨⟨"/w/lib/pkg/core/impl.py"⟩, false⟩).resolve (.relative 4 "other")
      = .error ⟨"lib.pkg.core.impl", .beyondTopLevel⟩ := by
  have hlocate : locate layered ⟨"/w"⟩ "lib.pkg.core.impl"
      = some ⟨⟨"/w/lib/pkg/core/impl.py"⟩, false⟩ := by decide +kernel
  obtain ⟨-, hok, -⟩ := Tree.relative_import_resolved hlocate
    ((Tree.below layered ⟨"/w"⟩).load 5) (show 1 ≤ 3 by decide) "other"
  obtain ⟨-, -, herror, -⟩ := Tree.relative_import_resolved hlocate
    ((Tree.below layered ⟨"/w"⟩).load 5) (show 1 ≤ 4 by decide) "other"
  exact ⟨(hok _).mpr (by decide +kernel), (herror _).mpr (by decide +kernel)⟩

end Python

end ApiStubs
