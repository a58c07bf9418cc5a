import ApiStubs.Python.Source
import Mathlib.Data.List.TakeWhile

/-!
# Proofs — Noting — which identifiers a reader notes

A reader notes the identifiers it takes.  What it has noted once stays noted, whatever it notes is
spelled like an identifier, and the words of what it hands out are among them: `Read.Notes` says
all three at once, and one lemma for each reader, in the order of the definitions, says it of the
reader.
-/

namespace ApiStubs.Python

/-! ### Words -/

/-- The word is spelled like an identifier. -/
def IsIdentifier (word : String) : Prop :=
  ∃ first rest, word.toList = first :: rest ∧ isIdentifierStart first
    ∧ ∀ c ∈ rest, isIdentifierPart c

theorem IsIdentifier.ne_empty {word : String} (h : IsIdentifier word) : word ≠ "" := by
  obtain ⟨first, rest, hword, -, -⟩ := h
  rintro rfl
  cases hword

theorem IsIdentifier.no_separator {word : String} (h : IsIdentifier word) :
    '/' ∉ word.toList := by
  obtain ⟨first, rest, hword, hfirst, hrest⟩ := h
  rw [hword, List.mem_cons, not_or]
  constructor
  · rintro rfl
    exact absurd hfirst (by decide)
  · intro hmem
    exact absurd (hrest _ hmem) (by decide)

/-- A word that is cut off the text is an identifier. -/
theorem tokenAt_word {text : List Char} {word : String} (h : (tokenAt text).1 = .word word) :
    IsIdentifier word := by
  rw [tokenAt.eq_def] at h
  split at h
  · cases h
  split at h
  · rename_i first rest hfirst
    cases h
    exact ⟨first, rest.takeWhile isIdentifierPart, by simp, hfirst,
      fun c hc => List.mem_takeWhile_imp hc⟩
  split at h
  · cases h
  split at h
  · cases h
  split at h
  · split at h <;> cases h
  · cases h

/-- The layout makes no words. -/
theorem Layout.token?_ne_word {layout : Layout} {expect : Expect} {cursor after : Cursor}
    {next : List Char} {token : Token}
    (h : layout.token? expect cursor next = some (token, after)) (word : String) :
    token ≠ .word word := by
  rintro rfl
  rw [token?] at h
  split at h
  · cases h
  split at h
  · cases h
  split at h
  · cases h
  split at h <;> cases h

/-- What is laid out at a cursor is no word. -/
theorem Cursor.laidOut?_ne_word {cursor after : Cursor} {expect : Expect} {text start : List Char}
    {token : Token} (h : cursor.laidOut? expect text = some (token, start, after))
    (word : String) : token ≠ .word word := by
  rintro rfl
  rw [laidOut?] at h
  split at h
  · cases h
  split at h
  · rename_i hlayout
    cases h
    exact Layout.token?_ne_word hlayout word rfl
  split at h
  · obtain ⟨_, -, hquote⟩ := Option.map_eq_some_iff.mp h
    cases hquote
  · cases h

/-- A word that is found in a source is spelled like an identifier. -/
theorem Cursor.search_word {cursor : Cursor} {expect : Expect} {remarked continued : Bool}
    {search : Search} {text : List Char} {word : String}
    (h : (cursor.search expect remarked continued search text).token = .word word) :
    IsIdentifier word := by
  fun_induction Cursor.search cursor expect remarked continued search text <;>
    grind [Cursor.laidOut?_ne_word, tokenAt_word]

/-! ### What a reader notes -/

/-- A later place in a source: nothing that was noted is forgotten, and what is new is spelled
like an identifier. -/
structure Cursor.Onward (before after : Cursor) : Prop where
  kept : ∀ word ∈ before.names, word ∈ after.names
  noted : ∀ word ∈ after.names, word ∈ before.names ∨ IsIdentifier word

theorem Cursor.Onward.of_names {before after : Cursor} (h : after.names = before.names) :
    before.Onward after :=
  ⟨fun _ hword => h ▸ hword, fun _ hword => .inl (h ▸ hword)⟩

theorem Cursor.Onward.trans {before between after : Cursor} (h : before.Onward between)
    (h' : between.Onward after) : before.Onward after where
  kept word hword := h'.kept word (h.kept word hword)
  noted word hword := (h'.noted word hword).elim (h.noted word) .inr

namespace Read

variable {α β : Type} {known : String → Prop} {words : α → String → Prop}

/-- Where the known words are noted, the reader goes on, and notes the words of what it reads. -/
def Notes (known : String → Prop) (read : Read α) (words : α → String → Prop) : Prop :=
  ∀ before a after, (∀ word, known word → word ∈ before.names) → read before = some (a, after) →
    before.Onward after ∧ ∀ word, words a word → word ∈ after.names

/-- There are no words in it. -/
def silent (_ : α) (_ : String) : Prop := False

theorem run_bind {x : Read α} {f : α → Read β} {before after : Cursor} {b : β}
    (h : (x >>= f) before = some (b, after)) :
    ∃ a between, x before = some (a, between) ∧ f a between = some (b, after) := by
  obtain ⟨⟨a, between⟩, hx, hf⟩ := Option.bind_eq_some_iff.mp h
  exact ⟨a, between, hx, hf⟩

namespace Notes

variable {x : Read α} {f : α → Read β} {others : β → String → Prop}

theorem mono {fewer : α → String → Prop} (h : Notes known x words)
    (hwords : ∀ a word, fewer a word → words a word ∨ known word) : Notes known x fewer := by
  intro before a after hknown hrun
  obtain ⟨honward, hnoted⟩ := h before a after hknown hrun
  refine ⟨honward, fun word hword => ?_⟩
  exact (hwords a word hword).elim (hnoted word) fun h => honward.kept word (hknown word h)

/-- More may be known than the reader needs. -/
theorem of_known {less : String → Prop} (h : Notes less x words)
    (hless : ∀ word, less word → known word) : Notes known x words :=
  fun before a after hknown => h before a after fun word hword => hknown word (hless word hword)

theorem quiet (h : Notes known x words) : Notes known x silent := h.mono fun _ _ => False.elim

theorem pure {a : α} (h : ∀ word, words a word → known word) :
    Notes known (Pure.pure a) words := by
  intro before b after hknown hrun
  cases hrun
  exact ⟨.of_names rfl, fun word hword => hknown word (h word hword)⟩

theorem failure : Notes known (failure : Read α) words := by
  rintro before a after - ⟨⟩

/-- The words of the first part are known in the second. -/
theorem bind (hx : Notes known x words)
    (hf : ∀ a, Notes (fun word => words a word ∨ known word) (f a) others) :
    Notes known (x >>= f) others := by
  intro before b after hknown hrun
  obtain ⟨a, between, hfirst, hsecond⟩ := run_bind hrun
  obtain ⟨honward, hwords⟩ := hx before a between hknown hfirst
  obtain ⟨hmore, hothers⟩ := hf a between b after
    (fun word h => h.elim (hwords word) fun h => honward.kept word (hknown word h)) hsecond
  exact ⟨honward.trans hmore, hothers⟩

theorem pureBind {a : α} (h : Notes known (f a) others) :
    Notes known (Pure.pure a >>= f) others := by
  rwa [pure_bind]

/-- The words of the first part do not matter. -/
theorem andThen (hx : Notes known x words) (hf : ∀ a, Notes known (f a) others) :
    Notes known (x >>= f) others :=
  hx.quiet.bind fun a => (hf a).of_known fun _ => .inr

theorem map (g : α → β) (hx : Notes known x words)
    (h : ∀ a word, others (g a) word → words a word ∨ known word) :
    Notes known (g <$> x) others := by
  have heq : g <$> x = x >>= fun a => Pure.pure (g a) := map_eq_pure_bind g x
  rw [heq]
  exact hx.bind fun a => .pure (h a)

/-- An alternative notes what both ways note. -/
theorem orElse {y : Read α} (hx : Notes known x words) (hy : Notes known y words) :
    Notes known (x <|> y) words := by
  intro before a after hknown hrun
  have hcases : x before = some (a, after) ∨ y before = some (a, after) := by
    have hrun' : (x before <|> y before) = some (a, after) := hrun
    cases hx' : x before with
    | none =>
      rw [hx'] at hrun'
      exact .inr hrun'
    | some result =>
      rw [hx'] at hrun'
      exact .inl hrun'
  exact hcases.elim (hx before a after hknown) (hy before a after hknown)

/-- What changes a place without its identifiers. -/
theorem modify {change : Cursor → Cursor} (h : ∀ cursor, (change cursor).names = cursor.names) :
    Notes known (modify change) silent := by
  rintro before a after - ⟨⟩
  exact ⟨.of_names (h before), fun _ => False.elim⟩

theorem get : Notes known (get : Read Cursor) silent := by
  rintro before a after - ⟨⟩
  exact ⟨.of_names rfl, fun _ => False.elim⟩

end Notes

theorem notes_guard {p : Prop} [Decidable p] : Notes known (guard p : Read Unit) silent := by
  show Notes known (if p then Pure.pure () else failure) silent
  split
  · exact .pure fun _ => False.elim
  · exact .failure

/-! ### Lexemes -/

/-- A word that stands ahead is spelled like an identifier. -/
theorem notes_peek {expect : Expect} {f : Lexeme → Read β} {others : β → String → Prop}
    (h : ∀ next : Lexeme, (∀ word, next.token = .word word → IsIdentifier word) →
      Notes known (f next) others) : Notes known (peek expect >>= f) others := by
  intro before b after hknown hrun
  obtain ⟨next, between, hpeek, hrest⟩ := run_bind hrun
  cases hpeek
  exact h _ (fun word => Cursor.search_word) before b after hknown hrest

theorem notes_pass (lexeme : Lexeme) : Notes known (pass lexeme) silent := .modify fun _ => rfl

theorem notes_jump (text : List Char) : Notes known (jump text) silent := .modify fun _ => rfl

theorem notes_take? (expect : Expect) (token : Token) :
    Notes known (take? expect token) silent := by
  refine notes_peek fun next _ => ?_
  split
  · exact (notes_pass next).andThen fun _ => .pure fun _ => False.elim
  · exact .pure fun _ => False.elim

theorem notes_take (expect : Expect) (token : Token) : Notes known (take expect token) silent := by
  refine (notes_take? expect token).andThen fun _ => ?_
  split
  · exact .failure
  · exact .pure fun _ => False.elim

theorem notes_symbol (text : String) (expect : Expect) :
    Notes known (symbol text expect) silent := notes_take expect _

theorem notes_keyword (text : String) (expect : Expect) :
    Notes known (keyword text expect) silent := notes_take expect _

theorem notes_note {name : String} (h : IsIdentifier name) :
    Notes known (note name) fun _ word => word = name := by
  rintro before a after - ⟨⟩
  refine ⟨⟨fun word hword => List.mem_cons_of_mem name hword, fun word hword => ?_⟩, ?_⟩
  · rcases List.mem_cons.mp hword with rfl | hword
    · exact .inr h
    · exact .inl hword
  · rintro word rfl
    exact List.mem_cons_self

theorem notes_identifier (start : Expect) :
    Notes known (identifier start) fun name word => word = name := by
  refine notes_peek fun next hnext => ?_
  split
  · rename_i name hname
    refine (notes_pass next).andThen fun _ => (notes_note (hnext name hname)).bind fun _ => ?_
    exact .pure fun _ => .inl
  · exact .failure

theorem notes_textFrom (start : List Char) : Notes known (textFrom start) silent :=
  Notes.get.andThen fun _ => .pure fun _ => False.elim

/-! ### Lists -/

/-- Rounds note what each of them notes. -/
theorem notes_rounds {round : Read (α × Bool)} (h : Notes known round fun item => words item.1)
    (limit : Nat) :
    Notes known (rounds round limit) fun items word => ∃ a ∈ items, words a word := by
  induction limit with
  | zero => exact .failure
  | succ limit ih =>
    refine h.bind fun ⟨item, last⟩ => ?_
    dsimp only
    split
    · exact .pure fun word => by simpa using .inl
    · refine (ih.of_known fun _ => .inr).bind fun others => .pure fun word => ?_
      grind

/-- Items between separators note what each of them notes. -/
theorem notes_separated {limit : Nat} {finish : Expect} {ends : Token → Bool}
    {item : Bool → Read α} (h : ∀ first, Notes known (item first) words) :
    Notes known (separated limit finish ends item)
      fun list word => ∃ a ∈ list.1, words a word := by
  have hround : Notes known (do
      let next ← item false
      if !(← take? finish (.symbol ",")) then return (next, true)
      return (next, ends (← peek { finish with quote := true }).token)) fun next => words next.1 := by
    refine (h false).bind fun next => (notes_take? finish _).andThen fun comma => ?_
    split
    · exact .pure fun _ => .inl
    · exact notes_peek fun _ _ => .pure fun _ => .inl
  refine (h true).bind fun first => (notes_take? finish _).andThen fun comma => ?_
  split
  · exact .pure fun word => by simpa using .inl
  · refine notes_peek fun next _ => ?_
    split
    · exact .pure fun word => by simpa using .inl
    · refine ((notes_rounds hround limit).of_known fun _ => .inr).bind fun others => ?_
      exact .pure fun word => by grind

theorem notes_dottedName (limit : Nat) (start finish : Expect) :
    Notes known (dottedName limit start finish) silent := by
  refine notes_peek fun next _ => (notes_identifier start).andThen fun _ =>
    (notes_take? finish _).andThen fun dotted => ?_
  have hround : Notes known (do
      let _ ← identifier
      return ((), !(← take? finish (.symbol ".")))) fun item => silent item.1 :=
    (notes_identifier _).andThen fun _ => (notes_take? finish _).andThen fun _ =>
      .pure fun _ => False.elim
  dsimp only
  split
  · exact (notes_rounds hround limit).andThen fun _ => notes_textFrom _
  · exact notes_textFrom _

end Read

end ApiStubs.Python
