import ApiStubs.Proofs.Noting

/-!
# Proofs — Mentioning — the identifiers of expressions are noted

Every identifier in an expression that is read has been noted: one lemma for each reader, in the
order of the definitions.  A reader that is given the reader of whole expressions notes what it
hands out if that one does; the loop is closed by induction on the depth, `Read.notes_expression`.
-/

namespace ApiStubs.Python

/-! ### The identifiers of expressions -/

/-- The identifiers of an expression. -/
def Expr.Mentions (e : Expr) (word : String) : Prop := word ∈ e.identifiers

/-- The identifiers of expressions. -/
def Mentioned (each : List Expr) (word : String) : Prop := word ∈ identifiersOf each

section

variable {e : Expr} {each others : List Expr} {word : String}

@[simp, grind =] theorem mentioned_nil : Mentioned [] word ↔ False := List.mem_nil_iff word

@[simp, grind =] theorem mentioned_cons :
    Mentioned (e :: each) word ↔ e.Mentions word ∨ Mentioned each word := List.mem_append

@[simp, grind =] theorem mentioned_append :
    Mentioned (each ++ others) word ↔ Mentioned each word ∨ Mentioned others word := by
  induction each with
  | nil => simp
  | cons e each ih => simp [ih, or_assoc]

@[simp] theorem mentioned_flatten {lists : List (List Expr)} :
    Mentioned lists.flatten word ↔ ∃ list ∈ lists, Mentioned list word := by
  induction lists with
  | nil => simp
  | cons list lists ih => simp [ih]

theorem mentioned_iff : Mentioned each word ↔ ∃ e ∈ each, e.Mentions word := by
  induction each with
  | nil => simp
  | cons e each ih => simp [ih]

namespace Expr

@[simp, grind =] theorem mentions_name {id : String} : (name id).Mentions word ↔ word = id :=
  List.mem_singleton

@[simp, grind =] theorem mentions_string {written : String} :
    (string written each).Mentions word ↔ Mentioned each word := Iff.rfl

@[simp, grind =] theorem mentions_lambda :
    (lambda each).Mentions word ↔ Mentioned each word := Iff.rfl

@[simp, grind =] theorem mentions_call :
    (call e each).Mentions word ↔ e.Mentions word ∨ Mentioned each word := List.mem_append

@[simp, grind =] theorem mentions_group {remarked : Bool} :
    (group remarked e).Mentions word ↔ e.Mentions word := Iff.rfl

@[simp, grind =] theorem mentions_tuple {broken : Bool} :
    (tuple broken each).Mentions word ↔ Mentioned each word := Iff.rfl

@[simp, grind =] theorem mentions_list {broken : Bool} :
    (list broken each).Mentions word ↔ Mentioned each word := Iff.rfl

@[simp, grind =] theorem mentions_attribute {member : String} :
    (Expr.attribute e member).Mentions word ↔ e.Mentions word ∨ word = member :=
  List.mem_append.trans (or_congr_right List.mem_singleton)

@[simp, grind =] theorem mentions_subscript :
    (subscript e each).Mentions word ↔ e.Mentions word ∨ Mentioned each word := List.mem_append

@[simp, grind =] theorem mentions_star : (star e).Mentions word ↔ e.Mentions word := Iff.rfl

@[simp, grind =] theorem mentions_compound :
    (compound each).Mentions word ↔ Mentioned each word := Iff.rfl

@[simp, grind =] theorem mentions_starred : e.starred.Mentions word ↔ e.Mentions word := by
  cases e <;> simp [starred]

end Expr

end

/-! ### String literals -/

namespace Read

variable {known : String → Prop}

/-- A format specification notes what the fields in it mention. -/
theorem notes_specification {field : Read (List Expr)}
    (hfield : ∀ {known}, Notes known field Mentioned) (limit : Nat) :
    Notes known (specification field limit) Mentioned := by
  induction limit generalizing known with
  | zero => exact .failure
  | succ limit ih =>
    refine Notes.get.andThen fun cursor => ?_
    split
    · exact .failure
    split
    · exact .pure (by grind)
    split
    · refine (notes_jump _).andThen fun _ => hfield.bind fun inner => ih.bind fun others => ?_
      exact .pure (by grind)
    split
    · exact .failure
    · exact (notes_jump _).andThen fun _ => ih

variable {expressions : Place → Read (List Expr)}

/-- A replacement field notes what it shows, and what its specification mentions. -/
theorem notes_field (hexpressions : ∀ {known} place, Notes known (expressions place) Mentioned)
    (limit depth : Nat) : Notes known (field expressions limit depth) Mentioned := by
  induction depth generalizing known with
  | zero => exact .failure
  | succ depth ih =>
    refine (hexpressions _).bind fun shown => (notes_take? _ _).andThen fun _ =>
      (notes_take? _ _).andThen fun _ => notes_peek fun next _ => ?_
    split
    · refine (notes_jump _).andThen fun _ => (notes_specification ih limit).bind fun inner =>
        (notes_symbol _ _).andThen fun _ => .pure (by grind)
    · exact (notes_symbol _ _).andThen fun _ => .pure fun _ => .inl

/-- A formatted literal notes what its replacement fields mention. -/
theorem notes_literal (hexpressions : ∀ {known} place, Notes known (expressions place) Mentioned)
    (limit : Nat) (q : Quote) (rounds : Nat) :
    Notes known (literal expressions limit q rounds) Mentioned := by
  induction rounds generalizing known with
  | zero => exact .failure
  | succ rounds ih =>
    refine Notes.get.andThen fun cursor => ?_
    dsimp only
    split
    · exact (notes_jump _).andThen fun _ => ih
    split
    · exact .andThen (.modify fun _ => rfl) fun _ => .pure (by grind)
    · exact (notes_jump _).andThen fun _ => ih
    split
    · exact (notes_jump _).andThen fun _ => ih
    · refine (notes_jump _).andThen fun _ => (notes_field hexpressions limit limit).bind fun shown =>
        ih.bind fun others => .pure (by grind)
    · exact .failure

end Read

/-! ### Lists of expressions -/

namespace Read

variable {known : String → Prop} {limit : Nat} {grammar : Grammar}
variable (hgrammar : ∀ {known} place, Notes known (grammar place) Expr.Mentions)

section

include hgrammar

omit hgrammar in
theorem notes_listed {finish : Expect} {ends : Token → Bool} {item : Bool → Read Expr}
    (h : ∀ first, Notes known (item first) Expr.Mentions) :
    Notes known (separated limit finish ends item) fun list => Mentioned list.1 :=
  (notes_separated h).mono fun _ _ hword => .inl (mentioned_iff.mp hword)

theorem notes_expressions (place : Place) (stops : List String) :
    Notes known (expressions limit grammar place stops) fun list => Mentioned list.1 :=
  notes_listed fun _ => hgrammar _

theorem notes_yielded (place : Place) : Notes known (yielded limit grammar place) Mentioned := by
  refine notes_peek fun next _ => ?_
  split
  · exact (notes_pass _).andThen fun _ => (hgrammar _).bind fun e => .pure (by grind)
  split
  · exact (notes_expressions hgrammar _ _).bind fun list => .pure fun _ => .inl
  · exact .pure (by grind)

theorem notes_element (place : Place) :
    Notes known (element limit grammar place) Expr.Mentions := by
  refine notes_peek fun next _ => ?_
  split
  · exact (notes_pass _).andThen fun _ => (hgrammar _).bind fun e => .pure (by grind)
  split
  · refine (notes_pass _).andThen fun _ => (notes_yielded hgrammar _).bind fun each =>
      .pure (by grind)
  · exact hgrammar _

theorem notes_shown (place : Place) : Notes known (shown limit grammar place) Mentioned := by
  refine notes_peek fun next _ => ?_
  split
  · exact (notes_pass _).andThen fun _ => notes_yielded hgrammar _
  · exact (notes_expressions hgrammar _ _).bind fun list => .pure fun _ => .inl

/-! ### Types -/

/-- An annotation notes what its alternatives and their arguments mention. -/
theorem notes_type (constrained : Bool) (depth : Nat) (place : Place) :
    Notes known (type limit grammar constrained depth place) Expr.Mentions := by
  induction depth generalizing known constrained place with
  | zero => exact .failure
  | succ depth ih =>
    refine ((hgrammar _).orElse (.orElse ?unpacked ?generic)).bind fun first =>
      notes_peek fun next _ => ?_
    case unpacked =>
      exact (notes_symbol _ _).andThen fun _ => (notes_identifier _).bind fun name => .pure (by grind)
    case generic =>
      refine (notes_identifier _).bind fun name => (notes_symbol _ _).andThen fun _ =>
        (notes_listed fun _ => ih _ _).bind fun list => (notes_symbol _ _).andThen fun _ =>
          .pure (by grind)
    split
    · refine (notes_pass _).andThen fun _ => (ih _ _).bind fun second => .pure (by grind)
    split
    · refine (notes_pass _).andThen fun _ => (notes_identifier _).bind fun member =>
        .pure (by grind)
    · exact .pure fun _ => .inl

theorem notes_typeParameters : Notes known (typeParameters limit grammar) Mentioned :=
  (notes_listed fun _ => notes_type hgrammar _ _ _).bind fun _ => (notes_symbol _ _).andThen fun _ =>
    .pure fun _ => .inl

/-! ### Brackets -/

theorem notes_items (closing : String) (rounds : Nat) :
    Notes known (items limit grammar closing rounds) fun list => Mentioned list.1 := by
  induction rounds generalizing known with
  | zero => exact .failure
  | succ rounds ih =>
    refine notes_peek fun next _ => (notes_pass _).andThen fun _ => ?_
    split
    · exact .pure (by grind)
    split
    · exact .failure
    refine notes_peek fun following _ => ?_
    dsimp only
    split
    · exact (notes_pass _).andThen fun _ => .pure (by grind)
    · exact (notes_element hgrammar _).bind fun item => ih.bind fun others => .pure (by grind)

theorem notes_subscriptItem (first : Bool) :
    Notes known (subscriptItem grammar first) Expr.Mentions := by
  have hbound : ∀ {known}, Notes known (do
      let next ← peek { close := true, quote := true }
      if next.token.startsOperand then return [← grammar .bracketed] else return []) Mentioned := by
    refine notes_peek fun next _ => ?_
    split
    · exact (hgrammar _).bind fun e => .pure (by grind)
    · exact .pure (by grind)
  refine notes_peek fun next _ => ?_
  extract_lets rest
  have hrest : ∀ lower, Notes (fun word => Mentioned lower.toList word ∨ known word) (rest lower)
      Expr.Mentions := by
    intro lower
    refine (notes_take? _ _).andThen fun sliced => ?_
    split
    · exact .pure (by grind)
    · refine hbound.bind fun upper => (notes_take? _ _).andThen fun _ => ?_
      dsimp only
      split
      · exact hbound.bind fun step => .pure (by grind)
      · exact .pure (by grind)
  split
  · exact (hrest none).of_known (by grind)
  · exact ((hgrammar _).map some (by grind)).bind hrest

theorem notes_entries (rounds : Nat) : Notes known (entries grammar rounds) Mentioned := by
  induction rounds generalizing known with
  | zero => exact .failure
  | succ rounds ih =>
    refine (notes_take? _ _).andThen fun ended => ?_
    split
    · exact .pure (by grind)
    refine (notes_symbol _ _).andThen fun _ => notes_peek fun next _ => ?_
    split
    · exact (notes_pass _).andThen fun _ => .pure (by grind)
    split
    · exact (notes_pass _).andThen fun _ => (hgrammar _).bind fun e => ih.bind fun others =>
        .pure (by grind)
    · exact (hgrammar _).bind fun key => (notes_symbol _ _).andThen fun _ =>
        (hgrammar _).bind fun value => ih.bind fun others => .pure (by grind)

/-! ### Operands -/

theorem notes_strings (finish : Expect) (opening : Lexeme) (q : Quote) :
    Notes known (strings limit grammar finish opening q) Expr.Mentions := by
  have hliteral : ∀ {known} q, Notes known (literal (shown limit grammar) limit q limit) Mentioned :=
    fun q => notes_literal (notes_shown hgrammar) limit q limit
  refine (notes_pass _).andThen fun _ => (hliteral q).bind fun fields =>
    (notes_textFrom _).andThen fun written => notes_peek fun next _ => ?_
  split
  · refine .bind (@notes_rounds _ _ Mentioned _ ?round limit) fun others => ?_
    case round =>
      refine notes_peek fun next _ => ?_
      split
      · exact (notes_pass _).andThen fun _ => (hliteral _).bind fun fields =>
          notes_peek fun following _ => .pure fun _ => .inl
      · exact .failure
    refine .pure fun word => ?_
    simp [mentioned_flatten]
    grind
  · exact .pure (by grind)

end

variable {clauses : Bool → Read (List Expr)}
variable (hclauses : ∀ {known} first, Notes known (clauses first) Mentioned)

theorem notes_atClause : Notes known atClause silent :=
  notes_peek fun _ _ => .pure fun _ => False.elim

section

include hgrammar hclauses

/-- The arguments of a call note what their values mention, and the names in front of `=`. -/
theorem notes_arguments (first : Bool) (rounds : Nat) :
    Notes known (arguments grammar clauses first rounds) Mentioned := by
  induction rounds generalizing known first with
  | zero => exact .failure
  | succ rounds ih =>
    refine notes_peek fun next hnext => ?_
    split
    · exact (notes_pass _).andThen fun _ => .pure (by grind)
    split
    · exact (notes_pass _).andThen fun _ => (notes_symbol _ _).andThen fun _ => .pure (by grind)
    extract_lets behind named rest
    -- Behind an argument comes another one, or the clauses of a comprehension, or the end.
    have hrest : ∀ argument : List Expr × Bool,
        Notes (fun word => Mentioned argument.1 word ∨ known word) (rest argument) Mentioned := by
      rintro ⟨argument, plain⟩
      refine (notes_take? _ _).andThen fun comma => ?_
      split
      · exact (ih _).bind fun others => .pure (by grind)
      refine notes_atClause.andThen fun loop => ?_
      split
      · exact (hclauses _).bind fun more => (notes_symbol _ _).andThen fun _ => .pure (by grind)
      · exact (notes_symbol _ _).andThen fun _ => .pure (by grind)
    have hnamed : ∀ name equals, named = some (name, equals) → IsIdentifier name := by
      intro name equals h
      dsimp only [named] at h
      split at h
      · split at h <;> cases h
        exact hnext _ ‹_›
      · cases h
    clear_value rest named
    rcases named with _ | ⟨name, equals⟩
    · dsimp only
      split
      · exact (notes_pass _).andThen fun _ => (hgrammar _).bind fun e =>
          .pureBind ((hrest _).of_known (by grind))
      · exact (hgrammar _).bind fun e => .pureBind ((hrest _).of_known (by grind))
    · refine (notes_note (hnamed _ _ rfl)).bind fun _ => (notes_pass _).andThen fun _ =>
        (hgrammar _).bind fun e => ?_
      exact .pureBind ((hrest _).of_known (by grind))

theorem notes_round : Notes known (round limit grammar clauses) Expr.Mentions := by
  refine notes_peek fun opening _ => ?_
  split
  · exact (notes_pass _).andThen fun _ => .pure (by grind)
  refine (notes_element hgrammar _).bind fun first => notes_atClause.andThen fun loop => ?_
  split
  · exact (hclauses _).bind fun more => (notes_symbol _ _).andThen fun _ => .pure (by grind)
  refine notes_peek fun next _ => ?_
  split
  · refine (notes_pass _).andThen fun _ => ?_
    split
    · exact .pure (by grind)
    · exact .pure (by grind)
  · exact (notes_items hgrammar _ _).bind fun others => .pure (by grind)

theorem notes_square : Notes known (square limit grammar clauses) Expr.Mentions := by
  refine notes_peek fun opening _ => ?_
  split
  · exact (notes_pass _).andThen fun _ => .pure (by grind)
  refine (notes_element hgrammar _).bind fun first => notes_atClause.andThen fun loop => ?_
  split
  · exact (hclauses _).bind fun more => (notes_symbol _ _).andThen fun _ => .pure (by grind)
  · exact (notes_items hgrammar _ _).bind fun others => .pure (by grind)

theorem notes_curly : Notes known (curly limit grammar clauses) Expr.Mentions := by
  refine notes_peek fun opening _ => ?_
  split
  · exact (notes_pass _).andThen fun _ => .pure (by grind)
  split
  · exact (notes_pass _).andThen fun _ => (notes_symbol _ _).andThen fun _ => .pure (by grind)
  split
  · exact (notes_pass _).andThen fun _ => (hgrammar _).bind fun e =>
      (notes_entries hgrammar _).bind fun others => .pure (by grind)
  refine (notes_element hgrammar _).bind fun first => (notes_take? _ _).andThen fun colon => ?_
  split
  · refine (hgrammar _).bind fun value => notes_atClause.andThen fun loop => ?_
    split
    · exact (hclauses _).bind fun more => (notes_symbol _ _).andThen fun _ => .pure (by grind)
    · exact (notes_entries hgrammar _).bind fun others => .pure (by grind)
  refine notes_atClause.andThen fun loop => ?_
  split
  · exact (hclauses _).bind fun more => (notes_symbol _ _).andThen fun _ => .pure (by grind)
  · exact (notes_items hgrammar _ _).bind fun others => .pure (by grind)

theorem notes_atom (place : Place) : Notes known (atom limit grammar clauses place) Expr.Mentions := by
  refine notes_peek fun next hnext => ?_
  split
  · rename_i name hname
    refine (notes_pass _).andThen fun _ => ?_
    split
    · exact .pure (by grind)
    · exact (notes_note (hnext name hname)).bind fun _ => .pure (by grind)
  · exact (notes_pass _).andThen fun _ => .pure (by grind)
  · exact notes_strings hgrammar _ _ _
  · exact (notes_pass _).andThen fun _ => notes_round hgrammar hclauses
  · exact (notes_pass _).andThen fun _ => notes_square hgrammar hclauses
  · exact (notes_pass _).andThen fun _ => notes_curly hgrammar hclauses
  · exact (notes_pass _).andThen fun _ => .pure (by grind)
  · exact .failure

/-- What an operand mentions is known when something is applied to it. -/
theorem notes_applied (finish : Expect) (rounds : Nat) (e : Expr)
    (he : ∀ word, e.Mentions word → known word) :
    Notes known (applied limit grammar clauses finish rounds e) Expr.Mentions := by
  induction rounds generalizing known e with
  | zero => exact .failure
  | succ rounds ih =>
    refine notes_peek fun next _ => ?_
    split
    · exact (notes_pass _).andThen fun _ => (notes_identifier _).bind fun member => ih _ (by grind)
    · exact (notes_pass _).andThen fun _ => (notes_arguments hgrammar hclauses _ _).bind fun given =>
        ih _ (by grind)
    · exact (notes_pass _).andThen fun _ =>
        (notes_listed fun first => notes_subscriptItem hgrammar first).bind fun indices =>
          (notes_symbol _ _).andThen fun _ => ih _ (by grind)
    · exact .pure he

theorem notes_operand (signs : Nat) (place : Place) :
    Notes known (operand limit grammar clauses signs place) Expr.Mentions := by
  induction signs generalizing known place with
  | zero => exact .failure
  | succ signs ih =>
    refine notes_peek fun next hnext => ?_
    split
    · refine (notes_pass _).andThen fun _ => (notes_atom hgrammar hclauses _).bind fun e =>
        (notes_applied hgrammar hclauses _ _ e (by grind)).bind fun e => ?_
      exact notes_guard.andThen fun _ => .pure (by grind)
    · rename_i hawait
      refine (notes_pass _).andThen fun _ => notes_peek fun behind _ => ?_
      extract_lets awaits
      split
      · exact (ih _).bind fun e => .pure (by grind)
      · refine (notes_note (hnext _ hawait)).bind fun _ => ?_
        exact notes_applied hgrammar hclauses _ _ _ (by grind)
    · split
      · exact (notes_pass _).andThen fun _ => (ih _).bind fun e => .pure (by grind)
      · exact (notes_atom hgrammar hclauses _).bind fun e =>
          notes_applied hgrammar hclauses _ _ e (by grind)

/-! ### Targets and comprehensions -/

theorem notes_loopTargets : Notes known (loopTargets limit grammar clauses) silent :=
  (notes_listed fun _ => notes_operand hgrammar hclauses _ _).andThen fun _ =>
    notes_guard.andThen fun _ => notes_keyword _ _

/-- The clauses of a comprehension note their targets, sources and conditions. -/
theorem notes_comprehension (first : Bool) (rounds : Nat) :
    Notes known (comprehension limit grammar clauses first rounds) Mentioned := by
  induction rounds generalizing known first with
  | zero => exact .failure
  | succ rounds ih =>
    refine notes_peek fun next _ => ?_
    split
    · refine (notes_pass _).andThen fun _ => ?_
      extract_lets rest
      have hrest : ∀ u, Notes known (rest u) Mentioned := fun u =>
        (notes_loopTargets hgrammar hclauses).andThen fun _ =>
          (notes_listed fun _ => hgrammar _).bind fun values => (ih _).bind fun others =>
            .pure (by grind)
      split
      · exact (notes_keyword _ _).andThen hrest
      · exact hrest ()
    split
    · exact .failure
    split
    · exact (notes_pass _).andThen fun _ => (hgrammar _).bind fun condition =>
        (ih _).bind fun others => .pure (by grind)
    · exact .pure (by grind)

/-! ### Parameters -/

theorem notes_starTarget (finish : Expect) :
    Notes known (starTarget limit grammar clauses finish) Expr.Mentions := by
  refine (notes_atom hgrammar hclauses _).bind fun e =>
    (notes_applied hgrammar hclauses _ _ e (by grind)).bind fun e => ?_
  split
  · exact .pure (by grind)
  · exact .pure (by grind)
  · exact .pure (by grind)
  · exact .failure

/-- A parameter notes what its annotation and its default mention. -/
theorem notes_parameter (typed : Bool) (finish : Expect) :
    Notes known (parameter limit grammar clauses typed finish) Mentioned := by
  unfold parameter
  extract_lets typePart default
  have htype : ∀ {known}, Notes known typePart Mentioned := by
    intro known
    dsimp only [typePart]
    split
    · exact .pure (by grind)
    refine (notes_take? _ _).andThen fun colon => ?_
    split
    · exact (notes_type hgrammar _ _ _).bind fun e => .pure (by grind)
    · exact .pure (by grind)
  have hdefault : ∀ {known}, Notes known default Mentioned := by
    refine (notes_take? _ _).andThen fun given => ?_
    split
    · exact (hgrammar _).bind fun e => .pure (by grind)
    · exact .pure (by grind)
  clear_value typePart default
  refine notes_peek fun next hnext => ?_
  split
  · rename_i name hname
    exact (notes_pass _).andThen fun _ => (notes_note (hnext name hname)).bind fun _ =>
      htype.bind fun annotation => hdefault.bind fun value => .pure (by grind)
  · exact (notes_pass _).andThen fun _ => .pure (by grind)
  · refine (notes_pass _).andThen fun _ => notes_peek fun behind _ => ?_
    split
    · exact (notes_starTarget hgrammar hclauses _).bind fun target => htype.bind fun annotation =>
        .pure (by grind)
    · exact .pure (by grind)
  · exact (notes_pass _).andThen fun _ => (notes_starTarget hgrammar hclauses _).bind fun target =>
      htype.bind fun annotation => .pure (by grind)
  · exact (notes_pass _).andThen fun _ => (notes_round hgrammar hclauses).bind fun names =>
      notes_guard.andThen fun _ => hdefault.bind fun value => .pure (by grind)
  · exact .failure

theorem notes_parameters (typed : Bool) (finish : Expect) (last : Token) :
    Notes known (parameters limit grammar clauses typed finish last) Mentioned := by
  refine notes_peek fun next _ => ?_
  split
  · exact .pure (by grind)
  · refine (notes_separated fun _ => notes_parameter hgrammar hclauses _ _).bind fun each =>
      .pure fun word h => ?_
    exact .inl (by simpa using h)

/-! ### Expressions -/

/-- A chain of operands notes what they mention; that of the parts before is noted already. -/
theorem notes_chain (place : Place) (rounds : Nat) (parts : List Expr)
    (hparts : ∀ word, Mentioned parts word → known word) :
    Notes known (chain limit grammar clauses place rounds parts) Mentioned := by
  induction rounds generalizing known parts with
  | zero => exact .failure
  | succ rounds ih =>
    refine notes_peek fun next _ => ?_
    extract_lets another
    have hanother : Notes known another Mentioned :=
      (notes_operand hgrammar hclauses _ _).bind fun e => ih _ (by grind)
    clear_value another
    split
    · split
      · exact (notes_pass _).andThen fun _ => hanother
      · exact .pure hparts
    · exact (notes_pass _).andThen fun _ => hanother
    · exact (notes_pass _).andThen fun _ => (notes_keyword _ _).andThen fun _ => hanother
    · exact (notes_pass _).andThen fun _ => (notes_take? _ _).andThen fun _ => hanother
    · split
      · exact .pure hparts
      · exact (notes_pass _).andThen fun _ => (hgrammar _).bind fun condition =>
          (notes_keyword _ _).andThen fun _ => (hgrammar _).bind fun other => .pure (by grind)
    · split
      · exact (notes_pass _).andThen fun _ => (hgrammar _).bind fun e => .pure (by grind)
      · exact .pure hparts
    · exact .pure hparts

theorem notes_expressionWith (place : Place) :
    Notes known (expressionWith limit grammar clauses place) Expr.Mentions := by
  refine notes_peek fun next hnext => ?_
  extract_lets chained
  have hchained : Notes known chained Expr.Mentions := by
    refine (notes_operand hgrammar hclauses _ _).bind fun first =>
      (notes_chain hgrammar hclauses _ _ [first] (by grind)).bind fun parts => ?_
    split
    · exact .pure (by grind)
    · exact .pure (by grind)
  clear_value chained
  split
  · exact (notes_pass _).andThen fun _ => (hgrammar _).bind fun e => .pure (by grind)
  · exact (notes_pass _).andThen fun _ => (notes_parameters hgrammar hclauses _ _ _).bind fun names =>
      (notes_symbol _ _).andThen fun _ => (hgrammar _).bind fun e => .pure (by grind)
  · rename_i name _ _ hname
    split
    · exact (notes_note (hnext name hname)).bind fun _ => (notes_pass _).andThen fun _ =>
        (hgrammar _).bind fun e => .pure (by grind)
    · exact hchained
  · exact hchained

end

section

include hgrammar

theorem notes_clausesWith (depth : Nat) (first : Bool) :
    Notes known (clausesWith limit grammar depth first) Mentioned := by
  induction depth generalizing known first with
  | zero => exact .failure
  | succ depth ih => exact notes_comprehension hgrammar ih _ _

end

/-- **What is read as an expression** has its identifiers noted. -/
theorem notes_expression (limit depth : Nat) (place : Place) :
    Notes known (expression limit depth place) Expr.Mentions := by
  induction depth generalizing known place with
  | zero => exact .failure
  | succ depth ih => exact notes_expressionWith ih (notes_clausesWith ih _) _

theorem notes_any {limit : Nat} (place : Place) :
    Notes known (any limit place) Expr.Mentions := notes_expression limit limit place

theorem notes_anyClauses {limit : Nat} (first : Bool) :
    Notes known (anyClauses limit first) Mentioned :=
  notes_clausesWith notes_any limit first

end Read

/-! ### Patterns -/

namespace Read

variable {known : String → Prop} {limit : Nat} {grammar : Grammar}
variable (hgrammar : ∀ {known} place, Notes known (grammar place) Expr.Mentions)

theorem notes_splatName : Notes known splatName silent := by
  refine notes_peek fun next _ => ?_
  split
  · exact notes_pass _
  · exact (notes_identifier _).andThen fun _ => .pure fun _ => False.elim

theorem notes_numberPattern (finish : Expect) : Notes known (numberPattern finish) silent := by
  refine (notes_take _ _).andThen fun _ => notes_peek fun next _ => ?_
  split
  · exact (notes_pass _).andThen fun _ => notes_take _ _
  · exact .pure fun _ => False.elim

include hgrammar

/-- A pattern goes onward, and hands out nothing that could mention a word. -/
theorem notes_simplePattern {whole : Expect → Expect → Read Unit}
    (hwhole : ∀ {known} start finish, Notes known (whole start finish) silent) (rounds : Nat)
    (start finish : Expect) :
    Notes known (simplePattern limit grammar whole rounds start finish) silent := by
  induction rounds generalizing known start finish with
  | zero => exact .failure
  | succ rounds ih =>
    unfold simplePattern
    extract_lets inBrackets rest
    have hbrackets : ∀ closing, Notes known (inBrackets closing) silent := by
      intro closing
      refine (notes_take? _ _).andThen fun ended => ?_
      split
      · exact (notes_separated fun _ => hwhole _ _).andThen fun _ => notes_symbol _ _
      · exact .pure fun _ => False.elim
    have hrest : ∀ u, Notes known (rest u) silent := by
      intro u
      refine (notes_take? _ _).andThen fun more => ?_
      split
      · exact ih _ _
      · exact .pure fun _ => False.elim
    clear_value inBrackets rest
    refine notes_peek fun next _ => ?_
    split
    · split
      · exact (notes_pass _).andThen hrest
      refine (notes_dottedName _ _ _).andThen fun _ => (notes_take? _ _).andThen fun bracket => ?_
      split
      · exact (hbrackets _).andThen hrest
      · exact hrest ()
    · exact (notes_numberPattern _).andThen hrest
    · exact (notes_strings hgrammar _ _ _).andThen fun _ => hrest ()
    · exact (notes_pass _).andThen fun _ => (notes_numberPattern _).andThen hrest
    · exact (notes_pass _).andThen fun _ => (hbrackets _).andThen hrest
    · exact (notes_pass _).andThen fun _ => (hbrackets _).andThen hrest
    · refine (notes_pass _).andThen fun _ => (notes_take? _ _).andThen fun ended => ?_
      have hentry : ∀ first : Bool, Notes known (do
          let next ← peek { close := true, quote := true }
          if next.token = .symbol "*" || next.token = .symbol "**" then
            pass next
            splatName
          else
            simplePattern limit grammar whole rounds { close := true } {}
            symbol ":"
            whole {} { close := true }) silent := by
        refine fun _ => notes_peek fun next _ => ?_
        split
        · exact (notes_pass _).andThen fun _ => notes_splatName
        · exact (ih _ _).andThen fun _ => (notes_symbol _ _).andThen fun _ => hwhole _ _
      split
      · exact (notes_separated hentry).andThen fun _ => (notes_symbol _ _).andThen hrest
      · exact hrest ()
    · exact (notes_pass _).andThen fun _ => notes_splatName.andThen hrest
    · exact (notes_pass _).andThen fun _ => notes_splatName.andThen hrest
    · have hnone : Notes known (failure : Read Unit) silent := .failure
      exact hnone.andThen hrest

/-- So do the patterns of a case, to every depth. -/
theorem notes_casePattern (depth : Nat) (start finish : Expect) :
    Notes known (casePattern limit grammar depth start finish) silent := by
  induction depth generalizing known start finish with
  | zero => exact .failure
  | succ depth ih =>
    refine notes_peek fun next hnext => ?_
    extract_lets rest
    have hrest : ∀ u, Notes known (rest u) silent := by
      intro u
      refine (notes_take? _ _).andThen fun bound => ?_
      have hround : Notes known (do
          let _ ← identifier
          return ((), !(← take? finish (.word "as")))) fun item => silent item.1 :=
        (notes_identifier _).andThen fun _ => (notes_take? _ _).andThen fun _ =>
          .pure fun _ => False.elim
      split
      · exact (notes_rounds hround _).andThen fun _ => .pure fun _ => False.elim
      · exact .pure fun _ => False.elim
    clear_value rest
    split
    · rename_i name hname
      split
      · exact (notes_note (hnext name hname)).andThen fun _ => (notes_pass _).andThen fun _ =>
          (notes_simplePattern hgrammar ih _ _ _).andThen hrest
      · exact (notes_simplePattern hgrammar ih _ _ _).andThen hrest
    · exact (notes_simplePattern hgrammar ih _ _ _).andThen hrest

end Read

end ApiStubs.Python
