import ApiStubs.Proofs.Discipline
import Mathlib.Data.List.Forall2

/-!
# Proofs — Executing — what Python makes of a straight line of statements

A module that is a straight line of assignments, augmented assignments and deletions runs from top
to bottom.  What becomes of a list of strings can be said exactly.  What other code does cannot,
but it can only do it to what it reaches: by the names that the code of the module mentions, of
which functions may have been made that are called later, and by the values that it is given.
`Memory.Touches` is that much and no more, and so `Executes` allows everything that Python may do,
with one exception: an annotation, which the syntax does not keep, is taken to change nothing.

Whatever holds of every memory that `ExecutesAll` leads to holds of what Python has when the last
statement has run.  `Executes.spares` says of most statements that they leave a list alone that
only some names hold which no code mentions.
-/

namespace ApiStubs.Python

/-! ### Objects and names -/

/-- What a name is bound to: a string, a tuple, or an object in the memory, which is a list or
something else. -/
inductive Value
  | text (s : String)
  | tuple (items : List Value)
  | list (address : Nat)
  | object (address : Nat)

/-- The value is the object at the address, or a tuple with it in it. -/
inductive Value.Holds (address : Nat) : Value → Prop where
  | list : Holds address (.list address)
  | object : Holds address (.object address)
  | item {items : List Value} {value : Value} :
      value ∈ items → Holds address value → Holds address (.tuple items)

theorem Value.not_holds_text {address : Nat} {s : String} : ¬(Value.text s).Holds address := nofun

theorem Value.not_holds_texts {address : Nat} {texts : List String} :
    ¬(Value.tuple (texts.map .text)).Holds address := by
  intro h
  cases h with
  | item hmem hholds =>
    obtain ⟨s, -, rfl⟩ := List.mem_map.mp hmem
    exact not_holds_text hholds

/-- The names of a module, and the objects. -/
structure Memory where
  names : String → Option Value
  /-- What an object holds, for a list its items. -/
  cells : Nat → List Value

namespace Memory

/-- The memory with a name bound. -/
def bind (memory : Memory) (name : String) (value : Value) : Memory :=
  { memory with names := fun other => if other = name then some value else memory.names other }

/-- The memory with a name removed. -/
def unbind (memory : Memory) (name : String) : Memory :=
  { memory with names := fun other => if other = name then none else memory.names other }

/-- The memory with an object changed. -/
def store (memory : Memory) (address : Nat) (items : List Value) : Memory :=
  { memory with cells := fun other => if other = address then items else memory.cells other }

section

variable (memory : Memory)

@[simp] theorem names_bind (name other : String) (value : Value) :
    (memory.bind name value).names other
      = if other = name then some value else memory.names other := rfl

@[simp] theorem cells_bind (name : String) (value : Value) :
    (memory.bind name value).cells = memory.cells := rfl

@[simp] theorem names_unbind (name other : String) :
    (memory.unbind name).names other = if other = name then none else memory.names other := rfl

@[simp] theorem cells_unbind (name : String) : (memory.unbind name).cells = memory.cells := rfl

@[simp] theorem names_store (address : Nat) (items : List Value) :
    (memory.store address items).names = memory.names := rfl

@[simp] theorem cells_store (address other : Nat) (items : List Value) :
    (memory.store address items).cells other
      = if other = address then items else memory.cells other := rfl

end

/-- No object holds the object at the address, and none of the names does. -/
structure Beyond (memory : Memory) (names : List String) (address : Nat) : Prop where
  cells : ∀ other, ∀ value ∈ memory.cells other, ¬value.Holds address
  names : ∀ name ∈ names, ∀ value, memory.names name = some value → ¬value.Holds address

/-- Nothing holds an object at the address. -/
def Fresh (memory : Memory) (address : Nat) : Prop := ∀ names, memory.Beyond names address

/-- Code has run that was given some values, and has made others.  Names that it does not mention
are bound to what they were, and an object beyond its reach holds what it held. -/
structure Touches (code : List String) (before : Memory) (given made : List Value)
    (after : Memory) : Prop where
  names : ∀ name ∉ code, after.names name = before.names name
  beyond : ∀ address, before.Beyond code address → (∀ value ∈ given, ¬value.Holds address) →
    after.Beyond code address ∧ after.cells address = before.cells address
      ∧ ∀ value ∈ made, ¬value.Holds address

end Memory

/-! ### Literals -/

/-- A string literal that says what it shows: one pair of quotation marks, and between them neither
a quotation mark nor a backslash. -/
inductive Expr.Shows : Expr → String → Prop where
  | string {marker quotes text : String} :
      marker ∈ ["", "r", "R", "u", "U"] → quotes ∈ ["'", "\"", "'''", "\"\"\""] →
      (∀ c ∈ text.toList, c ≠ '"' ∧ c ≠ '\'' ∧ c ≠ '\\') →
      Shows (.string (marker ++ quotes ++ text ++ quotes) []) text

/-- A list or a tuple of such literals. -/
inductive Expr.Displays : Expr → List String → Prop where
  | list {items : List Expr} {texts : List String} :
      List.Forall₂ Shows items texts → Displays (.list false items) texts
  | tuple {items : List Expr} {texts : List String} :
      List.Forall₂ Shows items texts → Displays (.tuple false items) texts

/-! ### Statements -/

section

/- The names that the code of the module mentions. -/
variable (code : List String)

/-- Evaluates an expression. -/
inductive Evaluates : Expr → Memory → Value → Memory → Prop where
  | list {items : List Expr} {texts : List String} {memory : Memory} {address : Nat} :
      List.Forall₂ Expr.Shows items texts → memory.Fresh address →
      Evaluates (.list false items) memory (.list address)
        (memory.store address (texts.map .text))
  | tuple {items : List Expr} {texts : List String} {memory : Memory} :
      List.Forall₂ Expr.Shows items texts →
      Evaluates (.tuple false items) memory (.tuple (texts.map .text)) memory
  | other {e : Expr} {memory after : Memory} {value : Value} :
      (∀ texts, ¬e.Displays texts) → memory.Touches code [] [value] after →
      Evaluates e memory value after

mutual

/-- Assigns a value to a target.  What a sequence takes the value apart into, the value tells. -/
def Stores : Target → Value → Memory → Memory → Prop
  | .name id, value, memory, after => after = memory.bind id value
  | .place _, value, memory, after => memory.Touches code [value] [] after
  | .star inner, value, memory, after => Stores inner value memory after
  | .sequence items, value, memory, after =>
    ∃ values between, memory.Touches code [value] values between
      ∧ StoresAll items values between after

/-- Assigns values to targets, one after the other. -/
def StoresAll : List Target → List Value → Memory → Memory → Prop
  | [], [], memory, after => after = memory
  | target :: rest, value :: values, memory, after =>
    ∃ between, Stores target value memory between ∧ StoresAll rest values between after
  | _, _, _, _ => False

end

/-- Assigns a value to the targets of an assignment, from left to right. -/
def Assignment.Stores : Assignment → Value → Memory → Memory → Prop
  | .declare _, _, memory, after => after = memory
  | .value target _, assigned, memory, after => Python.Stores code target assigned memory after
  | .chain target right, assigned, memory, after =>
    ∃ between, Python.Stores code target assigned memory between
      ∧ right.Stores assigned between after

mutual

/-- Removes what an expression behind `del` names. -/
def Removes : Expr → Memory → Memory → Prop
  | .name id, memory, after => (memory.names id).isSome ∧ after = memory.unbind id
  | .group _ inner, memory, after => Removes inner memory after
  | .tuple _ items, memory, after => RemovesAll items memory after
  | .list _ items, memory, after => RemovesAll items memory after
  | _, memory, after => memory.Touches code [] [] after

/-- Removes what the expressions behind `del` name, one after the other. -/
def RemovesAll : List Expr → Memory → Memory → Prop
  | [], memory, after => after = memory
  | e :: rest, memory, after => ∃ between, Removes e memory between ∧ RemovesAll rest between after

end

/-- The value is a list or a tuple. -/
def Value.isSequence : Value → Bool
  | .list _ | .tuple _ => true
  | _ => false

/-- Executes a statement of a straight line, where an augmented assignment is an addition.  A list
takes strings in where it stands, a tuple is exchanged for a longer one, and takes in no list. -/
inductive Executes : Statement → Memory → Memory → Prop where
  | declare {a : Assignment} {memory : Memory} :
      a.assigned? = none → Executes (.assign a) memory memory
  | assign {a : Assignment} {right : Expr} {value : Value} {memory between after : Memory} :
      a.assigned? = some right → Evaluates code right memory value between →
      a.Stores code value between after → Executes (.assign a) memory after
  | extendList {id : String} {right : Expr} {texts : List String} {memory : Memory}
      {address : Nat} :
      memory.names id = some (.list address) → right.Displays texts →
      Executes (.augment (.name id) right) memory
        (memory.store address (memory.cells address ++ texts.map .text))
  | extendTuple {id : String} {items : List Expr} {texts : List String} {memory : Memory}
      {values : List Value} :
      memory.names id = some (.tuple values) → List.Forall₂ Expr.Shows items texts →
      Executes (.augment (.name id) (.tuple false items)) memory
        (memory.bind id (.tuple (values ++ texts.map .text)))
  | augmentName {id : String} {right : Expr} {old value : Value} {memory between : Memory} :
      memory.names id = some old → (old.isSequence → ∀ texts, ¬right.Displays texts) →
      memory.Touches code [old] [value] between →
      Executes (.augment (.name id) right) memory (between.bind id value)
  | augmentPlace {e right : Expr} {memory after : Memory} :
      memory.Touches code [] [] after → Executes (.augment (.place e) right) memory after
  | augmentGroup {target : Target} {right : Expr} {memory after : Memory} :
      Executes (.augment target right) memory after →
      Executes (.augment (.sequence [target]) right) memory after
  | delete {targets : List Expr} {memory after : Memory} :
      RemovesAll code targets memory after → Executes (.delete targets) memory after

/-- Executes statements in order. -/
inductive ExecutesAll : List Statement → Memory → Memory → Prop where
  | done (memory : Memory) : ExecutesAll [] memory memory
  | next {s : Statement} {rest : List Statement} {memory between after : Memory} :
      Executes code s memory between → ExecutesAll rest between after →
      ExecutesAll (s :: rest) memory after

end

theorem ExecutesAll.of_append {code : List String} {first second : List Statement}
    {memory after : Memory} (h : ExecutesAll code (first ++ second) memory after) :
    ∃ between, ExecutesAll code first memory between ∧ ExecutesAll code second between after := by
  induction first generalizing memory with
  | nil => exact ⟨memory, .done memory, h⟩
  | cons s rest ih =>
    cases h with
    | next hs hrest =>
      obtain ⟨between, hfirst, hsecond⟩ := ih hrest
      exact ⟨between, .next hs hfirst, hsecond⟩

/-! ### What the code mentions, and what it binds -/

mutual

/-- The names mentioned where a target is an attribute or an element of something. -/
def Target.code : Target → List String
  | .name _ => []
  | .place e => e.identifiers
  | .star inner => inner.code
  | .sequence items => codeOfTargets items

/-- The names mentioned in targets. -/
def codeOfTargets : List Target → List String
  | [] => []
  | target :: rest => target.code ++ codeOfTargets rest

end

/-- The names mentioned in an assignment. -/
def Assignment.code : Assignment → List String
  | .declare target => target.code
  | .value target right => target.code ++ right.identifiers
  | .chain target right => target.code ++ right.code

mutual

/-- The names mentioned behind `del`, other than those that are removed. -/
def Expr.codeOfRemoval : Expr → List String
  | .name _ => []
  | .group _ inner => inner.codeOfRemoval
  | .tuple _ items => codeOfRemovals items
  | .list _ items => codeOfRemovals items
  | e => e.identifiers

/-- The names mentioned in expressions behind `del`, other than those that are removed. -/
def codeOfRemovals : List Expr → List String
  | [] => []
  | e :: rest => e.codeOfRemoval ++ codeOfRemovals rest

end

/-- The names that the code of a statement mentions. -/
def Statement.code : Statement → List String
  | .assign a => a.code
  | .augment target right => target.code ++ right.identifiers
  | .delete targets => codeOfRemovals targets
  | _ => []

mutual

/-- The names that a target binds. -/
def Target.bound : Target → List String
  | .name id => [id]
  | .place _ => []
  | .star inner => inner.bound
  | .sequence items => boundByTargets items

/-- The names that targets bind. -/
def boundByTargets : List Target → List String
  | [] => []
  | target :: rest => target.bound ++ boundByTargets rest

end

/-- The names that an assignment binds. -/
def Assignment.bound : Assignment → List String
  | .declare _ => []
  | .value target _ => target.bound
  | .chain target right => target.bound ++ right.bound

/-! ### A list that some names keep to themselves -/

namespace Memory

/-- The name is bound to the list at the address, and nothing else holds it but the names that are
reserved. -/
structure Guards (memory : Memory) (reserved : List String) (name : String) (address : Nat) :
    Prop where
  bound : memory.names name = some (.list address)
  cells : ∀ other, ∀ value ∈ memory.cells other, ¬value.Holds address
  names : ∀ other ∉ reserved, ∀ value, memory.names other = some value → ¬value.Holds address

/-- The name is bound to what it was.  If that is a list that is guarded and not among the values
given, it is guarded still, holds what it held, and is not among the values made. -/
structure Spares (reserved : List String) (name : String) (before : Memory)
    (given made : List Value) (after : Memory) : Prop where
  bound : after.names name = before.names name
  guards : ∀ address, before.Guards reserved name address →
    (∀ value ∈ given, ¬value.Holds address) →
    after.Guards reserved name address ∧ after.cells address = before.cells address
      ∧ ∀ value ∈ made, ¬value.Holds address

end Memory

variable {code reserved : List String} {name : String} {before between after : Memory}
variable {given made : List Value}

namespace Memory.Spares

theorem refl : Spares reserved name before given [] before :=
  ⟨rfl, fun _ hguards _ => ⟨hguards, rfl, nofun⟩⟩

/-- What the first step has made may be given to the second. -/
theorem trans {more : List Value} (h : Spares reserved name before given made between)
    (h' : Spares reserved name between (given ++ made) more after) :
    Spares reserved name before given more after := by
  refine ⟨h'.bound.trans h.bound, fun address hguards hgiven => ?_⟩
  obtain ⟨hbetween, hsame, hmade⟩ := h.guards address hguards hgiven
  obtain ⟨hafter, hsame', hmore⟩ :=
    h'.guards address hbetween (List.forall_mem_append.mpr ⟨hgiven, hmade⟩)
  exact ⟨hafter, hsame'.trans hsame, hmore⟩

/-- More may be given. -/
theorem mono {others : List Value} (h : Spares reserved name before given made after)
    (hsub : given ⊆ others) : Spares reserved name before others made after :=
  ⟨h.bound, fun address hguards hothers =>
    h.guards address hguards fun value hvalue => hothers value (hsub hvalue)⟩

/-- Another name is bound to a value that was given. -/
protected theorem bind {id : String} {value : Value} (hne : id ≠ name) (hgiven : value ∈ given) :
    Spares reserved name before given [] (before.bind id value) := by
  refine ⟨if_neg hne.symm, fun address hguards hapart => ⟨⟨?_, hguards.cells, ?_⟩, rfl, nofun⟩⟩
  · exact (if_neg hne.symm).trans hguards.bound
  · intro other hother found hfound
    rw [names_bind] at hfound
    split at hfound
    · cases hfound
      exact hapart value hgiven
    · exact hguards.names other hother found hfound

/-- Another name is removed. -/
protected theorem unbind {id : String} (hne : id ≠ name) :
    Spares reserved name before given [] (before.unbind id) := by
  refine ⟨if_neg hne.symm, fun address hguards _ => ⟨⟨?_, hguards.cells, ?_⟩, rfl, nofun⟩⟩
  · exact (if_neg hne.symm).trans hguards.bound
  · intro other hother found hfound
    rw [names_unbind] at hfound
    split at hfound
    · cases hfound
    · exact hguards.names other hother found hfound

end Memory.Spares

/-- Code that does not mention the reserved names does not get at what they guard. -/
theorem Memory.Touches.spares (hname : name ∈ reserved) (hcode : ∀ id ∈ code, id ∉ reserved)
    (h : before.Touches code given made after) :
    before.Spares reserved name given made after := by
  have hbound : after.names name = before.names name :=
    h.names name fun hmem => hcode name hmem hname
  refine ⟨hbound, fun address hguards hgiven => ?_⟩
  have hbeyond : before.Beyond code address :=
    ⟨hguards.cells, fun id hid => hguards.names id (hcode id hid)⟩
  obtain ⟨hafter, hsame, hmade⟩ := h.beyond address hbeyond hgiven
  refine ⟨⟨hbound.trans hguards.bound, hafter.cells, fun other hother value hvalue => ?_⟩, hsame,
    hmade⟩
  by_cases hmem : other ∈ code
  · exact hafter.names other hmem value hvalue
  · exact hguards.names other hother value (by rw [← h.names other hmem, hvalue])

/-- Evaluation makes new lists and hands out none that is guarded. -/
theorem Evaluates.spares {e : Expr} {value : Value} (hname : name ∈ reserved)
    (hcode : ∀ id ∈ code, id ∉ reserved) (h : Evaluates code e before value after) :
    before.Spares reserved name [] [value] after := by
  cases h with
  | @list items texts _ fresh hshows hfresh =>
    refine ⟨rfl, fun address hguards _ => ?_⟩
    -- the new list is none that is held already
    have hne : address ≠ fresh := by
      rintro rfl
      exact (hfresh [name]).names name (by simp) _ hguards.bound .list
    refine ⟨⟨hguards.bound, fun other value hvalue => ?_, hguards.names⟩, if_neg hne, ?_⟩
    · rw [Memory.cells_store] at hvalue
      split at hvalue
      · obtain ⟨s, -, rfl⟩ := List.mem_map.mp hvalue
        exact Value.not_holds_text
      · exact hguards.cells other value hvalue
    · intro value hvalue hholds
      rw [List.mem_singleton.mp hvalue] at hholds
      cases hholds
      exact hne rfl
  | tuple hshows =>
    refine ⟨rfl, fun address hguards _ => ⟨hguards, rfl, fun value hvalue => ?_⟩⟩
    rw [List.mem_singleton.mp hvalue]
    exact Value.not_holds_texts
  | other _ htouches => exact htouches.spares hname hcode

mutual

/-- Storing spares a name that the target does not bind. -/
theorem stores_spares (hname : name ∈ reserved) (hcode : ∀ id ∈ code, id ∉ reserved) :
    ∀ (target : Target) {value : Value} {before after : Memory}, name ∉ target.bound →
      Stores code target value before after → before.Spares reserved name [value] [] after
  | .name id, value, before, after, hbound, h => by
    rw [Stores] at h
    rw [h]
    have hne : id ≠ name := fun heq => hbound (by rw [Target.bound, heq]; simp)
    exact .bind hne (by simp)
  | .place _, _, _, _, _, h => by
    rw [Stores] at h
    exact h.spares hname hcode
  | .star inner, _, _, _, hbound, h => by
    rw [Stores] at h
    rw [Target.bound] at hbound
    exact stores_spares hname hcode inner hbound h
  | .sequence items, _, _, _, hbound, h => by
    rw [Stores] at h
    rw [Target.bound] at hbound
    obtain ⟨values, between, htouches, hstores⟩ := h
    exact (htouches.spares hname hcode).trans
      ((storesAll_spares hname hcode items hbound hstores).mono (by simp))

/-- So does storing to one target after the other. -/
theorem storesAll_spares (hname : name ∈ reserved) (hcode : ∀ id ∈ code, id ∉ reserved) :
    ∀ (targets : List Target) {values : List Value} {before after : Memory},
      name ∉ boundByTargets targets → StoresAll code targets values before after →
      before.Spares reserved name values [] after
  | [], [], _, _, _, h => by
    rw [StoresAll] at h
    rw [h]
    exact .refl
  | [], _ :: _, _, _, _, h | _ :: _, [], _, _, _, h => by
    rw [StoresAll] at h
    · exact h.elim
    all_goals simp
  | target :: rest, value :: values, _, _, hbound, h => by
    rw [StoresAll] at h
    rw [boundByTargets, List.mem_append, not_or] at hbound
    obtain ⟨between, hfirst, hrest⟩ := h
    have htarget := stores_spares hname hcode target hbound.1 hfirst
    exact (htarget.mono (by simp)).trans
      ((storesAll_spares hname hcode rest hbound.2 hrest).mono (by simp))

end

/-- A chain of targets is stored to one by one. -/
theorem Assignment.stores_spares (hname : name ∈ reserved) (hcode : ∀ id ∈ code, id ∉ reserved)
    {a : Assignment} {assigned : Value} {before after : Memory} (hbound : name ∉ a.bound)
    (h : a.Stores code assigned before after) :
    before.Spares reserved name [assigned] [] after := by
  induction a generalizing before with
  | declare target =>
    rw [Stores] at h
    rw [h]
    exact .refl
  | value target right => exact Python.stores_spares hname hcode target hbound h
  | chain target right ih =>
    rw [Assignment.bound, List.mem_append, not_or] at hbound
    obtain ⟨between, hfirst, hrest⟩ := h
    exact (Python.stores_spares hname hcode target hbound.1 hfirst).trans
      ((ih hbound.2 hrest).mono (by simp))

mutual

/-- Removing spares a name that is not deleted. -/
theorem removes_spares (hname : name ∈ reserved) (hcode : ∀ id ∈ code, id ∉ reserved) :
    ∀ (e : Expr) {before after : Memory}, name ∉ Scope.deleted e → Removes code e before after →
      before.Spares reserved name [] [] after
  | .name id, before, after, hdeleted, h => by
    rw [Removes] at h
    rw [h.2]
    have hne : id ≠ name := fun heq => hdeleted (by rw [Scope.deleted, heq]; simp)
    exact .unbind hne
  | .group _ inner, _, _, hdeleted, h => by
    rw [Removes] at h
    rw [Scope.deleted] at hdeleted
    exact removes_spares hname hcode inner hdeleted h
  | .tuple _ items, _, _, hdeleted, h | .list _ items, _, _, hdeleted, h => by
    rw [Removes] at h
    rw [Scope.deleted] at hdeleted
    exact removesAll_spares hname hcode items hdeleted h
  | .string _ _, _, _, _, h | .lambda _, _, _, _, h | .call _ _, _, _, _, h
  | .attribute _ _, _, _, _, h | .subscript _ _, _, _, _, h | .star _, _, _, _, h
  | .compound _, _, _, _, h => by
    rw [Removes] at h
    · exact h.spares hname hcode
    all_goals simp

/-- So does removing one after the other. -/
theorem removesAll_spares (hname : name ∈ reserved) (hcode : ∀ id ∈ code, id ∉ reserved) :
    ∀ (items : List Expr) {before after : Memory}, name ∉ Scope.deletedNames items →
      RemovesAll code items before after → before.Spares reserved name [] [] after
  | [], _, _, _, h => by
    rw [RemovesAll] at h
    rw [h]
    exact .refl
  | e :: rest, _, _, hdeleted, h => by
    rw [RemovesAll] at h
    rw [Scope.deletedNames, List.mem_append, not_or] at hdeleted
    obtain ⟨between, hfirst, hrest⟩ := h
    exact (removes_spares hname hcode e hdeleted.1 hfirst).trans
      (removesAll_spares hname hcode rest hdeleted.2 hrest)

end

/-- What is given holds nothing guarded anyway. -/
theorem Memory.Spares.ungiven (h : before.Spares reserved name given made after)
    (hgiven : ∀ address, before.Guards reserved name address →
      ∀ value ∈ given, ¬value.Holds address) : before.Spares reserved name [] made after :=
  ⟨h.bound, fun address hguards _ => h.guards address hguards (hgiven address hguards)⟩

theorem Executes.assign_spares (hname : name ∈ reserved) (hcode : ∀ id ∈ code, id ∉ reserved)
    {a : Assignment} (hbound : name ∉ a.bound) (h : Executes code (.assign a) before after) :
    before.Spares reserved name [] [] after := by
  cases h with
  | declare _ => exact .refl
  | assign _ hvalue hstores =>
    exact (hvalue.spares hname hcode).trans
      ((Assignment.stores_spares hname hcode hbound hstores).mono (by simp))

/-- An augmented assignment extends a list in place, but none that is guarded. -/
theorem Executes.augment_spares (hname : name ∈ reserved) (hcode : ∀ id ∈ code, id ∉ reserved)
    {target : Target} {right : Expr} (hbound : ∀ id ∈ target.bound, id ∉ reserved)
    (h : Executes code (.augment target right) before after) :
    before.Spares reserved name [] [] after := by
  generalize hs : Statement.augment target right = s at h
  induction h generalizing target with
  | declare | assign | delete => cases hs
  | @extendList id _ texts memory other hid _ =>
    cases hs
    have hfree : id ∉ reserved := hbound id (by simp [Target.bound])
    refine ⟨rfl, fun address hguards _ => ?_⟩
    -- the list that takes the strings in is another one
    have hne : address ≠ other := by
      rintro rfl
      exact hguards.names id hfree _ hid .list
    refine ⟨⟨hguards.bound, fun cell value hvalue => ?_, hguards.names⟩, if_neg hne, nofun⟩
    rw [Memory.cells_store] at hvalue
    split at hvalue
    · rcases List.mem_append.mp hvalue with hold | hnew
      · exact hguards.cells other value hold
      · obtain ⟨s, -, rfl⟩ := List.mem_map.mp hnew
        exact Value.not_holds_text
    · exact hguards.cells cell value hvalue
  | @extendTuple id _ texts memory values hid _ =>
    cases hs
    have hfree : id ∉ reserved := hbound id (by simp [Target.bound])
    refine Memory.Spares.ungiven (.bind (fun heq => hfree (heq ▸ hname)) (List.mem_singleton_self _))
      fun address hguards value hvalue hholds => ?_
    rw [List.mem_singleton.mp hvalue] at hholds
    cases hholds with
    | item hmem hinner =>
      rcases List.mem_append.mp hmem with hold | hnew
      · exact hguards.names id hfree _ hid (.item hold hinner)
      · obtain ⟨s, -, rfl⟩ := List.mem_map.mp hnew
        exact Value.not_holds_text hinner
  | @augmentName id _ old value memory between hid _ htouches =>
    cases hs
    have hfree : id ∉ reserved := hbound id (by simp [Target.bound])
    refine Memory.Spares.ungiven ((htouches.spares hname hcode).trans
      (.bind (fun heq => hfree (heq ▸ hname)) (by simp))) fun address hguards found hfound => ?_
    rw [List.mem_singleton.mp hfound]
    exact hguards.names id hfree _ hid
  | augmentPlace htouches => exact htouches.spares hname hcode
  | augmentGroup _ ih =>
    cases hs
    exact ih (fun id hid => hbound id (by simpa [Target.bound, boundByTargets] using hid)) rfl

theorem Executes.delete_spares (hname : name ∈ reserved) (hcode : ∀ id ∈ code, id ∉ reserved)
    {targets : List Expr} (hdeleted : name ∉ Scope.deletedNames targets)
    (h : Executes code (.delete targets) before after) :
    before.Spares reserved name [] [] after := by
  cases h with
  | delete hremoves => exact removesAll_spares hname hcode targets hdeleted hremoves

end ApiStubs.Python
