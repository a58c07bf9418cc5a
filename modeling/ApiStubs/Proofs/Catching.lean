import ApiStubs.Proofs.Mentioning
import ApiStubs.Python.Loader

/-!
# Proofs — Catching — which handlers catch a failed import

What stands between the keyword and the colon of a handler names the exceptions that it handles:
a name does, alone or in parentheses, and so does a tuple with each of its items.  An attribute, a
call and the alias behind an expression name none, whatever identifiers are written there.  A
handler without an exception handles all of them.

The replay does not ask what is named.  It takes a handler for one that catches a failed import as
soon as an import error is mentioned anywhere in it, and a handler that has a continued line in
place of its exception for one that mentions none.  So a handler that names no import error may be
replayed and a bare one may be passed over: `Scope.handler_catches` says when.
-/

namespace ApiStubs.Python

/-! ### What an expression names -/

namespace Expr

/-- The exceptions of a handler are written like this: names, attributes and calls, in parentheses
and tuples of any depth. -/
inductive IsException : Expr → Prop
  | name (id : String) : IsException (.name id)
  | access (object : Expr) (member : String) : IsException (.attribute object member)
  | call (callee : Expr) (arguments : List Expr) : IsException (.call callee arguments)
  | group {remarked : Bool} {inner : Expr} : IsException inner → IsException (.group remarked inner)
  | tuple {broken : Bool} {items : List Expr} :
    (∀ item ∈ items, IsException item) → IsException (.tuple broken items)

/-- A handler of the expression handles the exception of the name. -/
inductive Names (word : String) : Expr → Prop
  | name : Names word (.name word)
  | group {remarked : Bool} {inner : Expr} : Names word inner → Names word (.group remarked inner)
  | item {broken : Bool} {items : List Expr} {item : Expr} :
    item ∈ items → Names word item → Names word (.tuple broken items)

/-- The identifier is written in an attribute or a call. -/
inductive Buries (word : String) : Expr → Prop
  | object {object : Expr} {member : String} :
    object.Mentions word → Buries word (.attribute object member)
  | member {object : Expr} : Buries word (.attribute object word)
  | callee {callee : Expr} {arguments : List Expr} :
    callee.Mentions word → Buries word (.call callee arguments)
  | argument {callee argument : Expr} {arguments : List Expr} :
    argument ∈ arguments → argument.Mentions word → Buries word (.call callee arguments)
  | group {remarked : Bool} {inner : Expr} : Buries word inner → Buries word (.group remarked inner)
  | item {broken : Bool} {items : List Expr} {item : Expr} :
    item ∈ items → Buries word item → Buries word (.tuple broken items)

section

variable {word id member : String} {object callee inner : Expr} {arguments items : List Expr}
variable {remarked broken : Bool}

@[simp] theorem names_name : (Expr.name id).Names word ↔ word = id :=
  ⟨fun h => by cases h; rfl, fun h => h ▸ .name⟩

@[simp] theorem not_names_attribute : ¬ (Expr.attribute object member).Names word := nofun

@[simp] theorem not_names_call : ¬ (Expr.call callee arguments).Names word := nofun

@[simp] theorem names_group : (Expr.group remarked inner).Names word ↔ inner.Names word :=
  ⟨fun h => by cases h; assumption, .group⟩

@[simp] theorem names_tuple :
    (Expr.tuple broken items).Names word ↔ ∃ item ∈ items, item.Names word :=
  ⟨fun h => by cases h; exact ⟨_, ‹_›, ‹_›⟩, fun ⟨_, hitem, h⟩ => .item hitem h⟩

@[simp] theorem not_buries_name : ¬ (Expr.name id).Buries word := nofun

@[simp] theorem buries_attribute :
    (Expr.attribute object member).Buries word ↔ object.Mentions word ∨ word = member := by
  constructor
  · rintro (hobject | _)
    · exact .inl hobject
    · exact .inr rfl
  · rintro (hobject | rfl)
    · exact .object hobject
    · exact .member

@[simp] theorem buries_call :
    (Expr.call callee arguments).Buries word ↔ callee.Mentions word ∨ Mentioned arguments word := by
  rw [mentioned_iff]
  constructor
  · rintro (_ | _ | hcallee | ⟨hmem, hargument⟩)
    · exact .inl hcallee
    · exact .inr ⟨_, hmem, hargument⟩
  · rintro (hcallee | ⟨argument, hmem, hargument⟩)
    · exact .callee hcallee
    · exact .argument hmem hargument

@[simp] theorem buries_group : (Expr.group remarked inner).Buries word ↔ inner.Buries word :=
  ⟨fun h => by cases h; assumption, .group⟩

@[simp] theorem buries_tuple :
    (Expr.tuple broken items).Buries word ↔ ∃ item ∈ items, item.Buries word :=
  ⟨fun h => by cases h; exact ⟨_, ‹_›, ‹_›⟩, fun ⟨_, hitem, h⟩ => .item hitem h⟩

end

/-- **An identifier is mentioned** where it names an exception or in an attribute or a call, and
nowhere else. -/
theorem IsException.mentions_iff {e : Expr} (h : e.IsException) (word : String) :
    e.Mentions word ↔ e.Names word ∨ e.Buries word := by
  induction h with
  | name id => simp
  | access object member => simp
  | call callee arguments => simp
  | group _ ih => simpa using ih
  | @tuple broken items _ ih =>
    rw [mentions_tuple, mentioned_iff, names_tuple, buries_tuple]
    constructor
    · rintro ⟨item, hitem, hmentions⟩
      exact ((ih item hitem).mp hmentions).imp (⟨item, hitem, ·⟩) (⟨item, hitem, ·⟩)
    · rintro (⟨item, hitem, hnames⟩ | ⟨item, hitem, hburies⟩)
      · exact ⟨item, hitem, (ih item hitem).mpr (.inl hnames)⟩
      · exact ⟨item, hitem, (ih item hitem).mpr (.inr hburies)⟩

end Expr

/-! ### The exceptions of a handler -/

/-- What stands between the keyword and the colon of a handler. -/
inductive ExceptPart
  /-- No exception; a line may be continued there. -/
  | absent (continued : Bool)
  | given (e : Expr)
  | aliased (e : Expr) (other : String)

namespace ExceptPart

/-- How it is read. -/
def head : ExceptPart → HandlerHead
  | absent false => ⟨false, []⟩
  | absent true => ⟨false, [.compound []]⟩
  | given e => ⟨false, [e]⟩
  | aliased e other => ⟨false, [.compound [e, .name other]]⟩

/-- The expression, if there is one, is written as exceptions are. -/
def IsWritten : ExceptPart → Prop
  | absent _ => True
  | given e | aliased e _ => e.IsException

/-- A handler of this handles a failed import: it has no exception, or names one of those that a
failed import is. -/
def Catches : ExceptPart → Prop
  | absent _ => True
  | given e | aliased e _ => ∃ word ∈ Scope.importErrors, e.Names word

/-- The identifier is the alias or written in an attribute or a call. -/
inductive Hides (word : String) : ExceptPart → Prop
  | given {e : Expr} : e.Buries word → Hides word (given e)
  | aliased {e : Expr} {other : String} : e.Buries word → Hides word (aliased e other)
  | bound {e : Expr} : Hides word (aliased e word)

section

variable {e : Expr} {word other : String}

@[simp] theorem not_hides_absent {continued : Bool} : ¬ (absent continued).Hides word := nofun

@[simp] theorem hides_given : (given e).Hides word ↔ e.Buries word :=
  ⟨fun h => by cases h; assumption, .given⟩

@[simp] theorem hides_aliased : (aliased e other).Hides word ↔ e.Buries word ∨ word = other := by
  constructor
  · rintro (_ | hburies | _)
    · exact .inl hburies
    · exact .inr rfl
  · rintro (hburies | rfl)
    · exact .aliased hburies
    · exact .bound

end

end ExceptPart

namespace Scope

theorem catches_iff {group : Bool} {caught : List Expr} :
    catchesImportFailure ⟨group, caught⟩ = true
      ↔ group = false ∧ (caught = [] ∨ ∃ word ∈ importErrors, Mentioned caught word) := by
  rw [catchesImportFailure, Bool.and_eq_true, Bool.or_eq_true, Bool.not_eq_true',
    List.isEmpty_iff, List.any_eq_true]
  simp only [decide_eq_true_eq, and_comm, Mentioned]

/-- A handler is taken for one that catches a failed import if it is one, or if an import error is
written in it where it names no exception; but for a continued line. -/
theorem catches_head {part : ExceptPart} (h : part.IsWritten) :
    catchesImportFailure part.head = true
      ↔ (part.Catches ∧ part ≠ .absent true) ∨ ∃ word ∈ importErrors, part.Hides word := by
  cases part with
  | absent continued => cases continued <;> simp [ExceptPart.head, ExceptPart.Catches, catches_iff]
  | given e =>
    simp only [ExceptPart.head, catches_iff, ExceptPart.Catches, mentioned_cons, mentioned_nil,
      or_false, h.mentions_iff, ExceptPart.hides_given]
    simp [and_or_left, exists_or]
  | aliased e other =>
    simp only [ExceptPart.head, catches_iff, ExceptPart.Catches, mentioned_cons, mentioned_nil,
      or_false, Expr.mentions_compound, Expr.mentions_name, h.mentions_iff,
      ExceptPart.hides_aliased]
    simp [and_or_left, exists_or, or_assoc]

/-- **Which handlers catch a failed import.**  A handler that does is taken for one, unless a line
is continued in place of its exception; and so is a handler that has an import error as its alias or
in an attribute or a call.  It is taken for what it is, then, if and only if no such line stands
there and it catches a failed import anyway or hides no import error.  If it is taken for one that
catches, its block is replayed, and else the handlers behind it are asked. -/
theorem handler_catches {part : ExceptPart} (h : part.IsWritten) :
    (catchesImportFailure part.head = true
      ↔ (part.Catches ∧ part ≠ .absent true) ∨ ∃ word ∈ importErrors, part.Hides word) ∧
    ((catchesImportFailure part.head = true ↔ part.Catches)
      ↔ part ≠ .absent true ∧ (part.Catches ∨ ∀ word ∈ importErrors, ¬ part.Hides word)) ∧
    ∀ (scope : Scope) (failure : ImportFailure) (body : List Statement) (rest : List Handler),
      (part.Catches ∧ part ≠ .absent true ∨ (∃ word ∈ importErrors, part.Hides word) →
        scope.replayHandler failure (.mk part.head body :: rest) = scope.replayAll body) ∧
      (¬ (part.Catches ∧ part ≠ .absent true) → (∀ word ∈ importErrors, ¬ part.Hides word) →
        scope.replayHandler failure (.mk part.head body :: rest)
          = scope.replayHandler failure rest) := by
  have hcatches := catches_head h
  refine ⟨hcatches, ?_, fun scope failure body rest => ⟨fun hcaught => ?_, fun hnot hhidden => ?_⟩⟩
  · rw [hcatches]
    by_cases hjoined : part = .absent true
    · subst hjoined
      simp [ExceptPart.Catches]
    · by_cases hnamed : part.Catches
      · simp [hjoined, hnamed]
      · simp [hjoined, hnamed]
  · rw [replayHandler, if_pos (hcatches.mpr hcaught)]
  · have hpassed : ¬ catchesImportFailure part.head = true := fun hcaught =>
      (hcatches.mp hcaught).elim hnot fun ⟨word, hword, hhides⟩ => hhidden word hword hhides
    rw [replayHandler, if_neg hpassed]

/-- A tuple with an import error in it catches a failed import, whatever the alias. -/
theorem handler_catches_nested : catchesImportFailure
    (ExceptPart.aliased (.tuple false [.name "KeyError", .group false (.name "ImportError")])
      "reason").head = true := by
  have hpair : ∀ item ∈ [Expr.name "KeyError", .group false (.name "ImportError")],
      item.IsException := by
    simpa using ⟨.name "KeyError", .group (.name "ImportError")⟩
  have hwritten : (ExceptPart.aliased
      (.tuple false [.name "KeyError", .group false (.name "ImportError")]) "reason").IsWritten :=
    .tuple hpair
  refine (handler_catches hwritten).1.mpr (.inl ⟨⟨"ImportError", by decide, ?_⟩, nofun⟩)
  simp

end Scope

/-! ### Handlers that are misread -/

/-- Modules with an import that fails, and a handler of their own each: an import error is the
alias, the member of an attribute, the object of one, what is called, or an argument; and no
exception at all, where a line is continued. -/
def misread : Disk where
  entries := [
    (["bound.py"], .file (.text
      "try:\n from .gone import x\nexcept KeyError as ImportError:\n done = 1\n")),
    (["member.py"], .file (.text
      "try:\n from .gone import x\nexcept kinds.ImportError:\n done = 1\n")),
    (["object.py"], .file (.text
      "try:\n from .gone import x\nexcept Exception.kind:\n done = 1\n")),
    (["called.py"], .file (.text
      "try:\n from .gone import x\nexcept Exception():\n done = 1\n")),
    (["argument.py"], .file (.text
      "try:\n from .gone import x\nexcept kinds(ImportError):\n done = 1\n")),
    (["continued.py"], .file (.text
      "try:\n from .gone import x\nexcept \\\n:\n done = 1\n"))]
  workingDirectory := []

/-- The handlers that name no import error catch a failed one, and the one without an exception does
not. -/
theorem misread_handlers :
    ¬ (Scope.catchesImportFailure (ExceptPart.aliased (.name "KeyError") "ImportError").head = true
      ↔ (ExceptPart.aliased (.name "KeyError") "ImportError").Catches) ∧
    (["bound", "member", "object", "called", "argument", "continued"].map fun name =>
      (Importer.load misread name ({ searchRoot := ⟨"."⟩ } : Loader)).1.map fun table =>
        (table.find? "done").isSome)
      = [.ok true, .ok true, .ok true, .ok true, .ok true,
        .error ⟨"continued", .beyondTopLevel⟩] := by
  refine ⟨fun hagrees => ?_, by decide +kernel⟩
  obtain ⟨word, hword, hnames⟩ := hagrees.mp (by decide)
  rw [Expr.names_name] at hnames
  subst hnames
  exact absurd hword (by decide)

end ApiStubs.Python
