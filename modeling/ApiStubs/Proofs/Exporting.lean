import ApiStubs.Proofs.Executing
import ApiStubs.Python.Source
import Mathlib.Data.List.TakeWhile

/-!
# Proofs — Exporting — the export list and `__all__`

A table keeps its export list beside its bindings.  Assigning a literal list of strings to
`__all__` sets the one and binds the other, and adding one extends the list; everything else that
becomes of `__all__` changes the binding alone, or neither.

`Exporting.orderly_exports`: in a straight line of statements in which nothing else becomes of
`__all__` once it has been assigned for the last time (`Orderly`), the two agree, and the list is
the one that Python has.
-/

namespace ApiStubs.Python

/-! ### Literals are read as Python reads them -/

/-- Marks around a text that has none in it are dropped, and nothing else. -/
theorem dropWhile_around {α : Type} {p : α → Bool} {marks inner : List α}
    (hmarks : ∀ a ∈ marks, p a) (hinner : ∀ a ∈ inner, p a = false) :
    (((marks ++ inner ++ marks).dropWhile p).reverse.dropWhile p).reverse = inner := by
  have hself : ∀ list : List α, (∀ a ∈ list, p a = false) → list.dropWhile p = list := by
    intro list hlist
    cases list with
    | nil => rfl
    | cons a rest => exact List.dropWhile_cons_of_neg (by simp [hlist a (by simp)])
  cases inner with
  | nil =>
    rw [List.append_nil, List.dropWhile_append_of_pos hmarks, List.dropWhile_eq_nil_iff.mpr hmarks]
    rfl
  | cons a rest =>
    have hfront : (marks ++ a :: rest ++ marks).dropWhile p = a :: rest ++ marks := by
      rw [List.append_assoc, List.dropWhile_append_of_pos hmarks, List.cons_append]
      exact List.dropWhile_cons_of_neg (by simp [hinner a (by simp)])
    rw [hfront, List.reverse_append, List.dropWhile_append_of_pos fun b hb => hmarks b (by simpa using hb),
      hself _ fun b hb => hinner b (by simpa [or_comm] using hb), List.reverse_reverse]

/-- A literal of plain characters loses its marker and its quotes, and nothing of its text. -/
theorem Expr.Shows.unquote {marker quotes text : String}
    (hmarker : marker ∈ ["", "r", "R", "u", "U"]) (hquotes : quotes ∈ ["'", "\"", "'''", "\"\"\""])
    (hplain : ∀ c ∈ text.toList, c ≠ '"' ∧ c ≠ '\'' ∧ c ≠ '\\') :
    Scope.unquote (marker ++ quotes ++ text ++ quotes) = text := by
  have hletters : (marker.toList ++ (quotes.toList ++ text.toList ++ quotes.toList)).dropWhile
      Char.isAlpha = quotes.toList ++ text.toList ++ quotes.toList := by
    simp only [List.mem_cons, List.not_mem_nil, or_false] at hmarker hquotes
    obtain rfl | rfl | rfl | rfl | rfl := hmarker <;> obtain rfl | rfl | rfl | rfl := hquotes <;>
      simp [List.dropWhile]
  have hmarks : ∀ c ∈ quotes.toList, (decide (c = '"') || decide (c = '\'')) = true := by
    simp only [List.mem_cons, List.not_mem_nil, or_false] at hquotes
    obtain rfl | rfl | rfl | rfl := hquotes <;> simp
  have htext : ∀ c ∈ text.toList, (decide (c = '"') || decide (c = '\'')) = false := by
    intro c hc
    simp [(hplain c hc).1, (hplain c hc).2.1]
  simp only [Scope.unquote, String.toList_append, List.append_assoc] at hletters ⊢
  rw [hletters, ← List.append_assoc, dropWhile_around hmarks htext, String.ofList_toList]

theorem Expr.Shows.literals? {items : List Expr} {texts : List String}
    (h : List.Forall₂ Shows items texts) : Scope.literals? items = some texts := by
  induction h with
  | nil => rfl
  | cons hshows _ ih =>
    cases hshows with
    | string hmarker hquotes hplain =>
      rw [Scope.literals?, ih, Shows.unquote hmarker hquotes hplain]
      rfl

theorem Expr.Displays.exportList? {e : Expr} {texts : List String} (h : e.Displays texts) :
    Scope.exportList? e = some texts := by
  cases h with
  | list hshows | tuple hshows => exact Shows.literals? hshows

end ApiStubs.Python

/-! ### Tables and memories -/

namespace ApiStubs.SymbolTable

/-- The table has the export list, and binds `__all__` if it has one. -/
structure Declares (table : SymbolTable) (exports? : Option (List String)) : Prop where
  exports : table.exports? = exports?
  bound : (table.find? "__all__").isSome = exports?.isSome

theorem Declares.bind {table : SymbolTable} {texts : List String}
    (h : table.Declares (some texts)) (name : String) (binding : Binding) :
    (table.bind name binding).Declares (some texts) := by
  refine ⟨h.exports, ?_⟩
  rw [find?_bind]
  split
  · rfl
  · exact h.bound

end ApiStubs.SymbolTable

namespace ApiStubs.Python

namespace Memory

/-- Python has a list of strings as `__all__`, or a tuple of strings. -/
inductive Has (memory : Memory) (texts : List String) : Prop where
  | tuple : memory.names "__all__" = some (.tuple (texts.map .text)) → Has memory texts
  | list {address : Nat} : memory.names "__all__" = some (.list address) →
      memory.cells address = texts.map .text → Has memory texts

/-- Python has such a list as `__all__`, which is guarded, or such a tuple; or `__all__` is not
bound. -/
inductive Exports (reserved : List String) (memory : Memory) : Option (List String) → Prop where
  | unbound : memory.names "__all__" = none → Exports reserved memory none
  | tuple {texts : List String} : memory.names "__all__" = some (.tuple (texts.map .text)) →
      Exports reserved memory (some texts)
  | list {texts : List String} {address : Nat} : memory.Guards reserved "__all__" address →
      memory.cells address = texts.map .text → Exports reserved memory (some texts)

variable {memory after : Memory} {reserved : List String} {exports? : Option (List String)}

theorem Exports.spared (h : memory.Exports reserved exports?)
    (hspares : memory.Spares reserved "__all__" [] [] after) : after.Exports reserved exports? := by
  cases h with
  | unbound hnone => exact .unbound (hspares.bound.trans hnone)
  | tuple hsome => exact .tuple (hspares.bound.trans hsome)
  | list hguards hcells =>
    obtain ⟨hafter, hsame, -⟩ := hspares.guards _ hguards nofun
    exact .list hafter (hsame.trans hcells)

/-- A value is one list of strings only. -/
theorem Has.unique {texts others : List String} (h : memory.Has texts) (h' : memory.Has others) :
    texts = others := by
  have hinj : Function.Injective Value.text := fun _ _ h => Value.text.inj h
  cases h with
  | tuple hbound =>
    cases h' with
    | tuple hbound' =>
      rw [hbound, Option.some.injEq, Value.tuple.injEq] at hbound'
      exact List.map_injective_iff.mpr hinj hbound'
    | list hbound' _ =>
      rw [hbound] at hbound'
      cases hbound'
  | list hbound hcells =>
    cases h' with
    | tuple hbound' =>
      rw [hbound] at hbound'
      cases hbound'
    | list hbound' hcells' =>
      rw [hbound, Option.some.injEq, Value.list.injEq] at hbound'
      rw [← hbound', hcells] at hcells'
      exact List.map_injective_iff.mpr hinj hcells'

/-- The exports that are known are those that the memory has. -/
theorem Exports.has (h : memory.Exports reserved exports?) (texts : List String) :
    exports? = some texts ↔ memory.Has texts := by
  cases h with
  | unbound hnone =>
    refine ⟨nofun, fun hhas => ?_⟩
    cases hhas with
    | tuple hbound | list hbound _ =>
      rw [hnone] at hbound
      cases hbound
  | tuple hbound =>
    exact ⟨fun heq => .tuple (by rw [hbound, Option.some.inj heq]),
      fun hhas => congrArg some (Has.unique (.tuple hbound) hhas)⟩
  | list hguards hcells =>
    exact ⟨fun heq => .list hguards.bound (by rw [hcells, Option.some.inj heq]),
      fun hhas => congrArg some (Has.unique (.list hguards.bound hcells) hhas)⟩

theorem Exports.isSome (h : memory.Exports reserved exports?) :
    exports?.isSome = (memory.names "__all__").isSome := by
  cases h with
  | unbound hnone => rw [hnone]; rfl
  | tuple hbound => rw [hbound]; rfl
  | list hguards _ => rw [hguards.bound]; rfl

end Memory

/-! ### What becomes of `__all__` -/

/-- A literal list of strings is assigned to `__all__`, and then to other names: the last target,
right in front of the list, is `__all__`. -/
inductive Assignment.Exports : Assignment → List String → List String → Prop where
  | value {right : Expr} {texts : List String} :
      right.Displays texts → Exports (.value (.name "__all__") right) ["__all__"] texts
  | chain {id : String} {a : Assignment} {names texts : List String} :
      Exports a names texts → Exports (.chain (.name id) a) (id :: names) texts

/-- Nothing becomes of `__all__`, and of the names beside it, but that a literal list of strings is
added. -/
inductive Statement.Extends (reserved : List String) : Statement → List String → Prop where
  | assign {a : Assignment} : "__all__" ∉ a.bound → Extends reserved (.assign a) []
  | extend {right : Expr} {texts : List String} :
      right.Displays texts → Extends reserved (.augment (.name "__all__") right) texts
  | augment {target : Target} {right : Expr} :
      (∀ name ∈ target.bound, name ∉ reserved) → Extends reserved (.augment target right) []
  | delete {targets : List Expr} :
      "__all__" ∉ Scope.deletedNames targets → Extends reserved (.delete targets) []

/-- The statement is an assignment, an augmented assignment or a deletion. -/
def Statement.isStraight : Statement → Bool
  | .assign _ | .augment _ _ | .delete _ => true
  | _ => false

theorem Statement.isQuiet_of_isStraight {s : Statement} (h : s.isStraight) : s.isQuiet := by
  cases s <;> first | rfl | cases h

theorem Statement.Extends.isStraight {reserved texts : List String} {s : Statement}
    (h : s.Extends reserved texts) : s.isStraight := by
  cases h <;> rfl

/-! ### What a table makes of it -/

/-- The change leaves the export list alone, and what `__all__` is bound to. -/
def SparesExports (change : Change) : Prop := ∀ table : SymbolTable,
  (change table).exports? = table.exports? ∧ (change table).find? "__all__" = table.find? "__all__"

theorem sparesExports_bind {name : String} (h : name ≠ "__all__") (binding : Binding) :
    SparesExports fun table => table.bind name binding :=
  fun table => ⟨rfl, by rw [SymbolTable.find?_bind, if_neg h.symm]⟩

theorem sparesExports_unbind {name : String} (h : name ≠ "__all__") :
    SparesExports fun table => table.unbind name :=
  fun table => ⟨rfl, by rw [SymbolTable.find?_unbind, if_neg h.symm]⟩

mutual

/-- A target that does not bind `__all__` leaves the declared exports alone. -/
theorem Target.sparesExports (binding : Binding) : ∀ target : Target, "__all__" ∉ target.bound →
    ∀ change ∈ target.changes binding, SparesExports change
  | .name id, hbound, change, hmem => by
    rw [Target.changes, List.mem_singleton] at hmem
    rw [Target.bound, List.mem_singleton] at hbound
    exact hmem ▸ sparesExports_bind (Ne.symm hbound) binding
  | .sequence items, hbound, change, hmem => by
    rw [Target.changes] at hmem
    rw [Target.bound] at hbound
    exact sparesExports_of_targets items hbound change hmem
  | .place _, _, change, hmem | .star _, _, change, hmem => by
    rw [Target.changes] at hmem
    cases hmem

theorem sparesExports_of_targets : ∀ targets : List Target, "__all__" ∉ boundByTargets targets →
    ∀ change ∈ changesOfTargets targets, SparesExports change
  | [], _, change, hmem => by
    rw [changesOfTargets] at hmem
    cases hmem
  | target :: rest, hbound, change, hmem => by
    rw [changesOfTargets, List.mem_append] at hmem
    rw [boundByTargets, List.mem_append, not_or] at hbound
    rcases hmem with hfirst | hrest
    · exact target.sparesExports .plainValue hbound.1 change hfirst
    · exact sparesExports_of_targets rest hbound.2 change hrest

end

/-- An assignment that does not bind `__all__` leaves the declared exports alone. -/
theorem Assignment.sparesExports {binding : Binding} {a : Assignment} (hbound : "__all__" ∉ a.bound) :
    ∀ change ∈ a.changes binding, SparesExports change := by
  induction a with
  | declare target => nofun
  | value target right =>
    intro change hmem
    have hexports : exportChanges .setExports target right = [] :=
      exportChanges_eq_nil fun _ htarget _ => hbound (by rw [htarget]; simp [bound, Target.bound])
    rw [changes, hexports, List.nil_append] at hmem
    exact target.sparesExports binding hbound change hmem
  | chain target right ih =>
    intro change hmem
    rw [bound, List.mem_append, not_or] at hbound
    rw [changes, List.mem_append] at hmem
    rcases hmem with hright | htarget
    · exact ih hbound.2 change hright
    · exact target.sparesExports binding hbound.1 change htarget

theorem declares_of_spares {changes : List Change} {exports? : Option (List String)}
    (h : ∀ change ∈ changes, SparesExports change) {table : SymbolTable}
    (htable : table.Declares exports?) :
    (changes.foldl (fun t change => change t) table).Declares exports? := by
  induction changes generalizing table with
  | nil => exact htable
  | cons change rest ih =>
    obtain ⟨hchange, hrest⟩ := List.forall_mem_cons.mp h
    obtain ⟨hexports, hfind⟩ := hchange table
    exact ih hrest ⟨hexports.trans htable.exports, by rw [hfind, htable.bound]⟩

/-- The assignment declares the exports, whatever the table was. -/
theorem Assignment.Exports.declares {a : Assignment} {names texts : List String}
    (h : a.Exports names texts) (binding : Binding) (table : SymbolTable) :
    ((a.changes binding).foldl (fun t change => change t) table).Declares (some texts) := by
  induction h with
  | @value right texts hdisplays =>
    have hexports : exportChanges .setExports (.name "__all__") right
        = [fun table => table.setExports texts] := by
      simp only [exportChanges, hdisplays.exportList?]
    rw [changes, hexports, Target.changes]
    refine ⟨rfl, ?_⟩
    simp
  | chain _ ih =>
    rw [changes, List.foldl_append, Target.changes]
    exact ih.bind _ binding

namespace Scope

variable (scope : Scope) {cache : Cache} {table : SymbolTable}

/-- The changes that a quiet statement makes all arrive. -/
theorem replay_present {s : Statement} (hquiet : s.isQuiet) {made : List Change}
    (hmade : scope.changes s cache = (.ok made, cache))
    (hown : cache.loading.find? scope.module = some table) :
    scope.replay s cache
      = (.ok (), cache.put scope.module (made.foldl (fun t change => change t) table)) := by
  rw [replay_eq_changes scope hquiet, Importing.run_bind_ok hmade, scope.write_present made hown]

/-- The changes of an assignment are those that its value makes. -/
theorem run_changes_assigned {a : Assignment} {right : Expr} (h : a.assigned? = some right)
    {value : Binding} (hvalue : scope.evaluate right cache = (.ok value, cache)) :
    scope.changes (.assign a) cache = (.ok (a.changes value), cache) := by
  rw [changes, h]
  simp only [Importing.run_bind_ok hvalue, Importing.run_pure]

theorem run_changes_assign {a : Assignment} {right : Expr} (h : a.assigned? = some right)
    (cache : Cache) :
    ∃ binding, scope.changes (.assign a) cache = (.ok (a.changes binding), cache) := by
  obtain ⟨binding, hvalue⟩ := scope.run_evaluate right cache
  exact ⟨binding, scope.run_changes_assigned h hvalue⟩

/-- A statement of a straight line is replayed without failing. -/
theorem replay_straight {s : Statement} (h : s.isStraight)
    (hown : cache.loading.find? scope.module = some table) :
    ∃ after, scope.replay s cache = (.ok (), cache.put scope.module after) := by
  obtain ⟨made, hmade⟩ := scope.run_changes s cache
  exact ⟨_, scope.replay_present (Statement.isQuiet_of_isStraight h) hmade hown⟩

end Scope

/-! ### From a statement to a run -/

namespace Assignment.Exports

variable {code names texts : List String} {a : Assignment} {value : Value}
variable {memory after : Memory}

theorem assigned (h : a.Exports names texts) :
    ∃ right, a.assigned? = some right ∧ right.Displays texts := by
  induction h with
  | @value right _ hdisplays => exact ⟨right, rfl, hdisplays⟩
  | chain _ ih => exact ih

/-- The value goes to the names in turn, `__all__` being the last of them. -/
theorem stores (h : a.Exports names texts) (hstores : a.Stores code value memory after) :
    after.names "__all__" = some value ∧ after.cells = memory.cells
      ∧ ∀ other ∉ names, after.names other = memory.names other := by
  induction h generalizing memory with
  | value _ =>
    rw [Assignment.Stores, Python.Stores] at hstores
    rw [hstores]
    exact ⟨by simp, rfl, fun other hother => if_neg (by simpa using hother)⟩
  | chain _ ih =>
    obtain ⟨between, hfirst, hrest⟩ := hstores
    rw [Python.Stores] at hfirst
    obtain ⟨hvalue, hcells, hnames⟩ := ih hrest
    rw [hfirst] at hcells hnames
    refine ⟨hvalue, hcells, fun other hother => ?_⟩
    rw [List.mem_cons, not_or] at hother
    exact (hnames other hother.2).trans (if_neg hother.1)

/-- The assignment leaves Python with the list, and only its names hold it. -/
theorem executes (h : a.Exports names texts)
    (hrun : Executes code (.assign a) memory after) : after.Exports names (some texts) := by
  obtain ⟨right, hright, hdisplays⟩ := h.assigned
  cases hrun with
  | declare hnone => cases hnone.symm.trans hright
  | @assign _ right' value _ between _ hright' hvalue hstores =>
    obtain rfl := Option.some.inj (hright'.symm.trans hright)
    obtain ⟨hbound, hcells, hnames⟩ := h.stores hstores
    cases hvalue with
    | @list items shown _ address hshows hfresh =>
      obtain rfl : shown = texts :=
        Option.some.inj ((Expr.Displays.list hshows).exportList?.symm.trans hdisplays.exportList?)
      refine .list ⟨hbound, fun other found hfound => ?_, fun other hother found hfound => ?_⟩ ?_
      · rw [hcells, Memory.cells_store] at hfound
        split at hfound
        · obtain ⟨s, -, rfl⟩ := List.mem_map.mp hfound
          exact Value.not_holds_text
        · exact (hfresh []).cells other found hfound
      · rw [hnames other hother] at hfound
        exact (hfresh [other]).names other (by simp) found hfound
      · rw [hcells, Memory.cells_store, if_pos rfl]
    | @tuple items shown _ hshows =>
      obtain rfl : shown = texts :=
        Option.some.inj ((Expr.Displays.tuple hshows).exportList?.symm.trans hdisplays.exportList?)
      exact .tuple hbound
    | other hnot _ => exact absurd hdisplays (hnot texts)

end Assignment.Exports

namespace Statement.Extends

variable {code reserved texts : List String} {s : Statement} {memory after : Memory}
variable {exports? : Option (List String)}

/-- Python's list is extended, unless `__all__` is not bound. -/
theorem executes (hcode : ∀ id ∈ code, id ∉ reserved) (hreserved : "__all__" ∈ reserved)
    (h : s.Extends reserved texts) (hmemory : memory.Exports reserved exports?)
    (hrun : Executes code s memory after) :
    after.Exports reserved (exports?.map (· ++ texts)) := by
  have hsame : exports?.map (· ++ []) = exports? := by cases exports? <;> simp
  cases h with
  | assign hbound =>
    rw [hsame]
    exact hmemory.spared (hrun.assign_spares hreserved hcode hbound)
  | augment hbound =>
    rw [hsame]
    exact hmemory.spared (hrun.augment_spares hreserved hcode hbound)
  | delete hdeleted =>
    rw [hsame]
    exact hmemory.spared (hrun.delete_spares hreserved hcode hdeleted)
  | @extend right _ hdisplays =>
    cases hrun with
    | @extendList _ _ shown _ address hbound hshows =>
      obtain rfl : shown = texts :=
        Option.some.inj (hshows.exportList?.symm.trans hdisplays.exportList?)
      cases hmemory with
      | unbound hnone => cases hnone.symm.trans hbound
      | tuple htuple => cases htuple.symm.trans hbound
      | @list _ guarded hguards hcells =>
        obtain rfl : guarded = address := by simpa using hguards.bound.symm.trans hbound
        refine .list ⟨hguards.bound, fun other found hfound => ?_, hguards.names⟩ ?_
        · rw [Memory.cells_store] at hfound
          split at hfound
          · rcases List.mem_append.mp hfound with hold | hnew
            · exact hguards.cells _ found hold
            · obtain ⟨s, -, rfl⟩ := List.mem_map.mp hnew
              exact Value.not_holds_text
          · exact hguards.cells other found hfound
        · rw [Memory.cells_store, if_pos rfl, hcells, List.map_append]
    | @extendTuple _ items shown _ values hbound hshows =>
      obtain rfl : shown = texts :=
        Option.some.inj ((Expr.Displays.tuple hshows).exportList?.symm.trans hdisplays.exportList?)
      cases hmemory with
      | unbound hnone => cases hnone.symm.trans hbound
      | list hguards _ => cases hguards.bound.symm.trans hbound
      | tuple htuple =>
        obtain rfl : _ = values := by simpa using htuple.symm.trans hbound
        refine .tuple ?_
        rw [Memory.names_bind, if_pos rfl, List.map_append]
    | augmentName hbound hnot _ =>
      -- what is extended here is neither a list nor a tuple
      cases hmemory with
      | unbound hnone => cases hnone.symm.trans hbound
      | tuple htuple =>
        cases htuple.symm.trans hbound
        exact absurd hdisplays (hnot rfl texts)
      | list hguards _ =>
        cases hguards.bound.symm.trans hbound
        exact absurd hdisplays (hnot rfl texts)

/-- The table's list is extended, unless it declares none. -/
theorem replays {scope : Scope} {cache : Cache} {table : SymbolTable}
    (hreserved : "__all__" ∈ reserved) (h : s.Extends reserved texts) (hmemory : memory.Exports reserved exports?)
    (hrun : Executes code s memory after) (htable : table.Declares exports?)
    (hown : cache.loading.find? scope.module = some table) :
    ∃ next, scope.replay s cache = (.ok (), cache.put scope.module next)
      ∧ next.Declares (exports?.map (· ++ texts)) := by
  have hsame : exports?.map (· ++ []) = exports? := by cases exports? <;> simp
  have hquiet := Statement.isQuiet_of_isStraight h.isStraight
  cases h with
  | @assign a hbound =>
    rw [hsame]
    cases ha : a.assigned? with
    | none =>
      have hnothing : scope.changes (.assign a) cache = (.ok [], cache) := by
        rw [Scope.changes, ha]
        rfl
      exact ⟨table, scope.replay_present hquiet hnothing hown, htable⟩
    | some right =>
      obtain ⟨binding, hmade⟩ := scope.run_changes_assign ha cache
      exact ⟨_, scope.replay_present hquiet hmade hown,
        declares_of_spares (Assignment.sparesExports hbound) htable⟩
  | @augment target right hbound =>
    rw [hsame]
    have hnone : exportChanges .extendExports target right = [] :=
      exportChanges_eq_nil fun _ htarget _ =>
        hbound "__all__" (by rw [htarget]; simp [Target.bound]) hreserved
    have hnothing : scope.changes (.augment target right) cache = (.ok [], cache) := by
      rw [Scope.changes, hnone]
      rfl
    exact ⟨table, scope.replay_present hquiet hnothing hown, htable⟩
  | @delete targets hdeleted =>
    rw [hsame]
    refine ⟨_, scope.replay_present hquiet rfl hown, declares_of_spares (fun change hmem => ?_) htable⟩
    obtain ⟨name, hname, rfl⟩ := List.mem_map.mp hmem
    exact sparesExports_unbind fun heq => hdeleted (heq ▸ hname)
  | @extend right _ hdisplays =>
    have hmade : exportChanges .extendExports (.name "__all__") right
        = [fun table => table.extendExports texts] := by
      simp only [exportChanges, hdisplays.exportList?]
    refine ⟨_, scope.replay_present hquiet (by rw [Scope.changes, hmade]; rfl) hown, ?_⟩
    cases exports? with
    | none =>
      -- Python stops at an addition to a name that is not bound
      cases hmemory with
      | unbound hnone =>
        cases hrun with
        | extendList hbound _ | extendTuple hbound _ | augmentName hbound _ _ =>
          cases hnone.symm.trans hbound
    | some declared =>
      refine ⟨?_, htable.bound⟩
      show some (table.exports?.getD [] ++ texts) = some (declared ++ texts)
      rw [htable.exports]
      rfl

end Statement.Extends

/-- The names that the code of statements mentions. -/
def codeOf (statements : List Statement) : List String := statements.flatMap Statement.code

section

variable {scope : Scope} {cache : Cache} {table : SymbolTable}

theorem find?_put (cache : Cache) (name : String) (table : SymbolTable) :
    (cache.put name table).loading.find? name = some table := by
  simp [Cache.put]

/-- Statements of a straight line are replayed without failing. -/
theorem replayAll_straight {statements : List Statement} (h : ∀ s ∈ statements, s.isStraight)
    (hown : cache.loading.find? scope.module = some table) :
    ∃ after, scope.replayAll statements cache = (.ok (), cache.put scope.module after) := by
  induction statements generalizing cache table with
  | nil => exact ⟨table, by rw [Cache.put_self hown]; rfl⟩
  | cons s rest ih =>
    obtain ⟨hs, hrest⟩ := List.forall_mem_cons.mp h
    obtain ⟨next, hfirst⟩ := scope.replay_straight hs hown
    obtain ⟨last, hlast⟩ := ih hrest (find?_put cache scope.module next)
    refine ⟨last, ?_⟩
    rw [Scope.replayAll, Importing.run_bind_ok hfirst, hlast, Cache.put_put]

/-- Table and memory stay together. -/
theorem extends_run {code reserved : List String} (hcode : ∀ id ∈ code, id ∉ reserved)
    (hreserved : "__all__" ∈ reserved) {statements : List Statement}
    (h : ∀ s ∈ statements, ∃ texts, s.Extends reserved texts) {memory after : Memory}
    (hrun : ExecutesAll code statements memory after) {exports? : Option (List String)}
    (hmemory : memory.Exports reserved exports?) (htable : table.Declares exports?)
    (hown : cache.loading.find? scope.module = some table) :
    ∃ last declared?, scope.replayAll statements cache = (.ok (), cache.put scope.module last)
      ∧ last.Declares declared? ∧ after.Exports reserved declared? := by
  induction hrun generalizing cache table exports? with
  | done => exact ⟨table, exports?, by rw [Cache.put_self hown]; rfl, htable, hmemory⟩
  | next hs _ ih =>
    obtain ⟨⟨texts, hextends⟩, hrest⟩ := List.forall_mem_cons.mp h
    obtain ⟨next, hreplay, hnext⟩ := hextends.replays hreserved hmemory hs htable hown
    obtain ⟨last, declared?, hlast, hdeclares, hexports⟩ :=
      ih hrest (hextends.executes hcode hreserved hmemory hs) hnext
        (find?_put cache scope.module next)
    refine ⟨last, declared?, ?_, hdeclares, hexports⟩
    rw [Scope.replayAll, Importing.run_bind_ok hreplay, hlast, Cache.put_put]

end

/-! ### Straight lines -/

/-- Nothing becomes of `__all__` once a literal list of strings has been assigned to it for the
last time, as the last target, but that such lists are added to it; and no code mentions it, nor the
other names of that assignment.  Or nothing becomes of `__all__` at all. -/
inductive Orderly : List Statement → Prop where
  | never {statements : List Statement} :
      (∀ s ∈ statements, ∃ texts, s.Extends ["__all__"] texts) →
      (∀ name ∈ codeOf statements, name ∉ ["__all__"]) → Orderly statements
  | last {before after : List Statement} {a : Assignment} {names texts : List String} :
      (∀ s ∈ before, s.isStraight) → a.Exports names texts →
      (∀ s ∈ after, ∃ more, s.Extends names more) →
      (∀ name ∈ codeOf (before ++ .assign a :: after), name ∉ names) →
      Orderly (before ++ .assign a :: after)

theorem Assignment.Exports.mem_names {a : Assignment} {names texts : List String}
    (h : a.Exports names texts) : "__all__" ∈ names := by
  induction h with
  | value => simp
  | chain _ ih => exact List.mem_cons_of_mem _ ih

/-- **The export list is `__all__`.**  An orderly straight line of statements is replayed without
failing, and if Python runs it to the end, whatever else its code does, then the table has an export
list if and only if `__all__` is bound in it, if and only if Python has it bound; and the list is
the one that Python has. -/
theorem orderly_exports (scope : Scope) {statements : List Statement} (h : Orderly statements)
    {cache : Cache} (hown : cache.loading.find? scope.module = some (.named scope.module))
    {start finish : Memory} (hstart : start.names "__all__" = none)
    (hrun : ExecutesAll (codeOf statements) statements start finish) :
    ∃ table, scope.replayAll statements cache = (.ok (), cache.put scope.module table)
      ∧ (∀ texts, table.exports? = some texts ↔ finish.Has texts)
      ∧ table.exports?.isSome = (table.find? "__all__").isSome
      ∧ table.exports?.isSome = (finish.names "__all__").isSome := by
  have hend : ∃ table declared? names, scope.replayAll statements cache
      = (.ok (), cache.put scope.module table)
      ∧ table.Declares declared? ∧ finish.Exports names declared? := by
    cases h with
    | never hextends hcode =>
      have hnamed : (SymbolTable.named scope.module).Declares none := ⟨rfl, rfl⟩
      obtain ⟨last, declared?, hlast⟩ :=
        extends_run hcode (by simp) hextends hrun (.unbound hstart) hnamed hown
      exact ⟨last, declared?, _, hlast⟩
    | @last before after a names texts hstraight hexports hextends hcode =>
      obtain ⟨first, -, hrest⟩ := hrun.of_append
      cases hrest with
      | @next _ _ _ between _ ha hafter =>
        obtain ⟨table, hbefore⟩ := replayAll_straight hstraight hown
        have htable := find?_put cache scope.module table
        obtain ⟨right, hright, -⟩ := hexports.assigned
        obtain ⟨binding, hmade⟩ := scope.run_changes_assign hright (cache.put scope.module table)
        have hassign := scope.replay_present rfl hmade htable
        obtain ⟨last, declared?, hreplay, hlast⟩ := extends_run hcode hexports.mem_names hextends
          hafter (hexports.executes ha) (hexports.declares binding table)
          (find?_put (cache.put scope.module table) scope.module _)
        refine ⟨last, declared?, names, ?_, hlast⟩
        rw [Scope.replayAll_append, Importing.run_bind_ok hbefore, Scope.replayAll,
          Importing.run_bind_ok hassign, hreplay, Cache.put_put, Cache.put_put]
  obtain ⟨table, declared?, names, hreplay, hdeclares, hexports⟩ := hend
  refine ⟨table, hreplay, fun texts => ?_, ?_, ?_⟩
  · rw [hdeclares.exports]
    exact hexports.has texts
  · rw [hdeclares.exports, hdeclares.bound]
  · rw [hdeclares.exports, hexports.isSome]

/-- `names = __all__ = ['run']`, and then `__all__ += ('stop',)`. -/
def announced : List Statement :=
  [.assign (.chain (.name "names") (.value (.name "__all__") (.list false [.string "'run'" []]))),
    .augment (.name "__all__") (.tuple false [.string "'stop'" []])]

theorem shows_run : List.Forall₂ Expr.Shows [.string "'run'" []] ["run"] := by
  have hliteral : "'run'" = "" ++ "'" ++ "run" ++ "'" := by decide
  rw [hliteral]
  exact .cons (.string (by simp) (by simp) (by simp)) .nil

theorem shows_stop : List.Forall₂ Expr.Shows [.string "'stop'" []] ["stop"] := by
  have hliteral : "'stop'" = "" ++ "'" ++ "stop" ++ "'" := by decide
  rw [hliteral]
  exact .cons (.string (by simp) (by simp) (by simp)) .nil

theorem orderly_announced : Orderly announced := by
  have hextends : ∀ s ∈ [Statement.augment (.name "__all__") (.tuple false [.string "'stop'" []])],
      ∃ texts, s.Extends ["names", "__all__"] texts := by
    intro s hs
    rw [List.mem_singleton.mp hs]
    exact ⟨_, .extend (.tuple shows_stop)⟩
  have hbefore : ∀ s ∈ ([] : List Statement), s.isStraight := nofun
  exact .last hbefore (.chain (.value (.list shows_run))) hextends (by decide)

/-- A module that has bound nothing yet. -/
def blank : Memory := ⟨fun _ => none, fun _ => []⟩

/-- The module when both names are bound to the list. -/
def announcing (items : List String) : Memory :=
  ((blank.store 0 (items.map .text)).bind "names" (.list 0)).bind "__all__" (.list 0)

theorem executes_announced : ExecutesAll (codeOf announced) announced blank
    ((announcing ["run"]).store 0 (["run", "stop"].map .text)) := by
  have hfresh : blank.Fresh 0 := fun names => ⟨nofun, nofun⟩
  exact .next (.assign rfl (.list shows_run hfresh) ⟨_, rfl, rfl⟩)
    (.next (.extendList rfl (.tuple shows_stop)) (.done _))

/-- A module on its own. -/
def announcer : Scope where
  module := "app"
  package := ""
  located _ := false
  load name := throw ⟨name, .noModule name⟩

/-- The export list is what was assigned, and what was added to it. -/
theorem orderly_exports_announced :
    ∃ table, announcer.replayAll announced (Cache.opened {} "app")
        = (.ok (), (Cache.opened {} "app").put "app" table)
      ∧ table.exports? = some ["run", "stop"] := by
  have hown : (Cache.opened {} "app").loading.find? announcer.module
      = some (.named announcer.module) := by decide +kernel
  obtain ⟨table, hreplay, hexports, -, -⟩ :=
    orderly_exports announcer orderly_announced hown rfl executes_announced
  exact ⟨table, hreplay, (hexports _).mpr (.list rfl rfl)⟩

/-! ### Where the two part -/

/-- Three modules in which something else becomes of `__all__`: it is removed, or stands in front of
another target, or is assigned something else. -/
def drifting : Disk where
  entries := [
    (["removed.py"], .file (.text "__all__ = ['run']\ndel __all__\n")),
    (["leading.py"], .file (.text "__all__ = names = ['run']\n")),
    (["replaced.py"], .file (.text "__all__ = ['run']\n__all__ = sorted(['stop'])\n"))]
  workingDirectory := []

def driftingLoader : Loader := { searchRoot := ⟨"."⟩ }

/-- The export list outlives `__all__`, or is not there although `__all__` is, or is not what was
assigned last. -/
theorem drifting_apart :
    (Importer.load drifting "removed" driftingLoader).1.map
        (fun table => (table.exports?, table.find? "__all__")) = .ok (some ["run"], none)
    ∧ (Importer.load drifting "leading" driftingLoader).1.map
        (fun table => (table.exports?, table.find? "__all__")) = .ok (none, some .plainValue)
    ∧ (Importer.load drifting "replaced" driftingLoader).1.map
        (fun table => (table.exports?, table.find? "__all__"))
      = .ok (some ["run"], some .plainValue) := by
  decide +kernel

end ApiStubs.Python
