import ApiStubs.Proofs.Working
import Mathlib.Data.List.Infix
import Mathlib.Logic.Relation

/-!
# Proofs — Registering — the shortest import from a registry

A registry hands out what was registered and is not changed by that, so that the shortest import of
a symbol depends on its tables alone.  It is the shortest prefix of the module's name whose table
binds the symbol to an object of the module, whatever the tables of the other prefixes are, or
whether they are there at all; where there is no such prefix the symbol is unresolved
(`Registry.shortestImport_iff`).

`Registry.Adds` is a registry with one binding more, of another name or from another module.
-/

namespace ApiStubs

namespace Dotted

/-- The search through the prefixes of a name finds the shortest one that satisfies the test. -/
theorem find?_prefixes_eq_some {p : String → Bool} {name found : String} :
    (prefixes name).find? p = some found ↔ ∃ front, front ≠ [] ∧ front <+: components name
      ∧ found = ofComponents front ∧ p found = true
      ∧ ∀ shorter, shorter ≠ [] → shorter <+: front → shorter ≠ front →
        p (ofComponents shorter) = false := by
  simp only [prefixes, List.find?_map, Option.map_eq_some_iff, List.find?_range_eq_some,
    List.mem_range, Function.comp_apply, Bool.not_eq_true']
  generalize components name = parts
  constructor
  · rintro ⟨depth, ⟨hp, hdepth, hless⟩, rfl⟩
    have hlength : (parts.take (depth + 1)).length = depth + 1 := by
      rw [List.length_take]
      omega
    refine ⟨parts.take (depth + 1), List.ne_nil_of_length_eq_add_one hlength,
      List.take_prefix _ _, rfl, hp, fun shorter hne hshorter hother => ?_⟩
    -- a shorter front ends at a smaller depth
    have hpos := List.length_pos_iff.mpr hne
    have hle := hshorter.length_le
    have hlt : shorter.length ≠ depth + 1 := fun heq =>
      hother (hshorter.eq_of_length (heq.trans hlength.symm))
    have htake := List.prefix_iff_eq_take.mp (hshorter.trans (List.take_prefix _ _))
    have hfalse := hless (shorter.length - 1) (by omega)
    rwa [Nat.sub_add_cancel hpos, ← htake] at hfalse
  · rintro ⟨front, hne, hfront, rfl, hp, hless⟩
    have hpos := List.length_pos_iff.mpr hne
    have hle := hfront.length_le
    have htake := List.prefix_iff_eq_take.mp hfront
    have hsame : parts.take (front.length - 1 + 1) = front := by
      rw [Nat.sub_add_cancel hpos, ← htake]
    refine ⟨front.length - 1, ⟨by rwa [hsame], by omega, fun depth hdepth => ?_⟩, by rw [hsame]⟩
    have hlength : (parts.take (depth + 1)).length = depth + 1 := by
      rw [List.length_take]
      omega
    refine hless _ (List.ne_nil_of_length_eq_add_one hlength) ?_ fun heq => ?_
    · rw [htake]
      exact List.take_prefix_take_left (by omega)
    · have hlengths := congrArg List.length heq
      omega

end Dotted

namespace Registry

variable {registry extended : Registry} {module symbol name : String}

/-! ### What a registry hands out -/

/-- A table is registered under the name, and binds the symbol to an object of the module. -/
def HandsOut (registry : Registry) (name symbol module : String) : Prop :=
  ∃ table binding, registry.load name = .ok table ∧ table.find? symbol = some binding
    ∧ binding.origin? = some module

/-- A table that is missing binds nothing. -/
theorem handsOut_iff_table : registry.HandsOut name symbol module ↔
    ((registry.table name).handsOut symbol module) = true := by
  rw [HandsOut, load, table, SymbolTable.handsOut_iff]
  cases registry.tables.find? name with
  | none =>
    have hnothing : (SymbolTable.named name).find? symbol = none := rfl
    simp [hnothing]
  | some own => simp

theorem handsOut_load (registry : Registry) (name symbol module : String) :
    ((registry.load name).toOption.any fun table => table.handsOut symbol module)
      = (registry.table name).handsOut symbol module := by
  rw [load, table]
  cases registry.tables.find? name <;> rfl

/-- The registry is asked for one candidate after the other, and is left as it is. -/
theorem firstHandingOut_eq (disk : Disk) (registry : Registry) (module symbol : String)
    (candidates : List String) : firstHandingOut module symbol candidates ⟨disk, registry⟩
      = ((candidates.find? fun name => (registry.table name).handsOut symbol module).elim
          (.error (.unresolved module symbol)) .ok, ⟨disk, registry⟩) := by
  induction candidates with
  | nil => rfl
  | cons candidate rest ih =>
    have hload : Importer.load disk candidate registry = (registry.load candidate, registry) := rfl
    rw [run_firstHandingOut_cons, hload, handsOut_load, ih, List.find?_cons]
    cases (registry.table candidate).handsOut symbol module <;> rfl

/-! ### More bindings -/

/-- One more binding stands in the table of some name, which is made if it is missing.  It is not
from the module, or of another name than the symbol, and replaces no binding of the symbol from the
module. -/
inductive Adds (module symbol : String) : Registry → Registry → Prop where
  | bind {registry : Registry} (name key : String) (binding : Binding) :
      binding.origin? ≠ some module ∨ key ≠ symbol →
      (key = symbol → ¬registry.HandsOut name symbol module) →
      Adds module symbol registry (registry.define name fun table => table.bind key binding)

theorem table_define (registry : Registry) (name other : String)
    (change : SymbolTable → SymbolTable) : (registry.define name change).table other
      = if other = name then change (registry.table name) else registry.table other := by
  simp only [define, table, NameMap.find?_insert]
  split <;> rfl

/-- What is added has no effect on who hands the symbol out. -/
theorem Adds.handsOut_eq (h : Adds module symbol registry extended) (name : String) :
    (extended.table name).handsOut symbol module = (registry.table name).handsOut symbol module := by
  cases h with
  | bind other key binding hfrom hreplaces =>
    rw [table_define]
    split
    · rename_i heq
      subst heq
      rw [handsOut_iff_table, Bool.not_eq_true] at hreplaces
      by_cases hkey : key = symbol
      · subst hkey
        have horigin := hfrom.resolve_right (not_not_intro rfl)
        rw [hreplaces rfl, SymbolTable.handsOut, SymbolTable.find?_bind, if_pos rfl]
        simpa [Binding.isDefinedIn] using horigin
      · rw [SymbolTable.handsOut, SymbolTable.find?_bind, if_neg (Ne.symm hkey),
          SymbolTable.handsOut]
    · rfl

/-- Additions change what a search finds at no candidate. -/
theorem firstHandingOut_extended (h : Relation.ReflTransGen (Adds module symbol) registry extended)
    (disk : Disk) (candidates : List String) :
    (firstHandingOut module symbol candidates ⟨disk, extended⟩).1
      = (firstHandingOut module symbol candidates ⟨disk, registry⟩).1 := by
  induction h with
  | refl => rfl
  | tail _ hadds ih =>
    rw [← ih, firstHandingOut_eq, firstHandingOut_eq, funext hadds.handsOut_eq]

/-! ### The shortest import -/

/-- **The shortest import from a registry** is the dotted name of the shortest prefix of the
module's name that hands out the symbol; where none does, the symbol is unresolved, and there is no
other failure.  The registry is left as it is, and the answer stays the same however many bindings
of other names, or from other modules, are added to its tables. -/
theorem shortestImport_iff (disk : Disk) (registry : Registry) (module symbol : String) :
    (∀ path, shortestImport module symbol ⟨disk, registry⟩ = (.ok path, ⟨disk, registry⟩) ↔
      ∃ front, front ≠ [] ∧ front <+: Dotted.components module
        ∧ path = Dotted.ofComponents front ∧ registry.HandsOut path symbol module
        ∧ ∀ shorter, shorter ≠ [] → shorter <+: front → shorter ≠ front →
          ¬registry.HandsOut (Dotted.ofComponents shorter) symbol module)
    ∧ ((∃ path, shortestImport module symbol ⟨disk, registry⟩ = (.ok path, ⟨disk, registry⟩))
      ∨ shortestImport module symbol ⟨disk, registry⟩
        = (.error (.unresolved module symbol), ⟨disk, registry⟩))
    ∧ ∀ extended, Relation.ReflTransGen (Adds module symbol) registry extended →
      (shortestImport module symbol ⟨disk, extended⟩).1
        = (shortestImport module symbol ⟨disk, registry⟩).1 := by
  refine ⟨fun path => ?_, ?_, fun extended h => firstHandingOut_extended h disk _⟩
  · have hfound := @Dotted.find?_prefixes_eq_some
      (fun name => (registry.table name).handsOut symbol module) module path
    simp only [handsOut_iff_table, Bool.not_eq_true]
    rw [shortestImport, firstHandingOut_eq, ← hfound]
    cases List.find? _ (Dotted.prefixes module) with
    | none => exact ⟨nofun, nofun⟩
    | some other =>
      refine ⟨fun h => congrArg some (Except.ok.inj (congrArg Prod.fst h)), fun h => ?_⟩
      rw [Option.some.inj h]
      rfl
  · rw [shortestImport, firstHandingOut_eq]
    cases List.find? _ (Dotted.prefixes module) with
    | none => exact .inr rfl
    | some path => exact .inl ⟨path, rfl⟩

/-- A package that hands out a class of a module two packages down, which another package on the way
hands out as well. -/
def nested : Registry :=
  (((Registry.define {} "a.b.c.d" fun table => table.bind "Deep" (.classOf "a.b.c.d")).define "a.b.c"
    fun table => table.bind "Deep" (.classOf "a.b.c.d")).define "a.b"
    fun table => table.bind "Deep" (.classOf "a.b.c.d"))

/-- Above it, the name of the class is then bound to something else. -/
theorem shortestImport_iff_nested : (shortestImport "a.b.c.d" "Deep"
    ⟨⟨[], []⟩, nested.define "a" fun table => table.bind "Deep" (.functionOf "a.other")⟩).1
      = .ok "a.b" := by
  have hbefore : (shortestImport "a.b.c.d" "Deep" ⟨⟨[], []⟩, nested⟩).1 = .ok "a.b" := by decide +kernel
  have hadds : Adds "a.b.c.d" "Deep" nested
      (nested.define "a" fun table => table.bind "Deep" (.functionOf "a.other")) := by
    refine .bind "a" "Deep" _ (.inl (by decide)) fun _ => ?_
    rw [handsOut_iff_table]
    decide +kernel
  exact ((shortestImport_iff ⟨[], []⟩ nested "a.b.c.d" "Deep").2.2 _ (.single hadds)).trans hbefore

end Registry

end ApiStubs
