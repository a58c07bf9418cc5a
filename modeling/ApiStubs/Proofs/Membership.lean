import ApiStubs.Proofs.Working
import Mathlib.Data.List.Induction
import Mathlib.Data.List.Nodup
import Mathlib.Data.List.Sort

/-!
# Proofs — Membership — what a module lists as its own

A module lists what its table binds to an object of the module.  `Members.Exact` says which names
these are, and in which group each of them stands, by nothing but what the names are bound to.

A table is made by operations, one after the other.  What they leave a name bound to is what the
last of them about the name has left (`SymbolTable.find?_after`), so that the order in which
different names were bound is lost, and so are the exports.  `members_exact` puts the two together
for the tables of any importer.
-/

namespace ApiStubs

/-! ### What a table lists -/

/-- The names listed are the public ones bound to something of this kind from this module. -/
theorem mem_namesOf {table : SymbolTable} {module name : String} {kind : SymbolKind} :
    name ∈ Members.namesOf table module kind ↔ Dotted.isPublic name ∧ ∃ binding,
      table.find? name = some binding ∧ binding.origin? = some module
        ∧ SymbolKind.ofBinding? binding.kind = some kind := by
  simp only [Members.namesOf, SymbolTable.publicBindings, List.mem_filterMap, List.mem_filter,
    Prod.exists, SymbolTable.find?, NameMap.find?_eq_some, Binding.isDefinedIn]
  constructor
  · rintro ⟨key, binding, ⟨hmem, hpublic⟩, h⟩
    cases hcond : (binding.origin? == some module
      && SymbolKind.ofBinding? binding.kind == some kind) with
    | false => simp [hcond] at h
    | true =>
      obtain rfl : key = name := by simpa [hcond] using h
      rw [Bool.and_eq_true, beq_iff_eq, beq_iff_eq] at hcond
      exact ⟨hpublic, binding, hmem, hcond.1, hcond.2⟩
  · rintro ⟨hpublic, binding, hmem, horigin, hkind⟩
    exact ⟨name, binding, ⟨hmem, hpublic⟩, by simp [horigin, hkind]⟩

theorem Members.ofKind_ofTable (table : SymbolTable) (module : String) (kind : SymbolKind) :
    (ofTable table module).ofKind kind = namesOf table module kind := by
  cases kind <;> rfl

theorem mem_symbols_ofTable {table : SymbolTable} {module : String} {symbol : Symbol} :
    symbol ∈ (Members.ofTable table module).symbols ↔
      symbol.module = module ∧ symbol.name ∈ Members.namesOf table module symbol.kind := by
  simp only [Members.symbols, List.mem_flatMap, List.mem_map, Members.ofKind_ofTable]
  constructor
  · rintro ⟨kind, -, name, hname, rfl⟩
    exact ⟨rfl, hname⟩
  · rintro ⟨rfl, hname⟩
    refine ⟨symbol.kind, ?_, symbol.name, hname, rfl⟩
    cases symbol.kind <;> simp [SymbolKind.all]

theorem Members.ascending_namesOf (table : SymbolTable) (module : String) (kind : SymbolKind) :
    (namesOf table module kind).Pairwise (· < ·) := by
  have hbindings : table.publicBindings.Pairwise fun a b => a.1 < b.1 :=
    table.bindings.ascending.filter _
  refine hbindings.filterMap _ fun a b hab name ha name' hb => ?_
  dsimp only at ha hb
  split at ha <;> cases ha
  split at hb <;> cases hb
  exact hab

theorem Members.nodup_namesOf (table : SymbolTable) (module : String) (kind : SymbolKind) :
    (namesOf table module kind).Nodup :=
  (ascending_namesOf table module kind).imp String.ne_of_lt

/-- No symbol is listed twice. -/
theorem Members.nodup_symbols (table : SymbolTable) (module : String) :
    (ofTable table module).symbols.Nodup := by
  -- within one sort the names differ, and symbols of two sorts differ by the sort
  have hkinds : SymbolKind.all.Nodup := by decide
  refine List.nodup_flatMap.mpr ⟨fun kind _ => ?_, hkinds.imp fun hne => ?_⟩
  · rw [ofKind_ofTable]
    exact (nodup_namesOf table module kind).map fun _ _ h => (Symbol.mk.inj h).2.1
  · intro symbol h h'
    obtain ⟨_, -, rfl⟩ := List.mem_map.mp h
    obtain ⟨_, -, heq⟩ := List.mem_map.mp h'
    exact hne (Symbol.mk.inj heq).2.2.symm

/-! ### Which names these are -/

/-- What a name is bound to that an object of the sort was defined under. -/
def SymbolKind.definedIn (module : String) : SymbolKind → Binding
  | .classType => .classOf module
  | .function => .functionOf module
  | .object => .objectOf module

theorem SymbolKind.eq_definedIn_iff {kind : SymbolKind} {module : String} {binding : Binding} :
    binding = kind.definedIn module ↔
      binding.origin? = some module ∧ ofBinding? binding.kind = some kind := by
  obtain ⟨sort, origin?⟩ := binding
  cases kind <;> cases sort <;>
    simp [definedIn, ofBinding?, Binding.classOf, Binding.functionOf, Binding.objectOf]

/-- Whatever is no module makes a symbol. -/
theorem SymbolKind.ofBinding?_isSome {sort : BindingKind} :
    (ofBinding? sort).isSome ↔ sort ≠ .module := by
  cases sort <;> decide

namespace Members

/-- All names that are listed, group by group. -/
def names (listed : Members) : List String := SymbolKind.all.flatMap listed.ofKind

theorem mem_names {listed : Members} {name : String} :
    name ∈ listed.names ↔ ∃ kind, name ∈ listed.ofKind kind := by
  refine List.mem_flatMap.trans (exists_congr fun kind => and_iff_right ?_)
  cases kind <;> decide

/-- A module lists the public names that are bound to an object of the module and to no module.
Each stands once, in the group of what it is bound to, and the groups ascend. -/
structure Exact (listed : Members) (module : String) (bound : String → Option Binding) : Prop where
  belongs : listed.module = module
  lists : ∀ name, name ∈ listed.names ↔ Dotted.isPublic name ∧ ∃ binding,
    bound name = some binding ∧ binding.origin? = some module ∧ binding.kind ≠ .module
  groups : ∀ kind name, name ∈ listed.ofKind kind ↔
    Dotted.isPublic name ∧ bound name = some (kind.definedIn module)
  once : listed.names.Nodup
  ascending : ∀ kind, (listed.ofKind kind).Pairwise (· < ·)

theorem mem_ofKind_ofTable {table : SymbolTable} {module name : String} {kind : SymbolKind} :
    name ∈ (ofTable table module).ofKind kind ↔
      Dotted.isPublic name ∧ table.find? name = some (kind.definedIn module) := by
  rw [ofKind_ofTable, mem_namesOf]
  simp only [← SymbolKind.eq_definedIn_iff, exists_eq_right]

/-- What is read from a table is what its names are bound to. -/
theorem exact_ofTable (table : SymbolTable) (module : String) :
    (ofTable table module).Exact module table.find? where
  belongs := rfl
  groups kind name := mem_ofKind_ofTable
  ascending kind := by
    rw [ofKind_ofTable]
    exact ascending_namesOf table module kind
  lists name := by
    simp only [mem_names, ofKind_ofTable, mem_namesOf, ← SymbolKind.ofBinding?_isSome,
      Option.isSome_iff_exists]
    constructor
    · rintro ⟨kind, hpublic, binding, hfind, horigin, hkind⟩
      exact ⟨hpublic, binding, hfind, horigin, kind, hkind⟩
    · rintro ⟨hpublic, binding, hfind, horigin, kind, hkind⟩
      exact ⟨kind, hpublic, binding, hfind, horigin, hkind⟩
  once := by
    have hkinds : SymbolKind.all.Nodup := by decide
    refine List.nodup_flatMap.mpr ⟨fun kind _ => ?_, hkinds.imp fun hne name h h' => hne ?_⟩
    · rw [ofKind_ofTable]
      exact nodup_namesOf table module kind
    · -- the name is bound once, to an object of one sort
      have hbound := (mem_ofKind_ofTable.mp h).2.symm.trans (mem_ofKind_ofTable.mp h').2
      have hsorts := (SymbolKind.eq_definedIn_iff.mp (Option.some.inj hbound)).2
      rw [(SymbolKind.eq_definedIn_iff.mp rfl).2] at hsorts
      exact Option.some.inj hsorts

variable {listed other : Members} {module : String} {bound : String → Option Binding}

/-- What the names are bound to leaves nothing open. -/
theorem Exact.unique (h : listed.Exact module bound) (hother : other.Exact module bound) :
    listed = other := by
  have hkinds : ∀ kind, listed.ofKind kind = other.ofKind kind := fun kind =>
    (h.ascending kind).eq_of_mem_iff (hother.ascending kind) fun name =>
      (h.groups kind name).trans (hother.groups kind name).symm
  have hmodule := h.belongs.trans hother.belongs.symm
  obtain ⟨_, _, _, _⟩ := listed
  obtain ⟨_, _, _, _⟩ := other
  cases hmodule
  cases hkinds .classType
  cases hkinds .function
  cases hkinds .object
  rfl

/-- What belongs elsewhere is not listed. -/
theorem Exact.notMem {name : String} {binding : Binding} (h : listed.Exact module bound)
    (hbound : bound name = some binding) (horigin : binding.origin? ≠ some module) :
    name ∉ listed.names := by
  intro hmem
  obtain ⟨-, own, hown, hfrom, -⟩ := (h.lists name).mp hmem
  obtain rfl := Option.some.inj (hbound.symm.trans hown)
  exact horigin hfrom

end Members

/-! ### The operations on a table -/

namespace SymbolTable

/-- What is done to a table. -/
inductive Operation
  | bind (name : String) (binding : Binding)
  | define (kind : SymbolKind) (name : String)
  | unbind (name : String)
  | setExports (names : List String)
  | extendExports (names : List String)

/-- The table after an operation.  What is defined belongs to the module of the table. -/
def perform (table : SymbolTable) : Operation → SymbolTable
  | .bind name binding => table.bind name binding
  | .define kind name => table.bind name (kind.definedIn table.name)
  | .unbind name => table.unbind name
  | .setExports names => table.setExports names
  | .extendExports names => table.extendExports names

/-- The table of a module after a history of operations. -/
def after (module : String) (history : List Operation) : SymbolTable :=
  history.foldl perform (named module)

/-- What an operation of a module leaves a name bound to, if it is about the name. -/
def Operation.leaves? (module name : String) : Operation → Option (Option Binding)
  | .bind key binding => if name = key then some (some binding) else none
  | .define kind key => if name = key then some (some (kind.definedIn module)) else none
  | .unbind key => if name = key then some none else none
  | .setExports _ | .extendExports _ => none

/-- What the last operation about a name has left it bound to. -/
def leftBy (module : String) (history : List Operation) (name : String) : Option Binding :=
  (history.reverse.findSome? (Operation.leaves? module name)).join

theorem name_perform (table : SymbolTable) (operation : Operation) :
    (table.perform operation).name = table.name := by
  cases operation <;> rfl

/-- An operation leaves its own binding, and the others as they are. -/
theorem find?_perform (table : SymbolTable) (operation : Operation) (name : String) :
    (table.perform operation).find? name
      = (operation.leaves? table.name name).getD (table.find? name) := by
  cases operation with
  | bind key binding =>
    rw [perform, find?_bind, Operation.leaves?]
    split <;> rfl
  | define kind key =>
    rw [perform, find?_bind, Operation.leaves?]
    split <;> rfl
  | unbind key =>
    rw [perform, find?_unbind, Operation.leaves?]
    split <;> rfl
  | setExports names => rfl
  | extendExports names => rfl

theorem after_concat (module : String) (before : List Operation) (last : Operation) :
    after module (before ++ [last]) = (after module before).perform last :=
  List.foldl_concat ..

theorem leftBy_concat (module : String) (before : List Operation) (last : Operation)
    (name : String) : leftBy module (before ++ [last]) name
      = (last.leaves? module name).getD (leftBy module before name) := by
  rw [leftBy, List.reverse_concat, List.findSome?_cons]
  cases last.leaves? module name <;> rfl

theorem name_after (module : String) (history : List Operation) :
    (after module history).name = module := by
  induction history using List.reverseRecOn with
  | nil => rfl
  | append_singleton before last ih => rw [after_concat, name_perform, ih]

/-- **The last operation about a name decides** what a table binds it to. -/
theorem find?_after (module : String) (history : List Operation) (name : String) :
    (after module history).find? name = leftBy module history name := by
  induction history using List.reverseRecOn with
  | nil => rfl
  | append_singleton before last ih =>
    rw [after_concat, find?_perform, name_after, ih, leftBy_concat]

end SymbolTable

/-! ### What a module lists -/

namespace Members

open SymbolTable

/-- A module whose table is handed out is listed from that table. -/
theorem members_of_load {σ : Type} [Importer σ] {space : Workspace σ} {module : String}
    {table : SymbolTable} (h : (Importer.load space.disk module space.importer).1 = .ok table) :
    (members module space).1 = .ok (.ofTable table module) := by
  rw [run_members, h]
  rfl

/-- **What a module lists is what was last done to each name.**  For every history of a table, and
whatever the importer that hands it out under the name of the module, the listing is exact.  Another
history that leaves each name bound to the same makes the same listing, in whatever order it has
bound them and whatever its exports are.  And no other module lists what belongs to this one,
however its table has come to bind it. -/
theorem members_exact {σ : Type} [Importer σ] {space : Workspace σ} {module own : String}
    {history : List Operation}
    (h : (Importer.load space.disk module space.importer).1 = .ok (.after own history)) :
    ∃ listed, (members module space).1 = .ok listed
      ∧ listed.Exact module (leftBy own history)
      ∧ (∀ {τ : Type} [Importer τ] (there : Workspace τ) (another : List Operation),
        (Importer.load there.disk module there.importer).1 = .ok (.after own another) →
        (∀ name, leftBy own another name = leftBy own history name) →
        (members module there).1 = .ok listed)
      ∧ ∀ {τ : Type} [Importer τ] (there : Workspace τ) (elsewhere : String) (table : SymbolTable),
        (Importer.load there.disk elsewhere there.importer).1 = .ok table → elsewhere ≠ module →
        ∃ others, (members elsewhere there).1 = .ok others
          ∧ ∀ name binding, table.find? name = some binding → binding.origin? = some module →
            name ∉ others.names := by
  have hexact : ∀ another, (ofTable (.after own another) module).Exact module (leftBy own another) :=
    fun another => funext (find?_after own another) ▸ exact_ofTable _ module
  refine ⟨_, members_of_load h, hexact history, fun there another hload hsame => ?_,
    fun there elsewhere table hload hne => ⟨_, members_of_load hload, fun name binding hfind hfrom =>
      (exact_ofTable table elsewhere).notMem hfind ?_⟩⟩
  · rw [members_of_load hload, (hexact another).unique (funext hsame ▸ hexact history)]
  · rw [hfrom]
    exact fun heq => hne (Option.some.inj heq).symm

/-- A name is defined twice, another is taken back, and a third is a class of another module. -/
def rebinding : List Operation :=
  [.define .classType "Engine", .define .object "run", .setExports ["Other"],
    .bind "Other" (.classOf "pkg.other"), .define .function "limit", .define .function "run",
    .unbind "limit", .bind "other" .ofModule, .define .function "_hidden"]

/-- A registry with the table. -/
def rebindingSpace : Workspace Registry :=
  ⟨⟨[], []⟩, Registry.register {} (.after "pkg.core" rebinding)⟩

/-- The class and the function are listed that were defined last. -/
theorem members_exact_rebinding :
    (Members.mk "pkg.core" ["Engine"] ["run"] []).Exact "pkg.core" (leftBy "pkg.core" rebinding) := by
  have hload : (Importer.load rebindingSpace.disk "pkg.core" rebindingSpace.importer).1
      = .ok (.after "pkg.core" rebinding) := by decide +kernel
  obtain ⟨listed, hmembers, hexact, -⟩ := members_exact hload
  have hlisted : (members "pkg.core" rebindingSpace).1
      = .ok ⟨"pkg.core", ["Engine"], ["run"], []⟩ := by decide +kernel
  rwa [Except.ok.inj (hmembers.symm.trans hlisted)] at hexact

end Members

end ApiStubs
