import ApiStubs.Proofs.Exporting
import ApiStubs.Proofs.Submodules

/-!
# Proofs — Assigning — the names that an assignment binds

Python binds every name of the targets.  A replay passes over what stands behind a star, wherever
in a target that is, and binds the other names, each to the value of the right side or, inside a
sequence, to a plain value (`Assignment.assigns_changes`).

`Assignment.replayed`: so an assignment binds what Python binds exactly where each of its starred
names stands without a star as well; it changes nothing else; and what it binds can be imported
from the module, while a name that it has passed over cannot.
-/

namespace ApiStubs

/-! ### Tables -/

namespace SymbolTable

/-- The second table binds the names, each to the value or to a plain one, and everything else to
what the first one does. -/
structure Assigns (value : Binding) (names : List String) (before after : SymbolTable) : Prop where
  bound : ∀ name ∈ names, after.find? name = some value ∨ after.find? name = some .plainValue
  spared : ∀ name ∉ names, after.find? name = before.find? name

namespace Assigns

variable {value : Binding} {names others : List String} {first second third : SymbolTable}

theorem of_find? (value : Binding) (h : ∀ name, second.find? name = first.find? name) :
    Assigns value [] first second :=
  ⟨nofun, fun name _ => h name⟩

theorem refl (value : Binding) (table : SymbolTable) : Assigns value [] table table :=
  .of_find? value fun _ => rfl

theorem bind (value : Binding) (name : String) (table : SymbolTable) :
    Assigns value [name] table (table.bind name value) where
  bound other hother := .inl (by rw [find?_bind, if_pos (List.mem_singleton.mp hother)])
  spared other hother := by rw [find?_bind, if_neg (List.mem_singleton.not.mp hother)]

/-- A name that is bound twice is bound by the second part. -/
theorem trans (h : Assigns value names first second) (h' : Assigns value others second third) :
    Assigns value (names ++ others) first third where
  bound name hname := by
    by_cases hother : name ∈ others
    · exact h'.bound name hother
    · rw [h'.spared name hother]
      exact h.bound name ((List.mem_append.mp hname).resolve_right hother)
  spared name hname := by
    rw [List.mem_append, not_or] at hname
    rw [h'.spared name hname.2, h.spared name hname.1]

theorem of_plain (h : Assigns .plainValue names first second) : Assigns value names first second :=
  ⟨fun name hname => .inr ((or_self _).mp (h.bound name hname)), h.spared⟩

theorem isSome (h : Assigns value names first second) {name : String} (hname : name ∈ names) :
    (second.find? name).isSome := by
  rcases h.bound name hname with hfind | hfind <;> rw [hfind] <;> rfl

end Assigns

end SymbolTable

namespace Python

/-! ### Names with a star and without -/

mutual

/-- The names of a target that stand outside its stars. -/
def Target.unstarred : Target → List String
  | .name id => [id]
  | .place _ | .star _ => []
  | .sequence items => unstarredOfTargets items

/-- The names of targets that stand outside their stars. -/
def unstarredOfTargets : List Target → List String
  | [] => []
  | target :: rest => target.unstarred ++ unstarredOfTargets rest

end

mutual

/-- The names of a target that stand behind a star. -/
def Target.starred : Target → List String
  | .name _ | .place _ => []
  | .star inner => inner.bound
  | .sequence items => starredOfTargets items

/-- The names of targets that stand behind a star. -/
def starredOfTargets : List Target → List String
  | [] => []
  | target :: rest => target.starred ++ starredOfTargets rest

end

/-- The names of the targets that stand outside their stars, from right to left. -/
def Assignment.unstarred : Assignment → List String
  | .declare _ => []
  | .value target _ => target.unstarred
  | .chain target right => right.unstarred ++ target.unstarred

/-- The names of the targets that stand behind a star. -/
def Assignment.starred : Assignment → List String
  | .declare _ => []
  | .value target _ => target.starred
  | .chain target right => right.starred ++ target.starred

section

variable {name : String}

mutual

theorem Target.mem_bound : ∀ target : Target,
    name ∈ target.bound ↔ name ∈ target.unstarred ∨ name ∈ target.starred
  | .name _ | .place _ | .star _ => by simp [Target.bound, Target.unstarred, Target.starred]
  | .sequence items => by
    rw [Target.bound, Target.unstarred, Target.starred]
    exact mem_boundByTargets items

theorem mem_boundByTargets : ∀ targets : List Target,
    name ∈ boundByTargets targets ↔
      name ∈ unstarredOfTargets targets ∨ name ∈ starredOfTargets targets
  | [] => by simp [boundByTargets, unstarredOfTargets, starredOfTargets]
  | target :: rest => by
    simp only [boundByTargets, unstarredOfTargets, starredOfTargets, List.mem_append,
      target.mem_bound, mem_boundByTargets rest]
    exact or_or_or_comm

end

/-- Python binds the names on both sides of the stars. -/
theorem Assignment.mem_bound (a : Assignment) :
    name ∈ a.bound ↔ name ∈ a.unstarred ∨ name ∈ a.starred := by
  induction a with
  | declare target => simp [bound, unstarred, starred]
  | value target right => exact target.mem_bound
  | chain target right ih =>
    simp only [bound, unstarred, starred, List.mem_append, target.mem_bound, ih]
    rw [or_comm, or_or_or_comm]

end

/-! ### What the changes come to -/

mutual

theorem Target.assigns_changes (value : Binding) : ∀ (target : Target) (table : SymbolTable),
    table.Assigns value target.unstarred
      ((target.changes value).foldl (fun t change => change t) table)
  | .name id, table => .bind value id table
  | .place _, table | .star _, table => .refl value table
  | .sequence items, table => by
    rw [Target.changes, Target.unstarred]
    exact (assigns_changesOfTargets items table).of_plain

theorem assigns_changesOfTargets : ∀ (targets : List Target) (table : SymbolTable),
    table.Assigns .plainValue (unstarredOfTargets targets)
      ((changesOfTargets targets).foldl (fun t change => change t) table)
  | [], table => .refl .plainValue table
  | target :: rest, table => by
    rw [changesOfTargets, unstarredOfTargets, List.foldl_append]
    exact (target.assigns_changes .plainValue table).trans (assigns_changesOfTargets rest _)

end

/-- Exports are no bindings. -/
theorem assigns_exportChanges (value : Binding) (target : Target) (right : Expr)
    (table : SymbolTable) : table.Assigns value []
      ((exportChanges .setExports target right).foldl (fun t change => change t) table) := by
  rw [exportChanges.eq_def]
  split <;> exact .of_find? value fun _ => rfl

/-- The changes of an assignment bind the names outside its stars. -/
theorem Assignment.assigns_changes (value : Binding) (a : Assignment) (table : SymbolTable) :
    table.Assigns value a.unstarred ((a.changes value).foldl (fun t change => change t) table) := by
  induction a generalizing table with
  | declare target => exact .refl value table
  | value target right =>
    rw [changes, List.foldl_append]
    exact (assigns_exportChanges value target right table).trans (target.assigns_changes value _)
  | chain target right ih =>
    rw [changes, unstarred, List.foldl_append]
    exact (ih table).trans (target.assigns_changes value _)

namespace Scope

variable {scope : Scope} {a : Assignment} {right : Expr} {cache : Cache} {table : SymbolTable}

/-- An assignment is replayed without failing. -/
theorem replay_assign (h : a.assigned? = some right)
    (hown : cache.loading.find? scope.module = some table) :
    ∃ value after, scope.evaluate right cache = (.ok value, cache)
      ∧ scope.replay (.assign a) cache = (.ok (), cache.put scope.module after)
      ∧ table.Assigns value a.unstarred after := by
  obtain ⟨value, hvalue⟩ := scope.run_evaluate right cache
  have hmade := scope.run_changes_assigned h hvalue
  exact ⟨value, _, hvalue, scope.replay_present rfl hmade hown, a.assigns_changes value table⟩

/-- Whatever the module has bound before, the name is bound once the statement is replayed. -/
def Binds (scope : Scope) (s : Statement) (name : String) : Prop :=
  ∀ cache table, cache.loading.find? scope.module = some table →
    ∃ after, scope.replay s cache = (.ok (), cache.put scope.module after)
      ∧ (after.find? name).isSome

/-- An assignment binds the names outside its stars, and no others. -/
theorem binds_assign_iff (h : a.assigned? = some right) {name : String} :
    scope.Binds (.assign a) name ↔ name ∈ a.unstarred := by
  constructor
  · intro hbinds
    refine by_contra fun hname => ?_
    have hown : (Cache.opened {} scope.module).loading.find? scope.module
        = some (.named scope.module) := by simp [Cache.opened]
    obtain ⟨after, hreplay, hsome⟩ := hbinds _ _ hown
    obtain ⟨_, other, -, hother, hassigns⟩ := replay_assign h hown
    -- the two are the same table, which binds nothing to the name that was not bound before
    have hsame := congrArg (fun run => run.2.loading.find? scope.module)
      (hreplay.symm.trans hother)
    simp only [find?_put, Option.some.injEq] at hsame
    rw [hsame, hassigns.spared name hname] at hsome
    cases hsome
  · intro hname cache table hown
    obtain ⟨_, after, -, hreplay, hassigns⟩ := replay_assign h hown
    exact ⟨after, hreplay, hassigns.isSome hname⟩

end Scope

/-! ### Importing what is bound -/

/-- The module can be asked for later on, and the name that is asked for is bound in it as it was
in the table. -/
structure Tree.Recalls (tree : Tree) (site : Site) (source : ImportSource) (imported : Imported)
    (module : String) (table : SymbolTable) (later : Cache) : Prop where
  deep : 0 < site.depth
  resolved : (tree.scopeAt site).resolve source = .ok module
  known : ∃ known, later.find? module = some known
    ∧ known.find? imported.written = table.find? imported.written

/-- The name cannot be anything else than what the module binds: the module is one of the tree, and
has no submodule of the name. -/
def Tree.Plain (tree : Tree) (module name : String) : Prop :=
  (tree.locate (Dotted.top module)).isSome ∧ tree.locate (Dotted.join module name) = none

section

variable {tree : Tree} {site : Site} {source : ImportSource} {imported : Imported}
  {module : String} {table : SymbolTable} {later : Cache}

namespace Tree.Recalls

theorem load (h : tree.Recalls site source imported module table later) :
    ∃ known, (tree.scopeAt site).load module later = (.ok known, later)
      ∧ known.find? imported.written = table.find? imported.written := by
  obtain ⟨⟨depth, name, location⟩, hdeep, -, known, hknown, hsame⟩ := site, h
  cases depth with
  | zero => exact absurd hdeep (Nat.lt_irrefl 0)
  | succ depth => exact ⟨known, tree.load_known hknown depth, hsame⟩

/-- What is bound is taken. -/
theorem replay_bound (h : tree.Recalls site source imported module table later)
    (hbound : (table.find? imported.written).isSome) :
    ((tree.scopeAt site).replay (.take source imported) later).1 = .ok () := by
  obtain ⟨known, hload, hsame⟩ := h.load
  rw [Scope.replay_take imported h.resolved]
  exact Scope.serve_bound hload (hsame ▸ hbound)

/-- What is not bound is missed. -/
theorem replay_unbound (h : tree.Recalls site source imported module table later)
    (hplain : tree.Plain module imported.written)
    (hunbound : table.find? imported.written = none) :
    ((tree.scopeAt site).replay (.take source imported) later).1
      = .error ⟨site.name, .noName imported.written module⟩ := by
  obtain ⟨known, hload, hsame⟩ := h.load
  have hinside : (tree.scopeAt site).isExternal module = false := by
    show (!(tree.locate (Dotted.top module)).isSome) = false
    rw [hplain.1]
    rfl
  have hlocated : (tree.scopeAt site).located (imported.submodule module) = false := by
    show (tree.locate (Dotted.join module imported.written)).isSome = false
    rw [hplain.2]
    rfl
  rw [Scope.replay_take imported h.resolved,
    Scope.serve_unbound hinside hload (hsame.trans hunbound), if_neg (by simp [hlocated])]
  rfl

end Tree.Recalls

end

/-- **An assignment binds the names outside its stars.**  It is replayed without failing, binds
these names, and changes no other binding; so it binds all that Python binds exactly where each name
behind a star stands outside the stars as well.  Of the names that it binds every later import from
the module succeeds.  A name that it passes over and that was not bound before is missed there. -/
theorem Assignment.replayed (scope : Scope) {a : Assignment} {right : Expr}
    (h : a.assigned? = some right) :
    (∀ cache table, cache.loading.find? scope.module = some table →
      ∃ value after, scope.evaluate right cache = (.ok value, cache)
        ∧ scope.replay (.assign a) cache = (.ok (), cache.put scope.module after)
        ∧ table.Assigns value a.unstarred after
        ∧ ∀ (tree : Tree) site source imported later,
          tree.Recalls site source imported scope.module after later →
          (imported.written ∈ a.unstarred →
            ((tree.scopeAt site).replay (.take source imported) later).1 = .ok ())
          ∧ (imported.written ∉ a.unstarred → table.find? imported.written = none →
            tree.Plain scope.module imported.written →
            ((tree.scopeAt site).replay (.take source imported) later).1
              = .error ⟨site.name, .noName imported.written scope.module⟩))
    ∧ ((∀ name ∈ a.bound, scope.Binds (.assign a) name) ↔
      ∀ name ∈ a.starred, name ∈ a.unstarred) := by
  constructor
  · intro cache table hown
    obtain ⟨value, after, hvalue, hreplay, hassigns⟩ := Scope.replay_assign h hown
    refine ⟨value, after, hvalue, hreplay, hassigns, fun tree site source imported later hrecalls =>
      ⟨fun hname => hrecalls.replay_bound (hassigns.isSome hname), fun hname hnone hplain => ?_⟩⟩
    exact hrecalls.replay_unbound hplain ((hassigns.spared _ hname).trans hnone)
  · simp only [Scope.binds_assign_iff h, a.mem_bound, or_imp, forall_and]
    exact and_iff_right fun _ => id

/-- `head = mid, [tail, *head] = pair`: the starred name is another target as well. -/
def unpacked : Assignment :=
  .chain (.name "head") (.value (.sequence [.name "mid", .sequence [.name "tail",
    .star (.name "head")]]) (.name "pair"))

/-- All three names are bound, as in Python. -/
theorem replayed_unpacked : announcer.Binds (.assign unpacked) "head"
    ∧ announcer.Binds (.assign unpacked) "mid" ∧ announcer.Binds (.assign unpacked) "tail" := by
  have hassigned : unpacked.assigned? = some (.name "pair") := rfl
  have hbinds := (Assignment.replayed announcer hassigned).2.mpr (by decide +kernel)
  exact ⟨hbinds "head" (by decide +kernel), hbinds "mid" (by decide +kernel),
    hbinds "tail" (by decide +kernel)⟩

/-- A module that unpacks the rest of a tuple, another in which a class had the name of the rest,
and one that imports the rest. -/
def unpacking : Disk where
  entries := [
    (["pkg.py"], .file (.text "first, *rest = (1, 2, 3)\n")),
    (["stale.py"], .file (.text "class rest:\n    pass\n\nfirst, *rest = (1, 2, 3)\n")),
    (["app.py"], .file (.text "from pkg import rest\n"))]
  workingDirectory := []

def unpackingLoader : Loader := { searchRoot := ⟨"."⟩ }

/-- The rest is not bound, or is still the class, and the import fails. -/
theorem starred_missed :
    (Importer.load unpacking "pkg" unpackingLoader).1.map
        (fun table => (table.find? "first", table.find? "rest")) = .ok (some .plainValue, none)
    ∧ (Importer.load unpacking "stale" unpackingLoader).1.map
        (fun table => (table.find? "first", table.find? "rest"))
      = .ok (some .plainValue, some (.classOf "stale"))
    ∧ (Importer.load unpacking "app" unpackingLoader).1
      = .error ⟨"app", .noName "rest" "pkg"⟩ := by
  decide +kernel

end Python

end ApiStubs
