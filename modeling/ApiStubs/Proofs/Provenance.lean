import ApiStubs.Proofs.Discipline

/-!
# Proofs — Provenance — what the origin of a binding says

A binding names the module its object comes from, and is copied from table to table: by an alias,
by an import of one name or of all, out of the unfinished table of a module in a cycle.  No copy
changes it, so that the origin stays that of the statement that made the binding
(`Tree.Vouches`): a class comes from a module whose code holds a class definition, a function from
one whose code holds a function definition or a lambda, and an object from a class or from outside
the tree.

The invariant is one for all tables at once, loaded or unfinished (`Cache.Vouched`), together with
the statements that are still to be replayed, which are part of the code of their module
(`State.Vouched`).  Every step of the machine keeps it, whatever comes of the modules: a table
that was copied from a module stays what it is when the module fails later on.
-/

namespace ApiStubs.Python

/-! ### What the code of a module makes -/

/-- The expression is a lambda, in parentheses perhaps. -/
def Expr.isLambda : Expr → Bool
  | .lambda _ => true
  | .group false inner => inner.isLambda
  | _ => false

namespace Tree

variable (tree : Tree)

/-- The code of the module holds a class definition. -/
def DefinesClass (name : String) : Prop := ∃ id, tree.Contains name (.classDef id)

/-- The code of the module holds a function definition, or assigns a lambda. -/
def DefinesFunction (name : String) : Prop :=
  (∃ id, tree.Contains name (.functionDef id))
    ∨ ∃ a right, tree.Contains name (.assign a) ∧ a.assigned? = some right ∧ right.isLambda

/-- The top-level package of the module is not one of the tree. -/
def External (name : String) : Prop := tree.locate (Dotted.top name) = none

/-- **What the tree knows of the origin of a binding.** -/
inductive Vouches : Binding → Prop where
  | module : Vouches .ofModule
  | class {origin : String} : tree.DefinesClass origin → Vouches (.classOf origin)
  | function {origin : String} : tree.DefinesFunction origin → Vouches (.functionOf origin)
  | plain : Vouches .plainValue
  | object {origin : String} : tree.DefinesClass origin → Vouches (.objectOf origin)
  | external {origin : String} : tree.External origin → Vouches (.objectOf origin)

end Tree

end ApiStubs.Python

/-! ### Tables and caches -/

namespace ApiStubs.SymbolTable

open Python (Tree)

/-- The tree vouches for every binding of the table. -/
def Vouched (tree : Tree) (table : SymbolTable) : Prop :=
  ∀ name binding, table.find? name = some binding → tree.Vouches binding

theorem Vouched.named {tree : Tree} (name : String) : (SymbolTable.named name).Vouched tree := by
  intro key binding h
  cases h

/-- A star import takes what the table binds. -/
theorem find?_of_mem_starBindings {table : SymbolTable} {entry : String × Binding}
    (h : entry ∈ table.starBindings) : table.find? entry.1 = some entry.2 := by
  rw [starBindings] at h
  split at h
  · obtain ⟨name, -, hname⟩ := List.mem_filterMap.mp h
    obtain ⟨binding, hfind, rfl⟩ := Option.map_eq_some_iff.mp hname
    exact hfind
  · exact NameMap.find?_eq_some.mpr (List.mem_filter.mp h).1

end ApiStubs.SymbolTable

namespace ApiStubs.Python

/-- The tree vouches for every binding of every table. -/
structure Cache.Vouched (tree : Tree) (cache : Cache) : Prop where
  loaded : ∀ name table, cache.loaded.find? name = some table → table.Vouched tree
  loading : ∀ name table, cache.loading.find? name = some table → table.Vouched tree

variable {tree : Tree}

theorem Edit.imp {P Q : Binding → Prop} {change : Change} (h : Edit P change)
    (himp : ∀ binding, P binding → Q binding) : Edit Q change := by
  cases h with
  | bind name hb => exact .bind name (himp _ hb)
  | unbind name => exact .unbind name
  | declare hdeclare => exact .declare hdeclare

/-- An edit with bindings that the tree vouches for keeps the table vouched for. -/
theorem Edit.vouched {change : Change} (h : Edit tree.Vouches change) {table : SymbolTable}
    (ht : table.Vouched tree) : (change table).Vouched tree := by
  intro key binding hfind
  cases h with
  | bind name hb =>
    rw [SymbolTable.find?_bind] at hfind
    split at hfind
    · cases hfind
      exact hb
    · exact ht key binding hfind
  | unbind name =>
    rw [SymbolTable.find?_unbind] at hfind
    split at hfind
    · cases hfind
    · exact ht key binding hfind
  | declare hdeclare =>
    rw [SymbolTable.find?, (hdeclare table).2] at hfind
    exact ht key binding hfind

namespace Cache.Vouched

variable {cache : Cache}

theorem empty : Vouched tree {} := by
  constructor <;> intro name table h <;> cases h

theorem find? (h : cache.Vouched tree) {name : String} {table : SymbolTable}
    (hfind : cache.find? name = some table) : table.Vouched tree := by
  rcases Option.or_eq_some_iff.mp hfind with hloaded | ⟨-, hloading⟩
  · exact h.loaded name table hloaded
  · exact h.loading name table hloading

theorem unfinished (h : cache.Vouched tree) (name : String) :
    (cache.unfinished name).Vouched tree := by
  rw [Cache.unfinished]
  cases hf : cache.loading.find? name with
  | none => exact .named name
  | some table => exact h.loading name table hf

/-- A vouched table is put among those being replayed. -/
theorem put (h : cache.Vouched tree) (name : String) {table : SymbolTable}
    (ht : table.Vouched tree) : (cache.put name table).Vouched tree := by
  refine ⟨h.loaded, fun key found hf => ?_⟩
  rw [Cache.put, NameMap.find?_insert] at hf
  split at hf
  · cases hf
    exact ht
  · exact h.loading key found hf

theorem opened (h : cache.Vouched tree) (name : String) : (cache.opened name).Vouched tree :=
  h.put name (.named name)

theorem closed (h : cache.Vouched tree) (name : String) : (cache.closed name).Vouched tree := by
  refine ⟨h.loaded, fun key found hf => ?_⟩
  rw [Cache.closed, NameMap.find?_erase] at hf
  split at hf
  · cases hf
  · exact h.loading key found hf

/-- What is settled was vouched for while it was replayed. -/
theorem settled (h : cache.Vouched tree) (name : String) (outcome : Except ImportFailure Unit) :
    (Cache.settled name (outcome, cache)).2.Vouched tree := by
  cases outcome with
  | error failure => exact h.closed name
  | ok _ =>
    refine ⟨fun key found hf => ?_, (h.closed name).loading⟩
    rw [Cache.settled, Cache.finished, NameMap.find?_insert] at hf
    split at hf
    · cases hf
      exact h.unfinished name
    · exact h.loaded key found hf

end Cache.Vouched

/-! ### Parts of a replay -/

namespace Scope

variable (scope : Scope) {cache : Cache}

theorem update_vouched {change : Change} (h : Edit tree.Vouches change)
    (hc : cache.Vouched tree) : (scope.update change cache).2.Vouched tree := by
  rw [run_update]
  split
  · rename_i table htable
    exact hc.put scope.module (h.vouched (hc.loading _ table htable))
  · exact hc

theorem write_vouched (changes : List Change) (h : ∀ change ∈ changes, Edit tree.Vouches change)
    (hc : cache.Vouched tree) : (scope.write changes cache).2.Vouched tree := by
  induction changes generalizing cache with
  | nil => exact hc
  | cons change more ih =>
    obtain ⟨hfirst, hmore⟩ := List.forall_mem_cons.mp h
    rw [write_cons, Importing.run_bind_ok (run_update scope change cache)]
    exact ih hmore (scope.update_vouched hfirst hc)

theorem lookup_vouched {name : String} {binding : Binding} (hc : cache.Vouched tree)
    (h : (scope.lookup name cache).1 = .ok (some binding)) : tree.Vouches binding := by
  have hfind : ((cache.loading.find? scope.module).bind fun table => table.find? name)
      = some binding := Except.ok.inj h
  obtain ⟨table, htable, hbinding⟩ := Option.bind_eq_some_iff.mp hfind
  exact hc.loading _ table htable name binding hbinding

/-- What an expression is, the tree vouches for, where the module may make lambdas. -/
theorem evaluate_vouched {e : Expr} {binding : Binding} (hc : cache.Vouched tree)
    (hlambda : e.isLambda → tree.DefinesFunction scope.module)
    (h : (scope.evaluate e cache).1 = .ok binding) : tree.Vouches binding := by
  fun_induction scope.evaluate e with
  | case1 parts =>
    cases h
    exact .function (hlambda rfl)
  | case2 id =>
    rw [Importing.run_bind] at h
    rcases hlook : scope.lookup id cache with ⟨_ | found, after⟩
    · rw [hlook] at h
      cases h
    · rw [hlook] at h
      cases h
      -- an unknown name is a plain value
      cases found with
      | none => exact .plain
      | some known => exact scope.lookup_vouched hc (by rw [hlook]; rfl)
  | case3 id arguments =>
    rw [Importing.run_bind] at h
    rcases hlook : scope.lookup id cache with ⟨_ | found, after⟩
    · rw [hlook] at h
      cases h
    · rw [hlook] at h
      dsimp only at h
      split at h
      · -- the object of a class belongs where the class does
        rename_i origin
        cases h
        have hclass : tree.Vouches (.classOf origin) :=
          scope.lookup_vouched hc (by rw [hlook]; rfl)
        cases hclass with
        | «class» hdefines => exact .object hdefines
      · cases h
        exact .plain
  | case4 inner ih => exact ih (fun hinner => hlambda (by rw [Expr.isLambda]; exact hinner)) h
  | case5 e =>
    cases h
    exact .plain

/-- A quiet statement finds its changes before it writes any of them. -/
theorem replay_quiet_cases {s : Statement} (hquiet : s.isQuiet) (cache : Cache) :
    (scope.replay s cache).2 = cache ∨ ∃ made, (scope.changes s cache).1 = .ok made
      ∧ (scope.replay s cache).2 = (scope.write made cache).2 := by
  have hlook : ∀ name, Alike (Both (· = cache)) (scope.lookup name) (scope.lookup name) :=
    lookup_alike_both (· = cache) scope
  have hkept : (scope.changes s cache).2 = cache :=
    (@changes_alike _ scope scope.load hlook s cache cache ⟨rfl, rfl⟩).2.2
  rw [replay_eq_changes scope hquiet, Importing.run_bind]
  rcases hmade : scope.changes s cache with ⟨_ | made, after⟩ <;> rw [hmade] at hkept <;>
    cases hkept
  · exact .inl rfl
  · exact .inr ⟨made, rfl, rfl⟩

/-- A quiet statement of a module leaves vouched tables. -/
theorem replay_quiet_vouched {s : Statement} (hquiet : s.isQuiet)
    (hs : tree.Contains scope.module s) (hc : cache.Vouched tree) :
    (scope.replay s cache).2.Vouched tree := by
  have hmakes : ∀ binding, scope.Makes cache s binding → tree.Vouches binding := by
    intro binding hmakes
    cases hmakes with
    | classDef => exact .class ⟨_, hs⟩
    | functionDef => exact .function (.inl ⟨_, hs⟩)
    | @assigned a right _ hassigned hvalue =>
      exact scope.evaluate_vouched hc (fun hl => .inr ⟨a, right, hs, hassigned, hl⟩) hvalue
    | part => exact .plain
  rcases scope.replay_quiet_cases hquiet cache with hkept | ⟨made, hmade, hwritten⟩
  · rwa [hkept]
  · rw [hwritten]
    refine scope.write_vouched made (fun change hmem => ?_) hc
    exact (edit_of_changes hmade hmem).imp hmakes

/-- What is taken from a table that the tree vouches for keeps the cache vouched for. -/
theorem take_vouched (request : Request) {table : SymbolTable} (ht : table.Vouched tree)
    (hc : cache.Vouched tree) : (scope.take request table cache).2.Vouched tree := by
  rw [take]
  cases request.use with
  | asModule imported => exact scope.update_vouched (.bind _ .module) hc
  | everything =>
    -- a star import is a list of changes, one for each name it takes
    let binds : String × Binding → Change := fun entry table => table.bind entry.1 entry.2
    have hwrite : (table.starBindings.forM fun entry => scope.bind entry.1 entry.2)
        = scope.write (table.starBindings.map binds) := by
      rw [write, List.forM_eq_forM, List.forM_eq_forM, List.forM_map]
      rfl
    show ((table.starBindings.forM fun entry => scope.bind entry.1 entry.2) cache).2.Vouched tree
    rw [hwrite]
    refine scope.write_vouched _ (fun change hmem => ?_) hc
    obtain ⟨entry, hentry, rfl⟩ := List.mem_map.mp hmem
    exact .bind _ (ht _ _ (SymbolTable.find?_of_mem_starBindings hentry))
  | name imported =>
    simp only [Importing.run_bind, Importing.run_liftExcept, taken]
    cases hfind : table.find? imported.written with
    | some binding => exact scope.update_vouched (.bind _ (ht _ _ hfind)) hc
    | none =>
      cases scope.located (Dotted.join request.module imported.written) with
      | true => exact scope.update_vouched (.bind _ .module) hc
      | false => exact hc

/-- What a module outside the tree hands out comes from outside. -/
theorem takeOutside_vouched {request : Request} (h : tree.External request.module)
    (hc : cache.Vouched tree) : (scope.takeOutside request cache).2.Vouched tree := by
  rw [takeOutside]
  cases request.use with
  | asModule imported => exact scope.update_vouched (.bind _ .module) hc
  | everything => exact hc
  | name imported => exact scope.update_vouched (.bind _ (.external h)) hc

end Scope

/-! ### Every step keeps the invariant -/

/-- The statements are part of the code of a module. -/
def Tree.Owns (tree : Tree) (site : Site) (statements : List Statement) : Prop :=
  ∀ s ∈ statements, tree.Contains site.name s

theorem Tree.Owns.append {site : Site} {first second : List Statement}
    (h : tree.Owns site first) (h' : tree.Owns site second) : tree.Owns site (first ++ second) :=
  List.forall_mem_append.mpr ⟨h, h'⟩

/-- What a task replays belongs to its module, and the tree vouches for the table it hands out. -/
def Task.Vouched (tree : Tree) : Task → Prop
  | .run site _ statements => tree.Owns site statements
  | .loaded (.ok table) => table.Vouched tree
  | _ => True

/-- What waits for a task is to replay statements of its module. -/
def Frame.Vouched (tree : Tree) : Frame → Prop
  | .request site _ _ statements => tree.Owns site statements
  | .attempt site handlers orElse finish statements =>
    tree.Owns site statements ∧ tree.Owns site ((catchingBlock? handlers).getD [])
      ∧ tree.Owns site (orElse.getD []) ∧ tree.Owns site (finish.getD [])
  | _ => True

/-- **The invariant.**  The tree vouches for all tables, and every statement that is still to be
replayed is part of the code of its module. -/
structure State.Vouched (tree : Tree) (s : State) : Prop where
  cache : s.cache.Vouched tree
  task : s.task.Vouched tree
  stack : ∀ frame ∈ s.stack, frame.Vouched tree

namespace Tree

theorem vouched_after {site : Site} {requests : List Request} {rest : List Statement}
    {stack : List Frame} (hrest : tree.Owns site rest)
    (hstack : ∀ frame ∈ stack, frame.Vouched tree) {result : Except ImportFailure Unit × Cache}
    (hc : result.2.Vouched tree) : (State.after site requests rest stack result).Vouched tree := by
  obtain ⟨_ | _, cache⟩ := result
  · exact ⟨hc, trivial, hstack⟩
  · exact ⟨hc, hrest, hstack⟩

/-- One step keeps vouched for what the cache holds and what waits on the stack. -/
theorem Step.vouched {s t : State} (h : tree.Step s t) (hs : s.Vouched tree) :
    t.Vouched tree := by
  obtain ⟨hcache, htask, hstack⟩ := hs
  cases h with
  | tooDeep | missing _ => exact ⟨hcache, trivial, hstack⟩
  | known hknown => exact ⟨hcache, hcache.find? hknown, hstack⟩
  | around _ _ => exact ⟨hcache, trivial, List.forall_mem_cons.mpr ⟨trivial, hstack⟩⟩
  | alone _ _ => exact ⟨hcache, trivial, hstack⟩
  | aroundFailed | inside _ => exact ⟨hcache, trivial, (List.forall_mem_cons.mp hstack).2⟩
  | along hown => exact ⟨hcache, hcache.loaded _ _ hown, (List.forall_mem_cons.mp hstack).2⟩
  | unreadable _ _ =>
    exact ⟨hcache.opened _, trivial, List.forall_mem_cons.mpr ⟨trivial, hstack⟩⟩
  | enter hlocate hcode =>
    refine ⟨hcache.opened _, fun s hs => ?_, List.forall_mem_cons.mpr ⟨trivial, hstack⟩⟩
    exact ⟨_, _, hlocate, hcode, s, hs, .self⟩
  | @settle name outcome _ cache =>
    refine ⟨hcache.settled name outcome, ?_, (List.forall_mem_cons.mp hstack).2⟩
    -- What is handed out is the table as it was in the cache.
    cases outcome with
    | error failure => exact trivial
    | ok _ => exact hcache.unfinished name
  | done | unresolved _ _ => exact ⟨hcache, trivial, hstack⟩
  | @quiet site s rest _ _ hquiet =>
    obtain ⟨hfirst, hrest⟩ := List.forall_mem_cons.mp htask
    exact vouched_after hrest hstack ((tree.scopeAt site).replay_quiet_vouched hquiet hfirst hcache)
  | importing _ _ => exact ⟨hcache, (List.forall_mem_cons.mp htask).2, hstack⟩
  | branches =>
    obtain ⟨hfirst, hrest⟩ := List.forall_mem_cons.mp htask
    exact ⟨hcache, Owns.append (Statement.forall_branches fun _ => hfirst.within) hrest, hstack⟩
  | attempt =>
    obtain ⟨hfirst, hrest⟩ := List.forall_mem_cons.mp htask
    obtain ⟨hbody, hblocks⟩ := Statement.forall_attempt fun _ => hfirst.within
    exact ⟨hcache, hbody, List.forall_mem_cons.mpr ⟨⟨hrest, hblocks⟩, hstack⟩⟩
  | passed =>
    obtain ⟨⟨hrest, -, helse, hfinish⟩, hbelow⟩ := List.forall_mem_cons.mp hstack
    exact ⟨hcache, helse.append (hfinish.append hrest), hbelow⟩
  | caught hcatch =>
    obtain ⟨⟨hrest, hblock, -, hfinish⟩, hbelow⟩ := List.forall_mem_cons.mp hstack
    rw [hcatch] at hblock
    exact ⟨hcache, Owns.append hblock (hfinish.append hrest), hbelow⟩
  | uncaught _ | refused => exact ⟨hcache, trivial, (List.forall_mem_cons.mp hstack).2⟩
  | @outside site request _ _ _ _ hext =>
    have houtside : tree.External request.module := by
      simpa [Scope.isExternal, scopeAt, scope, External] using hext
    exact vouched_after htask hstack ((tree.scopeAt site).takeOutside_vouched houtside hcache)
  | ask _ => exact ⟨hcache, trivial, List.forall_mem_cons.mpr ⟨htask, hstack⟩⟩
  | @take site request _ _ _ _ _ =>
    obtain ⟨hrest, hbelow⟩ := List.forall_mem_cons.mp hstack
    exact vouched_after hrest hbelow ((tree.scopeAt site).take_vouched request htask hcache)

theorem Later.vouched {s t : State} (h : tree.Later s t) (hs : s.Vouched tree) :
    t.Vouched tree := by
  induction h with
  | refl => exact hs
  | tail _ hnext ih =>
    cases hnext with
    | step hstep => exact hstep.vouched ih
    | again _ _ => exact ⟨ih.cache, trivial, ih.stack⟩

/-- **Origins are true.**  At every moment in the life of a loader, and in every table, loaded or
unfinished, the tree vouches for every binding. -/
theorem reachable_vouched {s : State} (h : tree.Reachable s) {module : String}
    {table : SymbolTable}
    (htable : s.cache.loaded.find? module = some table
      ∨ s.cache.loading.find? module = some table)
    {name : String} {binding : Binding} (hfind : table.find? name = some binding) :
    tree.Vouches binding := by
  obtain ⟨depth, first, hlater⟩ := h
  have hs : s.Vouched tree := Later.vouched hlater ⟨.empty, trivial, by simp⟩
  rcases htable with hloaded | hloading
  · exact hs.cache.loaded module table hloaded name binding hfind
  · exact hs.cache.loading module table hloading name binding hfind

/-- A package with a module that hands out its class in a cycle and fails afterwards. -/
def abandoned : Tree where
  locate name :=
    if name = "pkg" then some ⟨⟨"pkg/__init__.py"⟩, true⟩
    else if name = "pkg.core" then some ⟨⟨"pkg/core.py"⟩, false⟩
    else if name = "pkg.app" then some ⟨⟨"pkg/app.py"⟩, false⟩
    else none
  code path :=
    if path = ⟨"pkg/__init__.py"⟩ then
      .ok [.attempt [.importFrom (.relative 1 "core") .everything] [.mk ⟨false, []⟩ []] none none]
    else if path = ⟨"pkg/core.py"⟩ then
      .ok [.classDef "Engine", .importFrom (.relative 1 "app") (.listed [⟨"engine", none⟩]),
        .importModules [⟨"pkg.missing", none⟩]]
    else
      .ok [.importFrom (.relative 1 "core") (.listed [⟨"Engine", some "Motor"⟩]),
        .assign (.chain (.name "spare") (.value (.name "engine") (.call (.name "Motor") [])))]

/-- The moment when the package has been loaded. -/
def abandonedLoaded : State where
  task := .loaded (abandoned.load 4 "pkg" {}).1
  stack := []
  cache := (abandoned.load 4 "pkg" {}).2

/-- An object of the class belongs to the module of the class, which is not there any more. -/
theorem reachable_vouched_abandoned :
    abandoned.Reachable abandonedLoaded
    ∧ (abandonedLoaded.cache.loaded.find? "pkg.app").bind (fun table => table.find? "spare")
      = some (.objectOf "pkg.core")
    ∧ abandonedLoaded.cache.loaded.find? "pkg.core" = none
    ∧ abandoned.DefinesClass "pkg.core" := by
  have hreachable : abandoned.Reachable abandonedLoaded :=
    ⟨4, "pkg", (abandoned.steps_load 4 "pkg" [] {}).later⟩
  have hspare : (abandonedLoaded.cache.loaded.find? "pkg.app").bind
      (fun table => table.find? "spare") = some (.objectOf "pkg.core") := by decide +kernel
  obtain ⟨table, htable, hfind⟩ := Option.bind_eq_some_iff.mp hspare
  refine ⟨hreachable, hspare, by decide +kernel, ?_⟩
  cases reachable_vouched hreachable (.inl htable) hfind with
  | object hdefines => exact hdefines
  | external houtside => exact absurd houtside (by unfold External; decide)

end Tree

end ApiStubs.Python
