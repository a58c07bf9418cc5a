import ApiStubs.Proofs.Forgetful
import ApiStubs.Proofs.ModulePaths
import ApiStubs.Proofs.Provenance
import Mathlib.Data.Prod.Lex

/-!
# Proofs — Nesting — loads inside loads come to an end

Modules import each other in cycles, a package is loaded before the modules inside it and imports
them, and a module that has failed is tried again.  A load ends all the same where finitely many
modules can be located.  Each load that is made on the way is nearer to its end (`toGo`): the
replay of a module takes it away from the modules that may still be entered, and the load of the
package around a module leaves those and has one component less.

The number that bounds how deep loads nest is therefore never used up, and has no part in what a
load comes to.  `Budget.weight` bounds from above how deep the loads inside a load nest.  It is
what `Tree.load_add` goes by, which compares the functions at two depths, and what every step of
the machine stays within (`State.Covered`).
-/

namespace ApiStubs.Python

/-- The modules being replayed. -/
def Cache.busy (cache : Cache) : Set String := { name | cache.loading.contains name }

/-- How far a load is from its end: the number of modules that may still be entered, and the number
of components of its own. -/
noncomputable def toGo (modules busy : Set String) (name : String) : Nat ×ₗ Nat :=
  toLex ((modules \ busy).ncard, (Dotted.components name).length)

namespace Tree

variable (tree : Tree)

/-- **A load comes to its end**, whatever the modules of the tree import. -/
structure Settles (modules : Set String) (depth : Nat) (name : String) (cache : Cache) :
    Prop where
  /-- From every moment of it the load goes on to its end, with a table or an import error. -/
  returns : ∀ {s : State}, tree.Steps ⟨.load depth name, [], cache⟩ s →
    tree.Steps s ⟨.loaded (tree.load depth name cache).1, [], (tree.load depth name cache).2⟩
  /-- It comes to the same however deep loads may nest. -/
  unbounded : ∀ more, tree.load (depth + more) name cache = tree.load depth name cache
  /-- No load on the way is refused for its depth. -/
  uncut : ∀ {s : State}, tree.Steps ⟨.load depth name, [], cache⟩ s →
    ∀ other, s.task ≠ .load 0 other
  /-- Each load on the way is nearer to its end than the one that it is part of. -/
  descends : ∀ {s : State}, tree.Steps ⟨.load depth name, [], cache⟩ s → s.stack ≠ [] →
    ∀ left other, s.task = .load left other →
      toGo modules s.cache.busy other < toGo modules cache.busy name
  /-- No module is entered while it is being replayed. -/
  enters : ∀ {s : State}, tree.Steps ⟨.load depth name, [], cache⟩ s →
    ∀ left other, s.task = .enter left other → other ∉ s.cache.busy

end Tree

/-! ### Modules being replayed -/

namespace Cache

theorem mem_busy {cache : Cache} {name : String} :
    name ∈ cache.busy ↔ cache.loading.contains name := Iff.rfl

theorem not_mem_busy {cache : Cache} {name : String} (h : cache.find? name = none) :
    name ∉ cache.busy := by
  rw [mem_busy, NameMap.contains, (find?_eq_none.mp h).2]
  exact Bool.false_ne_true

theorem busy_opened (cache : Cache) (name : String) :
    (cache.opened name).busy = insert name cache.busy := by
  ext other
  rw [mem_busy, Set.mem_insert_iff, mem_busy, NameMap.contains, NameMap.contains, opened,
    NameMap.find?_insert]
  by_cases ho : other = name <;> simp [ho]

theorem busy_closed (cache : Cache) (name : String) :
    (cache.closed name).busy = cache.busy \ {name} := by
  ext other
  rw [mem_busy, Set.mem_sdiff, mem_busy, NameMap.contains, NameMap.contains, closed,
    NameMap.find?_erase]
  by_cases ho : other = name <;> simp [ho]

theorem busy_settled (name : String) (outcome : Except ImportFailure Unit) (cache : Cache) :
    (settled name (outcome, cache)).2.busy = cache.busy \ {name} := by
  cases outcome <;> exact cache.busy_closed name

theorem Advances.busy {own : String} {before after : Cache} (h : Advances own before after) :
    after.busy = before.busy := by
  ext other
  rw [mem_busy, mem_busy, h.contains]

theorem Grows.busy {before after : Cache} (h : Grows before after) : after.busy = before.busy := by
  rw [Cache.busy, h.loading]
  rfl

end Cache

/-! ### What is left to go -/

theorem Dotted.components_ne_nil (name : String) : Dotted.components name ≠ [] :=
  Text.pieces_ne_nil '.' name

/-- The name of a package has fewer components than those inside it. -/
theorem components_length_of_parent? {name parent : String}
    (h : Dotted.parent? name = some parent) :
    (Dotted.components parent).length < (Dotted.components name).length := by
  obtain ⟨⟨before, inner⟩, hsplit, rfl⟩ := Option.map_eq_some_iff.mp h
  have hpieces : Dotted.components name = Dotted.components before ++ Dotted.components inner := by
    rw [Dotted.components, Text.pieces, Text.eq_of_splitLast? hsplit, String.toList_append,
      String.toList_append, String.toList_singleton, List.append_assoc, List.singleton_append,
      Text.cut_append_cut, List.map_append]
    rfl
  have hinner := List.length_pos_iff.mpr (Dotted.components_ne_nil inner)
  rw [hpieces, List.length_append]
  exact Nat.lt_add_of_pos_right hinner

/-- Finitely many modules, none with more components than `bound`. -/
structure Budget where
  modules : Set String
  bound : Nat
  finite : modules.Finite
  short : ∀ name ∈ modules, (Dotted.components name).length ≤ bound

namespace Budget

variable (budget : Budget) (tree : Tree)

/-- How deep loads may nest inside modules that are not busy. -/
noncomputable def room (busy : Set String) : Nat :=
  (budget.modules \ busy).ncard * (budget.bound + 2)

/-- How deep loads may nest inside the load of a module.  A name that is no module is above all
packages around it. -/
noncomputable def weight (busy : Set String) (name : String) : Nat :=
  budget.room busy
    + if tree.Located name then (Dotted.components name).length else budget.bound + 1

variable {budget tree} {busy : Set String} {name other : String}

/-- A module that is entered leaves room for all loads that it makes. -/
theorem room_insert (hname : name ∈ budget.modules) (hfree : name ∉ busy) :
    budget.room (insert name busy) + (budget.bound + 2) = budget.room busy := by
  have hcard := Set.ncard_sdiff_singleton_add_one (s := budget.modules \ busy) ⟨hname, hfree⟩
    budget.finite.sdiff
  rw [Set.sdiff_sdiff, Set.union_singleton] at hcard
  rw [room, room, ← hcard, Nat.add_mul, Nat.one_mul]

theorem mem_of_located (hreach : tree.reach name ⊆ budget.modules) (h : tree.Located name) :
    name ∈ budget.modules := hreach (Tree.self_mem_reach h)

theorem weight_le (hreach : tree.reach name ⊆ budget.modules) :
    budget.weight tree busy name ≤ budget.room busy + (budget.bound + 1) := by
  refine Nat.add_le_add_left ?_ _
  split
  · rename_i hlocated
    exact (budget.short name (mem_of_located hreach hlocated)).trans (Nat.le_succ _)
  · exact Nat.le_refl _

theorem weight_parent {parent : String} (hreach : tree.reach name ⊆ budget.modules)
    (hparent : tree.parent? name = some parent) :
    budget.weight tree busy parent < budget.weight tree busy name := by
  obtain ⟨hstep, hlocated⟩ := Tree.parent?_eq_some hparent
  refine Nat.add_lt_add_left ?_ _
  rw [if_pos hlocated]
  split
  · exact components_length_of_parent? hstep
  · have hmem := (Tree.Calls.around hparent).reach_subset (Tree.self_mem_reach hlocated)
    exact Nat.lt_succ_of_le (budget.short parent (hreach hmem))

/-- What a module asks for weighs less than the module did before it was entered. -/
theorem weight_asked (hreach : tree.reach name ⊆ budget.modules) (hasks : tree.AsksFor name other)
    (hfree : name ∉ busy) :
    budget.weight tree (insert name busy) other < budget.weight tree busy name := by
  have hlocated := Tree.located_of_asksFor hasks
  have hother : budget.weight tree (insert name busy) other
      ≤ budget.room (insert name busy) + (budget.bound + 1) :=
    weight_le ((Tree.Calls.asks hasks).reach_subset.trans hreach)
  have hroom := room_insert (mem_of_located hreach hlocated) hfree
  have hpos := List.length_pos_iff.mpr (Dotted.components_ne_nil name)
  rw [weight, weight, if_pos hlocated] at *
  omega

end Budget

/-! ### Two depths -/

namespace Tree

variable {tree : Tree} {budget : Budget}

/-- Two ways of importing that agree on what the module asks for replay it alike. -/
theorem loadFresh_congr {load load' : String → Importing SymbolTable} {name : String}
    {cache : Cache} (hgrows : ∀ other, Moves Cache.Grows (load other))
    (h : ∀ other inner, tree.AsksFor name other → inner.busy = insert name cache.busy →
      load other inner = load' other inner) :
    tree.loadFresh load name cache = tree.loadFresh load' name cache := by
  cases hlocate : tree.locate name with
  | none => rw [tree.loadFresh_missing hlocate, tree.loadFresh_missing hlocate]
  | some location =>
    rw [tree.loadFresh_located hlocate, tree.loadFresh_located hlocate, replay, replay]
    cases hcode : tree.code location.path with
    | error cause => rfl
    | ok statements =>
      -- while the module is replayed, it and those around it are busy
      let Inside (inner : Cache) : Prop := inner.busy = insert name cache.busy
      have hsync : Alike (Both Inside) ((tree.scope load name location).replayAll statements)
          (((tree.scope load name location).importingBy load').replayAll statements) := by
        refine Scope.replayAll_alike (fun change _ => ?_) (fun key => ?_) fun s hs other hasks => ?_
        · rintro c _ ⟨rfl, hc⟩
          have hadvances := (tree.scope load name location).update_advances change c
          exact ⟨rfl, rfl, hadvances.busy.trans hc⟩
        · exact Scope.lookup_alike_both Inside _ key
        · rintro c _ ⟨rfl, hc⟩
          have hsame := h other c ⟨location, statements, hlocate, hcode, s, hs,
            hasks.importingBy _⟩ hc
          show (load other c).1 = (load' other c).1
            ∧ (load other c).2 = (load' other c).2 ∧ (load other c).2.busy = _
          rw [← hsame]
          exact ⟨rfl, rfl, (hgrows other c).busy.trans hc⟩
      obtain ⟨hresult, hafter, -⟩ := hsync _ _ ⟨rfl, cache.busy_opened name⟩
      exact congrArg (Cache.settled name) (Prod.ext hresult hafter)

/-- **Depth beyond the weight of a module changes nothing.** -/
theorem load_add {depth : Nat} (more : Nat) {name : String} {cache : Cache}
    (hreach : tree.reach name ⊆ budget.modules)
    (h : budget.weight tree cache.busy name < depth) :
    tree.load (depth + more) name cache = tree.load depth name cache := by
  induction depth generalizing name cache with
  | zero => exact absurd h (Nat.not_lt_zero _)
  | succ depth ih =>
    have hfresh : ∀ after : Cache, after.busy = cache.busy → name ∉ cache.busy →
        tree.loadFresh (tree.load (depth + more)) name after
          = tree.loadFresh (tree.load depth) name after := by
      intro after hafter hfree
      refine loadFresh_congr (tree.load_grows _) fun other inner hasks hinner => ?_
      refine ih ((Calls.asks hasks).reach_subset.trans hreach) ?_
      rw [hinner, hafter]
      exact (Budget.weight_asked hreach hasks hfree).trans_le (Nat.le_of_lt_succ h)
    rw [Nat.succ_add, load_eq, load_eq]
    cases hf : cache.find? name with
    | some table => rfl
    | none =>
      have hfree := Cache.not_mem_busy hf
      cases hparent : tree.parent? name with
      | none => exact hfresh cache rfl hfree
      | some parent =>
        have hgrows := tree.load_grows depth parent cache
        have hsame : tree.load (depth + more) parent cache = tree.load depth parent cache :=
          ih ((Calls.around hparent).reach_subset.trans hreach)
            ((Budget.weight_parent hreach hparent).trans_le (Nat.le_of_lt_succ h))
        dsimp only
        rw [hsame]
        rcases hload : tree.load depth parent cache with ⟨failure | table, after⟩
        · rfl
        · rw [hload] at hgrows
          dsimp only
          cases after.loaded.find? name with
          | some own => rfl
          | none => exact hfresh after hgrows.busy hfree

end Tree

/-! ### What every step stays within -/

/-- The modules being replayed when a load has come to a stack. -/
def busyAt (taken : Set String) (stack : List Frame) : Set String :=
  taken ∪ { name | name ∈ bodies stack }

section Covered

variable (budget : Budget) (tree : Tree) (taken : Set String) (first : String)

/-- The replay of a module may load whatever the module asks for: fewer modules may be entered than
in the beginning, and there is room for those. -/
structure Site.Covered (busy : Set String) (site : Site) : Prop where
  located : tree.locate site.name = some site.location
  leads : tree.reach site.name ⊆ budget.modules
  fewer : (budget.modules \ busy).ncard < (budget.modules \ taken).ncard
  room : budget.room busy + (budget.bound + 1) < site.depth

/-- A module that is to be entered is not busy, and has room. -/
structure Enterable (busy : Set String) (depth : Nat) (name : String) : Prop where
  leads : tree.reach name ⊆ budget.modules
  weight : budget.weight tree busy name ≤ depth
  free : name ∉ busy

/-- The module asks for whatever the requests are for. -/
def Tree.Asked (tree : Tree) (site : Site) (requests : List Request) : Prop :=
  ∀ request ∈ requests, (tree.scopeAt site).isExternal request.module = false →
    tree.AsksFor site.name request.module

/-- A task stays within the budget; a load is the first one, or nearer to its end. -/
def Task.Covered (stack : List Frame) : Task → Prop
  | .load depth name =>
    tree.reach name ⊆ budget.modules
      ∧ budget.weight tree (busyAt taken stack) name < depth
      ∧ (stack = [] ∧ name = first
        ∨ toGo budget.modules (busyAt taken stack) name < toGo budget.modules taken first)
  | .enter depth name => Enterable budget tree (busyAt taken stack) depth name
  | .run site requests statements =>
    site.Covered budget tree taken (busyAt taken stack)
      ∧ tree.Asked site requests ∧ tree.Owns site statements
  | _ => True

/-- What waits for a task will stay within the budget. -/
def Frame.Covered (below : List Frame) : Frame → Prop
  | .around depth name => Enterable budget tree (busyAt taken below) depth name
  | .body name => name ∈ budget.modules ∧ name ∉ busyAt taken below
  | .request site _ requests statements =>
    site.Covered budget tree taken (busyAt taken below)
      ∧ tree.Asked site requests ∧ tree.Owns site statements
  | .attempt site handlers orElse finish statements =>
    site.Covered budget tree taken (busyAt taken below)
      ∧ tree.Owns site statements ∧ tree.Owns site ((catchingBlock? handlers).getD [])
      ∧ tree.Owns site (orElse.getD []) ∧ tree.Owns site (finish.getD [])

/-- Every frame of a stack stays within the budget. -/
def Covered : List Frame → Prop
  | [] => True
  | frame :: below => frame.Covered budget tree taken below ∧ Covered below

/-- **The invariant.**  The modules being replayed are those of the beginning and those on the
stack, and everything stays within the budget. -/
structure State.Covered (s : State) : Prop where
  busy : s.cache.busy = busyAt taken s.stack
  task : s.task.Covered budget tree taken first s.stack
  stack : Python.Covered budget tree taken s.stack

end Covered

section Steps

variable {budget : Budget} {tree : Tree} {taken : Set String} {first : String}

theorem Scope.Asks.within {scope : Scope} {name : String} {part whole : Statement}
    (h : scope.Asks name part) (hpart : part.Within whole) : scope.Asks name whole := by
  induction hpart with
  | self => exact h
  | branches hblock hs _ ih => exact .branches hblock hs ih
  | body hs _ ih => exact .body hs ih
  | handler hcatch hs _ ih => exact .handler hcatch hs ih
  | orElse hs _ ih => exact .orElse hs ih
  | finish hs _ ih => exact .finish hs ih

/-- A module asks for what its statements request. -/
theorem Tree.Contains.asked {site : Site} {s : Statement} {requests : List Request}
    (h : tree.Contains site.name s) (hsite : tree.locate site.name = some site.location)
    (hrequests : (tree.scopeAt site).requests s = .ok requests) : tree.Asked site requests := by
  obtain ⟨location, statements, hlocate, hcode, whole, hwhole, hpart⟩ := h
  cases hsite.symm.trans hlocate
  intro request hmem hext
  have hasks : (tree.scopeAt site).Asks request.module s := .request hrequests hmem rfl hext
  exact ⟨site.location, statements, hlocate, hcode, whole, hwhole,
    (hasks.within hpart).importingBy (tree.load 0)⟩

theorem busyAt_nil : busyAt taken [] = taken := by simp [busyAt, bodies]

theorem busyAt_body (name : String) (below : List Frame) :
    busyAt taken (.body name :: below) = insert name (busyAt taken below) := by
  ext other
  simp only [busyAt, bodies, Set.mem_union, Set.mem_ofPred_eq, List.mem_cons, Set.mem_insert_iff]
  tauto

/-- A module that is entered may load what it asks for. -/
theorem Enterable.covered {depth : Nat} {name : String} {location : Location}
    {busy : Set String} (h : Enterable budget tree busy depth name) (htaken : taken ⊆ busy)
    (hlocate : tree.locate name = some location) :
    Site.Covered budget tree taken (insert name busy) ⟨depth, name, location⟩ := by
  have hlocated : tree.Located name := by rw [Tree.Located, hlocate]; rfl
  have hmem : name ∈ budget.modules := Budget.mem_of_located h.leads hlocated
  have hroom := Budget.room_insert hmem h.free
  have hweight := h.weight
  have hpos := List.length_pos_iff.mpr (Dotted.components_ne_nil name)
  rw [Budget.weight, if_pos hlocated] at hweight
  refine ⟨hlocate, h.leads, ?_, ?_⟩
  · refine Set.ncard_lt_ncard ?_ budget.finite.sdiff
    refine (Set.ssubset_iff_of_subset ?_).mpr ⟨name, ⟨hmem, fun hin => h.free (htaken hin)⟩, ?_⟩
    · exact Set.sdiff_subset_sdiff_right (htaken.trans (Set.subset_insert name busy))
    · exact fun hin => hin.2 (Set.mem_insert name busy)
  · show budget.room (insert name busy) + (budget.bound + 1) < depth
    omega

/-- The package around a module is nearer to its end than the module. -/
theorem toGo_parent {modules busy : Set String} {name parent : String}
    (h : Dotted.parent? name = some parent) : toGo modules busy parent < toGo modules busy name :=
  Prod.Lex.toLex_lt_toLex.mpr (.inr ⟨rfl, components_length_of_parent? h⟩)

/-- What a module asks for is nearer to its end than the load of the beginning. -/
theorem Site.Covered.toGo_lt {site : Site} {busy : Set String}
    (h : site.Covered budget tree taken busy) (other : String) :
    toGo budget.modules busy other < toGo budget.modules taken first :=
  Prod.Lex.toLex_lt_toLex.mpr (.inl h.fewer)

/-- What a module does to its own table keeps the invariant. -/
theorem State.Covered.after {site : Site} {requests : List Request} {rest : List Statement}
    {stack : List Frame} {cache : Cache} {x : Importing Unit}
    (hbusy : cache.busy = busyAt taken stack) (hx : Moves (Cache.Works site.name) x)
    (hsite : site.Covered budget tree taken (busyAt taken stack))
    (hasked : tree.Asked site requests) (hrest : tree.Owns site rest)
    (hstack : Python.Covered budget tree taken stack) :
    (State.after site requests rest stack (x cache)).Covered budget tree taken first := by
  have hafter := (hx cache).1.busy.trans hbusy
  rcases hc : x cache with ⟨_ | _, after⟩ <;> rw [hc] at hafter
  · exact ⟨hafter, trivial, hstack⟩
  · exact ⟨hafter, ⟨hsite, hasked, hrest⟩, hstack⟩

/-- **One step keeps the invariant.** -/
theorem Tree.Step.covered {s t : State} (h : tree.Step s t)
    (hs : s.Covered budget tree taken first) : t.Covered budget tree taken first := by
  obtain ⟨hbusy, htask, hstack⟩ := hs
  cases h with
  | tooDeep | known _ | missing _ | done | unresolved _ _ => exact ⟨hbusy, trivial, hstack⟩
  | @around depth name parent stack cache hnone hparent =>
    obtain ⟨hreach, hweight, hnearer⟩ := htask
    have hfree : name ∉ busyAt taken stack := hbusy ▸ Cache.not_mem_busy hnone
    have hlighter : budget.weight tree (busyAt taken stack) parent
        < budget.weight tree (busyAt taken stack) name := Budget.weight_parent hreach hparent
    -- As many modules may be entered as before, but the name of the package is shorter.
    have hstep : toGo budget.modules (busyAt taken stack) parent
        < toGo budget.modules (busyAt taken stack) name :=
      toGo_parent (Tree.parent?_eq_some hparent).1
    refine ⟨hbusy, ⟨(Calls.around hparent).reach_subset.trans hreach,
      hlighter.trans_le (Nat.le_of_lt_succ hweight), .inr ?_⟩,
      ⟨hreach, Nat.le_of_lt_succ hweight, hfree⟩, hstack⟩
    rcases hnearer with ⟨rfl, rfl⟩ | hnearer
    · rw [busyAt_nil] at hstep
      exact (congrArg (toGo budget.modules · parent) busyAt_nil).trans_lt hstep
    · exact hstep.trans hnearer
  | alone hnone _ =>
    obtain ⟨hreach, hweight, -⟩ := htask
    exact ⟨hbusy, ⟨hreach, Nat.le_of_lt_succ hweight, hbusy ▸ Cache.not_mem_busy hnone⟩, hstack⟩
  | aroundFailed | along _ | uncaught _ | refused => exact ⟨hbusy, trivial, hstack.2⟩
  | inside _ => exact ⟨hbusy, hstack.1, hstack.2⟩
  | @unreadable depth name location cause stack cache hlocate _ =>
    have hmem : name ∈ budget.modules :=
      Budget.mem_of_located htask.leads (by rw [Located, hlocate]; rfl)
    refine ⟨?_, trivial, ⟨hmem, htask.free⟩, hstack⟩
    rw [Cache.busy_opened, busyAt_body, hbusy]
  | @enter depth name location statements stack cache hlocate hcode =>
    have hmem : name ∈ budget.modules :=
      Budget.mem_of_located htask.leads (by rw [Located, hlocate]; rfl)
    refine ⟨?_, ⟨?_, fun _ hmem => (by cases hmem), fun s hs => ?_⟩, ⟨hmem, htask.free⟩, hstack⟩
    · rw [Cache.busy_opened, busyAt_body, hbusy]
    · rw [busyAt_body]
      exact htask.covered Set.subset_union_left hlocate
    · exact ⟨_, _, hlocate, hcode, s, hs, .self⟩
  | @settle name outcome stack cache =>
    -- The module was not busy before it was entered, so it is no longer now.
    refine ⟨?_, trivial, hstack.2⟩
    rw [Cache.busy_settled, hbusy, busyAt_body, Set.insert_sdiff_self_of_notMem hstack.1.2]
  | @quiet site s _ _ _ _ =>
    obtain ⟨hsite, hasked, howns⟩ := htask
    have hrest := (List.forall_mem_cons.mp howns).2
    exact .after hbusy (tree.replay_works site s) hsite hasked hrest hstack
  | importing _ hrequests =>
    obtain ⟨hsite, -, howns⟩ := htask
    obtain ⟨hfirst, hrest⟩ := List.forall_mem_cons.mp howns
    exact ⟨hbusy, ⟨hsite, hfirst.asked hsite.located hrequests, hrest⟩, hstack⟩
  | branches =>
    obtain ⟨hsite, hasked, howns⟩ := htask
    obtain ⟨hfirst, hrest⟩ := List.forall_mem_cons.mp howns
    have hblocks := Statement.forall_branches fun _ => hfirst.within
    exact ⟨hbusy, ⟨hsite, hasked, Owns.append hblocks hrest⟩, hstack⟩
  | attempt =>
    obtain ⟨hsite, hasked, howns⟩ := htask
    obtain ⟨hfirst, hrest⟩ := List.forall_mem_cons.mp howns
    obtain ⟨hbody, hblocks⟩ := Statement.forall_attempt fun _ => hfirst.within
    exact ⟨hbusy, ⟨hsite, hasked, hbody⟩, ⟨hsite, hrest, hblocks⟩, hstack⟩
  | passed =>
    obtain ⟨⟨hsite, hrest, -, helse, hfinish⟩, hbelow⟩ := hstack
    exact ⟨hbusy, ⟨hsite, fun _ hmem => (by cases hmem), helse.append (hfinish.append hrest)⟩,
      hbelow⟩
  | caught hcatch =>
    obtain ⟨⟨hsite, hrest, hblock, -, hfinish⟩, hbelow⟩ := hstack
    rw [hcatch] at hblock
    exact ⟨hbusy, ⟨hsite, fun _ hmem => (by cases hmem),
      Owns.append hblock (hfinish.append hrest)⟩, hbelow⟩
  | @outside site request _ _ _ _ _ =>
    obtain ⟨hsite, hasked, hrest⟩ := htask
    exact .after hbusy (tree.takeOutside_works site request) hsite
      (List.forall_mem_cons.mp hasked).2 hrest hstack
  | @ask site request more rest stack cache hext =>
    obtain ⟨hsite, hasked, hrest⟩ := htask
    obtain ⟨hfirst, hmore⟩ := List.forall_mem_cons.mp hasked
    have hreach := (Calls.asks (hfirst hext)).reach_subset.trans hsite.leads
    -- Whatever is asked for, there are fewer modules to be entered than in the beginning.
    exact ⟨hbusy, ⟨hreach, (Budget.weight_le hreach).trans_lt hsite.room,
      .inr (hsite.toGo_lt request.module)⟩, ⟨hsite, hmore, hrest⟩, hstack⟩
  | @take site request _ _ table _ _ =>
    obtain ⟨⟨hsite, hmore, hrest⟩, hbelow⟩ := hstack
    exact .after hbusy (tree.take_works site request table) hsite hmore hrest hbelow

/-- So do all steps. -/
theorem Tree.Steps.covered {s t : State} (h : tree.Steps s t)
    (hs : s.Covered budget tree taken first) : t.Covered budget tree taken first := by
  induction h with
  | refl => exact hs
  | more hstep _ ih => exact ih (hstep.covered hs)

end Steps

/-! ### Loads come to their ends -/

namespace Tree

variable {tree : Tree}

theorem not_step_loaded (outcome : Except ImportFailure SymbolTable) (cache : Cache) (s : State) :
    ¬tree.Step ⟨.loaded outcome, [], cache⟩ s := fun h => by cases h

/-- There is one way to go, so it leads to the end. -/
theorem Steps.ends {s t u : State} (h : tree.Steps s t) (hend : tree.Steps s u)
    (hlast : ∀ v, ¬tree.Step u v) : tree.Steps t u := by
  induction h with
  | refl => exact hend
  | more hstep _ ih =>
    rcases hend.of_step hstep with rfl | hend
    · exact absurd hstep (hlast _)
    · exact ih hend

/-- Where there is depth enough for the weight of a module, its load comes to its end. -/
theorem settles_of_weight {budget : Budget} {depth : Nat} {name : String} {cache : Cache}
    (hreach : tree.reach name ⊆ budget.modules)
    (h : budget.weight tree cache.busy name < depth) :
    tree.Settles budget.modules depth name cache := by
  have hstart : State.Covered budget tree cache.busy name ⟨.load depth name, [], cache⟩ :=
    ⟨busyAt_nil.symm, ⟨hreach, by rwa [busyAt_nil], .inl ⟨rfl, rfl⟩⟩, trivial⟩
  refine ⟨fun hsteps => hsteps.ends (tree.steps_load depth name [] cache) (not_step_loaded _ _),
    fun more => load_add more hreach h, ?_, ?_, ?_⟩
  all_goals
    rintro ⟨task, stack, inner⟩ hsteps
    obtain ⟨hbusy, htask, -⟩ := hsteps.covered hstart
  · rintro other rfl
    exact absurd htask.2.1 (Nat.not_lt_zero _)
  · rintro hstack left other rfl
    rw [hbusy]
    exact htask.2.2.resolve_left fun hfirst => hstack hfirst.1
  · rintro left other rfl
    rw [hbusy]
    exact htask.free

/-- Every load comes to its end within the budget, if it may nest deeply enough. -/
theorem settles_of_budget (budget : Budget) {depth : Nat}
    (h : (budget.modules.ncard + 1) * (budget.bound + 2) ≤ depth) {name : String}
    (hreach : tree.reach name ⊆ budget.modules) (cache : Cache) :
    tree.Settles budget.modules depth name cache := by
  refine settles_of_weight hreach ((Budget.weight_le hreach).trans_lt ?_)
  have hsubset : budget.modules \ cache.busy ⊆ budget.modules := Set.sdiff_subset
  have hcard := Set.ncard_le_ncard hsubset budget.finite
  have hroom : budget.room cache.busy ≤ budget.modules.ncard * (budget.bound + 2) :=
    Nat.mul_le_mul_right _ hcard
  rw [Nat.add_mul, Nat.one_mul] at h
  omega

/-- The modules of a tree. -/
def modules (tree : Tree) : Set String := { name | tree.Located name }

/-- The modules whose names hold no separator of paths. -/
def plainModules (tree : Tree) : Set String := { name ∈ tree.modules | '/' ∉ name.toList }

theorem reach_subset_modules (name : String) : tree.reach name ⊆ tree.modules :=
  fun _ => located_of_mem_reach

theorem exists_budget {modules : Set String} (h : modules.Finite) :
    ∃ budget : Budget, budget.modules = modules := by
  obtain ⟨bound, hbound⟩ := (h.image fun name => (Dotted.components name).length).bddAbove
  exact ⟨⟨modules, bound, h, fun name hname => hbound (Set.mem_image_of_mem _ hname)⟩, rfl⟩

/-- The modules of plain names on a disk are a budget that fits into `maxNesting`. -/
theorem exists_plain_budget (disk : Disk) (root : FilePath) :
    ∃ budget : Budget, budget.modules = (Tree.below disk root).plainModules
      ∧ (budget.modules.ncard + 1) * (budget.bound + 2) ≤ maxNesting := by
  have hlength : (Tree.below disk root).plainModules ⊆ { name | name.length ≤ maxPathBytes } :=
    fun name hname => length_le_of_located hname.1 hname.2
  obtain ⟨hfinite, hcard⟩ := short_texts maxPathBytes
  have hcount := (Set.ncard_le_ncard hlength hfinite).trans hcard
  refine ⟨⟨_, maxPathBytes + 1, hfinite.subset hlength, fun name hname => ?_⟩, rfl, ?_⟩
  · have hpieces := Text.length_pieces '.' name
    have hshort := hlength hname
    rw [Dotted.components]
    exact (Nat.le_add_left _ _).trans (hpieces.le.trans (Nat.succ_le_succ hshort))
  · have hbound : ∀ digits limit count : Nat, 2 ≤ digits → count ≤ digits ^ limit →
        (count + 1) * (limit + 3) ≤ Nat.pow digits (limit + 1) * (limit + 3) := by
      intro digits limit count hdigits hle
      have hpos : 0 < digits ^ limit := Nat.pow_pos (by omega)
      have htwice : digits ^ limit * 2 ≤ digits ^ limit * digits := Nat.mul_le_mul_left _ hdigits
      refine Nat.mul_le_mul_right _ ?_
      show count + 1 ≤ digits ^ (limit + 1)
      rw [Nat.pow_succ]
      omega
    exact hbound _ _ _ (by decide) hcount

end Tree

/-- **Loading terminates.**  Where finitely many modules can be located, every load comes to its
end, whatever is cached and whatever the modules import.  A loader of the modules below a search
root nests deeply enough for all modules of plain names. -/
theorem loads_settle :
    (∀ tree : Tree, tree.modules.Finite → ∃ enough, ∀ depth, enough ≤ depth → ∀ name cache,
      tree.Settles tree.modules depth name cache)
    ∧ ∀ (disk : Disk) (loader : Loader) (name : String), loader.nesting = maxNesting →
      (loader.tree disk).reach name ⊆ (loader.tree disk).plainModules →
      (loader.tree disk).Settles (loader.tree disk).plainModules loader.nesting name
        loader.cache := by
  constructor
  · intro tree hfinite
    obtain ⟨budget, hmodules⟩ := Tree.exists_budget hfinite
    refine ⟨(budget.modules.ncard + 1) * (budget.bound + 2), fun depth hdepth name cache => ?_⟩
    rw [← hmodules]
    exact Tree.settles_of_budget budget hdepth (hmodules ▸ Tree.reach_subset_modules name) cache
  · intro disk loader name hnesting hreach
    obtain ⟨budget, hmodules, hdepth⟩ := Tree.exists_plain_budget disk loader.searchRoot
    rw [← hnesting] at hdepth
    have hplain : (loader.tree disk).plainModules = budget.modules := hmodules.symm
    rw [hplain] at hreach ⊢
    exact Tree.settles_of_budget budget hdepth hreach loader.cache

/-- A package that imports itself and takes everything from a module of its own, which takes
everything from the package and imports a program that imports from it. -/
def entangled : Tree where
  locate name :=
    if name = "pkg" then some ⟨⟨"pkg/__init__.py"⟩, true⟩
    else if name = "pkg.core" then some ⟨⟨"pkg/core.py"⟩, false⟩
    else if name = "app" then some ⟨⟨"app.py"⟩, false⟩
    else none
  code path :=
    if path = ⟨"pkg/__init__.py"⟩ then
      .ok [.importModules [⟨"pkg", none⟩],
        .attempt [.importFrom (.relative 1 "core") .everything] [.mk ⟨false, []⟩ []] none none]
    else if path = ⟨"pkg/core.py"⟩ then
      .ok [.importFrom (.absolute "pkg") .everything, .importModules [⟨"app", none⟩],
        .functionDef "f"]
    else .ok [.importFrom (.absolute "pkg.core") (.listed [⟨"f", none⟩])]

theorem entangled_finite : entangled.modules.Finite := by
  refine (Set.toFinite {"pkg", "pkg.core", "app"}).subset fun name hname => ?_
  by_contra hnone
  simp only [Set.mem_insert_iff, Set.mem_singleton_iff, not_or] at hnone
  simp [Tree.modules, Tree.Located, entangled, hnone] at hname

/-- The loads of the entangled modules come to their ends, and so do those of a loader. -/
theorem loads_settle_entangled :
    (∃ enough, ∀ depth, enough ≤ depth → entangled.Settles entangled.modules depth "pkg" {})
    ∧ Loader.fallingBackTree.Settles Loader.fallingBackTree.plainModules maxNesting "app" {} := by
  obtain ⟨enough, hsettles⟩ := loads_settle.1 entangled entangled_finite
  refine ⟨⟨enough, fun depth hdepth => hsettles depth hdepth "pkg" {}⟩, ?_⟩
  refine loads_settle.2 Loader.fallingBack Loader.fallingBackLoader "app" rfl fun other ho => ?_
  refine ⟨Tree.located_of_mem_reach ho, ?_⟩
  rcases Loader.fallingBack_reach (by simp) ho with rfl | rfl <;> decide

/-- The program fails for want of a name and its module with it, and the package does without. -/
example : ((entangled.load 9 "pkg" {}).1.map SymbolTable.publicBindings = .ok [("pkg", .ofModule)])
    ∧ (entangled.load 9 "pkg" {}).2.loaded.contains "pkg.core" = false := by decide +kernel

end ApiStubs.Python
