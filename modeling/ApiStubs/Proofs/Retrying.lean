import ApiStubs.Proofs.Discipline
import ApiStubs.Proofs.Locating
import Mathlib

/-!
# Proofs — Retrying — loading again what has failed

A load that fails leaves the modules loaded that were finished on its way.  When the same module is
asked for again, those are handed out at once, and everything else is replayed as before.  So the
load fails again, in the same way, if nothing that has failed on the way stands among the loaded
modules at the end (`Loader.load_again`).  A module that does stand there is handed out although its
load has just failed: this is a module that a package imports before it fails.

The proof follows the first load through the machine and compares each part of it with the same part
replayed with the tables of the end loaded (`Cache.holding`): a load that succeeds has left its table
there, a load that fails fails again.
-/

namespace ApiStubs.Python

namespace Cache

/-- The cache with other tables loaded. -/
def holding (cache : Cache) (tables : NameMap SymbolTable) : Cache :=
  { cache with loaded := tables }

/-- The loaded tables are among the given ones. -/
def Within (tables : NameMap SymbolTable) (cache : Cache) : Prop :=
  ∀ name table, cache.loaded.find? name = some table → tables.find? name = some table

/-- The loaded tables are among the given ones, and no module being replayed has one of them. -/
structure Under (tables : NameMap SymbolTable) (cache : Cache) : Prop where
  within : cache.Within tables
  apart : ∀ name, cache.loading.contains name → tables.find? name = none

variable {tables : NameMap SymbolTable} {cache after : Cache} {name own : String}

theorem Within.of_retains (h : after.Within tables) (hretains : Retains cache after) :
    cache.Within tables := fun name table hf => h name table (hretains.kept name table hf)

theorem Under.advances (h : cache.Under tables) (hadvances : Advances own cache after)
    (hwithin : after.Within tables) : after.Under tables :=
  ⟨hwithin, fun name hname => h.apart name ((hadvances.contains name).symm.trans hname)⟩

theorem Under.opened (h : cache.Under tables) (hname : tables.find? name = none) :
    (cache.opened name).Under tables := by
  refine ⟨h.within, fun key hkey => ?_⟩
  by_cases heq : key = name
  · rw [heq, hname]
  · refine h.apart key ?_
    simpa [NameMap.contains, Cache.opened, heq] using hkey

end Cache

/-- The computation comes to the same with the tables loaded, if it leaves none loaded but those. -/
def Again (tables : NameMap SymbolTable) {α : Type} (x : Importing α) (cache : Cache) : Prop :=
  (x cache).2.Within tables → x (cache.holding tables) = ((x cache).1, (x cache).2.holding tables)

namespace Again

variable {tables : NameMap SymbolTable} {cache : Cache} {α β : Type}

theorem pure (a : α) : Again tables (Pure.pure a : Importing α) cache := fun _ => rfl

theorem throw (failure : ImportFailure) :
    Again tables (MonadExcept.throw failure : Importing α) cache := fun _ => rfl

theorem outcome {x : Importing α} (h : Again tables x cache) : Again tables x.outcome cache := by
  intro hwithin
  rw [Importing.run_outcome, Importing.run_outcome, h hwithin]

/-- What is computed first leaves nothing loaded that is not loaded in the end. -/
theorem bind {x : Importing α} {f : α → Importing β} (hx : Again tables x cache)
    (hkept : ∀ a, Moves Cache.Retains (f a))
    (hf : ∀ a between, x cache = (.ok a, between) → between.Within tables →
      Again tables (f a) between) :
    Again tables (x >>= f) cache := by
  intro hwithin
  rw [Importing.run_bind] at hwithin ⊢
  rw [Importing.run_bind]
  rcases hc : x cache with ⟨failure | a, between⟩ <;> rw [hc] at hwithin
  · rw [hx (by rw [hc]; exact hwithin), hc]
  · have hbetween : between.Within tables := hwithin.of_retains (hkept a between)
    rw [hx (by rw [hc]; exact hbetween), hc]
    exact hf a between hc hbetween hwithin

end Again

/-- The second cache is the first one with the given tables loaded. -/
def Holding (tables : NameMap SymbolTable) (c d : Cache) : Prop := d = c.holding tables

theorem Alike.again {tables : NameMap SymbolTable} {α : Type} {x : Importing α}
    (h : Alike (Holding tables) x x) (cache : Cache) : Again tables x cache := by
  intro _
  obtain ⟨hresult, hcache⟩ := h cache _ rfl
  exact Prod.ext hresult.symm hcache

namespace Scope

variable {scope : Scope} {tables : NameMap SymbolTable}

theorem update_holding (change : Change) :
    Alike (Holding tables) (scope.update change) (scope.update change) := by
  rintro c _ rfl
  have hfound : (c.holding tables).loading.find? scope.module
      = c.loading.find? scope.module := rfl
  rw [run_update, run_update, hfound]
  refine ⟨rfl, ?_⟩
  cases c.loading.find? scope.module <;> rfl

theorem lookup_holding (name : String) :
    Alike (Holding tables) (scope.lookup name) (scope.lookup name) := by
  rintro c _ rfl
  exact ⟨rfl, rfl⟩

theorem replay_quiet_again {s : Statement} (hs : s.isQuiet) (cache : Cache) :
    Again tables (scope.replay s) cache := by
  have h : Alike (Holding tables) (scope.replay s) ((scope.importingBy scope.load).replay s) :=
    replay_quiet_alike (fun change _ => update_holding change) lookup_holding hs
  exact h.again cache

theorem take_again (request : Request) (table : SymbolTable) (cache : Cache) :
    Again tables (scope.take request table) cache := by
  have h : Alike (Holding tables) (scope.take request table)
      ((scope.importingBy scope.load).take request table) :=
    take_alike (fun change _ => update_holding change) request table
  exact h.again cache

theorem takeOutside_again (request : Request) (cache : Cache) :
    Again tables (scope.takeOutside request) cache := by
  have h : Alike (Holding tables) (scope.takeOutside request)
      ((scope.importingBy scope.load).takeOutside request) :=
    takeOutside_alike (fun change _ => update_holding change) request
  exact h.again cache

end Scope

/-! ### What fails on the way -/

namespace Tree

/-- From here on, no load fails whose module has one of the tables. -/
def Clean (tree : Tree) (tables : NameMap SymbolTable) (s : State) : Prop :=
  ∀ depth name stack cache failure, tree.Steps s ⟨.load depth name, stack, cache⟩ →
    (tree.load depth name cache).1 = .error failure → tables.find? name = none

variable {tree : Tree} {tables : NameMap SymbolTable} {site : Site}

theorem Clean.steps {s t : State} (h : tree.Clean tables s) (hsteps : tree.Steps s t) :
    tree.Clean tables t := fun depth name stack cache failure hload =>
  h depth name stack cache failure (hsteps.trans hload)

theorem Clean.step {s t : State} (h : tree.Clean tables s) (hstep : tree.Step s t) :
    tree.Clean tables t := h.steps (.one hstep)

theorem Clean.of_step {s t : State} (hstep : tree.Step s t) (ht : tree.Clean tables t)
    (hs : ∀ depth name, s.task ≠ .load depth name) : tree.Clean tables s := by
  intro depth name stack cache failure hsteps hfails
  rcases hsteps.of_step hstep with rfl | hrest
  · exact absurd rfl (hs depth name)
  · exact ht depth name stack cache failure hrest hfails

/-- A load is clean if what it steps to is, and if it does not fail itself for one of the tables. -/
theorem Clean.of_load {depth : Nat} {name : String} {stack : List Frame} {cache : Cache}
    {t : State} (hstep : tree.Step ⟨.load depth name, stack, cache⟩ t) (ht : tree.Clean tables t)
    (hs : tables.find? name = none ∨ ∃ table, (tree.load depth name cache).1 = .ok table) :
    tree.Clean tables ⟨.load depth name, stack, cache⟩ := by
  intro deep other frames inner failure hsteps hfails
  rcases hsteps.of_step hstep with heq | hrest
  · cases heq
    refine hs.resolve_right ?_
    rintro ⟨table, hloads⟩
    cases hloads.symm.trans hfails
  · exact ht deep other frames inner failure hrest hfails

theorem clean_loaded (outcome : Except ImportFailure SymbolTable) (cache : Cache) :
    tree.Clean tables ⟨.loaded outcome, [], cache⟩ := by
  rintro depth name stack inner failure (_ | ⟨⟨⟩, _⟩)

/-- Wherever they are clean, the loads of a depth come to the same with the tables. -/
def LoadsAgain (tree : Tree) (tables : NameMap SymbolTable) (depth : Nat) : Prop :=
  ∀ name stack cache, tree.Clean tables ⟨.load depth name, stack, cache⟩ →
    cache.Under tables → Again tables (tree.load depth name) cache

/-- Wherever their replay is clean, the statements come to the same with the tables. -/
def RunsAgain (tree : Tree) (tables : NameMap SymbolTable) (site : Site)
    (statements : List Statement) : Prop :=
  ∀ rest stack cache, tree.Clean tables ⟨.run site [] (statements ++ rest), stack, cache⟩ →
    cache.Under tables → Again tables ((tree.scopeAt site).replayAll statements) cache

/-! ### Requests -/

theorem advances_load (tree : Tree) (site : Site) (name : String) :
    Moves (Cache.Advances site.name) (tree.load site.depth name) := fun cache =>
  (tree.load_grows site.depth name cache).advances site.name

/-- Serving a request advances. -/
theorem advances_serve (tree : Tree) (site : Site) (request : Request) :
    Moves (Cache.Advances site.name) ((tree.scopeAt site).serve request) := by
  intro cache
  rw [Scope.serve]
  cases (tree.scopeAt site).isExternal request.module with
  | true => exact (tree.takeOutside_works site request cache).1
  | false =>
    have hload := tree.advances_load site request.module cache
    simp only [Bool.false_eq_true, if_false, Importing.run_bind,
      show (tree.scopeAt site).load = tree.load site.depth from rfl]
    rcases hc : tree.load site.depth request.module cache with ⟨failure | table, after⟩ <;>
      rw [hc] at hload
    · exact hload
    · exact hload.trans (tree.take_works site request table after).1

theorem advances_requests (tree : Tree) (site : Site) :
    ∀ requests : List Request,
      Moves (Cache.Advances site.name) (requests.forM (tree.scopeAt site).serve)
  | [] => fun cache => .refl site.name cache
  | request :: more => by
    intro cache
    have hfirst := tree.advances_serve site request cache
    show Cache.Advances site.name cache
      ((do (tree.scopeAt site).serve request; more.forM (tree.scopeAt site).serve) cache).2
    rw [Importing.run_bind]
    rcases hc : (tree.scopeAt site).serve request cache with ⟨failure | _, after⟩ <;>
      rw [hc] at hfirst
    · exact hfirst
    · exact hfirst.trans (advances_requests tree site more after)

/-- A request is served again where its module is loaded to the same. -/
theorem serve_again (hl : tree.LoadsAgain tables site.depth) {request : Request}
    {more : List Request} {rest : List Statement} {stack : List Frame} {cache : Cache}
    (hclean : tree.Clean tables ⟨.run site (request :: more) rest, stack, cache⟩)
    (hunder : cache.Under tables) :
    Again tables ((tree.scopeAt site).serve request) cache := by
  rw [Scope.serve]
  cases hext : (tree.scopeAt site).isExternal request.module with
  | true => exact Scope.takeOutside_again request cache
  | false =>
    have hload : Again tables ((tree.scopeAt site).load request.module) cache :=
      hl _ _ _ (hclean.step (.ask hext)) hunder
    exact hload.bind (fun table between => (tree.take_works site request table between).1.toRetains)
      fun table between _ _ => Scope.take_again request table between

/-- Requests are served again, one after the other, where loads come to the same. -/
theorem requests_again (hl : tree.LoadsAgain tables site.depth) {rest : List Statement}
    {stack : List Frame} {requests : List Request} {cache : Cache}
    (hclean : tree.Clean tables ⟨.run site requests rest, stack, cache⟩)
    (hunder : cache.Under tables) :
    Again tables (requests.forM (tree.scopeAt site).serve) cache := by
  induction requests generalizing cache with
  | nil => exact .pure ()
  | cons request more ih =>
    have hpath := steps_request (tree.steps_load site.depth) request more rest stack cache
    have hadvances := tree.advances_serve site request cache
    show Again tables
      (do (tree.scopeAt site).serve request; more.forM (tree.scopeAt site).serve) cache
    refine (serve_again hl hclean hunder).bind
      (fun _ between => (tree.advances_requests site more between).toRetains)
      fun _ between hserve hwithin => ?_
    rw [hserve] at hpath hadvances
    exact ih (hclean.steps hpath) (hunder.advances hadvances hwithin)

/-! ### Statements -/

theorem advances_replayAll (tree : Tree) (site : Site) (statements : List Statement) :
    Moves (Cache.Advances site.name) ((tree.scopeAt site).replayAll statements) :=
  (tree.scopeAt site).replayAll_advances (fun name => tree.load_grows site.depth name) statements

/-- Statements behind each other run again if both parts do. -/
theorem RunsAgain.append {first second : List Statement} (hfirst : tree.RunsAgain tables site first)
    (hsecond : tree.RunsAgain tables site second) :
    tree.RunsAgain tables site (first ++ second) := by
  intro rest stack cache hclean hunder
  have hpath := tree.runs_replayAll site first (second ++ rest) stack cache
  have hadvances := tree.advances_replayAll site first cache
  rw [List.append_assoc] at hclean
  rw [Scope.replayAll_append]
  refine (hfirst _ _ _ hclean hunder).bind
    (fun _ between => (tree.advances_replayAll site second between).toRetains)
    fun _ between hrun hwithin => ?_
  rw [hrun] at hpath hadvances
  exact hsecond _ _ _ (hclean.steps hpath) (hunder.advances hadvances hwithin)

theorem RunsAgain.all : ∀ {statements : List Statement},
    (∀ s ∈ statements, tree.RunsAgain tables site [s]) → tree.RunsAgain tables site statements
  | [], _ => fun _ _ _ _ _ => .pure ()
  | s :: rest, h => by
    have hfirst := h s List.mem_cons_self
    exact hfirst.append (RunsAgain.all fun t ht => h t (List.mem_cons_of_mem _ ht))

theorem RunsAgain.optional {block? : Option (List Statement)}
    (h : ∀ block ∈ block?, ∀ s ∈ block, tree.RunsAgain tables site [s]) :
    tree.RunsAgain tables site (block?.getD []) := by
  cases block? with
  | none => exact fun _ _ _ _ _ => .pure ()
  | some block => exact .all (h block rfl)

/-- A statement is replayed again where loads come to the same. -/
theorem runsAgain_statement (hl : tree.LoadsAgain tables site.depth) (statement : Statement) :
    tree.RunsAgain tables site [statement] := by
  induction statement using Statement.induct with
  | quiet s hs =>
    intro rest stack cache _ _
    rw [Scope.replayAll_singleton]
    exact Scope.replay_quiet_again hs cache
  | imports s hs =>
    intro rest stack cache hclean hunder
    rw [Scope.replayAll_singleton, Scope.replay_eq_requests _ hs]
    cases hr : (tree.scopeAt site).requests s with
    | error failure => exact fun _ => rfl
    | ok requests => exact requests_again hl (hclean.step (.importing hs hr)) hunder
  | branches blocks ih =>
    intro rest stack cache hclean hunder
    rw [Scope.replayAll_singleton, Scope.replay, Scope.replayBlocks_eq]
    refine RunsAgain.all (fun s hs => ?_) rest stack cache (hclean.step .branches) hunder
    obtain ⟨block, hblock, hmem⟩ := List.mem_flatten.mp hs
    exact ih block hblock s hmem
  | attempt body handlers orElse finish ihbody ihhandler ihelse ihfinish =>
    intro rest stack cache hclean hunder
    have hfinish := RunsAgain.optional ihfinish
    have hstart := hclean.step .attempt
    have hpath := tree.runs_replayAll site body []
      (.attempt site handlers orElse finish rest :: stack) cache
    have hadvances := tree.advances_replayAll site body cache
    rw [List.append_nil] at hpath
    have hbody := RunsAgain.all ihbody [] _ cache (by rwa [List.append_nil]) hunder
    rw [Scope.replayAll_singleton, Scope.replay_attempt_eq]
    refine hbody.outcome.bind (fun outcome between => ?_) fun outcome between hrun hwithin => ?_
    · cases outcome with
      | ok _ => exact (tree.advances_replayAll site _ between).toRetains
      | error failure =>
        dsimp only
        cases catchingBlock? handlers with
        | none => exact .refl between
        | some block => exact (tree.advances_replayAll site _ between).toRetains
    · -- The body has come to the same: what is replayed behind it starts from the same cache.
      rw [Importing.run_outcome] at hrun
      cases hrun
      have hmiddle := hunder.advances hadvances hwithin
      rcases hc : (tree.scopeAt site).replayAll body cache with ⟨failure | _, between⟩ <;>
        rw [hc] at hpath hmiddle
      · dsimp only
        cases hcatch : catchingBlock? handlers with
        | none => exact .throw failure
        | some block =>
          have hhandled := RunsAgain.append (.all (ihhandler block hcatch)) hfinish
          refine hhandled rest stack between ?_ hmiddle
          rw [List.append_assoc]
          exact (hstart.steps hpath).step (.caught hcatch)
      · refine RunsAgain.append (.optional ihelse) hfinish rest stack between ?_ hmiddle
        rw [List.append_assoc]
        exact ((hstart.steps hpath).step .done).step .passed

/-! ### Loads -/

theorem load_of_parent_failed {depth : Nat} {name parent : String} {cache after : Cache}
    {failure : ImportFailure} (hnone : cache.find? name = none)
    (hparent : tree.parent? name = some parent)
    (hload : tree.load depth parent cache = (.error failure, after)) :
    tree.load (depth + 1) name cache = (.error failure, after) := by
  simp only [load_eq, hnone, hparent, hload]

theorem load_of_readied {depth : Nat} {name : String} {cache after : Cache}
    (hnone : cache.find? name = none) (h : tree.Readied depth name cache after) :
    tree.load (depth + 1) name cache = tree.loadFresh (tree.load depth) name after := by
  cases h with
  | alone halone => simp only [load_eq, hnone, halone]
  | inside hparent hload hunloaded => simp only [load_eq, hnone, hparent, hload, hunloaded]

/-- The machine comes to the replay of a module that is ready for it. -/
theorem Readied.steps {depth : Nat} {name : String} {cache after : Cache}
    (h : tree.Readied depth name cache after) (hnone : cache.find? name = none)
    (stack : List Frame) :
    tree.Steps ⟨.load (depth + 1) name, stack, cache⟩ ⟨.enter depth name, stack, after⟩ := by
  cases h with
  | alone halone => exact .one (.alone hnone halone)
  | @inside parent _ _ hparent hload hunloaded =>
    have hpath := tree.steps_load depth parent (.around depth name :: stack) cache
    rw [hload] at hpath
    exact .more (.around hnone hparent) (hpath.trans (.one (.inside hunloaded)))

/-- What a load has handed out is handed out with the tables: it is there, or still being
replayed. -/
theorem load_ok_again {depth : Nat} {name : String} {cache after : Cache} {table : SymbolTable}
    (hunder : cache.Under tables) (h : tree.load (depth + 1) name cache = (.ok table, after))
    (hwithin : after.Within tables) :
    tree.load (depth + 1) name (cache.holding tables) = (.ok table, after.holding tables) := by
  cases hloading : cache.loading.find? name with
  | none =>
    have hloaded := tree.loaded_of_load_ok hloading (congrArg Prod.fst h)
    rw [h] at hloaded
    have hgrows := tree.load_grows (depth + 1) name cache
    rw [h] at hgrows
    have hsame : cache.holding tables = after.holding tables := by
      rw [Cache.holding, Cache.holding, hgrows.loading]
    rw [hsame]
    exact tree.load_of_loaded (hwithin name table hloaded) depth
  | some unfinished =>
    have hnone := hunder.apart name (by rw [NameMap.contains, hloading]; rfl)
    have hunloaded : cache.loaded.find? name = none := by
      cases hfound : cache.loaded.find? name with
      | none => rfl
      | some found => cases hnone.symm.trans (hunder.within name found hfound)
    have hknown : cache.find? name = some unfinished := by
      rw [Cache.find?, hunloaded, hloading]
      rfl
    have hheld : (cache.holding tables).find? name = some unfinished := by
      show (tables.find? name).or (cache.loading.find? name) = _
      rw [hnone, hloading]
      rfl
    rw [tree.load_known hknown] at h
    cases h
    exact tree.load_known hheld depth

/-- A module that failed fails again, for the same reason and with the same left in the cache. -/
theorem loadFresh_failed_again {depth : Nat} (hl : tree.LoadsAgain tables depth) {name : String}
    {stack : List Frame} {cache after : Cache} {failure : ImportFailure}
    (hclean : tree.Clean tables ⟨.enter depth name, stack, cache⟩) (hunder : cache.Under tables)
    (hname : tables.find? name = none)
    (h : tree.loadFresh (tree.load depth) name cache = (.error failure, after))
    (hwithin : after.Within tables) :
    tree.loadFresh (tree.load depth) name (cache.holding tables)
      = (.error failure, after.holding tables) := by
  cases hlocate : tree.locate name with
  | none =>
    rw [tree.loadFresh_missing hlocate] at h ⊢
    cases h
    rfl
  | some location =>
    rw [tree.loadFresh_located hlocate, replay] at h ⊢
    cases hcode : tree.code location.path with
    | error cause =>
      rw [hcode] at h
      cases h
      rfl
    | ok statements =>
      rw [hcode] at h
      let site : Site := ⟨depth, name, location⟩
      have hruns : tree.RunsAgain tables site statements :=
        .all fun s _ => runsAgain_statement hl s
      have hentered := hclean.step (.enter hlocate hcode)
      have hagain := hruns [] (.body name :: stack) (cache.opened name)
        (by rwa [List.append_nil]) (hunder.opened hname)
      simp only [show tree.scope (tree.load depth) name location = tree.scopeAt site from rfl]
        at h ⊢
      rcases hc : (tree.scopeAt site).replayAll statements (cache.opened name)
        with ⟨failure' | _, last⟩ <;> rw [hc] at h
      · cases h
        have hlast := hagain (by rw [hc]; exact hwithin)
        rw [hc] at hlast
        rw [show (cache.holding tables).opened name = (cache.opened name).holding tables from rfl,
          hlast]
        rfl
      · cases h

/-- **Loads come to the same with the tables of the end**, wherever they are clean. -/
theorem loads_again (tree : Tree) (tables : NameMap SymbolTable) :
    ∀ depth, tree.LoadsAgain tables depth
  | 0 => fun _ _ _ _ _ _ => rfl
  | depth + 1 => by
    have ih := loads_again tree tables depth
    intro name stack cache hclean hunder
    rw [Again]
    rcases hload : tree.load (depth + 1) name cache with ⟨failure | table, last⟩
    · -- A load that fails is not among the tables of the end, so it is tried again.
      have hname := hclean (depth + 1) name stack cache failure (.refl _) (by rw [hload])
      have hheld (hnone : cache.find? name = none) : (cache.holding tables).find? name = none :=
        Cache.find?_eq_none.mpr ⟨hname, (Cache.find?_eq_none.mp hnone).2⟩
      revert hload
      refine tree.load_cases (P := fun result => result = (.error failure, last) →
        last.Within tables → _ = (Except.error failure, last.holding tables)) ?_ ?_ ?_ ?_
      · rintro table _ ⟨⟩
      · rintro parent failure' after hnone hparent hload ⟨⟩ hwithin
        have hagain := ih parent _ cache (hclean.step (.around hnone hparent)) hunder
          (by rw [hload]; exact hwithin)
        rw [hload] at hagain
        exact load_of_parent_failed (hheld hnone) hparent hagain
      · rintro parent table own after _ _ _ _ ⟨⟩
      · intro after hnone hready hload hwithin
        have hgrows := tree.loadFresh_grows (tree.load_grows depth)
          (hready.unknown (tree.load_grows depth) hnone)
        rw [hload] at hgrows
        have hafter : after.Within tables := hwithin.of_retains hgrows.toRetains
        have hloading := (hready.moves .refl (tree.load_grows depth)).loading
        have hready' : tree.Readied depth name (cache.holding tables) (after.holding tables) := by
          cases hready with
          | alone halone => exact .alone halone
          | @inside parent table _ hparent hparentLoad _ =>
            have hagain := ih parent _ cache (hclean.step (.around hnone hparent)) hunder
              (by rw [hparentLoad]; exact hafter)
            rw [hparentLoad] at hagain
            exact .inside hparent hagain hname
        rw [load_of_readied (hheld hnone) hready']
        refine loadFresh_failed_again ih (hclean.steps (hready.steps hnone stack)) ⟨hafter, ?_⟩
          hname hload hwithin
        rw [hloading]
        exact hunder.apart
    · intro hwithin
      exact load_ok_again hunder hload hwithin

/-! ### The module itself -/

/-- A module whose replay fails is not loaded by it. -/
theorem unloaded_of_loadFresh_failed {depth : Nat} {name : String} {cache after : Cache}
    {failure : ImportFailure} (hnone : cache.find? name = none)
    (h : tree.loadFresh (tree.load depth) name cache = (.error failure, after)) :
    after.loaded.find? name = none := by
  obtain ⟨hunloaded, -⟩ := Cache.find?_eq_none.mp hnone
  cases hlocate : tree.locate name with
  | none =>
    rw [tree.loadFresh_missing hlocate] at h
    cases h
    exact hunloaded
  | some location =>
    rw [tree.loadFresh_located hlocate] at h
    have hadvances := tree.replay_advances (tree.load_grows depth) name location (cache.opened name)
    have hopened : (cache.opened name).loading.contains name := by
      simp [NameMap.contains, Cache.opened]
    rcases hc : tree.replay (tree.load depth) name location (cache.opened name)
      with ⟨failure' | _, last⟩ <;> rw [hc] at h hadvances
    · cases h
      exact hadvances.unfinished name hopened hunloaded
    · cases h

/-- A module that is loaded although its load has failed is one that the package around it has
imported before it failed. -/
theorem parent_failed_of_loaded {depth : Nat} {name : String} {cache after : Cache}
    {failure : ImportFailure} {table : SymbolTable}
    (h : tree.load (depth + 1) name cache = (.error failure, after))
    (hloaded : after.loaded.find? name = some table) :
    ∃ parent, tree.parent? name = some parent
      ∧ tree.load depth parent cache = (.error failure, after) := by
  revert h
  refine tree.load_cases (P := fun result => result = (.error failure, after) → _) ?_ ?_ ?_ ?_
  · rintro _ _ ⟨⟩
  · rintro parent _ _ _ hparent hload ⟨⟩
    exact ⟨parent, hparent, hload⟩
  · rintro _ _ _ _ _ _ _ _ ⟨⟩
  · intro between hnone hready h
    have hunknown := hready.unknown (tree.load_grows depth) hnone
    cases hloaded.symm.trans (unloaded_of_loadFresh_failed hunknown h)

/-- On the way through the load of a module, the load of a module fails. -/
def FailsOnTheWay (tree : Tree) (depth : Nat) (name : String) (cache : Cache) (other : String) :
    Prop :=
  ∃ deep stack inner failure,
    tree.Steps ⟨.load depth name, [], cache⟩ ⟨.load deep other, stack, inner⟩
    ∧ (tree.load deep other inner).1 = .error failure

/-- A load that fails and leaves nothing loaded that has failed on its way fails again. -/
theorem load_failed_again {depth : Nat} {name : String} {cache after : Cache}
    {failure : ImportFailure} (hidle : cache.loading = ∅)
    (h : tree.load depth name cache = (.error failure, after))
    (hclean : ∀ other, tree.FailsOnTheWay depth name cache other →
      after.loaded.find? other = none) :
    tree.load depth name after = (.error failure, after) := by
  have hgrows := tree.load_grows depth name cache
  rw [h] at hgrows
  have hunder : cache.Under after.loaded :=
    ⟨hgrows.kept, fun key hkey => by simp [NameMap.contains, hidle] at hkey⟩
  have hagain := tree.loads_again after.loaded depth name [] cache
    (fun deep other stack inner failure' hsteps hfails =>
      hclean other ⟨deep, stack, inner, failure', hsteps, hfails⟩)
    hunder (by rw [h]; exact fun _ _ hf => hf)
  rw [h] at hagain
  -- nothing is being replayed before or after, so the tables of the end are all there is
  have hsame : cache.holding after.loaded = after := by
    rw [Cache.holding, ← hgrows.loading]
  rwa [hsame] at hagain

end Tree

namespace Loader

variable {disk : Disk} {loader after : Loader} {name : String} {failure : ImportFailure}

theorem load_of_tree_load {result : Except ImportFailure SymbolTable} {last : Cache}
    (h : (loader.tree disk).load loader.nesting name loader.cache = (result, last)) :
    Importer.load disk name loader = (result, { loader with cache := last }) := by
  show load disk name loader = _
  rw [load, h]

theorem tree_load_of_load {result : Except ImportFailure SymbolTable}
    (h : Importer.load disk name loader = (result, after)) :
    (loader.tree disk).load loader.nesting name loader.cache = (result, after.cache)
      ∧ after = { loader with cache := after.cache } := by
  change (_, { loader with cache := _ }) = _ at h
  cases h
  exact ⟨rfl, rfl⟩

/-- **What has failed is tried again.**  If the module stands among the loaded ones at the end,
because the package around it has imported it before it failed, it is handed out the next time.  But
if no module stands there of which a load has failed on the way, the load fails the next time as it
did before, and every time after that. -/
theorem load_again (hidle : loader.cache.loading = ∅) (hdeep : 0 < loader.nesting)
    (h : Importer.load disk name loader = (.error failure, after)) :
    (∀ table, after.cache.loaded.find? name = some table →
      (∃ parent, (loader.tree disk).parent? name = some parent
        ∧ (loader.tree disk).load (loader.nesting - 1) parent loader.cache
          = (.error failure, after.cache))
      ∧ Importer.load disk name after = (.ok table, after))
    ∧ ((∀ other, (loader.tree disk).FailsOnTheWay loader.nesting name loader.cache other →
        after.cache.loaded.find? other = none) →
      Importer.load disk name after = (.error failure, after)) := by
  obtain ⟨depth, hdepth⟩ : ∃ depth, loader.nesting = depth + 1 := Nat.exists_eq_add_one.mpr hdeep
  obtain ⟨hload, hafter⟩ := tree_load_of_load h
  refine ⟨fun table hloaded => ⟨?_, ?_⟩, fun hclean => ?_⟩
  · rw [hdepth] at hload ⊢
    exact Tree.parent_failed_of_loaded hload hloaded
  · rw [hafter, hdepth] at hloaded ⊢
    exact load_of_tree_load (Tree.load_of_loaded _ hloaded depth)
  · have hagain := Tree.load_failed_again hidle hload hclean
    rw [hafter] at hagain ⊢
    exact load_of_tree_load hagain

/-! ### A package that stops half-way -/

/-- A package that imports one of its modules before it fails, and a module that asks another one
for a name it does not have. -/
def halting : Disk where
  entries := [
    (["pkg"], .directory),
    (["pkg", "__init__.py"], .file (.text "import pkg.core\nimport pkg.gone\n")),
    (["pkg", "core.py"], .file (.text "def f():\n    pass\n")),
    (["app.py"], .file (.text "from util import g\n")),
    (["util.py"], .file (.text ""))]
  workingDirectory := []

def haltingLoader : Loader := { searchRoot := ⟨"."⟩ }

/-- The module of the package is not loaded, and handed out when it is asked for again, while the
package goes on failing. -/
theorem failed_load_handed_out :
    (Importer.load halting "pkg.core" haltingLoader).1
      = .error ⟨"pkg.gone", .noModule "pkg.gone"⟩
    ∧ (Importer.load halting "pkg.core" (Importer.load halting "pkg.core" haltingLoader).2).1.map
        (fun table => table.find? "f") = .ok (some (.functionOf "pkg.core"))
    ∧ (Importer.load halting "pkg" (Importer.load halting "pkg.core" haltingLoader).2).1
      = .error ⟨"pkg.gone", .noModule "pkg.gone"⟩ := by
  decide +kernel

/-- The same loader, with room for four modules inside each other. -/
def shallowLoader : Loader := { haltingLoader with nesting := 4 }

def appFile : Location := ⟨⟨"./app.py"⟩, false⟩

def utilFile : Location := ⟨⟨"./util.py"⟩, false⟩

def haltingTree : Tree := shallowLoader.tree halting

/-- The loader after a load from it. -/
def haltingAfter (name : String) : Loader := (Importer.load halting name shallowLoader).2

def appStatement : Statement := .importFrom (.absolute "util") (.listed [⟨"g", none⟩])

theorem halting_app_spelled : (Source.ofText? "from util import g\n").map Source.statements
    = some [appStatement] := by
  cbv

theorem halting_util_spelled : (Source.ofText? "").map Source.statements = some [] := by
  cbv

theorem halting_app_code : haltingTree.code appFile.path = .ok [appStatement] := by
  rw [haltingTree, Loader.tree, Tree.below_code]
  exact ⟨_, rfl, halting_app_spelled⟩

theorem halting_util_code : haltingTree.code utilFile.path = .ok [] := by
  rw [haltingTree, Loader.tree, Tree.below_code]
  exact ⟨"", rfl, halting_util_spelled⟩

theorem halting_app_location : haltingTree.locate "app" = some appFile := rfl

theorem halting_util_location : haltingTree.locate "util" = some utilFile := rfl

/-- The module while it is being replayed, and what it asks for. -/
def appSite : Site := ⟨3, "app", appFile⟩

def haltingRequest : Request := ⟨"util", .name ⟨"g", none⟩⟩

theorem halting_take (cache : Cache) :
    (haltingTree.scopeAt appSite).take haltingRequest (.named "util") cache
      = (.error ⟨"app", .noName "g" "util"⟩, cache) := by
  have hlocated : (haltingTree.scopeAt appSite).located (Dotted.join "util" "g") = false := by
    decide +kernel
  have htaken : (haltingTree.scopeAt appSite).taken "util" "g" (.named "util")
      = .error ⟨"app", .noName "g" "util"⟩ := by
    rw [Scope.taken, hlocated]
    rfl
  simp only [Scope.take, haltingRequest, Importing.run_bind, Importing.run_liftExcept, htaken]

/-- On the way through the module `app` nothing fails that is loaded in the end. -/
theorem halting_app_clean :
    haltingTree.Clean (haltingAfter "app").cache.loaded ⟨.load 4 "app", [], {}⟩ := by
  have hunloaded : (haltingAfter "app").cache.loaded.find? "app" = none := by decide +kernel
  have hutil : (haltingTree.load 3 haltingRequest.module (Cache.opened {} "app")).1
      = .ok (.named "util") := by decide +kernel
  have happAlone : haltingTree.parent? "app" = none := by decide +kernel
  have hutilAlone : haltingTree.parent? "util" = none := by decide +kernel
  have hinside : (haltingTree.scopeAt appSite).isExternal haltingRequest.module = false := by
    decide +kernel
  have happEmpty : (Cache.find? {} "app") = none := by decide +kernel
  have hutilEmpty : (Cache.opened {} "app").find? "util" = none := by decide +kernel
  have hrequests : (haltingTree.scopeAt appSite).requests appStatement = .ok [haltingRequest] := rfl
  have hsettled : (Cache.settled haltingRequest.module
      (.ok (), (Cache.opened {} "app").opened haltingRequest.module)).1 = .ok (.named "util") := by
    decide +kernel
  refine .of_load (.alone happEmpty happAlone) ?_ (.inl hunloaded)
  refine .of_step (.enter halting_app_location halting_app_code) ?_ nofun
  refine .of_step (.importing rfl hrequests) ?_ nofun
  refine .of_step (.ask hinside) ?_ nofun
  refine .of_load (.alone hutilEmpty hutilAlone) ?_ (.inr ⟨_, hutil⟩)
  refine .of_step (.enter halting_util_location halting_util_code) ?_ nofun
  refine .of_step .done ?_ nofun
  refine .of_step .settle ?_ nofun
  rw [hsettled]
  refine .of_step .take ?_ nofun
  rw [show Site.mk 3 "app" appFile = appSite from rfl, halting_take]
  refine .of_step .settle ?_ nofun
  exact Tree.clean_loaded _ _

/-- The module of the package is handed out after it has failed; the module `app`, which leaves
`util` loaded, fails again. -/
theorem load_again_halting :
    (Importer.load halting "pkg.core" shallowLoader).1
      = .error ⟨"pkg.gone", .noModule "pkg.gone"⟩
    ∧ (∃ table, Importer.load halting "pkg.core" (haltingAfter "pkg.core")
        = (.ok table, haltingAfter "pkg.core"))
    ∧ (haltingAfter "app").cache.loaded.contains "util"
    ∧ Importer.load halting "app" (haltingAfter "app")
      = (.error ⟨"app", .noName "g" "util"⟩, haltingAfter "app") := by
  have hcore : Importer.load halting "pkg.core" shallowLoader
      = (.error ⟨"pkg.gone", .noModule "pkg.gone"⟩, haltingAfter "pkg.core") :=
    Prod.ext (by decide +kernel) (by rw [haltingAfter])
  have happ : Importer.load halting "app" shallowLoader
      = (.error ⟨"app", .noName "g" "util"⟩, haltingAfter "app") :=
    Prod.ext (by decide +kernel) (by rw [haltingAfter])
  obtain ⟨table, htable⟩ : ∃ table,
      (haltingAfter "pkg.core").cache.loaded.find? "pkg.core" = some table :=
    Option.isSome_iff_exists.mp (by decide +kernel)
  have hdeep : 0 < shallowLoader.nesting := by decide
  obtain ⟨hhanded, -⟩ := load_again rfl hdeep hcore
  obtain ⟨-, hagain⟩ := load_again rfl hdeep happ
  refine ⟨by rw [hcore], ⟨table, (hhanded table htable).2⟩, by decide +kernel, hagain ?_⟩
  rintro other ⟨depth, stack, cache, failure, hsteps, hfails⟩
  exact halting_app_clean depth other stack cache failure hsteps hfails

end Loader

end ApiStubs.Python
