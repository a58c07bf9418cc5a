import ApiStubs.Proofs.Caching

/-!
# Proofs — Machine — loading, one step at a time

What holds *while* a module is being loaded cannot be said of the result of `Tree.load`.  This is
the same loading as a machine: a task, the frames of what waits for it, and the cache.  A frame
stands for a load that waits for the package around its module, for a load that waits for the
replay of its module, for an import statement that waits for a table, or for a `try` that waits
for its body.

The machine runs what the recursive functions run: `Tree.steps_load` and `Tree.runs_replayAll`, by
induction on the depth, and inside on the statements.  So every cache there is at some moment of a
load is the cache of a state that the machine passes.
-/

namespace ApiStubs.Python

/-- A module being replayed: what it is called, where it lives, and how many modules may still be
loaded inside each other. -/
structure Site where
  depth : Nat
  name : String
  location : Location

/-- What is to be done next, or has just been done. -/
inductive Task
  /-- A module is asked for. -/
  | load (depth : Nat) (name : String)
  /-- A module that is not known is to be replayed; the package around it is there. -/
  | enter (depth : Nat) (name : String)
  /-- The remaining requests of an import statement, then the statements behind it, are to be
  replayed. -/
  | run (site : Site) (requests : List Request) (statements : List Statement)
  /-- A load is over. -/
  | loaded (outcome : Except ImportFailure SymbolTable)
  /-- A replay is over. -/
  | ran (outcome : Except ImportFailure Unit)

/-- What waits for a task. -/
inductive Frame
  /-- A load waits for the package around its module. -/
  | around (depth : Nat) (name : String)
  /-- A load waits for the replay of its module. -/
  | body (name : String)
  /-- A request waits for a table. -/
  | request (site : Site) (request : Request) (requests : List Request)
      (statements : List Statement)
  /-- A `try` waits for its body. -/
  | attempt (site : Site) (handlers : List Handler) (orElse finish : Option (List Statement))
      (statements : List Statement)

/-- A state of the machine. -/
structure State where
  task : Task
  stack : List Frame
  cache : Cache

/-- The scope in which a module is replayed. -/
def Tree.scopeAt (tree : Tree) (site : Site) : Scope :=
  tree.scope (tree.load site.depth) site.name site.location

/-- The replay goes on after a part of it, or is over where the part has failed. -/
def State.after (site : Site) (requests : List Request) (statements : List Statement)
    (stack : List Frame) : Except ImportFailure Unit × Cache → State
  | (.ok (), cache) => ⟨.run site requests statements, stack, cache⟩
  | (.error failure, cache) => ⟨.ran (.error failure), stack, cache⟩

/-! ### Steps -/

/-- A step of the machine. -/
inductive Tree.Step (tree : Tree) : State → State → Prop where
  | tooDeep {name : String} {stack : List Frame} {cache : Cache} :
      Step tree ⟨.load 0 name, stack, cache⟩ ⟨.loaded (.error ⟨name, .tooDeep⟩), stack, cache⟩
  | known {depth : Nat} {name : String} {table : SymbolTable} {stack : List Frame} {cache : Cache} :
      cache.find? name = some table →
      Step tree ⟨.load (depth + 1) name, stack, cache⟩ ⟨.loaded (.ok table), stack, cache⟩
  | around {depth : Nat} {name parent : String} {stack : List Frame} {cache : Cache} :
      cache.find? name = none → tree.parent? name = some parent →
      Step tree ⟨.load (depth + 1) name, stack, cache⟩
        ⟨.load depth parent, .around depth name :: stack, cache⟩
  | alone {depth : Nat} {name : String} {stack : List Frame} {cache : Cache} :
      cache.find? name = none → tree.parent? name = none →
      Step tree ⟨.load (depth + 1) name, stack, cache⟩ ⟨.enter depth name, stack, cache⟩
  | aroundFailed {depth : Nat} {name : String} {failure : ImportFailure} {stack : List Frame}
      {cache : Cache} :
      Step tree ⟨.loaded (.error failure), .around depth name :: stack, cache⟩
        ⟨.loaded (.error failure), stack, cache⟩
  | along {depth : Nat} {name : String} {table own : SymbolTable} {stack : List Frame}
      {cache : Cache} :
      cache.loaded.find? name = some own →
      Step tree ⟨.loaded (.ok table), .around depth name :: stack, cache⟩
        ⟨.loaded (.ok own), stack, cache⟩
  | inside {depth : Nat} {name : String} {table : SymbolTable} {stack : List Frame}
      {cache : Cache} :
      cache.loaded.find? name = none →
      Step tree ⟨.loaded (.ok table), .around depth name :: stack, cache⟩
        ⟨.enter depth name, stack, cache⟩
  | missing {depth : Nat} {name : String} {stack : List Frame} {cache : Cache} :
      tree.locate name = none →
      Step tree ⟨.enter depth name, stack, cache⟩
        ⟨.loaded (.error ⟨name, .noModule name⟩), stack, cache⟩
  | unreadable {depth : Nat} {name : String} {location : Location} {cause : ImportError}
      {stack : List Frame} {cache : Cache} :
      tree.locate name = some location → tree.code location.path = .error cause →
      Step tree ⟨.enter depth name, stack, cache⟩
        ⟨.ran (.error ⟨name, cause⟩), .body name :: stack, cache.opened name⟩
  | enter {depth : Nat} {name : String} {location : Location} {statements : List Statement}
      {stack : List Frame} {cache : Cache} :
      tree.locate name = some location → tree.code location.path = .ok statements →
      Step tree ⟨.enter depth name, stack, cache⟩
        ⟨.run ⟨depth, name, location⟩ [] statements, .body name :: stack, cache.opened name⟩
  | settle {name : String} {outcome : Except ImportFailure Unit} {stack : List Frame}
      {cache : Cache} :
      Step tree ⟨.ran outcome, .body name :: stack, cache⟩
        ⟨.loaded (Cache.settled name (outcome, cache)).1, stack,
          (Cache.settled name (outcome, cache)).2⟩
  | done {site : Site} {stack : List Frame} {cache : Cache} :
      Step tree ⟨.run site [] [], stack, cache⟩ ⟨.ran (.ok ()), stack, cache⟩
  | quiet {site : Site} {s : Statement} {rest : List Statement} {stack : List Frame}
      {cache : Cache} :
      s.isQuiet →
      Step tree ⟨.run site [] (s :: rest), stack, cache⟩
        (.after site [] rest stack ((tree.scopeAt site).replay s cache))
  | importing {site : Site} {s : Statement} {requests : List Request} {rest : List Statement}
      {stack : List Frame} {cache : Cache} :
      s.isImport → (tree.scopeAt site).requests s = .ok requests →
      Step tree ⟨.run site [] (s :: rest), stack, cache⟩ ⟨.run site requests rest, stack, cache⟩
  | unresolved {site : Site} {s : Statement} {failure : ImportFailure} {rest : List Statement}
      {stack : List Frame} {cache : Cache} :
      s.isImport → (tree.scopeAt site).requests s = .error failure →
      Step tree ⟨.run site [] (s :: rest), stack, cache⟩ ⟨.ran (.error failure), stack, cache⟩
  | branches {site : Site} {blocks : List (List Statement)} {rest : List Statement}
      {stack : List Frame} {cache : Cache} :
      Step tree ⟨.run site [] (.branches blocks :: rest), stack, cache⟩
        ⟨.run site [] (blocks.flatten ++ rest), stack, cache⟩
  | attempt {site : Site} {body : List Statement} {handlers : List Handler}
      {orElse finish : Option (List Statement)} {rest : List Statement} {stack : List Frame}
      {cache : Cache} :
      Step tree ⟨.run site [] (.attempt body handlers orElse finish :: rest), stack, cache⟩
        ⟨.run site [] body, .attempt site handlers orElse finish rest :: stack, cache⟩
  | passed {site : Site} {handlers : List Handler} {orElse finish : Option (List Statement)}
      {rest : List Statement} {stack : List Frame} {cache : Cache} :
      Step tree ⟨.ran (.ok ()), .attempt site handlers orElse finish rest :: stack, cache⟩
        ⟨.run site [] (orElse.getD [] ++ (finish.getD [] ++ rest)), stack, cache⟩
  | caught {site : Site} {handlers : List Handler} {orElse finish : Option (List Statement)}
      {block rest : List Statement} {failure : ImportFailure} {stack : List Frame}
      {cache : Cache} :
      catchingBlock? handlers = some block →
      Step tree ⟨.ran (.error failure), .attempt site handlers orElse finish rest :: stack, cache⟩
        ⟨.run site [] (block ++ (finish.getD [] ++ rest)), stack, cache⟩
  | uncaught {site : Site} {handlers : List Handler} {orElse finish : Option (List Statement)}
      {rest : List Statement} {failure : ImportFailure} {stack : List Frame} {cache : Cache} :
      catchingBlock? handlers = none →
      Step tree ⟨.ran (.error failure), .attempt site handlers orElse finish rest :: stack, cache⟩
        ⟨.ran (.error failure), stack, cache⟩
  | outside {site : Site} {request : Request} {more : List Request} {rest : List Statement}
      {stack : List Frame} {cache : Cache} :
      (tree.scopeAt site).isExternal request.module = true →
      Step tree ⟨.run site (request :: more) rest, stack, cache⟩
        (.after site more rest stack ((tree.scopeAt site).takeOutside request cache))
  | ask {site : Site} {request : Request} {more : List Request} {rest : List Statement}
      {stack : List Frame} {cache : Cache} :
      (tree.scopeAt site).isExternal request.module = false →
      Step tree ⟨.run site (request :: more) rest, stack, cache⟩
        ⟨.load site.depth request.module, .request site request more rest :: stack, cache⟩
  | refused {site : Site} {request : Request} {more : List Request} {rest : List Statement}
      {failure : ImportFailure} {stack : List Frame} {cache : Cache} :
      Step tree ⟨.loaded (.error failure), .request site request more rest :: stack, cache⟩
        ⟨.ran (.error failure), stack, cache⟩
  | take {site : Site} {request : Request} {more : List Request} {rest : List Statement}
      {table : SymbolTable} {stack : List Frame} {cache : Cache} :
      Step tree ⟨.loaded (.ok table), .request site request more rest :: stack, cache⟩
        (.after site more rest stack ((tree.scopeAt site).take request table cache))

/-- A run of the machine. -/
inductive Tree.Steps (tree : Tree) : State → State → Prop where
  | refl (s : State) : Steps tree s s
  | more {s t u : State} (h : tree.Step s t) (rest : Steps tree t u) : Steps tree s u

namespace Tree

variable {tree : Tree}

theorem Steps.one {s t : State} (h : tree.Step s t) : tree.Steps s t := .more h (.refl t)

theorem Steps.trans {s t u : State} (h : tree.Steps s t) (h' : tree.Steps t u) :
    tree.Steps s u := by
  induction h with
  | refl => exact h'
  | more step _ ih => exact .more step (ih h')

/-! ### The machine runs what the functions run -/

/-- The machine runs the loads of a depth. -/
def RunsLoads (tree : Tree) (depth : Nat) : Prop :=
  ∀ name stack cache, tree.Steps ⟨.load depth name, stack, cache⟩
    ⟨.loaded (tree.load depth name cache).1, stack, (tree.load depth name cache).2⟩

/-- The machine runs a computation where it has statements to replay. -/
def Runs (tree : Tree) (site : Site) (first : List Statement) (x : Importing Unit) : Prop :=
  ∀ rest stack cache, tree.Steps ⟨.run site [] (first ++ rest), stack, cache⟩
    (.after site [] rest stack (x cache))

theorem Runs.nil (site : Site) : tree.Runs site [] (pure ()) := fun _ _ _ => .refl _

theorem Runs.append {site : Site} {first second : List Statement} {x y : Importing Unit}
    (hx : tree.Runs site first x) (hy : tree.Runs site second y) :
    tree.Runs site (first ++ second) (do x; y) := by
  intro rest stack cache
  have hfirst := hx (second ++ rest) stack cache
  rw [List.append_assoc, Importing.run_bind]
  rcases hc : x cache with ⟨_ | _, after⟩ <;> rw [hc] at hfirst
  · exact hfirst
  · exact hfirst.trans (hy rest stack after)

/-- The statements behind a part that has been replayed to the end are replayed where they
stand. -/
theorem Runs.all {site : Site} : ∀ {statements : List Statement},
    (∀ s ∈ statements, tree.Runs site [s] ((tree.scopeAt site).replay s)) →
      tree.Runs site statements ((tree.scopeAt site).replayAll statements)
  | [], _ => .nil site
  | s :: rest, h => by
    have hfirst : tree.Runs site [s] ((tree.scopeAt site).replay s) := h s (by simp)
    exact hfirst.append (Runs.all fun t ht => h t (by simp [ht]))

theorem Runs.optional {site : Site} {block? : Option (List Statement)}
    (h : ∀ block ∈ block?, ∀ s ∈ block, tree.Runs site [s] ((tree.scopeAt site).replay s)) :
    tree.Runs site (block?.getD []) ((tree.scopeAt site).replayOptional block?) := by
  cases block? with
  | none => exact .nil site
  | some block => exact .all (h block rfl)

/-- A request is served by steps: taken from outside, or asked for, loaded and taken. -/
theorem steps_request {site : Site} (hl : tree.RunsLoads site.depth) (request : Request)
    (more : List Request) (rest : List Statement) (stack : List Frame) (cache : Cache) :
    tree.Steps ⟨.run site (request :: more) rest, stack, cache⟩
      (.after site more rest stack ((tree.scopeAt site).serve request cache)) := by
  rw [Scope.serve]
  cases hext : (tree.scopeAt site).isExternal request.module with
  | true => exact .one (.outside hext)
  | false =>
    have hload := hl request.module (.request site request more rest :: stack) cache
    have hask := (Steps.one (.ask hext)).trans hload
    simp only [Bool.false_eq_true, if_false, Importing.run_bind,
      show (tree.scopeAt site).load = tree.load site.depth from rfl]
    rcases hc : tree.load site.depth request.module cache with ⟨_ | table, after⟩ <;>
      rw [hc] at hask
    · exact hask.trans (.one .refused)
    · exact hask.trans (.one .take)

/-- Requests are served by steps, one after the other. -/
theorem steps_requests {site : Site} (hl : tree.RunsLoads site.depth) (rest : List Statement)
    (stack : List Frame) : ∀ (requests : List Request) (cache : Cache),
    tree.Steps ⟨.run site requests rest, stack, cache⟩
      (.after site [] rest stack (requests.forM (tree.scopeAt site).serve cache))
  | [], _ => .refl _
  | request :: more, cache => by
    have hfirst := steps_request hl request more rest stack cache
    show tree.Steps _ (.after site [] rest stack
      ((do (tree.scopeAt site).serve request; more.forM (tree.scopeAt site).serve) cache))
    rw [Importing.run_bind]
    rcases hc : (tree.scopeAt site).serve request cache with ⟨_ | _, after⟩ <;> rw [hc] at hfirst
    · exact hfirst
    · exact hfirst.trans (steps_requests hl rest stack more after)

/-- A statement is replayed by steps, and so are those inside it. -/
theorem runs_statement {site : Site} (hl : tree.RunsLoads site.depth) (statement : Statement) :
    tree.Runs site [statement] ((tree.scopeAt site).replay statement) := by
  induction statement using Statement.induct with
  | quiet s hs => exact fun rest stack cache => .one (.quiet hs)
  | imports s hs =>
    intro rest stack cache
    rw [Scope.replay_eq_requests _ hs, Importing.run_bind, Importing.run_liftExcept]
    cases hr : (tree.scopeAt site).requests s with
    | error failure => exact .one (.unresolved hs hr)
    | ok requests => exact .more (.importing hs hr) (steps_requests hl rest stack requests cache)
  | branches blocks ih =>
    intro rest stack cache
    rw [Scope.replay, Scope.replayBlocks_eq]
    refine .more .branches (Runs.all (fun s hs => ?_) rest stack cache)
    obtain ⟨block, hblock, hmem⟩ := List.mem_flatten.mp hs
    exact ih block hblock s hmem
  | attempt body handlers orElse finish ihbody ihhandler ihelse ihfinish =>
    intro rest stack cache
    have hfinish := Runs.optional ihfinish
    have helse := Runs.optional ihelse
    -- the body is replayed with nothing behind it: what follows depends on its outcome
    have hbody := Runs.all ihbody [] (.attempt site handlers orElse finish rest :: stack) cache
    rw [List.append_nil] at hbody
    have hstart := (Steps.one .attempt).trans hbody
    rw [Scope.replay, Importing.run_bind, Importing.run_outcome]
    rcases hc : (tree.scopeAt site).replayAll body cache with ⟨failure | _, after⟩ <;>
      rw [hc] at hstart
    · simp only [Scope.replayHandler_eq]
      cases hcatch : catchingBlock? handlers with
      | none => exact hstart.trans (.one (.uncaught hcatch))
      | some block =>
        have hhandled := (Runs.all (ihhandler block hcatch)).append hfinish rest stack after
        rw [List.append_assoc] at hhandled
        exact hstart.trans (.more (.caught hcatch) hhandled)
    · have hpassed := helse.append hfinish rest stack after
      rw [List.append_assoc] at hpassed
      exact hstart.trans (.more .done (.more .passed hpassed))

/-- A module is entered by steps. -/
theorem steps_enter {depth : Nat} (hl : tree.RunsLoads depth) (name : String)
    (stack : List Frame) (cache : Cache) :
    tree.Steps ⟨.enter depth name, stack, cache⟩
      ⟨.loaded (tree.loadFresh (tree.load depth) name cache).1, stack,
        (tree.loadFresh (tree.load depth) name cache).2⟩ := by
  cases hloc : tree.locate name with
  | none =>
    rw [tree.loadFresh_missing hloc]
    exact .one (.missing hloc)
  | some location =>
    rw [tree.loadFresh_located hloc, replay]
    cases hcode : tree.code location.path with
    | error cause => exact .more (.unreadable hloc hcode) (.one .settle)
    | ok statements =>
      let site : Site := ⟨depth, name, location⟩
      -- the whole module is replayed on top of the frame that waits for it
      have hall : tree.Runs site statements ((tree.scopeAt site).replayAll statements) :=
        .all fun s _ => runs_statement hl s
      have hrun := hall [] (.body name :: stack) (cache.opened name)
      rw [List.append_nil] at hrun
      have hover := (Steps.one (.enter hloc hcode)).trans hrun
      simp only [show tree.scope (tree.load depth) name location = tree.scopeAt site from rfl]
      rcases hc : (tree.scopeAt site).replayAll statements (cache.opened name)
        with ⟨_ | _, after⟩ <;> rw [hc] at hover
      · exact hover.trans (.one .settle)
      · exact hover.trans (.more .done (.one .settle))

/-- **The machine runs every load.** -/
theorem steps_load (tree : Tree) : ∀ depth, tree.RunsLoads depth
  | 0 => fun _ _ _ => .one .tooDeep
  | depth + 1 => by
    have ih := steps_load tree depth
    intro name stack cache
    refine tree.load_cases (P := fun result =>
      tree.Steps ⟨.load (depth + 1) name, stack, cache⟩ ⟨.loaded result.1, stack, result.2⟩)
      ?_ ?_ ?_ ?_
    · exact fun table hknown => .one (.known hknown)
    · intro parent failure after hnone hparent hload
      have hp := ih parent (.around depth name :: stack) cache
      rw [hload] at hp
      exact .more (.around hnone hparent) (hp.trans (.one .aroundFailed))
    · intro parent table own after hnone hparent hload hown
      have hp := ih parent (.around depth name :: stack) cache
      rw [hload] at hp
      exact .more (.around hnone hparent) (hp.trans (.one (.along hown)))
    · intro after hnone hready
      cases hready with
      | alone hparent => exact .more (.alone hnone hparent) (steps_enter ih name stack cache)
      | @inside parent table _ hparent hload hown =>
        have hp := ih parent (.around depth name :: stack) cache
        rw [hload] at hp
        exact .more (.around hnone hparent)
          (hp.trans (.more (.inside hown) (steps_enter ih name stack after)))

/-- **The machine runs every replay.** -/
theorem runs_replayAll (tree : Tree) (site : Site) (statements : List Statement) :
    tree.Runs site statements ((tree.scopeAt site).replayAll statements) :=
  .all fun s _ => runs_statement (tree.steps_load site.depth) s

/-! ### There is one way to go -/

/-- The machine is deterministic. -/
theorem Step.deterministic {s t u : State} (h : tree.Step s t) (h' : tree.Step s u) : t = u := by
  have hquiet : ∀ s : Statement, s.isQuiet → s.isImport → False := by
    intro s hquiet himport
    cases s <;> simp [Statement.isQuiet, Statement.isImport] at hquiet himport
  -- a rule agrees with itself, and any two others ask for opposite things
  cases h <;> cases h' <;> first | rfl | simp_all [Statement.isQuiet, Statement.isImport]

/-- The states that come after a state are the state itself and those after its next one. -/
theorem Steps.of_step {s t u : State} (h : tree.Steps s u) (hstep : tree.Step s t) :
    u = s ∨ tree.Steps t u := by
  cases h with
  | refl => exact .inl rfl
  | more hfirst hrest => exact .inr (hstep.deterministic hfirst ▸ hrest)

end Tree

end ApiStubs.Python
