import ApiStubs.Proofs.Importing

/-!
# Proofs — Replay — statements, one at a time

* `Scope.replay_eq_changes`: a statement without imports and blocks, a *quiet* one, evaluates at
  most one expression and then makes a list of changes to its module's table, one after the other.
* `Scope.edit_of_changes`: such a change binds a name to what the statement makes, or removes a
  name, or declares exports.
* `Scope.replay_eq_requests`: an import statement is a list of requests, each for one module and
  one use of its table, served one after the other.
* `Statement.induct`: induction on a statement: the quiet ones, the imports, and the two that have
  blocks, with the statements of the blocks as the smaller ones.
* `Statement.Within`: the statements that replaying a statement can come to.
* `Scope.Asks`: the modules that replaying a statement can ask for, read off its text.
* `Scope.replay_alike`: two scopes that differ in how they import replay a statement alike, as
  soon as the imports it can ask for are alike.
* `Scope.replayAll_moves`: what the imports and the changes of the own table do to the cache, a
  replay does.
-/

namespace ApiStubs.Python

/-! ### Quiet statements -/

/-- A change to the table of a module. -/
abbrev Change := SymbolTable → SymbolTable

mutual

/-- The changes that bind a target, part by part. -/
def Target.changes (binding : Binding) : Target → List Change
  | .name id => [fun table => table.bind id binding]
  | .sequence items => changesOfTargets items
  | .place _ => []
  | .star _ => []

/-- The changes that bind targets to plain values. -/
def changesOfTargets : List Target → List Change
  | [] => []
  | target :: rest => target.changes .plainValue ++ changesOfTargets rest

end

/-- The change to the export list that a list of strings makes where it is assigned, or added, to
`__all__`; `act` says which. -/
def exportChanges (act : SymbolTable → List String → SymbolTable) (target : Target) (right : Expr) :
    List Change :=
  match target, Scope.exportList? right with
  | .name "__all__", some names => [fun table => act table names]
  | _, _ => []

theorem exportChanges_eq_nil {act : SymbolTable → List String → SymbolTable} {target : Target}
    {right : Expr}
    (h : ∀ names, target = .name "__all__" → Scope.exportList? right = some names → False) :
    exportChanges act target right = [] := by
  rw [exportChanges.eq_def]
  split
  · rename_i names hnames
    exact (h names rfl hnames).elim
  · rfl

/-- The expression whose value an assignment assigns; a declaration has none. -/
def Assignment.assigned? : Assignment → Option Expr
  | .declare _ => none
  | .value _ right => some right
  | .chain _ right => right.assigned?

/-- The changes an assignment makes once its value is known, from right to left. -/
def Assignment.changes (binding : Binding) : Assignment → List Change
  | .declare _ => []
  | .value target right => exportChanges .setExports target right ++ target.changes binding
  | .chain target right => right.changes binding ++ target.changes binding

namespace Statement

/-- The statement has no import and no block. -/
def isQuiet : Statement → Bool
  | .importModules _ | .importFrom _ _ | .branches _ | .attempt _ _ _ _ => false
  | _ => true

/-- The statement is an import. -/
def isImport : Statement → Bool
  | .importModules _ | .importFrom _ _ => true
  | _ => false

end Statement

namespace Scope

variable (scope : Scope)

/-- The changes a quiet statement makes, as they stand when it is reached. -/
def changes : Statement → Importing (List Change)
  | .classDef name => return [fun table => table.bind name (.classOf scope.module)]
  | .functionDef name => return [fun table => table.bind name (.functionOf scope.module)]
  | .assign a =>
    match a.assigned? with
    | none => return []
    | some right => return a.changes (← scope.evaluate right)
  | .augment target right => return exportChanges .extendExports target right
  | .delete targets => return (deletedNames targets).map fun name table => table.unbind name
  | _ => return []

/-- Evaluating an expression reads the table and changes nothing. -/
theorem run_evaluate (e : Expr) (cache : Cache) :
    ∃ binding, scope.evaluate e cache = (.ok binding, cache) := by
  fun_induction scope.evaluate e with
  | case1 parts => exact ⟨_, rfl⟩
  | case2 id => exact ⟨_, rfl⟩
  | case3 id arguments =>
    have hlookup : ∃ found, scope.lookup id cache = (.ok found, cache) := ⟨_, rfl⟩
    obtain ⟨found, hfound⟩ := hlookup
    simp only [Importing.run_bind_ok hfound]
    split <;> exact ⟨_, rfl⟩
  | case4 inner ih => exact ih
  | case5 e => exact ⟨_, rfl⟩

/-- What a quiet statement changes is found without a failure, and without a change yet. -/
theorem run_changes (statement : Statement) (cache : Cache) :
    ∃ made, scope.changes statement cache = (.ok made, cache) := by
  cases statement with
  | assign a =>
    rw [changes]
    cases a.assigned? with
    | none => exact ⟨[], rfl⟩
    | some right =>
      obtain ⟨binding, hvalue⟩ := scope.run_evaluate right cache
      exact ⟨a.changes binding, Importing.run_bind_ok hvalue _⟩
  | _ => exact ⟨_, rfl⟩

theorem run_update (change : Change) (cache : Cache) :
    scope.update change cache = (.ok (), match cache.loading.find? scope.module with
      | some table => { cache with loading := cache.loading.insert scope.module (change table) }
      | none => cache) := rfl

theorem find?_update (change : Change) (cache : Cache) :
    (scope.update change cache).2.loading.find? scope.module
      = (cache.loading.find? scope.module).map change := by
  rw [run_update]
  cases hfound : cache.loading.find? scope.module <;> simp [hfound]

/-- Makes changes to the table of the module, one after the other. -/
def write (changes : List Change) : Importing Unit := changes.forM scope.update

@[simp] theorem write_nil : scope.write [] = pure () := rfl

@[simp] theorem write_cons (change : Change) (more : List Change) :
    scope.write (change :: more) = (do scope.update change; scope.write more) := rfl

theorem write_append (first second : List Change) :
    scope.write (first ++ second) = (do scope.write first; scope.write second) := by
  induction first with
  | nil => simp
  | cons change more ih => simp [ih]

mutual

theorem bindTarget_eq (binding : Binding) : ∀ target : Target,
    scope.bindTarget binding target = scope.write (target.changes binding)
  | .name id => by simp [bindTarget, Target.changes, bind]
  | .sequence items => by rw [bindTarget, Target.changes, bindTargets_eq items]
  | .place _ | .star _ => by rw [bindTarget, Target.changes, write_nil]

theorem bindTargets_eq : ∀ targets : List Target,
    scope.bindTargets targets = scope.write (changesOfTargets targets)
  | [] => by rw [bindTargets, changesOfTargets, write_nil]
  | target :: rest => by
    rw [bindTargets, changesOfTargets, write_append, bindTarget_eq .plainValue target,
      bindTargets_eq rest]

end

/-- An assignment evaluates what is assigned once, and then writes all changes. -/
theorem assign_eq (a : Assignment) :
    scope.assign a = match a.assigned? with
      | none => return none
      | some right => do
        let binding ← scope.evaluate right
        scope.write (a.changes binding)
        return some binding := by
  induction a with
  | declare target => rfl
  | value target right =>
    simp only [assign, Assignment.assigned?, Assignment.changes, write_append, bindTarget_eq]
    split
    · rename_i names hnames
      simp [exportChanges, hnames]
    · rename_i hne
      simp [exportChanges_eq_nil hne]
  | chain target right ih =>
    -- a declaration on the right leaves nothing to assign to the left of it
    rw [assign, ih, Assignment.assigned?]
    cases right.assigned? with
    | none => simp
    | some e => simp [Assignment.changes, write_append, bindTarget_eq]

/-- **Quiet statements only write.** -/
theorem replay_eq_changes {statement : Statement} (h : statement.isQuiet) :
    scope.replay statement = (do scope.write (← scope.changes statement)) := by
  cases statement with
  | classDef name => simp [replay, changes, bind]
  | functionDef name => simp [replay, changes, bind]
  | assign a =>
    simp only [replay, changes, assign_eq]
    cases a.assigned? with
    | none => rfl
    | some right => simp [Importing.discard_eq]
  | augment target right =>
    simp only [replay, augment, changes]
    split
    · rename_i names hnames
      simp [exportChanges, hnames]
    · rename_i hne
      simp [exportChanges_eq_nil hne]
  | delete targets =>
    rw [replay, changes, pure_bind, write, List.forM_eq_forM, List.forM_eq_forM, List.forM_map]
  | inert => simp [replay, changes]
  | _ => cases h

end Scope

/-! ### Import statements -/

/-- What an import does with a module: it binds the module, or all that a star takes, or one
name. -/
inductive Use
  | asModule (imported : Imported)
  | everything
  | name (imported : Imported)

/-- A module that is asked for, and what for. -/
structure Request where
  module : String
  use : Use

namespace Scope

variable (scope : Scope)

/-- The requests of an import statement, in the order of writing. -/
def requests : Statement → Except ImportFailure (List Request)
  | .importModules modules =>
    .ok (modules.map fun imported => ⟨imported.written, .asModule imported⟩)
  | .importFrom source .everything =>
    (scope.resolve source).map fun module => [⟨module, .everything⟩]
  | .importFrom source (.listed names) =>
    (scope.resolve source).map fun module => names.map fun imported => ⟨module, .name imported⟩
  | _ => .ok []

/-- What a name is bound to that a `from` import takes from a table. -/
def taken (source name : String) (table : SymbolTable) : Except ImportFailure Binding :=
  match table.find? name with
  | some binding => .ok binding
  | none =>
    if scope.located (Dotted.join source name) then .ok .ofModule
    else .error ⟨scope.module, .noName name source⟩

/-- Serves a request from the table of the module. -/
def take (request : Request) (table : SymbolTable) : Importing Unit :=
  match request.use with
  | .asModule imported =>
    scope.bind (imported.alias?.getD (Dotted.top imported.written)) .ofModule
  | .everything => table.starBindings.forM fun (name, binding) => scope.bind name binding
  | .name imported => do
    let binding ← liftExcept (scope.taken request.module imported.written table)
    scope.bind (imported.alias?.getD imported.written) binding

/-- Serves a request for a module outside the tree. -/
def takeOutside (request : Request) : Importing Unit :=
  match request.use with
  | .asModule imported =>
    scope.bind (imported.alias?.getD (Dotted.top imported.written)) .ofModule
  | .everything => pure ()
  | .name imported =>
    scope.bind (imported.alias?.getD imported.written) (.objectOf request.module)

/-- Serves a request. -/
def serve (request : Request) : Importing Unit :=
  if scope.isExternal request.module then scope.takeOutside request
  else do scope.take request (← scope.load request.module)

theorem importModule_eq_serve (imported : Imported) :
    scope.importModule imported = scope.serve ⟨imported.written, .asModule imported⟩ := by
  rw [importModule, serve]
  cases scope.isExternal imported.written <;> simp [take, takeOutside]

theorem importStar_eq_serve (source : String) :
    scope.importStar source = scope.serve ⟨source, .everything⟩ := by
  rw [importStar, serve]
  cases scope.isExternal source <;> rfl

/-- An imported name is bound like a request for it is served. -/
theorem importName_eq_serve (source : String) (imported : Imported) :
    (do
      let binding ← scope.importName source imported.written
      scope.bind (imported.alias?.getD imported.written) binding)
      = scope.serve ⟨source, .name imported⟩ := by
  rw [importName, serve]
  cases scope.isExternal source with
  | true => simp [takeOutside]
  | false =>
    simp only [Bool.false_eq_true, if_false, take, bind_assoc]
    refine bind_congr fun table => ?_
    rw [taken]
    cases table.find? imported.written with
    | some binding => rfl
    | none =>
      simp only
      split <;> rfl

/-- **Import statements only serve requests.** -/
theorem replay_eq_requests {statement : Statement} (h : statement.isImport) :
    scope.replay statement
      = (do (← liftExcept (scope.requests statement)).forM scope.serve) := by
  cases statement with
  | importModules modules =>
    simp only [replay, requests, List.forM_eq_forM]
    rw [funext scope.importModule_eq_serve]
    show _ = List.forM _ _
    rw [List.forM_eq_forM, List.forM_map]
  | importFrom source names =>
    rw [replay, importFrom]
    cases names with
    | everything =>
      rw [requests]
      cases scope.resolve source with
      | error failure => rfl
      | ok module =>
        show scope.importStar module = _
        rw [importStar_eq_serve]
        exact (bind_pure _).symm
    | listed names =>
      rw [requests]
      cases scope.resolve source with
      | error failure => rfl
      | ok module =>
        show scope.importNames module names = List.forM _ _
        rw [importNames, List.forM_eq_forM, List.forM_eq_forM, List.forM_map]
        simp only [importName_eq_serve]
  | _ => cases h

end Scope

/-! ### Induction on a statement -/

/-- The block of the first handler that catches a failed import. -/
def catchingBlock? : List Handler → Option (List Statement)
  | [] => none
  | .mk head body :: rest =>
    if Scope.catchesImportFailure head then some body else catchingBlock? rest

theorem exists_of_catchingBlock? {handlers : List Handler} {block : List Statement}
    (h : catchingBlock? handlers = some block) : ∃ handler ∈ handlers, handler.body = block := by
  induction handlers with
  | nil => cases h
  | cons handler rest ih =>
    obtain ⟨head, body⟩ := handler
    rw [catchingBlock?] at h
    split at h
    · cases h
      exact ⟨.mk head block, by simp, rfl⟩
    · obtain ⟨found, hmem, hbody⟩ := ih h
      exact ⟨found, by simp [hmem], hbody⟩

/-- **Induction on a statement.**  Of the handlers of a statement only the one that catches a
failed import is ever replayed, and only its statements are at hand. -/
theorem Statement.induct {P : Statement → Prop}
    (quiet : ∀ s, s.isQuiet → P s)
    (imports : ∀ s, s.isImport → P s)
    (branches : ∀ blocks, (∀ block ∈ blocks, ∀ s ∈ block, P s) → P (.branches blocks))
    (attempt : ∀ body handlers orElse finish, (∀ s ∈ body, P s) →
      (∀ block ∈ catchingBlock? handlers, ∀ s ∈ block, P s) →
      (∀ block ∈ orElse, ∀ s ∈ block, P s) → (∀ block ∈ finish, ∀ s ∈ block, P s) →
      P (.attempt body handlers orElse finish))
    (statement : Statement) : P statement := by
  -- the recursor has a motive for each type of the nest: `P` of all statements inside
  refine @Statement.rec P (fun handler => ∀ s ∈ handler.body, P s)
    (fun blocks => ∀ block ∈ blocks, ∀ s ∈ block, P s)
    (fun block => ∀ s ∈ block, P s)
    (fun handlers => ∀ handler ∈ handlers, ∀ s ∈ handler.body, P s)
    (fun block? => ∀ block ∈ block?, ∀ s ∈ block, P s)
    (fun _ => quiet _ rfl) (fun _ => quiet _ rfl) (fun _ => quiet _ rfl) (fun _ _ => quiet _ rfl)
    (fun _ => imports _ rfl) (fun _ _ => imports _ rfl) (fun _ => quiet _ rfl) branches ?_
    (quiet _ rfl)
    ?_ ?_ ?_ ?_ ?_ ?_ ?_ ?_ ?_ statement
  · intro body handlers orElse finish hbody hhandlers horElse hfinish
    refine attempt body handlers orElse finish hbody (fun block hblock => ?_) horElse hfinish
    obtain ⟨handler, hmem, rfl⟩ := exists_of_catchingBlock? hblock
    exact hhandlers handler hmem
  · exact fun _ _ h => h
  -- what is left are the lists: empty, or one more in front
  all_goals simp_all

/-! ### The parts of a statement -/

/-- Replaying the second statement replays the first, if it comes to that: the first stands in a
block of the second, at any depth, or is the second. -/
inductive Statement.Within (part : Statement) : Statement → Prop where
  | self : Within part part
  | branches {blocks : List (List Statement)} {block : List Statement} {s : Statement} :
      block ∈ blocks → s ∈ block → Within part s → Within part (.branches blocks)
  | body {body : List Statement} {handlers : List Handler} {orElse finish : Option (List Statement)}
      {s : Statement} : s ∈ body → Within part s →
      Within part (.attempt body handlers orElse finish)
  | handler {body block : List Statement} {handlers : List Handler}
      {orElse finish : Option (List Statement)} {s : Statement} :
      catchingBlock? handlers = some block → s ∈ block → Within part s →
      Within part (.attempt body handlers orElse finish)
  | orElse {body block : List Statement} {handlers : List Handler}
      {finish : Option (List Statement)} {s : Statement} :
      s ∈ block → Within part s → Within part (.attempt body handlers (some block) finish)
  | finish {body block : List Statement} {handlers : List Handler}
      {orElse : Option (List Statement)} {s : Statement} :
      s ∈ block → Within part s → Within part (.attempt body handlers orElse (some block))

theorem Statement.Within.trans {part middle whole : Statement} (h : part.Within middle)
    (h' : middle.Within whole) : part.Within whole := by
  induction h' with
  | self => exact h
  | branches hblock hs _ ih => exact .branches hblock hs ih
  | body hs _ ih => exact .body hs ih
  | handler hcatch hs _ ih => exact .handler hcatch hs ih
  | orElse hs _ ih => exact .orElse hs ih
  | finish hs _ ih => exact .finish hs ih

/-- What holds of whatever is in the branches holds in every block of them. -/
theorem Statement.forall_branches {P : Statement → Prop} {blocks : List (List Statement)}
    (h : ∀ part : Statement, part.Within (.branches blocks) → P part) :
    ∀ s ∈ blocks.flatten, P s := by
  intro s hs
  obtain ⟨block, hblock, hmem⟩ := List.mem_flatten.mp hs
  exact h s (.branches hblock hmem .self)

/-- What holds of whatever is in a `try` holds in every block of it that may be replayed. -/
theorem Statement.forall_attempt {P : Statement → Prop} {body : List Statement}
    {handlers : List Handler} {orElse finish : Option (List Statement)}
    (h : ∀ part : Statement, part.Within (.attempt body handlers orElse finish) → P part) :
    (∀ s ∈ body, P s) ∧ (∀ s ∈ (catchingBlock? handlers).getD [], P s)
      ∧ (∀ s ∈ orElse.getD [], P s) ∧ ∀ s ∈ finish.getD [], P s := by
  refine ⟨fun s hs => h s (.body hs .self), ?_, ?_, ?_⟩
  · cases hcatch : catchingBlock? handlers with
    | none => exact nofun
    | some block => exact fun s hs => h s (.handler hcatch hs .self)
  · cases orElse with
    | none => exact nofun
    | some block => exact fun s hs => h s (.orElse hs .self)
  · cases finish with
    | none => exact nofun
    | some block => exact fun s hs => h s (.finish hs .self)

namespace Scope

variable (scope : Scope)

/-- The handlers replay the one block that catches, or let the failure through. -/
theorem replayHandler_eq (failure : ImportFailure) (handlers : List Handler) :
    scope.replayHandler failure handlers
      = match catchingBlock? handlers with
        | some block => scope.replayAll block
        | none => throw failure := by
  induction handlers with
  | nil => rfl
  | cons handler rest ih =>
    obtain ⟨head, body⟩ := handler
    rw [replayHandler, catchingBlock?]
    split
    · rfl
    · exact ih

theorem replayAll_append (first second : List Statement) :
    scope.replayAll (first ++ second) = (do scope.replayAll first; scope.replayAll second) := by
  induction first with
  | nil => simp [replayAll]
  | cons statement rest ih => simp [replayAll, ih]

theorem replayAll_singleton (statement : Statement) :
    scope.replayAll [statement] = scope.replay statement := by
  rw [replayAll, replayAll]
  exact bind_pure (scope.replay statement)

theorem replayOptional_eq (block? : Option (List Statement)) :
    scope.replayOptional block? = scope.replayAll (block?.getD []) := by
  cases block? <;> rfl

theorem replayBlocks_eq (blocks : List (List Statement)) :
    scope.replayBlocks blocks = scope.replayAll blocks.flatten := by
  induction blocks with
  | nil => rfl
  | cons block rest ih => rw [replayBlocks, ih, List.flatten_cons, replayAll_append]

/-- A `try` is its body, and then the statements that the outcome chooses. -/
theorem replay_attempt_eq (body : List Statement) (handlers : List Handler)
    (orElse finish : Option (List Statement)) :
    scope.replay (.attempt body handlers orElse finish) = (do
      match ← (scope.replayAll body).outcome with
      | .ok () => scope.replayAll (orElse.getD [] ++ finish.getD [])
      | .error failure =>
        match catchingBlock? handlers with
        | some block => scope.replayAll (block ++ finish.getD [])
        | none => throw failure) := by
  rw [replay]
  refine bind_congr fun outcome => ?_
  cases outcome with
  | ok _ => rw [replayAll_append, ← replayOptional_eq, ← replayOptional_eq]
  | error failure =>
    simp only [replayHandler_eq]
    cases catchingBlock? handlers with
    | none => rfl
    | some block =>
      dsimp only
      rw [replayAll_append, ← replayOptional_eq]

/-- Replaying the statement can ask for the module of this name: an import statement in one of its
blocks requests it, and its top-level package is one of the tree. -/
inductive Asks (name : String) : Statement → Prop where
  | request {s : Statement} {requests : List Request} {request : Request} :
      scope.requests s = .ok requests → request ∈ requests → request.module = name →
      scope.isExternal name = false → Asks name s
  | branches {blocks : List (List Statement)} {block : List Statement} {s : Statement} :
      block ∈ blocks → s ∈ block → Asks name s → Asks name (.branches blocks)
  | body {body : List Statement} {handlers : List Handler} {orElse finish : Option (List Statement)}
      {s : Statement} : s ∈ body → Asks name s → Asks name (.attempt body handlers orElse finish)
  | handler {body block : List Statement} {handlers : List Handler}
      {orElse finish : Option (List Statement)} {s : Statement} :
      catchingBlock? handlers = some block → s ∈ block → Asks name s →
      Asks name (.attempt body handlers orElse finish)
  | orElse {body block : List Statement} {handlers : List Handler}
      {finish : Option (List Statement)} {s : Statement} :
      s ∈ block → Asks name s → Asks name (.attempt body handlers (some block) finish)
  | finish {body block : List Statement} {handlers : List Handler}
      {orElse : Option (List Statement)} {s : Statement} :
      s ∈ block → Asks name s → Asks name (.attempt body handlers orElse (some block))

variable {scope}

theorem not_asks_functionDef {name id : String} : ¬scope.Asks name (.functionDef id) := by
  rintro ⟨hrequests, hmem, -, -⟩
  cases hrequests
  exact List.not_mem_nil hmem

theorem asks_importModules {name : String} {modules : List Imported}
    (h : scope.Asks name (.importModules modules)) :
    ∃ imported ∈ modules, imported.written = name := by
  obtain ⟨hrequests, hmem, rfl, -⟩ := h
  cases hrequests
  obtain ⟨imported, himported, rfl⟩ := List.mem_map.mp hmem
  exact ⟨imported, himported, rfl⟩

end Scope

/-! ### What quiet statements bind -/

/-- The change leaves the name of the table as it is. -/
def KeepsName (change : Change) : Prop := ∀ table, (change table).name = table.name

/-- A change that binds a name to something `P` allows, or removes a name, or declares exports. -/
inductive Edit (P : Binding → Prop) : Change → Prop where
  | bind (name : String) {binding : Binding} : P binding → Edit P fun table => table.bind name binding
  | unbind (name : String) : Edit P fun table => table.unbind name
  | declare {change : Change} :
      (∀ table, (change table).name = table.name ∧ (change table).bindings = table.bindings) →
      Edit P change

theorem Edit.keepsName {P : Binding → Prop} {change : Change} (h : Edit P change) :
    KeepsName change := by
  intro table
  cases h with
  | bind name _ | unbind name => rfl
  | declare hdeclare => exact (hdeclare table).1

mutual

theorem Target.edit_of_changes {P : Binding → Prop} {binding : Binding} {change : Change}
    (hb : P binding) (hplain : P .plainValue) :
    ∀ {target : Target}, change ∈ target.changes binding → Edit P change
  | .name id, h => by
    rw [Target.changes, List.mem_singleton] at h
    exact h ▸ .bind id hb
  | .sequence items, h => edit_of_changesOfTargets hplain (by rwa [Target.changes] at h)
  | .place _, h | .star _, h => by simp [Target.changes] at h

theorem edit_of_changesOfTargets {P : Binding → Prop} {change : Change} (hplain : P .plainValue) :
    ∀ {targets : List Target}, change ∈ changesOfTargets targets → Edit P change
  | [], h => by simp [changesOfTargets] at h
  | target :: rest, h => by
    rw [changesOfTargets, List.mem_append] at h
    rcases h with h | h
    · exact Target.edit_of_changes hplain hplain h
    · exact edit_of_changesOfTargets hplain h

end

theorem edit_of_exportChanges {P : Binding → Prop} {act : SymbolTable → List String → SymbolTable}
    {target : Target} {right : Expr} {change : Change} (h : change ∈ exportChanges act target right)
    (hact : ∀ table names,
      (act table names).name = table.name ∧ (act table names).bindings = table.bindings) :
    Edit P change := by
  rw [exportChanges.eq_def] at h
  split at h
  · rw [List.mem_singleton] at h
    exact h ▸ .declare fun table => hact table _
  · simp at h

/-- An assignment binds the value that is assigned, and plain values inside it. -/
theorem Assignment.edit_of_changes {P : Binding → Prop} {binding : Binding} {change : Change}
    (hb : P binding) (hplain : P .plainValue) :
    ∀ {a : Assignment}, change ∈ a.changes binding → Edit P change
  | .declare _, h => by simp [Assignment.changes] at h
  | .value target right, h => by
    rw [Assignment.changes, List.mem_append] at h
    rcases h with h | h
    · exact edit_of_exportChanges h fun _ _ => ⟨rfl, rfl⟩
    · exact Target.edit_of_changes hb hplain h
  | .chain target right, h => by
    rw [Assignment.changes, List.mem_append] at h
    rcases h with h | h
    · exact Assignment.edit_of_changes hb hplain h
    · exact Target.edit_of_changes hb hplain h

namespace Scope

/-- What a quiet statement may bind a name to: its own class or function, the value it assigns, or
a plain value. -/
inductive Makes (scope : Scope) (cache : Cache) : Statement → Binding → Prop where
  | classDef {name : String} : Makes scope cache (.classDef name) (.classOf scope.module)
  | functionDef {name : String} : Makes scope cache (.functionDef name) (.functionOf scope.module)
  | assigned {a : Assignment} {right : Expr} {binding : Binding} :
      a.assigned? = some right → (scope.evaluate right cache).1 = .ok binding →
      Makes scope cache (.assign a) binding
  | part {a : Assignment} : Makes scope cache (.assign a) .plainValue

/-- **What a quiet statement changes**: it binds names to what it makes, or removes names, or
declares exports. -/
theorem edit_of_changes {scope : Scope} {statement : Statement} {cache : Cache}
    {made : List Change} (h : (scope.changes statement cache).1 = .ok made) {change : Change}
    (hmem : change ∈ made) : Edit (scope.Makes cache statement) change := by
  cases statement with
  | classDef name =>
    cases h
    rw [List.mem_singleton] at hmem
    exact hmem ▸ .bind name .classDef
  | functionDef name =>
    cases h
    rw [List.mem_singleton] at hmem
    exact hmem ▸ .bind name .functionDef
  | assign a =>
    rw [changes] at h
    cases ha : a.assigned? with
    | none =>
      rw [ha] at h
      cases h
      simp at hmem
    | some right =>
      rw [ha] at h
      simp only [Importing.run_bind] at h
      split at h
      · rename_i binding after hvalue
        cases h
        have hmade : scope.Makes cache (.assign a) binding := .assigned ha (by rw [hvalue])
        exact Assignment.edit_of_changes hmade .part hmem
      · cases h
  | augment target right =>
    cases h
    exact edit_of_exportChanges hmem fun _ _ => ⟨rfl, rfl⟩
  | delete targets =>
    cases h
    obtain ⟨name, -, rfl⟩ := List.mem_map.mp hmem
    exact .unbind name
  | _ =>
    cases h
    simp at hmem

end Scope

/-! ### Two scopes that import differently -/

namespace Scope

/-- The scope with another way of importing. -/
def importingBy (scope : Scope) (load : String → Importing SymbolTable) : Scope :=
  { scope with load }

section Alike

variable {S : Cache → Cache → Prop} {scope : Scope} {load' : String → Importing SymbolTable}
variable (hu : ∀ change, KeepsName change → Alike S (scope.update change) (scope.update change))
variable (hk : ∀ name, Alike S (scope.lookup name) (scope.lookup name))

include hu in
theorem write_alike : ∀ {made : List Change}, (∀ change ∈ made, KeepsName change) →
    Alike S (scope.write made) ((scope.importingBy load').write made)
  | [], _ => .pure ()
  | change :: more, h =>
    (hu change (h change (by simp))).bind fun _ => write_alike fun c hc => h c (by simp [hc])

include hu in
theorem bind_alike (name : String) (binding : Binding) :
    Alike S (scope.bind name binding) ((scope.importingBy load').bind name binding) :=
  hu _ fun _ => rfl

include hk in
/-- Evaluation is alike for loads that are alike. -/
theorem evaluate_alike (e : Expr) :
    Alike S (scope.evaluate e) ((scope.importingBy load').evaluate e) := by
  fun_induction scope.evaluate e with
  | case1 parts =>
    rw [evaluate]
    exact .pure _
  | case2 id =>
    rw [evaluate]
    exact (hk id).bind fun _ => .pure _
  | case3 id arguments =>
    rw [evaluate]
    refine (hk id).bind fun found => ?_
    split <;> exact .pure _
  | case4 inner ih =>
    rw [evaluate]
    exact ih
  | case5 e =>
    rw [evaluate]
    · exact .pure _
    all_goals assumption

include hk in
theorem changes_alike (statement : Statement) :
    Alike S (scope.changes statement) ((scope.importingBy load').changes statement) := by
  cases statement with
  | assign a =>
    rw [changes, changes]
    cases a.assigned? with
    | none => exact .pure []
    | some right => exact (evaluate_alike hk right).bind fun _ => .pure _
  | _ => exact .pure _

include hu hk in
theorem replay_quiet_alike {statement : Statement} (h : statement.isQuiet) :
    Alike S (scope.replay statement) ((scope.importingBy load').replay statement) := by
  rw [replay_eq_changes _ h, replay_eq_changes _ h]
  exact (changes_alike hk statement).bind_of fun made c hmade =>
    write_alike hu fun change hmem => (edit_of_changes hmade hmem).keepsName

include hu in
theorem take_alike (request : Request) (table : SymbolTable) :
    Alike S (scope.take request table) ((scope.importingBy load').take request table) := by
  rw [take, take]
  cases request.use with
  | asModule imported => exact bind_alike hu _ _
  | everything => exact Alike.forM _ fun entry _ => bind_alike hu _ _
  | name imported => exact (Alike.liftExcept _).bind fun _ => bind_alike hu _ _

include hu in
theorem takeOutside_alike (request : Request) :
    Alike S (scope.takeOutside request) ((scope.importingBy load').takeOutside request) := by
  rw [takeOutside, takeOutside]
  cases request.use with
  | asModule imported => exact bind_alike hu _ _
  | everything => exact .pure ()
  | name imported => exact bind_alike hu _ _

include hu in
theorem serve_alike {request : Request}
    (h : scope.isExternal request.module = false →
      Alike S (scope.load request.module) (load' request.module)) :
    Alike S (scope.serve request) ((scope.importingBy load').serve request) := by
  have hx : (scope.importingBy load').isExternal request.module
      = scope.isExternal request.module := rfl
  rw [serve, serve, hx]
  cases hext : scope.isExternal request.module with
  | true => exact takeOutside_alike hu request
  | false => exact (h hext).bind fun table => take_alike hu request table

theorem requests_importingBy (scope : Scope) (load : String → Importing SymbolTable)
    (statement : Statement) :
    (scope.importingBy load).requests statement = scope.requests statement := by
  cases statement with
  | importFrom source names => cases names <;> cases source <;> rfl
  | _ => rfl

include hu in
theorem replay_import_alike {statement : Statement} (himport : statement.isImport)
    (h : ∀ name, scope.Asks name statement → Alike S (scope.load name) (load' name)) :
    Alike S (scope.replay statement) ((scope.importingBy load').replay statement) := by
  rw [replay_eq_requests _ himport, replay_eq_requests _ himport, requests_importingBy]
  refine (Alike.liftExcept _).bind_of fun requests c hrequests => ?_
  -- each request served is one that the statement makes, so the statement asks for its module
  rw [Importing.run_liftExcept] at hrequests
  exact Alike.forM requests fun request hmem =>
    serve_alike hu fun hext => h _ (.request hrequests hmem rfl hext)

theorem replayAll_alike_of {a b : Scope} :
    ∀ {statements : List Statement}, (∀ s ∈ statements, Alike S (a.replay s) (b.replay s)) →
      Alike S (a.replayAll statements) (b.replayAll statements)
  | [], _ => .pure ()
  | s :: rest, h =>
    (h s (by simp)).bind fun _ => replayAll_alike_of fun t ht => h t (by simp [ht])

theorem replayOptional_alike_of {a b : Scope} {block? : Option (List Statement)}
    (h : ∀ block ∈ block?, ∀ s ∈ block, Alike S (a.replay s) (b.replay s)) :
    Alike S (a.replayOptional block?) (b.replayOptional block?) := by
  cases block? with
  | none => exact .pure ()
  | some block => exact replayAll_alike_of (h block rfl)

include hu hk in
/-- **Replays side by side.**  Two scopes that differ in how they import replay a statement alike,
if the imports it can ask for are alike. -/
theorem replay_alike (statement : Statement)
    (h : ∀ name, scope.Asks name statement → Alike S (scope.load name) (load' name)) :
    Alike S (scope.replay statement) ((scope.importingBy load').replay statement) := by
  induction statement using Statement.induct with
  | quiet s hs => exact replay_quiet_alike hu hk hs
  | imports s hs => exact replay_import_alike hu hs h
  | branches blocks ih =>
    -- the blocks are replayed as one list of statements
    rw [replay, replay, replayBlocks_eq, replayBlocks_eq]
    refine replayAll_alike_of fun s hs => ?_
    obtain ⟨block, hblock, hmem⟩ := List.mem_flatten.mp hs
    exact ih block hblock s hmem fun name hname => h name (.branches hblock hmem hname)
  | attempt body handlers orElse finish ihbody ihhandler ihelse ihfinish =>
    rw [replay, replay]
    have hbody : Alike S (scope.replayAll body) ((scope.importingBy load').replayAll body) :=
      replayAll_alike_of fun s hs => ihbody s hs fun name hname => h name (.body hs hname)
    have helse : Alike S (scope.replayOptional orElse)
        ((scope.importingBy load').replayOptional orElse) :=
      replayOptional_alike_of fun block hblock s hs => ihelse block hblock s hs fun name hname =>
        h name (by cases hblock; exact .orElse hs hname)
    have hfinish : Alike S (scope.replayOptional finish)
        ((scope.importingBy load').replayOptional finish) :=
      replayOptional_alike_of fun block hblock s hs => ihfinish block hblock s hs fun name hname =>
        h name (by cases hblock; exact .finish hs hname)
    refine hbody.outcome.bind fun outcome => ?_
    cases outcome with
    | ok _ => exact helse.bind fun _ => hfinish
    | error failure =>
      refine Alike.bind ?_ fun _ => hfinish
      -- both replays come to the same handler: it is chosen by its text alone
      rw [replayHandler_eq, replayHandler_eq]
      cases hc : catchingBlock? handlers with
      | none => exact .throw failure
      | some block =>
        exact replayAll_alike_of fun s hs =>
          ihhandler block hc s hs fun name hname => h name (.handler hc hs hname)

include hu hk in
theorem replayAll_alike {statements : List Statement}
    (h : ∀ s ∈ statements, ∀ name, scope.Asks name s → Alike S (scope.load name) (load' name)) :
    Alike S (scope.replayAll statements) ((scope.importingBy load').replayAll statements) :=
  replayAll_alike_of fun s hs => replay_alike hu hk s (h s hs)

end Alike

/-! ### What a replay does to the cache -/

theorem lookup_alike_both (P : Cache → Prop) (scope : Scope) (name : String) :
    Alike (Both P) (scope.lookup name) (scope.lookup name) := by
  rintro c d ⟨rfl, hp⟩
  exact ⟨rfl, rfl, hp⟩

section Moves

variable {R : Cache → Cache → Prop} {scope : Scope}
variable (refl : ∀ c, R c c) (trans : ∀ a b c, R a b → R b c → R a c)
variable (hu : ∀ change, KeepsName change → Moves R (scope.update change))

include refl trans hu

theorem take_moves (request : Request) (table : SymbolTable) :
    Moves R (scope.take request table) :=
  .of_alike refl fun origin =>
    take_alike (fun change h => (hu change h).alike trans origin) request table

theorem takeOutside_moves (request : Request) : Moves R (scope.takeOutside request) :=
  .of_alike refl fun origin =>
    takeOutside_alike (fun change h => (hu change h).alike trans origin) request

variable (hl : ∀ name, Moves R (scope.load name))

include hl

/-- A replay does to the cache what its imports and the changes of its table do. -/
theorem replayAll_moves (statements : List Statement) : Moves R (scope.replayAll statements) :=
  .of_alike refl fun origin =>
    replayAll_alike (fun change h => (hu change h).alike trans origin)
      (lookup_alike_both (R origin) scope) fun _ _ name _ => (hl name).alike trans origin

theorem replay_moves (statement : Statement) : Moves R (scope.replay statement) :=
  .of_alike refl fun origin =>
    replay_alike (fun change h => (hu change h).alike trans origin)
      (lookup_alike_both (R origin) scope) statement fun name _ => (hl name).alike trans origin

end Moves

end Scope

end ApiStubs.Python
