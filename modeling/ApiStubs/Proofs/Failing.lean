import ApiStubs.Proofs.Caching

/-!
# Proofs — Failing — why an import fails

A failed import names a module and a cause, and both are those of one thing that went wrong: a
module that is not there, a source that cannot be read or parsed, a `from` import in the code of
some module of the tree that cannot be served, or too many modules inside each other
(`Tree.Explains`).  `Tree.load_failsAs` says so of every load, from whatever cache.

`FailsAs` is the invariant.  Whatever a replay is put together from keeps it, a `try` among them,
which hands on a failure of its body as it is.
-/

namespace ApiStubs.Python

/-! ### How a run fails -/

/-- From whatever cache, the computation fails with nothing but failures of which `P` holds. -/
def FailsAs (P : ImportFailure → Prop) {α : Type} (x : Importing α) : Prop :=
  ∀ cache failure, (x cache).1 = .error failure → P failure

namespace FailsAs

variable {P : ImportFailure → Prop} {α β : Type}

theorem pure (a : α) : FailsAs P (pure a) := nofun

theorem throw {failure : ImportFailure} (h : P failure) :
    FailsAs P (throw failure : Importing α) := by
  rintro cache _ ⟨⟩
  exact h

theorem liftExcept {outcome : Except ImportFailure α}
    (h : ∀ failure, outcome = .error failure → P failure) : FailsAs P (liftExcept outcome) := by
  intro cache failure hfail
  rw [Importing.run_liftExcept] at hfail
  exact h failure hfail

/-- The second computation may be taken for one that the first yields. -/
theorem bind_of {x : Importing α} {f : α → Importing β} (hx : FailsAs P x)
    (hf : ∀ a cache, (x cache).1 = .ok a → FailsAs P (f a)) : FailsAs P (x >>= f) := by
  intro cache failure hfail
  rw [Importing.run_bind] at hfail
  rcases hrun : x cache with ⟨_ | a, after⟩
  · rw [hrun] at hfail
    cases hfail
    exact hx cache failure (by rw [hrun])
  · rw [hrun] at hfail
    exact hf a cache (by rw [hrun]) after failure hfail

theorem bind {x : Importing α} {f : α → Importing β} (hx : FailsAs P x)
    (hf : ∀ a, FailsAs P (f a)) : FailsAs P (x >>= f) :=
  hx.bind_of fun a _ _ => hf a

/-- A failure that is caught may be handed on. -/
theorem outcome_bind {x : Importing α} {f : Except ImportFailure α → Importing β}
    (hx : FailsAs P x) (hok : ∀ a, FailsAs P (f (.ok a)))
    (herror : ∀ failure, P failure → FailsAs P (f (.error failure))) :
    FailsAs P (x.outcome >>= f) := by
  have hnever : FailsAs P x.outcome := nofun
  refine hnever.bind_of fun outcome cache houtcome => ?_
  rw [Importing.run_outcome] at houtcome
  cases outcome with
  | ok a => exact hok a
  | error failure => exact herror failure (hx cache failure (Except.ok.inj houtcome))

theorem forM {f : β → Importing Unit} :
    ∀ list : List β, (∀ b ∈ list, FailsAs P (f b)) → FailsAs P (list.forM f)
  | [], _ => pure ()
  | b :: rest, h => (h b (by simp)).bind fun _ => forM rest fun c hc => h c (by simp [hc])

end FailsAs

/-! ### Statements -/

namespace Scope

/-- What a `from` import fails with of its own: its dots climb out of the top-level package, or
the table of its module lacks a name that is no submodule either. -/
inductive Refuses (scope : Scope) : Statement → ImportFailure → Prop where
  | beyond {source : ImportSource} {names : ImportedNames} :
      scope.resolve source = .error ⟨scope.module, .beyondTopLevel⟩ →
      Refuses scope (.importFrom source names) ⟨scope.module, .beyondTopLevel⟩
  | unbound {source : ImportSource} {names : List Imported} {module : String}
      {imported : Imported} {cache : Cache} {table : SymbolTable} :
      scope.resolve source = .ok module → imported ∈ names → scope.isExternal module = false →
      (scope.load module cache).1 = .ok table → table.find? imported.written = none →
      scope.located (Dotted.join module imported.written) = false →
      Refuses scope (.importFrom source (.listed names))
        ⟨scope.module, .noName imported.written module⟩

variable {scope : Scope} {P : ImportFailure → Prop}

theorem resolve_error {source : ImportSource} {failure : ImportFailure}
    (h : scope.resolve source = .error failure) : failure = ⟨scope.module, .beyondTopLevel⟩ := by
  cases source with
  | absolute written => cases h
  | relative level written =>
    rw [resolve] at h
    generalize List.take _ _ = base at h
    split at h
    · cases h
      rfl
    · cases h

/-- Only of a `from` import may it be unknown what it requests. -/
theorem requests_error {statement : Statement} {failure : ImportFailure}
    (h : scope.requests statement = .error failure) :
    ∃ source names, statement = .importFrom source names
      ∧ scope.resolve source = .error failure := by
  cases statement with
  | importFrom source names =>
    refine ⟨source, names, rfl, ?_⟩
    cases hsource : scope.resolve source with
    | error cause => cases names <;> simpa [requests, hsource, Except.map] using h
    | ok module => cases names <;> simp [requests, hsource, Except.map] at h
  | _ => cases h

/-- A name is requested by a `from` import that lists it. -/
theorem listed_of_mem_requests {statement : Statement} {requests : List Request}
    {request : Request} {imported : Imported} (h : scope.requests statement = .ok requests)
    (hmem : request ∈ requests) (huse : request.use = .name imported) :
    ∃ source names, statement = .importFrom source (.listed names) ∧ imported ∈ names
      ∧ scope.resolve source = .ok request.module := by
  cases statement with
  | importModules modules =>
    cases h
    obtain ⟨other, -, rfl⟩ := List.mem_map.mp hmem
    cases huse
  | importFrom source names =>
    cases hsource : scope.resolve source with
    | error failure => cases names <;> simp [Scope.requests, hsource, Except.map] at h
    | ok module =>
      cases names with
      | everything =>
        obtain rfl : [⟨module, .everything⟩] = requests := by
          simpa [Scope.requests, hsource, Except.map] using h
        cases List.mem_singleton.mp hmem
        cases huse
      | listed names =>
        obtain rfl : names.map (⟨module, .name ·⟩) = requests := by
          simpa [Scope.requests, hsource, Except.map] using h
        obtain ⟨other, hother, rfl⟩ := List.mem_map.mp hmem
        cases huse
        exact ⟨source, names, rfl, hother, hsource⟩
  | _ =>
    cases h
    cases hmem

theorem taken_error {source name : String} {table : SymbolTable} {failure : ImportFailure}
    (h : scope.taken source name table = .error failure) :
    table.find? name = none ∧ scope.located (Dotted.join source name) = false
      ∧ failure = ⟨scope.module, .noName name source⟩ := by
  rw [taken] at h
  split at h
  · cases h
  · rename_i hunbound
    split at h
    · cases h
    · rename_i hlocated
      cases h
      exact ⟨hunbound, by simpa using hlocated, rfl⟩

theorem bind_failsAs (name : String) (binding : Binding) : FailsAs P (scope.bind name binding) :=
  nofun

/-- A quiet statement does not fail. -/
theorem replay_quiet_failsAs {statement : Statement} (h : statement.isQuiet) :
    FailsAs P (scope.replay statement) := by
  rw [replay_eq_changes _ h]
  have hchanges : FailsAs P (scope.changes statement) := by
    intro cache failure hfail
    obtain ⟨made, hmade⟩ := scope.run_changes statement cache
    rw [hmade] at hfail
    cases hfail
  exact hchanges.bind fun made => .forM made fun change _ => nofun

theorem take_failsAs {request : Request} {table : SymbolTable}
    (h : ∀ imported, request.use = .name imported → table.find? imported.written = none →
      scope.located (Dotted.join request.module imported.written) = false →
      P ⟨scope.module, .noName imported.written request.module⟩) :
    FailsAs P (scope.take request table) := by
  rw [take]
  cases huse : request.use with
  | asModule imported => exact bind_failsAs _ _
  | everything => exact .forM _ fun entry _ => bind_failsAs _ _
  | name imported =>
    refine FailsAs.bind (.liftExcept fun failure hfail => ?_) fun binding => bind_failsAs _ _
    obtain ⟨hunbound, hlocated, rfl⟩ := taken_error hfail
    exact h imported huse hunbound hlocated

theorem takeOutside_failsAs (request : Request) : FailsAs P (scope.takeOutside request) := by
  rw [takeOutside]
  cases request.use with
  | asModule imported | name imported => exact bind_failsAs _ _
  | everything => exact .pure ()

/-- Serving a request fails with what its load fails with, or for a name that is not there. -/
theorem serve_failsAs (hload : ∀ name, FailsAs P (scope.load name)) {request : Request}
    (h : ∀ imported cache table, request.use = .name imported →
      scope.isExternal request.module = false →
      (scope.load request.module cache).1 = .ok table → table.find? imported.written = none →
      scope.located (Dotted.join request.module imported.written) = false →
      P ⟨scope.module, .noName imported.written request.module⟩) :
    FailsAs P (scope.serve request) := by
  rw [serve]
  cases hext : scope.isExternal request.module with
  | true => exact takeOutside_failsAs request
  | false =>
    exact (hload request.module).bind_of fun table cache htable =>
      take_failsAs fun imported huse => h imported cache table huse hext htable

theorem replay_import_failsAs (hload : ∀ name, FailsAs P (scope.load name))
    {statement : Statement} (himport : statement.isImport)
    (h : ∀ failure, scope.Refuses statement failure → P failure) :
    FailsAs P (scope.replay statement) := by
  rw [replay_eq_requests _ himport]
  refine FailsAs.bind_of (.liftExcept fun failure hfail => ?_) fun requests cache hrequests => ?_
  · obtain ⟨source, names, rfl, hsource⟩ := requests_error hfail
    obtain rfl := resolve_error hsource
    exact h _ (.beyond hsource)
  · rw [Importing.run_liftExcept] at hrequests
    refine .forM requests fun request hmem => serve_failsAs hload ?_
    intro imported cache table huse hext htable hunbound hlocated
    obtain ⟨source, names, rfl, hlisted, hsource⟩ := listed_of_mem_requests hrequests hmem huse
    exact h _ (.unbound hsource hlisted hext htable hunbound hlocated)

theorem replayAll_failsAs_of {statements : List Statement}
    (h : ∀ s ∈ statements, FailsAs P (scope.replay s)) : FailsAs P (scope.replayAll statements) := by
  induction statements with
  | nil => exact .pure ()
  | cons s rest ih =>
    obtain ⟨hfirst, hrest⟩ := List.forall_mem_cons.mp h
    exact hfirst.bind fun _ => ih hrest

theorem replayOptional_failsAs_of {block? : Option (List Statement)}
    (h : ∀ block ∈ block?, ∀ s ∈ block, FailsAs P (scope.replay s)) :
    FailsAs P (scope.replayOptional block?) := by
  cases block? with
  | none => exact .pure ()
  | some block => exact replayAll_failsAs_of (h block rfl)

/-- **A replay fails with what its imports fail with**, or with what one of the statements that it
comes to refuses. -/
theorem replay_failsAs (hload : ∀ name, FailsAs P (scope.load name)) (statement : Statement)
    (h : ∀ part : Statement, part.Within statement →
      ∀ failure, scope.Refuses part failure → P failure) :
    FailsAs P (scope.replay statement) := by
  induction statement using Statement.induct with
  | quiet s hs => exact replay_quiet_failsAs hs
  | imports s hs => exact replay_import_failsAs hload hs (h s .self)
  | branches blocks ih =>
    rw [replay, replayBlocks_eq]
    refine replayAll_failsAs_of fun s hs => ?_
    obtain ⟨block, hblock, hmem⟩ := List.mem_flatten.mp hs
    exact ih block hblock s hmem fun part hpart => h part (.branches hblock hmem hpart)
  | attempt body handlers orElse finish ihbody ihhandler ihelse ihfinish =>
    rw [replay]
    have hbody : FailsAs P (scope.replayAll body) :=
      replayAll_failsAs_of fun s hs => ihbody s hs fun part hpart => h part (.body hs hpart)
    have helse : FailsAs P (scope.replayOptional orElse) :=
      replayOptional_failsAs_of fun block hblock s hs => ihelse block hblock s hs fun part hpart =>
        h part (by cases hblock; exact .orElse hs hpart)
    have hfinish : FailsAs P (scope.replayOptional finish) :=
      replayOptional_failsAs_of fun block hblock s hs => ihfinish block hblock s hs
        fun part hpart => h part (by cases hblock; exact .finish hs hpart)
    refine hbody.outcome_bind (fun _ => helse.bind fun _ => hfinish) fun failure hfailure => ?_
    refine FailsAs.bind ?_ fun _ => hfinish
    -- without a handler that catches, the failure of the body is handed on
    rw [replayHandler_eq]
    cases hcatch : catchingBlock? handlers with
    | none => exact .throw hfailure
    | some block =>
      exact replayAll_failsAs_of fun s hs => ihhandler block hcatch s hs fun part hpart =>
        h part (.handler hcatch hs hpart)

end Scope

/-! ### Loads -/

namespace Tree

variable (tree : Tree)

/-- The statement is part of the code of the module, which is one of the tree. -/
def Contains (name : String) (part : Statement) : Prop :=
  ∃ location statements, tree.locate name = some location
    ∧ tree.code location.path = .ok statements ∧ ∃ s ∈ statements, part.Within s

/-- **Why an import fails.** -/
inductive Explains : ImportFailure → Prop where
  /-- The module is not one of the tree. -/
  | missing {name : String} : tree.locate name = none → Explains ⟨name, .noModule name⟩
  /-- The source of the module cannot be read or parsed. -/
  | unusable {name : String} {location : Location} {cause : ImportError} :
      tree.locate name = some location → tree.code location.path = .error cause →
      Explains ⟨name, cause⟩
  /-- A statement of the module cannot be served. -/
  | refused {depth : Nat} {name : String} {location : Location} {s : Statement}
      {failure : ImportFailure} :
      tree.locate name = some location → tree.Contains name s →
      (tree.scope (tree.load depth) name location).Refuses s failure → Explains failure
  /-- As many modules are being loaded inside each other as may be. -/
  | tooDeep {name : String} : Explains ⟨name, .tooDeep⟩

variable {tree}

theorem Contains.within {name : String} {part whole : Statement} (h : tree.Contains name whole)
    (hpart : part.Within whole) : tree.Contains name part := by
  obtain ⟨location, statements, hlocate, hcode, s, hs, hwhole⟩ := h
  exact ⟨location, statements, hlocate, hcode, s, hs, hpart.trans hwhole⟩

variable (tree)

/-- A replay fails for a reason, if the loads below it do. -/
theorem replay_failsAs {depth : Nat} (hload : ∀ name, FailsAs tree.Explains (tree.load depth name))
    {name : String} {location : Location} (hlocate : tree.locate name = some location) :
    FailsAs tree.Explains (tree.replay (tree.load depth) name location) := by
  rw [replay]
  cases hcode : tree.code location.path with
  | error cause => exact .throw (.unusable hlocate hcode)
  | ok statements =>
    refine Scope.replayAll_failsAs_of fun s hs => Scope.replay_failsAs hload s ?_
    exact fun part hpart failure hrefuses =>
      .refused hlocate ⟨location, statements, hlocate, hcode, s, hs, hpart⟩ hrefuses

theorem loadFresh_failsAs {depth : Nat}
    (hload : ∀ name, FailsAs tree.Explains (tree.load depth name)) (name : String) :
    FailsAs tree.Explains (tree.loadFresh (tree.load depth) name) := by
  intro cache failure hfail
  cases hlocate : tree.locate name with
  | none =>
    rw [tree.loadFresh_missing hlocate] at hfail
    cases hfail
    exact .missing hlocate
  | some location =>
    rw [tree.loadFresh_located hlocate] at hfail
    have hreplay := tree.replay_failsAs hload hlocate (cache.opened name)
    rcases hrun : tree.replay (tree.load depth) name location (cache.opened name) with ⟨_ | _, after⟩
    · rw [hrun] at hfail hreplay
      cases hfail
      exact hreplay failure rfl
    · rw [hrun] at hfail
      cases hfail

/-- **An import fails for a reason.**  By induction on the depth: the package around the module and
whatever its statements ask for are loaded one level further down. -/
theorem load_failsAs (depth : Nat) : ∀ name, FailsAs tree.Explains (tree.load depth name) := by
  induction depth with
  | zero => exact fun name => .throw .tooDeep
  | succ depth ih =>
    intro name cache
    refine tree.load_cases (P := fun result => ∀ failure, result.1 = .error failure →
      tree.Explains failure) ?_ ?_ ?_ ?_
    · exact fun table hknown => nofun
    · rintro parent failure after - - hload _ ⟨⟩
      exact ih parent cache failure (by rw [hload])
    · exact fun parent table own after _ _ _ _ => nofun
    · exact fun after _ _ => tree.loadFresh_failsAs ih name after

end Tree

end ApiStubs.Python
