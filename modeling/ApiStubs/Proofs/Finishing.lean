import ApiStubs.Proofs.Caching
import ApiStubs.Python.Source
import Mathlib.Data.List.Basic

/-!
# Proofs — Finishing — when a `finally` block is replayed

However a `try` statement ends, Python runs its `finally` block last, once, and lets a failure that
is pending go on behind it: `Scope.finishing`, and `Scope.performAll` for statements nested to any
depth.  A replay comes to the block only where nothing is pending.

* `Scope.replay_attempt_finishes`: a replayed `try` does what Python does, if and only if a failure
  that its clauses end in finds nothing to do in the block.
* `Scope.Settled`: whenever a `finally` block is reached, nothing is pending.
* `Scope.Settled.replayAll_eq`: then a replay does what Python does.
-/

namespace ApiStubs.Python

namespace Scope

variable (scope : Scope)

/-! ### What Python does -/

/-- The clauses of a `try` statement before its `finally`: the body, and what its outcome
chooses. -/
def clauses (body : List Statement) (handlers : List Handler)
    (orElse : Option (List Statement)) : Importing Unit := do
  match ← (scope.replayAll body).outcome with
  | .ok () => scope.replayOptional orElse
  | .error failure => scope.replayHandler failure handlers

/-- A computation, and a last one that runs however the first ends; a failure of the first goes on
behind it, unless the last fails itself. -/
def finishing (first last : Importing Unit) : Importing Unit := do
  let outcome ← first.outcome
  last
  liftExcept outcome

mutual

/-- Executes a statement as Python does. -/
def perform : Statement → Importing Unit
  | .branches blocks => performBlocks blocks
  | .attempt body handlers orElse finish =>
    finishing
      (do
        match ← (performAll body).outcome with
        | .ok () => performOptional orElse
        | .error failure => performHandler failure handlers)
      (performOptional finish)
  | statement => scope.replay statement

/-- Executes statements in order. -/
def performAll : List Statement → Importing Unit
  | [] => pure ()
  | statement :: rest => do
    perform statement
    performAll rest

/-- Executes blocks in order. -/
def performBlocks : List (List Statement) → Importing Unit
  | [] => pure ()
  | block :: rest => do
    performAll block
    performBlocks rest

/-- Executes a block, if there is one. -/
def performOptional : Option (List Statement) → Importing Unit
  | none => pure ()
  | some block => performAll block

/-- Executes the first handler that catches a failed import. -/
def performHandler (failure : ImportFailure) : List Handler → Importing Unit
  | [] => throw failure
  | .mk head body :: rest =>
    if catchesImportFailure head then performAll body else performHandler failure rest

end

variable {scope} {cache between : Cache} {failure : ImportFailure}

theorem finishing_ok {first : Importing Unit} (last : Importing Unit)
    (h : first cache = (.ok (), between)) : finishing first last cache = last between := by
  rw [finishing, Importing.run_bind, Importing.run_outcome, h]
  exact congrFun (bind_pure last) between

/-- A failure in front goes on behind the last part, unless this fails itself. -/
theorem finishing_error {first : Importing Unit} (last : Importing Unit)
    (h : first cache = (.error failure, between)) :
    finishing first last cache = match last between with
      | (.ok (), after) => (.error failure, after)
      | (.error other, after) => (.error other, after) := by
  rw [finishing, Importing.run_bind, Importing.run_outcome, h]
  dsimp only
  rw [Importing.run_bind]
  rcases last between with ⟨other | _, after⟩
  · rfl
  · exact Importing.run_liftExcept _ _

/-! ### One `try` statement -/

variable {body : List Statement} {handlers : List Handler} {orElse : Option (List Statement)}
variable {finish : List Statement}

theorem replay_attempt_bind (finish? : Option (List Statement)) :
    scope.replay (.attempt body handlers orElse finish?)
      = (do scope.clauses body handlers orElse; scope.replayOptional finish?) := by
  rw [replay, clauses, bind_assoc]
  refine bind_congr fun outcome => ?_
  cases outcome <;> rfl

theorem replay_attempt_of_ok
    (h : scope.clauses body handlers orElse cache = (.ok (), between)) :
    scope.replay (.attempt body handlers orElse (some finish)) cache
      = scope.replayAll finish between := by
  rw [replay_attempt_bind, Importing.run_bind_ok h]
  rfl

theorem replay_attempt_of_error
    (h : scope.clauses body handlers orElse cache = (.error failure, between)) :
    scope.replay (.attempt body handlers orElse (some finish)) cache
      = (.error failure, between) := by
  rw [replay_attempt_bind, Importing.run_bind_error h]

/-- A pending failure is all the same to a block that does nothing, or ends in that failure. -/
theorem replay_attempt_finishes :
    scope.replay (.attempt body handlers orElse (some finish)) cache
        = finishing (scope.clauses body handlers orElse) (scope.replayAll finish) cache
      ↔ ∀ failure between, scope.clauses body handlers orElse cache = (.error failure, between) →
        scope.replayAll finish between = (.ok (), between)
        ∨ scope.replayAll finish between = (.error failure, between) := by
  rcases hclauses : scope.clauses body handlers orElse cache with ⟨failure | _, between⟩
  · rw [replay_attempt_of_error hclauses, finishing_error _ hclauses]
    constructor
    · intro heq failure between h
      cases h
      rcases hfinish : scope.replayAll finish between with ⟨other | _, after⟩
      · rw [hfinish] at heq
        cases heq
        exact .inr rfl
      · rw [hfinish] at heq
        cases heq
        exact .inl rfl
    · intro h
      rcases h failure between rfl with hnothing | hsame
      · rw [hnothing]
      · rw [hsame]
  · rw [replay_attempt_of_ok hclauses, finishing_ok _ hclauses]
    exact ⟨fun _ => nofun, fun _ => rfl⟩

/-! ### Statements nested to any depth -/

variable (scope)

/-- Replaying the statements reaches a `finally` block only where nothing is pending, in the
statements themselves and in the blocks that their outcomes choose. -/
inductive Settled : List Statement → Cache → Prop where
  | done (cache : Cache) : Settled [] cache
  | simple {s : Statement} {rest : List Statement} {cache : Cache} :
      s.isQuiet ∨ s.isImport →
      (∀ after, scope.replay s cache = (.ok (), after) → Settled rest after) →
      Settled (s :: rest) cache
  | branches {blocks : List (List Statement)} {rest : List Statement} {cache : Cache} :
      Settled (blocks.flatten ++ rest) cache → Settled (.branches blocks :: rest) cache
  | attempt {body : List Statement} {handlers : List Handler}
      {orElse finish : Option (List Statement)} {rest : List Statement} {cache : Cache} :
      Settled body cache →
      (∀ after, scope.replayAll body cache = (.ok (), after) → Settled (orElse.getD []) after) →
      (∀ failure after, scope.replayAll body cache = (.error failure, after) →
        Settled ((catchingBlock? handlers).getD []) after) →
      (∀ after, scope.clauses body handlers orElse cache = (.ok (), after) →
        Settled (finish.getD []) after) →
      (∀ failure after, scope.clauses body handlers orElse cache = (.error failure, after) →
        finish = none) →
      (∀ after, scope.replay (.attempt body handlers orElse finish) cache = (.ok (), after) →
        Settled rest after) →
      Settled (.attempt body handlers orElse finish :: rest) cache

theorem perform_eq_replay {s : Statement} (h : s.isQuiet ∨ s.isImport) :
    scope.perform s = scope.replay s := by
  cases s with
  | branches | attempt => simp [Statement.isQuiet, Statement.isImport] at h
  | _ => rw [perform]; all_goals nofun

theorem performAll_append (first second : List Statement) :
    scope.performAll (first ++ second) = (do scope.performAll first; scope.performAll second) := by
  induction first with
  | nil => simp [performAll]
  | cons s rest ih => simp [performAll, ih]

theorem performBlocks_eq (blocks : List (List Statement)) :
    scope.performBlocks blocks = scope.performAll blocks.flatten := by
  induction blocks with
  | nil => rfl
  | cons block rest ih => rw [performBlocks, ih, List.flatten_cons, performAll_append]

theorem performOptional_eq (block? : Option (List Statement)) :
    scope.performOptional block? = scope.performAll (block?.getD []) := by
  cases block? <;> rfl

/-- The handlers perform the one block that catches, or let the failure through. -/
theorem performHandler_eq (failure : ImportFailure) (handlers : List Handler) :
    scope.performHandler failure handlers
      = match catchingBlock? handlers with
        | some block => scope.performAll block
        | none => throw failure := by
  induction handlers with
  | nil => rfl
  | cons handler rest ih =>
    obtain ⟨head, body⟩ := handler
    rw [performHandler, catchingBlock?]
    split
    · rfl
    · exact ih

/-- The clauses of a `try` statement before its `finally`, as Python executes them. -/
def performClauses (body : List Statement) (handlers : List Handler)
    (orElse : Option (List Statement)) : Importing Unit := do
  match ← (scope.performAll body).outcome with
  | .ok () => scope.performOptional orElse
  | .error failure => scope.performHandler failure handlers

theorem perform_attempt (body : List Statement) (handlers : List Handler)
    (orElse finish : Option (List Statement)) :
    scope.perform (.attempt body handlers orElse finish)
      = finishing (scope.performClauses body handlers orElse) (scope.performOptional finish) := by
  rw [perform]
  rfl

variable {scope}

/-- Clauses are executed as they are replayed, if the blocks that are come to are. -/
theorem performClauses_eq
    (hbody : scope.replayAll body cache = scope.performAll body cache)
    (horElse : ∀ after, scope.replayAll body cache = (.ok (), after) →
      scope.replayAll (orElse.getD []) after = scope.performAll (orElse.getD []) after)
    (hhandler : ∀ failure after, scope.replayAll body cache = (.error failure, after) →
      scope.replayAll ((catchingBlock? handlers).getD []) after
        = scope.performAll ((catchingBlock? handlers).getD []) after) :
    scope.clauses body handlers orElse cache = scope.performClauses body handlers orElse cache := by
  rw [clauses, performClauses, Importing.run_bind, Importing.run_bind, Importing.run_outcome,
    Importing.run_outcome, ← hbody]
  rcases hrun : scope.replayAll body cache with ⟨failure | _, after⟩
  · have hsame := hhandler failure after hrun
    dsimp only
    rw [replayHandler_eq, performHandler_eq]
    cases hcatch : catchingBlock? handlers with
    | none => rfl
    | some block =>
      rw [hcatch] at hsame
      exact hsame
  · dsimp only
    rw [replayOptional_eq, performOptional_eq]
    exact horElse after hrun

/-- **A replay in which no failure is pending where a `finally` block is reached does what Python
does**, however deep the statements are nested. -/
theorem Settled.replayAll_eq {statements : List Statement} (h : scope.Settled statements cache) :
    scope.replayAll statements cache = scope.performAll statements cache := by
  induction h with
  | done => rfl
  | @simple s rest cache hsimple _ ih =>
    rw [replayAll, performAll, perform_eq_replay scope hsimple, Importing.run_bind,
      Importing.run_bind]
    rcases hrun : scope.replay s cache with ⟨failure | _, after⟩
    · rfl
    · exact ih after hrun
  | @branches blocks rest cache _ ih =>
    have hreplay : scope.replayAll (.branches blocks :: rest)
        = scope.replayAll (blocks.flatten ++ rest) := by
      rw [replayAll, replay, replayBlocks_eq, replayAll_append]
    have hperform : scope.performAll (.branches blocks :: rest)
        = scope.performAll (blocks.flatten ++ rest) := by
      rw [performAll, perform, performBlocks_eq, performAll_append]
    rw [hreplay, hperform, ih]
  | @attempt body handlers orElse finish rest cache _ _ _ _ hpending _ hbody horElse hhandler
      hfinish hrest =>
    have hclauses := performClauses_eq hbody horElse hhandler
    have hstatement : scope.replay (.attempt body handlers orElse finish) cache
        = scope.perform (.attempt body handlers orElse finish) cache := by
      rw [perform_attempt, replay_attempt_bind, Importing.run_bind]
      rcases hrun : scope.clauses body handlers orElse cache with ⟨failure | _, between⟩
      · -- a failure is pending, so there is no block to come to
        rw [finishing_error _ (hclauses.symm.trans hrun), hpending failure between hrun]
        rfl
      · rw [finishing_ok _ (hclauses.symm.trans hrun), performOptional_eq,
          replayOptional_eq]
        exact hfinish between hrun
    rw [replayAll, performAll, Importing.run_bind, Importing.run_bind, ← hstatement]
    rcases hrun : scope.replay (.attempt body handlers orElse finish) cache
      with ⟨failure | _, after⟩
    · rfl
    · exact hrest after hrun

/-! ### When a `finally` block is replayed -/

/-- **A `finally` block is replayed where nothing is pending.**  If the clauses before it succeed,
it is replayed once, after all of them; if they fail, whichever of them does, it is not replayed,
and the failure goes on.  So the statement does what Python does if and only if the block has
nothing to do in the second case; and statements nested to any depth do what Python does if nothing
is pending wherever they come to a `finally` block. -/
theorem finally_replayed (scope : Scope) (body : List Statement) (handlers : List Handler)
    (orElse : Option (List Statement)) (finish : List Statement) (cache : Cache) :
    (∀ between, scope.clauses body handlers orElse cache = (.ok (), between) →
      scope.replay (.attempt body handlers orElse (some finish)) cache
        = scope.replayAll finish between)
    ∧ (∀ failure between, scope.clauses body handlers orElse cache = (.error failure, between) →
      scope.replay (.attempt body handlers orElse (some finish)) cache
        = (.error failure, between))
    ∧ (scope.replay (.attempt body handlers orElse (some finish)) cache
        = finishing (scope.clauses body handlers orElse) (scope.replayAll finish) cache
      ↔ ∀ failure between, scope.clauses body handlers orElse cache = (.error failure, between) →
        scope.replayAll finish between = (.ok (), between)
        ∨ scope.replayAll finish between = (.error failure, between))
    ∧ (∀ statements, scope.Settled statements cache →
      scope.replayAll statements cache = scope.performAll statements cache) :=
  ⟨fun _ h => replay_attempt_of_ok h, fun _ _ h => replay_attempt_of_error h,
    replay_attempt_finishes, fun _ h => h.replayAll_eq⟩

/-- A module on its own, with no package around it. -/
def alone : Scope where
  module := "app"
  package := ""
  located _ := false
  load name := throw ⟨name, .noModule name⟩

/-- An import that fails, and a handler that catches it. -/
def fallback : List Statement × List Handler :=
  ([.importFrom (.relative 1 "fast") (.listed [⟨"run", none⟩])],
    [.mk ⟨false, [.name "ImportError"]⟩ [.functionDef "run"]])

theorem clauses_fallback :
    alone.clauses fallback.1 fallback.2 none (Cache.opened {} "app")
      = (.ok (), (alone.replay (.functionDef "run") (Cache.opened {} "app")).2) := by
  rfl

theorem settled_fallback : alone.Settled
    [.attempt fallback.1 fallback.2 none (some [.functionDef "done"])] (Cache.opened {} "app") := by
  have hquiet : ∀ name cache, alone.Settled [.functionDef name] cache :=
    fun name cache => .simple (.inl rfl) fun _ _ => .done _
  refine .attempt (.simple (.inr rfl) fun _ _ => .done _) (fun _ _ => .done _)
    (fun _ _ _ => hquiet "run" _) (fun _ _ => hquiet "done" _) (fun failure after h => ?_)
    (fun _ _ => .done _)
  rw [clauses_fallback] at h
  cases h

/-- Behind the handler the `finally` block is replayed, as Python executes it. -/
theorem finally_replayed_fallback :
    alone.replay (.attempt fallback.1 fallback.2 none (some [.functionDef "done"]))
        (Cache.opened {} "app")
      = alone.replayAll [.functionDef "done"]
        (alone.replay (.functionDef "run") (Cache.opened {} "app")).2
    ∧ alone.replayAll [.attempt fallback.1 fallback.2 none (some [.functionDef "done"])]
        (Cache.opened {} "app")
      = alone.performAll [.attempt fallback.1 fallback.2 none (some [.functionDef "done"])]
        (Cache.opened {} "app") := by
  obtain ⟨hok, -, -, hnested⟩ := finally_replayed alone fallback.1 fallback.2 none
    [.functionDef "done"] (Cache.opened {} "app")
  exact ⟨hok _ clauses_fallback, hnested _ settled_fallback⟩

end Scope

/-! ### A block that is passed over -/

/-- Three modules in which a `try` with a `finally` block ends in a failure that the `try` around
it catches: the body fails, or the `else` block, or the handler. -/
def interrupted : Disk where
  entries := [
    (["body.py"], .file (.text
      "try:\n try:\n  from .gone import x\n finally:\n  done = 1\nexcept:\n pass\n")),
    (["otherwise.py"], .file (.text
      ("try:\n try: pass\n except: pass\n else:\n  from .gone import x\n finally:\n  done = 1\n"
        ++ "except:\n pass\n"))),
    (["handler.py"], .file (.text
      ("try:\n try:\n  from .gone import x\n except:\n  from .gone import y\n finally:\n"
        ++ "  done = 1\nexcept:\n pass\n")))]
  workingDirectory := []

/-- Each of them is loaded, without what the `finally` block defines. -/
theorem interrupted_unfinished :
    (["body", "otherwise", "handler"].map fun name =>
      (Importer.load interrupted name ({ searchRoot := ⟨"."⟩ } : Loader)).1.map fun table =>
        table.find? "done") = [.ok none, .ok none, .ok none] := by
  decide +kernel

end ApiStubs.Python
