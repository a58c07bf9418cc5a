import ApiStubs.Symbol

/-!
# Proofs — Working — what the steps of a documentation run are

The run of each primitive of `Work`, and what the two questions about symbols come to for an
importer that gives the same answers whatever it was asked before (`Importer.Steady`).
-/

namespace ApiStubs

namespace Work

variable {σ α β : Type}

/-! ### What a run is -/

@[simp] theorem run_pure (a : α) (space : Workspace σ) :
    (pure a : Work σ α) space = (.ok a, space) :=
  rfl

@[simp] theorem run_throw (fault : Fault) (space : Workspace σ) :
    (throw fault : Work σ α) space = (.error fault, space) := rfl

theorem run_bind (x : Work σ α) (f : α → Work σ β) (space : Workspace σ) :
    (x >>= f) space = match x space with
      | (.ok a, after) => f a after
      | (.error fault, after) => (.error fault, after) := by
  show (match x space with | (a, after) => ExceptT.bindCont f a after) = _
  rcases x space with ⟨_ | a, after⟩ <;> rfl

theorem run_bind_ok {x : Work σ α} {space after : Workspace σ} {a : α}
    (h : x space = (.ok a, after)) (f : α → Work σ β) : (x >>= f) space = f a after := by
  rw [run_bind, h]

theorem run_bind_error {x : Work σ α} {space after : Workspace σ} {fault : Fault}
    (h : x space = (.error fault, after)) (f : α → Work σ β) :
    (x >>= f) space = (.error fault, after) := by
  rw [run_bind, h]

/-- A computation fails in its first part, or goes on from there. -/
theorem bind_cases {x : Work σ α} {f : α → Work σ β} {space after : Workspace σ}
    {result : Except Fault β} (h : (x >>= f) space = (result, after)) :
    (∃ fault, x space = (.error fault, after) ∧ result = .error fault)
    ∨ ∃ a between, x space = (.ok a, between) ∧ f a between = (result, after) := by
  rw [run_bind] at h
  split at h
  · exact .inr ⟨_, _, ‹_›, h⟩
  · cases h
    exact .inl ⟨_, ‹_›, rfl⟩

variable [Importer σ]

theorem run_load (name : String) (space : Workspace σ) :
    (load name : Work σ SymbolTable) space
      = ((Importer.load space.disk name space.importer).1.mapError .notImported,
        { space with importer := (Importer.load space.disk name space.importer).2 }) := rfl

theorem run_load? (name : String) (space : Workspace σ) :
    (load? name : Work σ (Option SymbolTable)) space
      = (.ok (Importer.load space.disk name space.importer).1.toOption,
        { space with importer := (Importer.load space.disk name space.importer).2 }) := rfl

end Work

/-- The symbols of a module are those of its table. -/
theorem run_members {σ : Type} [Importer σ] (module : String) (space : Workspace σ) :
    members module space
      = (((Importer.load space.disk module space.importer).1.mapError Fault.notImported).map
          fun table => .ofTable table module,
        { space with importer := (Importer.load space.disk module space.importer).2 }) := by
  rw [members, Work.run_bind, Work.run_load]
  cases (Importer.load space.disk module space.importer).1 <;> rfl

/-- The first candidate is found if it can be imported and hands out the symbol; otherwise the
search goes on. -/
theorem run_firstHandingOut_cons {σ : Type} [Importer σ] (module symbol candidate : String)
    (rest : List String) (space : Workspace σ) :
    firstHandingOut module symbol (candidate :: rest) space
      = match (Importer.load space.disk candidate space.importer).1.toOption.any
            fun table => table.handsOut symbol module with
        | true =>
          (.ok candidate,
            { space with importer := (Importer.load space.disk candidate space.importer).2 })
        | false => firstHandingOut module symbol rest
          { space with importer := (Importer.load space.disk candidate space.importer).2 } := by
  rw [firstHandingOut, Work.run_bind, Work.run_load?]
  cases (Importer.load space.disk candidate space.importer).1 with
  | error failure => rfl
  | ok table =>
    show ite (table.handsOut symbol module = true) (pure candidate)
      (firstHandingOut module symbol rest) _ = match table.handsOut symbol module with
        | true => _
        | false => _
    split
    · rename_i hhands
      rw [hhands]
      rfl
    · rename_i hhands
      rw [Bool.eq_false_iff.mpr hhands]

theorem SymbolTable.handsOut_iff {table : SymbolTable} {symbol module : String} :
    table.handsOut symbol module ↔
      ∃ binding, table.find? symbol = some binding ∧ binding.origin? = some module := by
  rw [SymbolTable.handsOut, Option.any_eq_true]
  simp [Binding.isDefinedIn]

/-! ### Importers with steady answers -/

/-- In the states that satisfy `I`, the importer answers for the names in `scope`, and stays in
such states. -/
structure Importer.Steady {σ : Type} [Importer σ] (disk : Disk) (I : σ → Prop)
    (scope : String → Prop) (answer : String → Except ImportFailure SymbolTable) : Prop where
  answers : ∀ s name, I s → scope name → (Importer.load disk name s).1 = answer name
  stays : ∀ s name, I s → scope name → I (Importer.load disk name s).2

/-- The first of the candidates that hands out the symbol, where the answers are known. -/
def firstAnswered (answer : String → Except ImportFailure SymbolTable) (module symbol : String) :
    List String → Except Fault String
  | [] => .error (.unresolved module symbol)
  | candidate :: rest =>
    match answer candidate with
    | .ok table =>
      if table.handsOut symbol module then .ok candidate
      else firstAnswered answer module symbol rest
    | .error _ => firstAnswered answer module symbol rest

namespace Importer.Steady

variable {σ : Type} [Importer σ] {disk : Disk} {I : σ → Prop} {scope : String → Prop}
variable {answer : String → Except ImportFailure SymbolTable}

theorem members_eq (h : Steady disk I scope answer) {s : σ} (hs : I s) {module : String}
    (hm : scope module) :
    (members module ⟨disk, s⟩).1
      = ((answer module).mapError Fault.notImported).map fun table => .ofTable table module := by
  rw [run_members, h.answers s module hs hm]

/-- A search asks for one candidate after the other, and finds what the answers tell. -/
theorem firstHandingOut_eq (h : Steady disk I scope answer) {module symbol : String} :
    ∀ {candidates : List String} {s : σ}, (∀ c ∈ candidates, scope c) → I s →
      (firstHandingOut module symbol candidates ⟨disk, s⟩).1
        = firstAnswered answer module symbol candidates
  | [], _, _, _ => rfl
  | candidate :: rest, s, hc, hs => by
    have hcandidate := hc candidate (by simp)
    have hstays := h.stays s candidate hs hcandidate
    have hrest : (firstHandingOut module symbol rest _).1
        = firstAnswered answer module symbol rest :=
      h.firstHandingOut_eq (fun c hmem => hc c (List.mem_cons_of_mem _ hmem)) hstays
    rw [run_firstHandingOut_cons, firstAnswered, h.answers s candidate hs hcandidate]
    cases answer candidate with
    | error failure => exact hrest
    | ok table =>
      simp only [Except.toOption, Option.any_some]
      cases hhands : table.handsOut symbol module with
      | true => rfl
      | false => exact hrest

theorem shortestImport_eq (h : Steady disk I scope answer) {module symbol : String} {s : σ}
    (hc : ∀ c ∈ Dotted.prefixes module, scope c) (hs : I s) :
    (shortestImport module symbol ⟨disk, s⟩).1
      = firstAnswered answer module symbol (Dotted.prefixes module) :=
  h.firstHandingOut_eq hc hs

end Importer.Steady

end ApiStubs
