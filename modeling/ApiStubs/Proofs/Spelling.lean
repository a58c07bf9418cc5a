import ApiStubs.Proofs.Mentioning
import ApiStubs.Proofs.Naming

/-!
# Proofs — Spelling — the names that a source binds are identifiers of it

What a statement binds by its own words is among the identifiers noted while it was read: one lemma
for each reader of statements, in the order of the definitions.  A reader that is given the reader
of blocks notes the words of what it hands out if that one does, `Read.notes_indented`.

`Source.mem_of_introduced` says it of whole sources, and `Source.isIdentifier` says how their
identifiers are spelled.
-/

namespace ApiStubs.Python

/-! ### The words of statements -/

/-- Words of statements for what they bind. -/
def Introduced (each : List Statement) (word : String) : Prop := ∃ s ∈ each, s.Introduces word

section

variable {s : Statement} {each others : List Statement} {word : String}

@[simp, grind =] theorem introduced_nil : Introduced [] word ↔ False := by
  simp [Introduced]

@[simp, grind =] theorem introduced_cons :
    Introduced (s :: each) word ↔ s.Introduces word ∨ Introduced each word := by
  simp [Introduced]

@[simp] theorem introduced_flatten {lists : List (List Statement)} :
    Introduced lists.flatten word ↔ ∃ list ∈ lists, Introduced list word := by
  induction lists with
  | nil => simp
  | cons list lists ih =>
    rw [List.flatten_cons, List.exists_mem_cons_iff, ← ih]
    simp [Introduced, or_and_right, exists_or]

namespace Statement

@[simp, grind =] theorem introduces_inert : inert.Introduces word ↔ False := by
  refine ⟨?_, False.elim⟩
  rintro ⟨_, ⟨⟩, ⟨⟩⟩

@[simp, grind =] theorem introduces_importModules {modules : List Imported} :
    (importModules modules).Introduces word ↔ False := by
  refine ⟨?_, False.elim⟩
  rintro ⟨_, ⟨⟩, ⟨⟩⟩

@[simp, grind =] theorem introduces_delete {targets : List Expr} :
    (delete targets).Introduces word ↔ False := by
  refine ⟨?_, False.elim⟩
  rintro ⟨_, ⟨⟩, ⟨⟩⟩

@[simp, grind =] theorem introduces_augment {target : Target} {right : Expr} :
    (augment target right).Introduces word ↔ False := by
  refine ⟨?_, False.elim⟩
  rintro ⟨_, ⟨⟩, ⟨⟩⟩

@[simp, grind =] theorem introduces_everything {source : ImportSource} :
    (importFrom source .everything).Introduces word ↔ False := by
  refine ⟨?_, False.elim⟩
  rintro ⟨_, ⟨⟩, ⟨⟩⟩

@[simp, grind =] theorem introduces_listed {source : ImportSource} {names : List Imported} :
    (importFrom source (.listed names)).Introduces word
      ↔ ∃ imported ∈ names, imported.alias? = some word := by
  constructor
  · rintro ⟨_, ⟨⟩, hnames⟩
    cases hnames with
    | renamed hmem halias => exact ⟨_, hmem, halias⟩
  · rintro ⟨imported, hmem, halias⟩
    exact ⟨_, .self, .renamed hmem halias⟩

@[simp, grind =] theorem introduces_classDef {name : String} :
    (classDef name).Introduces word ↔ word = name := by
  constructor
  · rintro ⟨_, ⟨⟩, ⟨⟩⟩
    rfl
  · rintro rfl
    exact ⟨_, .self, .classDef⟩

@[simp, grind =] theorem introduces_functionDef {name : String} :
    (functionDef name).Introduces word ↔ word = name := by
  constructor
  · rintro ⟨_, ⟨⟩, ⟨⟩⟩
    rfl
  · rintro rfl
    exact ⟨_, .self, .functionDef⟩

@[simp, grind =] theorem introduces_assign {a : Assignment} :
    (assign a).Introduces word ↔ word ∈ a.bound := by
  constructor
  · rintro ⟨_, ⟨⟩, hnames⟩
    cases hnames with
    | assign h => exact h
  · exact fun h => ⟨_, .self, .assign h⟩

theorem introduces_branches {blocks : List (List Statement)}
    (h : (branches blocks).Introduces word) : ∃ block ∈ blocks, Introduced block word := by
  obtain ⟨part, hpart, hnames⟩ := h
  cases hpart with
  | self => cases hnames
  | branches hblock hs hin => exact ⟨_, hblock, _, hs, part, hin, hnames⟩

/-- What a `try` introduces is introduced in one of its blocks. -/
theorem introduces_attempt {body : List Statement} {handlers : List Handler}
    {orElse finish : Option (List Statement)}
    (h : (attempt body handlers orElse finish).Introduces word) :
    Introduced body word ∨ (∃ handler ∈ handlers, Introduced handler.body word)
      ∨ Introduced (orElse.getD []) word ∨ Introduced (finish.getD []) word := by
  obtain ⟨part, hpart, hnames⟩ := h
  cases hpart with
  | self => cases hnames
  | body hs hin => exact .inl ⟨_, hs, part, hin, hnames⟩
  | handler hcatch hs hin =>
    obtain ⟨handler, hmem, rfl⟩ := exists_of_catchingBlock? hcatch
    exact .inr (.inl ⟨handler, hmem, _, hs, part, hin, hnames⟩)
  | orElse hs hin => exact .inr (.inr (.inl ⟨_, hs, part, hin, hnames⟩))
  | finish hs hin => exact .inr (.inr (.inr ⟨_, hs, part, hin, hnames⟩))

end Statement

end

/-! ### The words of targets -/

mutual

/-- What a target binds is mentioned by the expression that it is read from. -/
theorem Expr.mentions_of_bound {e : Expr} {target : Target} {word : String}
    (h : e.target? = some target) (hword : word ∈ target.bound) : e.Mentions word := by
  rw [Expr.target?.eq_def] at h
  split at h
  · cases h
    simpa [Target.bound] using hword
  · cases h
    simp [Target.bound] at hword
  · cases h
    simp [Target.bound] at hword
  · cases h
    simpa [Target.bound] using hword
  · cases h
    simp [Target.bound] at hword
  · cases h
    simp [Target.bound] at hword
  · obtain ⟨inner, hinner, rfl⟩ := Option.map_eq_some_iff.mp h
    rw [Expr.mentions_group]
    exact Expr.mentions_of_bound hinner (by simpa [Target.bound, boundByTargets] using hword)
  · obtain ⟨inner, hinner, rfl⟩ := Option.map_eq_some_iff.mp h
    rw [Expr.mentions_tuple]
    exact mentioned_of_bound hinner (by simpa [Target.bound] using hword)
  · obtain ⟨inner, hinner, rfl⟩ := Option.map_eq_some_iff.mp h
    rw [Expr.mentions_list]
    exact mentioned_of_bound hinner (by simpa [Target.bound] using hword)
  · cases h

/-- What targets bind is mentioned in the expressions that they are made of. -/
theorem mentioned_of_bound {each : List Expr} {targets : List Target} {word : String}
    (h : targets? each = some targets) (hword : word ∈ boundByTargets targets) :
    Mentioned each word := by
  match each with
  | [] =>
    cases h
    simp [boundByTargets] at hword
  | e :: rest =>
    rw [targets?] at h
    obtain ⟨first, hfirst, h⟩ := Option.bind_eq_some_iff.mp h
    obtain ⟨others, hothers, h⟩ := Option.bind_eq_some_iff.mp h
    cases h
    rw [boundByTargets, List.mem_append] at hword
    rw [mentioned_cons]
    exact hword.imp (Expr.mentions_of_bound hfirst) (mentioned_of_bound hothers)

end

/-! ### Assignments -/

/-- The names that a line binds. -/
def Read.Line.Binds : Line → String → Prop
  | .assigned a, word => word ∈ a.bound
  | _, _ => False

theorem Read.Line.bound_assignTo {line : Line} {target : Target} {word : String}
    (h : word ∈ (line.assignTo target).bound) : word ∈ target.bound ∨ line.Binds word := by
  cases line with
  | assigned a => exact List.mem_append.mp h
  | _ => exact .inl h

namespace Read

variable {known : String → Prop} {limit : Nat}

theorem notes_given {α : Type} {words : α → String → Prop} {given : Option α}
    (h : ∀ a, given = some a → ∀ word, words a word → known word) :
    Notes known (given.elim failure pure) words := by
  cases given with
  | none => exact .failure
  | some a => exact .pure (h a rfl)

/-- A line of an assignment or an expression notes what it binds. -/
theorem notes_line (depth : Nat) (start : Expect) :
    Notes known (line limit depth start) Line.Binds := by
  induction depth generalizing known start with
  | zero => exact .failure
  | succ depth ih =>
    refine notes_peek fun next _ => ?_
    split
    · exact (notes_pass _).andThen fun _ => (notes_yielded notes_any _).andThen fun _ =>
        .pure fun _ => False.elim
    refine (notes_expressions notes_any _ _).bind fun ⟨items, listed⟩ => ?_
    dsimp -zeta only
    extract_lets target? alone
    have htarget : Notes (fun word => Mentioned items word ∨ known word)
        (target?.elim failure pure) fun target word => word ∈ target.bound := by
      refine notes_given fun target h word hword => .inl ?_
      dsimp only [target?] at h
      split at h
      · obtain ⟨inner, hinner, rfl⟩ := Option.map_eq_some_iff.mp h
        exact mentioned_of_bound hinner (by simpa [Target.bound] using hword)
      · obtain ⟨e, he, h⟩ := Option.bind_eq_some_iff.mp h
        exact mentioned_iff.mpr ⟨e, List.mem_of_mem_head? he, Expr.mentions_of_bound h hword⟩
    have halone : ∀ {known}, Notes known (pure alone) Line.Binds := by
      refine .pure fun word h => ?_
      dsimp only [alone] at h
      split at h <;> exact h.elim
    clear_value target? alone
    refine notes_peek fun next _ => ?_
    split
    · split
      · exact (notes_pass _).andThen fun _ => htarget.bind fun target => (ih _).bind fun line =>
          .pure fun word h => by grind [Line.Binds, Line.bound_assignTo]
      split
      · refine (notes_pass _).andThen fun _ => htarget.bind fun target =>
          (notes_type notes_any _ _ _).andThen fun _ => (notes_take? _ _).andThen fun given => ?_
        split
        · exact (ih _).bind fun line => .pure fun word h => by
            grind [Line.Binds, Line.bound_assignTo]
        · exact .pure fun word h => by grind [Line.Binds, Assignment.bound]
      split
      · exact (notes_pass _).andThen fun _ => htarget.andThen fun target => (ih _).andThen fun line =>
          .pure fun _ => False.elim
      · exact halone
    · exact halone

theorem notes_expressionStatement (start : Expect) :
    Notes known (expressionStatement limit start) Statement.Introduces := by
  refine (notes_line _ _).bind fun line => ?_
  cases line with
  | assigned a => exact .pure fun word h => .inl (by simpa [Line.Binds] using h)
  | _ => exact .pure (by simp)

/-! ### Imports -/

/-- The name that is given to what is imported. -/
def Renamed (imported : Imported) (word : String) : Prop := imported.alias? = some word

theorem notes_imported (start finish : Expect) :
    Notes known (imported limit start finish) Renamed := by
  refine (notes_dottedName _ _ _).andThen fun written => (notes_take? _ _).andThen fun renamed => ?_
  split
  · exact (notes_identifier _).bind fun name => .pure fun word h => .inl (by cases h; rfl)
  · exact .pure (by simp [Renamed])

theorem notes_importList (finish : Expect) :
    Notes known (importList limit finish) fun names word => ∃ each ∈ names, Renamed each word :=
  (notes_separated fun _ => notes_imported _ _).bind fun _ => .pure fun _ => .inl

theorem notes_bracketedImports :
    Notes known (bracketedImports limit) fun names word => ∃ each ∈ names, Renamed each word := by
  refine (notes_take? _ _).andThen fun bracket => ?_
  split
  · exact (notes_importList _).bind fun names => (notes_symbol _ _).andThen fun _ =>
      .pure fun _ => .inl
  · exact notes_importList _

theorem notes_dots (rounds : Nat) : Notes known (dots rounds) silent := by
  induction rounds generalizing known with
  | zero => exact .failure
  | succ rounds ih =>
    refine (notes_take? _ _).andThen fun one => ?_
    split
    · exact ih.andThen fun _ => .pure fun _ => False.elim
    refine (notes_take? _ _).andThen fun three => ?_
    split
    · exact ih.andThen fun _ => .pure fun _ => False.elim
    · exact .pure fun _ => False.elim

/-- An import from a module notes the names it introduces. -/
theorem notes_fromImport : Notes known (fromImport limit) Statement.Introduces := by
  refine (notes_take? _ _).andThen fun future => ?_
  split
  · exact (notes_keyword _ _).andThen fun _ => notes_bracketedImports.andThen fun _ => .pure (by simp)
  refine (notes_dots _).andThen fun level => ?_
  have hnamed : ∀ {known} (source : String → ImportSource),
      Notes known (source <$> dottedName limit {} {}) silent :=
    fun source => (notes_dottedName _ _ _).map source fun _ _ => False.elim
  have hrest : ∀ {known} (source : ImportSource), Notes known (do
      keyword "import"
      if ← take? {} (.symbol "*") then return .importFrom source .everything
      else return .importFrom source (.listed (← bracketedImports limit)))
      Statement.Introduces := by
    refine fun source => (notes_keyword _ _).andThen fun _ => (notes_take? _ _).andThen fun star => ?_
    split
    · exact .pure (by simp)
    · exact notes_bracketedImports.bind fun names => .pure fun word h => .inl (by
        simpa [Renamed] using h)
  split
  · exact (hnamed _).andThen hrest
  refine notes_peek fun next _ => ?_
  split
  · exact .pureBind (hrest _)
  · exact (hnamed _).andThen hrest

/-! ### Simple statements -/

theorem notes_whole {α : Type} {words : α → String → Prop} {statement : Read α}
    (h : Notes known statement words) : Notes known (whole statement) words := by
  refine h.bind fun result => notes_peek fun next _ => ?_
  split
  · exact .pure fun _ => .inl
  · exact .failure

theorem notes_optionalExpressions (stops : List String) :
    Notes known (optionalExpressions limit stops) silent := by
  refine notes_peek fun next _ => ?_
  extract_lets starts
  split
  · exact (notes_expressions notes_any _ _).andThen fun _ => .pure fun _ => False.elim
  · exact .pure fun _ => False.elim

theorem notes_identifierList : Notes known (identifierList limit) silent :=
  (notes_separated fun _ => notes_identifier _).andThen fun _ => .pure fun _ => False.elim

/-- Each simple statement notes what it introduces, by the word in front of it. -/
theorem notes_simple (start : Expect) :
    Notes known (simple limit start) Statement.Introduces := by
  have hinert : ∀ {known}, Notes known (pure .inert) Statement.Introduces := .pure (by simp)
  have hexpression : ∀ {known} start, Notes known (expressionStatement limit start)
      Statement.Introduces := notes_expressionStatement
  refine notes_peek fun next _ => ?_
  extract_lets _ behind _ rest _
  have hrest : ∀ {known} u, Notes known (rest u) Statement.Introduces := by
    refine fun u => (notes_take? _ _).andThen fun among => ?_
    split
    · exact (notes_separated fun _ => notes_any _).andThen fun _ => hinert
    · exact hinert
  clear_value rest
  split
  · exact (notes_pass _).andThen fun _ => (notes_importList _).bind fun modules => .pure (by simp)
  · exact (notes_pass _).andThen fun _ => notes_fromImport
  · split
    · exact (notes_pass _).andThen fun _ => (notes_expressions notes_any _ _).andThen fun _ => hinert
    · exact (notes_whole (hexpression _)).orElse ((notes_pass _).andThen fun _ =>
        (notes_expressions notes_any _ _).andThen fun _ => hinert)
  · refine (notes_whole (hexpression _)).orElse ((notes_pass _).andThen fun _ =>
      notes_peek fun code _ => ?_)
    split
    · exact (notes_strings notes_any _ _ _).andThen fun _ => hrest _
    · exact (notes_identifier _).andThen fun _ => hrest _
  · exact (notes_whole ((notes_pass _).andThen fun _ => (notes_type notes_any _ _ _).andThen fun _ =>
      (notes_symbol _ _).andThen fun _ => (notes_type notes_any _ _ _).andThen fun _ =>
        hinert)).orElse (hexpression _)
  · exact (notes_pass _).andThen fun _ => (notes_separated fun _ => notes_any _).andThen fun _ =>
      hinert
  · exact (notes_pass _).andThen fun _ => (notes_optionalExpressions _).andThen fun _ => hinert
  · exact (notes_pass _).andThen fun _ => (notes_expressions notes_any _ _).andThen fun targets =>
      .pure (by simp)
  · refine (notes_pass _).andThen fun _ => (notes_optionalExpressions _).andThen fun _ =>
      (notes_take? _ _).andThen fun cause => ?_
    split
    · exact (notes_any _).andThen fun _ => hinert
    · exact hinert
  · exact (notes_pass _).andThen fun _ => notes_identifierList.andThen fun _ => hinert
  · exact (notes_pass _).andThen fun _ => notes_identifierList.andThen fun _ => hinert
  · split
    · exact (notes_pass _).andThen fun _ => hinert
    · exact hexpression _
  · exact hexpression _

theorem notes_simpleLine (start : Expect) :
    Notes known (simpleLine limit start) Introduced := by
  unfold simpleLine
  refine (notes_simple _).bind fun first => ?_
  extract_lets _ closes
  have hcloses : ∀ {known}, Notes known closes silent := by
    refine (notes_take? _ _).andThen fun ended => ?_
    split
    · exact .pure fun _ => False.elim
    · exact (notes_symbol _ _).andThen fun _ => notes_take? _ _
  clear_value closes
  have hround : ∀ {known}, Notes known (do
      let next ← simple limit lineEnd
      return (next, ← closes)) fun item => item.1.Introduces :=
    (notes_simple _).bind fun next => hcloses.andThen fun _ => .pure fun _ => .inl
  refine hcloses.andThen fun closed => ?_
  split
  · exact .pure (by grind)
  · exact (notes_rounds hround limit).bind fun others => .pure fun word => by
      grind [Introduced]

/-! ### Compound statements -/

section

variable {block : Read (List Statement)} (hblock : ∀ {known}, Notes known block Introduced)

include hblock

theorem notes_suite : Notes known (suite limit block) Introduced := by
  refine notes_peek fun next _ => ?_
  split
  · exact (notes_pass _).andThen fun _ => hblock
  · exact (notes_pass _).andThen fun _ => .pure (by grind)
  · exact notes_simpleLine _

theorem notes_colonSuite : Notes known (colonSuite limit block) Introduced :=
  (notes_symbol _ _).andThen fun _ => notes_suite hblock

theorem notes_alternatives (nested : Bool) (rounds : Nat) :
    Notes known (alternatives limit block nested rounds) fun blocks word =>
      ∃ each ∈ blocks, Introduced each word := by
  induction rounds generalizing known with
  | zero => exact .failure
  | succ rounds ih =>
    refine (notes_take? _ _).andThen fun another => ?_
    split
    · exact (notes_any _).andThen fun _ => (notes_colonSuite hblock).bind fun body =>
        ih.bind fun others => .pure fun word => by grind
    refine (notes_take? _ _).andThen fun last => ?_
    split
    · exact (notes_colonSuite hblock).bind fun body => .pure fun word => by grind
    · exact .pure fun word => by grind

theorem notes_optionalSuite (start : Expect) (word : String) :
    Notes known (optionalSuite limit block start word) fun body? => Introduced (body?.getD []) := by
  refine (notes_take? _ _).andThen fun given => ?_
  split
  · exact (notes_colonSuite hblock).bind fun body => .pure fun _ => .inl
  · exact .pure fun word => by grind

omit hblock in
theorem notes_secondCaught (group : Bool) : Notes known (secondCaught limit group) silent := by
  unfold secondCaught
  split
  · exact .pure fun _ => False.elim
  refine (notes_take? _ _).andThen fun comma => ?_
  split
  · exact (notes_any _).andThen fun _ => .pure fun _ => False.elim
  · exact .pure fun _ => False.elim

theorem notes_handler (group : Bool) :
    Notes known (handler limit block group) fun handler => Introduced handler.body := by
  refine notes_peek fun first _ => ?_
  split
  · exact (notes_pass _).andThen fun _ => notes_peek fun next _ =>
      (notes_suite hblock).bind fun body => .pure fun _ => .inl
  · exact (notes_any _).andThen fun caught => (notes_secondCaught _).andThen fun _ =>
      (notes_colonSuite hblock).bind fun body => .pure fun _ => .inl

/-- Handlers note what the statements in them introduce, round by round. -/
theorem notes_handlers (nested : Bool) (groups : Option Bool) (rounds : Nat) :
    Notes known (handlers limit block nested groups rounds) fun each word =>
      ∃ handler ∈ each, Introduced handler.body word := by
  induction rounds generalizing known groups with
  | zero => exact .failure
  | succ rounds ih =>
    refine notes_peek fun next _ => ?_
    extract_lets starred group rest
    have hrest : ∀ {known} u, Notes known (rest u) fun each word =>
        ∃ handler ∈ each, Introduced handler.body word :=
      fun u => (notes_handler hblock _).bind fun first => (ih _).bind fun others =>
        .pure fun word => by grind
    clear_value rest
    split
    · refine (notes_pass _).andThen fun _ => ?_
      split
      · exact (notes_jump _).andThen hrest
      · exact hrest ()
    · exact .pure fun word => by grind

theorem notes_tryStatement (nested : Bool) :
    Notes known (tryStatement limit block nested) Statement.Introduces := by
  refine (notes_colonSuite hblock).bind fun body =>
    (notes_handlers hblock nested none limit).bind fun caught => ?_
  split
  · refine (notes_keyword _ _).andThen fun _ => (notes_colonSuite hblock).bind fun finish =>
      .pure fun word h => ?_
    have := Statement.introduces_attempt h
    grind
  · refine (notes_optionalSuite hblock _ _).bind fun orElse =>
      (notes_optionalSuite hblock _ _).bind fun finish => .pure fun word h => ?_
    have := Statement.introduces_attempt h
    grind

/-- A function is introduced by its name, which is noted. -/
theorem notes_functionDefinition :
    Notes known (functionDefinition limit block) Statement.Introduces := by
  refine (notes_identifier _).bind fun name => (notes_take? _ _).andThen fun generic => ?_
  have hbody : ∀ {known}, known name → Notes known (do
      let _ ← colonSuite limit block
      return .functionDef name) Statement.Introduces :=
    fun h => (notes_colonSuite hblock).andThen fun _ => .pure fun word hword => by grind
  have hrest : ∀ {known}, known name → Notes known (do
      symbol "("
      let _ ← parameters limit (any limit) (anyClauses limit) true { close := true } (.symbol ")")
      symbol ")" { close := true }
      if ← take? {} (.symbol "->") then let _ ← type limit (any limit) false limit {}
      let _ ← colonSuite limit block
      return .functionDef name) Statement.Introduces := by
    refine fun h => (notes_symbol _ _).andThen fun _ =>
      (notes_parameters notes_any notes_anyClauses _ _ _).andThen fun _ =>
        (notes_symbol _ _).andThen fun _ => (notes_take? _ _).andThen fun arrow => ?_
    dsimp only
    split
    · exact (notes_type notes_any _ _ _).andThen fun _ => hbody h
    · exact hbody h
  dsimp only
  split
  · exact (notes_typeParameters notes_any).andThen fun _ => hrest (.inl rfl)
  · exact hrest (.inl rfl)

/-- So is a class. -/
theorem notes_classDefinition :
    Notes known (classDefinition limit block) Statement.Introduces := by
  refine (notes_identifier _).bind fun name => (notes_take? _ _).andThen fun generic => ?_
  have hbody : ∀ {known}, known name → Notes known (do
      let _ ← colonSuite limit block
      return .classDef name) Statement.Introduces :=
    fun h => (notes_colonSuite hblock).andThen fun _ => .pure fun word hword => by grind
  have hrest : ∀ {known}, known name → Notes known (do
      if ← take? {} (.symbol "(") then
        let _ ← arguments (any limit) (anyClauses limit) true limit
      let _ ← colonSuite limit block
      return .classDef name) Statement.Introduces := by
    refine fun h => (notes_take? _ _).andThen fun bases => ?_
    dsimp only
    split
    · exact (notes_arguments notes_any notes_anyClauses _ _).andThen fun _ => hbody h
    · exact hbody h
  dsimp only
  split
  · exact (notes_typeParameters notes_any).andThen fun _ => hrest (.inl rfl)
  · exact hrest (.inl rfl)

theorem notes_forStatement (nested : Bool) :
    Notes known (forStatement limit block nested) Statement.Introduces :=
  (notes_loopTargets notes_any notes_anyClauses).andThen fun _ =>
    (notes_expressions notes_any _ _).andThen fun _ => (notes_colonSuite hblock).andThen fun _ =>
      (notes_optionalSuite hblock _ _).andThen fun _ => .pure (by simp)

theorem notes_withStatement :
    Notes known (withStatement limit block) Statement.Introduces :=
  (notes_expressions notes_any _ _).andThen fun _ => (notes_colonSuite hblock).andThen fun _ =>
    .pure (by simp)

theorem notes_cases : Notes known (cases limit block) silent := by
  have hround : ∀ {known}, Notes known (do
      let next ← peek { dedent := true }
      pass next
      if next.token = .dedent then return ((), true)
      else if next.token ≠ .word "case" then failure
      else
        let _ ← separated limit {} (fun token => token = .symbol ":" || token = .word "if")
          fun _ => casePattern limit (any limit) limit {} {}
        if ← take? {} (.word "if") then let _ ← any limit {}
        let _ ← colonSuite limit block
        return ((), false)) fun item => silent item.1 := by
    refine notes_peek fun next _ => (notes_pass _).andThen fun _ => ?_
    split
    · exact .pure fun _ => False.elim
    split
    · exact .failure
    have hbody : ∀ {known}, Notes known (do
        let _ ← colonSuite limit block
        return ((), false)) fun item => silent item.1 :=
      (notes_colonSuite hblock).andThen fun _ => .pure fun _ => False.elim
    refine (notes_separated fun _ => notes_casePattern notes_any _ _ _).andThen fun _ =>
      (notes_take? _ _).andThen fun guarded => ?_
    dsimp only
    split
    · exact (notes_any _).andThen fun _ => hbody
    · exact hbody
  refine (notes_take? _ _).andThen fun indented => ?_
  split
  · exact (notes_rounds hround _).andThen fun _ => .pure fun _ => False.elim
  · exact notes_take _ _

omit hblock in
theorem notes_subjects : Notes known (subjects limit) silent :=
  (notes_separated fun _ => notes_any _).andThen fun _ => (notes_symbol _ _).andThen fun _ =>
    notes_peek fun _ _ => notes_guard

/-- Each compound statement notes what it introduces, by the word in front of it. -/
theorem notes_compound? {nested : Bool} {word : String} {read : Read Statement}
    (h : compound? limit block nested word = some read) :
    Notes known read Statement.Introduces := by
  unfold compound? at h
  split at h <;> cases h
  · refine (notes_any _).andThen fun _ => (notes_colonSuite hblock).bind fun body =>
      (notes_alternatives hblock _ _).bind fun others => .pure fun word h => ?_
    have := Statement.introduces_branches h
    grind
  · exact (notes_any _).andThen fun _ => (notes_colonSuite hblock).andThen fun _ =>
      (notes_optionalSuite hblock _ _).andThen fun _ => .pure (by simp)
  · exact notes_forStatement hblock _
  · exact notes_tryStatement hblock _
  · exact notes_withStatement hblock
  · exact notes_functionDefinition hblock
  · exact notes_classDefinition hblock

theorem notes_decorated : Notes known (decorated limit block) Statement.Introduces := by
  have hround : ∀ {known}, Notes known (do
      let _ ← any limit ⟨{}, lineEnd, false⟩
      take lineEnd .newline
      return ((), !(← take? {} (.symbol "@")))) fun item => silent item.1 :=
    (notes_any _).andThen fun _ => (notes_take _ _).andThen fun _ => (notes_take? _ _).andThen
      fun _ => .pure fun _ => False.elim
  refine (notes_rounds hround _).andThen fun _ => (notes_take? _ _).andThen fun named => ?_
  split
  · exact notes_classDefinition hblock
  · exact (notes_take? _ _).andThen fun _ => (notes_keyword _ _).andThen fun _ =>
      notes_functionDefinition hblock

/-- Statements note what they introduce, whether they are simple or not. -/
theorem notes_statements (nested : Bool) :
    Notes known (statements limit block nested) Introduced := by
  have hone : ∀ {known} read, Notes known read Statement.Introduces →
      Notes known (do return [← read]) Introduced :=
    fun read h => h.bind fun s => .pure fun word => by grind
  refine notes_peek fun next _ => ?_
  extract_lets start behind
  split
  · exact (notes_pass _).andThen fun _ => hone _ (notes_decorated hblock)
  · have hheaded : Notes known ((do
        pass next
        subjects limit
        return true) <|> return false) silent :=
      ((notes_pass _).andThen fun _ => notes_subjects.andThen fun _ => .pure fun _ =>
        False.elim).orElse (.pure fun _ => False.elim)
    refine hheaded.andThen fun headed => ?_
    split
    · exact (notes_cases hblock).andThen fun _ => .pure (by simp)
    · exact notes_simpleLine _
  · split
    · split
      · split
        · rename_i rest hrest
          exact (notes_pass _).andThen fun _ => hone _ (notes_compound? hblock hrest)
        · exact .failure
      · exact notes_simpleLine _
    · exact notes_simpleLine _
  · split
    · rename_i rest hrest
      exact (notes_pass _).andThen fun _ => hone _ (notes_compound? hblock hrest)
    · exact notes_simpleLine _
  · exact notes_simpleLine _

theorem notes_statementsUntil (last : Token) (nested : Bool) :
    Notes known (statementsUntil limit last nested block) Introduced := by
  have hround : Notes known (do
      let next ← peek (lineStart nested)
      if next.token = last then
        pass next
        return ([], true)
      else return (← statements limit block nested, false)) fun item => Introduced item.1 := by
    refine notes_peek fun next _ => ?_
    split
    · exact (notes_pass _).andThen fun _ => .pure (by simp)
    · exact (notes_statements hblock _).bind fun line => .pure fun _ => .inl
  exact (notes_rounds hround _).bind fun lines => .pure fun word h => .inl (by simpa using h)

end

theorem notes_indented (depth : Nat) : Notes known (indented limit depth) Introduced := by
  induction depth generalizing known with
  | zero => exact .failure
  | succ depth ih => exact notes_statementsUntil ih _ _

end Read

/-! ### Sources -/

namespace Source

variable {text : String} {source : Source} {word : String}

/-- The identifiers of a source are identifiers, and what its statements introduce is among them. -/
theorem noted_of_ofText? (h : ofText? text = some source) :
    (∀ word ∈ source.identifiers, IsIdentifier word)
      ∧ ∀ word, Introduced source.statements word → word ∈ source.identifiers := by
  obtain ⟨⟨statements, cursor⟩, hread, hsource⟩ := Option.bind_eq_some_iff.mp h
  cases hsource
  have hreader : ∀ limit, Read.Notes (fun _ => False)
      (Read.statementsUntil limit .stop false (Read.indented limit limit)) Introduced :=
    fun limit => Read.notes_statementsUntil (Read.notes_indented _) _ _
  obtain ⟨honward, hnoted⟩ := hreader _ _ _ _ (fun _ => False.elim) hread
  have hfresh : (Cursor.ofText text).names = [] := by
    rw [Cursor.ofText]
    split <;> rfl
  refine ⟨fun word hword => ?_, fun word hword => List.mem_reverse.mpr (hnoted word hword)⟩
  rcases honward.noted word (List.mem_reverse.mp hword) with hbefore | hidentifier
  · rw [hfresh] at hbefore
    cases hbefore
  · exact hidentifier

/-- **The identifiers of a source** are spelled like identifiers. -/
theorem isIdentifier (h : ofText? text = some source) (hword : word ∈ source.identifiers) :
    IsIdentifier word := (noted_of_ofText? h).1 word hword

/-- **What the statements of a source bind by their own words** is among its identifiers. -/
theorem mem_of_introduced (h : ofText? text = some source)
    (hword : Introduced source.statements word) : word ∈ source.identifiers :=
  (noted_of_ofText? h).2 word hword

end Source

end ApiStubs.Python
