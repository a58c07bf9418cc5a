import ApiStubs.Proofs.Forgetful
import ApiStubs.Proofs.ModulePaths
import ApiStubs.Proofs.Nesting
import ApiStubs.Proofs.ShortestImport
import ApiStubs.Proofs.Submodules

/-!
# Proofs — Reexports — a symbol that is handed on from package to package

A package that hands on a symbol of its submodule is a cycle: the submodule is loaded while the
package is replayed, and its load begins with the package around it.  `reexports_found`: however
many packages hand the symbol on, one inside the other, it is imported from the outermost of them,
and listed by the module that defines it alone.

The way to the module is a list of names, and `upTo` the package at a depth on it.  Two inductions
follow that way in opposite directions.  From the inside, on the depth of nesting
(`Reexports.serves`): while the package around it stands among those being replayed, a package comes
to what it is to be, because the next one does.  From the outside, on the way
(`Reexports.load_comes`): where no package is being replayed, the one around is loaded first, which
may load the package along with itself.  What a package is to be is `Fits`, and `During` what it has
bound in the middle of its replay.
-/

namespace ApiStubs

/-! ### The packages on the way to a module -/

namespace Text

/-- The last separator is the one with none behind it. -/
theorem splitLast?_append {sep : Char} (before : String) {after : String}
    (h : sep ∉ after.toList) :
    splitLast? sep (before ++ String.singleton sep ++ after) = some (before, after) := by
  have hbackwards : (before ++ String.singleton sep ++ after).toList.reverse
      = after.toList.reverse ++ sep :: before.toList.reverse := by simp
  have hafter : ∀ c ∈ after.toList.reverse, decide (c ≠ sep) = true := by
    intro c hc
    refine decide_eq_true fun heq => h (heq ▸ List.mem_reverse.mp hc)
  have hdrop : (after.toList.reverse ++ sep :: before.toList.reverse).dropWhile
      (fun c => decide (c ≠ sep)) = sep :: before.toList.reverse := by
    rw [List.dropWhile_append_of_pos hafter, List.dropWhile_cons_of_neg (by simp)]
  have htake : (after.toList.reverse ++ sep :: before.toList.reverse).takeWhile
      (fun c => decide (c ≠ sep)) = after.toList.reverse := by
    rw [List.takeWhile_append_of_pos hafter, List.takeWhile_cons_of_neg (by simp),
      List.append_nil]
  rw [splitLast?, hbackwards]
  simp only [hdrop, htake, List.reverse_reverse, String.ofList_toList]

theorem beforeFirst_append {sep : Char} {before : String} (h : sep ∉ before.toList)
    (after : String) : beforeFirst sep (before ++ String.singleton sep ++ after) = before := by
  have hbefore : ∀ c ∈ before.toList, decide (c ≠ sep) = true := by
    intro c hc
    refine decide_eq_true fun heq => h (heq ▸ hc)
  have htext : (before ++ String.singleton sep ++ after).toList
      = before.toList ++ sep :: after.toList := by simp
  rw [beforeFirst, htext, List.takeWhile_append_of_pos hbefore,
    List.takeWhile_cons_of_neg (by simp), List.append_nil, String.ofList_toList]

theorem beforeFirst_eq_self {sep : Char} {s : String} (h : sep ∉ s.toList) :
    beforeFirst sep s = s := by
  rw [beforeFirst, List.takeWhile_eq_self_iff.mpr, String.ofList_toList]
  intro c hc
  exact decide_eq_true fun heq => h (heq ▸ hc)

theorem mem_glue {sep c : Char} {parts : List (List Char)} (h : c ∈ glue sep parts) :
    c = sep ∨ ∃ part ∈ parts, c ∈ part := by
  induction parts with
  | nil => cases h
  | cons part rest ih =>
    cases rest with
    | nil => exact .inr ⟨part, List.mem_cons_self, h⟩
    | cons next more =>
      rw [glue, List.mem_append, List.mem_cons] at h
      rcases h with hpart | hsep | hrest
      · exact .inr ⟨part, List.mem_cons_self, hpart⟩
      · exact .inl hsep
      · refine (ih hrest).imp_right ?_
        rintro ⟨other, hother, hc⟩
        exact ⟨other, List.mem_cons_of_mem part hother, hc⟩

theorem mem_join {sep c : Char} {parts : List String} (h : c ∈ (join sep parts).toList) :
    c = sep ∨ ∃ part ∈ parts, c ∈ part.toList := by
  rw [join, String.toList_ofList] at h
  refine (mem_glue h).imp_right ?_
  rintro ⟨_, hpart, hc⟩
  obtain ⟨part, hmem, rfl⟩ := List.mem_map.mp hpart
  exact ⟨part, hmem, hc⟩

end Text

/-- The package at a depth on the way that the names spell; at their full length, the module. -/
def upTo (names : List String) (depth : Nat) : String := Dotted.ofComponents (names.take depth)

theorem upTo_one (first : String) (rest : List String) : upTo (first :: rest) 1 = first := by
  simp [upTo, Dotted.ofComponents, Text.join, Text.glue]

/-- The names are such as stand between the dots of a module name. -/
def Plain (names : List String) : Prop :=
  ∀ name ∈ names, name ≠ "" ∧ '.' ∉ name.toList ∧ '/' ∉ name.toList

namespace Plain

variable {names : List String} (h : Plain names) {depth : Nat}

include h

theorem no_empty (depth : Nat) : "" ∉ names.take depth :=
  fun hmem => (h "" (List.mem_of_mem_take hmem)).1 rfl

theorem components_upTo (hpos : 0 < depth) (hle : depth ≤ names.length) :
    Dotted.components (upTo names depth) = names.take depth := by
  refine Dotted.components_of_no_dot (fun hnil => ?_) fun name hname =>
    (h name (List.mem_of_mem_take hname)).2.1
  have hlength := congrArg List.length hnil
  rw [List.length_take, List.length_nil] at hlength
  omega

theorem upTo_injective {other : Nat} (hpos : 0 < depth) (hle : depth ≤ names.length)
    (hother : 0 < other) (hotherLe : other ≤ names.length)
    (heq : upTo names depth = upTo names other) : depth = other := by
  have hlengths := congrArg (fun name => (Dotted.components name).length) heq
  rw [h.components_upTo hpos hle, h.components_upTo hother hotherLe, List.length_take,
    List.length_take] at hlengths
  omega

theorem upTo_succ {name : String} (hname : names[depth]? = some name) :
    upTo names (depth + 1) = Dotted.join (upTo names depth) name := by
  rw [upTo, upTo, List.take_add_one, hname, Option.toList_some]
  exact (Dotted.join_ofComponents (h.no_empty depth) (h name (List.mem_of_getElem? hname)).1).symm

/-- One layer is the package around the next. -/
theorem parent?_upTo (hpos : 0 < depth) (hlt : depth < names.length) :
    Dotted.parent? (upTo names (depth + 1)) = some (upTo names depth) := by
  have hname : names[depth]? = some names[depth] := List.getElem?_eq_getElem hlt
  have hdot := (h _ (List.getElem_mem hlt)).2.1
  have hne : names.take depth ≠ [] := fun hnil => by
    have hlength := congrArg List.length hnil
    rw [List.length_take, List.length_nil] at hlength
    omega
  rw [upTo, upTo, List.take_add_one, hname, Option.toList_some, Dotted.parent?,
    Dotted.ofComponents, Text.join_concat '.' hne, Text.splitLast?_append _ hdot]
  rfl

theorem parent?_upTo_one (hpos : 0 < names.length) : Dotted.parent? (upTo names 1) = none := by
  obtain ⟨first, rest, rfl⟩ := List.exists_cons_of_length_pos hpos
  have hdot := (h first List.mem_cons_self).2.1
  have hone := upTo_one first rest
  rw [hone, Dotted.parent?, Text.splitLast?_eq_none hdot]
  rfl

/-- All layers are inside the first. -/
theorem top_upTo (hpos : 0 < depth) (hlength : 0 < names.length) :
    Dotted.top (upTo names depth) = upTo names 1 := by
  obtain ⟨first, rest, rfl⟩ := List.exists_cons_of_length_pos hlength
  have hdot := (h first List.mem_cons_self).2.1
  obtain ⟨less, rfl⟩ := Nat.exists_eq_succ_of_ne_zero hpos.ne'
  have hone := upTo_one first rest
  rw [hone, upTo, List.take_succ_cons, Dotted.top, Dotted.ofComponents]
  by_cases hnil : rest.take less = []
  · rw [hnil]
    simp [Text.join, Text.glue, Text.beforeFirst_eq_self hdot]
  · rw [Text.join_cons '.' first hnil, Text.beforeFirst_append hdot]

theorem no_separator (depth : Nat) : '/' ∉ (upTo names depth).toList := by
  intro hmem
  rcases Text.mem_join hmem with hdot | ⟨name, hname, hin⟩
  · exact absurd hdot (by decide)
  · exact (h name (List.mem_of_mem_take hname)).2.2 hin

theorem prefixes_upTo (hlength : 0 < names.length) :
    Dotted.prefixes (upTo names names.length)
      = (List.range names.length).map fun depth => upTo names (depth + 1) := by
  rw [Dotted.prefixes, h.components_upTo hlength (Nat.le_refl _), List.take_length]
  rfl

end Plain

namespace Python

/-! ### What the bodies hold -/

/-- The statement defines a class or a function of the name. -/
inductive Statement.Defines (name : String) : Statement → Prop
  | classDef : Defines name (.classDef name)
  | functionDef : Defines name (.functionDef name)

/-- The statement defines a class or a function that is not the symbol. -/
def Statement.DefinesOther (symbol : String) (s : Statement) : Prop :=
  ∃ name, name ≠ symbol ∧ s.Defines name

/-- The statement takes the symbol from a module of the own package, alone or with all else. -/
inductive Statement.HandsOn (inner symbol : String) : Statement → Prop
  | alone : HandsOn inner symbol (.importFrom (.relative 1 inner) (.listed [⟨symbol, none⟩]))
  | everything : HandsOn inner symbol (.importFrom (.relative 1 inner) .everything)

/-- The module is at a location, and its code is the statements. -/
def Tree.Body (tree : Tree) (name : String) (location : Location) (statements : List Statement) :
    Prop :=
  tree.locate name = some location ∧ tree.code location.path = .ok statements

/-- **A symbol that is handed on.**  The names lead through packages to a module that defines the
symbol; the packages from the depth `first` on take it from the next one, and those before do
not know of it. -/
structure Reexports (tree : Tree) (names : List String) (first : Nat) (symbol : String) : Prop where
  plain : Plain names
  pos : 0 < first
  le : first ≤ names.length
  isPublic : Dotted.isPublic symbol = true
  outer : ∀ depth, 0 < depth → depth < first → ∃ location statements,
    tree.Body (upTo names depth) location statements ∧ location.isPackage = true
      ∧ ∀ s ∈ statements, s.DefinesOther symbol
  inner : ∀ depth next, first ≤ depth → names[depth]? = some next → ∃ location statements,
    tree.Body (upTo names depth) location statements ∧ location.isPackage = true
      ∧ (∀ s ∈ statements, s.DefinesOther symbol ∨ s.HandsOn next symbol)
      ∧ ∃ s ∈ statements, s.HandsOn next symbol
  module : ∃ location statements, tree.Body (upTo names names.length) location statements
    ∧ (∀ s ∈ statements, s.DefinesOther symbol ∨ s.Defines symbol)
    ∧ ∃ s ∈ statements, s.Defines symbol

/-- The statement binds the symbol in the module at a depth. -/
def Binds (names : List String) (first : Nat) (symbol : String) (depth : Nat) (s : Statement) :
    Prop :=
  (depth = names.length ∧ s.Defines symbol)
    ∨ (first ≤ depth ∧ ∃ next, names[depth]? = some next ∧ s.HandsOn next symbol)

theorem Statement.DefinesOther.not_binds {names : List String} {first depth : Nat}
    {symbol : String} {s : Statement} (h : s.DefinesOther symbol) :
    ¬Binds names first symbol depth s := by
  obtain ⟨other, hne, hs⟩ := h
  rintro (⟨-, hdefines⟩ | ⟨-, next, -, hhands⟩)
  · cases hs <;> cases hdefines <;> exact hne rfl
  · cases hs <;> cases hhands

/-- The table binds the symbol to a class or function, or an object, of the module. -/
def Gives (module symbol : String) (table : SymbolTable) : Prop :=
  ∃ binding kind, table.find? symbol = some binding ∧ binding.origin? = some module
    ∧ SymbolKind.ofBinding? binding.kind = some kind

/-- The table declares no exports, and knows of the symbol if it is given. -/
structure Fits (module symbol : String) (given : Prop) (table : SymbolTable) : Prop where
  exports : table.exports? = none
  gives : given → Gives module symbol table
  unbound : ¬given → table.find? symbol = none

namespace Fits

variable {module symbol : String} {given : Prop} {table : SymbolTable}

theorem named (name : String) : Fits module symbol False (.named name) :=
  ⟨rfl, False.elim, fun _ => rfl⟩

theorem bind_other (h : Fits module symbol given table) {name : String} (hname : name ≠ symbol)
    (binding : Binding) : Fits module symbol given (table.bind name binding) := by
  have hfind : (table.bind name binding).find? symbol = table.find? symbol := by
    rw [SymbolTable.find?_bind, if_neg hname.symm]
  refine ⟨h.exports, fun hgiven => ?_, fun hnot => hfind.trans (h.unbound hnot)⟩
  rw [Gives, hfind]
  exact h.gives hgiven

theorem bind_symbol (h : Fits module symbol given table) {binding : Binding} {kind : SymbolKind}
    (horigin : binding.origin? = some module)
    (hkind : SymbolKind.ofBinding? binding.kind = some kind) :
    Fits module symbol True (table.bind symbol binding) := by
  refine ⟨h.exports, fun _ => ⟨binding, kind, ?_, horigin, hkind⟩, fun hnot => absurd trivial hnot⟩
  rw [SymbolTable.find?_bind, if_pos rfl]

end Fits

/-- The changes that a star import makes. -/
def starChanges (table : SymbolTable) : List Change :=
  table.starBindings.map fun entry own => own.bind entry.1 entry.2

theorem Scope.take_everything (scope : Scope) (module : String) (table : SymbolTable) :
    scope.take ⟨module, .everything⟩ table = scope.write (starChanges table) := by
  rw [write, starChanges, List.forM_eq_forM, List.forM_map]
  rfl

/-- A star import is a request for everything. -/
theorem Scope.replay_star {scope : Scope} {source : ImportSource} {module : String}
    (hresolve : scope.resolve source = .ok module) :
    scope.replay (.importFrom source .everything) = scope.serve ⟨module, .everything⟩ := by
  rw [replay_eq_requests scope rfl, requests, hresolve]
  exact bind_pure (scope.serve ⟨module, .everything⟩)

/-- A request is served from the table that the load of its module comes to. -/
theorem Scope.serve_loaded {scope : Scope} {request : Request} {table : SymbolTable}
    {cache after : Cache} (hinside : scope.isExternal request.module = false)
    (hload : scope.load request.module cache = (.ok table, after)) :
    scope.serve request cache = scope.take request table after := by
  rw [serve, hinside, if_neg Bool.false_ne_true, Importing.run_bind_ok hload]

theorem Scope.take_bound {scope : Scope} {module symbol : String} {table : SymbolTable}
    {binding : Binding} (hfind : table.find? symbol = some binding) :
    scope.take ⟨module, .name ⟨symbol, none⟩⟩ table = scope.bind symbol binding := by
  funext cache
  have htaken : scope.taken module symbol table = .ok binding := by rw [taken, hfind]
  simp only [take, htaken, Importing.run_bind, Importing.run_liftExcept]
  rfl

/-- Bindings one after the other fit, if those of the symbol are all the same one. -/
theorem Fits.bind_all {module symbol : String} {given : Prop} {binding : Binding}
    {kind : SymbolKind} (horigin : binding.origin? = some module)
    (hkind : SymbolKind.ofBinding? binding.kind = some kind) {entries : List (String × Binding)}
    (hsame : ∀ entry ∈ entries, entry.1 = symbol → entry.2 = binding) {own : SymbolTable}
    (h : Fits module symbol given own) (hsome : given ∨ (symbol, binding) ∈ entries) :
    Fits module symbol True ((entries.map fun entry (own : SymbolTable) =>
      own.bind entry.1 entry.2).foldl (fun own change => change own) own) := by
  induction entries generalizing given own with
  | nil =>
    have hgiven := hsome.resolve_right List.not_mem_nil
    exact ⟨h.exports, fun _ => h.gives hgiven, fun hnot => absurd trivial hnot⟩
  | cons entry rest ih =>
    obtain ⟨hfirst, hrest⟩ := List.forall_mem_cons.mp hsame
    rw [List.map_cons, List.foldl_cons]
    by_cases hentry : entry.1 = symbol
    · rw [hentry, hfirst hentry]
      exact ih hrest (h.bind_symbol horigin hkind) (.inl trivial)
    · refine ih hrest (h.bind_other hentry entry.2) (hsome.imp_right fun hmem => ?_)
      exact (List.mem_cons.mp hmem).resolve_left fun heq => hentry (heq ▸ rfl)

/-- What hands out the symbol hands it out to a star import. -/
theorem Fits.star {module symbol : String} {given : Prop} {own table : SymbolTable}
    (hpublic : Dotted.isPublic symbol = true) (h : Fits module symbol given own)
    (htable : Fits module symbol True table) :
    Fits module symbol True ((starChanges table).foldl (fun own change => change own) own) := by
  obtain ⟨binding, kind, hfind, horigin, hkind⟩ := htable.gives trivial
  have hmem : ∀ found, (symbol, found) ∈ table.starBindings ↔ table.find? symbol = some found := by
    intro found
    simp [SymbolTable.starBindings, htable.exports, SymbolTable.publicBindings, hpublic,
      SymbolTable.find?, NameMap.find?_eq_some]
  have hbinds : given ∨ (symbol, binding) ∈ table.starBindings := .inr ((hmem binding).mpr hfind)
  refine Fits.bind_all horigin hkind (fun entry hentry hname => ?_) h hbinds
  have hsame := (hmem entry.2).mp (hname ▸ hentry)
  exact Option.some.inj (hsame.symm.trans hfind)

/-! ### What is known meanwhile -/

section

variable (names : List String) (first : Nat) (symbol : String)

/-- The module that defines the symbol. -/
abbrev source : String := upTo names names.length

/-- The loaded tables of the packages are what they are to be. -/
def Ready (cache : Cache) : Prop :=
  ∀ depth table, 0 < depth → depth ≤ names.length →
    cache.loaded.find? (upTo names depth) = some table →
    Fits (source names) symbol (first ≤ depth) table

/-- No package from a depth on is being replayed. -/
def Free (depth : Nat) (cache : Cache) : Prop :=
  ∀ other, depth ≤ other → other ≤ names.length → cache.loading.find? (upTo names other) = none

/-- While the package at a depth is replayed: it has bound the symbol, or not yet. -/
structure During (depth : Nat) (given : Prop) (cache : Cache) : Prop where
  ready : Ready names first symbol cache
  free : Free names (depth + 1) cache
  own : ∃ own, cache.loading.find? (upTo names depth) = some own
    ∧ Fits (source names) symbol given own

/-- The load of the package at a depth comes to what it is to be. -/
def Comes (depth : Nat) (result : Except ImportFailure SymbolTable × Cache) : Prop :=
  (∃ table, result.1 = .ok table ∧ Fits (source names) symbol (first ≤ depth) table)
    ∧ Ready names first symbol result.2

/-- Every load of the package at a depth does, once the package around it is known. -/
def Serves (tree : Tree) (depth nesting : Nat) : Prop :=
  ∀ cache, Ready names first symbol cache → Free names depth cache →
    (1 < depth → cache.find? (upTo names (depth - 1)) ≠ none) →
    Comes names first symbol depth (tree.load nesting (upTo names depth) cache)

end

variable {tree : Tree} {names : List String} {first : Nat} {symbol : String} {depth nesting : Nat}
  {given : Prop} {cache : Cache}

theorem Free.mono (h : Free names depth cache) {more : Nat} (hle : depth ≤ more) :
    Free names more cache :=
  fun other hother => h other (hle.trans hother)

theorem Free.of_loading (h : Free names depth cache) {after : Cache}
    (hloading : after.loading = cache.loading) : Free names depth after :=
  fun other hother hle => hloading ▸ h other hother hle

namespace During

/-- The table of the package changes while it is replayed. -/
theorem put (hplain : Plain names) (hpos : 0 < depth) (hle : depth ≤ names.length)
    (hready : Ready names first symbol cache) (hfree : Free names (depth + 1) cache)
    {own : SymbolTable} (hown : Fits (source names) symbol given own) :
    During names first symbol depth given (cache.put (upTo names depth) own) := by
  refine ⟨hready, fun other hother hotherLe => ?_, own, by simp [Cache.put], hown⟩
  have hne : upTo names other ≠ upTo names depth := fun heq =>
    absurd (hplain.upTo_injective (Nat.zero_lt_of_lt hother) hotherLe hpos hle heq)
      (Nat.ne_of_gt hother)
  simpa [Cache.put, hne] using hfree other hother hotherLe

theorem of_opened (hplain : Plain names) (hpos : 0 < depth) (hle : depth ≤ names.length)
    (hready : Ready names first symbol cache) (hfree : Free names depth cache) :
    During names first symbol depth False (cache.opened (upTo names depth)) :=
  put hplain hpos hle hready (hfree.mono (Nat.le_succ depth)) (.named _)

/-- A change of the package's own table. -/
theorem bind {scope : Scope} (hplain : Plain names) (hpos : 0 < depth) (hle : depth ≤ names.length)
    (hmodule : scope.module = upTo names depth) (h : During names first symbol depth given cache)
    {given' : Prop} {name : String} {binding : Binding}
    (hown : ∀ own, Fits (source names) symbol given own →
      Fits (source names) symbol given' (own.bind name binding)) :
    (scope.bind name binding cache).1 = .ok ()
      ∧ During names first symbol depth given' (scope.bind name binding cache).2 := by
  obtain ⟨own, hfind, hfits⟩ := h.own
  rw [Scope.bind_present (hmodule ▸ hfind), hmodule]
  exact ⟨rfl, put hplain hpos hle h.ready h.free (hown own hfits)⟩

end During

/-! ### Replays -/

namespace Reexports

/-- What each package, and the module, is to the tree. -/
theorem body (h : Reexports tree names first symbol) (hpos : 0 < depth)
    (hle : depth ≤ names.length) : ∃ location statements,
      tree.Body (upTo names depth) location statements
      ∧ (depth < names.length → location.isPackage = true)
      ∧ (∀ s ∈ statements, s.DefinesOther symbol ∨ Binds names first symbol depth s)
      ∧ (first ≤ depth ↔ ∃ s ∈ statements, Binds names first symbol depth s) := by
  rcases Nat.lt_or_ge depth first with hbefore | hfrom
  · obtain ⟨location, statements, hbody, hpackage, hall⟩ := h.outer depth hpos hbefore
    refine ⟨location, statements, hbody, fun _ => hpackage, fun s hs => .inl (hall s hs),
      fun hfrom => absurd hbefore (Nat.not_lt.mpr hfrom), ?_⟩
    rintro ⟨s, hs, hbinds⟩
    exact absurd hbinds (hall s hs).not_binds
  rcases Nat.lt_or_eq_of_le hle with hinside | rfl
  · have hnext : names[depth]? = some names[depth] := List.getElem?_eq_getElem hinside
    obtain ⟨location, statements, hbody, hpackage, hall, s, hs, hhands⟩ :=
      h.inner depth _ hfrom hnext
    refine ⟨location, statements, hbody, fun _ => hpackage, fun s hs => ?_, fun _ => ?_,
      fun _ => hfrom⟩
    · exact (hall s hs).imp_right fun hhands => .inr ⟨hfrom, _, hnext, hhands⟩
    · exact ⟨s, hs, .inr ⟨hfrom, _, hnext, hhands⟩⟩
  · obtain ⟨location, statements, hbody, hall, s, hs, hdefines⟩ := h.module
    refine ⟨location, statements, hbody, fun hlt => absurd hlt (Nat.lt_irrefl _), fun s hs => ?_,
      fun _ => ⟨s, hs, .inl ⟨rfl, hdefines⟩⟩, fun _ => hfrom⟩
    exact (hall s hs).imp_right fun hdefines => .inl ⟨rfl, hdefines⟩

theorem length_pos (h : Reexports tree names first symbol) : 0 < names.length := h.pos.trans_le h.le

theorem located (h : Reexports tree names first symbol) (hpos : 0 < depth)
    (hle : depth ≤ names.length) : tree.Located (upTo names depth) := by
  obtain ⟨location, _, ⟨hlocate, -⟩, -⟩ := h.body hpos hle
  rw [Tree.Located, hlocate]
  rfl

theorem parent? (h : Reexports tree names first symbol) (hpos : 0 < depth)
    (hlt : depth < names.length) :
    tree.parent? (upTo names (depth + 1)) = some (upTo names depth) := by
  rw [Tree.parent?, h.plain.parent?_upTo hpos hlt]
  exact Option.filter_eq_some_iff.mpr ⟨rfl, h.located hpos hlt.le⟩

theorem parent?_one (h : Reexports tree names first symbol) :
    tree.parent? (upTo names 1) = none := by
  rw [Tree.parent?, h.plain.parent?_upTo_one h.length_pos]
  rfl

/-- The packages are no packages from outside. -/
theorem inside (h : Reexports tree names first symbol) (site : Site) (hpos : 0 < depth) :
    (tree.scopeAt site).isExternal (upTo names depth) = false := by
  have hone : tree.Located (upTo names 1) := h.located Nat.one_pos h.length_pos
  show (!(tree.locate (Dotted.top (upTo names depth))).isSome) = false
  rw [h.plain.top_upTo hpos h.length_pos]
  exact congrArg not hone

/-- One dot stands for the package itself. -/
theorem resolve (h : Reexports tree names first symbol) {location : Location}
    (hpos : 0 < depth) (hpackage : location.isPackage = true) {next : String}
    (hnext : names[depth]? = some next) (nesting : Nat) :
    (tree.scopeAt ⟨nesting, upTo names depth, location⟩).resolve (.relative 1 next)
      = .ok (upTo names (depth + 1)) := by
  have hle : depth ≤ names.length := (List.getElem?_eq_some_iff.mp hnext).1.le
  have hcomponents := h.plain.components_upTo hpos hle
  have hne : names.take depth ≠ [] := fun hnil => by
    have hlength := congrArg List.length hnil
    rw [List.length_take, List.length_nil] at hlength
    omega
  have hname : upTo names depth ≠ "" := fun hempty =>
    hne (Text.join_eq_empty (h.plain.no_empty depth) hempty)
  rw [Scope.resolve]
  simp only [Tree.scopeAt, Tree.scope, hpackage, if_true, if_neg hname, hcomponents,
    Nat.sub_self, Nat.sub_zero, List.take_length, if_neg hne, h.plain.upTo_succ hnext]
  rfl

/-- What hands the symbol on is asked for it, alone or with all else. -/
theorem replay_handsOn (h : Reexports tree names first symbol) {location : Location}
    (hpos : 0 < depth) (hpackage : location.isPackage = true) {next : String}
    (hnext : names[depth]? = some next) {s : Statement} (hs : s.HandsOn next symbol)
    (hserves : Serves names first symbol tree (depth + 1) nesting) (hfrom : first ≤ depth)
    (hduring : During names first symbol depth given cache) :
    ((tree.scopeAt ⟨nesting, upTo names depth, location⟩).replay s cache).1 = .ok ()
      ∧ During names first symbol depth True
        ((tree.scopeAt ⟨nesting, upTo names depth, location⟩).replay s cache).2 := by
  have hle : depth ≤ names.length := (List.getElem?_eq_some_iff.mp hnext).1.le
  have hresolve := h.resolve hpos hpackage hnext nesting
  have hinside := h.inside ⟨nesting, upTo names depth, location⟩ (Nat.succ_pos depth)
  obtain ⟨own, hown, hfits⟩ := hduring.own
  -- the package itself is known, so that the load goes to the next one right away
  have hknown : 1 < depth + 1 → cache.find? (upTo names (depth + 1 - 1)) ≠ none := by
    intro _ hnone
    rw [Nat.add_sub_cancel, Cache.find?_eq_none] at hnone
    cases hown.symm.trans hnone.2
  obtain ⟨⟨table, hok, htable⟩, hready⟩ := hserves cache hduring.ready hduring.free hknown
  have hloading := (tree.load_grows nesting (upTo names (depth + 1)) cache).loading
  rcases hload : tree.load nesting (upTo names (depth + 1)) cache with ⟨result, after⟩
  rw [hload] at hok hready hloading
  obtain rfl : result = .ok table := hok
  have hthere : after.loading.find? (upTo names depth) = some own := by rw [hloading, hown]
  have hfree := hduring.free.of_loading hloading
  rw [eq_true (hfrom.trans (Nat.le_succ depth))] at htable
  have hserve : ∀ use, (tree.scopeAt ⟨nesting, upTo names depth, location⟩).serve
      ⟨upTo names (depth + 1), use⟩ cache = _ := fun _ => Scope.serve_loaded hinside hload
  cases hs with
  | alone =>
    obtain ⟨binding, kind, hfind, horigin, hkind⟩ := htable.gives trivial
    have hrun := congrFun (Scope.replay_take ⟨symbol, none⟩ hresolve) cache
    rw [Statement.take, hserve, Scope.take_bound hfind] at hrun
    rw [hrun]
    exact During.bind h.plain hpos hle rfl ⟨hready, hfree, own, hthere, hfits⟩ fun own hown =>
      hown.bind_symbol horigin hkind
  | everything =>
    have hrun := congrFun (Scope.replay_star hresolve) cache
    rw [hserve, Scope.take_everything, Scope.write_present _ _ hthere] at hrun
    rw [hrun]
    exact ⟨rfl, During.put h.plain hpos hle hready hfree (hfits.star h.isPublic htable)⟩

/-- A statement of a body keeps to what the package is to be, and binds the symbol if it is one of
those that do. -/
theorem replay_statement (h : Reexports tree names first symbol) {location : Location}
    (hpos : 0 < depth) (hle : depth ≤ names.length)
    (hpackage : depth < names.length → location.isPackage = true)
    (hserves : depth < names.length → Serves names first symbol tree (depth + 1) nesting)
    {s : Statement} (hs : s.DefinesOther symbol ∨ Binds names first symbol depth s)
    (hduring : During names first symbol depth given cache) :
    ((tree.scopeAt ⟨nesting, upTo names depth, location⟩).replay s cache).1 = .ok ()
      ∧ During names first symbol depth (given ∨ Binds names first symbol depth s)
        ((tree.scopeAt ⟨nesting, upTo names depth, location⟩).replay s cache).2 := by
  rcases hs with hs | hs
  · rw [or_iff_left hs.not_binds]
    obtain ⟨name, hne, hs⟩ := hs
    cases hs
    all_goals
      exact During.bind h.plain hpos hle rfl hduring fun own hown => hown.bind_other hne _
  rw [eq_true (Or.inr hs)]
  rcases hs with ⟨rfl, hs⟩ | ⟨hfrom, next, hnext, hs⟩
  · cases hs with
    | classDef =>
      exact During.bind h.plain hpos hle rfl hduring fun own hown =>
        hown.bind_symbol rfl (show SymbolKind.ofBinding? .classType = some .classType from rfl)
    | functionDef =>
      exact During.bind h.plain hpos hle rfl hduring fun own hown =>
        hown.bind_symbol rfl (show SymbolKind.ofBinding? .function = some .function from rfl)
  · have hlt := (List.getElem?_eq_some_iff.mp hnext).1
    exact h.replay_handsOn hpos (hpackage hlt) hnext hs (hserves hlt) hfrom hduring

/-- **A body is replayed** to its end, and has bound the symbol if some statement does. -/
theorem replayAll_body (h : Reexports tree names first symbol) {location : Location}
    (hpos : 0 < depth) (hle : depth ≤ names.length)
    (hpackage : depth < names.length → location.isPackage = true)
    (hserves : depth < names.length → Serves names first symbol tree (depth + 1) nesting)
    {statements : List Statement}
    (hall : ∀ s ∈ statements, s.DefinesOther symbol ∨ Binds names first symbol depth s)
    (hduring : During names first symbol depth given cache) :
    ((tree.scopeAt ⟨nesting, upTo names depth, location⟩).replayAll statements cache).1 = .ok ()
      ∧ During names first symbol depth
        (given ∨ ∃ s ∈ statements, Binds names first symbol depth s)
        ((tree.scopeAt ⟨nesting, upTo names depth, location⟩).replayAll statements cache).2 := by
  induction statements generalizing given cache with
  | nil =>
    refine ⟨rfl, ?_⟩
    show During names first symbol depth _ cache
    simpa using hduring
  | cons s rest ih =>
    obtain ⟨hs, hrest⟩ := List.forall_mem_cons.mp hall
    obtain ⟨hok, hafter⟩ := h.replay_statement hpos hle hpackage hserves hs hduring
    rw [Scope.replayAll, Importing.run_bind]
    rcases hrun : (tree.scopeAt ⟨nesting, upTo names depth, location⟩).replay s cache
      with ⟨result, after⟩
    rw [hrun] at hok hafter
    obtain rfl : result = .ok () := hok
    simp only [List.exists_mem_cons_iff, ← or_assoc]
    exact ih hrest hafter

/-! ### Loads -/

/-- A package that is replayed comes to what it is to be. -/
theorem loadFresh_comes (h : Reexports tree names first symbol) (hpos : 0 < depth)
    (hle : depth ≤ names.length)
    (hserves : depth < names.length → Serves names first symbol tree (depth + 1) nesting)
    (hready : Ready names first symbol cache) (hfree : Free names depth cache) :
    Comes names first symbol depth
      (tree.loadFresh (tree.load nesting) (upTo names depth) cache) := by
  obtain ⟨location, statements, ⟨hlocate, hcode⟩, hpackage, hall, hbinds⟩ := h.body hpos hle
  obtain ⟨hok, hduring⟩ := h.replayAll_body hpos hle hpackage hserves hall
    (During.of_opened h.plain hpos hle hready hfree)
  rw [tree.loadFresh_located hlocate, Tree.replay, hcode]
  show Comes names first symbol depth (Cache.settled (upTo names depth)
    ((tree.scopeAt ⟨nesting, upTo names depth, location⟩).replayAll statements
      (cache.opened (upTo names depth))))
  rw [false_or, ← hbinds] at hduring
  rcases hrun : (tree.scopeAt ⟨nesting, upTo names depth, location⟩).replayAll statements
    (cache.opened (upTo names depth)) with ⟨result, after⟩
  rw [hrun] at hok hduring
  obtain rfl : result = .ok () := hok
  obtain ⟨own, hown, hfits⟩ := hduring.own
  have hunfinished : after.unfinished (upTo names depth) = own := by
    rw [Cache.unfinished, hown, Option.getD_some]
  refine ⟨⟨own, congrArg Except.ok hunfinished, hfits⟩, fun other table hother hotherLe hfind => ?_⟩
  rw [Cache.settled, Cache.finished, NameMap.find?_insert, hunfinished] at hfind
  split at hfind
  · rename_i heq
    cases hfind
    rwa [h.plain.upTo_injective hother hotherLe hpos hle heq]
  · exact hduring.ready other table hother hotherLe hfind

/-- A loaded package is what it is to be. -/
theorem comes_of_known (hpos : 0 < depth) (hle : depth ≤ names.length)
    (hready : Ready names first symbol cache) (hfree : Free names depth cache)
    {table : SymbolTable} (hknown : cache.find? (upTo names depth) = some table) :
    Comes names first symbol depth (.ok table, cache) := by
  have hloaded : cache.loaded.find? (upTo names depth) = some table := by
    simpa [Cache.find?, hfree depth (Nat.le_refl _) hle] using hknown
  exact ⟨⟨table, rfl, hready depth table hpos hle hloaded⟩, hready⟩

/-- **Packages in a cycle.**  Where the package around it is known, finished or not, the load of a
package comes to what it is to be, and so do the loads of all those further inside. -/
theorem serves (h : Reexports tree names first symbol) (hpos : 0 < depth)
    (hle : depth ≤ names.length) (hdeep : names.length + 2 ≤ depth + nesting) :
    Serves names first symbol tree depth nesting := by
  induction nesting generalizing depth with
  | zero => omega
  | succ nesting ih =>
    intro cache hready hfree haround
    have hfresh : Comes names first symbol depth
        (tree.loadFresh (tree.load nesting) (upTo names depth) cache) :=
      h.loadFresh_comes hpos hle (fun hlt => ih (Nat.succ_pos depth) hlt (by omega)) hready hfree
    rw [Tree.load_eq]
    cases hf : cache.find? (upTo names depth) with
    | some table => exact comes_of_known hpos hle hready hfree hf
    | none =>
      obtain ⟨less, rfl⟩ := Nat.exists_eq_succ_of_ne_zero hpos.ne'
      rcases Nat.eq_zero_or_pos less with rfl | hless
      · simp only [h.parent?_one]
        exact hfresh
      -- the package around it hands out what it has
      obtain ⟨table, htable⟩ := Option.ne_none_iff_exists'.mp (haround (Nat.succ_lt_succ hless))
      obtain ⟨deep, rfl⟩ : ∃ deep, nesting = deep + 1 := ⟨nesting - 1, by omega⟩
      have hload : tree.load (deep + 1) (upTo names less) cache = (.ok table, cache) :=
        tree.load_known htable deep
      simp only [h.parent? hless hle, hload, (Cache.find?_eq_none.mp hf).1]
      exact hfresh

/-- Where none of the packages is being replayed, each load comes to what it is to be. -/
theorem load_comes (h : Reexports tree names first symbol) (hpos : 0 < depth)
    (hle : depth ≤ names.length) (hdeep : names.length + depth ≤ nesting)
    (hready : Ready names first symbol cache) (hfree : Free names 1 cache) :
    Comes names first symbol depth (tree.load nesting (upTo names depth) cache) := by
  induction depth, hpos using Nat.le_induction generalizing nesting cache with
  | base => exact h.serves Nat.one_pos hle (by omega) cache hready hfree (by omega)
  | succ depth hpos ih =>
    obtain ⟨deep, rfl⟩ : ∃ deep, nesting = deep + 1 := ⟨nesting - 1, by omega⟩
    have hfresh : ∀ after, Ready names first symbol after → after.loading = cache.loading →
        Comes names first symbol (depth + 1)
          (tree.loadFresh (tree.load deep) (upTo names (depth + 1)) after) := by
      intro after hafter hloading
      refine h.loadFresh_comes (Nat.succ_pos depth) hle (fun hlt => ?_) hafter
        ((hfree.of_loading hloading).mono (Nat.succ_pos depth))
      exact h.serves (Nat.succ_pos _) hlt (by omega)
    have hcomes : Comes names first symbol depth (tree.load deep (upTo names depth) cache) :=
      ih (Nat.le_of_succ_le hle) (by omega) hready hfree
    obtain ⟨⟨table, hok, -⟩, hafter⟩ := hcomes
    have hloading := (tree.load_grows deep (upTo names depth) cache).loading
    rw [Tree.load_eq]
    cases hf : cache.find? (upTo names (depth + 1)) with
    | some known =>
      exact comes_of_known (Nat.succ_pos depth) hle hready (hfree.mono (Nat.succ_pos depth)) hf
    | none =>
      rcases hload : tree.load deep (upTo names depth) cache with ⟨result, after⟩
      rw [hload] at hok hafter hloading
      obtain rfl : result = .ok table := hok
      simp only [h.parent? hpos hle, hload]
      cases hown : after.loaded.find? (upTo names (depth + 1)) with
      | none => exact hfresh after hafter hloading
      | some own =>
        exact ⟨⟨own, rfl, hafter (depth + 1) own (Nat.succ_pos depth) hle hown⟩, hafter⟩

/-- No loader nests too deeply for the way to a module. -/
theorem nesting_le {disk : Disk} {root : FilePath}
    (h : Reexports (Tree.below disk root) names first symbol) :
    names.length + names.length ≤ maxNesting := by
  have hsource := h.located h.length_pos (Nat.le_refl _)
  have hplain : source names ∈ (Tree.below disk root).plainModules :=
    ⟨hsource, h.plain.no_separator _⟩
  obtain ⟨budget, hmodules, hdeep⟩ := Tree.exists_plain_budget disk root
  rw [← hmodules] at hplain
  have hlength := budget.short _ hplain
  rw [h.plain.components_upTo h.length_pos (Nat.le_refl _), List.take_length] at hlength
  have hcard : 1 ≤ budget.modules.ncard :=
    (Set.ncard_pos budget.finite).mpr ⟨_, hplain⟩
  have htwice : 2 * (budget.bound + 2) ≤ (budget.modules.ncard + 1) * (budget.bound + 2) :=
    Nat.mul_le_mul_right _ (Nat.succ_le_succ hcard)
  omega

end Reexports

/-! ### The two questions -/

/-- Between two loads, the loader of a tree replays nothing, and has loaded what is to be. -/
structure Loader.Rests (root : FilePath) (names : List String) (first : Nat) (symbol : String)
    (loader : Loader) : Prop where
  searchRoot : loader.searchRoot = root
  nesting : loader.nesting = maxNesting
  loading : loader.cache.loading = ∅
  ready : Ready names first symbol loader.cache

namespace Reexports

variable {disk : Disk} {root : FilePath} {loader : Loader}

/-- A layer is loaded to a table that fits, and leaves the loader as it should be for the next. -/
theorem load_rests (h : Reexports (Tree.below disk root) names first symbol) (hpos : 0 < depth)
    (hle : depth ≤ names.length) (hloader : loader.Rests root names first symbol) :
    (∃ table, (Importer.load disk (upTo names depth) loader).1 = .ok table
      ∧ Fits (source names) symbol (first ≤ depth) table)
    ∧ (Importer.load disk (upTo names depth) loader).2.Rests root names first symbol := by
  obtain ⟨searchRoot, nesting, cache⟩ := loader
  obtain ⟨rfl, hnesting, hloading, hready⟩ := hloader
  have hfree : Free names 1 cache := by
    intro other _ _
    rw [show cache.loading = ∅ from hloading, NameMap.find?_empty]
  have hdeep : names.length + depth ≤ nesting :=
    (Nat.add_le_add_left hle _).trans (h.nesting_le.trans_eq hnesting.symm)
  obtain ⟨htable, hafter⟩ := h.load_comes hpos hle hdeep hready hfree
  have hgrows := (Tree.below disk searchRoot).load_grows nesting (upTo names depth) cache
  exact ⟨htable, rfl, hnesting, hgrows.loading.trans hloading, hafter⟩

/-- The loads of packages on the way leave the loader at rest. -/
theorem after_rests (h : Reexports (Tree.below disk root) names first symbol)
    {calls : List String}
    (hcalls : ∀ name ∈ calls, ∃ depth, 0 < depth ∧ depth ≤ names.length ∧ upTo names depth = name)
    (hloader : loader.Rests root names first symbol) :
    (Loader.after disk calls loader).Rests root names first symbol := by
  induction calls generalizing loader with
  | nil => exact hloader
  | cons name rest ih =>
    obtain ⟨⟨depth, hpos, hle, rfl⟩, hrest⟩ := List.forall_mem_cons.mp hcalls
    exact ih hrest (h.load_rests hpos hle hloader).2

/-- Of the packages from a depth before the first one that hands the symbol on, this one is found. -/
theorem firstHandingOut_eq (h : Reexports (Tree.below disk root) names first symbol)
    {start count : Nat} (hstart : start < first) (hcount : start + count = names.length)
    (hloader : loader.Rests root names first symbol) :
    (firstHandingOut (source names) symbol
      ((List.range' start count).map fun depth => upTo names (depth + 1)) ⟨disk, loader⟩).1
      = .ok (upTo names first) := by
  induction count generalizing start loader with
  | zero => exact absurd (hstart.trans_le h.le) (by omega)
  | succ count ih =>
    obtain ⟨⟨table, hok, hfits⟩, hafter⟩ := h.load_rests (Nat.succ_pos start) (by omega) hloader
    rw [List.range'_succ, List.map_cons, run_firstHandingOut_cons]
    simp only [hok, Except.toOption, Option.any_some]
    rcases Nat.lt_or_eq_of_le (Nat.succ_le_of_lt hstart) with hbefore | rfl
    · have hnot : table.handsOut symbol (source names) = false := by
        rw [SymbolTable.handsOut, hfits.unbound (Nat.not_le.mpr hbefore), Option.any_none]
      simp only [hnot]
      exact ih hbefore (by omega) hafter
    · obtain ⟨binding, kind, hfind, horigin, -⟩ := hfits.gives (Nat.le_refl _)
      have hhands := SymbolTable.handsOut_iff.mpr ⟨binding, hfind, horigin⟩
      simp only [hhands]

/-- The module that defines the symbol is the only one on the way that lists it. -/
theorem members_eq (h : Reexports (Tree.below disk root) names first symbol) (hpos : 0 < depth)
    (hle : depth ≤ names.length) (hloader : loader.Rests root names first symbol) :
    ∃ listed, (members (upTo names depth) ⟨disk, loader⟩).1 = .ok listed
      ∧ ((∃ found ∈ listed.symbols, found.name = symbol) ↔ depth = names.length) := by
  obtain ⟨⟨table, hok, hfits⟩, -⟩ := h.load_rests hpos hle hloader
  refine ⟨_, Members.members_of_load hok, ?_⟩
  constructor
  · rintro ⟨found, hfound, rfl⟩
    obtain ⟨-, hname⟩ := mem_symbols_ofTable.mp hfound
    obtain ⟨-, binding, hfind, horigin, -⟩ := mem_namesOf.mp hname
    by_cases hfrom : first ≤ depth
    · obtain ⟨given, kind, hgiven, hsource, -⟩ := hfits.gives hfrom
      cases hfind.symm.trans hgiven
      have hsame := Option.some.inj (horigin.symm.trans hsource)
      exact h.plain.upTo_injective hpos hle h.length_pos (Nat.le_refl _) hsame
    · cases hfind.symm.trans (hfits.unbound hfrom)
  · rintro rfl
    obtain ⟨binding, kind, hfind, horigin, hkind⟩ := hfits.gives h.le
    refine ⟨⟨source names, symbol, kind⟩, mem_symbols_ofTable.mpr ⟨rfl, ?_⟩, rfl⟩
    exact mem_namesOf.mpr ⟨h.isPublic, binding, hfind, horigin, hkind⟩

end Reexports

/-- **A symbol is imported from the shallowest package that hands it on**, whichever of the packages
on the way were loaded before; and it is listed by the module that defines it alone. -/
theorem reexports_found {disk : Disk} {root : FilePath} {names : List String} {first : Nat}
    {symbol : String} (h : Reexports (Tree.below disk root) names first symbol)
    {calls : List String}
    (hcalls : ∀ name ∈ calls, name ∈ Dotted.prefixes (Dotted.ofComponents names)) :
    (shortestImport (Dotted.ofComponents names) symbol
      ⟨disk, Loader.after disk calls { searchRoot := root }⟩).1
      = .ok (Dotted.ofComponents (names.take first))
    ∧ ∀ depth, 0 < depth → depth ≤ names.length → ∃ listed,
      (members (Dotted.ofComponents (names.take depth))
        ⟨disk, Loader.after disk calls { searchRoot := root }⟩).1 = .ok listed
      ∧ ((∃ found ∈ listed.symbols, found.name = symbol) ↔ depth = names.length) := by
  have hsource : Dotted.ofComponents names = source names := by rw [source, upTo, List.take_length]
  have hprefixes := h.plain.prefixes_upTo h.length_pos
  have hfresh : Loader.Rests root names first symbol { searchRoot := root } :=
    ⟨rfl, rfl, rfl, fun depth table _ _ hfind => by cases hfind⟩
  have hused : (Loader.after disk calls { searchRoot := root }).Rests root names first symbol := by
    refine h.after_rests (fun name hname => ?_) hfresh
    have hmem := hcalls name hname
    rw [hsource, hprefixes] at hmem
    obtain ⟨depth, hdepth, rfl⟩ := List.mem_map.mp hmem
    exact ⟨depth + 1, Nat.succ_pos depth, List.mem_range.mp hdepth, rfl⟩
  refine ⟨?_, fun depth hpos hle => h.members_eq hpos hle hused⟩
  rw [hsource, shortestImport, hprefixes, List.range_eq_range']
  exact h.firstHandingOut_eq h.pos (Nat.zero_add _) hused

/-! ### Four packages deep -/

/-- A package with nothing to hand on around one that hands on all of the next one, which hands on
a class of a module. -/
def layered : Disk where
  entries := [
    (["w"], .directory),
    (["w", "lib"], .directory),
    (["w", "lib", "__init__.py"], .file (.text "def helper():\n    pass\n")),
    (["w", "lib", "pkg"], .directory),
    (["w", "lib", "pkg", "__init__.py"], .file (.text "from .core import *\n")),
    (["w", "lib", "pkg", "core"], .directory),
    (["w", "lib", "pkg", "core", "__init__.py"], .file (.text "from .impl import Engine\n")),
    (["w", "lib", "pkg", "core", "impl.py"], .file (.text "class Engine:\n    pass\n"))]
  workingDirectory := []

def layers : List String := ["lib", "pkg", "core", "impl"]

/-- What the layers hold. -/
theorem layered_bodies :
    (Tree.below layered ⟨"/w"⟩).Body (upTo layers 1) ⟨⟨"/w/lib/__init__.py"⟩, true⟩
      [.functionDef "helper"]
    ∧ (Tree.below layered ⟨"/w"⟩).Body (upTo layers 2) ⟨⟨"/w/lib/pkg/__init__.py"⟩, true⟩
      [.importFrom (.relative 1 "core") .everything]
    ∧ (Tree.below layered ⟨"/w"⟩).Body (upTo layers 3) ⟨⟨"/w/lib/pkg/core/__init__.py"⟩, true⟩
      [.importFrom (.relative 1 "impl") (.listed [⟨"Engine", none⟩])]
    ∧ (Tree.below layered ⟨"/w"⟩).Body (upTo layers 4) ⟨⟨"/w/lib/pkg/core/impl.py"⟩, false⟩
      [.classDef "Engine"] := by
  refine ⟨⟨by decide +kernel, Tree.below_code.mpr ⟨"def helper():\n    pass\n", ?_, by cbv⟩⟩,
    ⟨by decide +kernel, Tree.below_code.mpr ⟨"from .core import *\n", ?_, by cbv⟩⟩,
    ⟨by decide +kernel, Tree.below_code.mpr ⟨"from .impl import Engine\n", ?_, by cbv⟩⟩,
    ⟨by decide +kernel, Tree.below_code.mpr ⟨"class Engine:\n    pass\n", ?_, by cbv⟩⟩⟩
  all_goals decide +kernel

/-- The layers hand the class on to each other. -/
theorem layered_reexports : Reexports (Tree.below layered ⟨"/w"⟩) layers 2 "Engine" where
  plain := by unfold Plain layers; decide
  pos := by decide
  le := by decide
  isPublic := by decide
  outer depth hpos hlt := by
    obtain rfl : depth = 1 := by omega
    obtain ⟨hlib, -⟩ := layered_bodies
    exact ⟨_, _, hlib, rfl, List.forall_mem_singleton.mpr ⟨"helper", by decide, .functionDef⟩⟩
  inner depth next hfrom hnext := by
    obtain ⟨-, hpkg, hcore, -⟩ := layered_bodies
    have hlt : depth < 4 := (List.getElem?_eq_some_iff.mp hnext).1
    obtain rfl | rfl : depth = 2 ∨ depth = 3 := by omega
    · cases hnext
      exact ⟨_, _, hpkg, rfl, List.forall_mem_singleton.mpr (.inr .everything), _,
        List.mem_singleton_self _, .everything⟩
    · cases hnext
      exact ⟨_, _, hcore, rfl, List.forall_mem_singleton.mpr (.inr .alone), _,
        List.mem_singleton_self _, .alone⟩
  module := by
    obtain ⟨-, -, -, himpl⟩ := layered_bodies
    exact ⟨_, _, himpl, List.forall_mem_singleton.mpr (.inr .classDef), _,
      List.mem_singleton_self _, .classDef⟩

/-- The class is imported from the second package, after the third one as from a fresh loader. -/
theorem reexports_found_layered :
    (shortestImport "lib.pkg.core.impl" "Engine"
      ⟨layered, Loader.after layered ["lib.pkg.core"] { searchRoot := ⟨"/w"⟩ }⟩).1 = .ok "lib.pkg"
    ∧ ∃ listed, (members "lib.pkg.core.impl"
        ⟨layered, Loader.after layered ["lib.pkg.core"] { searchRoot := ⟨"/w"⟩ }⟩).1 = .ok listed
      ∧ ∃ found ∈ listed.symbols, found.name = "Engine" := by
  have hcalls : ∀ name ∈ ["lib.pkg.core"], name ∈ Dotted.prefixes (Dotted.ofComponents layers) := by
    decide +kernel
  obtain ⟨hshortest, hmembers⟩ := reexports_found layered_reexports hcalls
  obtain ⟨listed, hlisted, hnames⟩ := hmembers 4 (by decide) (by decide)
  exact ⟨hshortest, listed, hlisted, hnames.mpr rfl⟩

end Python

end ApiStubs
