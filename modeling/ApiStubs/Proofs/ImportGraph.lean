import ApiStubs.Proofs.Caching
import Mathlib.Data.Fintype.BigOperators
import Mathlib.Data.Set.Card
import Mathlib.Logic.Relation

/-!
# Proofs — Import graph — which modules a load can lead to

The nodes of the import graph are the modules of a tree.  A module needs the packages around it,
every module that replaying it can ask for, and the packages around those (`Tree.Needs`).

A load calls for others in two ways only, for the package around its module and for what the
module asks for (`Tree.Calls`).  In an acyclic graph each such call leaves fewer modules to be
reached, so that the number of those bounds how deep loads nest: `Tree.Within.of_calls`.
-/

namespace ApiStubs.Python

/-- The first is a package around the second, at any distance. -/
def Encloses (outer inner : String) : Prop :=
  Relation.TransGen (fun a b => Dotted.parent? a = some b) inner outer

/-- The name of a package is shorter than those inside it. -/
theorem length_lt_of_parent? {name parent : String} (h : Dotted.parent? name = some parent) :
    parent.length < name.length := by
  obtain ⟨⟨before, after⟩, hsplit, rfl⟩ := Option.map_eq_some_iff.mp h
  rw [Text.splitLast?] at hsplit
  split at hsplit
  · cases hsplit
  · rename_i first others hdrop
    cases hsplit
    have hsuffix := (List.dropWhile_suffix (· ≠ '.') (l := name.toList.reverse)).length_le
    rw [hdrop, List.length_reverse, List.length_cons, String.length_toList] at hsuffix
    rw [String.length_ofList, List.length_reverse]
    omega

theorem Encloses.length_lt {outer inner : String} (h : Encloses outer inner) :
    outer.length < inner.length := by
  induction h with
  | single hparent => exact length_lt_of_parent? hparent
  | tail _ hparent ih => exact (length_lt_of_parent? hparent).trans ih

theorem encloses_iff {outer inner : String} : Encloses outer inner ↔
    ∃ parent, Dotted.parent? inner = some parent ∧ (outer = parent ∨ Encloses outer parent) := by
  rw [Encloses, Relation.TransGen.head'_iff]
  simp only [Relation.reflTransGen_iff_eq_or_transGen]
  rfl

theorem not_encloses {outer inner : String} (h : Dotted.parent? inner = none) :
    ¬Encloses outer inner := by
  rintro hencloses
  obtain ⟨parent, hparent, -⟩ := encloses_iff.mp hencloses
  cases hparent.symm.trans h

/-- What a statement asks for does not depend on how modules are loaded. -/
theorem Scope.Asks.importingBy {scope : Scope} {name : String} {statement : Statement}
    (h : scope.Asks name statement) (load : String → Importing SymbolTable) :
    (scope.importingBy load).Asks name statement := by
  induction h with
  | request hrequests hmem hname hext =>
    exact .request ((scope.requests_importingBy load _).trans hrequests) hmem hname hext
  | branches hblock hs _ ih => exact .branches hblock hs ih
  | body hs _ ih => exact .body hs ih
  | handler hc hs _ ih => exact .handler hc hs ih
  | orElse hs _ ih => exact .orElse hs ih
  | finish hs _ ih => exact .finish hs ih

namespace Tree

variable (tree : Tree)

/-- The module is one of the tree. -/
def Located (name : String) : Prop := (tree.locate name).isSome

instance (name : String) : Decidable (tree.Located name) :=
  inferInstanceAs (Decidable ((tree.locate name).isSome = true))

/-- Replaying the module can ask for the other. -/
def AsksFor (name other : String) : Prop :=
  ∃ location statements, tree.locate name = some location ∧
    tree.code location.path = .ok statements ∧
    ∃ s ∈ statements, (tree.scope (tree.load 0) name location).Asks other s

/-- **The import graph.**  A module needs the packages around it, what it can ask for, and the
packages around that, as far as they are modules of the tree. -/
def Needs (name other : String) : Prop :=
  tree.Located name ∧ tree.Located other ∧
    (Encloses other name
      ∨ ∃ asked, tree.AsksFor name asked ∧ (other = asked ∨ Encloses other asked))

/-- No module leads back to itself. -/
def Acyclic : Prop := ∀ name, ¬Relation.TransGen tree.Needs name name

/-- The modules that a load can lead to. -/
def reach (name : String) : Set String :=
  { other | ∃ first, (first = name ∨ Encloses first name) ∧ tree.Located first ∧
    Relation.ReflTransGen tree.Needs first other }

/-- A load of the module makes one of the other: the package around it, or what it asks for. -/
inductive Calls (name other : String) : Prop where
  | around : tree.parent? name = some other → Calls name other
  | asks : tree.AsksFor name other → Calls name other

/-! ### Where a load leads -/

variable {tree}

theorem parent?_eq_some {name parent : String} (h : tree.parent? name = some parent) :
    Dotted.parent? name = some parent ∧ tree.Located parent :=
  Option.filter_eq_some_iff.mp h

theorem located_of_asksFor {name other : String} (h : tree.AsksFor name other) :
    tree.Located name := by
  obtain ⟨location, _, hlocate, _⟩ := h
  rw [Located, hlocate]
  rfl

theorem located_of_mem_reach {name other : String} (h : other ∈ tree.reach name) :
    tree.Located other := by
  obtain ⟨first, -, hlocated, hlead⟩ := h
  cases hlead with
  | refl => exact hlocated
  | tail _ hneeds => exact hneeds.2.1

theorem self_mem_reach {name : String} (h : tree.Located name) : name ∈ tree.reach name :=
  ⟨name, .inl rfl, h, .refl⟩

/-- A load that calls for another module needs the packages around that module too. -/
theorem Calls.needs {name other first : String} (h : tree.Calls name other)
    (hname : tree.Located name) (hfirst : first = other ∨ Encloses first other)
    (hlocated : tree.Located first) : tree.Needs name first := by
  refine ⟨hname, hlocated, ?_⟩
  cases h with
  | around hparent =>
    have hstep := (parent?_eq_some hparent).1
    rcases hfirst with rfl | hencloses
    · exact .inl (.single hstep)
    · exact .inl (.head hstep hencloses)
  | asks hasks => exact .inr ⟨other, hasks, hfirst⟩

/-- What is within reach of a module is within reach of its callers. -/
theorem Calls.reach_subset {name other : String} (h : tree.Calls name other) :
    tree.reach other ⊆ tree.reach name := by
  rintro target ⟨first, hfirst, hlocated, hlead⟩
  cases h with
  | around hparent =>
    have hstep := (parent?_eq_some hparent).1
    rcases hfirst with rfl | hencloses
    · exact ⟨first, .inr (.single hstep), hlocated, hlead⟩
    · exact ⟨first, .inr (.head hstep hencloses), hlocated, hlead⟩
  | asks hasks =>
    have hname := located_of_asksFor hasks
    exact ⟨name, .inl rfl, hname, .head ((Calls.asks hasks).needs hname hfirst hlocated) hlead⟩

/-- In an acyclic graph a module is out of the reach of what it calls for. -/
theorem Calls.not_mem_reach (hacyclic : tree.Acyclic) {name other : String}
    (h : tree.Calls name other) : name ∉ tree.reach other := by
  intro hmem
  have hname := located_of_mem_reach hmem
  obtain ⟨first, hfirst, hlocated, hlead⟩ := hmem
  exact hacyclic name (.head' (h.needs hname hfirst hlocated) hlead)

/-- What is needed by modules of a set is in the set, so what a load leads to is. -/
theorem reach_subset {name : String} {modules : Set String}
    (hstart : ∀ first, first = name ∨ Encloses first name → tree.Located first → first ∈ modules)
    (hneeds : ∀ inner ∈ modules, ∀ other, tree.Needs inner other → other ∈ modules) :
    tree.reach name ⊆ modules := by
  rintro target ⟨first, hfirst, hlocated, hlead⟩
  induction hlead with
  | refl => exact hstart first hfirst hlocated
  | tail _ hstep ih => exact hneeds _ ih _ hstep

/-- A graph is acyclic if what a module needs is always of a lower rank. -/
theorem acyclic_of_rank (rank : String → Nat)
    (h : ∀ name other, tree.Needs name other → rank other < rank name) : tree.Acyclic := by
  have hlower : ∀ name other, Relation.TransGen tree.Needs name other → rank other < rank name := by
    intro name other hlead
    induction hlead with
    | single hneeds => exact h _ _ hneeds
    | tail _ hneeds ih => exact (h _ _ hneeds).trans ih
  exact fun name hcycle => Nat.lt_irrefl _ (hlower name name hcycle)

/-! ### How deep loads nest -/

variable (tree)

/-- The modules within reach are so few that loads nest less deep than `depth`.  Between two
modules of the tree a load may pass through one that is asked for and is none. -/
def Within (depth : Nat) (name : String) : Prop :=
  (tree.reach name).Finite ∧
    2 * (tree.reach name).ncard + (if tree.Located name then 0 else 1) < depth

variable {tree}

/-- Loads nest less deep in what a module calls for than in the module. -/
theorem Within.of_calls (hacyclic : tree.Acyclic) {depth : Nat} {name other : String}
    (h : tree.Within (depth + 1) name) (hcalls : tree.Calls name other) :
    tree.Within depth other := by
  obtain ⟨hfinite, hlt⟩ := h
  have hsub := hcalls.reach_subset
  refine ⟨hfinite.subset hsub, ?_⟩
  by_cases hname : tree.Located name
  · -- the module itself is lost from reach
    have hssub : tree.reach other ⊂ tree.reach name :=
      ⟨hsub, fun hle => hcalls.not_mem_reach hacyclic (hle (self_mem_reach hname))⟩
    have hcard := Set.ncard_lt_ncard hssub hfinite
    rw [if_pos hname] at hlt
    split <;> omega
  · -- a name that is no module calls only for the package around it, which is one
    have hother : tree.Located other := by
      cases hcalls with
      | around hparent => exact (parent?_eq_some hparent).2
      | asks hasks => exact absurd (located_of_asksFor hasks) hname
    have hcard := Set.ncard_le_ncard hsub hfinite
    rw [if_neg hname] at hlt
    rw [if_pos hother]
    omega

end Tree

/-! ### Names that fit into a path -/

theorem toNat_lt_codePoints (c : Char) : c.toNat < 0x110000 := by
  have hvalid : c.toNat.isValidChar := c.valid
  rcases hvalid with h | ⟨-, h⟩
  · exact h.trans (by decide)
  · exact h

/-- The characters of a text by their places, as numbers; zero behind its end. -/
def spelling (limit : Nat) (s : String) (i : Fin limit) : Fin (0x110000 + 1) :=
  match s.toList[i.val]? with
  | some c => ⟨c.toNat + 1, Nat.succ_lt_succ (toNat_lt_codePoints c)⟩
  | none => 0

/-- Short enough names are told apart by how they are spelled. -/
theorem spelling_injOn (limit : Nat) :
    Set.InjOn (spelling limit) { s : String | s.length ≤ limit } := by
  intro s hs t ht h
  refine String.toList_inj.mp (List.ext_getElem? fun i => ?_)
  by_cases hi : i < limit
  · have hat := congrFun h ⟨i, hi⟩
    rw [spelling, spelling] at hat
    cases hsi : s.toList[i]? with
    | none =>
      cases hti : t.toList[i]? with
      | none => rfl
      | some d => simp [hsi, hti] at hat
    | some c =>
      cases hti : t.toList[i]? with
      | none => simp [hsi, hti] at hat
      | some d =>
        have hcd : c.toNat = d.toNat := by simpa [hsi, hti] using hat
        rw [Char.toNat_inj.mp hcd]
  · -- behind the limit both texts have ended
    have hbehind : ∀ u : String, u.length ≤ limit → u.toList[i]? = none := fun u hu =>
      List.getElem?_eq_none (by rw [String.length_toList]; omega)
    rw [hbehind s hs, hbehind t ht]

/-- There are no more texts of a length than digits make numbers of it. -/
theorem short_texts (limit : Nat) : { s : String | s.length ≤ limit }.Finite
    ∧ { s : String | s.length ≤ limit }.ncard ≤ (0x110000 + 1) ^ limit := by
  have hinj := spelling_injOn limit
  refine ⟨.of_injOn (fun _ _ => Set.mem_univ _) hinj Set.finite_univ, ?_⟩
  have hcard := Set.ncard_le_ncard_of_injOn _ (fun _ _ => Set.mem_univ _) hinj Set.finite_univ
  rwa [Set.ncard_univ, Nat.card_eq_fintype_card, Fintype.card_fun, Fintype.card_fin,
    Fintype.card_fin] at hcard

/-- **No tree nests too deeply** whose module names fit into a path. -/
theorem Tree.within_maxNesting {tree : Tree} {name : String}
    (h : ∀ other ∈ tree.reach name, other.length ≤ maxPathBytes) :
    tree.Within maxNesting name := by
  obtain ⟨hfinite, hcard⟩ := short_texts maxPathBytes
  have hreach := (Set.ncard_le_ncard h hfinite).trans hcard
  refine ⟨hfinite.subset h, ?_⟩
  have hpos : 0 < (0x110000 + 1) ^ maxPathBytes := Nat.pow_pos (by decide)
  have hbound : ∀ digits limit : Nat, 2 ≤ digits →
      4 * digits ^ limit ≤ Nat.pow digits (limit + 1) * (limit + 3) := by
    intro digits limit hdigits
    show _ ≤ digits ^ (limit + 1) * (limit + 3)
    rw [Nat.pow_succ, Nat.mul_assoc, Nat.mul_comm 4]
    exact Nat.mul_le_mul_left _ (Nat.mul_le_mul hdigits (by omega : 2 ≤ limit + 3))
  -- twice as many as the names, and one more for a name that is no module
  have hmax : 4 * (0x110000 + 1) ^ maxPathBytes ≤ maxNesting := hbound _ _ (by decide)
  split <;> omega

end ApiStubs.Python
