import ApiStubs.Proofs.Replay
import ApiStubs.Python.Loader

/-!
# Proofs — Caching — what an import leaves of the cache

An import may fail half-way, and may import others on the way, the module that asked for it among
them.  Whatever happens, it leaves the modules being replayed with the tables they had, and takes
no loaded table away: `Tree.load_grows`, of every cache and for every outcome.

The invariant that carries the induction is `Cache.Advances own`: a replay of the module `own`
changes no table but the one of `own` among those being replayed, and a module being replayed is
not loaded by anybody else meanwhile, since it is known.  An import closes the entry of its own
module again, and what remains is `Cache.Grows`.
-/

namespace ApiStubs.Python

/-! ### The steps of a load -/

namespace Cache

/-- The table a module is known by. -/
def find? (cache : Cache) (name : String) : Option SymbolTable :=
  (cache.loaded.find? name).or (cache.loading.find? name)

/-- The cache when the replay of a module begins. -/
def opened (cache : Cache) (name : String) : Cache :=
  { cache with loading := cache.loading.insert name (.named name) }

/-- The cache when the replay of a module is over. -/
def closed (cache : Cache) (name : String) : Cache :=
  { cache with loading := cache.loading.erase name }

/-- The table of a module being replayed. -/
def unfinished (cache : Cache) (name : String) : SymbolTable :=
  (cache.loading.find? name).getD (.named name)

/-- The cache when the replay of a module has succeeded. -/
def finished (cache : Cache) (name : String) : Cache :=
  { cache.closed name with loaded := cache.loaded.insert name (cache.unfinished name) }

/-- What the replay of a module comes to, and the cache after it. -/
def settled (name : String) :
    Except ImportFailure Unit × Cache → Except ImportFailure SymbolTable × Cache
  | (.error failure, cache) => (.error failure, cache.closed name)
  | (.ok (), cache) => (.ok (cache.unfinished name), cache.finished name)

end Cache

namespace Tree

variable (tree : Tree)

/-- The package around a module, if it is one of the tree. -/
def parent? (name : String) : Option String :=
  (Dotted.parent? name).filter fun parent => (tree.locate parent).isSome

theorem loadFresh_missing {name : String} (h : tree.locate name = none)
    (load : String → Importing SymbolTable) (cache : Cache) :
    tree.loadFresh load name cache = (.error ⟨name, .noModule name⟩, cache) := by
  rw [loadFresh, h]
  rfl

theorem loadFresh_located {name : String} {location : Location}
    (h : tree.locate name = some location) (load : String → Importing SymbolTable)
    (cache : Cache) :
    tree.loadFresh load name cache
      = Cache.settled name (tree.replay load name location (cache.opened name)) := by
  rw [loadFresh, h]
  simp only [Importing.run_bind, Importing.run_modify, Importing.run_outcome, Importing.run_get]
  rw [show { cache with loading := cache.loading.insert name (.named name) } = cache.opened name
    from rfl]
  rcases tree.replay load name location (cache.opened name) with ⟨_ | _, after⟩ <;> rfl

theorem load_known {cache : Cache} {name : String} {table : SymbolTable}
    (h : cache.find? name = some table) (depth : Nat) :
    tree.load (depth + 1) name cache = (.ok table, cache) := by
  have hknown : known? name cache = (.ok (some table), cache) := by
    rw [← h]
    rfl
  rw [load, Importing.run_bind_ok hknown]
  rfl

/-- The package around a module is there, and the module itself is still to be replayed. -/
inductive Readied (depth : Nat) (name : String) (cache : Cache) : Cache → Prop where
  | alone : tree.parent? name = none → Readied depth name cache cache
  | inside {parent : String} {table : SymbolTable} {after : Cache} :
      tree.parent? name = some parent → tree.load depth parent cache = (.ok table, after) →
      after.loaded.find? name = none → Readied depth name cache after

/-- **What a load comes to.**  The module is known, or the package around it fails to load, or
loads the module itself, or else the module is replayed. -/
theorem load_cases {depth : Nat} {name : String} {cache : Cache}
    {P : Except ImportFailure SymbolTable × Cache → Prop}
    (known : ∀ table, cache.find? name = some table → P (.ok table, cache))
    (failed : ∀ parent failure after, cache.find? name = none → tree.parent? name = some parent →
      tree.load depth parent cache = (.error failure, after) → P (.error failure, after))
    (along : ∀ parent table own after, cache.find? name = none → tree.parent? name = some parent →
      tree.load depth parent cache = (.ok table, after) → after.loaded.find? name = some own →
      P (.ok own, after))
    (fresh : ∀ after, cache.find? name = none → tree.Readied depth name cache after →
      P (tree.loadFresh (tree.load depth) name after)) :
    P (tree.load (depth + 1) name cache) := by
  cases hf : cache.find? name with
  | some table =>
    rw [tree.load_known hf]
    exact known table hf
  | none =>
    have hunknown : known? name cache = (.ok none, cache) := by
      rw [← hf]
      rfl
    rw [load, Importing.run_bind_ok hunknown]
    cases hd : Dotted.parent? name with
    | none => exact fresh cache hf (.alone (by simp [parent?, hd]))
    | some parent =>
      cases hl : (tree.locate parent).isSome with
      | false =>
        -- a parent that is no module of the tree is not loaded
        have hp : tree.parent? name = none := by simp [parent?, hd, hl, Option.filter]
        simpa [hl] using fresh cache hf (.alone hp)
      | true =>
        have hp : tree.parent? name = some parent := by simp [parent?, hd, hl, Option.filter]
        simp only [hl, if_true, Importing.run_bind]
        rcases hload : tree.load depth parent cache with ⟨failure | table, after⟩
        · exact failed parent failure after hf hp hload
        · simp only [Importing.run_get]
          cases hown : after.loaded.find? name with
          | some own => exact along parent table own after hf hp hload hown
          | none => exact fresh after hf (.inside hp hload hown)

/-- A load is what the load of the package around its module, and the replay of the module, make
of it. -/
theorem load_eq (depth : Nat) (name : String) (cache : Cache) :
    tree.load (depth + 1) name cache =
      match cache.find? name with
      | some table => (.ok table, cache)
      | none =>
        match tree.parent? name with
        | none => tree.loadFresh (tree.load depth) name cache
        | some parent =>
          match tree.load depth parent cache with
          | (.error failure, after) => (.error failure, after)
          | (.ok _, after) =>
            match after.loaded.find? name with
            | some own => (.ok own, after)
            | none => tree.loadFresh (tree.load depth) name after := by
  refine tree.load_cases (P := fun result => result = _) ?_ ?_ ?_ ?_
  · intro table hknown
    simp only [hknown]
  · intro parent failure after hnone hparent hload
    simp only [hnone, hparent, hload]
  · intro parent table own after hnone hparent hload hown
    simp only [hnone, hparent, hload, hown]
  · intro after hnone hready
    cases hready with
    | alone hparent => simp only [hnone, hparent]
    | inside hparent hload hown => simp only [hnone, hparent, hload, hown]

end Tree

/-! ### What stays -/

namespace Cache

/-- The modules that are loaded stay loaded, with their tables, and those being replayed are not
loaded meanwhile. -/
structure Retains (before after : Cache) : Prop where
  kept : ∀ name table, before.loaded.find? name = some table → after.loaded.find? name = some table
  unfinished : ∀ name, before.loading.contains name → before.loaded.find? name = none →
    after.loaded.find? name = none

/-- What the replay of a module does to the cache: among those being replayed it changes the
table of the module itself and no other. -/
structure Advances (own : String) (before after : Cache) : Prop extends Retains before after where
  others : ∀ name, name ≠ own → after.loading.find? name = before.loading.find? name
  present : after.loading.contains own = before.loading.contains own

/-- What an import does to the cache: the modules being replayed are the same, with the same
tables. -/
structure Grows (before after : Cache) : Prop extends Retains before after where
  loading : after.loading = before.loading

theorem Retains.refl (cache : Cache) : Retains cache cache := ⟨fun _ _ h => h, fun _ _ h => h⟩

theorem Grows.refl (cache : Cache) : Grows cache cache := ⟨.refl cache, rfl⟩

theorem Advances.refl (own : String) (cache : Cache) : Advances own cache cache :=
  ⟨.refl cache, fun _ _ => rfl, rfl⟩

/-- An advance keeps the names of the modules being replayed. -/
theorem Advances.contains {own : String} {before after : Cache} (h : Advances own before after)
    (name : String) : after.loading.contains name = before.loading.contains name := by
  by_cases hn : name = own
  · exact hn ▸ h.present
  · exact congrArg Option.isSome (h.others name hn)

theorem Advances.trans {own : String} {a b c : Cache} (h : Advances own a b)
    (h' : Advances own b c) : Advances own a c where
  kept name table hf := h'.kept name table (h.kept name table hf)
  unfinished name hl hn := h'.unfinished name ((h.contains name).trans hl) (h.unfinished name hl hn)
  others name hn := (h'.others name hn).trans (h.others name hn)
  present := h'.present.trans h.present

theorem Grows.trans {a b c : Cache} (h : Grows a b) (h' : Grows b c) : Grows a c where
  kept name table hf := h'.kept name table (h.kept name table hf)
  unfinished name hl hn := h'.unfinished name (h.loading ▸ hl) (h.unfinished name hl hn)
  loading := h'.loading.trans h.loading

theorem Grows.advances {before after : Cache} (h : Grows before after) (own : String) :
    Advances own before after :=
  ⟨h.toRetains, fun _ _ => by rw [h.loading], by rw [h.loading]⟩

@[simp] theorem find?_eq_none {cache : Cache} {name : String} : cache.find? name = none ↔
    cache.loaded.find? name = none ∧ cache.loading.find? name = none := by
  simp [find?]

/-- The replay of a module that was unknown leaves, once its entry is closed again, the modules
that were being replayed before. -/
theorem Advances.settled {name : String} {before : Cache} (hn : before.find? name = none)
    {outcome : Except ImportFailure Unit × Cache}
    (h : Advances name (before.opened name) outcome.2) :
    Grows before (Cache.settled name outcome).2 := by
  obtain ⟨hloaded, hloading⟩ := find?_eq_none.mp hn
  obtain ⟨result, after⟩ := outcome
  have hclosed : (after.closed name).loading = before.loading := by
    refine NameMap.ext_find? fun key => ?_
    by_cases hk : key = name
    · simp [closed, hk, hloading]
    · simpa [closed, opened, hk] using h.others key hk
  have hopened : ∀ key, before.loading.contains key →
      (before.opened name).loading.contains key := by
    intro key hk
    simp only [NameMap.contains, opened, NameMap.find?_insert] at hk ⊢
    split <;> simp [hk]
  have hne : ∀ key, before.loading.contains key → key ≠ name := by
    rintro key hk rfl
    simp [NameMap.contains, hloading] at hk
  -- only a replay that succeeds loads something, and that is the module itself
  cases result with
  | error failure =>
    exact ⟨⟨h.kept, fun key hk => h.unfinished key (hopened key hk)⟩, hclosed⟩
  | ok _ =>
    refine ⟨⟨fun key table hf => ?_, fun key hk hu => ?_⟩, hclosed⟩
    · have hkey : key ≠ name := fun he => by rw [he, hloaded] at hf; cases hf
      simpa [Cache.settled, finished, hkey] using h.kept key table hf
    · simpa [Cache.settled, finished, hne key hk] using h.unfinished key (hopened key hk) hu

end Cache

/-! ### Imports -/

namespace Scope

theorem update_advances (scope : Scope) (change : Change) :
    Moves (Cache.Advances scope.module) (scope.update change) := by
  intro cache
  rw [run_update]
  split
  · rename_i table htable
    refine ⟨⟨fun _ _ h => h, fun _ _ h => h⟩, fun name hn => by simp [hn], ?_⟩
    simp [NameMap.contains, htable]
  · exact .refl scope.module cache

/-- A replay changes the table of its own module, if its imports leave the modules being replayed
alone. -/
theorem replayAll_advances (scope : Scope) (h : ∀ name, Moves Cache.Grows (scope.load name))
    (statements : List Statement) :
    Moves (Cache.Advances scope.module) (scope.replayAll statements) :=
  replayAll_moves (Cache.Advances.refl scope.module) (fun _ _ _ => .trans)
    (fun change _ => scope.update_advances change)
    (fun name cache => (h name cache).advances scope.module) statements

end Scope

namespace Tree

variable (tree : Tree)

theorem replay_advances {load : String → Importing SymbolTable}
    (h : ∀ name, Moves Cache.Grows (load name)) (name : String) (location : Location) :
    Moves (Cache.Advances name) (tree.replay load name location) := by
  rw [replay]
  cases tree.code location.path with
  | error cause => exact fun cache => .refl name cache
  | ok statements =>
    exact (tree.scope load name location).replayAll_advances h statements

theorem loadFresh_grows {load : String → Importing SymbolTable}
    (h : ∀ name, Moves Cache.Grows (load name)) {name : String} {cache : Cache}
    (hn : cache.find? name = none) : Cache.Grows cache (tree.loadFresh load name cache).2 := by
  cases hl : tree.locate name with
  | none =>
    rw [tree.loadFresh_missing hl]
    exact .refl cache
  | some location =>
    rw [tree.loadFresh_located hl]
    exact (tree.replay_advances h name location (cache.opened name)).settled hn

namespace Readied

variable {tree} {depth : Nat} {name : String} {cache after : Cache}

theorem moves {R : Cache → Cache → Prop} (h : tree.Readied depth name cache after)
    (refl : ∀ c, R c c) (ih : ∀ name, Moves R (tree.load depth name)) : R cache after := by
  cases h with
  | alone _ => exact refl cache
  | @inside parent _ _ _ hload _ =>
    have hr := ih parent cache
    rwa [hload] at hr

theorem unknown (h : tree.Readied depth name cache after)
    (ih : ∀ name, Moves Cache.Grows (tree.load depth name)) (hn : cache.find? name = none) :
    after.find? name = none := by
  have hloading := (h.moves .refl ih).loading
  cases h with
  | alone _ => exact hn
  | inside _ _ hown =>
    exact Cache.find?_eq_none.mpr ⟨hown, hloading ▸ (Cache.find?_eq_none.mp hn).2⟩

end Readied

/-- A relation that holds across the replay of every module that is ready for it holds across
every import. -/
theorem load_moves {R : Cache → Cache → Prop} (refl : ∀ c, R c c)
    (trans : ∀ a b c, R a b → R b c → R a c)
    (fresh : ∀ depth name cache after, (∀ other, Moves R (tree.load depth other)) →
      cache.find? name = none → tree.Readied depth name cache after →
      R after (tree.loadFresh (tree.load depth) name after).2)
    (depth : Nat) : ∀ name, Moves R (tree.load depth name) := by
  induction depth with
  | zero => exact fun name cache => refl cache
  | succ depth ih =>
    intro name cache
    refine tree.load_cases (P := fun result => R cache result.2) ?_ ?_ ?_ ?_
    · exact fun _ _ => refl cache
    · intro parent failure after _ _ hload
      exact (congrArg Prod.snd hload) ▸ ih parent cache
    · intro parent table own after _ _ hload _
      exact (congrArg Prod.snd hload) ▸ ih parent cache
    · intro after hf hready
      exact trans _ _ _ (hready.moves refl ih) (fresh depth name cache after ih hf hready)

/-- **An import leaves the modules being replayed as they are, and keeps what is loaded.** -/
theorem load_grows : ∀ depth name, Moves Cache.Grows (tree.load depth name) :=
  tree.load_moves .refl (fun _ _ _ => .trans) fun _ _ _ _ ih hf hready =>
    tree.loadFresh_grows ih (hready.unknown ih hf)

/-- A module that was not being replayed is loaded once an import of it has succeeded. -/
theorem loaded_of_load_ok {depth : Nat} {name : String} {cache : Cache} {table : SymbolTable}
    (hl : cache.loading.find? name = none) (h : (tree.load depth name cache).1 = .ok table) :
    (tree.load depth name cache).2.loaded.find? name = some table := by
  cases depth with
  | zero => cases h
  | succ depth =>
    revert h
    refine tree.load_cases (P := fun result =>
      result.1 = .ok table → result.2.loaded.find? name = some table) ?_ ?_ ?_ ?_
    · -- a module that is known and not being replayed is loaded
      rintro known hf ⟨⟩
      simpa [Cache.find?, hl] using hf
    · rintro _ _ _ _ _ _ ⟨⟩
    · rintro _ _ own after _ _ _ hown ⟨⟩
      exact hown
    · intro after _ _ h
      cases hloc : tree.locate name with
      | none =>
        rw [tree.loadFresh_missing hloc] at h
        cases h
      | some location =>
        rw [tree.loadFresh_located hloc] at h ⊢
        rcases hr : tree.replay (tree.load depth) name location (after.opened name)
          with ⟨_ | _, end'⟩
        · rw [hr] at h
          cases h
        · rw [hr] at h
          cases h
          simp [Cache.settled, Cache.finished]

/-- A module that is loaded is handed out as it is. -/
theorem load_of_loaded {cache : Cache} {name : String} {table : SymbolTable}
    (h : cache.loaded.find? name = some table) (depth : Nat) :
    tree.load (depth + 1) name cache = (.ok table, cache) :=
  tree.load_known (by simp [Cache.find?, h]) depth

end Tree

/-! ### Tables and their names -/

namespace Cache

/-- Every table stands under its own name. -/
structure Named (cache : Cache) : Prop where
  loaded : ∀ name table, cache.loaded.find? name = some table → table.name = name
  loading : ∀ name table, cache.loading.find? name = some table → table.name = name

/-- The tables keep standing under their names. -/
def StaysNamed (before after : Cache) : Prop := before.Named → after.Named

namespace Named

theorem empty : Named {} := by
  constructor <;> exact fun _ _ h => by cases h

theorem unfinished {cache : Cache} (h : cache.Named) (name : String) :
    (cache.unfinished name).name = name := by
  rw [Cache.unfinished]
  cases hf : cache.loading.find? name with
  | none => rfl
  | some table => exact h.loading name table hf

theorem opened {cache : Cache} (h : cache.Named) (name : String) : (cache.opened name).Named := by
  refine ⟨h.loaded, fun key table hf => ?_⟩
  rw [Cache.opened, NameMap.find?_insert] at hf
  split at hf
  · cases hf
    exact Eq.symm ‹_›
  · exact h.loading key table hf

theorem closed {cache : Cache} (h : cache.Named) (name : String) : (cache.closed name).Named := by
  refine ⟨h.loaded, fun key table hf => ?_⟩
  rw [Cache.closed, NameMap.find?_erase] at hf
  split at hf
  · cases hf
  · exact h.loading key table hf

theorem finished {cache : Cache} (h : cache.Named) (name : String) :
    (cache.finished name).Named := by
  refine ⟨fun key table hf => ?_, (h.closed name).loading⟩
  rw [Cache.finished, NameMap.find?_insert] at hf
  split at hf
  · cases hf
    rw [h.unfinished name, ‹key = name›]
  · exact h.loaded key table hf

theorem settled {outcome : Except ImportFailure Unit × Cache} (h : outcome.2.Named)
    (name : String) : (Cache.settled name outcome).2.Named := by
  obtain ⟨_ | _, cache⟩ := outcome
  · exact Named.closed h name
  · exact Named.finished h name

end Named

theorem StaysNamed.refl (cache : Cache) : StaysNamed cache cache := id

theorem StaysNamed.trans (a b c : Cache) (h : StaysNamed a b) (h' : StaysNamed b c) :
    StaysNamed a c := h' ∘ h

end Cache

theorem Scope.update_staysNamed (scope : Scope) {change : Change} (h : KeepsName change) :
    Moves Cache.StaysNamed (scope.update change) := by
  intro cache hn
  rw [run_update]
  split
  · rename_i table htable
    refine ⟨hn.loaded, fun key found hf => ?_⟩
    rw [NameMap.find?_insert] at hf
    split at hf
    · cases hf
      rw [h table, hn.loading _ table htable, ‹key = scope.module›]
    · exact hn.loading key found hf
  · exact hn

namespace Tree

variable (tree : Tree)

theorem replay_staysNamed {load : String → Importing SymbolTable}
    (h : ∀ name, Moves Cache.StaysNamed (load name)) (name : String) (location : Location) :
    Moves Cache.StaysNamed (tree.replay load name location) := by
  rw [replay]
  cases tree.code location.path with
  | error cause => exact fun cache => .refl cache
  | ok statements =>
    exact Scope.replayAll_moves .refl .trans
      (fun _ hc => Scope.update_staysNamed _ hc) h statements

/-- An import leaves every table under its own name. -/
theorem load_staysNamed (depth : Nat) (name : String) :
    Moves Cache.StaysNamed (tree.load depth name) := by
  refine tree.load_moves .refl .trans (fun depth name _ after ih _ _ hn => ?_) depth name
  cases hl : tree.locate name with
  | none =>
    rw [tree.loadFresh_missing hl]
    exact hn
  | some location =>
    rw [tree.loadFresh_located hl]
    exact (tree.replay_staysNamed ih name location _ (hn.opened name)).settled name

end Tree

end ApiStubs.Python
