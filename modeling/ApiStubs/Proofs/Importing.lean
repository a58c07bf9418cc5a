import ApiStubs.Python.Replay

/-!
# Proofs — Importing — two runs side by side

`Alike S x y`: run from two caches that `S` relates, `x` and `y` have the same outcome and leave
caches that `S` relates again.  The relation is kept by everything a replay is put together from,
so that a fact about two replays reduces to one about their imports and their own table
(`Scope.replay_alike` in `Proofs.Replay`).

With `S` the equality of two caches that also satisfy a condition, `Alike S x x` says that `x`
keeps the condition; `Moves R x` is the case where the condition compares the cache with an
earlier one.
-/

namespace ApiStubs.Python

namespace Importing

variable {α β : Type}

/-! ### What a run is -/

@[simp] theorem run_pure (a : α) (cache : Cache) : (pure a : Importing α) cache = (.ok a, cache) :=
  rfl

@[simp] theorem run_throw (failure : ImportFailure) (cache : Cache) :
    (throw failure : Importing α) cache = (.error failure, cache) := rfl

@[simp] theorem run_get (cache : Cache) : (get : Importing Cache) cache = (.ok cache, cache) := rfl

@[simp] theorem run_modify (change : Cache → Cache) (cache : Cache) :
    (modify change : Importing Unit) cache = (.ok (), change cache) := rfl

@[simp] theorem run_outcome (x : Importing α) (cache : Cache) :
    x.outcome cache = (.ok (x cache).1, (x cache).2) := rfl

@[simp] theorem run_liftExcept (outcome : Except ImportFailure α) (cache : Cache) :
    (liftExcept outcome : Importing α) cache = (outcome, cache) := by
  cases outcome <;> rfl

theorem run_bind (x : Importing α) (f : α → Importing β) (cache : Cache) :
    (x >>= f) cache = match x cache with
      | (.ok a, after) => f a after
      | (.error failure, after) => (.error failure, after) := by
  show ExceptT.bindCont f (x cache).1 (x cache).2 = _
  rcases x cache with ⟨_ | a, after⟩ <;> rfl

theorem run_bind_ok {x : Importing α} {cache after : Cache} {a : α}
    (h : x cache = (.ok a, after)) (f : α → Importing β) : (x >>= f) cache = f a after := by
  rw [run_bind, h]

theorem run_bind_error {x : Importing α} {cache after : Cache} {failure : ImportFailure}
    (h : x cache = (.error failure, after)) (f : α → Importing β) :
    (x >>= f) cache = (.error failure, after) := by
  rw [run_bind, h]

theorem discard_eq (x : Importing α) : discard x = (do let _ ← x; return ()) := rfl

end Importing

/-! ### Two runs side by side -/

/-- Run from caches that `S` relates, the two have the same outcome and leave caches that `S`
relates. -/
def Alike (S : Cache → Cache → Prop) {α : Type} (x y : Importing α) : Prop :=
  ∀ c d, S c d → (x c).1 = (y d).1 ∧ S (x c).2 (y d).2

namespace Alike

variable {S : Cache → Cache → Prop} {α β : Type}

theorem pure (a : α) : Alike S (pure a) (pure a) := fun _ _ h => ⟨rfl, h⟩

theorem throw (failure : ImportFailure) :
    Alike S (throw failure : Importing α) (throw failure) := fun _ _ h => ⟨rfl, h⟩

theorem liftExcept (outcome : Except ImportFailure α) :
    Alike S (liftExcept outcome) (liftExcept outcome) := fun c d h => by
  rw [Importing.run_liftExcept, Importing.run_liftExcept]
  exact ⟨rfl, h⟩

/-- The second computation may be taken for one that the first yields. -/
theorem bind_of {x y : Importing α} {f g : α → Importing β} (hx : Alike S x y)
    (hf : ∀ a c, (x c).1 = .ok a → Alike S (f a) (g a)) : Alike S (x >>= f) (y >>= g) := by
  intro c d h
  obtain ⟨he, hs⟩ := hx c d h
  rw [Importing.run_bind, Importing.run_bind]
  rcases hxc : x c with ⟨r, c'⟩
  rcases hyd : y d with ⟨r', d'⟩
  rw [hxc, hyd] at he hs
  obtain rfl : r = r' := he
  -- both fail, or both go on with the same value
  cases r with
  | error failure => exact ⟨rfl, hs⟩
  | ok a => exact hf a c (by rw [hxc]) c' d' hs

theorem bind {x y : Importing α} {f g : α → Importing β} (hx : Alike S x y)
    (hf : ∀ a, Alike S (f a) (g a)) : Alike S (x >>= f) (y >>= g) :=
  hx.bind_of fun a _ _ => hf a

theorem outcome {x y : Importing α} (h : Alike S x y) : Alike S x.outcome y.outcome := by
  intro c d hs
  obtain ⟨he, hs'⟩ := h c d hs
  exact ⟨congrArg Except.ok he, hs'⟩

theorem discard {x y : Importing α} (h : Alike S x y) :
    Alike S (Functor.discard x) (Functor.discard y) :=
  h.bind fun _ => pure ()

theorem forM {f g : β → Importing Unit} :
    ∀ list : List β, (∀ b ∈ list, Alike S (f b) (g b)) → Alike S (list.forM f) (list.forM g)
  | [], _ => pure ()
  | b :: rest, h =>
    (h b (by simp)).bind fun _ => forM rest fun x hx => h x (by simp [hx])

end Alike

/-! ### One run and an earlier cache -/

/-- The two caches are the same, and satisfy `P`. -/
def Both (P : Cache → Prop) (c d : Cache) : Prop := c = d ∧ P c

/-- Every run takes its cache to one that `R` relates it to. -/
def Moves (R : Cache → Cache → Prop) {α : Type} (x : Importing α) : Prop := ∀ c, R c (x c).2

namespace Moves

variable {R : Cache → Cache → Prop} {α : Type} {x : Importing α}

/-- A computation moves along `R` when it keeps the caches that come, along `R`, from a given
one. -/
theorem of_alike (refl : ∀ c, R c c) (h : ∀ origin, Alike (Both (R origin)) x x) : Moves R x :=
  fun c => (h c c c ⟨rfl, refl c⟩).2.2

theorem alike (trans : ∀ a b c, R a b → R b c → R a c) (h : Moves R x) (origin : Cache) :
    Alike (Both (R origin)) x x := by
  rintro c d ⟨rfl, hr⟩
  exact ⟨rfl, rfl, trans _ _ _ hr (h c)⟩

end Moves

end ApiStubs.Python
