/-!
# Name map — finite maps from names, in name order

Symbol tables, module caches and example indices are finite maps whose listings are read in the
order of their names, by code point. `NameMap` keeps its entries in that order, so that two maps
with the same content are the same value and a listing needs no sorting.

`find?_insert` and `find?_erase` say what a change does to a look-up, and `ext_find?` that the
look-ups are all there is to a map.
-/

namespace ApiStubs

/-- Entries whose names ascend strictly. -/
def Ascending {α : Type} (entries : List (String × α)) : Prop :=
  entries.Pairwise (fun a b => a.1 < b.1)

/-- A finite map from names, its entries in ascending name order. -/
structure NameMap (α : Type) where
  /-- The entries, ordered by name. -/
  entries : List (String × α)
  /-- Each name stands once, in code-point order. -/
  ascending : Ascending entries

namespace NameMap

variable {α : Type}

/-! ### Entries -/

/-- The entries with one more, or with the entry of that name replaced. -/
def insertEntry (name : String) (value : α) : List (String × α) → List (String × α)
  | [] => [(name, value)]
  | (key, old) :: rest =>
    if name < key then (name, value) :: (key, old) :: rest
    else if name = key then (name, value) :: rest
    else (key, old) :: insertEntry name value rest

/-- The value stored beside a name. -/
def findEntry (name : String) : List (String × α) → Option α
  | [] => none
  | (key, value) :: rest => if name = key then some value else findEntry name rest

/-- An insertion puts in its own entry and no other. -/
theorem mem_insertEntry {name : String} {value : α} {entries : List (String × α)}
    {e : String × α} (h : e ∈ insertEntry name value entries) :
    e = (name, value) ∨ e ∈ entries := by
  induction entries with
  | nil => simpa [insertEntry] using h
  | cons head rest ih =>
    obtain ⟨key, old⟩ := head
    rw [insertEntry] at h
    split at h
    · simpa using h
    · split at h
      · rcases List.mem_cons.mp h with h | h
        · exact .inl h
        · exact .inr (List.mem_cons_of_mem _ h)
      · rcases List.mem_cons.mp h with h | h
        · exact .inr (by simp [h])
        · rcases ih h with h | h
          · exact .inl h
          · exact .inr (List.mem_cons_of_mem _ h)

theorem lt_of_not_lt_of_ne {a b : String} (h : ¬a < b) (hne : a ≠ b) : b < a := by
  rcases Decidable.em (b < a) with hlt | hlt
  · exact hlt
  · exact absurd (String.le_antisymm (String.not_lt.mp hlt) (String.not_lt.mp h)) hne

/-- An entry is put where the names stay in order. -/
theorem ascending_insertEntry {name : String} {value : α} {entries : List (String × α)}
    (h : Ascending entries) : Ascending (insertEntry name value entries) := by
  induction entries with
  | nil => simp [insertEntry, Ascending]
  | cons head rest ih =>
    obtain ⟨key, old⟩ := head
    have hrest : Ascending rest := (List.pairwise_cons.mp h).2
    have hkey : ∀ e ∈ rest, key < e.1 := (List.pairwise_cons.mp h).1
    rw [insertEntry]
    split
    · rename_i hlt
      refine List.pairwise_cons.mpr ⟨?_, h⟩
      intro e he
      rcases List.mem_cons.mp he with rfl | he
      · exact hlt
      · exact String.lt_trans hlt (hkey e he)
    · rename_i hlt
      split
      · rename_i heq
        subst heq
        exact List.pairwise_cons.mpr ⟨hkey, hrest⟩
      · rename_i hne
        refine List.pairwise_cons.mpr ⟨?_, ih hrest⟩
        intro e he
        rcases mem_insertEntry he with rfl | he
        · exact lt_of_not_lt_of_ne hlt hne
        · exact hkey e he

/-! ### Maps -/

/-- The map without entries. -/
def empty : NameMap α := ⟨[], List.Pairwise.nil⟩

instance : Inhabited (NameMap α) := ⟨empty⟩
instance : EmptyCollection (NameMap α) := ⟨empty⟩

instance [DecidableEq α] : DecidableEq (NameMap α) := fun a b =>
  if h : a.entries = b.entries then
    isTrue (by cases a; cases b; simp_all)
  else isFalse fun e => h (by rw [e])

/-- The value bound to a name, if any. -/
def find? (m : NameMap α) (name : String) : Option α := findEntry name m.entries

/-- The name has a value. -/
def contains (m : NameMap α) (name : String) : Bool := (m.find? name).isSome

/-- The map with the name bound to the value, whatever it was bound to before. -/
def insert (m : NameMap α) (name : String) (value : α) : NameMap α :=
  ⟨insertEntry name value m.entries, ascending_insertEntry m.ascending⟩

/-- The entries that satisfy a test. -/
def filter (m : NameMap α) (p : String → α → Bool) : NameMap α :=
  ⟨m.entries.filter fun e => p e.1 e.2, m.ascending.filter _⟩

/-- The map without the name. -/
def erase (m : NameMap α) (name : String) : NameMap α := m.filter fun key _ => key ≠ name

/-- The names, in order. -/
def names (m : NameMap α) : List String := m.entries.map Prod.fst

/-- The number of entries. -/
def size (m : NameMap α) : Nat := m.entries.length

/-- The map built by binding the given pairs one after the other; a later pair wins. -/
def ofList (pairs : List (String × α)) : NameMap α :=
  pairs.foldl (fun m pair => m.insert pair.1 pair.2) empty

/-! ### Look-ups after a change -/

/-- An insertion is found under its name; what is found under other names stays. -/
theorem findEntry_insertEntry (name key : String) (value : α) (entries : List (String × α)) :
    findEntry key (insertEntry name value entries)
      = if key = name then some value else findEntry key entries := by
  induction entries with
  | nil => simp [insertEntry, findEntry]
  | cons head rest ih =>
    obtain ⟨other, old⟩ := head
    rw [insertEntry]
    split
    · rfl
    · split
      · rename_i heq
        subst heq
        by_cases hk : key = name <;> simp [findEntry, hk]
      · rename_i hne
        by_cases hk : key = other
        · subst hk
          simp [findEntry, Ne.symm hne]
        · simp [findEntry, hk, ih]

/-- Without the entries of a name nothing is found under it, and the same under the others. -/
theorem findEntry_filter_ne (name key : String) (entries : List (String × α)) :
    findEntry key (entries.filter fun e => e.1 ≠ name)
      = if key = name then none else findEntry key entries := by
  induction entries with
  | nil => simp [findEntry]
  | cons head rest ih =>
    obtain ⟨other, old⟩ := head
    by_cases ho : other = name
    · subst ho
      by_cases hk : key = other
      · subst hk
        simpa [findEntry] using ih
      · simpa [findEntry, hk] using ih
    · by_cases hk : key = other
      · subst hk
        simp [findEntry, ho]
      · simpa [findEntry, ho, hk] using ih

theorem findEntry_eq_none {name : String} {entries : List (String × α)}
    (h : ∀ e ∈ entries, name < e.1) : findEntry name entries = none := by
  induction entries with
  | nil => rfl
  | cons head rest ih =>
    have hne : name ≠ head.1 := fun he => String.lt_irrefl _ (he ▸ h head (by simp))
    rw [findEntry, if_neg hne]
    exact ih fun e he => h e (by simp [he])

/-- Lists of ascending entries with the same look-ups are the same list. -/
theorem eq_of_findEntry {first second : List (String × α)} (hf : Ascending first)
    (hs : Ascending second) (h : ∀ name, findEntry name first = findEntry name second) :
    first = second := by
  induction first generalizing second with
  | nil =>
    cases second with
    | nil => rfl
    | cons head rest =>
      have := h head.1
      simp [findEntry] at this
  | cons head rest ih =>
    obtain ⟨key, value⟩ := head
    obtain ⟨hkey, hrest⟩ := List.pairwise_cons.mp hf
    cases second with
    | nil =>
      have := h key
      simp [findEntry] at this
    | cons other rest' =>
      obtain ⟨key', value'⟩ := other
      obtain ⟨hkey', hrest'⟩ := List.pairwise_cons.mp hs
      -- the smaller of two different first names is found on one side only
      have hk : key = key' := by
        refine Decidable.byContradiction fun hne => ?_
        rcases Decidable.em (key < key') with hlt | hlt
        · have hnone : findEntry key ((key', value') :: rest') = none :=
            findEntry_eq_none <| List.forall_mem_cons.mpr
              ⟨hlt, fun e he => String.lt_trans hlt (hkey' e he)⟩
          have := (h key).trans hnone
          simp [findEntry] at this
        · have hlt' : key' < key := lt_of_not_lt_of_ne hlt hne
          have hnone : findEntry key' ((key, value) :: rest) = none :=
            findEntry_eq_none <| List.forall_mem_cons.mpr
              ⟨hlt', fun e he => String.lt_trans hlt' (hkey e he)⟩
          have := (h key').symm.trans hnone
          simp [findEntry] at this
      subst hk
      have hv : value = value' := by simpa [findEntry] using h key
      subst hv
      have htail : rest = rest' := by
        refine ih hrest hrest' fun name => ?_
        by_cases hn : name = key
        · rw [hn, findEntry_eq_none hkey, findEntry_eq_none hkey']
        · simpa [findEntry, hn] using h name
      rw [htail]

/-- Maps with the same look-ups are the same map. -/
theorem ext_find? {first second : NameMap α} (h : ∀ name, first.find? name = second.find? name) :
    first = second := by
  obtain ⟨entries, ascending⟩ := first
  obtain ⟨entries', ascending'⟩ := second
  obtain rfl : entries = entries' := eq_of_findEntry ascending ascending' h
  rfl

theorem mem_of_findEntry {name : String} {value : α} {entries : List (String × α)}
    (h : findEntry name entries = some value) : (name, value) ∈ entries := by
  induction entries with
  | nil => cases h
  | cons head rest ih =>
    obtain ⟨key, old⟩ := head
    rw [findEntry] at h
    split at h
    · rename_i heq
      cases h
      simp [heq]
    · exact List.mem_cons_of_mem _ (ih h)

theorem findEntry_of_mem {name : String} {value : α} {entries : List (String × α)}
    (ha : Ascending entries) (h : (name, value) ∈ entries) :
    findEntry name entries = some value := by
  induction entries with
  | nil => cases h
  | cons head rest ih =>
    obtain ⟨hkey, hrest⟩ := List.pairwise_cons.mp ha
    rcases List.mem_cons.mp h with rfl | hmem
    · simp [findEntry]
    · have hne : name ≠ head.1 := fun he => String.lt_irrefl _ (he ▸ hkey _ hmem)
      rw [findEntry, if_neg hne]
      exact ih hrest hmem

/-- The entries are what look-ups find. -/
theorem find?_eq_some {m : NameMap α} {name : String} {value : α} :
    m.find? name = some value ↔ (name, value) ∈ m.entries :=
  ⟨mem_of_findEntry, findEntry_of_mem m.ascending⟩

@[simp] theorem find?_empty (name : String) : (∅ : NameMap α).find? name = none := rfl

@[simp] theorem find?_insert (m : NameMap α) (name key : String) (value : α) :
    (m.insert name value).find? key = if key = name then some value else m.find? key :=
  findEntry_insertEntry name key value m.entries

@[simp] theorem find?_erase (m : NameMap α) (name key : String) :
    (m.erase name).find? key = if key = name then none else m.find? key := by
  have h := findEntry_filter_ne name key m.entries
  simpa [find?, erase, filter] using h

end NameMap

end ApiStubs
