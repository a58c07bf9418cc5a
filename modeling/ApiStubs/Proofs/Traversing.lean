import ApiStubs.Disk.Traversal
import ApiStubs.Proofs.Places

/-!
# Proofs — Traversing — what a traversal visits

Whatever stands in the tree, a visit is at the path of its names below the start, and is one that
the rule keeps: `Disk.visited_descend`.

Where no link is below the start, a traversal comes to an end without a fault, and its visits are
those of a tree walk without look-ups (`Disk.visitsBelow`, `Disk.WellFormed.traverse_eq`): each
place once that can be come to by kept directories, in the order of the names on the way
(`Disk.WellFormed.mem_visitsBelow`, `Disk.WellFormed.visitsBelow_sorted`).
-/

namespace ApiStubs

open FilePath (IsFileName)

namespace Traversal

theorem mem_visits_append {first : Traversal} {second : Unit → Traversal} {visit : Visit}
    (h : visit ∈ (first.append second).visits) :
    visit ∈ first.visits ∨ visit ∈ (second ()).visits := by
  rw [append] at h
  split at h
  · exact .inl h
  · exact List.mem_append.mp h

theorem mem_visits_each {α : Type} {go : α → Traversal} {members : List α} {visit : Visit}
    (h : visit ∈ (each go members).visits) : ∃ a ∈ members, visit ∈ (go a).visits := by
  induction members with
  | nil => cases h
  | cons a rest ih =>
    rcases mem_visits_append h with hfirst | hrest
    · exact ⟨a, List.mem_cons_self, hfirst⟩
    · obtain ⟨b, hb, hvisit⟩ := ih hrest
      exact ⟨b, List.mem_cons_of_mem _ hb, hvisit⟩

/-- Traversals that go through make all their visits, one after another. -/
theorem each_eq_flatMap {α : Type} {go : α → Traversal} {members : List α}
    (h : ∀ a ∈ members, (go a).fault = none) :
    each go members = ⟨members.flatMap fun a => (go a).visits, none⟩ := by
  induction members with
  | nil => rfl
  | cons a rest ih =>
    obtain ⟨ha, hrest⟩ := List.forall_mem_cons.mp h
    rw [each, append, ha, ih hrest]
    rfl

end Traversal

namespace Disk

/-! ### What a directory lists -/

namespace WellFormed

variable {disk : Disk} (hdisk : disk.WellFormed)

include hdisk

/-- **What stands in a directory** is listed by its name. -/
theorem mem_listing {here : Location} {name : String} {entry : Entry} :
    (name, entry) ∈ disk.listing here ↔ disk.entryAt (here ++ [name]) = some entry := by
  rw [listing, List.mem_filterMap]
  constructor
  · rintro ⟨found, -, hfound⟩
    obtain ⟨other, hother, heq⟩ := Option.map_eq_some_iff.mp hfound
    cases heq
    exact hother
  · intro hentry
    exact ⟨name, hdisk.mem_namesIn.mpr ⟨entry, hentry⟩, by rw [hentry]; rfl⟩

/-- Only a directory has anything to list. -/
theorem listing_eq_nil {here : Location} (h : disk.entryAt here ≠ some .directory) :
    disk.listing here = [] := by
  refine List.eq_nil_iff_forall_not_mem.mpr fun child hchild => h ?_
  exact (hdisk.above (hdisk.mem_listing.mp hchild)).1

theorem listing_sorted (here : Location) :
    (disk.listing here).Pairwise fun a b => a.1 < b.1 := by
  rw [listing, List.pairwise_filterMap]
  refine (hdisk.namesIn_sorted here).imp fun hlt a ha b hb => ?_
  obtain ⟨_, -, rfl⟩ := Option.map_eq_some_iff.mp ha
  obtain ⟨_, -, rfl⟩ := Option.map_eq_some_iff.mp hb
  exact hlt

end WellFormed

/-! ### Visits of any tree -/

/-- What is visited is at the path of its names, and is kept by the rule. -/
structure Visited (rule : TraversalRule) (path : FilePath) (names : List String) (levels : Nat)
    (visit : Visit) : Prop where
  path : visit.path = path.joinAll visit.names
  below : ∃ more : Location, visit.names = names ++ more ∧ more.Proper ∧ more.length ≤ levels
  kept : rule.keep visit = true

/-- An entry that is visited, or below which something is, is kept; and the visit is that of the
entry itself, or one below something listed in the directory. -/
theorem visit_cases {disk : Disk} {rule : TraversalRule} {path : FilePath} {levels : Nat}
    {ancestors : List Ancestor} {names : List String} {entry : Entry} {visit : Visit}
    (h : visit ∈ (disk.descend rule path levels ancestors names entry).visits) :
    ∃ kind, rule.keep ⟨path.joinAll names, names, kind⟩ = true
      ∧ (visit = ⟨path.joinAll names, names, kind⟩
        ∨ ∃ fewer inside here child, levels = fewer + 1 ∧ child ∈ disk.listing here
          ∧ visit ∈ (disk.descend rule path fewer inside (names ++ [child.1]) child.2).visits) := by
  rw [descend.eq_def] at h
  dsimp only at h
  split at h
  · cases h
  rename_i kind entered _
  split at h
  · cases h
  rename_i hkeep
  rw [Bool.not_eq_true', Bool.not_eq_false] at hkeep
  refine ⟨kind, hkeep, ?_⟩
  split at h
  · split at h
    · exact .inl (List.mem_singleton.mp h)
    · rcases Traversal.mem_visits_append h with hfirst | hbelow
      · exact .inl (List.mem_singleton.mp hfirst)
      · obtain ⟨child, hchild, hvisit⟩ := Traversal.mem_visits_each hbelow
        exact .inr ⟨_, _, _, child, rfl, hchild, hvisit⟩
  · exact .inl (List.mem_singleton.mp h)

/-- A traversal visits by names that are listed, and only what its rule keeps. -/
theorem WellFormed.visited_descend {disk : Disk} (hdisk : disk.WellFormed) {rule : TraversalRule}
    {path : FilePath} {levels : Nat} {ancestors : List Ancestor} {names : List String}
    {entry : Entry} {visit : Visit}
    (h : visit ∈ (disk.descend rule path levels ancestors names entry).visits) :
    Visited rule path names levels visit := by
  induction levels generalizing ancestors names entry with
  | zero =>
    obtain ⟨kind, hkept, rfl | ⟨fewer, inside, here, child, hlevels, -, -⟩⟩ := visit_cases h
    · exact ⟨rfl, ⟨[], by simp [Location.Proper]⟩, hkept⟩
    · cases hlevels
  | succ levels ih =>
    obtain ⟨kind, hkept, rfl | ⟨fewer, inside, here, child, hlevels, hchild, hvisit⟩⟩ :=
      visit_cases h
    · exact ⟨rfl, ⟨[], by simp [Location.Proper]⟩, hkept⟩
    · cases hlevels
      obtain ⟨hpath, ⟨more, hnames, hproper, hlength⟩, hkept⟩ := ih hvisit
      have hname := (hdisk.above (hdisk.mem_listing.mp hchild)).2.1
      refine ⟨hpath, ⟨child.1 :: more, ?_, ?_, ?_⟩, hkept⟩
      · rw [hnames, List.append_assoc, List.singleton_append]
      · exact List.forall_mem_cons.mpr ⟨hname, hproper⟩
      · exact Nat.succ_le_succ hlength

/-- What is on the way to a visit is kept. -/
theorem WellFormed.kept_descend {disk : Disk} (hdisk : disk.WellFormed) {rule : TraversalRule}
    {path : FilePath} {levels : Nat} {ancestors : List Ancestor} {names above : List String}
    {entry : Entry} {visit : Visit}
    (h : visit ∈ (disk.descend rule path levels ancestors names entry).visits)
    (hnames : names <+: above) (habove : above <+: visit.names) :
    ∃ kind, rule.keep ⟨path.joinAll above, above, kind⟩ = true := by
  induction levels generalizing ancestors names entry with
  | zero =>
    obtain ⟨kind, hkept, rfl | ⟨fewer, inside, here, child, hlevels, -, -⟩⟩ := visit_cases h
    · rw [habove.eq_of_length_le hnames.length_le]
      exact ⟨kind, hkept⟩
    · cases hlevels
  | succ levels ih =>
    obtain ⟨kind, hkept, rfl | ⟨fewer, inside, here, child, hlevels, -, hvisit⟩⟩ := visit_cases h
    · rw [habove.eq_of_length_le hnames.length_le]
      exact ⟨kind, hkept⟩
    cases hlevels
    obtain ⟨-, ⟨more, hmore, -⟩, -⟩ := hdisk.visited_descend hvisit
    -- the place is the entry, or is on the way from the one that is listed
    rcases Nat.lt_or_ge names.length above.length with hlong | hshort
    · refine ih hvisit (List.prefix_of_prefix_length_le ⟨more, hmore.symm⟩ habove ?_)
      simpa using hlong
    · rw [← hnames.eq_of_length_le hshort]
      exact ⟨kind, hkept⟩

/-- **Every visit** of a traversal is at a path of file names below the start, and is kept. -/
theorem WellFormed.visited_traverse {disk : Disk} (hdisk : disk.WellFormed) {rule : TraversalRule}
    {path : FilePath} {visit : Visit} (h : visit ∈ (disk.traverse rule path).visits) :
    Visited rule path [] rule.levels visit := by
  rw [traverse] at h
  split at h
  · cases h
  · exact hdisk.visited_descend h

theorem WellFormed.kept_traverse {disk : Disk} (hdisk : disk.WellFormed) {rule : TraversalRule}
    {path : FilePath} {visit : Visit} (h : visit ∈ (disk.traverse rule path).visits)
    {above : List String} (habove : above <+: visit.names) :
    ∃ kind, rule.keep ⟨path.joinAll above, above, kind⟩ = true := by
  rw [traverse] at h
  split at h
  · cases h
  · exact hdisk.kept_descend h List.nil_prefix habove

end Disk

/-! ### Visits below a directory without links -/

/-- What an entry is, a link read as itself. -/
def Entry.kind : Entry → Kind
  | .directory => .directory
  | .file _ => .file
  | .link _ => .link

theorem Entry.kind_eq_directory {entry : Entry} : entry.kind = .directory ↔ entry = .directory := by
  cases entry <;> simp [kind]

namespace Disk

/-- No link is at a location or below it. -/
def LinkFree (disk : Disk) (root : Location) : Prop :=
  ∀ place ∈ disk.entries, root <+: place.1 → place.2.kind ≠ .link

instance (disk : Disk) (root : Location) : Decidable (disk.LinkFree root) :=
  inferInstanceAs (Decidable (∀ place ∈ disk.entries, root <+: place.1 → place.2.kind ≠ .link))

/-- The visit of an entry below a location. -/
def visitAt (root : Location) (names : List String) (entry : Entry) : Visit :=
  ⟨Location.path (root ++ names), names, entry.kind⟩

/-- The visits of an entry and of what is below it, at most `levels` levels down, where no path has
to be looked up. -/
def visitsBelow (disk : Disk) (keep : Visit → Bool) (root : Location) :
    (levels : Nat) → List String → Entry → List Visit
  | 0, names, entry => if keep (visitAt root names entry) then [visitAt root names entry] else []
  | levels + 1, names, entry =>
    if keep (visitAt root names entry) then
      visitAt root names entry :: (disk.listing (root ++ names)).flatMap fun child =>
        visitsBelow disk keep root levels (names ++ [child.1]) child.2
    else []

/-- There is an entry whose visit is kept. -/
def Kept (disk : Disk) (keep : Visit → Bool) (root : Location) (names : List String) : Prop :=
  ∃ entry, disk.entryAt (root ++ names) = some entry ∧ keep (visitAt root names entry) = true

theorem LinkFree.kind_ne {disk : Disk} {root names : Location} {entry : Entry}
    (h : disk.LinkFree root) (hentry : disk.entryAt (root ++ names) = some entry) :
    entry.kind ≠ .link := by
  by_cases hnil : root ++ names = []
  · rw [hnil] at hentry
    cases hentry
    decide
  · exact h _ (mem_entries_of_entryAt hnil hentry) (List.prefix_append root names)

theorem LinkFree.below {disk : Disk} {root : Location} (h : disk.LinkFree root)
    (names : Location) : disk.LinkFree (root ++ names) :=
  fun place hplace hbelow => h place hplace ((List.prefix_append root names).trans hbelow)

theorem inspect_of_kind_ne {disk : Disk} {rule : TraversalRule} {ancestors : List Ancestor}
    {atStart : Bool} {path : FilePath} {entry : Entry} (h : entry.kind ≠ .link) :
    disk.inspect rule ancestors atStart path entry = .ok (entry.kind, entry = .directory) := by
  cases entry with
  | directory => rfl
  | file content => rfl
  | link target => exact absurd rfl h

namespace WellFormed

variable {disk : Disk} (hdisk : disk.WellFormed) {root : Location}

include hdisk

/-- What a traversal does at an entry that is no link. -/
theorem descend_step (hfree : disk.LinkFree root) {rule : TraversalRule} {levels : Nat}
    {ancestors : List Ancestor} {names : List String} {entry : Entry}
    (hentry : disk.entryAt (root ++ names) = some entry) :
    disk.descend rule root.path levels ancestors names entry =
      if !rule.keep (visitAt root names entry) then ⟨[], none⟩
      else match levels, decide (entry = .directory) with
        | levels + 1, true =>
          match disk.find true (Location.path (root ++ names)) with
          | .error e => ⟨[visitAt root names entry],
              some (.traversal (Location.path (root ++ names)) e)⟩
          | .ok (here, _) => Traversal.append ⟨[visitAt root names entry], none⟩ fun _ =>
              .each (fun child => disk.descend rule root.path levels
                (⟨Location.path (root ++ names), here⟩ :: ancestors) (names ++ [child.1]) child.2)
                (disk.listing here)
        | _, _ => ⟨[visitAt root names entry], none⟩ := by
  have hproper := Location.Proper.of_append (hdisk.proper hentry)
  have hpath := (Location.path_append hproper.1 hproper.2).symm
  have hinspect : ∀ atStart, disk.inspect rule ancestors atStart (Location.path (root ++ names))
      entry = .ok (entry.kind, entry = .directory) :=
    fun _ => inspect_of_kind_ne (hfree.kind_ne hentry)
  rw [descend.eq_def]
  simp only [hpath, hinspect]
  rfl

/-- A traversal visits what is below a directory without links, where the directories that it goes
down into can be looked up. -/
theorem descend_eq (hfree : disk.LinkFree root) {rule : TraversalRule} {levels : Nat}
    {ancestors : List Ancestor} {names : List String} {entry : Entry}
    (hentry : disk.entryAt (root ++ names) = some entry)
    (hshort : ∀ more : Location, more.length < levels →
      disk.Kept rule.keep root (names ++ more) →
        (Location.path (root ++ (names ++ more))).text.utf8ByteSize ≤ maxPathBytes) :
    disk.descend rule root.path levels ancestors names entry
      = ⟨disk.visitsBelow rule.keep root levels names entry, none⟩ := by
  induction levels generalizing ancestors names entry with
  | zero =>
    rw [hdisk.descend_step hfree hentry, visitsBelow]
    cases rule.keep (visitAt root names entry) <;> rfl
  | succ levels ih =>
    rw [hdisk.descend_step hfree hentry, visitsBelow]
    by_cases hkeep : rule.keep (visitAt root names entry) = true
    swap
    · simp [hkeep]
    by_cases hdir : entry = .directory
    swap
    · rw [hdisk.listing_eq_nil (by simp [hentry, hdir])]
      simp [hkeep, hdir]
    subst hdir
    -- The directory is entered, so its own path is one of those that are short enough.
    have hfits := hshort [] (Nat.zero_lt_succ levels)
      ⟨_, by rwa [List.append_nil], by rwa [List.append_nil]⟩
    rw [List.append_nil] at hfits
    have hfind := hdisk.find_path hentry (by simp) true
    rw [if_neg (Nat.not_lt.mpr hfits)] at hfind
    have hchildren : ∀ inside, ∀ child ∈ disk.listing (root ++ names),
        disk.descend rule root.path levels inside (names ++ [child.1]) child.2
          = ⟨disk.visitsBelow rule.keep root levels (names ++ [child.1]) child.2, none⟩ := by
      intro inside child hchild
      have hthere := hdisk.mem_listing.mp hchild
      rw [List.append_assoc] at hthere
      refine ih hthere fun more hmore hkept => ?_
      rw [List.append_assoc] at hkept ⊢
      exact hshort (child.1 :: more) (Nat.succ_lt_succ hmore) hkept
    simp only [hkeep, hfind, decide_true, Bool.not_true, Bool.false_eq_true, if_false, if_true]
    rw [Traversal.append, Traversal.each_eq_flatMap fun child hchild => by
      rw [hchildren _ child hchild]]
    have hvisits := List.flatMap_congr fun child hchild =>
      congrArg Traversal.visits (hchildren (⟨Location.path (root ++ names), root ++ names⟩
        :: ancestors) child hchild)
    simp only [hvisits]
    rfl

/-- A traversal that starts at a directory without links. -/
theorem traverse_eq (hroot : disk.Canonical root) (hfree : disk.LinkFree root)
    {rule : TraversalRule}
    (hshort : ∀ names : Location, disk.Kept rule.keep root names → names.length < rule.levels →
      (Location.path (root ++ names)).text.utf8ByteSize ≤ maxPathBytes) :
    disk.traverse rule root.path
      = ⟨disk.visitsBelow rule.keep root rule.levels [] .directory, none⟩ := by
  have hentry := hroot.entryAt
  rw [traverse, hroot.find hdisk]
  rw [← List.append_nil root] at hentry
  exact hdisk.descend_eq hfree hentry fun more hmore hkept => hshort more hkept hmore

end WellFormed

theorem kept_iff {disk : Disk} {keep : Visit → Bool} {root names : Location} {entry : Entry}
    (h : disk.entryAt (root ++ names) = some entry) :
    disk.Kept keep root names ↔ keep (visitAt root names entry) = true := by
  rw [Kept, h]
  simp

/-- The visit is that of an entry at most `levels` levels below, and kept entries lead to it. -/
def Reached (disk : Disk) (keep : Visit → Bool) (root : Location) (levels : Nat)
    (names : List String) (visit : Visit) : Prop :=
  ∃ more found, more.length ≤ levels ∧ disk.entryAt (root ++ (names ++ more)) = some found
    ∧ visit = visitAt root (names ++ more) found
    ∧ ∀ above, above <+: more → disk.Kept keep root (names ++ above)

theorem Reached.kept {disk : Disk} {keep : Visit → Bool} {root : Location} {levels : Nat}
    {names : List String} {visit : Visit} (h : disk.Reached keep root levels names visit) :
    disk.Kept keep root names := by
  obtain ⟨more, found, -, -, -, hkept⟩ := h
  simpa using hkept [] List.nil_prefix

/-- A kept entry is reached itself. -/
theorem reached_itself {disk : Disk} {keep : Visit → Bool} {root : Location} {levels : Nat}
    {names : List String} {entry : Entry} (hentry : disk.entryAt (root ++ names) = some entry)
    (hkeep : keep (visitAt root names entry) = true) :
    disk.Reached keep root levels names (visitAt root names entry) := by
  refine ⟨[], entry, Nat.zero_le _, by rwa [List.append_nil], by rw [List.append_nil], ?_⟩
  intro above habove
  rw [List.prefix_nil.mp habove, List.append_nil]
  exact (kept_iff hentry).mpr hkeep

/-- What is reached otherwise is reached from something that the directory lists. -/
theorem WellFormed.reached_succ {disk : Disk} (hdisk : disk.WellFormed) {keep : Visit → Bool}
    {root : Location} {levels : Nat} {names : List String} {entry : Entry} {visit : Visit}
    (hentry : disk.entryAt (root ++ names) = some entry)
    (hkeep : keep (visitAt root names entry) = true) :
    disk.Reached keep root (levels + 1) names visit ↔ visit = visitAt root names entry
      ∨ ∃ child ∈ disk.listing (root ++ names),
        disk.Reached keep root levels (names ++ [child.1]) visit := by
  constructor
  · rintro ⟨more, found, hlength, hfound, rfl, hkept⟩
    cases more with
    | nil =>
      rw [List.append_nil, hentry] at hfound
      cases hfound
      exact .inl (by rw [List.append_nil])
    | cons name rest =>
      have hsplit : ∀ above : Location, names ++ name :: above = names ++ [name] ++ above :=
        fun above => by simp
      obtain ⟨child, hchild, -⟩ := hkept [name] (by simp)
      have hlisted := hdisk.mem_listing.mpr (by rwa [List.append_assoc] : disk.entryAt
        (root ++ names ++ [name]) = some child)
      rw [hsplit] at hfound ⊢
      refine .inr ⟨(name, child), hlisted, rest, found, Nat.le_of_succ_le_succ hlength, hfound, rfl,
        fun above habove => ?_⟩
      have hnext := hkept (name :: above) (List.cons_prefix_cons.mpr ⟨rfl, habove⟩)
      rwa [hsplit] at hnext
  · rintro (rfl | ⟨child, hchild, more, found, hlength, hfound, rfl, hkept⟩)
    · exact reached_itself hentry hkeep
    · have hsplit : ∀ above : Location, names ++ [child.1] ++ above = names ++ child.1 :: above :=
        fun above => by simp
      rw [hsplit] at hfound ⊢
      refine ⟨child.1 :: more, found, Nat.succ_le_succ hlength, hfound, rfl, fun above habove => ?_⟩
      rcases List.prefix_cons_iff.mp habove with rfl | ⟨rest, rfl, hrest⟩
      · rw [List.append_nil]
        exact (kept_iff hentry).mpr hkeep
      · have hnext := hkept rest hrest
        rwa [hsplit] at hnext

/-- From an entry that is not kept nothing is visited, and nothing is reached. -/
theorem mem_visitsBelow_of_not_keep {disk : Disk} {keep : Visit → Bool} {root : Location}
    {levels : Nat} {names : List String} {entry : Entry} {visit : Visit}
    (hentry : disk.entryAt (root ++ names) = some entry)
    (hkeep : ¬ keep (visitAt root names entry) = true) :
    visit ∈ disk.visitsBelow keep root levels names entry
      ↔ disk.Reached keep root levels names visit := by
  have hnone : disk.visitsBelow keep root levels names entry = [] := by
    cases levels <;> rw [visitsBelow, if_neg hkeep]
  rw [hnone]
  exact ⟨fun h => (nomatch h), fun h => absurd ((kept_iff hentry).mp h.kept) hkeep⟩

/-- **Each place is visited** that kept entries lead to, and no other. -/
theorem WellFormed.mem_visitsBelow {disk : Disk} (hdisk : disk.WellFormed) {keep : Visit → Bool}
    {root : Location} {levels : Nat} {names : List String} {entry : Entry} {visit : Visit}
    (hentry : disk.entryAt (root ++ names) = some entry) :
    visit ∈ disk.visitsBelow keep root levels names entry
      ↔ disk.Reached keep root levels names visit := by
  induction levels generalizing names entry with
  | zero =>
    by_cases hkeep : keep (visitAt root names entry) = true
    swap
    · exact mem_visitsBelow_of_not_keep hentry hkeep
    rw [visitsBelow, if_pos hkeep, List.mem_singleton]
    constructor
    · rintro rfl
      exact reached_itself hentry hkeep
    · rintro ⟨more, found, hlength, hfound, rfl, -⟩
      obtain rfl := List.eq_nil_of_length_eq_zero (Nat.le_zero.mp hlength)
      rw [List.append_nil, hentry] at hfound
      cases hfound
      rw [List.append_nil]
  | succ levels ih =>
    by_cases hkeep : keep (visitAt root names entry) = true
    swap
    · exact mem_visitsBelow_of_not_keep hentry hkeep
    rw [visitsBelow, if_pos hkeep, List.mem_cons, List.mem_flatMap, hdisk.reached_succ hentry hkeep]
    refine or_congr_right (exists_congr fun child => and_congr_right fun hchild => ih ?_)
    rw [← List.append_assoc]
    exact hdisk.mem_listing.mp hchild

/-- Visits come in the order of the names on the way, a directory before what is below it. -/
theorem WellFormed.visitsBelow_sorted {disk : Disk} (hdisk : disk.WellFormed)
    (keep : Visit → Bool) {root : Location} (levels : Nat) {names : List String} {entry : Entry}
    (hentry : disk.entryAt (root ++ names) = some entry) :
    (disk.visitsBelow keep root levels names entry).Pairwise fun a b => a.names < b.names := by
  induction levels generalizing names entry with
  | zero =>
    rw [visitsBelow]
    split <;> simp
  | succ levels ih =>
    rw [visitsBelow]
    split
    swap
    · exact .nil
    -- what is below an entry is at the entry's names and more
    have hbelow : ∀ child ∈ disk.listing (root ++ names), ∀ visit ∈
        disk.visitsBelow keep root levels (names ++ [child.1]) child.2,
        ∃ rest, visit.names = names ++ child.1 :: rest := by
      intro child hchild visit hvisit
      have hthere := hdisk.mem_listing.mp hchild
      rw [List.append_assoc] at hthere
      obtain ⟨rest, found, -, -, rfl, -⟩ := (hdisk.mem_visitsBelow hthere).mp hvisit
      exact ⟨rest, by simp [visitAt]⟩
    refine List.pairwise_cons.mpr ⟨fun visit hvisit => ?_, List.pairwise_flatMap.mpr ⟨?_, ?_⟩⟩
    · obtain ⟨child, hchild, hvisit⟩ := List.mem_flatMap.mp hvisit
      obtain ⟨rest, hrest⟩ := hbelow child hchild visit hvisit
      have hlt : names ++ [] < names ++ child.1 :: rest :=
        List.append_left_lt (List.nil_lt_cons child.1 rest)
      rw [hrest]
      rwa [List.append_nil] at hlt
    · intro child hchild
      have hthere := hdisk.mem_listing.mp hchild
      rw [List.append_assoc] at hthere
      exact ih hthere
    · refine (hdisk.listing_sorted (root ++ names)).imp_of_mem fun ha hb hlt x hx y hy => ?_
      obtain ⟨restx, hx⟩ := hbelow _ ha x hx
      obtain ⟨resty, hy⟩ := hbelow _ hb y hy
      rw [hx, hy]
      exact List.append_left_lt (List.cons_lt_cons_iff.mpr (.inl hlt))

end Disk

end ApiStubs
