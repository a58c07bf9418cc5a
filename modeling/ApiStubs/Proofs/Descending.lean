import ApiStubs.Proofs.Growing
import ApiStubs.Proofs.Traversing

/-!
# Proofs — Descending — paths in a tree without links

Where a tree holds no link, a path is walked piece by piece with nothing to go on from elsewhere.
What it comes to, a directory apart, has the last piece for its name (`Disk.WellFormed.named_of_walk`).

A path without `..` only goes down: the location it leads to is that of its names behind each other
(`Disk.location_of_walk`).  So what such a path leads to in a tree that has grown, it led to already
if it was there (`Disk.WellFormed.walk_earlier`).
-/

namespace ApiStubs.Disk

/-- The tree holds no link. -/
def Linkless (disk : Disk) : Prop := ∀ here target, disk.entryAt here ≠ some (.link target)

theorem LinkFree.linkless {disk : Disk} (h : disk.LinkFree []) : disk.Linkless :=
  fun _ _ hentry => h.kind_ne hentry rfl

theorem Linkless.linkFree {disk : Disk} (h : disk.Linkless) (hdisk : disk.WellFormed)
    (root : Location) : disk.LinkFree root := by
  rintro ⟨here, entry⟩ hplace -
  have hentry := hdisk.entryAt_of_mem hplace
  cases entry with
  | directory => simp [Entry.kind]
  | file content => simp [Entry.kind]
  | link target => exact absurd hentry (h here target)

theorem Grown.linkless {disk later : Disk} (h : Grown disk later) (hlater : later.Linkless) :
    disk.Linkless := by
  intro here target hlink
  obtain ⟨found, hfound, hblank⟩ := h.entryAt hlink
  exact hlater here target (Entry.blank_eq_link.mp hblank ▸ hfound)

theorem Widens.linkless {disk later : Disk} (h : Widens disk later) (hdisk : disk.Linkless) :
    later.Linkless :=
  fun here target hlink => (h.added here _ hlink).elim (hdisk here target) nofun

theorem SameShape.linkless {disk later : Disk} (h : SameShape disk later) (hdisk : disk.Linkless) :
    later.Linkless := by
  intro here target hlink
  have hshape := h.shapes here
  rw [shapeAt_of_entryAt hlink] at hshape
  obtain ⟨entry, hentry, hblank⟩ := shapeAt_eq_some.mp hshape.symm
  exact hdisk here target (Entry.blank_eq_link.mp hblank ▸ hentry)

/-- Without links, no piece comes to one. -/
theorem Linkless.stride_ne_link {disk : Disk} (hfree : disk.Linkless) (here next : Location)
    (piece target : String) : disk.stride here piece ≠ .link next target := by
  rcases disk.looksUp_or here piece with hlook | ⟨cause, hno⟩ | ⟨-, ⟨-, hno⟩ | ⟨-, hno⟩⟩
  · rw [hlook.stride]
    cases hentry : disk.entryAt (here ++ [piece]) with
    | none => simp
    | some entry =>
      cases entry with
      | directory => simp
      | file content => simp
      | link target => exact absurd hentry (hfree _ target)
  all_goals
    rw [hno]
    simp

/-- Without links, it does not matter whether they are followed. -/
theorem Linkless.walk_follow {disk : Disk} (hfree : disk.Linkless) (follow : Bool) (links : Nat)
    (here : Location) (pieces : List String) :
    disk.walk follow links here pieces = disk.walk true links here pieces := by
  induction pieces generalizing here with
  | nil => rw [walk_nil, walk_nil]
  | cons piece rest ih =>
    rw [walk_cons, walk_cons]
    cases hstride : disk.stride here piece with
    | reaches there => exact ih there
    | link next target => exact absurd hstride (hfree.stride_ne_link here next piece target)
    | refused cause => rfl
    | missing next => rfl
    | file next content => rfl

theorem Linkless.resolve_follow {disk : Disk} (hfree : disk.Linkless) (follow : Bool)
    (path : FilePath) : disk.resolve follow path = disk.resolve true path := by
  rw [resolve, resolve, hfree.walk_follow]

theorem Linkless.find_follow {disk : Disk} (hfree : disk.Linkless) (follow : Bool)
    (path : FilePath) : disk.find follow path = disk.find true path := by
  rw [find, find, hfree.resolve_follow]

/-- A piece that leads on leads from a directory: back to it, up, or to a directory in it. -/
theorem of_stride_reaches {disk : Disk} {here there : Location} {piece : String}
    (h : disk.stride here piece = .reaches there) :
    disk.entryAt here = some .directory ∧
      ((FilePath.isFiller piece = true ∧ there = here) ∨ (piece = ".." ∧ there = here.dropLast)
        ∨ disk.LooksUp here piece ∧ there = here ++ [piece]
          ∧ disk.entryAt there = some .directory) := by
  rcases disk.looksUp_or here piece with hlook | ⟨cause, hno⟩ | ⟨hdir, ⟨hpiece, hon⟩ | ⟨hpiece, hon⟩⟩
  · refine ⟨hlook.directory, .inr (.inr ⟨hlook, ?_⟩)⟩
    rw [hlook.stride] at h
    split at h <;> cases h
    exact ⟨rfl, ‹_›⟩
  · rw [hno] at h
    cases h
  · rw [hon] at h
    cases h
    exact ⟨hdir, .inl ⟨hpiece, rfl⟩⟩
  · rw [hon] at h
    cases h
    exact ⟨hdir, .inr (.inl ⟨hpiece, rfl⟩)⟩

/-- What a piece leads on to is a directory. -/
theorem WellFormed.directory_of_reaches {disk : Disk} (hdisk : disk.WellFormed)
    {here there : Location} {piece : String} (h : disk.stride here piece = .reaches there) :
    disk.entryAt there = some .directory := by
  obtain ⟨hhere, ⟨-, rfl⟩ | ⟨-, rfl⟩ | ⟨-, -, hthere⟩⟩ := of_stride_reaches h
  · exact hhere
  · rcases List.eq_nil_or_concat' here with rfl | ⟨above, name, rfl⟩
    · rfl
    · rw [List.dropLast_concat]
      exact (hdisk.above hhere).1
  · exact hthere

/-! ### What a path is called by -/

/-- **The last piece of a path** is the name of what it leads to, unless that is a directory. -/
theorem WellFormed.named_of_walk {disk : Disk} (hdisk : disk.WellFormed) (hfree : disk.Linkless)
    {links : Nat} {here : Location} {pieces : List String} (hpieces : pieces ≠ []) {target : Target}
    (h : disk.walk true links here pieces = .ok target) :
    (∃ there, target = .found there .directory)
      ∨ ∃ above name, disk.LooksUp above name ∧ pieces.getLast? = some name
        ∧ (target = .free (above ++ [name])
          ∨ ∃ content, target = .found (above ++ [name]) (.file content)) := by
  induction pieces generalizing here with
  | nil => exact absurd rfl hpieces
  | cons piece rest ih =>
    cases goes_of_walk h with
    | @on _ _ there hstride hrest =>
      by_cases hlast : rest = []
      · subst hlast
        rw [walk_nil, hdisk.directory_of_reaches hstride] at hrest
        cases hrest
        exact .inl ⟨there, rfl⟩
      · rcases ih hlast hrest with hdir | ⟨above, name, hlook, hname, htarget⟩
        · exact .inl hdir
        · refine .inr ⟨above, name, hlook, ?_, htarget⟩
          rw [List.getLast?_cons_of_ne_nil hlast, hname]
    | free hstride hlast =>
      obtain ⟨hlook, rfl⟩ := looksUp_of_missing hstride
      exact .inr ⟨here, piece, hlook, by rw [hlast, List.getLast?_singleton], .inl rfl⟩
    | file hstride hlast =>
      obtain ⟨hlook, rfl⟩ := looksUp_of_file hstride
      exact .inr ⟨here, piece, hlook, by rw [hlast, List.getLast?_singleton], .inr ⟨_, rfl⟩⟩
    | link hfollow _ _ => cases hfollow
    | along hstride _ => exact absurd hstride (hfree.stride_ne_link _ _ _ _)

/-! ### Paths that only go down -/

/-- **A path without `..`** leads to the location of its names. -/
theorem location_of_walk {disk : Disk} (hfree : disk.Linkless) {links : Nat}
    {here there : Location} {pieces : List String} {entry : Entry} (hup : ".." ∉ pieces)
    (h : disk.walk true links here pieces = .ok (.found there entry)) :
    there = here ++ pieces.filter fun piece => !FilePath.isFiller piece := by
  induction pieces generalizing here with
  | nil =>
    rw [walk_nil] at h
    split at h <;> cases h
    rw [List.filter_nil, List.append_nil]
  | cons piece rest ih =>
    rw [List.mem_cons, not_or] at hup
    cases goes_of_walk h with
    | on hstride hrest =>
      rw [ih hup.2 hrest]
      obtain ⟨-, ⟨hfiller, rfl⟩ | ⟨hpiece, -⟩ | ⟨hlook, rfl, -⟩⟩ := of_stride_reaches hstride
      · rw [List.filter_cons_of_neg (by simp [hfiller])]
      · exact absurd hpiece.symm hup.1
      · rw [List.filter_cons_of_pos (by simp [hlook.no_filler]), List.append_assoc,
          List.singleton_append]
    | file hstride hlast =>
      obtain ⟨hlook, rfl⟩ := looksUp_of_file hstride
      rw [hlast, List.filter_cons_of_pos (by simp [hlook.no_filler]), List.filter_nil]
    | link hfollow _ _ => cases hfollow
    | along hstride _ => exact absurd hstride (hfree.stride_ne_link _ _ _ _)

namespace WellFormed

variable {disk later : Disk} (hdisk : disk.WellFormed)

include hdisk

/-- A directory of the later tree was there before if something at it or below it was. -/
theorem directory_earlier (hgrown : Grown disk later) {here names : Location} {shape : Entry}
    (hdir : later.entryAt here = some .directory)
    (hthere : disk.shapeAt (here ++ names) = some shape) : disk.entryAt here = some .directory := by
  by_cases hnames : names = []
  · rw [hnames, List.append_nil] at hthere
    have hshape := hgrown.kept here shape hthere
    rw [shapeAt_eq_directory.mpr hdir] at hshape
    cases hshape
    exact shapeAt_eq_directory.mp hthere
  · obtain ⟨entry, hentry, -⟩ := shapeAt_eq_some.mp hthere
    exact hdisk.directory_above hnames hentry

/-- **What is found later, and was there, was found there.** -/
theorem walk_earlier (hgrown : Grown disk later) (hfree : later.Linkless) {links : Nat}
    {here there : Location} {pieces : List String} {entry found : Entry} (hup : ".." ∉ pieces)
    (h : later.walk true links here pieces = .ok (.found there found))
    (hentry : disk.entryAt there = some entry) :
    disk.walk true links here pieces = .ok (.found there entry) := by
  have hshape := shapeAt_of_entryAt hentry
  induction pieces generalizing here with
  | nil =>
    rw [walk_nil] at h ⊢
    split at h <;> cases h
    rw [hentry]
  | cons piece rest ih =>
    rw [List.mem_cons, not_or] at hup
    rw [walk_cons_follow]
    cases goes_of_walk h with
    | @on _ _ next hstride hrest =>
      -- What was there is below the place that the piece leads to, which was there too.
      have hlocation := location_of_walk hfree hup.2 hrest
      have hbehind := ih hup.2 hrest
      obtain ⟨hhere, ⟨hfiller, hsame⟩ | ⟨hpiece, -⟩ | ⟨hlook, rfl, hthere⟩⟩ :=
        of_stride_reaches hstride
      · subst next
        rw [hlocation] at hshape
        have hstill := hdisk.directory_earlier hgrown hhere hshape
        have hback : disk.stride here piece = .reaches here := by
          rw [Disk.stride, if_neg (not_not_intro hstill), if_pos hfiller]
        simp only [hback]
        exact hbehind
      · exact absurd hpiece.symm hup.1
      · rw [hlocation] at hshape
        have hnext := hdisk.directory_earlier hgrown hthere hshape
        have hon : disk.LooksUp here piece :=
          ⟨(hdisk.above hnext).1, hlook.no_filler, hlook.not_up, hlook.short⟩
        simp only [hon.stride, hnext]
        exact hbehind
    | file hstride hlast =>
      obtain ⟨hlook, rfl⟩ := looksUp_of_file hstride
      have hon : disk.LooksUp here piece :=
        ⟨(hdisk.above hentry).1, hlook.no_filler, hlook.not_up, hlook.short⟩
      -- It is a file now, so it was one, with another content perhaps.
      have hfile := hgrown.kept _ _ hshape
      rw [shapeAt_of_entryAt (entryAt_of_stride_file hstride)] at hfile
      obtain ⟨other, rfl⟩ := Entry.blank_eq_file.mp (Option.some.inj hfile).symm
      simp only [hon.stride, hentry, hlast, if_true]
    | link hfollow _ _ => cases hfollow
    | along hstride _ => exact absurd hstride (hfree.stride_ne_link _ _ _ _)

/-- The same holds of paths, which are looked up by walks. -/
theorem find_earlier (hgrown : Grown disk later) (hfree : later.Linkless) {path : FilePath}
    {here : Location} {entry found : Entry} (hup : ".." ∉ path.pieces)
    (h : later.find true path = .ok (here, found)) (hentry : disk.entryAt here = some entry) :
    disk.find true path = .ok (here, entry) := by
  have hresolve := resolve_of_find h
  rw [resolve, hgrown.workingDirectory] at hresolve
  rw [find, resolve]
  split at hresolve
  · cases hresolve
  split at hresolve
  · cases hresolve
  rename_i hempty hlong
  rw [if_neg hempty, if_neg hlong, hdisk.walk_earlier hgrown hfree hup hresolve hentry]

end WellFormed

end ApiStubs.Disk
