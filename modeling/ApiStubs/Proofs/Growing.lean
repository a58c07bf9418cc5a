import ApiStubs.Proofs.Writing

/-!
# Proofs — Growing — where paths lead while files are written

Making directories and writing files adds entries to a tree, and exchanges what its files hold; an
entry that was there stays, and stays what it was (`Disk.Grown`).  What a path led to is then led
to still (`Disk.Grown.walk`), and so is a file that was written by its path
(`Disk.Grown.writeText_again`).

Trees that differ in nothing but what their files hold have one shape (`Disk.SameShape`): every path
comes to the same in both, and a change that fails in one of them fails in the other for the same
reason (`Disk.SameShape.resolve`).
-/

namespace ApiStubs

/-- The entry, whatever it holds if it is a file. -/
def Entry.blank : Entry → Entry
  | .directory => .directory
  | .file _ => .file (.text "")
  | .link target => .link target

@[simp] theorem Entry.blank_directory : Entry.directory.blank = .directory := rfl

@[simp] theorem Entry.blank_file (content : Content) :
    (Entry.file content).blank = .file (.text "") := rfl

@[simp] theorem Entry.blank_link (target : String) : (Entry.link target).blank = .link target := rfl

theorem Entry.blank_eq_directory {entry : Entry} : entry.blank = .directory ↔ entry = .directory := by
  cases entry <;> simp

theorem Entry.blank_eq_file {entry : Entry} {content : Content} :
    entry.blank = (Entry.file content).blank ↔ ∃ other, entry = .file other := by
  cases entry <;> simp

theorem Entry.blank_eq_link {entry : Entry} {target : String} :
    entry.blank = .link target ↔ entry = .link target := by
  cases entry <;> simp

namespace Disk

/-- What stands at a location, whatever the files hold. -/
def shapeAt (disk : Disk) (here : Location) : Option Entry := (disk.entryAt here).map Entry.blank

/-- Where a path leads, whatever the files hold. -/
def Target.blank : Target → Target
  | .found here entry => .found here entry.blank
  | .free here => .free here

/-- What one piece of a path comes to, whatever the files hold. -/
def Stride.blank : Stride → Stride
  | .file next _ => .file next (.text "")
  | other => other

theorem shapeAt_eq_some {disk : Disk} {here : Location} {shape : Entry} :
    disk.shapeAt here = some shape ↔ ∃ entry, disk.entryAt here = some entry ∧ entry.blank = shape :=
  Option.map_eq_some_iff

theorem shapeAt_of_entryAt {disk : Disk} {here : Location} {entry : Entry}
    (h : disk.entryAt here = some entry) : disk.shapeAt here = some entry.blank := by
  rw [shapeAt, h, Option.map_some]

theorem shapeAt_eq_none {disk : Disk} {here : Location} :
    disk.shapeAt here = none ↔ disk.entryAt here = none :=
  Option.map_eq_none_iff

theorem shapeAt_eq_directory {disk : Disk} {here : Location} :
    disk.shapeAt here = some .directory ↔ disk.entryAt here = some .directory := by
  simp only [shapeAt_eq_some, Entry.blank_eq_directory, exists_eq_right]

/-- What a piece comes to is told by the shape of the tree. -/
theorem blank_stride (disk : Disk) (here : Location) (piece : String) :
    (disk.stride here piece).blank =
      if disk.shapeAt here ≠ some .directory then .refused .notDirectory
      else if FilePath.isFiller piece then .reaches here
      else if piece = ".." then .reaches here.dropLast
      else if maxNameBytes < piece.utf8ByteSize then .refused .nameTooLong
      else match disk.shapeAt (here ++ [piece]) with
        | none => .missing (here ++ [piece])
        | some .directory => .reaches (here ++ [piece])
        | some (.file content) => .file (here ++ [piece]) content
        | some (.link target) => .link (here ++ [piece]) target := by
  rw [stride]
  by_cases hdir : disk.entryAt here = some .directory
  swap
  · rw [if_pos hdir, if_pos (mt shapeAt_eq_directory.mp hdir)]
    rfl
  rw [if_neg (not_not_intro hdir), if_neg (not_not_intro (shapeAt_eq_directory.mpr hdir))]
  by_cases hfiller : FilePath.isFiller piece
  · rw [if_pos hfiller, if_pos hfiller]
    rfl
  rw [if_neg hfiller, if_neg hfiller]
  by_cases hup : piece = ".."
  · rw [if_pos hup, if_pos hup]
    rfl
  rw [if_neg hup, if_neg hup]
  by_cases hlong : maxNameBytes < piece.utf8ByteSize
  · rw [if_pos hlong, if_pos hlong]
    rfl
  rw [if_neg hlong, if_neg hlong, shapeAt]
  cases disk.entryAt (here ++ [piece]) with
  | none => rfl
  | some entry => cases entry <;> rfl

theorem Stride.blank_eq_reaches {stride : Stride} {here : Location} :
    stride.blank = .reaches here ↔ stride = .reaches here := by
  cases stride <;> simp [blank]

theorem Stride.blank_eq_file {stride : Stride} {next : Location} {content : Content} :
    stride.blank = (Stride.file next content).blank ↔ ∃ other, stride = .file next other := by
  cases stride <;> simp [blank]

theorem Stride.blank_eq_link {stride : Stride} {next : Location} {target : String} :
    stride.blank = .link next target ↔ stride = .link next target := by
  cases stride <;> simp [blank]

/-! ### Pieces that are looked up -/

/-- The piece is looked up as a name in a directory. -/
structure LooksUp (disk : Disk) (here : Location) (piece : String) : Prop where
  directory : disk.entryAt here = some .directory
  no_filler : FilePath.isFiller piece = false
  not_up : piece ≠ ".."
  short : piece.utf8ByteSize ≤ maxNameBytes

/-- What stands there under the name of the piece is what it comes to. -/
theorem LooksUp.stride {disk : Disk} {here : Location} {piece : String}
    (h : disk.LooksUp here piece) :
    disk.stride here piece = match disk.entryAt (here ++ [piece]) with
      | none => .missing (here ++ [piece])
      | some .directory => .reaches (here ++ [piece])
      | some (.file content) => .file (here ++ [piece]) content
      | some (.link target) => .link (here ++ [piece]) target := by
  rewrite [Disk.stride, if_neg (not_not_intro h.directory), if_neg (by simp [h.no_filler]),
    if_neg h.not_up, if_neg (Nat.not_lt.mpr h.short)]
  rfl

/-- A piece that is not looked up is refused, or leads to a directory that is known. -/
theorem looksUp_or (disk : Disk) (here : Location) (piece : String) :
    disk.LooksUp here piece ∨ (∃ cause, disk.stride here piece = .refused cause)
      ∨ disk.entryAt here = some .directory
        ∧ ((FilePath.isFiller piece = true ∧ disk.stride here piece = .reaches here)
          ∨ (piece = ".." ∧ disk.stride here piece = .reaches here.dropLast)) := by
  rw [stride]
  by_cases hdir : disk.entryAt here = some .directory
  swap
  · exact .inr (.inl ⟨_, if_pos hdir⟩)
  rw [if_neg (not_not_intro hdir)]
  by_cases hfiller : FilePath.isFiller piece
  · exact .inr (.inr ⟨hdir, .inl ⟨hfiller, if_pos hfiller⟩⟩)
  rw [if_neg hfiller]
  by_cases hup : piece = ".."
  · exact .inr (.inr ⟨hdir, .inr ⟨hup, if_pos hup⟩⟩)
  rw [if_neg hup]
  by_cases hlong : maxNameBytes < piece.utf8ByteSize
  · exact .inr (.inl ⟨_, if_pos hlong⟩)
  · exact .inl ⟨hdir, Bool.eq_false_iff.mpr hfiller, hup, Nat.not_lt.mp hlong⟩

/-- A stride that finds nothing has looked a name up. -/
theorem looksUp_of_missing {disk : Disk} {here next : Location} {piece : String}
    (h : disk.stride here piece = .missing next) :
    disk.LooksUp here piece ∧ next = here ++ [piece] := by
  rcases disk.looksUp_or here piece with hlook | ⟨cause, hno⟩ | ⟨-, ⟨-, hno⟩ | ⟨-, hno⟩⟩
  · refine ⟨hlook, ?_⟩
    rw [hlook.stride] at h
    split at h <;> cases h
    rfl
  all_goals
    rw [hno] at h
    cases h

/-- So has one that comes to a file. -/
theorem looksUp_of_file {disk : Disk} {here next : Location} {piece : String} {content : Content}
    (h : disk.stride here piece = .file next content) :
    disk.LooksUp here piece ∧ next = here ++ [piece] := by
  rcases disk.looksUp_or here piece with hlook | ⟨cause, hno⟩ | ⟨-, ⟨-, hno⟩ | ⟨-, hno⟩⟩
  · refine ⟨hlook, ?_⟩
    rw [hlook.stride] at h
    split at h <;> cases h
    rfl
  all_goals
    rw [hno] at h
    cases h

/-! ### Trees that have kept what they held -/

/-- The second tree has kept the entries of the first, though its files may hold something else. -/
structure Grown (disk later : Disk) : Prop where
  workingDirectory : later.workingDirectory = disk.workingDirectory
  kept : ∀ here shape, disk.shapeAt here = some shape → later.shapeAt here = some shape

namespace Grown

variable {disk later last : Disk}

theorem refl (disk : Disk) : Grown disk disk := ⟨rfl, fun _ _ h => h⟩

theorem trans (h : Grown disk later) (h' : Grown later last) : Grown disk last where
  workingDirectory := h'.workingDirectory.trans h.workingDirectory
  kept here shape hshape := h'.kept here shape (h.kept here shape hshape)

theorem directory (h : Grown disk later) {here : Location}
    (hdir : disk.entryAt here = some .directory) : later.entryAt here = some .directory :=
  shapeAt_eq_directory.mp (h.kept here _ (shapeAt_eq_directory.mpr hdir))

theorem entryAt (h : Grown disk later) {here : Location} {entry : Entry}
    (hentry : disk.entryAt here = some entry) :
    ∃ found, later.entryAt here = some found ∧ found.blank = entry.blank :=
  shapeAt_eq_some.mp (h.kept here _ (shapeAt_of_entryAt hentry))

/-- A piece that leads to something leads there still. -/
theorem stride (h : Grown disk later) {here : Location} {piece : String}
    (hon : ∀ cause, disk.stride here piece ≠ .refused cause)
    (hthere : ∀ next, disk.stride here piece ≠ .missing next) :
    (later.stride here piece).blank = (disk.stride here piece).blank := by
  have hdir := entryAt_of_stride piece hon
  rw [blank_stride, blank_stride, shapeAt_eq_directory.mpr (h.directory hdir),
    shapeAt_eq_directory.mpr hdir]
  by_cases hfiller : FilePath.isFiller piece
  · simp [hfiller]
  by_cases hup : piece = ".."
  · simp [hup]
  by_cases hlong : maxNameBytes < piece.utf8ByteSize
  · simp [hlong]
  -- the piece is a name, and names something
  cases hnext : disk.entryAt (here ++ [piece]) with
  | none => simp [Disk.stride, hdir, hfiller, hup, hlong, hnext] at hthere
  | some entry => rw [shapeAt_of_entryAt hnext, h.kept _ _ (shapeAt_of_entryAt hnext)]

theorem stride_reaches (h : Grown disk later) {here there : Location} {piece : String}
    (hstride : disk.stride here piece = .reaches there) :
    later.stride here piece = .reaches there := by
  have hsame : (later.stride here piece).blank = (disk.stride here piece).blank :=
    h.stride (by simp [hstride]) (by simp [hstride])
  rw [hstride] at hsame
  exact Stride.blank_eq_reaches.mp hsame

theorem stride_file (h : Grown disk later) {here next : Location} {piece : String}
    {content : Content} (hstride : disk.stride here piece = .file next content) :
    ∃ other, later.stride here piece = .file next other := by
  have hsame : (later.stride here piece).blank = (disk.stride here piece).blank :=
    h.stride (by simp [hstride]) (by simp [hstride])
  rw [hstride] at hsame
  exact Stride.blank_eq_file.mp hsame

theorem stride_link (h : Grown disk later) {here next : Location} {piece target : String}
    (hstride : disk.stride here piece = .link next target) :
    later.stride here piece = .link next target := by
  have hsame : (later.stride here piece).blank = (disk.stride here piece).blank :=
    h.stride (by simp [hstride]) (by simp [hstride])
  rw [hstride] at hsame
  exact Stride.blank_eq_link.mp hsame

/-- **What a path leads to is led to still.** -/
theorem walk (h : Grown disk later) {links : Nat} {here there : Location} {pieces : List String}
    {entry : Entry} (hwalk : disk.walk true links here pieces = .ok (.found there entry)) :
    ∃ found, later.walk true links here pieces = .ok (.found there found)
      ∧ found.blank = entry.blank := by
  induction links, here, pieces using walk_induct with
  | nil links here =>
    rw [walk_nil] at hwalk
    cases hentry : disk.entryAt here with
    | none =>
      rw [hentry] at hwalk
      cases hwalk
    | some entry =>
      rw [hentry] at hwalk
      cases hwalk
      obtain ⟨found, hfound, hblank⟩ := h.entryAt hentry
      exact ⟨found, by rw [walk_nil, hfound], hblank⟩
  | cons links here piece rest behind followed =>
    rw [walk_cons_follow]
    cases goes_of_walk hwalk with
    | on hstride hrest =>
      simp only [h.stride_reaches hstride]
      exact behind _ hrest
    | file hstride hlast =>
      obtain ⟨content, hfile⟩ := h.stride_file hstride
      simp only [hfile, hlast, if_true]
      exact ⟨_, rfl, rfl⟩
    | link hfollow _ _ => cases hfollow
    | along hstride hrest =>
      simp only [h.stride_link hstride]
      exact followed _ (Nat.lt_succ_self _) _ _ hrest

/-- What is found in a tree is found in the grown one, at the same place and of the same shape. -/
theorem resolve (h : Grown disk later) {path : FilePath} {here : Location} {entry : Entry}
    (hresolve : disk.resolve true path = .ok (.found here entry)) :
    ∃ found, later.resolve true path = .ok (.found here found) ∧ found.blank = entry.blank := by
  rw [Disk.resolve] at hresolve ⊢
  rw [h.workingDirectory]
  split at hresolve
  · cases hresolve
  split at hresolve
  · cases hresolve
  rename_i hempty hlong
  rw [if_neg hempty, if_neg hlong]
  exact h.walk hresolve

theorem find (h : Grown disk later) {path : FilePath} {here : Location} {entry : Entry}
    (hfind : disk.find true path = .ok (here, entry)) :
    ∃ found, later.find true path = .ok (here, found) ∧ found.blank = entry.blank := by
  rw [Disk.find] at hfind
  split at hfind
  · rename_i hresolve
    cases hfind
    obtain ⟨found, hfound, hblank⟩ := h.resolve hresolve
    exact ⟨found, by rw [Disk.find, hfound], hblank⟩
  · cases hfind
  · cases hfind

theorem find_directory (h : Grown disk later) {path : FilePath} {here : Location}
    (hfind : disk.find true path = .ok (here, .directory)) :
    later.find true path = .ok (here, .directory) := by
  obtain ⟨found, hfound, hblank⟩ := h.find hfind
  rw [hfound, Entry.blank_eq_directory.mp hblank]

theorem isDirectory (h : Grown disk later) {path : FilePath}
    (hdir : disk.isDirectory path = true) : later.isDirectory path = true := by
  rw [Disk.isDirectory] at hdir ⊢
  split at hdir
  · rename_i hfind
    rw [h.find_directory hfind]
  · cases hdir

theorem of_widens (h : Widens disk later) : Grown disk later where
  workingDirectory := h.workingDirectory
  kept here shape hshape := by
    obtain ⟨entry, hentry, rfl⟩ := shapeAt_eq_some.mp hshape
    exact shapeAt_of_entryAt (h.kept here entry hentry)

/-- An entry is set where nothing was, or in place of another of the same shape. -/
theorem set {here : Location} (hhere : here ≠ []) {entry : Entry}
    (hplace : ∀ shape, disk.shapeAt here = some shape → entry.blank = shape) :
    Grown disk (disk.set here entry) where
  workingDirectory := rfl
  kept there shape hshape := by
    by_cases hsame : there = here
    · subst hsame
      rw [shapeAt, entryAt_set disk hhere, if_pos rfl, Option.map_some, hplace shape hshape]
    · rwa [shapeAt, entryAt_set disk hhere, if_neg hsame]

end Grown

/-! ### Trees of one shape -/

/-- The two trees differ in what their files hold only. -/
structure SameShape (disk later : Disk) : Prop where
  workingDirectory : later.workingDirectory = disk.workingDirectory
  shapes : ∀ here, later.shapeAt here = disk.shapeAt here

namespace SameShape

variable {disk later last : Disk}

theorem refl (disk : Disk) : SameShape disk disk := ⟨rfl, fun _ => rfl⟩

theorem trans (h : SameShape disk later) (h' : SameShape later last) : SameShape disk last :=
  ⟨h'.workingDirectory.trans h.workingDirectory, fun here => (h'.shapes here).trans (h.shapes here)⟩

theorem grown (h : SameShape disk later) : Grown disk later :=
  ⟨h.workingDirectory, fun here _ hshape => (h.shapes here).trans hshape⟩

theorem stride (h : SameShape disk later) (here : Location) (piece : String) :
    (later.stride here piece).blank = (disk.stride here piece).blank := by
  rw [blank_stride, blank_stride, h.shapes, h.shapes]

/-- A walk takes the same steps in trees of one shape, link by link. -/
theorem walk (h : SameShape disk later) (follow : Bool) (links : Nat) (here : Location)
    (pieces : List String) : (later.walk follow links here pieces).map Target.blank
      = (disk.walk follow links here pieces).map Target.blank := by
  induction links, here, pieces using walk_induct with
  | nil links here =>
    have hshape := h.shapes here
    rw [shapeAt, shapeAt] at hshape
    rw [walk_nil, walk_nil]
    cases hthere : disk.entryAt here <;> cases hlater : later.entryAt here <;>
      simp_all [Except.map, Target.blank]
  | cons links here piece rest behind followed =>
    have hstride := h.stride here piece
    rw [walk_cons, walk_cons]
    cases hthere : disk.stride here piece <;> cases hlater : later.stride here piece <;>
      simp only [hthere, hlater, Stride.blank, reduceCtorEq, Stride.refused.injEq,
        Stride.reaches.injEq, Stride.missing.injEq, Stride.file.injEq, Stride.link.injEq] at hstride
    · rw [hstride]
    · rw [hstride]
      exact behind _
    · rw [hstride]
    · by_cases hlast : rest = []
      · simp [hlast, hstride.1, Except.map, Target.blank]
      · simp [hlast, Except.map]
    · obtain ⟨rfl, rfl⟩ := hstride
      dsimp only
      split
      · rfl
      · cases links with
        | zero => rfl
        | succ links => exact followed links (Nat.lt_succ_self links) _ _

/-- **Every path comes to the same** in trees of one shape. -/
theorem resolve (h : SameShape disk later) (follow : Bool) (path : FilePath) :
    (later.resolve follow path).map Target.blank = (disk.resolve follow path).map Target.blank := by
  rw [Disk.resolve, Disk.resolve, h.workingDirectory]
  split
  · rfl
  split
  · rfl
  exact h.walk _ _ _ _

theorem resolve_error (h : SameShape disk later) {follow : Bool} {path : FilePath}
    {cause : DiskError} (hresolve : disk.resolve follow path = .error cause) :
    later.resolve follow path = .error cause := by
  have hsame := h.resolve follow path
  rw [hresolve] at hsame
  cases hlater : later.resolve follow path <;> rw [hlater] at hsame <;> cases hsame
  rfl

/-- What is found is found at the same place, and is of the same shape. -/
theorem resolve_found (h : SameShape disk later) {follow : Bool} {path : FilePath}
    {here : Location} {entry : Entry} (hresolve : disk.resolve follow path = .ok (.found here entry)) :
    ∃ found, later.resolve follow path = .ok (.found here found) ∧ found.blank = entry.blank := by
  have hsame := h.resolve follow path
  rw [hresolve] at hsame
  cases hlater : later.resolve follow path with
  | error cause =>
    rw [hlater] at hsame
    cases hsame
  | ok target =>
    rw [hlater] at hsame
    cases target with
    | free there => cases hsame
    | found there found =>
      simp only [Except.map, Target.blank, Except.ok.injEq, Target.found.injEq] at hsame
      rw [hsame.1]
      exact ⟨found, rfl, hsame.2⟩

end SameShape

/-! ### Files written twice -/

/-- A name that was free leads to what has been set there. -/
theorem walk_set_free {disk : Disk} {links : Nat} {here there : Location} {pieces : List String}
    {entry : Entry} (hlink : ∀ target, entry ≠ .link target)
    (h : disk.walk true links here pieces = .ok (.free there)) :
    (disk.set there entry).walk true links here pieces = .ok (.found there entry) := by
  obtain ⟨hnone, hthere⟩ := entryAt_of_walk_free h
  have hset := entryAt_set disk hthere entry there
  rw [if_pos rfl] at hset
  have hgrown : Grown disk (disk.set there entry) := .set hthere fun shape hshape => by
    rw [shapeAt_eq_none.mpr hnone] at hshape
    cases hshape
  induction links, here, pieces using walk_induct with
  | nil links here =>
    rw [walk_nil] at h
    split at h <;> cases h
  | cons links here piece rest behind followed =>
    rw [walk_cons_follow]
    cases goes_of_walk h with
    | on hstride hrest =>
      simp only [hgrown.stride_reaches hstride]
      exact behind _ hrest
    | free hstride hlast =>
      -- the last piece names what has been set
      obtain ⟨hlook, rfl⟩ := looksUp_of_missing hstride
      have hstill : LooksUp (disk.set (here ++ [piece]) entry) here piece :=
        ⟨hgrown.directory hlook.directory, hlook.no_filler, hlook.not_up, hlook.short⟩
      rw [hstill.stride, hset, hlast]
      cases entry with
      | directory => simp only [walk_nil, hset]
      | file content => rfl
      | link target => exact absurd rfl (hlink target)
    | along hstride hrest =>
      simp only [hgrown.stride_link hstride]
      exact followed _ (Nat.lt_succ_self _) _ _ hrest

/-- A path to a free place leads to what is put there. -/
theorem resolve_set_free {disk : Disk} {path : FilePath} {here : Location} {entry : Entry}
    (hlink : ∀ target, entry ≠ .link target) (h : disk.resolve true path = .ok (.free here)) :
    (disk.set here entry).resolve true path = .ok (.found here entry) := by
  rw [resolve] at h ⊢
  split at h
  · cases h
  split at h
  · cases h
  rename_i hempty hlong
  rw [if_neg hempty, if_neg hlong]
  exact walk_set_free hlink h

/-- A file that has been written is where its path leads. -/
theorem resolve_of_writeText {disk later : Disk} {path : FilePath} {text : String}
    (h : disk.writeText path text = .ok later) :
    ∃ here, here ≠ [] ∧ later = disk.set here (.file (.text text)) ∧ Grown disk later
      ∧ later.resolve true path = .ok (.found here (.file (.text text))) := by
  obtain ⟨here, target, hresolve, hhere, rfl, hplace⟩ := writeText_eq_set h
  have hgrown : Grown disk (disk.set here (.file (.text text))) := .set hhere fun shape hshape => by
    rcases hplace with ⟨-, hnone⟩ | ⟨content, -, hfile⟩
    · rw [shapeAt_eq_none.mpr hnone] at hshape
      cases hshape
    · rw [shapeAt_of_entryAt hfile] at hshape
      cases hshape
      rfl
  refine ⟨here, hhere, rfl, hgrown, ?_⟩
  rcases hplace with ⟨rfl, -⟩ | ⟨content, rfl, -⟩
  · exact resolve_set_free (by simp) hresolve
  · obtain ⟨found, hfound, -⟩ := hgrown.resolve hresolve
    have hentry := entryAt_of_resolve hfound
    rw [entryAt_set disk hhere, if_pos rfl] at hentry
    cases hentry
    exact hfound

theorem Grown.of_writeText {disk later : Disk} {path : FilePath} {text : String}
    (h : disk.writeText path text = .ok later) : Grown disk later := by
  obtain ⟨-, -, -, hgrown, -⟩ := resolve_of_writeText h
  exact hgrown

/-- **What was written by a path** can be written by it again, at the same place. -/
theorem Grown.writeText_again {disk next later : Disk} {path : FilePath} {text : String}
    (h : disk.writeText path text = .ok next) (hgrown : Grown next later) (other : String) :
    ∃ here, here ≠ [] ∧ next = disk.set here (.file (.text text))
      ∧ later.writeText path other = .ok (later.set here (.file (.text other)))
      ∧ SameShape later (later.set here (.file (.text other))) := by
  obtain ⟨here, hhere, hnext, -, hresolve⟩ := resolve_of_writeText h
  obtain ⟨found, hfound, hblank⟩ := hgrown.resolve hresolve
  obtain ⟨content, rfl⟩ := Entry.blank_eq_file.mp hblank
  refine ⟨here, hhere, hnext, by rw [writeText, hfound], rfl, fun there => ?_⟩
  rw [shapeAt, shapeAt, entryAt_set later hhere]
  split
  · rename_i hsame
    rw [hsame, entryAt_of_resolve hfound]
    rfl
  · rfl

/-- What cannot be written to one tree cannot be written to another of its shape. -/
theorem SameShape.writeText_error {disk later : Disk} (h : SameShape disk later) {path : FilePath}
    {text : String} {cause : DiskError} (hwrite : disk.writeText path text = .error cause) :
    later.writeText path text = .error cause := by
  rw [writeText] at hwrite ⊢
  cases hresolve : disk.resolve true path with
  | error reason =>
    rw [hresolve] at hwrite
    rw [h.resolve_error hresolve]
    exact hwrite ▸ rfl
  | ok target =>
    cases target with
    | free here =>
      rw [hresolve] at hwrite
      cases hwrite
    | found here entry =>
      obtain ⟨found, hfound, hblank⟩ := h.resolve_found hresolve
      rw [hresolve] at hwrite
      rw [hfound]
      cases entry with
      | file content => cases hwrite
      | directory =>
        cases hwrite
        rw [Entry.blank_eq_directory.mp hblank]
      | link target =>
        cases hwrite
        rw [Entry.blank_eq_link.mp hblank]

end Disk

end ApiStubs
