import ApiStubs.Proofs.Walking
import Mathlib.Data.List.Dedup

/-!
# Proofs — Writing — what changes when files are written

A directory is made and a file is written at one place of the tree, which is free or holds a file;
directories and links stay as they are, and paths lead where they led.  So the texts written into
one directory stand there by their names (`Disk.shelve`), the later of two with one name.

`Disk.putAll_shelved`: after any number of texts have been written into a directory that was
empty, its files are the shelf of those texts.
-/

namespace ApiStubs.Disk

/-! ### One entry set -/

theorem lookup_filter_ne {here there : Location} (h : there ≠ here)
    (entries : List (Location × Entry)) :
    (entries.filter fun e => e.1 ≠ here).lookup there = entries.lookup there := by
  induction entries with
  | nil => rfl
  | cons e rest ih =>
    obtain ⟨place, entry⟩ := e
    by_cases hplace : place = here
    · subst hplace
      have hne : (there == place) = false := by simpa using h
      simpa [List.lookup_cons, hne] using ih
    · simp only [List.filter_cons, hplace, ne_eq, not_false_eq_true, decide_true, if_true,
        List.lookup_cons, ih]

/-- What is set is there, and the rest is as it was. -/
theorem entryAt_set (disk : Disk) {here : Location} (hhere : here ≠ []) (entry : Entry)
    (there : Location) :
    (disk.set here entry).entryAt there
      = if there = here then some entry else disk.entryAt there := by
  cases there with
  | nil => rw [if_neg (Ne.symm hhere)]; rfl
  | cons name rest =>
    show List.lookup (name :: rest) ((here, entry) :: _) = _
    rw [List.lookup_cons]
    by_cases heq : name :: rest = here
    · simp [heq]
    · have hne : (name :: rest == here) = false := by simpa using heq
      rw [if_neg heq]
      simp only [hne]
      exact lookup_filter_ne heq disk.entries

/-- No entry of the list is at a place where the tree has none. -/
theorem filter_free {disk : Disk} {here : Location} (hhere : here ≠ [])
    (hfree : disk.entryAt here = none) :
    (disk.entries.filter fun e => e.1 ≠ here) = disk.entries := by
  refine List.filter_eq_self.mpr fun e he => ?_
  have hnone : disk.entries.lookup here = none := by
    cases here with
    | nil => exact absurd rfl hhere
    | cons name rest => exact hfree
  have hne := List.lookup_eq_none_iff.mp hnone e he
  exact decide_eq_true fun heq => by simp [heq] at hne

theorem filesBelow_set_directory {disk : Disk} {here : Location} (hhere : here ≠ [])
    (hfree : disk.entryAt here = none) (root : Location) :
    (disk.set here .directory).filesBelow root = disk.filesBelow root := by
  rw [filesBelow, filesBelow, set]
  rw [filter_free hhere hfree]
  simp

/-- The files below a directory without the one of a name in it. -/
theorem filesBelow_filter (disk : Disk) (root : Location) (name : String) :
    ({ disk with entries := disk.entries.filter fun e => e.1 ≠ root ++ [name] }).filesBelow root =
      (disk.filesBelow root).filter fun file => file.1 ≠ [name] := by
  rw [filesBelow, filesBelow]
  rw [List.filterMap_filter, List.filter_filterMap]
  congr 1
  funext ⟨place, entry⟩
  -- below the root, places are told apart by what comes behind it
  by_cases hbelow : root <+: place
  · obtain ⟨rest, rfl⟩ := hbelow
    cases entry with
    | directory => simp
    | link target => simp
    | file content =>
      by_cases hrest : rest = [name]
      · simp [hrest, Option.filter]
      · by_cases hroot : rest = [] <;> simp [hrest, hroot, Option.filter]
  · have hno : root.isPrefixOf place = false := by
      rw [← Bool.not_eq_true, List.isPrefixOf_iff_prefix]
      exact hbelow
    simp [hno]

/-- A file that is written in a directory takes the place of the one there. -/
theorem filesBelow_set_file (disk : Disk) (root : Location) (name : String) (content : Content) :
    (disk.set (root ++ [name]) (.file content)).filesBelow root =
      ([name], content) :: (disk.filesBelow root).filter fun file => file.1 ≠ [name] := by
  have hunder : root.isPrefixOf (root ++ [name]) = true :=
    List.isPrefixOf_iff_prefix.mpr (List.prefix_append root [name])
  rw [← filesBelow_filter, filesBelow, filesBelow, set, List.filterMap_cons]
  simp [hunder]

/-! ### Directories made -/

/-- The second tree is the first with directories made where nothing was. -/
structure Widens (disk later : Disk) : Prop where
  workingDirectory : later.workingDirectory = disk.workingDirectory
  kept : ∀ here entry, disk.entryAt here = some entry → later.entryAt here = some entry
  added : ∀ here entry, later.entryAt here = some entry →
    disk.entryAt here = some entry ∨ entry = .directory
  files : ∀ root, later.filesBelow root = disk.filesBelow root

namespace Widens

theorem refl (disk : Disk) : Widens disk disk :=
  ⟨rfl, fun _ _ h => h, fun _ _ h => .inl h, fun _ => rfl⟩

theorem trans {disk later last : Disk} (h : Widens disk later) (h' : Widens later last) :
    Widens disk last where
  workingDirectory := h'.workingDirectory.trans h.workingDirectory
  kept here entry he := h'.kept here entry (h.kept here entry he)
  added here entry he := (h'.added here entry he).elim (h.added here entry) .inr
  files root := (h'.files root).trans (h.files root)

theorem keeps {disk later : Disk} (h : Widens disk later) : Keeps disk later :=
  ⟨h.workingDirectory, fun here => h.kept here .directory,
    fun here target => h.kept here (.link target)⟩

theorem set {disk : Disk} {here : Location} (hhere : here ≠ []) (hfree : disk.entryAt here = none) :
    Widens disk (disk.set here .directory) where
  workingDirectory := rfl
  kept there entry he := by
    rw [entryAt_set disk hhere, if_neg]
    · exact he
    · rintro rfl
      rw [hfree] at he
      cases he
  added there entry he := by
    rw [entryAt_set disk hhere] at he
    split at he
    · exact .inr (Option.some.inj he).symm
    · exact .inl he
  files := filesBelow_set_directory hhere hfree

end Widens

/-- Making a directory adds it to the tree. -/
theorem makeDirectory_widens {disk later : Disk} {path : FilePath}
    (h : disk.makeDirectory path = .ok later) : Widens disk later := by
  rw [makeDirectory] at h
  split at h
  · cases h
  split at h
  · rename_i hfree
    cases h
    obtain ⟨hnone, hhere⟩ := entryAt_of_resolve_free hfree
    exact .set hhere hnone
  · cases h
  · cases h

/-- What making one directory preserves is preserved by making several, whatever comes of it. -/
theorem makeEach_preserves {P : Disk → Prop}
    (hstep : ∀ {disk made path}, P disk → disk.makeDirectory path = .ok made → P made)
    {disk : Disk} (paths : List FilePath) (h : P disk) : P (disk.makeEach paths).2 := by
  induction paths with
  | nil => exact h
  | cons path parents ih =>
    rw [makeEach]
    split
    · rename_i hmade
      exact hstep h hmade
    · -- a parent was missing: the parents have been made, and the directory is tried again
      split
      · rename_i hparents
        rwa [hparents] at ih
      · rename_i hparents
        rw [hparents] at ih
        split
        · rename_i hmade
          exact hstep ih hmade
        · exact ih
    · exact h

theorem makeEach_widens (disk : Disk) (paths : List FilePath) :
    Widens disk (disk.makeEach paths).2 :=
  makeEach_preserves (fun h hmade => h.trans (makeDirectory_widens hmade)) paths (.refl disk)

theorem attemptDirectories_widens (disk : Disk) (path : FilePath) :
    Widens disk (disk.attemptDirectories path).2 := makeEach_widens disk _

theorem makeDirectories_eq_ok {disk later : Disk} {path : FilePath} :
    disk.makeDirectories path = .ok later ↔ disk.attemptDirectories path = (none, later) := by
  rw [makeDirectories]
  rcases disk.attemptDirectories path with ⟨_ | cause, made⟩ <;> simp

theorem makeDirectories_widens {disk later : Disk} {path : FilePath}
    (h : disk.makeDirectories path = .ok later) : Widens disk later := by
  have hwide := disk.attemptDirectories_widens path
  rwa [makeDirectories_eq_ok.mp h] at hwide

/-! ### Files written -/

/-- A text is written where a file is or nothing. -/
theorem writeText_eq_set {disk later : Disk} {path : FilePath} {text : String}
    (h : disk.writeText path text = .ok later) :
    ∃ here target, disk.resolve true path = .ok target ∧ here ≠ [] ∧
      later = disk.set here (.file (.text text)) ∧
      ((target = .free here ∧ disk.entryAt here = none)
        ∨ ∃ content, target = .found here (.file content)
          ∧ disk.entryAt here = some (.file content)) := by
  rw [writeText] at h
  split at h
  · rename_i here content hfound
    cases h
    have hentry := entryAt_of_resolve hfound
    refine ⟨here, _, hfound, ?_, rfl, .inr ⟨content, rfl, hentry⟩⟩
    rintro rfl
    cases hentry
  · cases h
  · rename_i here hfree
    cases h
    obtain ⟨hnone, hhere⟩ := entryAt_of_resolve_free hfree
    exact ⟨here, _, hfree, hhere, rfl, .inl ⟨rfl, hnone⟩⟩
  · cases h

/-- Directories and links are kept where a file is written. -/
theorem writeText_keeps {disk later : Disk} {path : FilePath} {text : String}
    (h : disk.writeText path text = .ok later) : Keeps disk later := by
  obtain ⟨here, target, -, hhere, rfl, hplace⟩ := writeText_eq_set h
  have hother : ∀ there entry, disk.entryAt there = some entry →
      (∀ content, entry ≠ .file content) →
      (disk.set here (.file (.text text))).entryAt there = some entry := by
    intro there entry hentry hno
    rw [entryAt_set disk hhere, if_neg, hentry]
    -- the place written to was free or held a file
    rintro rfl
    rcases hplace with ⟨-, hnone⟩ | ⟨content, -, hfile⟩
    · rw [hnone] at hentry
      cases hentry
    · rw [hfile] at hentry
      exact hno content (Option.some.inj hentry).symm
  exact ⟨rfl, fun there hd => hother there _ hd nofun,
    fun there target hl => hother there _ hl nofun⟩

/-! ### Texts written into one directory -/

/-- A text and the name of the file for it. -/
structure Sheet where
  fileName : String
  text : String
  deriving DecidableEq

/-- Writes a sheet into a directory, which is made if need be. -/
def put (directory : FilePath) (sheet : Sheet) (disk : Disk) : Except DiskError Disk :=
  match disk.makeDirectories directory with
  | .error cause => .error cause
  | .ok made => made.writeText (directory.join sheet.fileName) sheet.text

/-- A sheet is written where the directory has been made. -/
theorem put_ok {directory : FilePath} {sheet : Sheet} {disk later : Disk}
    (h : put directory sheet disk = .ok later) :
    ∃ made, Widens disk made
      ∧ made.writeText (directory.join sheet.fileName) sheet.text = .ok later := by
  rw [put] at h
  split at h
  · cases h
  · rename_i made hmade
    exact ⟨made, makeDirectories_widens hmade, h⟩

/-- Writes sheets one after the other. -/
def putAll (directory : FilePath) : List Sheet → Disk → Except DiskError Disk
  | [], disk => .ok disk
  | sheet :: rest, disk =>
    match put directory sheet disk with
    | .error cause => .error cause
    | .ok next => putAll directory rest next

theorem putAll_cons_ok {directory : FilePath} {sheet : Sheet} {rest : List Sheet}
    {disk later : Disk} (h : putAll directory (sheet :: rest) disk = .ok later) :
    ∃ next, put directory sheet disk = .ok next ∧ putAll directory rest next = .ok later := by
  rw [putAll] at h
  split at h
  · cases h
  · rename_i next hnext
    exact ⟨next, hnext, h⟩

theorem putAll_append {directory : FilePath} {sheets others : List Sheet} {disk next last : Disk}
    (h : putAll directory sheets disk = .ok next) (h' : putAll directory others next = .ok last) :
    putAll directory (sheets ++ others) disk = .ok last := by
  induction sheets generalizing disk with
  | nil => cases h; exact h'
  | cons sheet rest ih =>
    obtain ⟨after, hput, hrest⟩ := putAll_cons_ok h
    rw [List.cons_append, putAll, hput]
    exact ih hrest

/-- The files of a directory with one more sheet among them. -/
def shelve (held : List (List String × Content)) (sheet : Sheet) : List (List String × Content) :=
  ([sheet.fileName], .text sheet.text) :: held.filter fun file => file.1 ≠ [sheet.fileName]

/-- No link stands in the directory. -/
def Unlinked (disk : Disk) (here : Location) : Prop :=
  ∀ name target, disk.entryAt (here ++ [name]) ≠ some (.link target)

/-- The second tree is the first with a sheet written into a directory. -/
structure Shelved (directory : FilePath) (here : Location) (sheet : Sheet) (disk later : Disk) :
    Prop where
  files : later.filesBelow here = shelve (disk.filesBelow here) sheet
  fits : Fits directory sheet.fileName
  written : later.entryAt (here ++ [sheet.fileName]) = some (.file (.text sheet.text))
  others : ∀ name ≠ sheet.fileName, ∀ entry, disk.entryAt (here ++ [name]) = some entry →
    later.entryAt (here ++ [name]) = some entry
  unlinked : Unlinked later here

theorem put_keeps {directory : FilePath} {sheet : Sheet} {disk later : Disk}
    (h : put directory sheet disk = .ok later) : Keeps disk later := by
  obtain ⟨made, hwide, hwrite⟩ := put_ok h
  exact hwide.keeps.trans (writeText_keeps hwrite)

theorem putAll_keeps {directory : FilePath} {sheets : List Sheet} {disk later : Disk}
    (h : putAll directory sheets disk = .ok later) : Keeps disk later := by
  induction sheets generalizing disk with
  | nil => cases h; exact .refl _
  | cons sheet rest ih =>
    obtain ⟨next, hnext, hlater⟩ := putAll_cons_ok h
    exact (put_keeps hnext).trans (ih hlater)

theorem directoryAt?_of_put {directory : FilePath} {sheet : Sheet} {disk later : Disk}
    (hname : FilePath.IsFileName sheet.fileName) (h : put directory sheet disk = .ok later) :
    ∃ here, later.directoryAt? directory = some here := by
  obtain ⟨made, -, hwrite⟩ := put_ok h
  obtain ⟨_, target, hresolve, -⟩ := writeText_eq_set hwrite
  obtain ⟨here, hhere⟩ := directoryAt?_of_resolve hname hresolve
  exact ⟨here, (writeText_keeps hwrite).directoryAt? hhere⟩

/-- **One sheet.**  What is written by its path stands in the directory by its name. -/
theorem put_shelved {directory : FilePath} {here : Location} {sheet : Sheet} {disk later : Disk}
    (hname : FilePath.IsFileName sheet.fileName) (hunlinked : Unlinked disk here)
    (h : put directory sheet disk = .ok later) (hhere : later.directoryAt? directory = some here) :
    Shelved directory here sheet disk later := by
  obtain ⟨made, hwide, hwrite⟩ := put_ok h
  obtain ⟨place, target, hresolve, hplace, rfl, htarget⟩ := writeText_eq_set hwrite
  -- the directory was there when the file was written
  have hmadeHere : made.directoryAt? directory = some here := by
    obtain ⟨there, hthere⟩ := directoryAt?_of_resolve hname hresolve
    rw [(writeText_keeps hwrite).directoryAt? hthere] at hhere
    rw [hthere, hhere]
  have hunlinkedMade : Unlinked made here := fun name target hlink =>
    (hwide.added _ _ hlink).elim (hunlinked name target) nofun
  have hfits := fits_of_resolve hname hresolve
  rw [resolve_name hname hmadeHere (hunlinkedMade _) hfits] at hresolve
  have heq : place = here ++ [sheet.fileName] := by
    rcases htarget with ⟨rfl, -⟩ | ⟨content, rfl, -⟩
    · split at hresolve <;> cases hresolve
      rfl
    · split at hresolve <;> cases hresolve
      rfl
  subst heq
  have hat := entryAt_set made hplace (.file (.text sheet.text))
  refine ⟨?_, hfits, ?_, fun name hne entry hentry => ?_, fun name target => ?_⟩
  · rw [filesBelow_set_file, hwide.files]
    rfl
  · rw [hat, if_pos rfl]
  · rw [hat, if_neg (by simpa using hne)]
    exact hwide.kept _ _ hentry
  · rw [hat]
    split
    · exact nofun
    · exact hunlinkedMade name target

theorem putAll_cons_shelved {directory : FilePath} {here : Location} {sheet : Sheet}
    {rest : List Sheet} {disk later : Disk} (hname : FilePath.IsFileName sheet.fileName)
    (hunlinked : Unlinked disk here) (h : putAll directory (sheet :: rest) disk = .ok later)
    (hhere : later.directoryAt? directory = some here) :
    ∃ next, Shelved directory here sheet disk next ∧ putAll directory rest next = .ok later := by
  obtain ⟨next, hnext, hlater⟩ := putAll_cons_ok h
  refine ⟨next, put_shelved hname hunlinked hnext ?_, hlater⟩
  obtain ⟨there, hthere⟩ := directoryAt?_of_put hname hnext
  rw [(putAll_keeps hlater).directoryAt? hthere] at hhere
  rw [hthere, hhere]

/-- **Any number of sheets.**  The files of the directory are the shelf of the sheets, and what is
not written again stays. -/
theorem putAll_shelved {directory : FilePath} {here : Location} {sheets : List Sheet}
    {disk later : Disk} (hnames : ∀ sheet ∈ sheets, FilePath.IsFileName sheet.fileName)
    (hunlinked : Unlinked disk here) (h : putAll directory sheets disk = .ok later)
    (hhere : later.directoryAt? directory = some here) :
    later.filesBelow here = sheets.foldl shelve (disk.filesBelow here) ∧
      ∀ name, name ∉ sheets.map Sheet.fileName → ∀ entry,
        disk.entryAt (here ++ [name]) = some entry →
        later.entryAt (here ++ [name]) = some entry := by
  induction sheets generalizing disk with
  | nil => cases h; exact ⟨rfl, fun _ _ _ hentry => hentry⟩
  | cons sheet rest ih =>
    obtain ⟨hname, hrest⟩ := List.forall_mem_cons.mp hnames
    obtain ⟨next, hnext, hlater⟩ := putAll_cons_shelved hname hunlinked h hhere
    obtain ⟨hfiles, hothers⟩ := ih hrest hnext.unlinked hlater
    refine ⟨by rw [hfiles, hnext.files, List.foldl_cons], fun name hno entry hentry => ?_⟩
    rw [List.map_cons, List.mem_cons, not_or] at hno
    exact hothers name hno.2 entry (hnext.others name hno.1 entry hentry)

/-- A file in a directory is read by its path. -/
theorem readText_of_entryAt {disk : Disk} {directory : FilePath} {here : Location}
    {name text : String} (hname : FilePath.IsFileName name) (hfits : Fits directory name)
    (hhere : disk.directoryAt? directory = some here)
    (hentry : disk.entryAt (here ++ [name]) = some (.file (.text text))) :
    disk.readText (directory.join name) = .ok text := by
  have hlink : ∀ target, disk.entryAt (here ++ [name]) ≠ some (.link target) := by
    intro target hlink
    rw [hentry] at hlink
    cases hlink
  have hresolve := resolve_name hname hhere hlink hfits
  rw [readText, find, hresolve, hentry]

/-- Where the names differ, each text is read by its path. -/
theorem putAll_read {directory : FilePath} {here : Location} {sheets : List Sheet}
    {disk later : Disk} (hnames : ∀ sheet ∈ sheets, FilePath.IsFileName sheet.fileName)
    (hunlinked : Unlinked disk here) (h : putAll directory sheets disk = .ok later)
    (hhere : later.directoryAt? directory = some here)
    (hnodup : (sheets.map Sheet.fileName).Nodup) :
    ∀ sheet ∈ sheets, later.readText (directory.join sheet.fileName) = .ok sheet.text := by
  induction sheets generalizing disk with
  | nil => exact nofun
  | cons sheet rest ih =>
    obtain ⟨hname, hrest⟩ := List.forall_mem_cons.mp hnames
    obtain ⟨hnew, hnodup⟩ := List.nodup_cons.mp hnodup
    obtain ⟨next, hnext, hlater⟩ := putAll_cons_shelved hname hunlinked h hhere
    refine List.forall_mem_cons.mpr ⟨?_, ih hrest hnext.unlinked hlater hnodup⟩
    -- no sheet behind this one has its name, so what is written stays
    have hstays := (putAll_shelved hrest hnext.unlinked hlater hhere).2 _ hnew _ hnext.written
    exact readText_of_entryAt hname hnext.fits hhere hstays

/-! ### Names on a shelf -/

theorem nodup_shelve {held : List (List String × Content)} (h : (held.map Prod.fst).Nodup)
    (sheet : Sheet) : ((shelve held sheet).map Prod.fst).Nodup := by
  refine List.nodup_cons.mpr ⟨?_, h.sublist ((List.filter_sublist).map Prod.fst)⟩
  simp

theorem mem_shelve {held : List (List String × Content)} {sheet : Sheet} {name : List String} :
    name ∈ (shelve held sheet).map Prod.fst ↔
      name = [sheet.fileName] ∨ name ∈ held.map Prod.fst := by
  by_cases hname : name = [sheet.fileName] <;> simp [shelve, hname]

theorem nodup_shelf {held : List (List String × Content)} (h : (held.map Prod.fst).Nodup)
    (sheets : List Sheet) : ((sheets.foldl shelve held).map Prod.fst).Nodup := by
  induction sheets generalizing held with
  | nil => exact h
  | cons sheet rest ih => exact ih (nodup_shelve h sheet)

theorem mem_shelf {held : List (List String × Content)} {sheets : List Sheet} {name : List String} :
    name ∈ (sheets.foldl shelve held).map Prod.fst ↔
      name ∈ held.map Prod.fst ∨ name ∈ sheets.map fun sheet => [sheet.fileName] := by
  induction sheets generalizing held with
  | nil => simp
  | cons sheet rest ih =>
    rw [List.foldl_cons, ih, mem_shelve, List.map_cons, List.mem_cons]
    tauto

/-- There are as many files on a shelf as sheets exactly where no two of them share a name. -/
theorem length_shelf_eq_iff (sheets : List Sheet) :
    (sheets.foldl shelve []).length = sheets.length ↔ (sheets.map Sheet.fileName).Nodup := by
  have hempty : (([] : List (List String × Content)).map Prod.fst).Nodup := List.nodup_nil
  -- each name of a sheet is on the shelf, and once
  have hperm : ((sheets.foldl shelve []).map Prod.fst).Perm
      (sheets.map fun sheet => [sheet.fileName]).dedup :=
    (List.perm_ext_iff_of_nodup (nodup_shelf hempty sheets) (List.nodup_dedup _)).mpr
      fun name => by rw [mem_shelf, List.mem_dedup]; simp
  have hlength : (sheets.foldl shelve []).length
      = (sheets.map fun sheet => [sheet.fileName]).dedup.length := by
    rw [← hperm.length_eq, List.length_map]
  have hnames : (sheets.map fun sheet => [sheet.fileName]).Nodup
      ↔ (sheets.map Sheet.fileName).Nodup := by
    have hmap : (sheets.map fun sheet => [sheet.fileName])
        = (sheets.map Sheet.fileName).map fun name => [name] := by simp
    rw [hmap]
    exact List.nodup_map_iff fun _ _ h => List.singleton_inj.mp h
  rw [hlength, ← hnames, ← List.dedup_eq_self]
  constructor
  · intro h
    exact (List.dedup_sublist _).eq_of_length (h.trans (List.length_map _).symm)
  · intro h
    rw [h, List.length_map]

end ApiStubs.Disk
