import ApiStubs.Proofs.Locating
import Mathlib.Data.List.Sort
import Mathlib.Data.String.Basic

/-!
# Proofs — Places — paths that spell locations out

The names on the way to a location, written behind each other, are its path, and can be read off it
again (`Location.front_path`).  In a tree of the kind that a file system holds
(`Disk.WellFormed`), a look-up by that path goes through directories only, so that it comes to the
entry of that location unless the path is too long: `Disk.find_path`.

The names in a directory are listed once each and in order (`Disk.WellFormed.mem_namesIn`,
`Disk.WellFormed.namesIn_sorted`).
-/

namespace ApiStubs

open FilePath (IsFileName)

instance (name : String) : Decidable (IsFileName name) :=
  decidable_of_iff
    ('/' ∉ name.toList ∧ FilePath.isFiller name = false ∧ name ≠ "..")
    ⟨fun h => ⟨h.1, h.2.1, h.2.2⟩, fun h => ⟨h.no_separator, h.no_filler, h.not_up⟩⟩

/-- No special piece of a path is longer than `..`. -/
theorem FilePath.isFileName_of_long {name : String} (hseparator : '/' ∉ name.toList)
    (hlong : 2 < name.utf8ByteSize) : IsFileName name := by
  have hempty : name ≠ "" := fun heq => absurd (heq ▸ hlong) (by decide)
  have hhere : name ≠ "." := fun heq => absurd (heq ▸ hlong) (by decide)
  exact ⟨hseparator, by simp [isFiller, hempty, hhere], fun heq => absurd (heq ▸ hlong) (by decide)⟩

theorem Text.glue_concat (sep : Char) {parts : List (List Char)} (h : parts ≠ [])
    (last : List Char) : glue sep (parts ++ [last]) = glue sep parts ++ sep :: last := by
  induction parts with
  | nil => exact absurd rfl h
  | cons part rest ih =>
    cases rest with
    | nil => rfl
    | cons next more =>
      have hrest := ih (List.cons_ne_nil next more)
      rw [List.cons_append] at hrest
      rw [List.cons_append, List.cons_append, glue, glue, hrest, List.append_assoc,
        List.cons_append]

theorem Text.join_concat (sep : Char) {parts : List String} (h : parts ≠ []) (last : String) :
    join sep (parts ++ [last]) = join sep parts ++ String.singleton sep ++ last := by
  have hparts : parts.map String.toList ≠ [] := fun hnil => h (List.map_eq_nil_iff.mp hnil)
  rw [join, List.map_append, List.map_singleton, glue_concat sep hparts]
  simp [join, String.ext_iff]

theorem Text.join_cons (sep : Char) (first : String) {rest : List String} (h : rest ≠ []) :
    join sep (first :: rest) = first ++ String.singleton sep ++ join sep rest := by
  obtain ⟨next, more, rfl⟩ := List.exists_cons_of_ne_nil h
  simp [join, glue, ← String.toList_inj]

/-- Parts that are not empty make an empty text only if there are none. -/
theorem Text.join_eq_empty {sep : Char} {parts : List String} (h : "" ∉ parts)
    (hempty : join sep parts = "") : parts = [] := by
  cases parts with
  | nil => rfl
  | cons first rest =>
    have hfirst : first ≠ "" := fun heq => h (heq ▸ List.mem_cons_self)
    cases rest with
    | nil => exact absurd (by simpa [join, glue] using hempty) hfirst
    | cons next more =>
      rw [join_cons sep first (List.cons_ne_nil next more)] at hempty
      simp [String.append_eq_empty_iff] at hempty

namespace Location

/-- Every name on the way is the name of a file. -/
def Proper (here : Location) : Prop := ∀ name ∈ here, IsFileName name

instance (here : Location) : Decidable here.Proper :=
  inferInstanceAs (Decidable (∀ name ∈ here, IsFileName name))

theorem Proper.append {here names : Location} (h : here.Proper) (hnames : names.Proper) :
    Proper (here ++ names) := List.forall_mem_append.mpr ⟨h, hnames⟩

theorem Proper.of_append {here names : Location} (h : Proper (here ++ names)) :
    here.Proper ∧ names.Proper := List.forall_mem_append.mp h

theorem Proper.singleton {name : String} (h : IsFileName name) : Proper [name] :=
  List.forall_mem_singleton.mpr h

/-- The locations on the way, the root apart. -/
def prefixes (here : Location) : List Location :=
  (List.range here.length).map fun depth => here.take (depth + 1)

/-- The prefixes of a location are the locations above it and itself, without the root. -/
theorem mem_prefixes {here above : Location} :
    above ∈ here.prefixes ↔ above <+: here ∧ above ≠ [] := by
  rw [prefixes, List.mem_map]
  constructor
  · rintro ⟨depth, hdepth, rfl⟩
    refine ⟨List.take_prefix _ _, fun hnil => ?_⟩
    rcases List.take_eq_nil_iff.mp hnil with hzero | rfl
    · exact Nat.succ_ne_zero depth hzero
    · exact Nat.not_lt_zero depth (List.mem_range.mp hdepth)
  · rintro ⟨hbelow, hne⟩
    have hpos := List.length_pos_iff.mpr hne
    have hlength := hbelow.length_le
    refine ⟨above.length - 1, List.mem_range.mpr (by omega), ?_⟩
    rw [Nat.sub_add_cancel hpos]
    exact (List.prefix_iff_eq_take.mp hbelow).symm

theorem nodup_prefixes (here : Location) : here.prefixes.Nodup := by
  refine List.Nodup.map_on (fun a ha b hb hsame => ?_) List.nodup_range
  have hlengths := congrArg List.length hsame
  rw [List.length_take, List.length_take] at hlengths
  have hless := And.intro (List.mem_range.mp ha) (List.mem_range.mp hb)
  omega

/-! ### Reading the names off a path -/

theorem path_ne_empty (here : Location) : here.path.text ≠ "" := by
  simp [path, String.append_eq_empty_iff]

/-- A name at the end of the path is followed by no separator. -/
theorem endsWith_path {above : Location} {name : String} (hname : IsFileName name) :
    Text.endsWith (path (above ++ [name])).text '/' = false := by
  rw [path]
  rcases List.eq_nil_or_concat' above with rfl | ⟨first, last, rfl⟩
  · rw [List.nil_append, Text.join]
    simpa [Text.glue] using hname.not_endsWith "/"
  · rw [Text.join_concat '/' (by simp), ← String.append_assoc]
    exact hname.not_endsWith _

/-- The path of a place is that of its directory with its name behind. -/
theorem path_concat {here : Location} {name : String} (h : here.Proper) (hname : IsFileName name) :
    path (here ++ [name]) = here.path.join name := by
  have hstart := FilePath.not_startsWith_separator hname.no_separator
  have hnil : (path []).text = "/" := rfl
  refine congrArg FilePath.mk (Eq.trans ?_ (FilePath.text_join hstart).symm)
  rcases List.eq_nil_or_concat' here with rfl | ⟨above, last, rfl⟩
  · rw [hnil, if_pos (by decide)]
    simp [Text.join, Text.glue]
  · have hlast := (Proper.of_append h).2 last List.mem_cons_self
    have htext : (path (above ++ [last])).text
        = "/" ++ Text.join '/' (above ++ [last]) := rfl
    rw [if_neg (by simp [endsWith_path hlast, path_ne_empty]), Text.join_concat '/' (by simp), htext]
    simp [String.append_assoc]

theorem path_append {here names : Location} (h : here.Proper) (hnames : names.Proper) :
    path (here ++ names) = here.path.joinAll names := by
  induction names generalizing here with
  | nil => rw [List.append_nil]; rfl
  | cons name rest ih =>
    obtain ⟨hname, hrest⟩ := List.forall_mem_cons.mp hnames
    have hnext := h.append (.singleton hname)
    have hsplit : here ++ name :: rest = (here ++ [name]) ++ rest := by simp
    rw [hsplit, ih hnext hrest, path_concat h hname]
    rfl

/-- **The names can be read off the path**, behind the empty piece of the root. -/
theorem front_path {here : Location} (h : here.Proper) : here.path.front = "" :: here := by
  have hpath := @path_append [] here (by simp [Proper]) h
  rw [List.nil_append] at hpath
  rw [hpath, FilePath.front_joinAll h]
  rfl

/-- A name lengthens the path by itself and a separator, which is there already behind the root. -/
theorem size_path_concat {here : Location} {name : String} (h : here.Proper) (hne : here ≠ [])
    (hname : IsFileName name) : (path (here ++ [name])).text.utf8ByteSize
      = here.path.text.utf8ByteSize + 1 + name.utf8ByteSize := by
  obtain ⟨above, last, rfl⟩ := (List.eq_nil_or_concat' here).resolve_left hne
  have hlast := h.of_append.2 last List.mem_cons_self
  rw [path_concat h hname,
    FilePath.text_join (FilePath.not_startsWith_separator hname.no_separator),
    if_neg (by simp [endsWith_path hlast, path_ne_empty]), String.utf8ByteSize_append,
    String.utf8ByteSize_append]
  rfl

theorem path_injective {here there : Location} (h : here.Proper) (hthere : there.Proper)
    (heq : here.path = there.path) : here = there := by
  have hfront := congrArg FilePath.front heq
  rw [front_path h, front_path hthere] at hfront
  exact List.tail_eq_of_cons_eq hfront

theorem join_injective {here there : Location} {name other : String} (h : here.Proper)
    (hthere : there.Proper) (hname : IsFileName name) (hother : IsFileName other)
    (heq : here.path.join name = there.path.join other) : here = there ∧ name = other := by
  rw [← path_concat h hname, ← path_concat hthere hother] at heq
  have hconcat := path_injective (h.append (.singleton hname)) (hthere.append (.singleton hother))
    heq
  obtain ⟨hhere, hlast⟩ := List.append_inj' hconcat rfl
  exact ⟨hhere, List.head_eq_of_cons_eq hlast⟩

theorem isAbsolute_path (here : Location) : here.path.isAbsolute = true := by
  simp [path, FilePath.isAbsolute, FilePath.startsWith_separator]

theorem pieces_path {above : Location} {name : String} (h : above.Proper) (hname : IsFileName name) :
    (path (above ++ [name])).pieces = "" :: above ++ [name] := by
  rw [path_concat h hname, FilePath.pieces_join hname.no_separator, front_path h]

theorem fileName?_path {above : Location} {name : String} (h : above.Proper)
    (hname : IsFileName name) : (path (above ++ [name])).fileName? = some name := by
  rw [path_concat h hname, FilePath.fileName?_join hname]

/-- A path without its last name is that of the directory above. -/
theorem parent?_path {above : Location} {name : String} (h : above.Proper)
    (hname : IsFileName name) : (path (above ++ [name])).parent? = some above.path := by
  have hdrop : FilePath.dropFillers ("" :: above) = "" :: above := by
    rcases List.eq_nil_or_concat' above with rfl | ⟨before, last, rfl⟩
    · rfl
    · have hlast := (Proper.of_append h).2 last List.mem_cons_self
      exact FilePath.dropFillers_append hlast.no_filler ("" :: before)
  have hwritten : FilePath.ofPieces true ("" :: above) = above.path := by
    cases above with
    | nil => rfl
    | cons first rest => simp [FilePath.ofPieces, path, Text.join, Text.glue]
  have hnonempty : ("" :: above).reverse ≠ [] := by simp
  obtain ⟨next, before, hbefore⟩ := List.exists_cons_of_ne_nil hnonempty
  have hreverse : ("" :: above ++ [name]).reverse = name :: next :: before := by
    rw [List.reverse_append, hbefore]
    rfl
  have hwithout : (next :: before).reverse = "" :: above := by
    rw [← hbefore, List.reverse_reverse]
  rw [FilePath.parent?, pieces_path h hname, FilePath.dropFillers_append hname.no_filler, hreverse]
  simp only [hwithout, hdrop, isAbsolute_path, hwritten]

end Location

theorem Python.isFileName_packageMarker : IsFileName Python.packageMarker := by decide

namespace Disk

/-! ### Trees that a file system can hold -/

/-- A tree of the kind that a file system holds: every entry has a name of its own in a directory
of the tree. -/
structure WellFormed (disk : Disk) : Prop where
  inside : ∀ place ∈ disk.entries, place.1 ≠ [] ∧ disk.entryAt place.1.dropLast = some .directory
  named : ∀ place ∈ disk.entries, ∀ name ∈ place.1.getLast?,
    IsFileName name ∧ name.utf8ByteSize ≤ maxNameBytes
  once : (disk.entries.map Prod.fst).Nodup

instance (disk : Disk) : Decidable disk.WellFormed :=
  decidable_of_iff
    ((∀ place ∈ disk.entries,
        place.1 ≠ [] ∧ disk.entryAt place.1.dropLast = some .directory)
      ∧ (∀ place ∈ disk.entries, ∀ name ∈ place.1.getLast?,
        IsFileName name ∧ name.utf8ByteSize ≤ maxNameBytes)
      ∧ (disk.entries.map Prod.fst).Nodup)
    ⟨fun h => ⟨h.1, h.2.1, h.2.2⟩, fun h => ⟨h.inside, h.named, h.once⟩⟩

theorem entryAt_ne_nil {disk : Disk} {here : Location} (h : here ≠ []) :
    disk.entryAt here = disk.entries.lookup here := by
  cases here with
  | nil => exact absurd rfl h
  | cons name rest => rfl

theorem mem_entries_of_entryAt {disk : Disk} {here : Location} {entry : Entry} (hhere : here ≠ [])
    (h : disk.entryAt here = some entry) : (here, entry) ∈ disk.entries := by
  rw [entryAt_ne_nil hhere] at h
  obtain ⟨before, after, hentries, -⟩ := List.lookup_eq_some_iff.mp h
  rw [hentries]
  simp

/-- The empty piece in front of an absolute path is the root. -/
theorem walk_root (disk : Disk) (follow : Bool) (links : Nat) (rest : List String) :
    disk.walk follow links [] ("" :: rest) = disk.walk follow links [] rest := by
  have hstride : disk.stride [] "" = .reaches [] := rfl
  rw [walk_cons]
  simp only [hstride]

theorem start_path (disk : Disk) (here : Location) : disk.start here.path = [] := by
  rw [start, here.isAbsolute_path, if_pos rfl]

theorem entryAt_of_nodup {disk : Disk} (honce : (disk.entries.map Prod.fst).Nodup) {here : Location}
    {entry : Entry} (hhere : here ≠ []) (h : (here, entry) ∈ disk.entries) :
    disk.entryAt here = some entry := by
  obtain ⟨before, after, hentries⟩ := List.append_of_mem h
  rw [entryAt_ne_nil hhere, List.lookup_eq_some_iff]
  refine ⟨before, after, hentries, fun place hplace => ?_⟩
  -- an earlier entry for the location would be a second one
  rw [hentries, List.map_append, List.map_cons, List.nodup_append] at honce
  have hne := honce.2.2 place.1 (List.mem_map_of_mem hplace) here List.mem_cons_self
  simpa using hne.symm

namespace WellFormed

variable {disk : Disk} (hdisk : disk.WellFormed)

include hdisk

theorem entryAt_of_mem {here : Location} {entry : Entry} (h : (here, entry) ∈ disk.entries) :
    disk.entryAt here = some entry := entryAt_of_nodup hdisk.once (hdisk.inside _ h).1 h

/-- What has a name stands in a directory, and the name is short enough. -/
theorem above {here : Location} {name : String} {entry : Entry}
    (h : disk.entryAt (here ++ [name]) = some entry) :
    disk.entryAt here = some .directory ∧ IsFileName name
      ∧ name.utf8ByteSize ≤ maxNameBytes := by
  have hmem := mem_entries_of_entryAt (by simp) h
  have hinside := (hdisk.inside _ hmem).2
  rw [List.dropLast_concat] at hinside
  exact ⟨hinside, hdisk.named _ hmem name (by simp)⟩

/-- What is above an entry is a directory. -/
theorem directory_above {here rest : Location} {entry : Entry} (hrest : rest ≠ [])
    (h : disk.entryAt (here ++ rest) = some entry) : disk.entryAt here = some .directory := by
  induction rest using List.reverseRecOn generalizing entry with
  | nil => exact absurd rfl hrest
  | append_singleton rest name ih =>
    rw [← List.append_assoc] at h
    have hinside := (hdisk.above h).1
    cases rest with
    | nil => rwa [List.append_nil] at hinside
    | cons first more => exact ih (List.cons_ne_nil first more) hinside

theorem proper {here : Location} {entry : Entry} (h : disk.entryAt here = some entry) :
    here.Proper := by
  induction here using List.reverseRecOn generalizing entry with
  | nil => simp [Location.Proper]
  | append_singleton above name ih =>
    obtain ⟨hinside, hname, -⟩ := hdisk.above h
    exact (ih hinside).append (.singleton hname)

/-- A location is no deeper than the tree has entries: each of them is above one more name. -/
theorem length_le {here : Location} {entry : Entry} (h : disk.entryAt here = some entry) :
    here.length ≤ disk.entries.length := by
  have hkeys : here.prefixes ⊆ disk.entries.map Prod.fst := by
    intro above habove
    obtain ⟨⟨rest, hrest⟩, hne⟩ := Location.mem_prefixes.mp habove
    have hentry : ∃ found, disk.entryAt above = some found := by
      rw [← hrest] at h
      by_cases hnil : rest = []
      · rw [hnil, List.append_nil] at h
        exact ⟨entry, h⟩
      · exact ⟨_, hdisk.directory_above hnil h⟩
    obtain ⟨found, hfound⟩ := hentry
    exact List.mem_map_of_mem (mem_entries_of_entryAt hne hfound)
  simpa [Location.prefixes] using (here.nodup_prefixes.subperm hkeys).length_le

/-! ### Looking up the path of a location -/

/-- Names that lead through directories are walked past. -/
theorem walk_names {follow : Bool} {links : Nat} {here names : Location} (rest : List String)
    (h : disk.entryAt (here ++ names) = some .directory) :
    disk.walk follow links here (names ++ rest) = disk.walk follow links (here ++ names) rest := by
  induction names generalizing here with
  | nil => rw [List.append_nil, List.nil_append]
  | cons name names ih =>
    have hsplit : here ++ name :: names = (here ++ [name]) ++ names := by simp
    rw [hsplit] at h ⊢
    have hnext : disk.entryAt (here ++ [name]) = some .directory := by
      cases names with
      | nil => rwa [List.append_nil] at h
      | cons first more => exact hdisk.directory_above (List.cons_ne_nil first more) h
    obtain ⟨hhere, hname, hsize⟩ := hdisk.above hnext
    have hstride : disk.stride here name = .reaches (here ++ [name]) := by
      rw [stride_name hname hhere, if_neg (Nat.not_lt.mpr hsize), hnext]
    rw [List.cons_append, walk_cons]
    simp only [hstride]
    exact ih h

theorem directoryAt?_path {here : Location} (h : disk.entryAt here = some .directory) :
    disk.directoryAt? here.path = some here := by
  have hwalk := @walk_names _ hdisk true maxLinks [] here [] h
  rw [List.append_nil, List.nil_append] at hwalk
  rw [directoryAt?_eq_some, Location.front_path (hdisk.proper h), start_path,
    walk_root, hwalk, walk_nil, h]

/-- **The path of a location** leads to the entry there, unless it is too long. -/
theorem find_path {here : Location} {entry : Entry} (h : disk.entryAt here = some entry)
    (hlink : ∀ target, entry ≠ .link target) (follow : Bool) :
    disk.find follow here.path
      = if maxPathBytes < here.path.text.utf8ByteSize then .error .nameTooLong
        else .ok (here, entry) := by
  have hresolve : disk.resolve follow here.path
      = if maxPathBytes < here.path.text.utf8ByteSize then .error .nameTooLong
        else .ok (.found here entry) := by
    rw [resolve, if_neg here.path_ne_empty, if_pos here.isAbsolute_path]
    split
    · rfl
    rcases List.eq_nil_or_concat' here with rfl | ⟨above, name, rfl⟩
    · cases h
      rfl
    · obtain ⟨habove, hname, hsize⟩ := hdisk.above h
      have hwalk := @walk_names _ hdisk follow maxLinks [] above [name] habove
      rw [List.nil_append] at hwalk
      rw [Location.pieces_path (hdisk.proper habove) hname, List.cons_append, walk_root,
        hwalk, walk_cons, stride_name hname habove, if_neg (Nat.not_lt.mpr hsize), h]
      cases entry with
      | directory => simp only [walk_nil, h]
      | file content => rfl
      | link target => exact absurd rfl (hlink target)
  rw [find, hresolve]
  by_cases hlong : maxPathBytes < here.path.text.utf8ByteSize <;> simp [hlong]

/-! ### Files in a directory -/

/-- A file in a directory is looked up with success when its path is short enough. -/
theorem isFile_path {here : Location} {name : String} (hdir : disk.entryAt here = some .directory)
    (hname : IsFileName name)
    (hlink : ∀ target, disk.entryAt (here ++ [name]) ≠ some (.link target)) :
    disk.isFile (Location.path (here ++ [name])) = true ↔
      (∃ content, disk.entryAt (here ++ [name]) = some (.file content))
        ∧ (Location.path (here ++ [name])).text.utf8ByteSize ≤ maxPathBytes := by
  constructor
  · intro hfile
    refine ⟨?_, utf8ByteSize_le_of_isFile hfile⟩
    rw [isFile] at hfile
    split at hfile
    · rename_i there content hfind
      have hresolve := resolve_of_find hfind
      rw [Location.path_concat (hdisk.proper hdir) hname] at hresolve
      rw [resolve_name hname (hdisk.directoryAt?_path hdir) hlink
        (fits_of_resolve hname hresolve)] at hresolve
      split at hresolve
      · cases hresolve
      · rename_i hentry
        cases hresolve
        exact ⟨content, hentry⟩
    · cases hfile
  · rintro ⟨⟨content, hentry⟩, hshort⟩
    rw [isFile, hdisk.find_path hentry (by simp) true, if_neg (Nat.not_lt.mpr hshort)]

theorem fileSize_path {here : Location} {content : Content}
    (h : disk.entryAt here = some (.file content)) :
    disk.fileSize here.path = if maxPathBytes < here.path.text.utf8ByteSize
      then .error .nameTooLong else .ok content.size := by
  rw [fileSize, hdisk.find_path h (by simp) true]
  by_cases hlong : maxPathBytes < here.path.text.utf8ByteSize <;> simp [hlong]

end WellFormed

/-! ### Canonical directories -/

/-- The path of a location leads to a directory there: it is the directory's canonical path. -/
def Canonical (disk : Disk) (here : Location) : Prop :=
  disk.find true here.path = .ok (here, .directory)

instance (disk : Disk) (here : Location) : Decidable (disk.Canonical here) :=
  inferInstanceAs (Decidable (_ = _))

/-- A path is that of such a location when it is the canonical form of itself and leads to a
directory. -/
theorem canonical_iff {disk : Disk} {path : FilePath} :
    (∃ here : Location, path = here.path ∧ disk.Canonical here) ↔
      disk.canonicalize path = .ok path ∧ disk.isDirectory path = true := by
  constructor
  · rintro ⟨here, rfl, hfind⟩
    rw [Canonical] at hfind
    simp [canonicalize, isDirectory, hfind, Except.map]
  · rintro ⟨hsame, hdir⟩
    rw [isDirectory] at hdir
    split at hdir
    · rename_i here hfind
      rw [canonicalize, hfind] at hsame
      cases hsame
      exact ⟨here, rfl, hfind⟩
    · cases hdir

theorem Canonical.entryAt {disk : Disk} {here : Location} (h : disk.Canonical here) :
    disk.entryAt here = some .directory := entryAt_of_resolve (resolve_of_find h)

theorem Canonical.find {disk : Disk} {here : Location} (h : disk.Canonical here)
    (hdisk : disk.WellFormed) (follow : Bool) :
    disk.find follow here.path = .ok (here, .directory) := by
  rw [← h, hdisk.find_path h.entryAt (by simp), hdisk.find_path h.entryAt (by simp)]

theorem Canonical.short {disk : Disk} {here : Location} (h : disk.Canonical here)
    (hdisk : disk.WellFormed) : here.path.text.utf8ByteSize ≤ maxPathBytes := by
  have hfind := hdisk.find_path h.entryAt (by simp) true
  rw [h] at hfind
  split at hfind
  · cases hfind
  · exact Nat.not_lt.mp ‹_›

/-! ### Names in order -/

theorem namesIn_eq_insertionSort (disk : Disk) (here : Location) :
    disk.namesIn here = (disk.entries.filterMap fun place =>
      if place.1.dropLast = here then place.1.getLast? else none).insertionSort (· ≤ ·) := by
  have hinsert : insertName = List.orderedInsert (· ≤ ·) := by
    funext name names
    induction names with
    | nil => rfl
    | cons first rest ih => rw [insertName, List.orderedInsert_cons, ih]
  rw [namesIn, hinsert]
  rfl

/-- An entry in a directory has the directory's names in front of its own. -/
theorem getLast?_of_dropLast {place here : Location} {name : String} :
    (if place.dropLast = here then place.getLast? else none) = some name
      ↔ place = here ++ [name] := by
  rcases List.eq_nil_or_concat' place with rfl | ⟨above, last, rfl⟩
  · simp
  · by_cases habove : above = here
    · simp [habove]
    · simp [habove]

namespace WellFormed

variable {disk : Disk} (hdisk : disk.WellFormed)

include hdisk

theorem mem_namesIn {here : Location} {name : String} :
    name ∈ disk.namesIn here ↔ ∃ entry, disk.entryAt (here ++ [name]) = some entry := by
  rw [namesIn_eq_insertionSort, List.mem_insertionSort, List.mem_filterMap]
  constructor
  · rintro ⟨⟨place, entry⟩, hmem, hplace⟩
    obtain rfl := getLast?_of_dropLast.mp hplace
    exact ⟨entry, hdisk.entryAt_of_mem hmem⟩
  · rintro ⟨entry, hentry⟩
    exact ⟨_, mem_entries_of_entryAt (by simp) hentry, getLast?_of_dropLast.mpr rfl⟩

/-- The names in a directory are listed in order. -/
theorem namesIn_sorted (here : Location) : (disk.namesIn here).Pairwise (· < ·) := by
  rw [namesIn_eq_insertionSort]
  have honce : (disk.entries.filterMap fun place =>
      if place.1.dropLast = here then place.1.getLast? else none).Nodup := by
    have hmap : (disk.entries.filterMap fun place =>
          if place.1.dropLast = here then place.1.getLast? else none)
        = (disk.entries.map Prod.fst).filterMap fun place =>
          if place.dropLast = here then place.getLast? else none := by
      rw [List.filterMap_map]
      rfl
    rw [hmap]
    refine hdisk.once.filterMap fun place other name hplace hother => ?_
    rw [getLast?_of_dropLast.mp hplace, getLast?_of_dropLast.mp hother]
  have hordered := List.pairwise_insertionSort (· ≤ ·) (disk.entries.filterMap fun place =>
    if place.1.dropLast = here then place.1.getLast? else none)
  have hsorted := ((List.perm_insertionSort (· ≤ ·) _).nodup_iff.mpr honce)
  exact hordered.imp₂ (fun _ _ hle hne => lt_of_le_of_ne hle hne) hsorted

end WellFormed

end Disk

end ApiStubs
