import ApiStubs.Proofs.Normalizing
import ApiStubs.Proofs.Reexports
import ApiStubs.Proofs.Rescanning

/-!
# Proofs — Scripts — which scripts a scan comes to

A scan of a directory without links goes down into its visible directories and comes to the scripts
there (`Disk.Script`), each of them once and in the order of their paths (`Disk.mem_scripts`,
`Disk.scripts_sorted`).  The walk looks a directory up by its path as written from the start, so it
comes to its end only if none of these paths is too long (`Disk.traverse_scripts`).

A script has the name of its path without the extension.  The extension and the separators can be
put back, so no two scripts have the same name (`Disk.Script.name_append`,
`Disk.Script.eq_of_join`).
-/

namespace ApiStubs

open FilePath (IsFileName)

/-! ### The names of scripts -/

namespace FilePath

theorem splitExtension_append {stem extension : String} (hstem : stem ≠ "")
    (h : '.' ∉ extension.toList) :
    splitExtension (stem ++ ("." ++ extension)) = (stem, some extension) := by
  have hsplit := Text.splitLast?_append stem h
  rw [show String.singleton '.' = "." by decide, String.append_assoc] at hsplit
  rw [splitExtension, hsplit]
  simp only [if_neg hstem]

theorem text_of_ofPiece? {piece : String} (h : isFiller piece = false) :
    (Component.ofPiece? piece).map Component.text = some piece := by
  rw [Component.ofPiece?.eq_def]
  split
  · cases h
  · cases h
  · rfl
  · rfl

/-- A path that no filler is written in has a step for each of its pieces. -/
theorem texts_components {path : FilePath} (h : ∀ piece ∈ path.pieces, isFiller piece = false) :
    path.components.map Component.text = path.pieces := by
  obtain ⟨first, rest, hpieces⟩ := List.exists_cons_of_ne_nil (Text.pieces_ne_nil '/' path.text)
  have hfirst : isFiller first = false := h first (by rw [pieces, hpieces]; simp)
  have hnonempty : first ≠ "" := by
    rintro rfl
    cases hfirst
  have hhead : path.pieces.head? ≠ some "." := by
    rw [pieces, hpieces, List.head?_cons]
    rintro heq
    cases heq
    cases hfirst
  have hground : path.ground = [] := by
    rw [ground, isAbsolute, Text.startsWith_eq_false_of_pieces hpieces hnonempty]
    rfl
  have hall : ∀ each : List String, (∀ piece ∈ each, isFiller piece = false) →
      (each.filterMap Component.ofPiece?).map Component.text = each := by
    intro each heach
    induction each with
    | nil => rfl
    | cons piece others ih =>
      obtain ⟨hpiece, hothers⟩ := List.forall_mem_cons.mp heach
      obtain ⟨step, hstep, htext⟩ := Option.map_eq_some_iff.mp (text_of_ofPiece? hpiece)
      rw [List.filterMap_cons_some hstep, List.map_cons, htext, ih hothers]
  rw [components_of_head hhead, hground, List.nil_append]
  exact hall path.pieces h

end FilePath

namespace Examples

/-- **The name of a script** is its path below the directory without the extension. -/
theorem scriptName_eq {folders : List String} {stem : String}
    (hfolders : ∀ folder ∈ folders, IsFileName folder) (hfile : IsFileName (stem ++ ".py"))
    (hstem : stem ≠ "") (hdot : stem ≠ ".") :
    scriptName (folders ++ [stem ++ ".py"]) = Text.join '/' (folders ++ [stem]) := by
  have hseparator : '/' ∉ stem.toList := fun hmem =>
    hfile.no_separator (by rw [String.toList_append]; exact List.mem_append_left _ hmem)
  have hpieces : ∀ last, '/' ∉ last.toList →
      (FilePath.mk (Text.join '/' (folders ++ [last]))).pieces = folders ++ [last] := by
    intro last hlast
    exact Text.pieces_join (by simp) (List.forall_mem_append.mpr
      ⟨fun folder hfolder => (hfolders folder hfolder).no_separator, by simpa using hlast⟩)
  have hwhole := hpieces _ hfile.no_separator
  have hexchange : FilePath.exchangeExtension (stem ++ ".py") "" = stem := by
    have hsplit := @FilePath.splitExtension_append stem "py" hstem (by decide)
    rw [FilePath.exchangeExtension, show ".py" = "." ++ "py" by decide, hsplit]
    simp only [if_neg hdot, if_true]
  have hplain : FilePath.withExtension ⟨Text.join '/' (folders ++ [stem ++ ".py"])⟩ ""
      = ⟨Text.join '/' (folders ++ [stem])⟩ := by
    rw [FilePath.withExtension, FilePath.fileName?_of_pieces hwhole hfile, hwhole,
      FilePath.dropFillers_append hfile.no_filler, List.reverse_append, List.reverse_singleton,
      List.singleton_append]
    simp only [List.reverse_reverse, hexchange]
  have hfillers : ∀ piece ∈ (FilePath.mk (Text.join '/' (folders ++ [stem]))).pieces,
      FilePath.isFiller piece = false := by
    rw [hpieces stem hseparator]
    refine List.forall_mem_append.mpr
      ⟨fun folder hfolder => (hfolders folder hfolder).no_filler, ?_⟩
    simp [FilePath.isFiller, hstem, hdot]
  rw [scriptName, hplain, FilePath.texts_components hfillers, hpieces stem hseparator]

end Examples

/-! ### Starting at a directory -/

namespace Disk

/-- What leads to a directory leads there too if the last link is not followed, or to that link. -/
theorem walk_unfollowed {disk : Disk} {links : Nat} {here there : Location} {pieces : List String}
    (h : disk.walk true links here pieces = .ok (.found there .directory)) :
    disk.walk false links here pieces = .ok (.found there .directory)
      ∨ ∃ place target, disk.walk false links here pieces = .ok (.found place (.link target)) := by
  induction links, here, pieces using walk_induct with
  | nil links here =>
    rw [walk_nil] at h ⊢
    exact .inl h
  | cons links here piece rest behind followed =>
    rw [walk_cons]
    cases goes_of_walk h with
    | on hstride hrest =>
      simp only [hstride]
      exact behind _ hrest
    | along hstride hrest =>
      simp only [hstride]
      by_cases hlast : rest = []
      · simp only [hlast, decide_true, Bool.not_false, Bool.and_true, if_true]
        exact .inr ⟨_, _, rfl⟩
      · simp only [hlast, decide_false, Bool.false_and, Bool.false_eq_true, if_false]
        exact followed _ (Nat.lt_succ_self _) _ _ hrest

/-- A path to a directory ends at the directory itself or at a link. -/
theorem find_unfollowed {disk : Disk} {path : FilePath} {here : Location}
    (h : disk.find true path = .ok (here, .directory)) :
    disk.find false path = .ok (here, .directory)
      ∨ ∃ place target, disk.find false path = .ok (place, .link target) := by
  have hresolve := resolve_of_find h
  rw [resolve] at hresolve
  rw [find, resolve]
  split at hresolve
  · cases hresolve
  rw [if_neg ‹_›]
  split at hresolve
  · cases hresolve
  rw [if_neg ‹_›]
  rcases walk_unfollowed hresolve with hsame | ⟨place, target, hlink⟩
  · exact .inl (by rw [hsame])
  · exact .inr ⟨place, target, by rw [hlink]⟩

/-- A traversal that follows no links does at a link to a directory what it does at the directory,
if it starts there. -/
theorem traverse_start {disk : Disk} {directory : FilePath} {here : Location}
    (hstart : disk.find true directory = .ok (here, .directory)) {rule : TraversalRule}
    (hstay : rule.followLinks = false) (hrule : rule.keep = Examples.enters) {levels : Nat}
    (hlevels : rule.levels = levels + 1) :
    (disk.traverse rule directory).fault
        = (disk.descend rule directory (levels + 1) [] [] .directory).fault
      ∧ (disk.traverse rule directory).scripts
        = (disk.descend rule directory (levels + 1) [] [] .directory).scripts := by
  rw [traverse, hlevels]
  rcases find_unfollowed hstart with hdirectory | ⟨place, target, hlink⟩
  · rw [hdirectory]
    exact ⟨rfl, rfl⟩
  · have hself : directory.joinAll [] = directory := rfl
    have hkept : ∀ kind, Examples.enters ⟨directory, [], kind⟩ = true := by
      rintro (_ | _ | _) <;> rfl
    have hbehind : disk.descend rule directory (levels + 1) [] [] (.link target)
        = Traversal.append ⟨[⟨directory, [], .link⟩], none⟩ fun _ =>
          .each (fun child => disk.descend rule directory levels [⟨directory, here⟩]
            [child.1] child.2) (disk.listing here) := by
      rw [descend.eq_def]
      simp only [inspect, hself, hstay, hrule, hkept, hstart, List.isEmpty_nil]
      rfl
    rw [hlink, descend_directory, hrule, hself, if_pos (hkept _), hstart]
    simp only [hbehind]
    rw [Traversal.append_of_fault_none rfl, Traversal.append_of_fault_none rfl]
    exact ⟨rfl, rfl⟩

/-! ### What a scan comes to -/

/-- A directory below another one, to which visible directories lead. -/
structure Folder (disk : Disk) (here names : Location) : Prop where
  entry : disk.entryAt (here ++ names) = some .directory
  visible : ∀ folder ∈ names, isVisibleDirectory folder = true

/-- A script below a directory, to which visible directories lead. -/
structure Script (disk : Disk) (here names : Location) (content : Content) : Prop where
  entry : disk.entryAt (here ++ names) = some (.file content)
  source : ∃ stem, stem ≠ "" ∧ names.getLast? = some (stem ++ ".py")
  visible : ∀ folder ∈ names.dropLast, isVisibleDirectory folder = true

/-- The path of the names behind a directory's path is too long to be looked up. -/
def TooLong (directory : FilePath) (names : Location) : Prop :=
  maxPathBytes < (directory.joinAll names).text.utf8ByteSize

/-- What a scan has to look up: visible directories and scripts. -/
def LookedUp (disk : Disk) (here names : Location) : Prop :=
  disk.Folder here names ∨ ∃ content, disk.Script here names content

instance (directory : FilePath) (names : Location) : Decidable (TooLong directory names) :=
  inferInstanceAs (Decidable (_ < _))

/-- The visits of everything that a scan comes to, paths as written. -/
def scanned (disk : Disk) (directory : FilePath) (here : Location) (levels : Nat)
    (names : List String) (entry : Entry) : List Visit :=
  (disk.visitsBelow Examples.enters here levels names entry).map fun visit =>
    { visit with path := directory.joinAll visit.names }

theorem Folder.above {disk : Disk} (hdisk : disk.WellFormed) {here names more : Location}
    (h : disk.Folder here (names ++ more)) : disk.Folder here names := by
  refine ⟨?_, (List.forall_mem_append.mp h.visible).1⟩
  have hentry := h.entry
  rw [← List.append_assoc] at hentry
  cases more with
  | nil => rwa [List.append_nil] at hentry
  | cons name rest => exact hdisk.directory_above (List.cons_ne_nil name rest) hentry

section

variable {disk : Disk} (hdisk : disk.WellFormed) {directory : FilePath} {here : Location}
  (hstart : disk.find true directory = .ok (here, .directory))
  {rule : TraversalRule} (hrule : rule.keep = Examples.enters)

/-- Directories are entered whose names are visible. -/
theorem enters_directory {path : FilePath} {names : List String}
    (hvisible : ∀ folder ∈ names.dropLast, isVisibleDirectory folder = true) :
    Examples.enters ⟨path, names, .directory⟩ = true
      ↔ ∀ folder ∈ names, isVisibleDirectory folder = true := by
  rcases List.eq_nil_or_concat' names with rfl | ⟨front, name, rfl⟩
  · simp [Examples.enters, Visit.name?]
  · rw [List.dropLast_concat] at hvisible
    simp only [Examples.enters, Visit.name?, List.getLast?_concat, List.forall_mem_append,
      List.forall_mem_singleton, decide_not, decide_true, Bool.not_true, Bool.false_or]
    exact ⟨fun hname => ⟨hvisible, hname⟩, fun h => h.2⟩

/-- A visible directory is scanned with all that is in it, and another one not at all. -/
theorem scanned_directory {levels : Nat} {names : Location}
    (hvisible : ∀ folder ∈ names.dropLast, isVisibleDirectory folder = true) :
    disk.scanned directory here (levels + 1) names .directory =
      if ∀ folder ∈ names, isVisibleDirectory folder = true then
        ⟨directory.joinAll names, names, .directory⟩ :: (disk.listing (here ++ names)).flatMap
          fun child => disk.scanned directory here levels (names ++ [child.1]) child.2
      else [] := by
  rw [scanned, visitsBelow, visitAt, Entry.kind]
  simp only [enters_directory hvisible]
  split
  · rw [List.map_cons, List.map_flatMap]
    rfl
  · rfl

include hdisk hstart

/-- What is no link is found by its path, if that is not too long. -/
theorem find_tooLong {names : Location} {entry : Entry}
    (hentry : disk.entryAt (here ++ names) = some entry) (hlink : ∀ target, entry ≠ .link target) :
    disk.find true (directory.joinAll names) = if TooLong directory names then .error .nameTooLong
      else .ok (here ++ names, entry) := hdisk.find_joinAll hstart hentry hlink

include hrule

/-- What a scan does at a directory to which visible directories lead. -/
theorem descend_enters {levels : Nat} {ancestors : List Ancestor} {names : Location}
    (hentry : disk.entryAt (here ++ names) = some .directory)
    (hvisible : ∀ folder ∈ names.dropLast, isVisibleDirectory folder = true) :
    disk.descend rule directory (levels + 1) ancestors names .directory =
      if ∀ folder ∈ names, isVisibleDirectory folder = true then
        if TooLong directory names then ⟨[⟨directory.joinAll names, names, .directory⟩],
          some (.traversal (directory.joinAll names) .nameTooLong)⟩
        else Traversal.append ⟨[⟨directory.joinAll names, names, .directory⟩], none⟩ fun _ =>
          .each (fun child => disk.descend rule directory levels
            (⟨directory.joinAll names, here ++ names⟩ :: ancestors) (names ++ [child.1]) child.2)
            (disk.listing (here ++ names))
      else ⟨[], none⟩ := by
  rw [descend_directory, hrule, find_tooLong hdisk hstart hentry nofun]
  simp only [enters_directory hvisible]
  by_cases hlong : TooLong directory names
  · simp only [if_pos hlong]
  · simp only [if_neg hlong]

/-- **The walk comes to all scripts**, or to a visible directory that cannot be looked up. -/
theorem descend_scripts (hfree : disk.LinkFree here) {levels : Nat} {ancestors : List Ancestor}
    {names : Location} {entry : Entry} (hentry : disk.entryAt (here ++ names) = some entry)
    (hvisible : ∀ folder ∈ names.dropLast, isVisibleDirectory folder = true)
    (hdeep : disk.entries.length < levels + (here ++ names).length) :
    Traversal.Repeats (fun fault => ∃ names, disk.Folder here names ∧ TooLong directory names
        ∧ fault = .traversal (directory.joinAll names) .nameTooLong)
      ⟨disk.scanned directory here levels names entry, none⟩
      (disk.descend rule directory levels ancestors names entry) := by
  induction levels generalizing ancestors names entry with
  | zero =>
    have hlength := hdisk.length_le hentry
    omega
  | succ levels ih =>
    cases entry with
    | link target => exact absurd rfl (hfree.kind_ne hentry)
    | file content =>
      -- Files are kept whatever they are called; which of them are scripts is asked later.
      have hkept : ∀ path, Examples.enters ⟨path, names, .file⟩ = true := fun _ => rfl
      have hnothing : disk.listing (here ++ names) = [] :=
        hdisk.listing_eq_nil (by simp [hentry])
      rw [descend_file, hrule, if_pos (hkept _), scanned, visitsBelow, visitAt, Entry.kind,
        if_pos (hkept _), hnothing]
      exact .inl ⟨rfl, rfl⟩
    | directory =>
      rw [descend_enters hdisk hstart hrule hentry hvisible, scanned_directory hvisible]
      split
      swap
      · exact .inl ⟨rfl, rfl⟩
      rename_i hkept
      split
      · exact .inr ⟨_, rfl, ⟨names, ⟨hentry, hkept⟩, ‹_›, rfl⟩, List.nil_prefix⟩
      -- Both the walk and the list have the directory first and then what is in it.
      have hall : (⟨⟨directory.joinAll names, names, .directory⟩ ::
          (disk.listing (here ++ names)).flatMap fun child =>
            disk.scanned directory here levels (names ++ [child.1]) child.2, none⟩ : Traversal)
          = Traversal.append ⟨[⟨directory.joinAll names, names, .directory⟩], none⟩ fun _ =>
            .each (fun child => ⟨disk.scanned directory here levels (names ++ [child.1]) child.2,
              none⟩) (disk.listing (here ++ names)) := by
        rw [Traversal.append_of_fault_none rfl, Traversal.each_eq_flatMap fun _ _ => rfl]
        rfl
      rw [hall]
      refine .append rfl (.inl ⟨rfl, rfl⟩) (.each (fun _ _ => rfl) fun child hchild => ?_)
      have hthere := hdisk.mem_listing.mp hchild
      rw [List.append_assoc] at hthere
      refine ih hthere (by rwa [List.dropLast_concat]) ?_
      rw [← List.append_assoc, List.length_append, List.length_singleton]
      omega

/-- A walk that comes to its end has looked up every visible directory. -/
theorem descend_looksUp {levels : Nat} {ancestors : List Ancestor} {names more : Location}
    {entry : Entry} (hentry : disk.entryAt (here ++ names) = some entry)
    (hdeep : disk.entries.length < levels + (here ++ names).length)
    (hgoes : (disk.descend rule directory levels ancestors names entry).fault = none)
    (hfolder : disk.Folder here (names ++ more)) : ¬ TooLong directory (names ++ more) := by
  induction levels generalizing ancestors names more entry with
  | zero =>
    have hlength := hdisk.length_le hentry
    omega
  | succ levels ih =>
    have habove := hfolder.above hdisk
    cases hentry.symm.trans habove.entry
    rw [descend_enters hdisk hstart hrule hentry fun folder hmem =>
      habove.visible folder (List.mem_of_mem_dropLast hmem), if_pos habove.visible] at hgoes
    split at hgoes
    · cases hgoes
    rename_i hshort
    cases more with
    | nil => rwa [List.append_nil]
    | cons name rest =>
      have hfaults := Traversal.fault_each_eq_none (Traversal.fault_append_eq_none hgoes).2
      rw [← List.singleton_append, ← List.append_assoc] at hfolder ⊢
      have hchild := (hfolder.above hdisk).entry
      rw [← List.append_assoc] at hchild
      have hgo := hfaults (name, .directory) (hdisk.mem_listing.mpr hchild)
      rw [List.append_assoc] at hchild
      refine ih hchild ?_ hgo hfolder
      rw [← List.append_assoc, List.length_append, List.length_singleton]
      omega

/-- A scan comes to all scripts and looks up every visible directory, or ends at one that it cannot
look up. -/
theorem traverse_scripts (hfree : disk.LinkFree here) (hstay : rule.followLinks = false)
    (hdeep : disk.entries.length < rule.levels) :
    Traversal.Repeats (fun fault => ∃ names, disk.Folder here names ∧ TooLong directory names
        ∧ fault = .traversal (directory.joinAll names) .nameTooLong)
      ⟨disk.scanned directory here rule.levels [] .directory, none⟩ (disk.traverse rule directory)
    ∧ ((disk.traverse rule directory).fault = none →
      ∀ names, disk.Folder here names → ¬ TooLong directory names) := by
  obtain ⟨levels, hlevels⟩ := Nat.exists_eq_succ_of_ne_zero (Nat.ne_zero_of_lt hdeep)
  have hroot : disk.entryAt (here ++ []) = some .directory := by
    rw [List.append_nil]
    exact entryAt_of_resolve (resolve_of_find hstart)
  have hmore : disk.entries.length < levels + 1 + (here ++ []).length :=
    (hlevels ▸ hdeep).trans_le (Nat.le_add_right _ _)
  obtain ⟨hfault, hscripts⟩ := traverse_start hstart hstay hrule hlevels
  rw [hlevels, Traversal.Repeats, hfault, hscripts]
  exact ⟨descend_scripts hdisk hstart hrule hfree hroot (by simp) hmore, fun hgoes names hfolder =>
    descend_looksUp hdisk hstart hrule hroot hmore hgoes hfolder⟩

end

/-! ### The scripts among the visits -/

theorem isScript_iff {visit : Visit} : Examples.isScript visit = true
    ↔ visit.kind = .file ∧ visit.path.extension? = some Python.moduleExtension := by
  rw [Examples.isScript, Bool.and_eq_true, decide_eq_true_eq, beq_iff_eq]

/-- Sources have something in front of their extension. -/
theorem extension?_join {name : String} (h : IsFileName name) (path : FilePath) :
    (path.join name).extension? = some Python.moduleExtension
      ↔ ∃ stem, stem ≠ "" ∧ name = stem ++ ".py" := by
  rw [FilePath.extension?, FilePath.fileName?_join h, Option.bind_some]
  constructor
  · intro hsplit
    obtain ⟨stem, -, hne, hname⟩ := @FilePath.eq_stem_append name "py" h (by
      rwa [FilePath.extension?, FilePath.fileName?_mk h, Option.bind_some])
    exact ⟨stem, hne, by rw [hname, String.append_assoc]; rfl⟩
  · rintro ⟨stem, hne, rfl⟩
    exact congrArg Prod.snd (@FilePath.splitExtension_append stem "py" hne (by decide))

theorem joinAll_concat (path : FilePath) (front : List String) (name : String) :
    path.joinAll (front ++ [name]) = (path.joinAll front).join name := by
  simp [FilePath.joinAll]

theorem Script.folder {disk : Disk} (hdisk : disk.WellFormed) {here names : Location}
    {content : Content} (h : disk.Script here names content) {above : Location}
    (habove : above <+: names) (hne : above ≠ names) : disk.Folder here above := by
  obtain ⟨rest, rfl⟩ := habove
  have hrest : rest ≠ [] := fun hnil => hne (by rw [hnil, List.append_nil])
  have hentry := h.entry
  have hvisible := h.visible
  rw [← List.append_assoc] at hentry
  rw [List.dropLast_append_of_ne_nil hrest] at hvisible
  exact ⟨hdisk.directory_above hrest hentry, (List.forall_mem_append.mp hvisible).1⟩

/-- The visits of the scripts that a scan comes to. -/
def scripts (disk : Disk) (directory : FilePath) (here : Location) : List Visit :=
  (disk.scanned directory here disk.everyLevel [] .directory).filter Examples.isScript

/-- A file is a script by its last name. -/
theorem isScript_file {names : Location} (hproper : names.Proper) (hne : names ≠ [])
    (directory : FilePath) : Examples.isScript ⟨directory.joinAll names, names, .file⟩ = true
      ↔ ∃ stem, stem ≠ "" ∧ names.getLast? = some (stem ++ ".py") := by
  obtain ⟨front, name, rfl⟩ := (List.eq_nil_or_concat' names).resolve_left hne
  rw [isScript_iff, joinAll_concat, extension?_join (hproper name (by simp))]
  simp

/-- The directories on the way to a file that is kept are visible. -/
theorem visible_of_kept {disk : Disk} (hdisk : disk.WellFormed) {here names : Location}
    {content : Content} (hentry : disk.entryAt (here ++ names) = some (.file content))
    (hkept : ∀ above, above <+: names → disk.Kept Examples.enters here above) :
    ∀ folder ∈ names.dropLast, isVisibleDirectory folder = true := by
  intro folder hfolder
  -- The directory ends the names down to it, and more names come behind.
  obtain ⟨before, behind, hnames⟩ := List.append_of_mem hfolder
  obtain ⟨front, last, rfl⟩ := (List.eq_nil_or_concat' names).resolve_left fun hnil => by
    simp [hnil] at hfolder
  rw [List.dropLast_concat] at hnames
  subst hnames
  obtain ⟨entry, habove, hentered⟩ := hkept (before ++ [folder]) (by simp)
  have hlonger : disk.entryAt (here ++ (before ++ [folder]) ++ (behind ++ [last]))
      = some (.file content) := by simpa using hentry
  cases habove.symm.trans (hdisk.directory_above (by simp) hlonger)
  simpa [Examples.enters, Visit.name?, visitAt, Entry.kind] using hentered

/-- A script is kept, and so are the directories on the way to it. -/
theorem Script.kept {disk : Disk} (hdisk : disk.WellFormed) {here names : Location}
    {content : Content} (h : disk.Script here names content) {above : Location}
    (habove : above <+: names) : disk.Kept Examples.enters here above := by
  by_cases hwhole : above = names
  · exact ⟨.file content, hwhole ▸ h.entry, rfl⟩
  · have hfolder := h.folder hdisk habove hwhole
    exact ⟨.directory, hfolder.entry, (enters_directory fun folder hmem =>
      hfolder.visible folder (List.mem_of_mem_dropLast hmem)).mpr hfolder.visible⟩

/-- **The scripts among the visits** are the scripts below the directory. -/
theorem mem_scripts {disk : Disk} (hdisk : disk.WellFormed) {here : Location}
    (hhere : disk.entryAt here = some .directory) (directory : FilePath) {visit : Visit} :
    visit ∈ disk.scripts directory here ↔ ∃ names content, disk.Script here names content
      ∧ visit = ⟨directory.joinAll names, names, .file⟩ := by
  have hroot : disk.entryAt (here ++ []) = some .directory := by rwa [List.append_nil]
  have hplaces : ∀ {names content}, disk.entryAt (here ++ names) = some (.file content) →
      names.Proper ∧ names ≠ [] := by
    intro names content hentry
    refine ⟨(Location.Proper.of_append (hdisk.proper hentry)).2, fun hnil => ?_⟩
    cases (hnil ▸ hentry).symm.trans hroot
  rw [scripts, List.mem_filter, scanned, List.mem_map]
  constructor
  · rintro ⟨⟨found, hfound, rfl⟩, hscript⟩
    obtain ⟨names, entry, -, hentry, rfl, hkept⟩ := (hdisk.mem_visitsBelow hroot).mp hfound
    cases entry with
    | directory | link _ => cases (isScript_iff.mp hscript).1
    | file content =>
      obtain ⟨hproper, hne⟩ := hplaces hentry
      exact ⟨names, content, ⟨hentry, (isScript_file hproper hne directory).mp hscript,
        visible_of_kept hdisk hentry hkept⟩, rfl⟩
  · rintro ⟨names, content, hscript, rfl⟩
    obtain ⟨hproper, hne⟩ := hplaces hscript.entry
    have hdeep := disk.lt_everyLevel
    have hlength := hdisk.length_le hscript.entry
    rw [List.length_append] at hlength
    refine ⟨⟨visitAt here names (.file content), (hdisk.mem_visitsBelow hroot).mpr
      ⟨names, .file content, by omega, hscript.entry, rfl, fun above => ?_⟩, rfl⟩, ?_⟩
    · exact hscript.kept hdisk
    · exact (isScript_file hproper hne directory).mpr hscript.source

theorem isScript_of_mem_scripts {disk : Disk} {directory : FilePath} {here : Location}
    {visit : Visit} (h : visit ∈ disk.scripts directory here) : Examples.isScript visit = true :=
  (List.mem_filter.mp h).2

/-- The scripts are come to in the order of their places. -/
theorem scripts_sorted {disk : Disk} (hdisk : disk.WellFormed) {here : Location}
    (hhere : disk.entryAt here = some .directory) (directory : FilePath) :
    (disk.scripts directory here).Pairwise fun a b => a.names < b.names := by
  refine List.Pairwise.filter _ ?_
  rw [scanned, List.pairwise_map]
  exact hdisk.visitsBelow_sorted _ _ (by rwa [List.append_nil])

end Disk

namespace Disk

variable {disk : Disk} (hdisk : disk.WellFormed) {here : Location}

include hdisk

theorem Script.proper {names : Location} {content : Content} (h : disk.Script here names content) :
    names.Proper ∧ names ≠ [] := by
  obtain ⟨stem, -, hlast⟩ := h.source
  exact ⟨(Location.Proper.of_append (hdisk.proper h.entry)).2, fun hnil => by simp [hnil] at hlast⟩

/-- With its extension the name of a script is its path again. -/
theorem Script.name_append {names : Location} {content : Content}
    (h : disk.Script here names content) (hdots : names.getLast? ≠ some "..py") :
    Examples.scriptName names ++ ".py" = Text.join '/' names := by
  obtain ⟨stem, hstem, hlast⟩ := h.source
  obtain ⟨folders, rfl⟩ := List.getLast?_eq_some_iff.mp hlast
  have hproper := (h.proper hdisk).1
  have hdot : stem ≠ "." := by
    rintro rfl
    exact hdots (by simp)
  rw [Examples.scriptName_eq (fun folder hfolder => hproper folder (by simp [hfolder]))
    (hproper _ (by simp)) hstem hdot]
  cases folders with
  | nil => simp [Text.join, Text.glue]
  | cons folder rest =>
    rw [Text.join_concat '/' (by simp), Text.join_concat '/' (by simp), String.append_assoc]

/-- Scripts at different places have different paths. -/
theorem Script.eq_of_join {names other : Location} {content found : Content}
    (h : disk.Script here names content) (hother : disk.Script here other found)
    (heq : Text.join '/' names = Text.join '/' other) : names = other := by
  obtain ⟨hproper, hne⟩ := h.proper hdisk
  obtain ⟨hproper', hne'⟩ := hother.proper hdisk
  rw [← Text.pieces_join hne fun name hname => (hproper name hname).no_separator, heq,
    Text.pieces_join hne' fun name hname => (hproper' name hname).no_separator]

/-- A script is read unless its path is too long. -/
theorem Script.readText {directory : FilePath}
    (hstart : disk.find true directory = .ok (here, .directory)) {names : Location} {text : String}
    (h : disk.Script here names (.text text)) : disk.readText (directory.joinAll names)
      = if TooLong directory names then .error .nameTooLong else .ok text := by
  have hfile : ∀ target, Entry.file (.text text) ≠ .link target := by
    rintro target heq
    cases heq
  rw [Disk.readText, find_tooLong hdisk hstart h.entry hfile]
  by_cases hlong : TooLong directory names
  · simp only [if_pos hlong]
  · simp only [if_neg hlong]

end Disk

end ApiStubs
