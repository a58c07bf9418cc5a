import ApiStubs.Examples
import ApiStubs.Proofs.Replanning

/-!
# Proofs — Rescanning — reading a directory of scripts again

A scan of scripts looks at every directory below its start, also at those that were made for pages
since an earlier scan.  These hold no scripts, so the second scan reads what the first one read,
unless one of them has a path that is too long to be looked up (`Disk.OutOfReach`): then the scan
ends there, with a fault (`Disk.Sourced.scan_again`).
-/

namespace ApiStubs

open FilePath (IsFileName)

/-- A path with the extension of modules is called by the name of a source. -/
theorem FilePath.isSource_of_extension? {path : FilePath}
    (h : path.extension? = some Python.moduleExtension) :
    ∃ name, path.fileName? = some name ∧ Python.IsSource name := by
  obtain ⟨name, hname, hsplit⟩ := Option.bind_eq_some_iff.mp h
  refine ⟨name, hname, ?_⟩
  rw [splitExtension] at hsplit
  split at hsplit
  · rename_i before after hlast
    split at hsplit
    · cases hsplit
    · cases hsplit
      rw [Text.eq_of_splitLast? hlast, String.append_assoc]
      exact Python.isSource_append before
  · cases hsplit

/-! ### Traversals that come to the same scripts -/

namespace Traversal

/-- The scripts among the visits. -/
def scripts (traversal : Traversal) : List Visit := traversal.visits.filter Examples.isScript

/-- A traversal comes to the scripts of another one, or ends at one of some faults when it has come
to the first of them. -/
def Repeats (lost : Fault → Prop) (first again : Traversal) : Prop :=
  (again.fault = none ∧ again.scripts = first.scripts)
    ∨ ∃ fault, again.fault = some fault ∧ lost fault ∧ again.scripts <+: first.scripts

theorem append_of_fault_none {first : Traversal} (h : first.fault = none)
    (second : Unit → Traversal) :
    first.append second = ⟨first.visits ++ (second ()).visits, (second ()).fault⟩ := by
  rw [append, h]

theorem append_of_fault {first : Traversal} {fault : Fault} (h : first.fault = some fault)
    (second : Unit → Traversal) : first.append second = first := by
  rw [append, h]

theorem fault_append_eq_none {first : Traversal} {second : Unit → Traversal}
    (h : (first.append second).fault = none) :
    first.fault = none ∧ (second ()).fault = none := by
  cases hfault : first.fault with
  | none =>
    rw [append_of_fault_none hfault] at h
    exact ⟨rfl, h⟩
  | some fault =>
    rw [append_of_fault hfault, hfault] at h
    cases h

theorem fault_each_eq_none {α : Type} {go : α → Traversal} {members : List α}
    (h : (each go members).fault = none) : ∀ a ∈ members, (go a).fault = none := by
  induction members with
  | nil => simp
  | cons a rest ih =>
    obtain ⟨hfirst, hrest⟩ := fault_append_eq_none h
    exact List.forall_mem_cons.mpr ⟨hfirst, ih hrest⟩

/-- Members that are left out are gone over without a visit. -/
theorem each_filterMap {α β : Type} (go : β → Traversal) (f : α → Option β) (members : List α) :
    each go (members.filterMap f)
      = each (fun a => match f a with | none => ⟨[], none⟩ | some b => go b) members := by
  induction members with
  | nil => rfl
  | cons a rest ih =>
    rw [each]
    cases hmember : f a with
    | none =>
      rw [List.filterMap_cons_none hmember, ih, append_of_fault_none rfl]
      rfl
    | some b =>
      rw [List.filterMap_cons_some hmember, each, ih]

theorem each_nothing {α : Type} {go : α → Traversal} {members : List α}
    (h : ∀ a ∈ members, go a = ⟨[], none⟩) : each go members = ⟨[], none⟩ := by
  induction members with
  | nil => rfl
  | cons a rest ih =>
    obtain ⟨hfirst, hrest⟩ := List.forall_mem_cons.mp h
    rw [each, hfirst, append_of_fault_none rfl, ih hrest]
    rfl

namespace Repeats

variable {lost : Fault → Prop}

/-- Traversals one behind the other repeat if the first has come to its end. -/
theorem append {first again : Traversal} {second more : Unit → Traversal}
    (hfirst : first.fault = none) (h : Repeats lost first again)
    (hmore : Repeats lost (second ()) (more ())) :
    Repeats lost (first.append second) (again.append more) := by
  rw [append_of_fault_none hfirst]
  rcases h with ⟨hagain, hsame⟩ | ⟨fault, hfault, hlost, hbegun⟩
  · rw [append_of_fault_none hagain]
    rw [scripts, scripts] at hsame
    rcases hmore with ⟨hnone, hrest⟩ | ⟨fault, hfault, hlost, hbegun⟩
    · rw [scripts, scripts] at hrest
      exact .inl ⟨hnone, by rw [scripts, scripts, List.filter_append, List.filter_append, hsame, hrest]⟩
    · rw [scripts, scripts] at hbegun
      refine .inr ⟨fault, hfault, hlost, ?_⟩
      rw [scripts, scripts, List.filter_append, List.filter_append, hsame]
      exact (List.prefix_append_right_inj _).mpr hbegun
  · rw [append_of_fault hfault]
    refine .inr ⟨fault, hfault, hlost, hbegun.trans ?_⟩
    rw [scripts, scripts, List.filter_append]
    exact List.prefix_append _ _

theorem each {α : Type} {go again : α → Traversal} {members : List α}
    (hgo : ∀ a ∈ members, (go a).fault = none)
    (h : ∀ a ∈ members, Repeats lost (go a) (again a)) :
    Repeats lost (Traversal.each go members) (Traversal.each again members) := by
  induction members with
  | nil => exact .inl ⟨rfl, rfl⟩
  | cons a rest ih =>
    obtain ⟨hfirst, hrest⟩ := List.forall_mem_cons.mp h
    obtain ⟨hgoFirst, hgoRest⟩ := List.forall_mem_cons.mp hgo
    exact hfirst.append hgoFirst (ih hgoRest hrest)

/-- What is no script may be visited once more. -/
theorem visited {first again : Traversal} {visit : Visit} (hvisit : Examples.isScript visit = false)
    (h : Repeats lost first again) :
    Repeats lost first (Traversal.append ⟨[visit], none⟩ fun _ => again) := by
  rw [append_of_fault_none rfl]
  have hscripts : ∀ fault, scripts ⟨[visit] ++ again.visits, fault⟩ = again.scripts := by
    intro fault
    rw [scripts, List.singleton_append, List.filter_cons_of_neg (by simp [hvisit]), scripts]
  rw [Repeats]
  simp only [hscripts]
  exact h

end Repeats

end Traversal

namespace Disk

/-! ### Directories below a path -/

theorem start_joinAll {names : List String} (h : ∀ name ∈ names, '/' ∉ name.toList) (disk : Disk)
    (path : FilePath) : disk.start (path.joinAll names) = disk.start path := by
  induction names generalizing path with
  | nil => rfl
  | cons name rest ih =>
    obtain ⟨hname, hrest⟩ := List.forall_mem_cons.mp h
    exact (ih hrest (path.join name)).trans (start_join hname disk path)

/-- A path that leads to a directory leads to the directories below it with their names behind. -/
theorem WellFormed.directoryAt?_joinAll {disk : Disk} (hdisk : disk.WellFormed)
    {directory : FilePath} {here names : Location} (hstart : disk.directoryAt? directory = some here)
    (hentry : disk.entryAt (here ++ names) = some .directory) :
    disk.directoryAt? (directory.joinAll names) = some (here ++ names) := by
  have hproper := (Location.Proper.of_append (hdisk.proper hentry)).2
  obtain ⟨left, hleft⟩ := walk_append (directoryAt?_eq_some.mp hstart)
  have hwalk := @walk_names _ hdisk true left here names [] hentry
  rw [List.append_nil] at hwalk
  rw [directoryAt?_eq_some, start_joinAll fun name hname => (hproper name hname).no_separator,
    FilePath.front_joinAll hproper, hleft, hwalk, walk_nil, hentry]

/-- What stands below a directory is found by its names behind the directory's path, if it is no link
and the path is not too long. -/
theorem WellFormed.find_joinAll {disk : Disk} (hdisk : disk.WellFormed)
    {directory : FilePath} {here names : Location} {entry : Entry}
    (hstart : disk.find true directory = .ok (here, .directory))
    (hentry : disk.entryAt (here ++ names) = some entry) (hlink : ∀ target, entry ≠ .link target) :
    disk.find true (directory.joinAll names)
      = if maxPathBytes < (directory.joinAll names).text.utf8ByteSize then .error .nameTooLong
        else .ok (here ++ names, entry) := by
  have hresolve := resolve_of_find hstart
  have hwalk := hresolve
  rw [resolve] at hwalk
  split at hwalk
  · cases hwalk
  split at hwalk
  · cases hwalk
  rename_i hshort
  have hdirectory : disk.directoryAt? directory = some here := by
    rw [directoryAt?, start, hwalk]
  rcases List.eq_nil_or_concat' names with rfl | ⟨front, name, rfl⟩
  · rw [List.append_nil, entryAt_of_resolve hresolve] at hentry
    cases hentry
    rw [List.append_nil, FilePath.joinAll, List.foldl_nil, if_neg hshort, hstart]
  · rw [← List.append_assoc] at hentry ⊢
    obtain ⟨habove, hname, hsize⟩ := hdisk.above hentry
    have hjoin : directory.joinAll (front ++ [name]) = (directory.joinAll front).join name := by
      simp [FilePath.joinAll]
    rw [hjoin]
    by_cases hlong : maxPathBytes < ((directory.joinAll front).join name).text.utf8ByteSize
    · rw [if_pos hlong, find, resolve_join hname, if_pos hlong]
    · rw [if_neg hlong, find, resolve_name hname (hdisk.directoryAt?_joinAll hdirectory habove)
        (fun target htarget => hlink target (Option.some.inj (hentry.symm.trans htarget)))
        ⟨hsize, Nat.not_lt.mp hlong⟩, hentry]

/-- What a traversal does at a directory. -/
theorem descend_directory (disk : Disk) (rule : TraversalRule) (path : FilePath) (levels : Nat)
    (ancestors : List Ancestor) (names : List String) :
    disk.descend rule path (levels + 1) ancestors names .directory =
      if rule.keep ⟨path.joinAll names, names, .directory⟩ then
        match disk.find true (path.joinAll names) with
        | .error cause => ⟨[⟨path.joinAll names, names, .directory⟩],
            some (.traversal (path.joinAll names) cause)⟩
        | .ok (here, _) => Traversal.append ⟨[⟨path.joinAll names, names, .directory⟩], none⟩
            fun _ => .each (fun child => disk.descend rule path levels
              (⟨path.joinAll names, here⟩ :: ancestors) (names ++ [child.1]) child.2)
              (disk.listing here)
      else ⟨[], none⟩ := by
  rw [descend.eq_def]
  simp only [inspect]
  cases rule.keep ⟨path.joinAll names, names, .directory⟩ <;> rfl

/-- What a traversal does at a file. -/
theorem descend_file (disk : Disk) (rule : TraversalRule) (path : FilePath) (levels : Nat)
    (ancestors : List Ancestor) (names : List String) (content : Content) :
    disk.descend rule path levels ancestors names (.file content) =
      if rule.keep ⟨path.joinAll names, names, .file⟩ then
        ⟨[⟨path.joinAll names, names, .file⟩], none⟩
      else ⟨[], none⟩ := by
  rw [descend.eq_def]
  simp only [inspect]
  cases rule.keep ⟨path.joinAll names, names, .file⟩ <;> rfl

/-- What a traversal makes of the names below its start, whether something stands there or not. -/
def descendAt (disk : Disk) (rule : TraversalRule) (path : FilePath) (here : Location)
    (levels : Nat) (ancestors : List Ancestor) (names : List String) : Traversal :=
  match disk.entryAt (here ++ names) with
  | none => ⟨[], none⟩
  | some entry => disk.descend rule path levels ancestors names entry

/-! ### Trees with more entries -/

/-- What a directory listed is listed still, among what has come to stand in it since. -/
theorem Grown.listing_eq {disk later : Disk} (h : Grown disk later) (hdisk : disk.WellFormed)
    (hlater : later.WellFormed) (here : Location) :
    disk.listing here = (later.listing here).filterMap fun child =>
      (disk.entryAt (here ++ [child.1])).map fun entry => (child.1, entry) := by
  have hsorted : ((later.listing here).filterMap fun child =>
      (disk.entryAt (here ++ [child.1])).map fun entry => (child.1, entry)).Pairwise
        fun a b => a.1 < b.1 := by
    rw [List.pairwise_filterMap]
    refine (hlater.listing_sorted here).imp fun hlt a ha b hb => ?_
    obtain ⟨_, -, rfl⟩ := Option.map_eq_some_iff.mp ha
    obtain ⟨_, -, rfl⟩ := Option.map_eq_some_iff.mp hb
    exact hlt
  refine Survey.eq_of_ordered (fun _ _ => lt_asymm) (hdisk.listing_sorted here) hsorted ?_
  rintro ⟨name, entry⟩
  rw [hdisk.mem_listing, List.mem_filterMap]
  constructor
  · intro hentry
    obtain ⟨found, hfound, -⟩ := h.entryAt hentry
    exact ⟨(name, found), hlater.mem_listing.mpr hfound, by rw [hentry]; rfl⟩
  · rintro ⟨child, -, hchild⟩
    obtain ⟨other, hother, hsame⟩ := Option.map_eq_some_iff.mp hchild
    cases hsame
    exact hother

/-- A directory that was made since, at a path that is too long to be looked up. -/
structure OutOfReach (disk later : Disk) (directory : FilePath) (here names : Location) : Prop where
  missing : disk.entryAt (here ++ names) = none
  made : later.entryAt (here ++ names) = some .directory
  long : maxPathBytes < (directory.joinAll names).text.utf8ByteSize

/-- The fault at which a traversal ends that comes to such a directory. -/
def Lost (disk later : Disk) (directory : FilePath) (here : Location) (fault : Fault) : Prop :=
  ∃ names, OutOfReach disk later directory here names
    ∧ fault = .traversal (directory.joinAll names) .nameTooLong

namespace Sourced

variable {disk later : Disk} (h : Sourced disk later) {directory : FilePath} {here : Location}
  {rule other : TraversalRule}

include h

/-- A script is a source, and was there before. -/
theorem not_isScript {names : Location} {content : Content}
    (hmissing : disk.entryAt (here ++ names) = none)
    (hentry : later.entryAt (here ++ names) = some (.file content)) (hnames : names ≠ []) :
    Examples.isScript ⟨directory.joinAll names, names, .file⟩ = false := by
  obtain ⟨front, name, rfl⟩ := (List.eq_nil_or_concat' names).resolve_left hnames
  rw [← List.append_assoc] at hmissing hentry
  have hname := (h.wellFormed.above hentry).2.1
  have hjoin : directory.joinAll (front ++ [name]) = (directory.joinAll front).join name := by
    simp [FilePath.joinAll]
  rw [Examples.isScript, hjoin, Bool.eq_false_iff, ne_eq, Bool.and_eq_true, not_and]
  rintro - hextension
  obtain ⟨own, hown, hsource⟩ := FilePath.isSource_of_extension? (beq_iff_eq.mp hextension)
  rw [FilePath.fileName?_join hname] at hown
  cases hown
  exact absurd (hmissing.symm.trans (h.sources _ _ _ hsource hentry)) (by simp)

/-- A file is visited as it was, or is no script. -/
theorem repeats_file (hstart : disk.find true directory = .ok (here, .directory))
    (hrule : rule.keep = Examples.enters) (hother : other.keep = Examples.enters) {levels more : Nat}
    {ancestors inside : List Ancestor} {names : Location} {content : Content}
    (hfound : later.entryAt (here ++ names) = some (.file content)) :
    Traversal.Repeats (Lost disk later directory here)
      (disk.descendAt rule directory here levels ancestors names)
      (later.descend other directory more inside names (.file content)) := by
  have hkept : Examples.enters ⟨directory.joinAll names, names, .file⟩ = true := rfl
  rw [descend_file, hother, if_pos hkept, descendAt]
  cases hentry : disk.entryAt (here ++ names) with
  | none =>
    have hnames : names ≠ [] := by
      rintro rfl
      rw [List.append_nil, entryAt_of_resolve (resolve_of_find hstart)] at hentry
      cases hentry
    refine .inl ⟨rfl, ?_⟩
    rw [Traversal.scripts, List.filter_cons_of_neg (by simp [h.not_isScript hentry hfound hnames])]
    rfl
  | some entry =>
    obtain ⟨found, hstill, hblank⟩ := h.grown.entryAt hentry
    cases hfound.symm.trans hstill
    obtain ⟨held, rfl⟩ := Entry.blank_eq_file.mp hblank.symm
    simp only [descend_file, hrule, hkept, if_true]
    exact .inl ⟨rfl, rfl⟩

/-- A directory that was made since holds no script, and ends the traversal if its path is too
long. -/
theorem repeats_made (hstart : disk.find true directory = .ok (here, .directory))
    (hother : other.keep = Examples.enters) {more : Nat} {inside : List Ancestor} {names : Location}
    (hmissing : disk.entryAt (here ++ names) = none)
    (hmade : later.entryAt (here ++ names) = some .directory)
    (hbelow : ∀ inside, ∀ child ∈ later.listing (here ++ names),
      Traversal.Repeats (Lost disk later directory here) ⟨[], none⟩
        (later.descend other directory more inside (names ++ [child.1]) child.2)) :
    Traversal.Repeats (Lost disk later directory here) ⟨[], none⟩
      (later.descend other directory (more + 1) inside names .directory) := by
  have hfind := h.wellFormed.find_joinAll (h.grown.find_directory hstart) hmade nofun
  rw [descend_directory, hother, hfind]
  by_cases hkept : Examples.enters ⟨directory.joinAll names, names, .directory⟩ = true
  swap
  · rw [if_neg hkept]
    exact .inl ⟨rfl, rfl⟩
  rw [if_pos hkept]
  by_cases hlong : maxPathBytes < (directory.joinAll names).text.utf8ByteSize
  · rw [if_pos hlong]
    exact .inr ⟨_, rfl, ⟨names, ⟨hmissing, hmade, hlong⟩, rfl⟩, List.nil_prefix⟩
  · rw [if_neg hlong]
    refine .visited rfl ?_
    have hnothing : Traversal.each (fun _ => ⟨[], none⟩) (later.listing (here ++ names))
        = ⟨[], none⟩ := Traversal.each_nothing fun _ _ => rfl
    rw [← hnothing]
    exact .each (fun _ _ => rfl) (hbelow _)

/-- What was gone over for the names in a directory is gone over for all that stand there now. -/
theorem each_listing (hdisk : disk.WellFormed) (levels : Nat) (ancestors : List Ancestor)
    (names : List String) :
    Traversal.each (fun child =>
        disk.descend rule directory levels ancestors (names ++ [child.1]) child.2)
        (disk.listing (here ++ names))
      = Traversal.each (fun child => disk.descendAt rule directory here levels ancestors
          (names ++ [child.1])) (later.listing (here ++ names)) := by
  rw [h.grown.listing_eq hdisk h.wellFormed, Traversal.each_filterMap]
  congr 1
  funext child
  rw [descendAt, ← List.append_assoc]
  cases disk.entryAt (here ++ names ++ [child.1]) <;> rfl

/-- A directory that was there is gone down into as it was. -/
theorem repeats_kept (hdisk : disk.WellFormed)
    (hstart : disk.find true directory = .ok (here, .directory))
    (hrule : rule.keep = Examples.enters) (hother : other.keep = Examples.enters) {levels more : Nat}
    {ancestors inside : List Ancestor} {names : Location}
    (hentry : disk.entryAt (here ++ names) = some .directory)
    (hgoes : (disk.descend rule directory (levels + 1) ancestors names .directory).fault = none)
    (hbelow : ∀ ancestors inside,
      (∀ child ∈ later.listing (here ++ names),
        (disk.descendAt rule directory here levels ancestors (names ++ [child.1])).fault = none) →
      ∀ child ∈ later.listing (here ++ names),
        Traversal.Repeats (Lost disk later directory here)
          (disk.descendAt rule directory here levels ancestors (names ++ [child.1]))
          (later.descend other directory more inside (names ++ [child.1]) child.2)) :
    Traversal.Repeats (Lost disk later directory here)
      (disk.descend rule directory (levels + 1) ancestors names .directory)
      (later.descend other directory (more + 1) inside names .directory) := by
  have hfind := hdisk.find_joinAll hstart hentry nofun
  have hstill := h.wellFormed.find_joinAll (h.grown.find_directory hstart)
    (h.grown.directory hentry) nofun
  rw [descend_directory, hrule, hfind] at hgoes ⊢
  rw [descend_directory, hother, hstill]
  by_cases hkept : Examples.enters ⟨directory.joinAll names, names, .directory⟩ = true
  swap
  · rw [if_neg hkept, if_neg hkept]
    exact .inl ⟨rfl, rfl⟩
  rw [if_pos hkept] at hgoes ⊢
  rw [if_pos hkept]
  by_cases hlong : maxPathBytes < (directory.joinAll names).text.utf8ByteSize
  · rw [if_pos hlong] at hgoes
    cases hgoes
  rw [if_neg hlong] at hgoes ⊢
  simp only [h.each_listing hdisk] at hgoes ⊢
  have hfaults := Traversal.fault_each_eq_none (Traversal.fault_append_eq_none hgoes).2
  exact .append rfl (.inl ⟨rfl, rfl⟩) (.each hfaults (hbelow _ _ hfaults))

/-- **One entry and what is below it** is gone over to the same scripts again: an entry that was
there is visited as it was, and one that was made since holds no script. -/
theorem descend_again (hdisk : disk.WellFormed)
    (hstart : disk.find true directory = .ok (here, .directory))
    (hrule : rule.keep = Examples.enters) (hother : other.keep = Examples.enters) {levels more : Nat}
    {ancestors inside : List Ancestor} {names : Location} {found : Entry}
    (hlevels : disk.entries.length < levels + (here ++ names).length)
    (hmore : later.entries.length < more + (here ++ names).length)
    (hfound : later.entryAt (here ++ names) = some found)
    (hgoes : (disk.descendAt rule directory here levels ancestors names).fault = none) :
    Traversal.Repeats (Lost disk later directory here)
      (disk.descendAt rule directory here levels ancestors names)
      (later.descend other directory more inside names found) := by
  induction more generalizing levels ancestors inside names found with
  | zero =>
    have hdepth := h.wellFormed.length_le hfound
    omega
  | succ more ih =>
    cases found with
    | link target => exact absurd hfound (h.linkless _ target)
    | file content => exact h.repeats_file hstart hrule hother hfound
    | directory =>
      have hbelow : ∀ levels ancestors inside,
          disk.entries.length < levels + ((here ++ names).length + 1) →
          (∀ child ∈ later.listing (here ++ names),
            (disk.descendAt rule directory here levels ancestors (names ++ [child.1])).fault
              = none) →
          ∀ child ∈ later.listing (here ++ names),
            Traversal.Repeats (Lost disk later directory here)
              (disk.descendAt rule directory here levels ancestors (names ++ [child.1]))
              (later.descend other directory more inside (names ++ [child.1]) child.2) := by
        intro levels ancestors inside hdeep hfaults child hchild
        have hlength : (here ++ (names ++ [child.1])).length = (here ++ names).length + 1 := by
          rw [← List.append_assoc, List.length_append, List.length_singleton]
        refine ih (hlength ▸ hdeep) (by omega) ?_ (hfaults child hchild)
        rw [← List.append_assoc]
        exact h.wellFormed.mem_listing.mp hchild
      rw [descendAt] at hgoes ⊢
      cases hentry : disk.entryAt (here ++ names) with
      | none =>
        -- nothing was in a directory that was not there
        have hnothing : ∀ child : String × Entry, disk.descendAt rule directory here
            (disk.entries.length + 1) [] (names ++ [child.1]) = ⟨[], none⟩ := by
          intro child
          rw [descendAt, ← List.append_assoc]
          cases hchild : disk.entryAt (here ++ names ++ [child.1]) with
          | none => rfl
          | some entry => exact absurd (hentry.symm.trans (hdisk.above hchild).1) (by simp)
        refine h.repeats_made hstart hother hentry hfound fun inside child hchild => ?_
        have hrepeats := hbelow (disk.entries.length + 1) [] inside (by omega)
          (fun child _ => by rw [hnothing]) child hchild
        rwa [hnothing] at hrepeats
      | some entry =>
        obtain ⟨still, hstill, hblank⟩ := h.grown.entryAt hentry
        cases hfound.symm.trans hstill
        obtain rfl := Entry.blank_eq_directory.mp hblank.symm
        have hdepth := hdisk.length_le hentry
        obtain ⟨fewer, rfl⟩ : ∃ fewer, levels = fewer + 1 := ⟨levels - 1, by omega⟩
        rw [hentry] at hgoes
        exact h.repeats_kept hdisk hstart hrule hother hentry hgoes fun ancestors inside hfaults =>
          hbelow fewer ancestors inside (by omega) hfaults

/-- A script that was read is read again, with the same text. -/
theorem readText_script (hdisk : disk.WellFormed) {path : FilePath} {text : String}
    (hscript : path.extension? = some Python.moduleExtension)
    (hread : disk.readText path = .ok text) : later.readText path = .ok text := by
  rw [Disk.readText] at hread ⊢
  split at hread
  · rename_i place content hfind
    cases hread
    have hresolve := resolve_of_find hfind
    obtain ⟨found, hfound, hblank⟩ := h.grown.find hfind
    obtain ⟨still, rfl⟩ := Entry.blank_eq_file.mp hblank
    rcases hdisk.named_of_resolve (h.grown.linkless h.linkless) hresolve with
      ⟨_, hno⟩ | ⟨above, name, hlook, hseparator, hlast, hno | ⟨_, htarget⟩⟩
    · cases hno
    · cases hno
    cases htarget
    obtain ⟨front, hfront⟩ := List.getLast?_eq_some_iff.mp hlast
    obtain ⟨own, hown, hsource⟩ := FilePath.isSource_of_extension? hscript
    rw [FilePath.fileName?_of_pieces hfront ⟨hseparator, hlook.no_filler, hlook.not_up⟩] at hown
    cases hown
    have hstill := h.sources _ _ _ hsource (entryAt_of_resolve (resolve_of_find hfound))
    cases (entryAt_of_resolve hresolve).symm.trans hstill
    rw [hfound]
  all_goals cases hread

end Sourced

end Disk

/-! ### Scripts that are read -/

namespace Examples

/-- Only scripts are read. -/
theorem readScripts_filter (disk : Disk) (visits : List Visit) (examples : Examples) :
    readScripts disk (visits.filter isScript) examples = readScripts disk visits examples := by
  induction visits generalizing examples with
  | nil => rfl
  | cons visit rest ih =>
    cases hscript : isScript visit with
    | true =>
      rw [List.filter_cons_of_pos hscript, readScripts, readScripts, if_pos hscript, if_pos hscript]
      simp only [ih]
    | false =>
      have hno : ¬ isScript visit = true := by simp [hscript]
      rw [List.filter_cons_of_neg hno, readScripts, if_neg hno, ih]

/-- The first of scripts that are all read are read. -/
theorem readScripts_prefix {disk : Disk} {visits all : List Visit} (h : visits <+: all)
    {examples found : Examples} (hread : readScripts disk all examples = .ok found) :
    ∃ first, readScripts disk visits examples = .ok first := by
  obtain ⟨rest, rfl⟩ := h
  induction visits generalizing examples with
  | nil => exact ⟨examples, rfl⟩
  | cons visit more ih =>
    rw [List.cons_append, readScripts] at hread
    rw [readScripts]
    split at hread
    · split at hread
      · rename_i text htext
        rw [if_pos ‹_›]
        exact ih hread
      · cases hread
    · rw [if_neg ‹_›]
      exact ih hread

/-- Scripts that were read are read again where the sources are the same. -/
theorem readScripts_again {disk later : Disk} (h : disk.Sourced later) (hdisk : disk.WellFormed)
    {visits : List Visit} {examples found : Examples}
    (hread : readScripts disk visits examples = .ok found) :
    readScripts later visits examples = .ok found := by
  induction visits generalizing examples with
  | nil => exact hread
  | cons visit rest ih =>
    rw [readScripts] at hread ⊢
    split at hread
    · rename_i hscript
      split at hread
      · rename_i text htext
        rw [if_pos hscript, h.readText_script hdisk
          (beq_iff_eq.mp (Bool.and_eq_true_iff.mp hscript).2) htext]
        exact ih hread
      · cases hread
    · rw [if_neg ‹_›]
      exact ih hread

/-- There is an index if all scripts are read and the traversal comes to its end. -/
theorem scan_eq_ok {disk : Disk} {directory : FilePath} {examples : Examples} :
    scan disk directory = .ok examples ↔ ∃ traversal,
      disk.traverse ⟨false, enters, disk.everyLevel⟩ directory = traversal
        ∧ readScripts disk traversal.visits {} = .ok examples ∧ traversal.fault = none := by
  rw [scan, Survey.bind_eq_ok]
  constructor
  · rintro ⟨found, hfound, hfault⟩
    split at hfault
    · cases hfault
    · rename_i hnone
      cases hfault
      exact ⟨_, rfl, hfound, hnone⟩
  · rintro ⟨traversal, rfl, hread, hnone⟩
    exact ⟨examples, hread, by rw [hnone]; rfl⟩

theorem scan_eq_error {disk : Disk} {directory : FilePath} {examples : Examples} {fault : Fault}
    (hread : readScripts disk (disk.traverse ⟨false, enters, disk.everyLevel⟩ directory).visits {}
      = .ok examples)
    (hfault : (disk.traverse ⟨false, enters, disk.everyLevel⟩ directory).fault = some fault) :
    scan disk directory = .error fault := by
  rw [scan, hread]
  simp only [hfault]
  rfl

end Examples

namespace Disk

/-- More levels than any location is deep. -/
theorem lt_everyLevel (disk : Disk) : disk.entries.length < disk.everyLevel := by
  refine Nat.lt_of_lt_of_le ?_
    (Nat.le_mul_of_pos_right (disk.entries.length + 2) (Nat.succ_pos (disk.entries.length + 1)))
  omega

theorem Linkless.traverse_eq {disk : Disk} (hfree : disk.Linkless) {directory : FilePath}
    {here : Location} (hstart : disk.find true directory = .ok (here, .directory))
    (rule : TraversalRule) : disk.traverse rule directory
      = disk.descend rule directory rule.levels [] [] .directory := by
  rw [traverse, hfree.find_follow, hstart]

/-- **A scan of scripts comes to the same** after pages were written, unless it comes to a directory
that was made for them at a path that is too long. -/
theorem Sourced.scan_again {disk later : Disk} (h : Sourced disk later) (hdisk : disk.WellFormed)
    {directory : FilePath} {here : Location}
    (hstart : disk.find true directory = .ok (here, .directory)) {examples : Examples}
    (hscan : Examples.scan disk directory = .ok examples) :
    Examples.scan later directory = .ok examples
      ∨ ∃ names, OutOfReach disk later directory here names
        ∧ Examples.scan later directory
          = .error (.traversal (directory.joinAll names) .nameTooLong) := by
  obtain ⟨traversal, rfl, hread, hfault⟩ := Examples.scan_eq_ok.mp hscan
  have hlater := h.grown.find_directory hstart
  have hentry := entryAt_of_resolve (resolve_of_find hlater)
  have hdirectory := entryAt_of_resolve (resolve_of_find hstart)
  have hfirst : disk.traverse ⟨false, Examples.enters, disk.everyLevel⟩ directory = disk.descendAt
      ⟨false, Examples.enters, disk.everyLevel⟩ directory here disk.everyLevel [] [] := by
    rw [(h.grown.linkless h.linkless).traverse_eq hstart, descendAt, List.append_nil, hdirectory]
  have hrepeats : Traversal.Repeats (Lost disk later directory here)
      (disk.traverse ⟨false, Examples.enters, disk.everyLevel⟩ directory)
      (later.traverse ⟨false, Examples.enters, later.everyLevel⟩ directory) := by
    rw [hfirst] at hfault ⊢
    rw [h.linkless.traverse_eq hlater]
    refine h.descend_again hdisk hstart rfl rfl ?_ ?_ (by rwa [List.append_nil]) hfault
    · exact Nat.lt_of_lt_of_le disk.lt_everyLevel (Nat.le_add_right _ _)
    · exact Nat.lt_of_lt_of_le later.lt_everyLevel (Nat.le_add_right _ _)
  have hsame := Examples.readScripts_again h hdisk hread
  rw [← Examples.readScripts_filter] at hsame
  rcases hrepeats with ⟨hnone, hscripts⟩ | ⟨fault, hlost, ⟨names, hreach, rfl⟩, hbegun⟩
  · refine .inl (Examples.scan_eq_ok.mpr ⟨_, rfl, ?_, hnone⟩)
    rw [← Examples.readScripts_filter]
    rw [Traversal.scripts, Traversal.scripts] at hscripts
    rwa [hscripts]
  · obtain ⟨begun, hreadBegun⟩ := Examples.readScripts_prefix hbegun hsame
    rw [Traversal.scripts, Examples.readScripts_filter] at hreadBegun
    exact .inr ⟨names, hreach, Examples.scan_eq_error hreadBegun hlost⟩

/-- The examples are found again, or a directory that was made since keeps them from being read. -/
theorem Sourced.examples_again {disk later : Disk} (h : Sourced disk later)
    (hdisk : disk.WellFormed) {settings : Settings} {examples? : Option Examples}
    (hexamples : settings.examples disk = .ok examples?) :
    settings.examples later = .ok examples?
      ∨ ∃ directory here names, settings.examples? = some directory
        ∧ disk.find true directory = .ok (here, .directory)
        ∧ OutOfReach disk later directory here names
        ∧ settings.examples later
          = .error (.traversal (directory.joinAll names) .nameTooLong) := by
  rw [Settings.examples] at hexamples ⊢
  cases hsettings : settings.examples? with
  | none =>
    rw [hsettings] at hexamples
    exact .inl hexamples
  | some directory =>
    simp only [hsettings] at hexamples
    split at hexamples
    swap
    · cases hexamples
    rename_i hdirectory
    obtain ⟨here, hstart⟩ := isDirectory_iff_find.mp hdirectory
    cases hscan : Examples.scan disk directory with
    | error fault =>
      rw [hscan] at hexamples
      cases hexamples
    | ok found =>
      rw [hscan] at hexamples
      cases hexamples
      simp only [if_pos (h.grown.isDirectory hdirectory)]
      rcases h.scan_again hdisk hstart hscan with hagain | ⟨names, hreach, hagain⟩
      · exact .inl (by rw [hagain]; rfl)
      · exact .inr ⟨directory, here, names, rfl, hstart, hreach, by rw [hagain]; rfl⟩

end Disk

end ApiStubs
