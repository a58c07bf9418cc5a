import ApiStubs.Proofs.Rerunning
import ApiStubs.Proofs.Scripts

/-!
# Proofs — Indexing — what the index of a directory of scripts holds

The index of a directory has one entry for each script that a scan comes to, by the name of the
script, and the lists for a symbol are in the order of these names (`Examples.Indexes`).

A script is read by its path as written from the start, as directories are looked up.  The system
refuses a path that is too long, and then there is no index: `Examples.scan_indexes`, and
`Examples.scan_lone_far` for a directory that is written in a roundabout way.
-/

namespace ApiStubs

namespace NameMap

variable {α : Type}

theorem mem_names {map : NameMap α} {name : String} :
    name ∈ map.names ↔ ∃ value, map.find? name = some value := by
  simp only [names, List.mem_map, Prod.exists, find?_eq_some]
  exact ⟨fun ⟨_, value, hmem, hname⟩ => ⟨value, hname ▸ hmem⟩,
    fun ⟨value, hmem⟩ => ⟨name, value, hmem, rfl⟩⟩

theorem nodup_names (map : NameMap α) : map.names.Nodup :=
  List.pairwise_map.mpr (map.ascending.imp fun hlt => ne_of_lt hlt)

end NameMap

/-! ### The index of scripts that are read -/

namespace Examples

/-- All scripts among the visits are read, or reading ends at one that cannot be read. -/
theorem readScripts_cases (disk : Disk) (visits : List Visit) (examples : Examples) :
    (∃ found, readScripts disk visits examples = .ok found ∧ ∀ visit ∈ visits,
        isScript visit = true → ∃ text, disk.readText visit.path = .ok text)
      ∨ ∃ visit ∈ visits, isScript visit = true ∧ ∃ cause,
        disk.readText visit.path = .error cause
        ∧ readScripts disk visits examples = .error (.disk cause) := by
  induction visits generalizing examples with
  | nil => exact .inl ⟨examples, rfl, nofun⟩
  | cons visit rest ih =>
    rw [readScripts]
    by_cases hscript : isScript visit = true
    · rw [if_pos hscript]
      cases hread : disk.readText visit.path with
      | error cause => exact .inr ⟨visit, List.mem_cons_self, hscript, cause, hread, rfl⟩
      | ok text =>
        rcases ih (examples.insert (scriptName visit.names) text) with
          ⟨found, hfound, hrest⟩ | ⟨other, hother, hfails⟩
        · exact .inl ⟨found, hfound, List.forall_mem_cons.mpr ⟨fun _ => ⟨text, hread⟩, hrest⟩⟩
        · exact .inr ⟨other, List.mem_cons_of_mem _ hother, hfails⟩
    · rw [if_neg hscript]
      rcases ih examples with ⟨found, hfound, hrest⟩ | ⟨other, hother, hfails⟩
      · exact .inl ⟨found, hfound,
          List.forall_mem_cons.mpr ⟨fun hno => absurd hno hscript, hrest⟩⟩
      · exact .inr ⟨other, List.mem_cons_of_mem _ hother, hfails⟩

theorem readScripts_reads {disk : Disk} {visits : List Visit} {examples found : Examples}
    (hread : readScripts disk visits examples = .ok found) :
    ∀ visit ∈ visits, isScript visit = true → ∃ text, disk.readText visit.path = .ok text := by
  rcases readScripts_cases disk visits examples with ⟨-, -, hall⟩ | ⟨-, -, -, cause, -, hno⟩
  · exact hall
  · cases hread.symm.trans hno

/-- Scripts of different names stand in the index beside what was there. -/
theorem find?_readScripts {disk : Disk} {visits : List Visit} {examples found : Examples}
    (hread : readScripts disk visits examples = .ok found)
    (hscripts : ∀ visit ∈ visits, isScript visit = true)
    (hapart : visits.Pairwise fun a b => scriptName a.names ≠ scriptName b.names)
    (name : String) (identifiers : List String) :
    found.scripts.find? name = some identifiers
      ↔ (∃ visit ∈ visits, scriptName visit.names = name ∧ ∃ text,
          disk.readText visit.path = .ok text ∧ identifiers = Python.identifiersIn text)
        ∨ (∀ visit ∈ visits, scriptName visit.names ≠ name)
          ∧ examples.scripts.find? name = some identifiers := by
  induction visits generalizing examples with
  | nil =>
    cases hread
    simp
  | cons visit rest ih =>
    obtain ⟨hscript, hscriptRest⟩ := List.forall_mem_cons.mp hscripts
    obtain ⟨hfirst, hrest⟩ := List.pairwise_cons.mp hapart
    rw [readScripts, if_pos hscript] at hread
    split at hread
    swap
    · cases hread
    rename_i text htext
    rw [ih hread hscriptRest hrest, insert, NameMap.find?_insert]
    -- The first script is found under its own name, which no later one has.
    by_cases hname : name = scriptName visit.names
    · subst hname
      rw [if_pos rfl, Option.some.injEq]
      constructor
      · rintro (⟨other, hother, hsame, -⟩ | ⟨-, rfl⟩)
        · exact absurd hsame.symm (hfirst other hother)
        · exact .inl ⟨visit, List.mem_cons_self, rfl, text, htext, rfl⟩
      · rintro (⟨other, hother, hsame, read, hother', rfl⟩ | ⟨hnone, -⟩)
        · rcases List.mem_cons.mp hother with rfl | hother
          · cases htext.symm.trans hother'
            exact .inr ⟨fun other hother => (hfirst other hother).symm, rfl⟩
          · exact absurd hsame.symm (hfirst other hother)
        · exact absurd rfl (hnone visit List.mem_cons_self)
    · rw [if_neg hname, List.forall_mem_cons, List.exists_mem_cons_iff]
      have hother : scriptName visit.names ≠ name := Ne.symm hname
      simp [hother]

/-- Each of them counts. -/
theorem size_readScripts {disk : Disk} {visits : List Visit} {found : Examples}
    (hread : readScripts disk visits {} = .ok found)
    (hscripts : ∀ visit ∈ visits, isScript visit = true)
    (hapart : visits.Pairwise fun a b => scriptName a.names ≠ scriptName b.names) :
    found.size = visits.length := by
  have htexts : ∀ visit ∈ visits, ∃ text, disk.readText visit.path = .ok text :=
    fun visit hvisit => readScripts_reads hread visit hvisit (hscripts visit hvisit)
  have hsame : found.scripts.names.Perm (visits.map fun visit => scriptName visit.names) := by
    refine (List.perm_ext_iff_of_nodup found.scripts.nodup_names
      (List.pairwise_map.mpr hapart)).mpr fun name => ?_
    simp only [NameMap.mem_names, find?_readScripts hread hscripts hapart, List.mem_map]
    constructor
    · rintro ⟨identifiers, ⟨visit, hvisit, hname, -⟩ | ⟨-, hno⟩⟩
      · exact ⟨visit, hvisit, hname⟩
      · cases hno
    · rintro ⟨visit, hvisit, hname⟩
      obtain ⟨text, htext⟩ := htexts visit hvisit
      exact ⟨_, .inl ⟨visit, hvisit, hname, text, htext, rfl⟩⟩
  have hlength := hsame.length_eq
  rwa [NameMap.names, List.length_map, List.length_map] at hlength

/-- A script is listed for the symbols that are among its identifiers. -/
theorem mem_mentioning {examples : Examples} {symbol name : String} :
    name ∈ examples.mentioning symbol
      ↔ ∃ identifiers, examples.scripts.find? name = some identifiers ∧ symbol ∈ identifiers := by
  rw [mentioning, List.mem_filterMap]
  constructor
  · rintro ⟨⟨found, identifiers⟩, hentry, hmentions⟩
    obtain ⟨hsymbol, hsame⟩ := Option.ite_none_right_eq_some.mp hmentions
    cases hsame
    exact ⟨identifiers, NameMap.find?_eq_some.mpr hentry, hsymbol⟩
  · rintro ⟨identifiers, hfind, hsymbol⟩
    exact ⟨(name, identifiers), NameMap.find?_eq_some.mp hfind, if_pos hsymbol⟩

/-- Scripts are listed in the order of their names. -/
theorem mentioning_sorted (examples : Examples) (symbol : String) :
    (examples.mentioning symbol).Pairwise (· < ·) := by
  rw [mentioning, List.pairwise_filterMap]
  refine examples.scripts.ascending.imp fun hlt a ha b hb => ?_
  cases (Option.ite_none_right_eq_some.mp ha).2
  cases (Option.ite_none_right_eq_some.mp hb).2
  exact hlt

/-- There is a list wherever there is something to list. -/
theorem listing_eq_empty {examples : Examples} {symbol : String} :
    examples.listing symbol = "" ↔ examples.mentioning symbol = [] := by
  rw [listing]
  split
  · rename_i hnone
    exact iff_of_true rfl hnone
  · rename_i names hsome
    exact iff_of_false (by simp [Page.heading]) hsome

/-! ### What is in an index -/

/-- **The index of the scripts below a directory**: each of them by its path without the extension,
which no other script has, with the identifiers written in it; and so in the lists for a symbol. -/
structure Indexes (disk : Disk) (here : Location) (examples : Examples) : Prop where
  find? : ∀ name identifiers, examples.scripts.find? name = some identifiers
    ↔ ∃ names text, disk.Script here names (.text text)
      ∧ name ++ ".py" = Text.join '/' names ∧ identifiers = Python.identifiersIn text
  apart : ∀ names other content found, disk.Script here names content →
    disk.Script here other found → Text.join '/' names = Text.join '/' other → names = other
  size : ∃ all : List Location, all.Nodup
    ∧ (∀ names, names ∈ all ↔ ∃ content, disk.Script here names content)
    ∧ examples.size = all.length
  mentioning : ∀ symbol name, name ∈ examples.mentioning symbol
    ↔ ∃ names text, disk.Script here names (.text text)
      ∧ name ++ ".py" = Text.join '/' names ∧ symbol ∈ Python.identifiersIn text
  sorted : ∀ symbol, (examples.mentioning symbol).Pairwise (· < ·)
  listing : ∀ symbol, examples.listing symbol = "" ↔ examples.mentioning symbol = []

end Examples

namespace Examples

section

variable {disk : Disk} (hdisk : disk.WellFormed) {directory : FilePath} {here : Location}
  (hhere : disk.entryAt here = some .directory)
  (hdots : ∀ names content, disk.Script here names content → names.getLast? ≠ some "..py")

include hdisk hhere hdots

/-- No two scripts have the same name: with its extension the name is the path, and the scan comes
to each path once. -/
theorem scripts_apart :
    (disk.scripts directory here).Pairwise fun a b => scriptName a.names ≠ scriptName b.names := by
  have hnames : ∀ visit ∈ disk.scripts directory here,
      ∃ content, disk.Script here visit.names content := by
    intro visit hvisit
    obtain ⟨names, content, hscript, rfl⟩ := (Disk.mem_scripts hdisk hhere directory).mp hvisit
    exact ⟨content, hscript⟩
  refine (Disk.scripts_sorted hdisk hhere directory).imp_of_mem fun {a b} ha hb hlt heq => ?_
  obtain ⟨content, hscript⟩ := hnames a ha
  obtain ⟨other, hother⟩ := hnames b hb
  have hpath := congrArg (· ++ ".py") heq
  simp only [hscript.name_append hdisk (hdots _ _ hscript),
    hother.name_append hdisk (hdots _ _ hother)] at hpath
  rw [hscript.eq_of_join hdisk hother hpath] at hlt
  exact lt_irrefl _ hlt

variable (htext : ∀ names content, disk.Script here names content →
    ∃ text, content = .text text ∧ disk.readText (directory.joinAll names) = .ok text)
  {examples : Examples} (hread : readScripts disk (disk.scripts directory here) {} = .ok examples)

include htext hread

/-- What stands in the index under a name is what the script of that name mentions. -/
theorem find?_scripts (name : String) (identifiers : List String) :
    examples.scripts.find? name = some identifiers
      ↔ ∃ names text, disk.Script here names (.text text)
        ∧ name ++ ".py" = Text.join '/' names ∧ identifiers = Python.identifiersIn text := by
  rw [find?_readScripts hread (fun _ => Disk.isScript_of_mem_scripts)
    (scripts_apart hdisk hhere hdots)]
  constructor
  · rintro (⟨visit, hvisit, rfl, text, hreads, rfl⟩ | ⟨-, hno⟩)
    · obtain ⟨names, content, hscript, rfl⟩ := (Disk.mem_scripts hdisk hhere directory).mp hvisit
      obtain ⟨found, rfl, hfound⟩ := htext names content hscript
      cases hfound.symm.trans hreads
      exact ⟨names, text, hscript, hscript.name_append hdisk (hdots _ _ hscript), rfl⟩
    · -- The scan starts with an index that holds nothing.
      cases hno
  · rintro ⟨names, text, hscript, hname, rfl⟩
    obtain ⟨found, hsame, hfound⟩ := htext _ _ hscript
    cases hsame
    refine .inl ⟨_, (Disk.mem_scripts hdisk hhere directory).mpr ⟨names, _, hscript, rfl⟩, ?_, text,
      hfound, rfl⟩
    rw [← hscript.name_append hdisk (hdots _ _ hscript)] at hname
    exact (String.append_left_inj ".py").mp hname.symm

/-- Scripts that are all read make an index. -/
theorem indexes_of_readScripts : Indexes disk here examples where
  find? := find?_scripts hdisk hhere hdots htext hread
  apart _ _ _ _ hscript hother := hscript.eq_of_join hdisk hother
  size := by
    refine ⟨(disk.scripts directory here).map Visit.names, ?_, fun names => ?_, ?_⟩
    · exact List.pairwise_map.mpr
        ((Disk.scripts_sorted hdisk hhere directory).imp fun hlt => ne_of_lt hlt)
    · rw [List.mem_map]
      constructor
      · rintro ⟨visit, hvisit, rfl⟩
        obtain ⟨names, content, hscript, rfl⟩ := (Disk.mem_scripts hdisk hhere directory).mp hvisit
        exact ⟨content, hscript⟩
      · rintro ⟨content, hscript⟩
        exact ⟨_, (Disk.mem_scripts hdisk hhere directory).mpr ⟨names, content, hscript, rfl⟩, rfl⟩
    · rw [List.length_map, size_readScripts hread (fun _ => Disk.isScript_of_mem_scripts)
        (scripts_apart hdisk hhere hdots)]
  mentioning symbol name := by
    rw [mem_mentioning]
    constructor
    · rintro ⟨identifiers, hfind, hsymbol⟩
      obtain ⟨names, text, hscript, hname, rfl⟩ :=
        (find?_scripts hdisk hhere hdots htext hread _ _).mp hfind
      exact ⟨names, text, hscript, hname, hsymbol⟩
    · rintro ⟨names, text, hscript, hname, hsymbol⟩
      exact ⟨_, (find?_scripts hdisk hhere hdots htext hread _ _).mpr
        ⟨names, text, hscript, hname, rfl⟩, hsymbol⟩
  sorted := mentioning_sorted examples
  listing _ := listing_eq_empty

end

/-- A scan comes no further than to a script that cannot be read. -/
theorem scan_of_unread {disk : Disk} {directory : FilePath} {fault : Fault}
    (hread : readScripts disk (disk.traverse ⟨false, enters, disk.everyLevel⟩ directory).visits {}
      = .error fault) : scan disk directory = .error fault := by
  rw [scan, hread]
  rfl

/-- A scan reads all scripts, or ends at a directory that it cannot look up or at a script that it
cannot read. -/
theorem scan_cases {disk : Disk} (hdisk : disk.WellFormed) {directory : FilePath} {here : Location}
    (hstart : disk.find true directory = .ok (here, .directory)) (hfree : disk.LinkFree here) :
    (∃ examples, scan disk directory = .ok examples
        ∧ readScripts disk (disk.scripts directory here) {} = .ok examples
        ∧ ∀ names, disk.Folder here names → ¬ Disk.TooLong directory names)
      ∨ (∃ names, disk.Folder here names ∧ Disk.TooLong directory names
        ∧ scan disk directory = .error (.traversal (directory.joinAll names) .nameTooLong))
      ∨ ∃ names content, disk.Script here names content ∧ ∃ cause,
        disk.readText (directory.joinAll names) = .error cause
        ∧ scan disk directory = .error (.disk cause) := by
  have hhere := Disk.entryAt_of_resolve (Disk.resolve_of_find hstart)
  obtain ⟨hrepeats, hlooksUp⟩ := Disk.traverse_scripts hdisk hstart
    (show (⟨false, enters, disk.everyLevel⟩ : TraversalRule).keep = enters from rfl) hfree rfl
    disk.lt_everyLevel
  rcases readScripts_cases disk
    (disk.traverse ⟨false, enters, disk.everyLevel⟩ directory).visits {} with
    ⟨found, hfound, -⟩ | ⟨visit, hvisit, hsource, cause, hno, herror⟩
  · rcases hrepeats with ⟨hgoes, hscripts⟩ | ⟨fault, hfault, ⟨names, hfolder, hlong, rfl⟩, -⟩
    · refine .inl ⟨found, scan_eq_ok.mpr ⟨_, rfl, hfound, hgoes⟩, ?_, hlooksUp hgoes⟩
      rw [← readScripts_filter] at hfound
      exact (congrArg (readScripts disk · {}) hscripts).symm.trans hfound
    · exact .inr (.inl ⟨names, hfolder, hlong, scan_eq_error hfound hfault⟩)
  · have hbegun := hrepeats.elim (fun h => h.2 ▸ List.prefix_rfl) fun ⟨_, _, _, h⟩ => h
    have hmem := hbegun.subset (List.mem_filter.mpr ⟨hvisit, hsource⟩)
    obtain ⟨names, content, hscript, rfl⟩ := (Disk.mem_scripts hdisk hhere directory).mp hmem
    exact .inr (.inr ⟨names, content, hscript, cause, hno, scan_of_unread herror⟩)

section

variable {disk : Disk} (hdisk : disk.WellFormed) {directory : FilePath} {here : Location}
  (hstart : disk.find true directory = .ok (here, .directory)) (hfree : disk.LinkFree here)
  (htext : ∀ names content, disk.Script here names content → ∃ text, content = .text text)

include hdisk hstart hfree htext

/-- What can be looked up is in the index. -/
theorem scan_short
    (hdots : ∀ names content, disk.Script here names content → names.getLast? ≠ some "..py")
    (hshort : ∀ names, disk.LookedUp here names → ¬ Disk.TooLong directory names) :
    ∃ examples, scan disk directory = .ok examples ∧ Indexes disk here examples := by
  have hhere := Disk.entryAt_of_resolve (Disk.resolve_of_find hstart)
  have hreads : ∀ names content, disk.Script here names content →
      ∃ text, content = .text text ∧ disk.readText (directory.joinAll names) = .ok text := by
    intro names content hscript
    obtain ⟨text, rfl⟩ := htext names content hscript
    exact ⟨text, rfl, by
      rw [hscript.readText hdisk hstart, if_neg (hshort names (.inr ⟨_, hscript⟩))]⟩
  rcases scan_cases hdisk hstart hfree with ⟨examples, hscan, hread, -⟩
    | ⟨names, hfolder, hlong, -⟩ | ⟨names, content, hscript, cause, hno, -⟩
  · exact ⟨examples, hscan, indexes_of_readScripts hdisk hhere hdots hreads hread⟩
  · exact absurd hlong (hshort names (.inl hfolder))
  · obtain ⟨text, -, hok⟩ := hreads names content hscript
    cases hno.symm.trans hok

/-- There is no index if something cannot be looked up. -/
theorem scan_long {names : Location} (hlooked : disk.LookedUp here names)
    (hlong : Disk.TooLong directory names) :
    ∃ names, Disk.TooLong directory names ∧
      (disk.Folder here names ∧ scan disk directory
          = .error (.traversal (directory.joinAll names) .nameTooLong)
        ∨ (∃ content, disk.Script here names content) ∧ scan disk directory
          = .error (.disk .nameTooLong)) := by
  have hhere := Disk.entryAt_of_resolve (Disk.resolve_of_find hstart)
  rcases scan_cases hdisk hstart hfree with ⟨examples, -, hread, hfolders⟩
    | ⟨names, hfolder, hlong, hscan⟩ | ⟨names, content, hscript, cause, hno, hscan⟩
  · -- The scan has come to its end: then it has looked everything up.
    rcases hlooked with hfolder | ⟨content, hscript⟩
    · exact absurd hlong (hfolders names hfolder)
    · have hvisit := (Disk.mem_scripts hdisk hhere directory).mpr ⟨names, content, hscript, rfl⟩
      obtain ⟨text, hok⟩ := readScripts_reads hread _ hvisit (Disk.isScript_of_mem_scripts hvisit)
      obtain ⟨text, rfl⟩ := htext names content hscript
      rw [hscript.readText hdisk hstart, if_pos hlong] at hok
      cases hok
  · exact ⟨names, hlong, .inl ⟨hfolder, hscan⟩⟩
  · obtain ⟨text, rfl⟩ := htext names content hscript
    rw [hscript.readText hdisk hstart] at hno
    split at hno <;> cases hno
    exact ⟨names, ‹_›, .inr ⟨⟨_, hscript⟩, hscan⟩⟩

/-- **What a scan of scripts comes to.**  Below a directory without links, where the scripts are
texts and none is called `..py`, the scan makes the index of the scripts that visible directories
lead to, unless the path of one of these directories or scripts, written behind the path of the
directory, is too long to be looked up.  Then there is no index. -/
theorem scan_indexes
    (hdots : ∀ names content, disk.Script here names content → names.getLast? ≠ some "..py") :
    ((∀ names, disk.LookedUp here names → ¬ Disk.TooLong directory names) →
      ∃ examples, scan disk directory = .ok examples ∧ Indexes disk here examples) ∧
    ((∃ names, disk.LookedUp here names ∧ Disk.TooLong directory names) →
      ∃ names, Disk.TooLong directory names ∧
        (disk.Folder here names ∧ scan disk directory
            = .error (.traversal (directory.joinAll names) .nameTooLong)
          ∨ (∃ content, disk.Script here names content) ∧ scan disk directory
            = .error (.disk .nameTooLong))) :=
  ⟨scan_short hdisk hstart hfree htext hdots, fun ⟨_, hlooked, hlong⟩ =>
    scan_long hdisk hstart hfree htext hlooked hlong⟩

end

/-- Scripts beside and below each other, and one in a directory that is not entered. -/
def gallery : Disk where
  entries := [
    (["ex"], .directory),
    (["ex", "plot.v2.py"], .file (.text "plot(x)\n")),
    (["ex", "plot"], .directory),
    (["ex", "plot", "run.py"], .file (.text "x = 1\n")),
    (["ex", "_old"], .directory),
    (["ex", "_old", "run.py"], .file (.text "plot()\n"))]
  workingDirectory := []

/-- What is in the directory. -/
def galleryPlaces : List (Location × Entry) :=
  [([], .directory), (["plot.v2.py"], .file (.text "plot(x)\n")), (["plot"], .directory),
    (["plot", "run.py"], .file (.text "x = 1\n")), (["_old"], .directory),
    (["_old", "run.py"], .file (.text "plot()\n"))]

theorem mem_galleryPlaces {names : Location} {entry : Entry}
    (h : gallery.entryAt (["ex"] ++ names) = some entry) : (names, entry) ∈ galleryPlaces := by
  simpa [gallery, galleryPlaces] using Disk.mem_entries_of_entryAt (by simp) h

/-- All scripts of the gallery that can be come to are in its index. -/
theorem scan_indexes_gallery :
    gallery.WellFormed ∧ gallery.find true ⟨"ex"⟩ = .ok (["ex"], .directory)
    ∧ gallery.LinkFree ["ex"]
    ∧ (∀ names content, gallery.Script ["ex"] names content → ∃ text, content = .text text)
    ∧ (∀ names content, gallery.Script ["ex"] names content → names.getLast? ≠ some "..py")
    ∧ (∀ names, gallery.LookedUp ["ex"] names → ¬ Disk.TooLong ⟨"ex"⟩ names)
    ∧ ∃ examples, scan gallery ⟨"ex"⟩ = .ok examples ∧ Indexes gallery ["ex"] examples := by
  have hdisk : gallery.WellFormed := by decide +kernel
  have hstart : gallery.find true ⟨"ex"⟩ = .ok (["ex"], .directory) := by decide +kernel
  have hfree : gallery.LinkFree ["ex"] := by decide
  have hplaces : ∀ place ∈ galleryPlaces, ¬ Disk.TooLong ⟨"ex"⟩ place.1
      ∧ place.1.getLast? ≠ some "..py" := by
    decide +kernel
  have htext : ∀ names content, gallery.Script ["ex"] names content →
      ∃ text, content = .text text := by
    intro names content hscript
    cases content with
    | text text => exact ⟨text, rfl⟩
    | bytes data => simpa [galleryPlaces] using mem_galleryPlaces hscript.entry
  have hdots : ∀ names content, gallery.Script ["ex"] names content →
      names.getLast? ≠ some "..py" :=
    fun names content hscript => (hplaces _ (mem_galleryPlaces hscript.entry)).2
  have hshort : ∀ names, gallery.LookedUp ["ex"] names → ¬ Disk.TooLong ⟨"ex"⟩ names := by
    rintro names (hfolder | ⟨content, hscript⟩)
    · exact (hplaces _ (mem_galleryPlaces hfolder.entry)).1
    · exact (hplaces _ (mem_galleryPlaces hscript.entry)).1
  exact ⟨hdisk, hstart, hfree, htext, hdots, hshort,
    (scan_indexes hdisk hstart hfree htext hdots).1 hshort⟩

example : (scan gallery ⟨"ex"⟩).map (·.mentioning "x") = .ok ["plot.v2", "plot/run"] := by
  decide +kernel

/-- One script. -/
def lone : Disk where
  entries := [(["ex"], .directory), (["ex", "run.py"], .file (.text "x = 1\n"))]
  workingDirectory := []

theorem mem_lone {names : Location} {entry : Entry}
    (h : lone.entryAt (["ex"] ++ names) = some entry) :
    names = [] ∧ entry = .directory ∨ names = ["run.py"] ∧ entry = .file (.text "x = 1\n") := by
  simpa [lone] using Disk.mem_entries_of_entryAt (by simp) h

theorem tooLong_wayRound {count : Nat} (h : maxPathBytes < 2 * count + 8) :
    Disk.TooLong (wayRound count) ["run.py"] := by
  have hsize : _ ≤ ((wayRound count).joinAll ["run.py"]).text.utf8ByteSize :=
    FilePath.size_le_join (wayRound count) (by decide)
  rw [size_wayRound] at hsize
  exact h.trans_le hsize

/-- A script at the end of a path that is too long is not in an index. -/
theorem scan_lone_far :
    lone.WellFormed ∧ lone.find true (wayRound 2045) = .ok (["ex"], .directory)
    ∧ lone.LinkFree ["ex"]
    ∧ (∀ names content, lone.Script ["ex"] names content →
      content = .text "x = 1\n" ∧ names = ["run.py"])
    ∧ lone.Script ["ex"] ["run.py"] (.text "x = 1\n")
    ∧ scan lone (wayRound 2045) = .error (.disk .nameTooLong) := by
  have hdisk : lone.WellFormed := by decide +kernel
  have hstart : lone.find true (wayRound 2045) = .ok (["ex"], .directory) :=
    find_wayRound rfl (by decide) (by decide)
  have hfree : lone.LinkFree ["ex"] := by decide
  have hscripts : ∀ names content, lone.Script ["ex"] names content →
      content = .text "x = 1\n" ∧ names = ["run.py"] := by
    intro names content hscript
    rcases mem_lone hscript.entry with ⟨-, hno⟩ | ⟨rfl, hfile⟩
    · cases hno
    · cases hfile
      exact ⟨rfl, rfl⟩
  have hscript : lone.Script ["ex"] ["run.py"] (.text "x = 1\n") :=
    ⟨by decide, ⟨"run", by decide, by decide⟩, by decide⟩
  refine ⟨hdisk, hstart, hfree, hscripts, hscript, ?_⟩
  obtain ⟨names, hlong, ⟨hfolder, -⟩ | ⟨-, hscan⟩⟩ := scan_long hdisk hstart hfree
    (fun names content h => ⟨_, (hscripts names content h).1⟩) (.inr ⟨_, hscript⟩)
    (tooLong_wayRound (by decide))
  · rcases mem_lone hfolder.entry with ⟨rfl, -⟩ | ⟨-, hno⟩
    · have hsize := size_wayRound 2045
      rw [Disk.TooLong, FilePath.joinAll, List.foldl_nil, hsize] at hlong
      exact absurd hlong (by decide)
    · cases hno
  · exact hscan

end Examples

end ApiStubs
