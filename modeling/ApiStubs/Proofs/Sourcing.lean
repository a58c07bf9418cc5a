import ApiStubs.Proofs.Making

/-!
# Proofs — Sourcing — what a run does to the sources

A run makes directories and writes pages.  As long as the extension of the pages is not that of
sources (`Python.not_isSource`), the tree holds the sources that it held before, each with its text,
and no others (`Disk.Sourced`): making a directory and writing a page both keep to that.
-/

namespace ApiStubs

open FilePath (IsFileName)

/-! ### Names of sources -/

namespace Python

/-- The name of a file that holds a source. -/
def IsSource (name : String) : Prop := ['.', 'p', 'y'] <:+ name.toList

instance (name : String) : Decidable (IsSource name) :=
  inferInstanceAs (Decidable (_ <:+ _))

theorem isSource_packageMarker : IsSource packageMarker := by decide

theorem isSource_append (before : String) : IsSource (before ++ ".py") := by
  rw [IsSource, String.toList_append]
  exact List.suffix_append _ _

/-- What is written with another extension is no source. -/
theorem not_isSource {suffix : String} (hpy : suffix ≠ "py") (hsource : ¬ IsSource suffix)
    (before : String) : ¬ IsSource (before ++ ("." ++ suffix)) := by
  have hdot : ("." ++ suffix).toList = '.' :: suffix.toList := by
    rw [String.toList_append]
    rfl
  have hsame : suffix.toList ≠ ['p', 'y'] := fun h => hpy (String.toList_inj.mp h)
  intro h
  rw [IsSource, String.toList_append, hdot] at h
  rcases List.suffix_or_suffix_of_suffix h (List.suffix_append _ _) with hinner | houter
  · rcases List.suffix_cons_iff.mp hinner with hwhole | hsuffix
    · exact hsame (List.tail_eq_of_cons_eq hwhole).symm
    · exact hsource hsuffix
  · -- there is one dot in the extension of a source
    rcases List.suffix_cons_iff.mp houter with hwhole | hletters
    · exact hsame (List.tail_eq_of_cons_eq hwhole)
    · have hmem := hletters.subset List.mem_cons_self
      simp at hmem

end Python

/-- An ending without a separator ends the last piece. -/
theorem Text.getLast?_cut_append {sep : Char} {ending : List Char} (h : sep ∉ ending)
    (s : List Char) : ∃ before, (cut sep (s ++ ending)).getLast? = some (before ++ ending) := by
  induction s with
  | nil => exact ⟨[], by rw [List.nil_append, cut_eq_singleton h]; rfl⟩
  | cons c s ih =>
    obtain ⟨before, hbefore⟩ := ih
    rw [List.cons_append, cut]
    cases hcut : cut sep (s ++ ending) with
    | nil => exact absurd hcut (cut_ne_nil sep _)
    | cons piece others =>
      rw [hcut] at hbefore
      dsimp only
      split
      · exact ⟨before, by rw [List.getLast?_cons_of_ne_nil (List.cons_ne_nil piece others), hbefore]⟩
      · cases others with
        | nil =>
          cases hbefore
          exact ⟨c :: before, rfl⟩
        | cons next more => exact ⟨before, hbefore⟩

/-- The last piece of a file's path ends as its name does. -/
theorem FilePath.getLast?_pieces_join {ending : String} (h : '/' ∉ ending.toList)
    (directory : FilePath) (name : String) :
    ∃ before, (directory.join (name ++ ending)).pieces.getLast? = some (before ++ ending) := by
  have hends : ∃ front, (directory.join (name ++ ending)).text.toList = front ++ ending.toList := by
    by_cases habsolute : Text.startsWith (name ++ ending) "/" = true
    · rw [join, habsolute]
      exact ⟨name.toList, String.toList_append⟩
    · rw [Bool.not_eq_true] at habsolute
      rw [text_join habsolute]
      exact ⟨_, by rw [String.toList_append, String.toList_append, ← List.append_assoc]⟩
  obtain ⟨front, hfront⟩ := hends
  obtain ⟨before, hbefore⟩ := Text.getLast?_cut_append h front
  refine ⟨String.ofList before, ?_⟩
  rw [pieces, Text.pieces, hfront, List.getLast?_map, hbefore]
  simp [String.ofList_append]

namespace Disk

/-! ### Trees a file system holds, while it is written to -/

/-- An entry with a name of its own, set where no directory is. -/
theorem WellFormed.set {disk : Disk} (hdisk : disk.WellFormed) {above : Location} {name : String}
    (hlook : disk.LooksUp above name) (hseparator : '/' ∉ name.toList)
    (hplace : disk.entryAt (above ++ [name]) ≠ some .directory) (entry : Entry) :
    (disk.set (above ++ [name]) entry).WellFormed where
  inside place hmem := by
    have hne : above ++ [name] ≠ [] := by simp
    have hother : ∀ here, disk.entryAt here = some .directory →
        (disk.set (above ++ [name]) entry).entryAt here = some .directory := by
      intro here hdir
      rw [entryAt_set disk hne, if_neg]
      · exact hdir
      · rintro rfl
        exact hplace hdir
    rcases List.mem_cons.mp hmem with rfl | hold
    · exact ⟨hne, hother _ (by rw [List.dropLast_concat]; exact hlook.directory)⟩
    · obtain ⟨hnil, hdir⟩ := hdisk.inside place (List.mem_filter.mp hold).1
      exact ⟨hnil, hother _ hdir⟩
  named place hmem := by
    rcases List.mem_cons.mp hmem with rfl | hold
    · intro last hlast
      rw [List.getLast?_concat, Option.mem_some_iff] at hlast
      subst hlast
      exact ⟨⟨hseparator, hlook.no_filler, hlook.not_up⟩, hlook.short⟩
    · exact hdisk.named place (List.mem_filter.mp hold).1
  once := by
    rw [Disk.set, List.map_cons, List.nodup_cons]
    refine ⟨fun hmem => ?_, hdisk.once.sublist (List.filter_sublist.map _)⟩
    obtain ⟨place, hplace, hsame⟩ := List.mem_map.mp hmem
    exact of_decide_eq_true (List.mem_filter.mp hplace).2 hsame

/-- What a path leads to, if it is free or a file, is called by the last piece. -/
theorem WellFormed.named_of_resolve {disk : Disk} (hdisk : disk.WellFormed)
    (hfree : disk.Linkless) {path : FilePath} {target : Target}
    (h : disk.resolve true path = .ok target) :
    (∃ there, target = .found there .directory)
      ∨ ∃ above name, disk.LooksUp above name ∧ '/' ∉ name.toList
        ∧ path.pieces.getLast? = some name
        ∧ (target = .free (above ++ [name])
          ∨ ∃ content, target = .found (above ++ [name]) (.file content)) := by
  rcases hdisk.named_of_walk hfree (Text.pieces_ne_nil '/' path.text) (walk_of_resolve h) with
    hdir | ⟨above, name, hlook, hname, htarget⟩
  · exact .inl hdir
  · refine .inr ⟨above, name, hlook, fun hmem => ?_, hname, htarget⟩
    exact (Text.mem_pieces (List.mem_of_getLast? hname) '/' hmem).2 rfl

/-- A well-formed tree stays so when a directory is made. -/
theorem WellFormed.makeDirectory {disk made : Disk} (hdisk : disk.WellFormed)
    (hfree : disk.Linkless) {path : FilePath} (h : disk.makeDirectory path = .ok made) :
    made.WellFormed := by
  rw [hfree.makeDirectory_eq] at h
  split at h
  · cases h
  split at h
  · rename_i here hresolve
    cases h
    obtain ⟨hnone, -⟩ := entryAt_of_resolve_free hresolve
    rcases hdisk.named_of_resolve hfree hresolve with
      ⟨_, hno⟩ | ⟨above, name, hlook, hseparator, -, hplace | ⟨_, hno⟩⟩
    · cases hno
    · cases hplace
      exact hdisk.set hlook hseparator (by simp [hnone]) _
    · cases hno
  · cases h
  · cases h

theorem WellFormed.attemptDirectories {disk : Disk} (hdisk : disk.WellFormed)
    (hfree : disk.Linkless) (path : FilePath) : (disk.attemptDirectories path).2.WellFormed := by
  have hboth := makeEach_preserves (P := fun disk => disk.WellFormed ∧ disk.Linkless)
    (fun h hmade => ⟨h.1.makeDirectory h.2 hmade, (makeDirectory_widens hmade).linkless h.2⟩)
    (withParents path (path.text.length + 1)) ⟨hdisk, hfree⟩
  exact hboth.1

/-! ### Trees with the same sources -/

/-- The second tree has kept what the first held, and has its sources and no other. -/
structure Sourced (disk later : Disk) : Prop where
  grown : Grown disk later
  wellFormed : later.WellFormed
  linkless : later.Linkless
  sources : ∀ above name content, Python.IsSource name →
    later.entryAt (above ++ [name]) = some (.file content) →
    disk.entryAt (above ++ [name]) = some (.file content)

namespace Sourced

variable {disk later : Disk}

theorem refl (hdisk : disk.WellFormed) (hfree : disk.Linkless) : Sourced disk disk :=
  ⟨.refl disk, hdisk, hfree, fun _ _ _ _ h => h⟩

/-- **A source is in both trees.** -/
theorem entryAt_iff (h : Sourced disk later) {above : Location} {name : String}
    (hname : Python.IsSource name) {content : Content} :
    later.entryAt (above ++ [name]) = some (.file content)
      ↔ disk.entryAt (above ++ [name]) = some (.file content) := by
  refine ⟨h.sources above name content hname, fun hentry => ?_⟩
  obtain ⟨found, hfound, hblank⟩ := h.grown.entryAt hentry
  obtain ⟨other, rfl⟩ := Entry.blank_eq_file.mp hblank
  rw [h.sources above name other hname hfound] at hentry
  rw [hfound, hentry]

/-- Making directories makes no source. -/
theorem attemptDirectories (h : Sourced disk later) (path : FilePath) :
    Sourced disk (later.attemptDirectories path).2 where
  grown := h.grown.trans (.of_widens (later.attemptDirectories_widens path))
  wellFormed := h.wellFormed.attemptDirectories h.linkless path
  linkless := (later.attemptDirectories_widens path).linkless h.linkless
  sources above name content hname hentry := by
    rcases (later.attemptDirectories_widens path).added _ _ hentry with hold | hno
    · exact h.sources above name content hname hold
    · cases hno

/-- Writing a file that is not called like a source leaves the sources alone. -/
theorem writeText (h : Sourced disk later) {next : Disk} {path : FilePath} {text : String}
    (hpath : ∀ name, path.pieces.getLast? = some name → ¬ Python.IsSource name)
    (hwrite : later.writeText path text = .ok next) : Sourced disk next := by
  obtain ⟨here, target, hresolve, hhere, hnext, hplace⟩ := writeText_eq_set hwrite
  have hgrown := Grown.of_writeText hwrite
  subst hnext
  have hnamed : ∃ above name, here = above ++ [name] ∧ later.LooksUp above name
      ∧ '/' ∉ name.toList ∧ ¬ Python.IsSource name := by
    rcases h.wellFormed.named_of_resolve h.linkless hresolve with
      ⟨_, rfl⟩ | ⟨above, name, hlook, hseparator, hlast, htarget⟩
    · rcases hplace with ⟨hno, -⟩ | ⟨_, hno, -⟩ <;> cases hno
    refine ⟨above, name, ?_, hlook, hseparator, hpath name hlast⟩
    rcases hplace with ⟨rfl, -⟩ | ⟨_, rfl, -⟩ <;> rcases htarget with hsame | ⟨_, hsame⟩ <;>
      cases hsame <;> rfl
  obtain ⟨above, name, rfl, hlook, hseparator, hother⟩ := hnamed
  have hentries := entryAt_set later hhere (.file (.text text))
  refine ⟨h.grown.trans hgrown, h.wellFormed.set hlook hseparator ?_ _, fun there other => ?_, ?_⟩
  · rcases hplace with ⟨-, hnone⟩ | ⟨_, -, hfile⟩
    · simp [hnone]
    · simp [hfile]
  · rw [hentries]
    split
    · simp
    · exact h.linkless there other
  · intro front last content hlast hentry
    rw [hentries] at hentry
    split at hentry
    · rename_i hsame
      obtain rfl := List.head_eq_of_cons_eq (List.append_inj' hsame rfl).2
      exact absurd hlast hother
    · exact h.sources front last content hlast hentry

end Sourced

end Disk

end ApiStubs
