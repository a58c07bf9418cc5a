import ApiStubs.Proofs.Repeating

/-!
# Proofs — Rerunning — running a second time

The pages of a package are written by steps that can be taken again, so documenting the packages a
second time writes every page as it was (`Manual.documentAll_again`).  With the plan being the same
as well, a second run comes to what the first came to, and leaves every place of the tree as the
first one left it (`generate_again`), wherever the pages go: beside the documented tree, into it, or
below the examples.

Two things can keep it from that (`Settings.Misses`), and a run meets each of them
(`obstructed_differs`, `roundabout_differs`).
-/

namespace ApiStubs

open Python (Loader)

/-! ### Pages that are written again -/

namespace Manual

open Work (Repeatable)

variable {disk : Disk} {root : FilePath} (hdisk : disk.WellFormed) (hroot : ".." ∉ root.pieces)
  (manual : Manual)

/-- The pages have an extension that is not that of sources. -/
structure SparesSources (manual : Manual) : Prop where
  no_separator : '/' ∉ manual.suffix.toList
  not_py : manual.suffix ≠ "py"
  not_source : ¬ Python.IsSource manual.suffix

/-- No page is called like a source. -/
theorem SparesSources.pathOf {manual : Manual} (h : manual.SparesSources) (name : String) :
    ∀ last, (manual.pathOf name).pieces.getLast? = some last → ¬ Python.IsSource last := by
  have hending : '/' ∉ ("." ++ manual.suffix).toList := by
    rw [String.toList_append]
    exact List.not_mem_append (by decide) h.no_separator
  obtain ⟨before, hbefore⟩ :=
    FilePath.getLast?_pieces_join hending manual.destination name
  intro last hlast
  rw [Manual.pathOf, String.append_assoc, hbefore] at hlast
  cases hlast
  exact Python.not_isSource h.not_py h.not_source before

theorem repeatable_write (h : manual.SparesSources) (name text : String) :
    Repeatable disk root manual.destination (manual.write name text : Work Loader FilePath) :=
  Repeatable.attempt.bind fun _ => (Repeatable.change (h.pathOf name)).bind fun _ => .pure _

include hdisk hroot

theorem repeatable_renderPackage (package : Package) :
    Repeatable disk root manual.destination
      (manual.renderPackage package : Work Loader PackagePage) :=
  (Repeatable.mapM (fun _ => ((Repeatable.load hdisk hroot _).bind fun _ => .pure _).bind
    fun _ => .pure _) _).bind fun _ => .pure _

theorem repeatable_firstHandingOut {destination : FilePath} (module symbol : String)
    (candidates : List String) : Repeatable disk root destination
      (firstHandingOut module symbol candidates : Work Loader String) := by
  induction candidates with
  | nil => exact .throw _
  | cons candidate rest ih =>
    refine (Repeatable.load? hdisk hroot candidate).bind fun table? => ?_
    cases table? with
    | none => exact ih
    | some table =>
      show Repeatable disk root destination (ite (table.handsOut symbol module = true)
        (pure candidate) (firstHandingOut module symbol rest))
      split
      · exact .pure _
      · exact ih

theorem repeatable_renderSymbol (symbol : Symbol) :
    Repeatable disk root manual.destination (manual.renderSymbol symbol : Work Loader String) :=
  (repeatable_firstHandingOut hdisk hroot _ _ _).bind fun _ => .pure _

/-- **The pages of a package** are written again as they were. -/
theorem repeatable_documentPackage (h : manual.SparesSources) (package : Package) :
    Repeatable disk root manual.destination
      (manual.documentPackage package : Work Loader PackageFiles) :=
  (repeatable_renderPackage hdisk hroot manual package).bind fun _ =>
    (Repeatable.mapM (fun symbol => (repeatable_renderSymbol hdisk hroot manual symbol).bind
      fun _ => repeatable_write manual h _ _) _).bind
    fun _ => (repeatable_write manual h _ _).bind fun _ => .pure _

omit hdisk hroot

/-- When a package is documented, the destination is there. -/
theorem made_of_documentPackage {package : Package} {files : PackageFiles}
    {space after : Workspace Loader} (hfree : after.disk.Linkless)
    (h : manual.documentPackage package space = (.ok files, after)) :
    after.disk.attemptDirectories manual.destination = (none, after.disk) := by
  obtain ⟨page, rendered, -, h⟩ := Work.bind_ok h
  obtain ⟨symbols, printed, -, h⟩ := Work.bind_ok h
  obtain ⟨path, written, hwrite, h⟩ := Work.bind_ok h
  cases h
  obtain ⟨_, made, hmade, h⟩ := Work.bind_ok hwrite
  obtain ⟨_, last, htext, h⟩ := Work.bind_ok h
  cases h
  exact Disk.attemptDirectories_again hfree (Work.attempt_ok hmade).1
    (.of_writeText (Work.change_ok htext).1)

include hdisk hroot

/-- A run that spares the sources leaves the workspace ready, and the tree grown. -/
theorem ready_documentAll (h : manual.SparesSources) {packages : List Package}
    {progress : Progress} {space after : Workspace Loader} {run : Run}
    (hready : space.Ready disk root)
    (hrun : Run.documentAll manual packages progress space = (run, after)) :
    after.Ready disk root ∧ Disk.Grown space.disk after.disk := by
  induction packages generalizing progress space run with
  | nil =>
    cases hrun
    exact ⟨hready, .refl _⟩
  | cons package rest ih =>
    have hrepeatable := repeatable_documentPackage hdisk hroot manual h package
    rw [documentAll_cons] at hrun
    split at hrun
    · rename_i hfails
      cases hrun
      exact ⟨hrepeatable.ready hready hfails, hrepeatable.grown hfails⟩
    · rename_i hpackage
      cases hrun
      obtain ⟨hlast, hgrown⟩ := ih (hrepeatable.ready hready hpackage) rfl
      exact ⟨hlast, (hrepeatable.grown hpackage).trans hgrown⟩

/-- **Packages are documented again** as they were, package by package. -/
theorem documentAll_again (h : manual.SparesSources) {packages : List Package}
    {progress : Progress} {space after : Workspace Loader} {run : Run} {other : Disk}
    (hready : space.Ready disk root)
    (hrun : Run.documentAll manual packages progress space = (run, after))
    (hother : Disk.Sourced disk other) (hmirrors : Disk.Mirrors after.disk space.disk other) :
    ∃ otherRun final, Run.documentAll manual packages progress ⟨other, space.importer⟩
        = (otherRun, ⟨final, after.importer⟩)
      ∧ Disk.Mirrors after.disk after.disk final
      ∧ (otherRun = run ∨ ".." ∈ manual.destination.pieces
        ∧ space.disk.attemptDirectories manual.destination ≠ (none, space.disk)
        ∧ run = .failed (.disk .exists) ∧ otherRun = .failed (.disk .notDirectory)) := by
  induction packages generalizing progress space run other with
  | nil =>
    cases hrun
    exact ⟨_, other, rfl, hmirrors, .inl rfl⟩
  | cons package rest ih =>
    have hrepeatable := repeatable_documentPackage hdisk hroot manual h package
    rw [documentAll_cons] at hrun ⊢
    split at hrun
    · rename_i fault last hfails
      cases hrun
      obtain ⟨otherResult, final, hagain, -, hleft, hsame⟩ :=
        hrepeatable.again hready hfails (.refl _) (fun _ _ => rfl) hother hmirrors
      rw [hagain]
      rcases hsame with rfl | ⟨hup, hunmade, hfailed, rfl⟩
      · exact ⟨_, final, rfl, hleft, .inl rfl⟩
      · cases hfailed
        exact ⟨_, final, rfl, hleft, .inr ⟨hup, hunmade, rfl, rfl⟩⟩
    · rename_i files between hpackage
      rcases hrest : Run.documentAll manual rest
        (progress.advance package.name files.symbols.length) between with ⟨more, last⟩
      simp only [hrest] at hrun
      cases hrun
      have hbetween := hrepeatable.ready hready hpackage
      have hgrown := (ready_documentAll hdisk hroot manual h hbetween hrest).2
      obtain ⟨otherResult, next, hagain, hsourced, hleft, hsame⟩ :=
        hrepeatable.again hready hpackage hgrown nofun hother hmirrors
      obtain rfl : otherResult = .ok files :=
        hsame.resolve_right fun hastray => nomatch hastray.failed
      obtain ⟨otherRun, final, hfinal, hlast, hruns⟩ := ih hbetween hrest hsourced hleft
      rw [hagain]
      -- The package has been written, so its destination is there for the packages behind it.
      have hmade := manual.made_of_documentPackage hbetween.sourced.linkless hpackage
      obtain rfl := hruns.resolve_right fun hastray => hastray.2.1 hmade
      exact ⟨_, final, by simp only [hfinal], hlast, .inl rfl⟩

end Manual

/-! ### A second run -/

/-- The trees hold the same. -/
structure Disk.Alike (disk other : Disk) : Prop where
  workingDirectory : other.workingDirectory = disk.workingDirectory
  entries : ∀ here, other.entryAt here = disk.entryAt here

theorem Disk.Alike.refl (disk : Disk) : Alike disk disk := ⟨rfl, fun _ => rfl⟩

/-- The trees hold the same files with the names of sources. -/
def Disk.SameSources (disk other : Disk) : Prop :=
  ∀ above name content, Python.IsSource name →
    (other.entryAt (above ++ [name]) = some (.file content)
      ↔ disk.entryAt (above ++ [name]) = some (.file content))

/-- What keeps a second run from coming to the same as the first. -/
inductive Settings.Misses (settings : Settings) (disk between : Disk) : Run → Run → Prop where
  /-- The destination goes up from a directory that was missing before the first run, which met a
  file behind it; the second run meets the file at once. -/
  | astray : ".." ∈ settings.destination.pieces →
    Misses settings disk between (.failed (.disk .exists)) (.failed (.disk .notDirectory))
  /-- The first run has made a directory below the examples whose path is too long. -/
  | outOfReach {first : Run} {directory : FilePath} {here names : Location} :
    settings.examples? = some directory → disk.find true directory = .ok (here, .directory) →
    Disk.OutOfReach disk between directory here names →
    Misses settings disk between first
      (.failed (.traversal (directory.joinAll names) .nameTooLong))

theorem Settings.sparesSources {settings : Settings} (hvalid : settings.validate = .ok ())
    (hpy : settings.suffix ≠ "py") (hsource : ¬ Python.IsSource settings.suffix)
    (examples? : Option Examples) : (settings.manual examples?).SparesSources where
  no_separator hmem := by
    have hany : settings.suffix.toList.any (fun c => c = '/' || c = '\\') = true :=
      List.any_eq_true.mpr ⟨'/', hmem, rfl⟩
    rw [validate, hany, Bool.or_true, if_pos rfl] at hvalid
    cases hvalid
  not_py := hpy
  not_source := hsource

theorem Settings.plan_eq_ok {settings : Settings} {disk : Disk} {packages : List Package}
    {examples? : Option Examples} : settings.plan disk = .ok (packages, examples?) ↔
      settings.packages disk = .ok packages ∧ settings.examples disk = .ok examples? := by
  rw [plan]
  cases settings.packages disk <;> cases settings.examples disk <;>
    simp [bind, Except.bind, pure, Except.pure]

/-- **A second run changes nothing** that the first one has left, and comes to the same; apart from
a destination that goes up from a directory that was missing, and from a directory that the first
run has made below the examples at a path that is too long.  Neither run touches a source. -/
theorem generate_again {settings : Settings} {disk between after : Disk} {first second : Run}
    (hdisk : disk.WellFormed) (hfree : disk.LinkFree [])
    (hexcluded : ∀ raw ∈ settings.excludedDirectories, ".." ∉ Text.pieces '/' raw)
    (hvalid : settings.validate = .ok ()) (hpy : settings.suffix ≠ "py")
    (hsource : ¬ Python.IsSource settings.suffix)
    (hfirst : generateFromSources settings disk = (first, between))
    (hsecond : generateFromSources settings between = (second, after)) :
    between.Alike after ∧ disk.SameSources between
      ∧ (second = first ∨ settings.Misses disk between first second) := by
  have hstart := Disk.Sourced.refl hdisk hfree.linkless
  have hnothing : between = disk → second = first → after = between → between.Alike after
      ∧ disk.SameSources between
      ∧ (second = first ∨ settings.Misses disk between first second) := by
    rintro rfl hsame rfl
    exact ⟨.refl _, fun _ _ _ _ => Iff.rfl, .inl hsame⟩
  have hrerun := hsecond
  rw [generateFromSources] at hfirst hrerun
  cases hloader : settings.loader disk with
  | error fault =>
    rw [hloader] at hfirst
    cases hfirst
    rw [hloader] at hrerun
    cases hrerun
    exact hnothing rfl rfl rfl
  | ok loader =>
    simp only [hloader, generate_run] at hfirst
    cases hplan : settings.plan disk with
    | error fault =>
      simp only [hplan] at hfirst
      cases hfirst
      simp only [hloader, generate_run, hplan] at hrerun
      cases hrerun
      exact hnothing rfl rfl rfl
    | ok plan =>
      obtain ⟨packages, examples?⟩ := plan
      simp only [hplan] at hfirst
      generalize hrun : Run.documentAll (settings.manual examples?) packages
        { total := packages.length } (⟨disk, loader⟩ : Workspace Loader) = done at hfirst
      obtain ⟨run, last⟩ := done
      cases hfirst
      have hspares := settings.sparesSources hvalid hpy hsource examples?
      obtain ⟨-, hroot⟩ := hstart.loader_eq hdisk hloader
      have hbegun : Workspace.Ready disk loader.searchRoot ⟨disk, loader⟩ := ⟨hstart, rfl⟩
      have hsourced := (Manual.ready_documentAll hdisk hroot _ hspares hbegun hrun).1.sourced
      obtain ⟨hpackages, hexamples⟩ := Settings.plan_eq_ok.mp hplan
      have hpackages' := hsourced.packages_eq hdisk hexcluded hpackages
      simp only [(hsourced.loader_eq hdisk hloader).1, generate_run] at hrerun
      have hkept : disk.SameSources last.disk := fun _ _ _ hname => hsourced.entryAt_iff hname
      rcases hsourced.examples_again hdisk hexamples with
        hexamples' | ⟨directory, here, names, hdirectory, hfound, hreach, hfault⟩
      · rw [Settings.plan_eq_ok.mpr ⟨hpackages', hexamples'⟩] at hrerun
        obtain ⟨otherRun, final, hagain, hleft, hruns⟩ := Manual.documentAll_again hdisk hroot _
          hspares hbegun hrun hsourced (.refl _ _)
        simp only [hagain] at hrerun
        cases hrerun
        refine ⟨⟨hleft.sameShape.workingDirectory, hleft.entryAt⟩, hkept, ?_⟩
        rcases hruns with rfl | ⟨hup, -, rfl, rfl⟩
        · exact .inl rfl
        · exact .inr (.astray hup)
      · have hblocked : settings.plan last.disk
            = .error (.traversal (directory.joinAll names) .nameTooLong) := by
          rw [Settings.plan, hpackages', hfault]
          rfl
        rw [hblocked] at hrerun
        cases hrerun
        exact ⟨.refl _, hkept, .inr (.outOfReach hdirectory hfound hreach)⟩

/-! ### A run that goes astray, and one into its own package -/

/-- A package, and a file at the top. -/
def obstructed : Disk where
  entries := [
    (["pkg"], .directory),
    (["pkg", "__init__.py"], .file (.text "def run():\n    pass\n")),
    (["file"], .file (.text "text"))]
  workingDirectory := []

/-- The destination goes up from a directory that is missing, and goes on behind the file. -/
def obstructedSettings : Settings := { root := ⟨"pkg"⟩, destination := ⟨"new/../file/x"⟩ }

/-- What the run leaves: the directory that was missing. -/
def obstructedLeft : Disk :=
  { obstructed with entries := (["new"], .directory) :: obstructed.entries }

/-- The first run finds a file where a directory is to be made, the second one a file in the way. -/
theorem obstructed_differs :
    obstructed.WellFormed ∧ obstructed.LinkFree []
    ∧ (∀ raw ∈ obstructedSettings.excludedDirectories, ".." ∉ Text.pieces '/' raw)
    ∧ obstructedSettings.validate = .ok () ∧ obstructedSettings.suffix ≠ "py"
    ∧ ¬ Python.IsSource obstructedSettings.suffix
    ∧ (generateFromSources obstructedSettings obstructed).1.result = .error (.disk .exists)
    ∧ (generateFromSources obstructedSettings obstructed).2 = obstructedLeft
    ∧ (generateFromSources obstructedSettings obstructedLeft).1.result
      = .error (.disk .notDirectory) := by
  decide +kernel

/-- A package with a class. -/
def inward : Disk where
  entries := [
    (["pkg"], .directory),
    (["pkg", "__init__.py"], .file (.text "class Box:\n    pass\n"))]
  workingDirectory := []

/-- The pages go into the package, which is also looked through for examples. -/
def inwardSettings : Settings :=
  { root := ⟨"pkg"⟩, destination := ⟨"pkg"⟩, examples? := some ⟨"pkg"⟩ }

def inwardRun : Run × Disk := generateFromSources inwardSettings inward

def inwardRerun : Run × Disk := generateFromSources inwardSettings inwardRun.2

/-- The pages in the package are written again as they were. -/
theorem inward_again :
    inward.WellFormed ∧ inward.LinkFree []
    ∧ (∀ raw ∈ inwardSettings.excludedDirectories, ".." ∉ Text.pieces '/' raw)
    ∧ inwardSettings.validate = .ok () ∧ inwardSettings.suffix ≠ "py"
    ∧ ¬ Python.IsSource inwardSettings.suffix
    ∧ inwardRun.1.result = .ok ⟨["pkg"], 1, 1⟩
    ∧ inwardRun.2.Alike inwardRerun.2 ∧ inward.SameSources inwardRun.2
    ∧ (inwardRerun.1 = inwardRun.1
      ∨ inwardSettings.Misses inward inwardRun.2 inwardRun.1 inwardRerun.1) :=
  ⟨by decide +kernel, by decide, by decide, by decide +kernel, by decide, by decide,
    by decide +kernel, generate_again (by decide +kernel) (by decide) (by decide)
      (by decide +kernel) (by decide) (by decide) (Prod.mk.eta (p := inwardRun)).symm
      (Prod.mk.eta (p := inwardRerun)).symm⟩

/-! ### A run that makes a directory out of reach -/

theorem FilePath.size_le_join (base : FilePath) {name : String}
    (h : Text.startsWith name "/" = false) :
    base.text.utf8ByteSize + name.utf8ByteSize ≤ (base.join name).text.utf8ByteSize := by
  rw [text_join h]
  split <;> simp only [String.utf8ByteSize_append] <;> omega

/-- A package, and a directory for examples. -/
def roundabout : Disk where
  entries := [
    (["pkg"], .directory),
    (["pkg", "__init__.py"], .file (.text "x = 1\n")),
    (["ex"], .directory)]
  workingDirectory := []

/-- The path of the examples, with a `.` in front so many times. -/
def wayRound (count : Nat) : FilePath := ⟨Text.join '/' (List.replicate count "." ++ ["ex"])⟩

theorem size_wayRound (count : Nat) : (wayRound count).text.utf8ByteSize = 2 * count + 2 := by
  rw [wayRound]
  induction count with
  | zero => rfl
  | succ count ih =>
    have hhere : ".".utf8ByteSize + (String.singleton '/').utf8ByteSize = 2 := by decide
    rw [List.replicate_succ, List.cons_append, Text.join_cons '/' "." (by simp),
      String.utf8ByteSize_append, String.utf8ByteSize_append, ih, hhere]
    omega

theorem pieces_wayRound (count : Nat) :
    (wayRound count).pieces = List.replicate count "." ++ ["ex"] := by
  refine Text.pieces_join (by simp) (List.forall_mem_append.mpr ⟨fun piece hpiece => ?_, by decide⟩)
  rw [List.eq_of_mem_replicate hpiece]
  decide

/-- The way round leads to the directory, if it is not too long. -/
theorem find_wayRound {disk : Disk} (hroot : disk.workingDirectory = [])
    (hex : disk.entryAt ["ex"] = some .directory) {count : Nat}
    (hshort : 2 * count + 2 ≤ maxPathBytes) :
    disk.find true (wayRound count) = .ok (["ex"], .directory) := by
  have hsize := size_wayRound count
  have hempty : (wayRound count).text ≠ "" := fun hempty => by
    rw [hempty] at hsize
    exact Nat.succ_ne_zero (2 * count + 1) hsize.symm
  have hstart : disk.start (wayRound count) = [] := by
    rw [Disk.start, hroot, ite_self]
  have hfillers : disk.walk true maxLinks [] (List.replicate count ".")
      = .ok (.found [] .directory) :=
    Disk.walk_fillers rfl fun piece hpiece => List.eq_of_mem_replicate hpiece ▸ rfl
  obtain ⟨left, hleft⟩ := Disk.walk_append hfillers
  have hstride : disk.stride [] "ex" = .reaches ["ex"] := by
    rw [Disk.stride_name (by decide) rfl, if_neg (by decide), List.nil_append, hex]
  rw [Disk.find_eq_ok, Disk.resolve_eq_walk hempty (by omega), hstart, pieces_wayRound, hleft,
    Disk.walk_cons]
  simp only [hstride, Disk.walk_nil, hex]

/-- What the run leaves. -/
def roundaboutLeft : Disk where
  entries := [
    (["ex", "outside", "pkg.rst"], .file (.text
      "pkg package\n===========\n\n.. automodule:: pkg\n    :show-inheritance:\n\n\n")),
    (["ex", "outside"], .directory),
    (["pkg"], .directory),
    (["pkg", "__init__.py"], .file (.text "x = 1\n")),
    (["ex"], .directory)]
  workingDirectory := []

/-- Before the run nothing is in the directory. -/
theorem scan_roundabout {count : Nat} (hshort : 2 * count + 2 ≤ maxPathBytes) :
    Examples.scan roundabout (wayRound count) = .ok {} := by
  have hfind : roundabout.find true _ = _ := find_wayRound rfl rfl hshort
  have hfree : roundabout.Linkless := Disk.LinkFree.linkless (by decide)
  have hlisting : roundabout.listing ["ex"] = [] := by decide
  have htraverse : roundabout.traverse ⟨false, Examples.enters, roundabout.everyLevel⟩
      (wayRound count) = ⟨[⟨wayRound count, [], .directory⟩], none⟩ := by
    have hlevels : roundabout.everyLevel = 24 + 1 := rfl
    have hstart : (wayRound count).joinAll [] = wayRound count := rfl
    have hkept : Examples.enters ⟨wayRound count, [], .directory⟩ = true := rfl
    rw [hfree.traverse_eq hfind]
    simp only [hlevels]
    rw [Disk.descend_directory, hstart, if_pos hkept, hfind]
    simp only [hlisting]
    rfl
  exact Examples.scan_eq_ok.mpr ⟨_, htraverse, rfl, rfl⟩

/-- Behind the run what is in the directory is too far to be looked up by the way round. -/
theorem scan_roundaboutLeft {count : Nat} (hshort : 2 * count + 2 ≤ maxPathBytes)
    (hlong : maxPathBytes < 2 * count + 9) : Examples.scan roundaboutLeft (wayRound count)
      = .error (.traversal ((wayRound count).joinAll ["outside"]) .nameTooLong) := by
  have hfind : roundaboutLeft.find true _ = _ := find_wayRound rfl (by decide) hshort
  have hfree : roundaboutLeft.Linkless := Disk.LinkFree.linkless (by decide)
  have hlisting : roundaboutLeft.listing ["ex"] = [("outside", .directory)] := by decide
  have hpages : roundaboutLeft.find true ((wayRound count).joinAll ["outside"])
      = .error .nameTooLong := by
    have hdisk : roundaboutLeft.WellFormed := by decide +kernel
    have hentry : roundaboutLeft.entryAt (["ex"] ++ ["outside"]) = some .directory := by decide
    have hsize : _ ≤ ((wayRound count).joinAll ["outside"]).text.utf8ByteSize :=
      FilePath.size_le_join (wayRound count) (by decide)
    rw [size_wayRound] at hsize
    rw [hdisk.find_joinAll hfind hentry nofun, if_pos (Nat.lt_of_lt_of_le hlong hsize)]
  have htraverse : roundaboutLeft.traverse ⟨false, Examples.enters, roundaboutLeft.everyLevel⟩
      (wayRound count) = ⟨[⟨wayRound count, [], .directory⟩,
        ⟨(wayRound count).joinAll ["outside"], ["outside"], .directory⟩],
        some (.traversal ((wayRound count).joinAll ["outside"]) .nameTooLong)⟩ := by
    have hlevels : roundaboutLeft.everyLevel = 47 + 1 + 1 := rfl
    have hstart : (wayRound count).joinAll [] = wayRound count := rfl
    have hkept : Examples.enters ⟨wayRound count, [], .directory⟩ = true := rfl
    have hvisible : Examples.enters
        ⟨(wayRound count).joinAll ["outside"], ["outside"], .directory⟩ = true := by
      show isVisibleDirectory "outside" = true
      decide
    rw [hfree.traverse_eq hfind]
    simp only [hlevels]
    rw [Disk.descend_directory, hstart, if_pos hkept, hfind]
    simp only [hlisting, Traversal.each, List.nil_append, Disk.descend_directory, hpages,
      if_pos hvisible]
    rfl
  have hread : Examples.readScripts roundaboutLeft (roundaboutLeft.traverse
      ⟨false, Examples.enters, roundaboutLeft.everyLevel⟩ (wayRound count)).visits {} = .ok {} := by
    rw [htraverse]
    rfl
  exact Examples.scan_eq_error hread (by rw [htraverse])

/-- The pages go into a directory below the examples. -/
def roundaboutSettings (count : Nat) : Settings :=
  { root := ⟨"pkg"⟩, destination := ⟨"ex/outside"⟩, examples? := some (wayRound count) }

/-- The package as both surveys find it. -/
def roundaboutPackages : List Package := [⟨"pkg", ⟨"/pkg"⟩, [⟨"__init__.py", 6⟩], []⟩]

theorem examples_roundabout {disk : Disk} (hroot : disk.workingDirectory = [])
    (hex : disk.entryAt ["ex"] = some .directory) {count : Nat}
    (hshort : 2 * count + 2 ≤ maxPathBytes) : (roundaboutSettings count).examples disk
      = some <$> Examples.scan disk (wayRound count) := by
  have hdirectory : disk.isDirectory (wayRound count) = true :=
    Disk.isDirectory_iff_find.mpr ⟨_, find_wayRound hroot hex hshort⟩
  show (if disk.isDirectory (wayRound count) then _ else _) = _
  rw [if_pos hdirectory]

/-- Modules are looked for at the top. -/
def roundaboutLoader : Loader := { searchRoot := ⟨"/"⟩ }

theorem loader_roundabout (count : Nat) :
    (roundaboutSettings count).loader roundabout = .ok roundaboutLoader
    ∧ (roundaboutSettings count).loader roundaboutLeft = .ok roundaboutLoader := by
  show Settings.loader { root := ⟨"pkg"⟩ } roundabout = _
    ∧ Settings.loader { root := ⟨"pkg"⟩ } roundaboutLeft = _
  decide +kernel

theorem packages_roundabout (count : Nat) :
    (roundaboutSettings count).packages roundabout = .ok roundaboutPackages
    ∧ (roundaboutSettings count).packages roundaboutLeft = .ok roundaboutPackages := by
  show Settings.packages { root := ⟨"pkg"⟩ } roundabout = _
    ∧ Settings.packages { root := ⟨"pkg"⟩ } roundaboutLeft = _
  decide +kernel

/-- The pages, which do not depend on where the examples are looked for. -/
def roundaboutRun : Run × Workspace Loader :=
  Run.documentAll ((roundaboutSettings 0).manual (some {})) roundaboutPackages
    { total := roundaboutPackages.length } ⟨roundabout, roundaboutLoader⟩

theorem roundaboutRun_left : roundaboutRun.1.result = .ok ⟨["pkg"], 1, 0⟩
    ∧ roundaboutRun.2.disk = roundaboutLeft := by
  decide +kernel

/-- The first run goes well, the second one does not get to the end of the directory that the first
one made. -/
theorem roundabout_differs {count : Nat} (hshort : 2 * count + 2 ≤ maxPathBytes)
    (hlong : maxPathBytes < 2 * count + 9) :
    (generateFromSources (roundaboutSettings count) roundabout).1.result = .ok ⟨["pkg"], 1, 0⟩
    ∧ (generateFromSources (roundaboutSettings count) roundabout).2 = roundaboutLeft
    ∧ (generateFromSources (roundaboutSettings count) roundaboutLeft).1.result
      = .error (.traversal ((wayRound count).joinAll ["outside"]) .nameTooLong) := by
  have hplan : (roundaboutSettings count).plan roundabout = .ok (roundaboutPackages, some {}) :=
    Settings.plan_eq_ok.mpr ⟨(packages_roundabout count).1,
      by rw [examples_roundabout rfl rfl hshort, scan_roundabout hshort]; rfl⟩
  have hagain : (roundaboutSettings count).plan roundaboutLeft
      = .error (.traversal ((wayRound count).joinAll ["outside"]) .nameTooLong) := by
    rw [Settings.plan, (packages_roundabout count).2, examples_roundabout rfl (by decide) hshort,
      scan_roundaboutLeft hshort hlong]
    rfl
  have hrun : Run.documentAll ((roundaboutSettings count).manual (some {})) roundaboutPackages
      { total := roundaboutPackages.length } ⟨roundabout, roundaboutLoader⟩ = roundaboutRun := rfl
  simp only [generateFromSources, loader_roundabout, generate_run, hplan, hagain, hrun]
  exact ⟨roundaboutRun_left.1, roundaboutRun_left.2, rfl⟩

end ApiStubs
