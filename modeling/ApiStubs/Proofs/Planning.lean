import ApiStubs.Proofs.Clashes
import ApiStubs.Proofs.Surveying

/-!
# Proofs — Planning — what keeps a run from starting

A run finds its root, reads the exclusion patterns, surveys the tree and reads the examples before
anything is written.  Each of these can fail, and `Settings.Blocked` lists the ways in which they
do; there is a plan exactly where none of them occurs (`Settings.plan_eq_error_iff`).
-/

namespace ApiStubs

/-- The run cannot start on the file tree. -/
inductive Settings.Blocked (settings : Settings) (disk : Disk) : Fault → Prop where
  | noRoot : disk.pathExists settings.root = false →
    Blocked settings disk (.settings (.rootMissing settings.root))
  | plainRoot : disk.pathExists settings.root = true → disk.isDirectory settings.root = false →
    Blocked settings disk (.settings (.rootNotDirectory settings.root))
  | lostRoot {cause : DiskError} : disk.pathExists settings.root = true →
    disk.isDirectory settings.root = true → disk.canonicalize settings.root = .error cause →
    Blocked settings disk (.disk cause)
  | pattern {root : FilePath} {fault : Fault} : settings.resolveRoot disk = .ok root →
    settings.excludedFiles.mapM Glob.compile = .error fault → Blocked settings disk fault
  | walk {root : FilePath} {selection : Selection} {fault : Fault} :
    settings.resolveRoot disk = .ok root → settings.selection disk root = .ok selection →
    survey disk selection root = .error fault → Blocked settings disk fault
  | nothing {root : FilePath} {selection : Selection} :
    settings.resolveRoot disk = .ok root → settings.selection disk root = .ok selection →
    survey disk selection root = .ok [] →
    Blocked settings disk (.settings (.nothingToDocument root))
  | noExamples {packages : List Package} {directory : FilePath} :
    settings.packages disk = .ok packages → settings.examples? = some directory →
    disk.isDirectory directory = false →
    Blocked settings disk (.settings (.examplesMissing directory))
  | unreadExamples {packages : List Package} {directory : FilePath} {fault : Fault} :
    settings.packages disk = .ok packages → settings.examples? = some directory →
    disk.isDirectory directory = true → Examples.scan disk directory = .error fault →
    Blocked settings disk fault

namespace Settings

theorem bind_eq_error {α β : Type} {x : Except Fault α} {f : α → Except Fault β} {fault : Fault} :
    (x >>= f) = .error fault ↔ x = .error fault ∨ ∃ a, x = .ok a ∧ f a = .error fault := by
  cases x <;> simp [bind, Except.bind]

variable {settings : Settings} {disk : Disk} {fault : Fault}

/-- A root that cannot be resolved blocks a run. -/
theorem Blocked.of_resolveRoot (h : settings.resolveRoot disk = .error fault) :
    settings.Blocked disk fault := by
  rw [resolveRoot] at h
  cases hpath : disk.pathExists settings.root with
  | false =>
    rw [hpath] at h
    cases h
    exact .noRoot hpath
  | true =>
    cases hdirectory : disk.isDirectory settings.root with
    | false =>
      rw [hpath, hdirectory] at h
      cases h
      exact .plainRoot hpath hdirectory
    | true =>
      cases hcanonical : disk.canonicalize settings.root with
      | ok root => simp [hpath, hdirectory, hcanonical, Except.mapError] at h
      | error cause =>
        simp only [hpath, hdirectory, hcanonical, Except.mapError] at h
        cases h
        exact .lostRoot hpath hdirectory hcanonical

theorem selection_eq_error {root : FilePath} : settings.selection disk root = .error fault ↔
    settings.excludedFiles.mapM Glob.compile = .error fault := by
  rw [selection, Selection.make, bind_eq_error]
  simp [pure, Except.pure]

/-- A selection or a survey that fails or finds nothing blocks a run. -/
theorem Blocked.of_packages (h : settings.packages disk = .error fault) :
    settings.Blocked disk fault := by
  rw [packages, bind_eq_error] at h
  rcases h with h | ⟨root, hroot, h⟩
  · exact .of_resolveRoot h
  rcases bind_eq_error.mp h with h | ⟨selection, hselection, h⟩
  · exact .pattern hroot (selection_eq_error.mp h)
  rcases bind_eq_error.mp h with h | ⟨found, hfound, h⟩
  · exact .walk hroot hselection h
  split at h
  · rename_i hempty
    cases h
    rw [List.isEmpty_iff] at hempty
    exact .nothing hroot hselection (hempty ▸ hfound)
  · cases h

/-- A directory of examples that is missing or cannot be scanned blocks a run. -/
theorem Blocked.of_examples {packages : List Package}
    (hpackages : settings.packages disk = .ok packages)
    (h : settings.examples disk = .error fault) : settings.Blocked disk fault := by
  rw [examples] at h
  cases hexamples : settings.examples? with
  | none => simp [hexamples] at h
  | some directory =>
    simp only [hexamples] at h
    cases hdirectory : disk.isDirectory directory with
    | false =>
      rw [hdirectory] at h
      cases h
      exact .noExamples hpackages hexamples hdirectory
    | true =>
      rw [hdirectory] at h
      cases hscan : Examples.scan disk directory with
      | ok found => simp [hscan, Functor.map, Except.map] at h
      | error fault =>
        rw [hscan] at h
        cases h
        exact .unreadExamples hpackages hexamples hdirectory hscan

theorem packages_of_plan {packages : List Package} {examples? : Option Examples}
    (h : settings.plan disk = .ok (packages, examples?)) :
    settings.packages disk = .ok packages := by
  obtain ⟨found, hpackages, h⟩ := Survey.bind_eq_ok.mp h
  obtain ⟨scripts?, -, h⟩ := Survey.bind_eq_ok.mp h
  cases h
  exact hpackages

/-- **A run has no plan exactly where it is blocked.** -/
theorem plan_eq_error_iff : settings.plan disk = .error fault ↔ settings.Blocked disk fault := by
  constructor
  · intro h
    rcases bind_eq_error.mp h with h | ⟨packages, hpackages, h⟩
    · exact .of_packages h
    rcases bind_eq_error.mp h with h | ⟨examples?, -, h⟩
    · exact .of_examples hpackages h
    · cases h
  · intro h
    cases h with
    | noRoot hpath => simp [plan, packages, resolveRoot, hpath, bind, Except.bind]
    | plainRoot hpath hdirectory =>
      simp [plan, packages, resolveRoot, hpath, hdirectory, bind, Except.bind]
    | lostRoot hpath hdirectory hcause =>
      simp [plan, packages, resolveRoot, hpath, hdirectory, hcause, bind, Except.bind,
        Except.mapError]
    | pattern hroot hcompile =>
      simp [plan, packages, hroot, selection_eq_error.mpr hcompile, bind, Except.bind]
    | walk hroot hselection hsurvey =>
      simp [plan, packages, hroot, hselection, hsurvey, bind, Except.bind]
    | nothing hroot hselection hsurvey =>
      simp [plan, packages, hroot, hselection, hsurvey, bind, Except.bind, throw, throwThe,
        MonadExceptOf.throw]
    | noExamples hpackages hexamples hdirectory =>
      simp [plan, hpackages, examples, hexamples, hdirectory, bind, Except.bind]
    | unreadExamples hpackages hexamples hdirectory hscan =>
      simp [plan, hpackages, examples, hexamples, hdirectory, hscan, bind, Except.bind, Functor.map,
        Except.map]

end Settings

end ApiStubs
