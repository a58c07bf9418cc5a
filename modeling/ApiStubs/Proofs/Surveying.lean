import ApiStubs.Proofs.Traversing
import ApiStubs.Survey

/-!
# Proofs — Surveying — what a survey lists

Whatever links a tree holds, a package that a survey lists is at a path of names below the root
that no rule leaves out; its modules are files that can be looked up at their names in it, and the
packages named below it are left out by no rule either: `Survey.surveyed`.
-/

namespace ApiStubs

open FilePath (IsFileName)

/-- The name of a package below the top is written behind the name of the top. -/
theorem Dotted.join_top {top : Option String} {names : List String} (htop : "" ∉ top.toList)
    (hnames : "" ∉ names) : join (top.getD "") (ofComponents names)
      = ofComponents (top.toList ++ names) := by
  cases top with
  | none => rfl
  | some first =>
    have hfirst : first ≠ "" := fun heq => htop (by simp [heq])
    rw [join, Option.getD_some, if_neg hfirst]
    split
    · rename_i hempty
      rw [Text.join_eq_empty hnames hempty]
      simp [ofComponents, Text.join, Text.glue]
    · rename_i hne
      have hnil : names ≠ [] := fun hnil => hne (by rw [hnil]; rfl)
      exact (Text.join_cons '.' first hnil).symm

/-- What stands between separators is a file name, unless it is a step of another kind. -/
theorem FilePath.isFileName_of_ofPiece? {raw piece name : String}
    (hpiece : piece ∈ Text.pieces '/' raw) (h : Component.ofPiece? piece = some (.name name)) :
    IsFileName name := by
  have hseparator : '/' ∉ piece.toList := fun hmem => (Text.mem_pieces hpiece '/' hmem).2 rfl
  rw [Component.ofPiece?.eq_def] at h
  split at h
  · cases h
  · cases h
  · cases h
  · cases h
    exact ⟨hseparator, by simp_all [isFiller], by assumption⟩

/-- The names on a path are names of files. -/
theorem FilePath.isFileName_of_mem_components {path : FilePath} {name : String}
    (h : .name name ∈ path.components) : IsFileName name := by
  have hlisted : Component.name name ∈ path.pieces.filterMap Component.ofPiece? := by
    rw [components] at h
    split at h
    · simpa using h
    · split at h
      · rename_i hpieces
        rw [hpieces]
        simpa [Component.ofPiece?] using h
      · exact h
  obtain ⟨piece, hpiece, hname⟩ := List.mem_filterMap.mp hlisted
  exact isFileName_of_ofPiece? hpiece hname

theorem FilePath.isFileName_of_fileName? {path : FilePath} {name : String}
    (h : path.fileName? = some name) : IsFileName name := by
  rw [fileName?] at h
  split at h
  · rename_i hlast
    cases h
    exact isFileName_of_mem_components (List.mem_of_getLast? hlast)
  · cases h

namespace Survey

theorem bind_eq_ok {α β : Type} {x : Except Fault α} {f : α → Except Fault β} {b : β} :
    x >>= f = .ok b ↔ ∃ a, x = .ok a ∧ f a = .ok b := by
  cases x with
  | error fault => simp [bind, Except.bind]
  | ok a => simp [bind, Except.bind]

variable {disk : Disk} {selection : Selection}

theorem kindOf_eq_package {directory : FilePath} :
    selection.kindOf disk directory = .package ↔
      selection.exclusions.covers directory = false ∧ Python.isPackage disk directory = true := by
  rw [Selection.kindOf]
  cases selection.exclusions.covers directory <;> cases Python.isPackage disk directory <;> simp

/-! ### Modules -/

/-- A module that is found is a file that is called like one, of the size that it has. -/
theorem module?_eq_some {visit : Visit} {file : ModuleFile}
    (h : module? disk selection visit = .ok (some file)) :
    visit.name? = some file.fileName ∧ selection.isModuleFile file.fileName = true
      ∧ disk.fileSize visit.path = .ok file.size := by
  rw [module?] at h
  split at h
  · rename_i name hname hkind
    split at h
    · rename_i hmodule
      split at h
      · rename_i size hsize
        cases h
        exact ⟨hname, hmodule, hsize⟩
      · cases h
    · cases h
  · cases h

theorem readModules_cons {visit : Visit} {rest : List Visit} {modules : List ModuleFile} :
    readModules disk selection (visit :: rest) = .ok modules ↔
      ∃ found others, module? disk selection visit = .ok found
        ∧ readModules disk selection rest = .ok others ∧ modules = found.toList ++ others := by
  rw [readModules, bind_eq_ok]
  simp only [bind_eq_ok]
  constructor
  · rintro ⟨found, hfound, others, hothers, hmodules⟩
    cases hmodules
    exact ⟨found, others, hfound, hothers, rfl⟩
  · rintro ⟨found, others, hfound, hothers, rfl⟩
    exact ⟨found, hfound, others, hothers, rfl⟩

/-- A module that is read was found by one of the visits. -/
theorem of_mem_readModules {visits : List Visit} {modules : List ModuleFile} {file : ModuleFile}
    (h : readModules disk selection visits = .ok modules) (hfile : file ∈ modules) :
    ∃ visit ∈ visits, module? disk selection visit = .ok (some file) := by
  induction visits generalizing modules with
  | nil =>
    cases h
    cases hfile
  | cons visit rest ih =>
    obtain ⟨found, others, hvisit, hrest, rfl⟩ := readModules_cons.mp h
    rcases List.mem_append.mp hfile with hfound | hothers
    · rw [Option.mem_toList] at hfound
      exact ⟨visit, List.mem_cons_self, by rw [hvisit, hfound]⟩
    · obtain ⟨other, hother, hmodule⟩ := ih hrest hothers
      exact ⟨other, List.mem_cons_of_mem _ hother, hmodule⟩

/-- The marker in front is one of the modules, and no other module is lost. -/
theorem mem_markerFirst {modules : List ModuleFile} {file : ModuleFile} :
    file ∈ markerFirst modules ↔ file ∈ modules := by
  rw [markerFirst]
  split
  · rename_i marker hmarker
    obtain ⟨his, before, after, rfl, hbefore⟩ := List.find?_eq_some_iff_append.mp hmarker
    rw [List.eraseP_append_right _ (by simpa using hbefore), List.eraseP_cons_of_pos his]
    simp only [List.mem_cons, List.mem_append]
    tauto
  · rfl

/-! ### Packages -/

/-- A package that is found below is a visible directory that is a package. -/
theorem subpackage?_eq_some {visit : Visit} {name : String} :
    subpackage? disk selection visit = some name ↔
      visit.name? = some name ∧ visit.kind = .directory ∧ isVisibleDirectory name = true
        ∧ selection.kindOf disk visit.path = .package := by
  rw [subpackage?]
  split
  · rename_i own hown hkind
    rw [hown, hkind]
    constructor
    · intro h
      split at h
      · rename_i hpackage
        cases h
        rw [Bool.and_eq_true, decide_eq_true_iff] at hpackage
        exact ⟨rfl, rfl, hpackage⟩
      · cases h
    · rintro ⟨hsame, -, hpackage⟩
      cases hsame
      rw [if_pos]
      rwa [Bool.and_eq_true, decide_eq_true_iff]
  · rename_i hother
    exact ⟨fun h => (nomatch h), fun h => absurd h.2.1 (hother name h.1)⟩

/-- The visits of what stands directly in a directory. -/
def children (disk : Disk) (directory : FilePath) : List Visit :=
  (disk.traverse childRule directory).visits.filter fun visit => visit.names ≠ []

/-- A package is read from the children of its directory. -/
theorem readPackage_eq_ok {name : String} {directory : FilePath} {package : Package} :
    readPackage disk selection name directory = .ok package ↔
      ∃ modules, readModules disk selection (children disk directory) = .ok modules
        ∧ (disk.traverse childRule directory).fault = none
        ∧ package = {
            name
            path := directory
            modules := markerFirst modules
            subpackages := (children disk directory).filterMap (subpackage? disk selection) } := by
  rw [readPackage, bind_eq_ok]
  refine exists_congr fun modules => and_congr_right fun _ => ?_
  cases (disk.traverse childRule directory).fault with
  | some fault => simp [throw, throwThe, MonadExceptOf.throw]
  | none => simp [pure, Except.pure, children, eq_comm]

theorem readPackage_eq_error {name : String} {directory : FilePath} {fault : Fault}
    (h : readModules disk selection (children disk directory) = .error fault) :
    readPackage disk selection name directory = .error fault := by
  rw [children] at h
  rw [readPackage, h]
  rfl

/-- A package comes from a visited directory that is a package, and has something to document. -/
theorem of_mem_readPackages {top : String} {visits : List Visit} {packages : List Package}
    {package : Package} (h : readPackages disk selection top visits = .ok packages)
    (hpackage : package ∈ packages) :
    ∃ visit ∈ visits, selection.kindOf disk visit.path = .package
      ∧ readPackage disk selection (Dotted.join top (Dotted.ofComponents visit.names)) visit.path
          = .ok package := by
  induction visits generalizing packages with
  | nil =>
    cases h
    cases hpackage
  | cons visit rest ih =>
    have hlater : ∀ {others}, readPackages disk selection top rest = .ok others →
        package ∈ others → ∃ other ∈ visit :: rest, selection.kindOf disk other.path = .package
          ∧ readPackage disk selection (Dotted.join top (Dotted.ofComponents other.names))
              other.path = .ok package := by
      intro others hothers hmem
      obtain ⟨other, hother, hread⟩ := ih hothers hmem
      exact ⟨other, List.mem_cons_of_mem _ hother, hread⟩
    rw [readPackages] at h
    split at h
    · exact hlater h hpackage
    rename_i hkind
    obtain ⟨first, hfirst, hrest⟩ := bind_eq_ok.mp h
    obtain ⟨others, hothers, hpackages⟩ := bind_eq_ok.mp hrest
    cases hpackages
    split at hpackage
    · exact hlater hothers hpackage
    rcases List.mem_cons.mp hpackage with rfl | hmem
    · exact ⟨visit, List.mem_cons_self, Decidable.not_not.mp hkind, hfirst⟩
    · exact hlater hothers hmem

/-- What stands directly in a directory is at the path of a name in it. -/
theorem of_mem_children (hdisk : disk.WellFormed) {directory : FilePath} {visit : Visit}
    {name : String} (h : visit ∈ children disk directory) (hname : visit.name? = some name) :
    IsFileName name ∧ visit.path = directory.join name := by
  obtain ⟨hvisit, -⟩ := List.mem_filter.mp h
  obtain ⟨hpath, ⟨more, hnames, hproper, hlength⟩, -⟩ := hdisk.visited_traverse hvisit
  rw [List.nil_append] at hnames
  rw [Visit.name?, hnames] at hname
  -- one level down there is one name at most
  cases more with
  | nil => cases hname
  | cons first rest =>
    obtain rfl := List.eq_nil_of_length_eq_zero (Nat.le_zero.mp (Nat.le_of_succ_le_succ hlength))
    cases hname
    exact ⟨hproper first List.mem_cons_self, by rw [hpath, hnames]; rfl⟩

/-- What a survey lists as a package, at names below its root. -/
structure Lists (disk : Disk) (selection : Selection) (root : FilePath) (names : Location)
    (package : Package) : Prop where
  proper : names.Proper
  path : package.path = root.joinAll names
  name : package.name = Dotted.ofComponents ((rootPackage? disk root).toList ++ names)
  kind : selection.kindOf disk package.path = .package
  modules : ∀ file ∈ package.modules, IsFileName file.fileName
    ∧ selection.isModuleFile file.fileName = true
    ∧ disk.isFile (package.path.join file.fileName) = true
  subpackages : ∀ sub ∈ package.subpackages, IsFileName sub
    ∧ selection.kindOf disk (package.path.join sub) = .package

theorem ne_empty_of_rootPackage? {root : FilePath} : "" ∉ (rootPackage? disk root).toList := by
  rw [Option.mem_toList, rootPackage?]
  split
  · exact fun h => absurd (FilePath.isFileName_of_fileName? h).no_filler (by decide)
  · simp

theorem ne_empty_of_proper {names : Location} (h : names.Proper) : "" ∉ names :=
  fun hmem => absurd (h "" hmem).no_filler (by decide)

/-- The dotted name of a package is that of the root and of the directories below it. -/
theorem join_rootPackage? (disk : Disk) (root : FilePath) {names : Location} (h : names.Proper) :
    Dotted.join ((rootPackage? disk root).getD "") (Dotted.ofComponents names)
      = Dotted.ofComponents ((rootPackage? disk root).toList ++ names) :=
  Dotted.join_top ne_empty_of_rootPackage? (ne_empty_of_proper h)

theorem isFile_of_fileSize {path : FilePath} {size : Nat} (h : disk.fileSize path = .ok size) :
    disk.isFile path = true := by
  rw [Disk.fileSize] at h
  rw [Disk.isFile]
  split at h
  · rename_i hfind
    rw [hfind]
  all_goals cases h

/-- A package that is surveyed is the one at a directory that the survey visits. -/
theorem visit_of_survey {root : FilePath} {packages : List Package} {package : Package}
    (hsurvey : survey disk selection root = .ok packages) (hpackage : package ∈ packages) :
    ∃ visit ∈ (disk.traverse ⟨true, enters disk selection, disk.everyLevel⟩ root).visits,
      selection.kindOf disk visit.path = .package
      ∧ readPackage disk selection (Dotted.join ((rootPackage? disk root).getD "")
          (Dotted.ofComponents visit.names)) visit.path = .ok package := by
  rw [survey] at hsurvey
  obtain ⟨all, hall, hfault⟩ := bind_eq_ok.mp hsurvey
  split at hfault
  · cases hfault
  cases hfault
  exact of_mem_readPackages hall hpackage

/-- What is listed as a package at a directory that the survey visits. -/
theorem lists_of_visit (hdisk : disk.WellFormed) {rule : TraversalRule} {root : FilePath}
    {visit : Visit} (hvisit : visit ∈ (disk.traverse rule root).visits)
    (hkind : selection.kindOf disk visit.path = .package) {package : Package}
    (hread : readPackage disk selection (Dotted.join ((rootPackage? disk root).getD "")
      (Dotted.ofComponents visit.names)) visit.path = .ok package) :
    Lists disk selection root visit.names package := by
  obtain ⟨hpath, ⟨names, hnames, hproper, -⟩, -⟩ := hdisk.visited_traverse hvisit
  rw [List.nil_append] at hnames
  obtain ⟨modules, hmodules, -, rfl⟩ := readPackage_eq_ok.mp hread
  rw [hnames] at hpath
  rw [hnames]
  refine ⟨hproper, hpath, ?_, hkind, ?_, ?_⟩
  · rw [join_rootPackage? disk root hproper]
  · intro file hfile
    obtain ⟨child, hchild, hmodule⟩ := of_mem_readModules hmodules (mem_markerFirst.mp hfile)
    obtain ⟨hname, hcovered, hsize⟩ := module?_eq_some hmodule
    obtain ⟨hfileName, hchildPath⟩ := of_mem_children hdisk hchild hname
    rw [hchildPath] at hsize
    exact ⟨hfileName, hcovered, isFile_of_fileSize hsize⟩
  · intro sub hsub
    obtain ⟨child, hchild, hpackage⟩ := List.mem_filterMap.mp hsub
    obtain ⟨hname, -, -, hsubKind⟩ := subpackage?_eq_some.mp hpackage
    obtain ⟨hfileName, hchildPath⟩ := of_mem_children hdisk hchild hname
    rw [hchildPath] at hsubKind
    exact ⟨hfileName, hsubKind⟩

/-- **What a survey lists**, whatever links the tree holds. -/
theorem surveyed (hdisk : disk.WellFormed) {root : FilePath} {packages : List Package}
    {package : Package} (hsurvey : survey disk selection root = .ok packages)
    (hpackage : package ∈ packages) : ∃ names, Lists disk selection root names package := by
  obtain ⟨visit, hvisit, hkind, hread⟩ := visit_of_survey hsurvey hpackage
  exact ⟨visit.names, lists_of_visit hdisk hvisit hkind hread⟩

/-- The directory right below the root that a package is in, or is, is a package. -/
theorem surveyed_first (hdisk : disk.WellFormed) {root : FilePath} {packages : List Package}
    {package : Package} (hsurvey : survey disk selection root = .ok packages)
    (hpackage : package ∈ packages) : ∃ names, Lists disk selection root names package
      ∧ ∀ first ∈ names.head?, Python.isPackage disk (root.join first) = true := by
  obtain ⟨visit, hvisit, hkind, hread⟩ := visit_of_survey hsurvey hpackage
  refine ⟨visit.names, lists_of_visit hdisk hvisit hkind hread, fun first hfirst => ?_⟩
  obtain ⟨rest, hnames⟩ := List.head?_eq_some_iff.mp hfirst
  have habove : [first] <+: visit.names := ⟨rest, hnames.symm⟩
  obtain ⟨kind, hkept⟩ := hdisk.kept_traverse hvisit habove
  have hentered : (decide (kind = .directory) && (isVisibleDirectory first
      && selection.kindOf disk (root.join first) = .package)) = true := hkept
  simp only [Bool.and_eq_true, decide_eq_true_eq] at hentered
  exact (kindOf_eq_package.mp hentered.2.2).2

end Survey

end ApiStubs
