import ApiStubs.Page
import ApiStubs.Proofs.Inventory
import ApiStubs.Proofs.ModulePaths

/-!
# Proofs — Linking — the page of a package links to those below it

A survey decides twice which directories count: where it goes down, and where it lists the packages
of a directory.  The two agree where no link is below the root, so that the pages hang together.
The list on a package's page shows the names of the packages below, as they call themselves
(`subpackageList_eq`); every package but the topmost stands in the list of the one around it, which
comes earlier; and what is listed has a page, unless there is nothing to document.

The places that have something to document are closed upwards, as far as the root is a package:
what is below a place is something to document there (`Documented.above`).
-/

namespace ApiStubs

/-! ### The list of a page -/

/-- A list of documents, one a line. -/
def Page.toctree (names : List String) : String :=
  heading 2 "Subpackages" ++ ".. toctree::\n    :maxdepth: 2\n\n"
    ++ concat (names.map fun name => "    " ++ name ++ "\n") ++ "\n"

/-- **The list on the page of a package** shows the packages below by their names. -/
theorem Package.subpackageList_eq {package : Package} (hname : package.name ≠ "")
    (hsubs : "" ∉ package.subpackages) (hsome : package.subpackages ≠ []) :
    Page.subpackageList package.name package.subpackages
      = Page.toctree (package.subpackages.map package.subpackageName) := by
  have hlines : (package.subpackages.map fun sub => "    " ++ package.name ++ "." ++ sub ++ "\n")
      = (package.subpackages.map package.subpackageName).map
        fun name => "    " ++ name ++ "\n" := by
    rw [List.map_map]
    refine List.map_congr_left fun sub hsub => ?_
    have hsub' : sub ≠ "" := fun hempty => hsubs (hempty ▸ hsub)
    simp only [Function.comp_apply, subpackageName, Dotted.join, if_neg hname, if_neg hsub',
      String.append_assoc]
  rw [Page.subpackageList, List.isEmpty_eq_false_iff.mpr hsome, if_neg Bool.false_ne_true, hlines]
  rfl

namespace Survey

open FilePath (IsFileName)

/-- The directory is read as a package with nothing to document. -/
structure EmptyLeaf (disk : Disk) (selection : Selection) (name : String) (directory : FilePath)
    (package : Package) : Prop where
  kind : selection.kindOf disk directory = .package
  read : readPackage disk selection name directory = .ok package
  subpackages : package.subpackages = []
  modules : ∀ file ∈ package.modules, file.isMarker = true ∧ file.size ≤ trivialSize

/-! ### Places with something to document -/

section

variable {disk : Disk} {selection : Selection} {root names : Location} {name : String}

theorem Entered.above (h : Entered disk selection root (names ++ [name])) :
    Entered disk selection root names :=
  ⟨fun above habove => h.included above (habove.trans (List.prefix_append names [name])),
    fun above own habove => h.packages above own (habove.trans (List.prefix_append names [name]))⟩

/-- A place that is entered below another is a package there. -/
theorem Entered.hasPackage (h : Entered disk selection root (names ++ [name])) :
    HasPackage disk selection (root ++ names) name := by
  obtain ⟨hvisible, hmarked⟩ := h.packages names name List.prefix_rfl
  have hincluded := h.included (names ++ [name]) List.prefix_rfl
  rw [← List.append_assoc] at hmarked hincluded
  exact ⟨hvisible, hincluded, hmarked⟩

/-- A package in a directory that is entered is entered. -/
theorem HasPackage.entered (h : HasPackage disk selection (root ++ names) name)
    (hentered : Entered disk selection root names) :
    Entered disk selection root (names ++ [name]) := by
  obtain ⟨hvisible, hincluded, hmarked⟩ := h
  rw [List.append_assoc] at hincluded hmarked
  refine ⟨fun above habove => ?_, fun above own habove => ?_⟩
  · rcases List.prefix_concat_iff.mp habove with rfl | habove
    · exact hincluded
    · exact hentered.included above habove
  · rcases List.prefix_concat_iff.mp habove with hsame | habove
    · obtain ⟨rfl, hown⟩ := List.append_inj' hsame rfl
      cases hown
      exact ⟨hvisible, hmarked⟩
    · exact hentered.packages above own habove

/-- **The place around one with something to document** has something to document, if it is the
root of a package or below the root. -/
theorem Documented.above (h : Documented disk selection root (names ++ [name]))
    (hroot : names = [] → Marked disk root) : Documented disk selection root names := by
  have hentered := h.entered.above
  refine ⟨hentered, ?_, .inl ⟨name, h.entered.hasPackage⟩⟩
  rcases List.eq_nil_or_concat' names with rfl | ⟨above, own, rfl⟩
  · rw [List.append_nil]
    exact hroot rfl
  · exact (hentered.packages above own List.prefix_rfl).2

end

/-- Where a list is taken apart, what it was described by comes apart too. -/
theorem forall₂_split {α β : Type} {R : α → β → Prop} {as : List α} {before after : List β} {b : β}
    (h : List.Forall₂ R as (before ++ b :: after)) :
    ∃ front a back, as = front ++ a :: back ∧ List.Forall₂ R front before ∧ R a b := by
  have hback := List.forall₂_drop_append as before (b :: after) h
  obtain ⟨a, back, hab, -, hdrop⟩ := List.forall₂_cons_right_iff.mp hback
  refine ⟨as.take before.length, a, back, ?_, List.forall₂_take_append as before _ h, hab⟩
  rw [← hdrop, List.take_append_drop]

theorem exists_of_forall₂ {α β : Type} {R : α → β → Prop} {as : List α} {bs : List β} {a : α}
    (h : List.Forall₂ R as bs) (ha : a ∈ as) : ∃ b ∈ bs, R a b := by
  obtain ⟨front, back, rfl⟩ := List.append_of_mem ha
  obtain ⟨before, b, after, rfl, -, hab⟩ := forall₂_split h.flip
  exact ⟨b, by simp, hab⟩

section

variable {disk : Disk} (hdisk : disk.WellFormed) {selection : Selection} {root names : Location}
  {name : String} {parent package : Package}

include hdisk

theorem Documented.proper (h : Documented disk selection root names) : names.Proper :=
  (Location.Proper.of_append (hdisk.proper (h.marked.directory hdisk))).2

/-- The parts of the name of a package are names of files, and there is one at least. -/
theorem Documented.parts (h : Documented disk selection root names)
    (hfree : disk.LinkFree root) (hroot : disk.Canonical root) (hne : root ≠ []) :
    (rootPackage? disk root.path).toList ++ names ≠ []
      ∧ "" ∉ (rootPackage? disk root.path).toList ++ names := by
  refine ⟨?_, fun hmem => ?_⟩
  · rcases List.eq_nil_or_concat' names with rfl | ⟨above, own, rfl⟩
    · have hmarked := h.marked
      rw [List.append_nil] at hmarked
      have hown := List.getLast?_eq_some_getLast hne
      rw [(rootPackage?_eq_some hdisk hfree hroot hne).mpr ⟨hmarked, hown⟩]
      simp
    · simp
  · rcases List.mem_append.mp hmem with htop | hnames
    · exact ne_empty_of_rootPackage? htop
    · exact ne_empty_of_proper (h.proper hdisk) hnames

/-- The package at a place is named, and so are those that it lists. -/
theorem Documented.named (h : Documented disk selection root names)
    (hfree : disk.LinkFree root) (hroot : disk.Canonical root) (hne : root ≠ [])
    (hdescribes : Describes disk selection root names package) :
    package.name ≠ "" ∧ "" ∉ package.subpackages := by
  obtain ⟨hparts, hempty⟩ := h.parts hdisk hfree hroot hne
  refine ⟨fun hname => hparts (Text.join_eq_empty hempty (hdescribes.name.symm.trans hname)), ?_⟩
  intro hmem
  obtain ⟨-, -, hmarked⟩ := (hdescribes.subpackages "").mp hmem
  have hproper := (Location.Proper.of_append (hdisk.proper (hmarked.directory hdisk))).2
  exact ne_empty_of_proper hproper List.mem_cons_self

/-- A package below another is at its name in the other's directory, and called so. -/
theorem Describes.below (hparent : Describes disk selection root names parent)
    (hpackage : HasPackage disk selection (root ++ names) name) :
    Location.path (root ++ (names ++ [name])) = parent.path.join name
      ∧ Dotted.ofComponents ((rootPackage? disk root.path).toList ++ (names ++ [name]))
        = parent.subpackageName name := by
  have hdirectory := hpackage.2.2.directory hdisk
  obtain ⟨hhere, hproper⟩ := Location.Proper.of_append (hdisk.proper hdirectory)
  have hfile : IsFileName name := hproper name List.mem_cons_self
  constructor
  · rw [← List.append_assoc, hparent.path, Location.path_concat hhere hfile]
  · have hnames := (Location.Proper.of_append hhere).2
    have hparts : "" ∉ (rootPackage? disk root.path).toList ++ names := fun hmem =>
      (List.mem_append.mp hmem).elim ne_empty_of_rootPackage? (ne_empty_of_proper hnames)
    have hname : name ≠ "" := fun hempty =>
      ne_empty_of_proper hproper (hempty ▸ List.mem_cons_self)
    rw [Package.subpackageName, hparent.name, Dotted.join_ofComponents hparts hname,
      List.append_assoc]

end

/-! ### Pages that hang together -/

section

variable {disk : Disk} (hdisk : disk.WellFormed) {root : Location} (hfree : disk.LinkFree root)
  (hroot : disk.Canonical root) {selection : Selection} {places : List Location}
  (hplaces : ∀ names, names ∈ places ↔ Documented disk selection root names)

include hdisk hfree hroot hplaces

/-- A package is listed by the one around it, which comes earlier. -/
theorem parent_earlier (hsorted : places.Pairwise (· < ·)) {before after : List Package}
    {package : Package}
    (hdescribed : List.Forall₂ (Describes disk selection root) places (before ++ package :: after))
    (htop : package.path ≠ root.path)
    (hplain : ¬(package.path.parent? = some root.path
      ∧ Python.isPackage disk root.path = false)) :
    ∃ parent ∈ before, ∃ directory, package.path = parent.path.join directory
      ∧ directory ∈ parent.subpackages ∧ package.name = parent.subpackageName directory := by
  obtain ⟨front, names, back, rfl, hfront, hdescribes⟩ := forall₂_split hdescribed
  have hdocumented := (hplaces names).mp (by simp)
  obtain ⟨above, directory, rfl⟩ := (List.eq_nil_or_concat' names).resolve_left fun hnil =>
    htop (by rw [hdescribes.path, hnil, List.append_nil])
  have hproper := hdisk.proper (hdocumented.marked.directory hdisk)
  rw [← List.append_assoc] at hproper
  obtain ⟨hhere, hdirectory⟩ := hproper.of_append
  -- directly below the root there is a parent only where the root is a package
  have habove : Documented disk selection root above := hdocumented.above fun hnil => by
    rw [← isPackage_path hdisk hfree hroot.entryAt]
    refine Bool.not_eq_false _ |>.mp fun hnone => hplain ⟨?_, hnone⟩
    rw [hdescribes.path, hnil, ← List.append_assoc, List.append_nil]
    rw [hnil, List.append_nil] at hhere
    exact Location.parent?_path hhere (hdirectory directory List.mem_cons_self)
  -- a place comes before what is below it
  have hearlier : above ∈ front := by
    have hlt : above ++ [] < above ++ [directory] :=
      List.append_left_lt (List.nil_lt_cons directory [])
    rw [List.append_nil] at hlt
    rcases List.mem_append.mp ((hplaces above).mpr habove) with hfront | hback
    · exact hfront
    rcases List.mem_cons.mp hback with hsame | hback
    · exact absurd (hlt.trans_eq hsame.symm) (lt_irrefl above)
    · have hlater := (List.pairwise_cons.mp (List.pairwise_append.mp hsorted).2.1).1 above hback
      exact absurd (hlt.trans hlater) (lt_irrefl above)
  obtain ⟨parent, hparent, hown⟩ := exists_of_forall₂ hfront hearlier
  have hlisted := hdocumented.entered.hasPackage
  obtain ⟨hpath, hname⟩ := hown.below hdisk hlisted
  exact ⟨parent, hparent, directory, hdescribes.path.trans hpath,
    (hown.subpackages directory).mpr hlisted, hdescribes.name.trans hname⟩

omit hroot

/-- What a package lists is one of the packages, or has nothing to document. -/
theorem listed_or_empty (hreached : ∀ names file, ¬ Unreachable disk selection root names file)
    {packages : List Package}
    (hdescribed : List.Forall₂ (Describes disk selection root) places packages)
    {package : Package} (hpackage : package ∈ packages) {sub : String}
    (hsub : sub ∈ package.subpackages) :
    (∃ child ∈ packages, child.path = package.path.join sub
      ∧ child.name = package.subpackageName sub)
    ∨ ∃ leaf, EmptyLeaf disk selection (package.subpackageName sub) (package.path.join sub)
      leaf := by
  obtain ⟨names, hmem, hdescribes⟩ := exists_of_forall₂ hdescribed.flip hpackage
  have hdocumented := (hplaces names).mp hmem
  have hlisted := (hdescribes.subpackages sub).mp hsub
  have hentered := hlisted.entered hdocumented.entered
  obtain ⟨hpath, hname⟩ := hdescribes.below hdisk hlisted
  have hmarked : Marked disk (root ++ (names ++ [sub])) := by
    rw [← List.append_assoc]
    exact hlisted.2.2
  by_cases hdocumentable : Documentable disk selection (root ++ (names ++ [sub]))
  · obtain ⟨child, hchild, hown⟩ :=
      exists_of_forall₂ hdescribed ((hplaces _).mpr ⟨hentered, hmarked, hdocumentable⟩)
    exact .inl ⟨child, hchild, hown.path.trans hpath, hown.name.trans hname⟩
  · rcases readPackage_cases hdisk hfree hmarked hname.symm with
      ⟨leaf, hread, hown, -⟩ | ⟨file, hfile, hlong, -⟩
    swap
    · exact absurd ⟨hentered, hmarked, hfile, hlong⟩ (hreached _ file)
    obtain ⟨hnone, htrivial⟩ := not_documentable.mp hdocumentable
    have hkind : selection.kindOf disk (Location.path (root ++ (names ++ [sub]))) = .package := by
      rw [kindOf_eq_package, isPackage_path hdisk (hfree.below _) (hmarked.directory hdisk)]
      exact ⟨hentered.included _ List.prefix_rfl, hmarked⟩
    rw [hpath] at hread hkind
    refine .inr ⟨leaf, hkind, hread, ?_, ?_⟩
    · exact List.eq_nil_iff_forall_not_mem.mpr fun other hother =>
        hnone other ((hown.subpackages other).mp hother)
    · exact fun file hfile => htrivial file ((hown.modules file).mp hfile)

end

/-- **Every page is linked, and every link leads to a page.**  The list on a page shows the names of
the packages below.  A package that is neither at the root nor directly below a root that is none
is listed by the package around it, which comes earlier.  A package that is listed has its own
place among the packages, under the name by which it is listed, unless there is nothing to
document. -/
theorem survey_linked {disk : Disk} (hdisk : disk.WellFormed) {root : Location}
    (hfree : disk.LinkFree root) (hroot : disk.Canonical root) (hne : root ≠ [])
    {selection : Selection} {packages : List Package}
    (hsurvey : survey disk selection root.path = .ok packages) :
    (∀ package ∈ packages, package.subpackages ≠ [] →
      Page.subpackageList package.name package.subpackages
        = Page.toctree (package.subpackages.map package.subpackageName))
    ∧ (∀ before package after, packages = before ++ package :: after →
      package.path ≠ root.path →
      ¬(package.path.parent? = some root.path ∧ Python.isPackage disk root.path = false) →
      ∃ parent ∈ before, ∃ directory, package.path = parent.path.join directory
        ∧ directory ∈ parent.subpackages ∧ package.name = parent.subpackageName directory)
    ∧ ∀ package ∈ packages, ∀ sub ∈ package.subpackages,
      (∃ child ∈ packages, child.path = package.path.join sub
        ∧ child.name = package.subpackageName sub)
      ∨ ∃ leaf, EmptyLeaf disk selection (package.subpackageName sub) (package.path.join sub)
        leaf := by
  rcases survey_cases hdisk hfree hroot selection with
    ⟨found, places, hfound, hreached, hsorted, hplaces, hdescribed⟩ | ⟨_, _, -, herror⟩
  swap
  · cases hsurvey.symm.trans herror
  cases hsurvey.symm.trans hfound
  refine ⟨fun package hpackage hsome => ?_, fun before package after hsplit htop hplain => ?_,
    fun package hpackage sub hsub => ?_⟩
  · obtain ⟨names, hmem, hdescribes⟩ := exists_of_forall₂ hdescribed.flip hpackage
    obtain ⟨hname, hsubs⟩ := ((hplaces names).mp hmem).named hdisk hfree hroot hne hdescribes
    exact Package.subpackageList_eq hname hsubs hsome
  · rw [hsplit] at hdescribed
    exact parent_earlier hdisk hfree hroot hplaces hsorted hdescribed htop hplain
  · exact listed_or_empty hdisk hfree hplaces hreached hdescribed hpackage hsub

/-- The package of the shelves. -/
def shelf : Package :=
  ⟨"pkg", ⟨"/pkg"⟩, [⟨"__init__.py", 0⟩, ⟨"zeta.py", 0⟩], ["empty", "util"]⟩

def utilShelf : Package := ⟨"pkg.util", ⟨"/pkg/util"⟩, [⟨"__init__.py", 5⟩], []⟩

/-- Of the two packages on the shelf one has a page, and the other has nothing to document. -/
theorem survey_linked_shelves :
    survey shelves ⟨⟨[]⟩, []⟩ (Location.path ["pkg"]) = .ok [shelf, utilShelf]
    ∧ (∃ parent ∈ [shelf], ∃ directory, utilShelf.path = parent.path.join directory
      ∧ directory ∈ parent.subpackages ∧ utilShelf.name = parent.subpackageName directory)
    ∧ ∃ leaf, EmptyLeaf shelves ⟨⟨[]⟩, []⟩ (shelf.subpackageName "empty")
      (shelf.path.join "empty") leaf := by
  have hsurvey : survey shelves ⟨⟨[]⟩, []⟩ (Location.path ["pkg"]) = .ok [shelf, utilShelf] := by
    decide +kernel
  obtain ⟨-, hparents, hlinks⟩ := @survey_linked shelves (by decide +kernel) ["pkg"] (by decide)
    (by decide +kernel) (by decide) ⟨⟨[]⟩, []⟩ _ hsurvey
  refine ⟨hsurvey, hparents [shelf] utilShelf [] rfl (by decide +kernel) (by decide +kernel), ?_⟩
  refine (hlinks shelf List.mem_cons_self "empty" (by decide)).resolve_left ?_
  decide +kernel

end Survey

end ApiStubs
