import ApiStubs.Proofs.Following
import ApiStubs.Proofs.Surveying
import Mathlib.Data.List.Basic

/-!
# Proofs — Excluding — what an exclusion leaves out

An exclusion is written as a path below the root.  Its rule is written for the place that this path
leads to, or for the path itself when it leads nowhere, and leaves out exactly what is at that
place or below it: `Exclusions.covers_iff_under`.  So nothing that a survey lists is there.

The directories of a survey are at the paths by which they were reached, though, and these may go
through links: an exclusion that is a link leaves out the directory it leads to, but not what is
reached through the link (`Survey.detour_listed`).
-/

namespace ApiStubs

open FilePath (IsFileName Component)

namespace Location

/-! ### The text of a path that ends in a separator -/

theorem text_join_asDirectory {here : Location} {other : String}
    (h : Text.startsWith other "/" = false) :
    (here.path.join other).text = here.path.asDirectory ++ other := by
  rw [FilePath.text_join h, FilePath.asDirectory]
  simp [here.path_ne_empty]

/-- Each name is followed by a separator. -/
theorem asDirectory_path {here : Location} (h : here.Proper) :
    here.path.asDirectory.toList = '/' :: here.flatMap fun name => name.toList ++ ['/'] := by
  induction here using List.reverseRecOn with
  | nil => decide
  | append_singleton above name ih =>
    obtain ⟨habove, hname⟩ := Proper.of_append h
    have hown := hname name List.mem_cons_self
    have htext := @text_join_asDirectory above name
      (FilePath.not_startsWith_separator hown.no_separator)
    rw [path_concat habove hown, FilePath.asDirectory, htext, hown.not_endsWith,
      if_neg Bool.false_ne_true, String.toList_append, String.toList_append, ih habove]
    simp

/-- Names with a separator behind each start others exactly where they are the first of them. -/
theorem flatMap_prefix {here there : Location} (h : here.Proper) (hthere : there.Proper) :
    (there.flatMap fun name => name.toList ++ ['/'])
        <+: (here.flatMap fun name => name.toList ++ ['/']) ↔ there <+: here := by
  induction there generalizing here with
  | nil => simp
  | cons name rest ih =>
    cases here with
    | nil => simp
    | cons first others =>
      obtain ⟨hname, hrest⟩ := List.forall_mem_cons.mp hthere
      obtain ⟨hfirst, hothers⟩ := List.forall_mem_cons.mp h
      rw [List.cons_prefix_cons, ← ih hothers hrest, List.flatMap_cons, List.flatMap_cons,
        List.append_assoc, List.append_assoc, List.singleton_append, List.singleton_append]
      constructor
      · -- the first name is what stands before the first separator
        rintro ⟨more, hmore⟩
        rw [List.append_assoc, List.cons_append] at hmore
        have hpieces := congrArg (Text.cut '/') hmore
        rw [Text.cut_append hname.no_separator, Text.cut_append hfirst.no_separator] at hpieces
        have hsame := List.head_eq_of_cons_eq hpieces
        rw [hsame] at hmore
        exact ⟨String.toList_inj.mp hsame, more,
          List.tail_eq_of_cons_eq (List.append_cancel_left hmore)⟩
      · rintro ⟨rfl, hbelow⟩
        exact (List.prefix_append_right_inj _).mpr (List.cons_prefix_cons.mpr ⟨rfl, hbelow⟩)

/-- A path that ends in a separator starts another one where its location is at or above the
other's. -/
theorem startsWith_asDirectory {here there : Location} (h : here.Proper) (hthere : there.Proper) :
    Text.startsWith here.path.asDirectory there.path.asDirectory = true ↔ there <+: here := by
  rw [Text.startsWith, List.isPrefixOf_iff_prefix, asDirectory_path h, asDirectory_path hthere,
    List.cons_prefix_cons, flatMap_prefix h hthere]
  exact and_iff_right rfl

/-! ### The steps of a path -/

theorem components_path {here : Location} (h : here.Proper) :
    here.path.components = .root :: here.map Component.name := by
  have hnames : here.filterMap Component.ofPiece? = here.map Component.name := by
    rw [← List.filterMap_eq_map]
    exact List.filterMap_congr fun name hname => (h name hname).ofPiece?
  have hempty : Component.ofPiece? "" = none := rfl
  rw [FilePath.components, if_pos here.isAbsolute_path]
  rcases here.path.pieces_eq_front with hpieces | hpieces <;>
    rw [hpieces, front_path h] <;> simp [hempty, hnames]

end Location

namespace FilePath

/-- A relative path behind an absolute one is more steps. -/
theorem components_join {base : FilePath} (hbase : base.isAbsolute = true) {other : String}
    (hother : Text.startsWith other "/" = false) : (base.join other).components
      = base.components ++ (Text.pieces '/' other).filterMap Component.ofPiece? := by
  have hempty : Component.ofPiece? "" = none := rfl
  rw [components, if_pos (by rw [isAbsolute_join_relative hother, hbase]),
    components, if_pos hbase, pieces_join_relative hother]
  rcases base.pieces_eq_front with hpieces | hpieces <;> simp [hpieces, hempty]

/-- The path is another one or is below it. -/
def Under (path base : FilePath) : Prop := base.components <+: path.components

instance (path base : FilePath) : Decidable (path.Under base) :=
  inferInstanceAs (Decidable (_ <+: _))

end FilePath

namespace Location

theorem under_path {here there : Location} (h : here.Proper) (hthere : there.Proper) :
    here.path.Under there.path ↔ there <+: here := by
  rw [FilePath.Under, components_path h, components_path hthere, List.cons_prefix_cons]
  have hinjective : Function.Injective Component.name := fun _ _ heq => Component.name.inj heq
  refine (and_iff_right rfl).trans ⟨fun hbelow => ?_, fun hbelow => hbelow.map Component.name⟩
  obtain ⟨above, habove, hsame⟩ := List.prefix_map_iff.mp hbelow
  rwa [List.map_injective_iff.mpr hinjective hsame]

end Location

namespace Exclusions

/-- The place that an exclusion leads to, or the path itself when it leads nowhere. -/
def target (disk : Disk) (root : FilePath) (raw : String) : FilePath :=
  match disk.canonicalize (root.join raw) with
  | .ok place => place
  | .error _ => root.join raw

/-- The exclusion is written with names only, relative to the root. -/
def IsPlain (raw : String) : Prop := ∀ step ∈ FilePath.components ⟨raw⟩, ∃ name, step = .name name

theorem isPlain_singleton {raw name : String} (h : FilePath.components ⟨raw⟩ = [.name name]) :
    IsPlain raw := by
  rw [IsPlain, h]
  simp

/-- Steps that are all names are those of some file names. -/
theorem exists_names {raw : String} : ∀ {steps : List Component},
    (∀ step ∈ steps, ∃ name, step = .name name) →
    (∀ step ∈ steps, ∃ piece ∈ Text.pieces '/' raw, Component.ofPiece? piece = some step) →
    ∃ names : Location, names.Proper ∧ steps = names.map Component.name
  | [], _, _ => ⟨[], by simp [Location.Proper], rfl⟩
  | step :: rest, hnames, hpieces => by
    obtain ⟨⟨name, rfl⟩, hrest⟩ := List.forall_mem_cons.mp hnames
    obtain ⟨⟨piece, hpiece, hstep⟩, hothers⟩ := List.forall_mem_cons.mp hpieces
    obtain ⟨names, hproper, rfl⟩ := exists_names hrest hothers
    exact ⟨name :: names, List.forall_mem_cons.mpr ⟨FilePath.isFileName_of_ofPiece? hpiece hstep, hproper⟩,
      rfl⟩

/-- A plain exclusion is relative, and its pieces are names. -/
theorem IsPlain.names {raw : String} (h : IsPlain raw) :
    Text.startsWith raw "/" = false ∧ ∃ names : Location, names.Proper
      ∧ (Text.pieces '/' raw).filterMap Component.ofPiece? = names.map Component.name := by
  rw [IsPlain, FilePath.components] at h
  -- a root in front is no name, and neither is a `.`
  split at h
  · obtain ⟨name, hname⟩ := h .root List.mem_cons_self
    cases hname
  rename_i hrelative
  refine ⟨Bool.eq_false_iff.mpr hrelative, ?_⟩
  split at h
  · obtain ⟨name, hname⟩ := h .here List.mem_cons_self
    cases hname
  · exact exists_names h fun step hstep => List.mem_filterMap.mp hstep

/-- Behind an absolute root no exclusion is spelled out by a text that is not absolute itself. -/
theorem anchor_eq_join {root : FilePath} (hroot : root.isAbsolute = true) (raw : String) :
    anchor root raw = root.join raw := by
  rw [anchor, FilePath.join]
  cases hraw : Text.startsWith raw "/" with
  | true => simp [FilePath.isAbsolute, hraw]
  | false =>
    have hbelow : Text.startsWith raw root.text = false := by
      rw [FilePath.isAbsolute] at hroot
      rw [Text.startsWith, List.isPrefixOf_iff_prefix] at hroot
      rw [Text.startsWith, Bool.eq_false_iff, ne_eq, List.isPrefixOf_iff_prefix] at hraw ⊢
      exact fun hbelow => hraw (hroot.trans hbelow)
    simp [FilePath.isAbsolute, hraw, hbelow]

/-- The rule of an exclusion is written for a location, the one that its target spells. -/
theorem rule_eq {disk : Disk} (hdisk : disk.WellFormed) {root : Location} (hroot : root.Proper)
    {raw : String} (hraw : IsPlain raw) :
    ∃ place : Location, place.Proper ∧ rule disk root.path raw = place.path.asDirectory
      ∧ (target disk root.path raw).components = place.path.components := by
  obtain ⟨hrelative, names, hnames, hpieces⟩ := hraw.names
  have hcomponents : (root.path.join raw).components
      = .root :: (root ++ names).map Component.name := by
    rw [FilePath.components_join root.isAbsolute_path hrelative, Location.components_path hroot,
      hpieces, List.map_append, List.cons_append]
  rw [rule, anchor_eq_join root.isAbsolute_path, target]
  cases hplace : disk.canonicalize (root.path.join raw) with
  | ok path =>
    rw [Disk.canonicalize] at hplace
    cases hfind : disk.find true (root.path.join raw) with
    | error cause =>
      rw [hfind] at hplace
      cases hplace
    | ok found =>
      rw [hfind] at hplace
      cases hplace
      exact ⟨found.1, hdisk.proper (Disk.entryAt_of_resolve (Disk.resolve_of_find hfind)), rfl, rfl⟩
  | error cause =>
    exact ⟨root ++ names, hroot.append hnames, by rw [Location.normalize_of_components hcomponents],
      by rw [hcomponents, Location.components_path (hroot.append hnames)]⟩

theorem covers_ofPaths {disk : Disk} {root directory : FilePath} {excludes : List String} :
    (ofPaths disk root excludes).covers directory = true ↔
      ∃ raw ∈ excludes, Text.startsWith directory.asDirectory (rule disk root raw) = true := by
  simp [covers, ofPaths]

/-- **An exclusion leaves out** what is at its target or below it, and nothing else. -/
theorem covers_iff_under {disk : Disk} (hdisk : disk.WellFormed) {root here : Location}
    (hroot : root.Proper) (hhere : here.Proper) {raw : String} (hraw : IsPlain raw) :
    Text.startsWith here.path.asDirectory (rule disk root.path raw) = true
      ↔ here.path.Under (target disk root.path raw) := by
  obtain ⟨place, hplace, hrule, htarget⟩ := rule_eq hdisk hroot hraw
  rw [hrule, Location.startsWith_asDirectory hhere hplace, FilePath.Under, htarget,
    ← FilePath.Under, Location.under_path hhere hplace]

end Exclusions

namespace Survey

/-- No package is at a path or below it, and none has a package at the path or below it. -/
def Avoids (packages : List Package) (base : FilePath) : Prop :=
  ∀ package ∈ packages, ¬ package.path.Under base
    ∧ ∀ sub ∈ package.subpackages, ¬ (package.path.join sub).Under base

/-- **What an exclusion leads to is left out**: an exclusion covers what is at its target or below
it and nothing else, and a survey lists no package there. So it lists none at the path of the
exclusion itself if that path is its own target or is below it. -/
theorem survey_avoids {disk : Disk} (hdisk : disk.WellFormed) {root : Location}
    (hroot : disk.Canonical root) {excludes : List String} {hidden : List Glob}
    {packages : List Package} (hsurvey : survey disk
      ⟨.ofPaths disk root.path excludes, hidden⟩ root.path = .ok packages)
    {raw : String} (hraw : raw ∈ excludes) (hplain : Exclusions.IsPlain raw) :
    (∀ here : Location, here.Proper →
        ((Exclusions.ofPaths disk root.path [raw]).covers here.path = true
          ↔ here.path.Under (Exclusions.target disk root.path raw)))
      ∧ ∀ base : FilePath, base.Under (Exclusions.target disk root.path raw) →
        Avoids packages base := by
  have hrooted := hdisk.proper hroot.entryAt
  have hcovers : ∀ here : Location, here.Proper →
      ((Exclusions.ofPaths disk root.path [raw]).covers here.path = true
        ↔ here.path.Under (Exclusions.target disk root.path raw)) := by
    intro here hhere
    rw [← Exclusions.covers_iff_under hdisk hrooted hhere hplain, Exclusions.covers_ofPaths]
    simp
  refine ⟨hcovers, fun base hbase package hpackage => ?_⟩
  -- what is surveyed is covered by no rule, and by this one neither
  have houtside : ∀ here : Location, here.Proper →
      Selection.kindOf ⟨.ofPaths disk root.path excludes, hidden⟩ disk here.path = .package →
      ¬ here.path.Under base := by
    intro here hhere hkind hunder
    have hrule := (Exclusions.covers_iff_under hdisk hrooted hhere hplain).mpr
      (List.IsPrefix.trans hbase hunder)
    have hcovered := Exclusions.covers_ofPaths.mpr ⟨raw, hraw, hrule⟩
    rw [(kindOf_eq_package.mp hkind).1] at hcovered
    cases hcovered
  obtain ⟨names, hproper, hpath, -, hkind, -, hsubs⟩ := surveyed hdisk hsurvey hpackage
  have hplace := hrooted.append hproper
  rw [← Location.path_append hrooted hproper] at hpath
  rw [hpath] at hkind hsubs ⊢
  refine ⟨houtside _ hplace hkind, fun sub hsub => ?_⟩
  obtain ⟨hsubName, hsubKind⟩ := hsubs sub hsub
  rw [← Location.path_concat hplace hsubName] at hsubKind ⊢
  exact houtside _ (hplace.append (.singleton hsubName)) hsubKind

/-- A package with a link to a package elsewhere. -/
def detour : Disk where
  entries := [
    (["pkg"], .directory),
    (["pkg", "__init__.py"], .file (.text "x = 1")),
    (["pkg", "plugins"], .link "../shared/plugins"),
    (["pkg", "old"], .directory),
    (["pkg", "old", "__init__.py"], .file (.text "y = 2")),
    (["shared"], .directory),
    (["shared", "plugins"], .directory),
    (["shared", "plugins", "__init__.py"], .file (.text "z = 3"))]
  workingDirectory := []

/-- Both packages below the one at the top are excluded. -/
def detourSelection : Selection :=
  ⟨.ofPaths detour (Location.path ["pkg"]) ["plugins", "old"], []⟩

/-- The packages surveyed: what is reached through the link is among them. -/
def detourPackages : List Package := [
  ⟨"pkg", ⟨"/pkg"⟩, [⟨"__init__.py", 5⟩], ["plugins"]⟩,
  ⟨"pkg.plugins", ⟨"/pkg/plugins"⟩, [⟨"__init__.py", 5⟩], []⟩]

theorem survey_detour :
    survey detour detourSelection (Location.path ["pkg"]) = .ok detourPackages := by
  decide +kernel

/-- The directory that is no link is left out. -/
theorem survey_avoids_detour :
    detour.WellFormed ∧ detour.Canonical ["pkg"] ∧ Exclusions.IsPlain "old"
      ∧ FilePath.Under ⟨"/pkg/old"⟩ (Exclusions.target detour (Location.path ["pkg"]) "old")
      ∧ Avoids detourPackages ⟨"/pkg/old"⟩ := by
  have hplain : Exclusions.IsPlain "old" := @Exclusions.isPlain_singleton "old" "old" (by decide)
  have hunder : FilePath.Under ⟨"/pkg/old"⟩
      (Exclusions.target detour (Location.path ["pkg"]) "old") := by decide +kernel
  exact ⟨by decide, by decide, hplain, hunder, (survey_avoids (by decide) (by decide) survey_detour
    (by simp) hplain).2 _ hunder⟩

/-- **An exclusion that is a link leaves out nothing** of what is reached through the link: a
package stands at the excluded path all the same. -/
theorem detour_listed :
    detour.WellFormed ∧ detour.Canonical ["pkg"] ∧ Exclusions.IsPlain "plugins"
      ∧ survey detour ⟨.ofPaths detour (Location.path ["pkg"]) ["plugins", "old"], []⟩
          (Location.path ["pkg"]) = .ok detourPackages
      ∧ ¬ Avoids detourPackages ((Location.path ["pkg"]).join "plugins") := by
  have hplain : Exclusions.IsPlain "plugins" :=
    @Exclusions.isPlain_singleton "plugins" "plugins" (by decide)
  refine ⟨by decide, by decide, hplain, survey_detour, fun havoids => ?_⟩
  have hpackage := (havoids ⟨"pkg.plugins", ⟨"/pkg/plugins"⟩, [⟨"__init__.py", 5⟩], []⟩
    (by simp [detourPackages])).1
  exact hpackage (by decide +kernel)

end Survey

end ApiStubs
