import ApiStubs.Proofs.Excluding

/-!
# Proofs — Ancestry — an exclusion leaves out a directory and what is below it

The rules of exclusions are texts, and a directory is left out where its text, ended by a
separator, starts with one.  For exclusions that lead nowhere on the disk this is a statement about
names: `Location.follow` reads the steps of a written path one after the other, a `..` going back
over the name before it, and a directory is left out if and only if what some exclusion leads to,
read from the root that way, is the directory or one above it (`Exclusions.covers_iff_ancestor`).

The steps may be spelled in every way, and so may the root.  The directory may not: it is the names
on the way to it and single separators, with or without one more at the end, as a survey writes it.
-/

namespace ApiStubs

open FilePath (IsFileName Component)

namespace FilePath

theorem endsWith_asDirectory (path : FilePath) : Text.endsWith path.asDirectory '/' = true := by
  rw [asDirectory]
  split
  · assumption
  · simp [Text.endsWith]

/-- Between separators no root is written. -/
theorem root_notMem_steps (pieces : List String) :
    Component.root ∉ pieces.filterMap Component.ofPiece? := by
  intro hmem
  obtain ⟨piece, -, hpiece⟩ := List.mem_filterMap.mp hmem
  rw [Component.ofPiece?.eq_def] at hpiece
  split at hpiece <;> cases hpiece

theorem isAbsolute_of_components {path : FilePath} {steps : List Component}
    (h : path.components = .root :: steps) : path.isAbsolute = true := by
  rw [components] at h
  split at h
  · assumption
  exfalso
  split at h
  · cases h
  · exact root_notMem_steps path.pieces (h ▸ List.mem_cons_self)

end FilePath

namespace Location

/-- The directory is written as the names on the way to the location, perhaps with a separator at
the end. -/
structure Spells (here : Location) (directory : FilePath) : Prop where
  proper : here.Proper
  written : directory = here.path ∨ directory.text = here.path.asDirectory

theorem Spells.asDirectory {here : Location} {directory : FilePath} (h : here.Spells directory) :
    directory.asDirectory = here.path.asDirectory := by
  rcases h.written with rfl | htext
  · rfl
  have hends : Text.endsWith directory.text '/' = true := by
    rw [htext, FilePath.endsWith_asDirectory]
  rw [FilePath.asDirectory, if_pos hends, htext]

end Location

namespace Exclusions

variable {disk : Disk} {root : FilePath} {names : Location}

/-- The steps of an exclusion, behind those of the root unless it is absolute, lead to where it
leads to from the root. -/
theorem steps_join (hroot : root.components = .root :: names.map Component.name) (raw : String) :
    ∃ steps, (root.join raw).components = .root :: steps ∧ .root ∉ steps
      ∧ Location.follow [] steps = names.follow (FilePath.components ⟨raw⟩) := by
  have habsolute := FilePath.isAbsolute_of_components hroot
  cases hraw : Text.startsWith raw "/" with
  | true =>
    have hjoin : root.join raw = ⟨raw⟩ := by rw [FilePath.join, hraw]
    have hown : FilePath.components ⟨raw⟩
        = .root :: (Text.pieces '/' raw).filterMap Component.ofPiece? := by
      rw [FilePath.components, FilePath.isAbsolute, hraw, if_pos rfl]
      rfl
    rw [hjoin, hown]
    exact ⟨_, rfl, FilePath.root_notMem_steps _, rfl⟩
  | false =>
    refine ⟨names.map Component.name ++ (Text.pieces '/' raw).filterMap Component.ofPiece?,
      ?_, ?_, ?_⟩
    · rw [FilePath.components_join habsolute hraw, hroot, List.cons_append]
    · rw [List.mem_append, not_or]
      exact ⟨by simp, FilePath.root_notMem_steps _⟩
    · rw [Location.follow_append, Location.follow_names, List.nil_append,
        Location.follow_components hraw]
      rfl

/-- **The rule of an exclusion that leads nowhere** is written for the place its steps name. -/
theorem rule_of_missing (hroot : root.components = .root :: names.map Component.name) {raw : String}
    (hmissing : disk.pathExists (root.join raw) = false) {there : Location}
    (hthere : names.follow (FilePath.components ⟨raw⟩) = some there) :
    there.Proper ∧ rule disk root raw = there.path.asDirectory := by
  obtain ⟨steps, hsteps, hunrooted, hfollow⟩ := steps_join hroot raw
  rw [hthere] at hfollow
  have hproper : there.Proper := by
    refine Location.Proper.follow (fun _ h => absurd h List.not_mem_nil) (fun name hname => ?_) hfollow
    exact FilePath.isFileName_of_mem_components (hsteps ▸ List.mem_cons_of_mem Component.root hname)
  refine ⟨hproper, ?_⟩
  rw [rule, anchor_eq_join (FilePath.isAbsolute_of_components hroot), Disk.canonicalize]
  rw [Disk.pathExists] at hmissing
  cases hfind : disk.find true (root.join raw) with
  | ok place =>
    rw [hfind] at hmissing
    cases hmissing
  | error cause =>
    show (root.join raw).normalize.asDirectory = _
    rw [Location.normalize_of_follow hsteps hunrooted hfollow]

theorem startsWith_rule_iff (hroot : root.components = .root :: names.map Component.name)
    {raw : String} (hmissing : disk.pathExists (root.join raw) = false) {there : Location}
    (hthere : names.follow (FilePath.components ⟨raw⟩) = some there) {here : Location}
    {directory : FilePath} (hhere : here.Spells directory) :
    Text.startsWith directory.asDirectory (rule disk root raw) = true ↔ there <+: here := by
  obtain ⟨hproper, hrule⟩ := rule_of_missing hroot hmissing hthere
  rw [hrule, hhere.asDirectory, Location.startsWith_asDirectory hhere.proper hproper]

/-- **Exclusion is ancestry**: behind an absolute root of names, exclusions of which none is there
and none leads up from the top leave out a directory exactly if one of them leads to it or to a
directory above it.  So a directory is left out with everything below it, and an exclusion leaves
out no sibling of what it leads to, however its name begins. -/
theorem covers_iff_ancestor (hroot : root.components = .root :: names.map Component.name)
    {excludes : List String}
    (hmissing : ∀ raw ∈ excludes, disk.pathExists (root.join raw) = false)
    (hbelow : ∀ raw ∈ excludes, (names.follow (FilePath.components ⟨raw⟩)).isSome) :
    (∀ (here : Location) (directory : FilePath), here.Spells directory →
      ((ofPaths disk root excludes).covers directory = true ↔
        ∃ raw ∈ excludes, ∃ there,
          names.follow (FilePath.components ⟨raw⟩) = some there ∧ there <+: here))
    ∧ (∀ (here below : Location) (directory deeper : FilePath), here.Spells directory →
      Location.Spells (here ++ below) deeper →
      (ofPaths disk root excludes).covers directory = true →
      (ofPaths disk root excludes).covers deeper = true)
    ∧ ∀ raw ∈ excludes, ∀ (above : Location) (name sibling : String) (directory : FilePath),
      names.follow (FilePath.components ⟨raw⟩) = some (above ++ [name]) → sibling ≠ name →
      Location.Spells (above ++ [sibling]) directory →
      (ofPaths disk root [raw]).covers directory = false := by
  have hcovers : ∀ (here : Location) (directory : FilePath), here.Spells directory →
      ((ofPaths disk root excludes).covers directory = true ↔
        ∃ raw ∈ excludes, ∃ there,
          names.follow (FilePath.components ⟨raw⟩) = some there ∧ there <+: here) := by
    intro here directory hhere
    rw [covers_ofPaths]
    refine exists_congr fun raw => and_congr_right fun hraw => ?_
    obtain ⟨there, hthere⟩ := Option.isSome_iff_exists.mp (hbelow raw hraw)
    rw [startsWith_rule_iff hroot (hmissing raw hraw) hthere hhere, hthere]
    simp
  refine ⟨hcovers, fun here below directory deeper hhere hdeeper h => ?_,
    fun raw hraw above name sibling directory hthere hne hsibling => ?_⟩
  · obtain ⟨raw, hraw, there, hthere, hprefix⟩ := (hcovers here directory hhere).mp h
    exact (hcovers _ deeper hdeeper).mpr
      ⟨raw, hraw, there, hthere, hprefix.trans (List.prefix_append here below)⟩
  · refine Bool.eq_false_iff.mpr fun h => hne ?_
    obtain ⟨only, honly, hstarts⟩ := covers_ofPaths.mp h
    rw [List.mem_singleton.mp honly, startsWith_rule_iff hroot (hmissing raw hraw) hthere hsibling]
      at hstarts
    -- lists of one length of which one starts the other
    have hsame := hstarts.eq_of_length (by simp)
    exact (List.head_eq_of_cons_eq (List.append_cancel_left hsame)).symm

/-- A disk without files. -/
def barren : Disk := ⟨[], []⟩

/-- Exclusions, spelled in roundabout ways. -/
def roundaboutExcludes : List String := ["./sub/../foo", "/srv//old/."]

/-- What is below an excluded directory is left out, and a sibling of it is not. -/
theorem covers_iff_ancestor_roundabout :
    FilePath.components ⟨"//srv/./pkg/"⟩ = .root :: ["srv", "pkg"].map Component.name
    ∧ (∀ raw ∈ roundaboutExcludes, barren.pathExists (FilePath.join ⟨"//srv/./pkg/"⟩ raw) = false)
    ∧ (∀ raw ∈ roundaboutExcludes,
        (Location.follow ["srv", "pkg"] (FilePath.components ⟨raw⟩)).isSome)
    ∧ (ofPaths barren ⟨"//srv/./pkg/"⟩ roundaboutExcludes).covers ⟨"/srv/pkg/foo/bar/"⟩ = true
    ∧ (ofPaths barren ⟨"//srv/./pkg/"⟩ ["./sub/../foo"]).covers ⟨"/srv/pkg/foobar"⟩ = false := by
  have hroot : FilePath.components ⟨"//srv/./pkg/"⟩ = .root :: ["srv", "pkg"].map Component.name := by
    decide +kernel
  have hmissing : ∀ raw ∈ roundaboutExcludes,
      barren.pathExists (FilePath.join ⟨"//srv/./pkg/"⟩ raw) = false := by decide +kernel
  have hbelow : ∀ raw ∈ roundaboutExcludes,
      (Location.follow ["srv", "pkg"] (FilePath.components ⟨raw⟩)).isSome := by decide +kernel
  obtain ⟨-, hdeeper, hsibling⟩ := covers_iff_ancestor hroot hmissing hbelow
  have hcovers := (covers_iff_ancestor hroot hmissing hbelow).1 ["srv", "pkg", "foo"]
    ⟨"/srv/pkg/foo"⟩ ⟨by decide, .inl rfl⟩
  refine ⟨hroot, hmissing, hbelow, hdeeper ["srv", "pkg", "foo"] ["bar"] ⟨"/srv/pkg/foo"⟩ _
    ⟨by decide, .inl rfl⟩ ⟨by decide, .inr rfl⟩ (hcovers.mpr ⟨"./sub/../foo", by decide,
      ["srv", "pkg", "foo"], by decide +kernel, List.prefix_rfl⟩), ?_⟩
  exact hsibling "./sub/../foo" (by decide) ["srv", "pkg"] "foo" "foobar" _ (by decide +kernel)
    (by decide) ⟨by decide, .inl rfl⟩

end Exclusions

end ApiStubs
