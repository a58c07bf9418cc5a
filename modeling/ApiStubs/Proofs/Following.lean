import ApiStubs.Proofs.Places

/-!
# Proofs — Following — where the steps of a path lead

`Location.follow` reads the steps of a written path one after the other: a name leads down and a
`..` back up.  It asks no disk, and so tells where a path leads if no link stands on the way.  The
normal form of a path is written for the place it leads to, as long as no step leads up from the
root: `Location.normalize_of_follow`.
-/

namespace ApiStubs

open FilePath (IsFileName Component)

namespace Location

/-! ### Following the steps of a path -/

/-- Where the steps of a path lead from a location: a name leads down, and a `..` back up.  No `..`
leads up from the root. -/
def follow : Location → List Component → Option Location
  | here, [] => some here
  | _, .root :: rest => follow [] rest
  | here, .here :: rest => follow here rest
  | here, .up :: rest => if here = [] then none else follow here.dropLast rest
  | here, .name name :: rest => follow (here ++ [name]) rest

/-- Steps behind each other are followed one after the other. -/
theorem follow_append (here : Location) (first second : List Component) :
    here.follow (first ++ second) = (here.follow first).bind fun there => there.follow second := by
  induction first generalizing here with
  | nil => rfl
  | cons step rest ih =>
    cases step with
    | root => exact ih []
    | here => exact ih here
    | up =>
      rw [List.cons_append, follow, follow]
      split
      · rfl
      · exact ih here.dropLast
    | name name => exact ih (here ++ [name])

theorem follow_names (here names : Location) :
    here.follow (names.map Component.name) = some (here ++ names) := by
  induction names generalizing here with
  | nil => rw [List.append_nil]; rfl
  | cons name rest ih => rw [List.map_cons, follow, ih, List.append_assoc]; rfl

/-- A `.` in front is no step. -/
theorem follow_components {raw : String} (hraw : Text.startsWith raw "/" = false)
    (here : Location) : here.follow (FilePath.components ⟨raw⟩)
      = here.follow ((Text.pieces '/' raw).filterMap Component.ofPiece?) := by
  have hrelative : FilePath.isAbsolute ⟨raw⟩ = false := hraw
  rw [FilePath.components, hrelative, if_neg Bool.false_ne_true]
  split
  · rename_i rest hpieces
    rw [show Text.pieces '/' raw = "." :: rest from hpieces]
    rfl
  · rfl

/-- Steps by names of files lead from a proper location to proper ones. -/
theorem Proper.follow {here there : Location} {steps : List Component} (h : here.Proper)
    (hsteps : ∀ name, .name name ∈ steps → IsFileName name)
    (hfollow : here.follow steps = some there) : there.Proper := by
  induction steps generalizing here with
  | nil => exact Option.some.inj hfollow ▸ h
  | cons step rest ih =>
    have hrest := fun name hname => hsteps name (List.mem_cons_of_mem step hname)
    cases step with
    | root => exact ih (fun _ hname => absurd hname List.not_mem_nil) hrest hfollow
    | here => exact ih h hrest hfollow
    | up =>
      rw [Location.follow] at hfollow
      split at hfollow
      · cases hfollow
      · exact ih (fun name hname => h name (List.mem_of_mem_dropLast hname)) hrest hfollow
    | name name =>
      exact ih (h.append (.singleton (hsteps name List.mem_cons_self))) hrest hfollow

/-! ### The normal form of a path -/

/-- The names followed so far are what remains of the steps, the last one on top. -/
theorem foldl_take_follow {here there : Location} {steps : List Component}
    (hroot : .root ∉ steps) (h : here.follow steps = some there) :
    steps.foldl FilePath.Remaining.take ((here.map Component.name).reverse ++ [.root])
      = (there.map Component.name).reverse ++ [.root] := by
  induction steps generalizing here with
  | nil => rw [Option.some.inj h]; rfl
  | cons step rest ih =>
    rw [List.mem_cons, not_or] at hroot
    obtain ⟨hstep, hrest⟩ := hroot
    cases step with
    | root => exact absurd rfl hstep
    | here => exact ih hrest h
    | up =>
      rw [follow] at h
      split at h
      · cases h
      -- the name before it is on top, and not the root
      rename_i hne
      obtain ⟨above, last, rfl⟩ := (List.eq_nil_or_concat' here).resolve_left hne
      rw [List.dropLast_concat] at h
      simpa [FilePath.Remaining.take] using ih hrest h
    | name name =>
      simpa [FilePath.Remaining.take] using ih hrest h

/-- **The normal form of a path** is where its steps lead, if none leads up from the root. -/
theorem normalize_of_follow {path : FilePath} {steps : List Component} {there : Location}
    (hpath : path.components = .root :: steps) (hroot : .root ∉ steps)
    (h : follow [] steps = some there) : path.normalize = there.path := by
  have hsteps := foldl_take_follow hroot h
  have htexts : (there.map Component.name).map Component.text = there := by
    simp [Function.comp_def, Component.text]
  rw [List.map_nil, List.reverse_nil, List.nil_append] at hsteps
  rw [FilePath.normalize, hpath, List.foldl_cons]
  show FilePath.ofComponents (List.foldl FilePath.Remaining.take [.root] steps).reverse = _
  rw [hsteps, List.reverse_append, List.reverse_reverse]
  simp only [List.reverse_singleton, List.singleton_append, FilePath.ofComponents, htexts]
  rfl

/-- A path without `.` and `..` is normal, separators written twice apart. -/
theorem normalize_of_components {path : FilePath} {here : Location}
    (h : path.components = .root :: here.map Component.name) : path.normalize = here.path :=
  normalize_of_follow h (by simp) (follow_names [] here)

end Location

end ApiStubs
