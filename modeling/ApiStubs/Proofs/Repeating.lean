import ApiStubs.Proofs.Printing
import ApiStubs.Proofs.Rescanning

/-!
# Proofs — Repeating — steps of a run that are taken again

A second run meets a tree between two others: it has the shape of the tree that the first run left
in the end, and what it holds at each place stands either there, or in the tree that the first run
had come to by the same step (`Disk.Mirrors`).

A step of the work is repeatable (`Work.Repeatable`) if it comes to the same in such a tree, and
keeps the two runs side by side.  This is closed under composition; loading a module, making the
destination and writing a page are all repeatable, except that a destination with `..` can fail for
another reason the second time (`Astray`).
-/

namespace ApiStubs

open Python (Loader)

namespace Disk

/-! ### Trees on the way of a second run -/

/-- The tree has the shape of the last one, and holds at each place what stands there, or what
another tree holds there. -/
structure Mirrors (last held other : Disk) : Prop where
  sameShape : SameShape last other
  either : ∀ here, other.entryAt here = last.entryAt here ∨ other.entryAt here = held.entryAt here

namespace Mirrors

variable {last held made other : Disk}

theorem refl (last held : Disk) : Mirrors last held last := ⟨.refl last, fun _ => .inl rfl⟩

theorem entryAt (h : Mirrors last last other) (here : Location) :
    other.entryAt here = last.entryAt here := (h.either here).elim id id

/-- Directories that are made on the way are in the last tree already. -/
theorem widens (h : Mirrors last held other) (hwide : Widens held made) :
    Mirrors last made other := by
  refine ⟨h.sameShape, fun here => ?_⟩
  rcases h.either here with hlast | hheld
  · exact .inl hlast
  cases hentry : held.entryAt here with
  | some entry => exact .inr (hheld.trans (hentry.trans (hwide.kept here entry hentry).symm))
  | none =>
    -- where nothing stands in the one nothing stands in the other
    rw [hentry] at hheld
    have hshape := h.sameShape.shapes here
    rw [shapeAt_eq_none.mpr hheld] at hshape
    exact .inl (hheld.trans (shapeAt_eq_none.mp hshape.symm).symm)

/-- What is written on the way is written again. -/
theorem set (h : Mirrors last held other) {here : Location} (hhere : here ≠ []) {entry : Entry}
    (hshape : SameShape other (other.set here entry)) :
    Mirrors last (held.set here entry) (other.set here entry) := by
  refine ⟨h.sameShape.trans hshape, fun there => ?_⟩
  rw [entryAt_set other hhere, entryAt_set held hhere]
  by_cases hsame : there = here
  · rw [if_pos hsame, if_pos hsame]
    exact .inr rfl
  · rw [if_neg hsame, if_neg hsame]
    exact h.either there

end Mirrors

end Disk

/-! ### Steps that can be taken again -/

/-- The sources are those of the first tree, and modules are looked for in the same place. -/
structure Workspace.Ready (disk : Disk) (root : FilePath) (space : Workspace Loader) : Prop where
  sourced : Disk.Sourced disk space.disk
  searchRoot : space.importer.searchRoot = root

/-- A destination is not made, for another reason the second time: its path goes up from a directory
that was missing, and comes to a file then. -/
structure Astray {α : Type} (destination : FilePath) (disk : Disk) (first again : Except Fault α) :
    Prop where
  up : ".." ∈ destination.pieces
  unmade : disk.attemptDirectories destination ≠ (none, disk)
  failed : first = .error (.disk .exists)
  strays : again = .error (.disk .notDirectory)

namespace Work

open Workspace (Ready)

variable {α β : Type} {disk : Disk} {root destination : FilePath}

/-- The step comes to the same when it is taken again on the way to the tree that was left in the
end, and leaves what it left there. -/
structure Repeatable (disk : Disk) (root destination : FilePath) (work : Work Loader α) :
    Prop where
  grown : ∀ {space after result}, work space = (result, after) →
    Disk.Grown space.disk after.disk
  ready : ∀ {space after result}, Ready disk root space → work space = (result, after) →
    Ready disk root after
  again : ∀ {space after result last other}, Ready disk root space →
    work space = (result, after) → Disk.Grown after.disk last →
    (∀ fault, result = .error fault → last = after.disk) →
    Disk.Sourced disk other → Disk.Mirrors last space.disk other →
    ∃ otherResult final, work ⟨other, space.importer⟩ = (otherResult, ⟨final, after.importer⟩)
      ∧ Disk.Sourced disk final ∧ Disk.Mirrors last after.disk final
      ∧ (otherResult = result ∨ Astray destination space.disk result otherResult)

namespace Repeatable

theorem pure (a : α) : Repeatable disk root destination (Pure.pure a : Work Loader α) where
  grown hrun := by
    cases hrun
    exact .refl _
  ready hready hrun := by
    cases hrun
    exact hready
  again hready hrun hgrown hends hother hmirrors := by
    cases hrun
    exact ⟨_, _, rfl, hother, hmirrors, .inl rfl⟩

theorem throw (fault : Fault) :
    Repeatable disk root destination (MonadExcept.throw fault : Work Loader α) where
  grown hrun := by
    cases hrun
    exact .refl _
  ready hready hrun := by
    cases hrun
    exact hready
  again hready hrun hgrown hends hother hmirrors := by
    cases hrun
    exact ⟨_, _, rfl, hother, hmirrors, .inl rfl⟩

/-- Work behind work can be repeated where both can. -/
theorem bind {x : Work Loader α} {f : α → Work Loader β} (hx : Repeatable disk root destination x)
    (hf : ∀ a, Repeatable disk root destination (f a)) :
    Repeatable disk root destination (x >>= f) where
  grown hrun := by
    rcases bind_cases hrun with ⟨fault, hfails, -⟩ | ⟨a, between, hgoes, hrest⟩
    · exact hx.grown hfails
    · exact (hx.grown hgoes).trans ((hf a).grown hrest)
  ready hready hrun := by
    rcases bind_cases hrun with ⟨fault, hfails, -⟩ | ⟨a, between, hgoes, hrest⟩
    · exact hx.ready hready hfails
    · exact (hf a).ready (hx.ready hready hgoes) hrest
  again {space after result last other} hready hrun hgrown hends hother hmirrors := by
    rcases bind_cases hrun with ⟨fault, hfails, rfl⟩ | ⟨a, between, hgoes, hrest⟩
    · obtain ⟨otherResult, final, hagain, hsourced, hleft, hsame⟩ :=
        hx.again hready hfails hgrown (fun _ _ => hends fault rfl) hother hmirrors
      rcases hsame with rfl | hastray
      · exact ⟨_, final, run_bind_error hagain f, hsourced, hleft, .inl rfl⟩
      · obtain ⟨hup, hunmade, hfailed, rfl⟩ := hastray
        cases hfailed
        exact ⟨_, final, run_bind_error hagain f, hsourced, hleft, .inr ⟨hup, hunmade, rfl, rfl⟩⟩
    · have hbetween := hx.grown hgoes
      obtain ⟨otherResult, next, hagain, hsourced, hleft, hsame⟩ :=
        hx.again hready hgoes (((hf a).grown hrest).trans hgrown) nofun hother hmirrors
      obtain rfl : otherResult = .ok a := hsame.resolve_right fun hastray => nomatch hastray.failed
      obtain ⟨finalResult, final, hfinal, hfinalSourced, hfinalLeft, hfinalSame⟩ :=
        (hf a).again (hx.ready hready hgoes) hrest hgrown hends hsourced hleft
      refine ⟨finalResult, final, (run_bind_ok hagain f).trans hfinal, hfinalSourced, hfinalLeft,
        hfinalSame.imp_right fun hastray => ⟨hastray.up, fun hmade => ?_, hastray.failed,
          hastray.strays⟩⟩
      -- what had been made is there still
      exact hastray.unmade (Disk.attemptDirectories_again
        (hx.ready hready hgoes).sourced.linkless hmade hbetween)

theorem mapM {f : α → Work Loader β} (hf : ∀ a, Repeatable disk root destination (f a))
    (list : List α) : Repeatable disk root destination (list.mapM f) := by
  induction list with
  | nil => exact .pure _
  | cons a rest ih =>
    rw [List.mapM_cons]
    exact (hf a).bind fun _ => ih.bind fun _ => .pure _

/-- Modules are loaded from sources, which are the same all along. -/
theorem load_eq (hdisk : disk.WellFormed) (hroot : ".." ∉ root.pieces) {space : Workspace Loader}
    (hready : Ready disk root space) (name : String) :
    Importer.load space.disk name space.importer = Importer.load disk name space.importer :=
  hready.sourced.load_eq hdisk (hready.searchRoot ▸ hroot) name

/-- Asking for a module has the same answer all along. -/
theorem ask (hdisk : disk.WellFormed) (hroot : ".." ∉ root.pieces) (name : String)
    (answer : Except ImportFailure SymbolTable → Except Fault α) :
    Repeatable disk root destination fun space : Workspace Loader =>
      (answer (Importer.load space.disk name space.importer).1,
        { space with importer := (Importer.load space.disk name space.importer).2 }) where
  grown hrun := by
    cases hrun
    exact .refl _
  ready hready hrun := by
    cases hrun
    exact ⟨hready.sourced, hready.searchRoot⟩
  again {space _ _ _ other} hready hrun _ _ hother hmirrors := by
    have hnext : Ready disk root ⟨other, space.importer⟩ := ⟨hother, hready.searchRoot⟩
    have hsame : Importer.load other name space.importer
        = Importer.load space.disk name space.importer :=
      (load_eq hdisk hroot hnext name).trans (load_eq hdisk hroot hready name).symm
    cases hrun
    exact ⟨_, _, by simp only [hsame], hother, hmirrors, .inl rfl⟩

theorem load (hdisk : disk.WellFormed) (hroot : ".." ∉ root.pieces) (name : String) :
    Repeatable disk root destination (Work.load name : Work Loader SymbolTable) :=
  ask hdisk hroot name fun result => result.mapError Fault.notImported

theorem load? (hdisk : disk.WellFormed) (hroot : ".." ∉ root.pieces) (name : String) :
    Repeatable disk root destination (Work.load? name : Work Loader (Option SymbolTable)) :=
  ask hdisk hroot name fun result => .ok result.toOption

/-- **Making the destination** a second time changes nothing. -/
theorem attempt : Repeatable disk root destination
    (Work.attempt (fun disk => disk.attemptDirectories destination) : Work Loader Unit) where
  grown {space after result} hrun := by
    have hwide := space.disk.attemptDirectories_widens destination
    rw [Work.attempt] at hrun
    split at hrun
    all_goals
      rename_i hmade
      cases hrun
      rw [hmade] at hwide
      exact .of_widens hwide
  ready {space after result} hready hrun := by
    have hsourced := hready.sourced.attemptDirectories destination
    rw [Work.attempt] at hrun
    split at hrun
    all_goals
      rename_i hmade
      cases hrun
      rw [hmade] at hsourced
      exact ⟨hsourced, hready.searchRoot⟩
  again {space after result last other} hready hrun hgrown hends hother hmirrors := by
    have hwide := space.disk.attemptDirectories_widens destination
    rw [Work.attempt] at hrun ⊢
    split at hrun
    · rename_i made hmade
      cases hrun
      rw [hmade] at hwide
      -- The directories are there by now, so the second attempt makes none.
      have hagain := Disk.attemptDirectories_again hother.linkless hmade
        (hgrown.trans hmirrors.sameShape.grown)
      exact ⟨_, other, by rw [hagain], hother, hmirrors.widens hwide, .inl rfl⟩
    · rename_i cause begun hfails
      cases hrun
      obtain rfl := hends _ rfl
      rw [hfails] at hwide
      rcases Disk.attemptDirectories_fails_again hready.sourced.wellFormed hready.sourced.linkless
        hother.wellFormed hfails hmirrors.sameShape with hagain | ⟨hup, rfl, hagain⟩
      · exact ⟨_, other, by rw [hagain], hother, hmirrors.widens hwide, .inl rfl⟩
      · refine ⟨_, other, by rw [hagain], hother, hmirrors.widens hwide,
          .inr ⟨hup, fun hmade => ?_, rfl, rfl⟩⟩
        rw [hmade] at hfails
        cases hfails

/-- **Writing a page** a second time writes it to the same place. -/
theorem change {path : FilePath} {text : String}
    (hpath : ∀ name, path.pieces.getLast? = some name → ¬ Python.IsSource name) :
    Repeatable disk root destination
      (Work.change (fun disk => disk.writeText path text) : Work Loader Unit) where
  grown hrun := by
    rw [Work.change] at hrun
    split at hrun
    · rename_i hwrite
      cases hrun
      exact .of_writeText hwrite
    · cases hrun
      exact .refl _
  ready hready hrun := by
    rw [Work.change] at hrun
    split at hrun
    · rename_i hwrite
      cases hrun
      exact ⟨hready.sourced.writeText hpath hwrite, hready.searchRoot⟩
    · cases hrun
      exact hready
  again {space after result last other} hready hrun hgrown hends hother hmirrors := by
    rw [Work.change] at hrun ⊢
    split at hrun
    · rename_i written hwrite
      cases hrun
      obtain ⟨here, hhere, rfl, hagain, hshape⟩ :=
        Disk.Grown.writeText_again hwrite (hgrown.trans hmirrors.sameShape.grown) text
      exact ⟨_, _, by rw [hagain], hother.writeText hpath hagain, hmirrors.set hhere hshape,
        .inl rfl⟩
    · rename_i cause hfails
      cases hrun
      obtain rfl := hends _ rfl
      have hagain := hmirrors.sameShape.writeText_error hfails
      exact ⟨_, other, by rw [hagain], hother, hmirrors, .inl rfl⟩

end Repeatable

end Work

end ApiStubs
