import ApiStubs.Proofs.Ancestry
import Mathlib.Logic.Relation

/-!
# Proofs — Normalizing — the normal form of a path

Taking the steps of a path leaves names behind at most one `..`, and that only where there was
nothing to go back over: `FilePath.exists_remaining`.  The normal form is these steps as a text,
and its own steps are again these (`FilePath.components_normalize`), so that taking them once more
changes nothing, with or without other steps behind.

The usual rules of a lexical resolution are read as a relation, `FilePath.Shortens`, that drops a
`.`, a name with the `..` behind it, or a `..` behind the root.  Where no front part of a path has
more `..` than names, whatever these rules come to is the normal form: `FilePath.normalize_lexical`.
-/

namespace ApiStubs

open FilePath (IsFileName)

namespace Text

/-- A separator in front is behind an empty piece. -/
theorem pieces_separator (s : String) : pieces '/' ("/" ++ s) = "" :: pieces '/' s := by
  have hcut : cut '/' ('/' :: s.toList) = [] :: cut '/' s.toList := cut_append List.not_mem_nil _
  have hletters : ("/" ++ s).toList = '/' :: s.toList := String.toList_append
  rw [pieces, hletters, hcut]
  rfl

theorem startsWith_eq_false_of_pieces {s first : String} {rest : List String}
    (h : pieces '/' s = first :: rest) (hfirst : first ≠ "") : startsWith s "/" = false := by
  rw [FilePath.startsWith_separator, beq_eq_false_iff_ne]
  intro hhead
  obtain ⟨letters, hletters⟩ := List.head?_eq_some_iff.mp hhead
  have hs : s = "/" ++ String.ofList letters :=
    String.toList_inj.mp (by simp [hletters])
  rw [hs, pieces_separator] at h
  exact hfirst (List.head_eq_of_cons_eq h).symm

end Text

namespace FilePath

/-! ### The steps of a path -/

/-- What stands in front of the steps between separators. -/
def ground (path : FilePath) : List Component := if path.isAbsolute then [.root] else []

/-- The steps between separators. -/
def steps (path : FilePath) : List Component := path.pieces.filterMap Component.ofPiece?

/-- What remains when all steps of a path are taken, the last one first. -/
def remaining (path : FilePath) : Remaining := path.components.foldl Remaining.take []

theorem components_of_head {path : FilePath} (h : path.pieces.head? ≠ some ".") :
    path.components = path.ground ++ path.steps := by
  rw [components, ground, steps]
  split
  · rfl
  · split
    · rename_i rest hpieces
      rw [hpieces] at h
      exact absurd rfl h
    · rfl

/-- A `.` in front is a step, but leaves nothing. -/
theorem remaining_eq (path : FilePath) :
    path.remaining = path.steps.foldl Remaining.take path.ground := by
  rw [remaining, components, ground, steps]
  split
  · rfl
  · split
    · rename_i rest hpieces
      rw [hpieces]
      rfl
    · rfl

/-- A relative path behind another one is more steps. -/
theorem remaining_join (base : FilePath) {other : String}
    (h : Text.startsWith other "/" = false) : (base.join other).remaining
      = ((Text.pieces '/' other).filterMap Component.ofPiece?).foldl Remaining.take
        base.remaining := by
  have hempty : Component.ofPiece? "" = none := rfl
  have hsteps : (base.join other).steps
      = base.steps ++ (Text.pieces '/' other).filterMap Component.ofPiece? := by
    rw [steps, steps, pieces_join_relative h]
    rcases base.pieces_eq_front with hpieces | hpieces <;> simp [hpieces, hempty]
  rw [remaining_eq, remaining_eq, hsteps, List.foldl_append, ground, ground,
    isAbsolute_join_relative h]

/-! ### What remains of steps -/

/-- So many `..`, and then names. -/
def climb (ups : Nat) (names : Location) : List Component :=
  List.replicate ups .up ++ names.map .name

/-- Only a `.` or a `..` does not stay on top of what remains. -/
theorem foldl_take_of_notMem {each : List Component} (hhere : .here ∉ each) (hup : .up ∉ each)
    (before : Remaining) : each.foldl Remaining.take before = each.reverse ++ before := by
  induction each generalizing before with
  | nil => rfl
  | cons step rest ih =>
    rw [List.mem_cons, not_or] at hhere hup
    have htake : Remaining.take before step = step :: before := by
      cases step with
      | here => exact absurd rfl hhere.1
      | up => exact absurd rfl hup.1
      | root => rfl
      | name name => rfl
    rw [List.foldl_cons, htake, ih hhere.2 hup.2, List.reverse_cons, List.append_assoc]
    rfl

/-- Steps in which a single `..` comes first remain all of them. -/
theorem foldl_take_climb {ground : Remaining} (hground : ground = [] ∨ ground = [.root])
    {ups : Nat} (hups : ups ≤ 1) (names : Location) :
    (climb ups names).foldl Remaining.take ground = (climb ups names).reverse ++ ground := by
  have hclimbed : (List.replicate ups Component.up).foldl Remaining.take ground
      = List.replicate ups .up ++ ground := by
    obtain rfl | rfl := Nat.le_one_iff_eq_zero_or_eq_one.mp hups
    · rfl
    · rcases hground with rfl | rfl <;> rfl
  rw [climb, List.foldl_append, hclimbed, foldl_take_of_notMem (by simp) (by simp),
    List.reverse_append, List.reverse_replicate, List.append_assoc]

/-- **What one more step leaves**: a `..` goes back over the last name, or over a `..` that was
left; only where nothing but the ground is left it stays. -/
theorem exists_take {ground : Remaining} (hground : ground = [] ∨ ground = [.root]) {ups : Nat}
    (hups : ups ≤ 1) (names : Location) {step : Component} (hstep : step ≠ .root) :
    ∃ more fewer, more ≤ 1 ∧ (∀ name ∈ fewer, name ∈ names ∨ step = .name name)
      ∧ Remaining.take ((climb ups names).reverse ++ ground) step
        = (climb more fewer).reverse ++ ground := by
  cases step with
  | root => exact absurd rfl hstep
  | here => exact ⟨ups, names, hups, fun _ => .inl, rfl⟩
  | name name =>
    refine ⟨ups, names ++ [name], hups, fun other hother => ?_, ?_⟩
    · rcases List.mem_append.mp hother with hold | hnew
      · exact .inl hold
      · exact .inr (by rw [List.mem_singleton.mp hnew])
    · simp [climb, Remaining.take]
  | up =>
    rcases List.eq_nil_or_concat' names with rfl | ⟨above, last, rfl⟩
    · obtain rfl | rfl := Nat.le_one_iff_eq_zero_or_eq_one.mp hups
      · refine ⟨1, [], Nat.le_refl 1, by simp, ?_⟩
        rcases hground with rfl | rfl <;> rfl
      · exact ⟨0, [], Nat.zero_le 1, by simp, rfl⟩
    · refine ⟨ups, above, hups, fun name hname => .inl (List.mem_append_left _ hname), ?_⟩
      simp [climb, Remaining.take]

/-- **What remains of steps** is names, at most one `..` in front of them, and the ground. -/
theorem exists_remaining {ground : Remaining} (hground : ground = [] ∨ ground = [.root])
    {each : List Component} (hroot : .root ∉ each) :
    ∃ ups names, ups ≤ 1 ∧ (∀ name ∈ names, .name name ∈ each)
      ∧ each.foldl Remaining.take ground = (climb ups names).reverse ++ ground := by
  induction each using List.reverseRecOn with
  | nil => exact ⟨0, [], Nat.zero_le 1, by simp, rfl⟩
  | append_singleton front step ih =>
    rw [List.mem_append, not_or, List.mem_singleton] at hroot
    obtain ⟨ups, names, hups, hnames, hfront⟩ := ih hroot.1
    obtain ⟨more, fewer, hmore, hfewer, htake⟩ :=
      exists_take hground hups names (Ne.symm hroot.2)
    refine ⟨more, fewer, hmore, fun name hname => ?_, ?_⟩
    · rw [List.mem_append, List.mem_singleton]
      exact (hfewer name hname).imp (hnames name) Eq.symm
    · rw [List.foldl_append, hfront]
      exact htake

/-! ### Steps as a text -/

theorem ground_cases (path : FilePath) : path.ground = [] ∨ path.ground = [.root] := by
  rw [ground]
  split
  · exact .inr rfl
  · exact .inl rfl

theorem root_notMem_climb (ups : Nat) (names : Location) : .root ∉ climb ups names := by
  simp [climb]

/-- What `..` and names are written as. -/
theorem mem_climb_texts {ups : Nat} {names : Location} (hnames : names.Proper) {text : String}
    (htext : text ∈ (climb ups names).map Component.text) :
    '/' ∉ text.toList ∧ isFiller text = false := by
  obtain ⟨step, hstep, rfl⟩ := List.mem_map.mp htext
  rcases List.mem_append.mp hstep with hup | hname
  · rw [List.eq_of_mem_replicate hup]
    decide
  · obtain ⟨name, hlisted, rfl⟩ := List.mem_map.mp hname
    exact ⟨(hnames name hlisted).no_separator, (hnames name hlisted).no_filler⟩

theorem filterMap_climb_texts {names : Location} (hnames : names.Proper) (ups : Nat) :
    ((climb ups names).map Component.text).filterMap Component.ofPiece? = climb ups names := by
  rw [List.filterMap_map]
  refine (List.filterMap_congr fun step hstep => ?_).trans List.filterMap_some
  rcases List.mem_append.mp hstep with hup | hname
  · rw [List.eq_of_mem_replicate hup]
    rfl
  · obtain ⟨name, hlisted, rfl⟩ := List.mem_map.mp hname
    exact (hnames name hlisted).ofPiece?

/-- The text that joins `..` and names is relative and is read as these, with no `.` in front. -/
theorem pieces_climb {names : Location} (hnames : names.Proper) (ups : Nat) {text : String}
    (htext : text = Text.join '/' ((climb ups names).map Component.text)) :
    Text.startsWith text "/" = false ∧ (Text.pieces '/' text).head? ≠ some "."
      ∧ (Text.pieces '/' text).filterMap Component.ofPiece? = climb ups names := by
  subst htext
  have hback := filterMap_climb_texts hnames ups
  have htexts := @mem_climb_texts ups names hnames
  cases hall : (climb ups names).map Component.text with
  | nil =>
    rw [List.map_eq_nil_iff.mp hall]
    decide
  | cons first rest =>
    rw [hall] at hback htexts
    have hpieces := Text.pieces_join (List.cons_ne_nil first rest) fun text htext =>
      (htexts htext).1
    have hfirst := (htexts List.mem_cons_self).2
    rw [hpieces]
    refine ⟨Text.startsWith_eq_false_of_pieces hpieces ?_, ?_, hback⟩
    · rintro rfl
      cases hfirst
    · rintro heq
      cases heq
      cases hfirst

/-- What is left of a path is read back from its text. -/
theorem read_ofComponents {ground : List Component} (hground : ground = [] ∨ ground = [.root])
    {names : Location} (hnames : names.Proper) (ups : Nat) :
    (ofComponents (ground ++ climb ups names)).ground = ground
      ∧ (ofComponents (ground ++ climb ups names)).components = ground ++ climb ups names := by
  have hjoin := @pieces_climb names hnames ups
  rcases hground with rfl | rfl
  · have htext : (ofComponents (climb ups names)).text
        = Text.join '/' ((climb ups names).map Component.text) := by
      rw [ofComponents.eq_def]
      split
      · rename_i rest hrest
        exact absurd (hrest ▸ List.mem_cons_self) (root_notMem_climb ups names)
      · rfl
    obtain ⟨hrelative, hhead, hback⟩ := hjoin htext
    have hown : (ofComponents (climb ups names)).ground = [] := by
      rw [FilePath.ground, isAbsolute, hrelative, if_neg Bool.false_ne_true]
    refine ⟨hown, ?_⟩
    rw [List.nil_append, components_of_head hhead, hown, steps, FilePath.pieces, hback]
    rfl
  · obtain ⟨-, -, hback⟩ := hjoin rfl
    have hpieces : (ofComponents (.root :: climb ups names)).pieces
        = "" :: Text.pieces '/' (Text.join '/' ((climb ups names).map Component.text)) :=
      Text.pieces_separator _
    have habsolute : (ofComponents (.root :: climb ups names)).isAbsolute = true :=
      Location.isAbsolute_path _
    have hown : (ofComponents (.root :: climb ups names)).ground = [.root] := by
      rw [FilePath.ground, habsolute, if_pos rfl]
    refine ⟨hown, ?_⟩
    rw [List.singleton_append, components_of_head (by simp [hpieces]), hown, steps, hpieces,
      List.filterMap_cons_none rfl, hback]
    rfl

/-! ### The normal form -/

/-- **What remains of a path** is names below at most one `..`, which the text of the normal form
is read as again. -/
theorem exists_normalize (path : FilePath) : ∃ ups names, ups ≤ 1
    ∧ path.remaining = (climb ups names).reverse ++ path.ground
    ∧ path.normalize.ground = path.ground
    ∧ path.normalize.components = path.ground ++ climb ups names := by
  obtain ⟨ups, names, hups, hnames, hremaining⟩ :=
    exists_remaining path.ground_cases (root_notMem_steps path.pieces)
  have hproper : Location.Proper names := by
    intro name hname
    obtain ⟨piece, hpiece, hstep⟩ := List.mem_filterMap.mp (hnames name hname)
    exact isFileName_of_ofPiece? hpiece hstep
  have hground : path.ground.reverse = path.ground := by
    rcases path.ground_cases with h | h <;> rw [h] <;> rfl
  have hwritten : path.normalize = ofComponents (path.ground ++ climb ups names) := by
    have hall := path.remaining_eq.trans hremaining
    rw [remaining] at hall
    rw [normalize, hall, List.reverse_append, List.reverse_reverse, hground]
  obtain ⟨hown, hcomponents⟩ := read_ofComponents path.ground_cases hproper ups
  rw [← hwritten] at hown hcomponents
  exact ⟨ups, names, hups, path.remaining_eq.trans hremaining, hown, hcomponents⟩

/-- The steps of the normal form are what remains of the path. -/
theorem components_normalize (path : FilePath) :
    path.normalize.components = path.remaining.reverse := by
  obtain ⟨ups, names, -, hremaining, -, hcomponents⟩ := path.exists_normalize
  rw [hcomponents, hremaining, List.reverse_append, List.reverse_reverse]
  rcases path.ground_cases with h | h <;> rw [h] <;> rfl

theorem normalize_eq (path : FilePath) : path.normalize = ofComponents path.remaining.reverse := rfl

/-- Nothing is left out when the steps of a normal form are taken. -/
theorem remaining_normalize (path : FilePath) : path.normalize.remaining = path.remaining := by
  obtain ⟨ups, names, hups, hremaining, -, hcomponents⟩ := path.exists_normalize
  have hground : path.ground.foldl Remaining.take [] = path.ground := by
    rcases path.ground_cases with h | h <;> rw [h] <;> rfl
  rw [remaining, hcomponents, List.foldl_append, hground,
    foldl_take_climb path.ground_cases hups, hremaining]

theorem normalize_join (path : FilePath) {other : String}
    (h : Text.startsWith other "/" = false) :
    (path.join other).normalize = (path.normalize.join other).normalize := by
  rw [normalize_eq, normalize_eq, remaining_join path h, remaining_join path.normalize h,
    remaining_normalize]

/-! ### Lexical resolution -/

/-- A step that leads down to a name. -/
def Component.isName : Component → Bool
  | .name _ => true
  | _ => false

/-- No front part of the steps has more `..` than names. -/
def Sheltered (each : List Component) : Prop :=
  ∀ front, front <+: each → front.count .up ≤ front.countP Component.isName

instance (each : List Component) : Decidable (Sheltered each) :=
  decidable_of_iff (∀ front ∈ each.inits, front.count .up ≤ front.countP Component.isName)
    (by simp [Sheltered])

/-- One rule of the lexical resolution: a `.` is dropped, a name is dropped with the `..` behind
it, and a `..` behind the root is dropped. -/
inductive Shortens : List Component → List Component → Prop
  | here (before after : List Component) : Shortens (before ++ .here :: after) (before ++ after)
  | back (before after : List Component) (name : String) :
      Shortens (before ++ .name name :: .up :: after) (before ++ after)
  | top (after : List Component) : Shortens (.root :: .up :: after) (.root :: after)

/-- Dropping steps as long as there is a rule for it comes to the result. -/
def Resolves (each result : List Component) : Prop :=
  Relation.ReflTransGen Shortens each result ∧ ∀ shorter, ¬ Shortens result shorter

theorem Shortens.length_lt {each shorter : List Component} (h : Shortens each shorter) :
    shorter.length < each.length := by
  cases h <;> simp

/-- A rule can be used only so often. -/
theorem exists_resolves (each : List Component) : ∃ result, Resolves each result := by
  induction hlength : each.length using Nat.strongRecOn generalizing each with
  | ind length ih =>
    subst hlength
    by_cases hnone : ∀ shorter, ¬ Shortens each shorter
    · exact ⟨each, .refl, hnone⟩
    · obtain ⟨shorter, hstep⟩ := Classical.not_forall_not.mp hnone
      obtain ⟨result, hsteps, hresult⟩ := ih _ hstep.length_lt shorter rfl
      exact ⟨result, .head hstep hsteps, hresult⟩

/-- Steps that the root can only stand in front of, and that never lead above where they start. -/
structure Tame (each : List Component) : Prop where
  rooted : .root ∉ each.tail
  sheltered : Sheltered each

theorem tame_components {path : FilePath} (h : Sheltered path.components) :
    Tame path.components := by
  refine ⟨?_, h⟩
  rw [components]
  split
  · exact root_notMem_steps path.pieces
  · split
    · exact root_notMem_steps _
    · exact fun hroot => root_notMem_steps path.pieces (List.mem_of_mem_tail hroot)

/-- What is dropped has been as many `..` as names. -/
theorem Sheltered.drop {before dropped after : List Component}
    (h : Sheltered (before ++ dropped ++ after))
    (hdropped : dropped.countP Component.isName ≤ dropped.count .up) :
    Sheltered (before ++ after) := by
  rintro front ⟨rest, hfront⟩
  rcases List.append_eq_append_iff.mp hfront with ⟨more, rfl, -⟩ | ⟨more, rfl, rfl⟩
  · exact h front ⟨more ++ dropped ++ after, by simp⟩
  · have hwhole := h (before ++ dropped ++ more) ⟨rest, by simp⟩
    simp only [List.count_append, List.countP_append] at hwhole ⊢
    omega

theorem root_notMem_tail {before dropped after : List Component} (hdropped : dropped ≠ [])
    (h : .root ∉ (before ++ dropped ++ after).tail) : .root ∉ (before ++ after).tail := by
  cases before with
  | nil =>
    rw [List.nil_append, List.tail_append_of_ne_nil hdropped, List.mem_append, not_or] at h
    exact fun hroot => h.2 (List.mem_of_mem_tail hroot)
  | cons first others =>
    simp only [List.cons_append, List.tail_cons, List.mem_append, not_or] at h ⊢
    exact ⟨h.1.1, h.2⟩

/-- **What a rule keeps**: where the steps never lead above their start, it changes nothing of what
remains when they are taken. -/
theorem Shortens.keeps {each shorter : List Component} (h : Shortens each shorter)
    (htame : Tame each) : Tame shorter
      ∧ ∀ ground, shorter.foldl Remaining.take ground = each.foldl Remaining.take ground := by
  cases h with
  | here before after =>
    rw [← List.singleton_append, ← List.append_assoc] at htame
    refine ⟨⟨root_notMem_tail (by simp) htame.rooted, htame.sheltered.drop (by decide)⟩, ?_⟩
    intro ground
    rw [List.foldl_append, List.foldl_append]
    rfl
  | back before after name =>
    have hboth : before ++ .name name :: .up :: after
        = before ++ [.name name, .up] ++ after := by simp
    rw [hboth] at htame ⊢
    refine ⟨⟨root_notMem_tail (by simp) htame.rooted, htame.sheltered.drop ?_⟩, fun ground => ?_⟩
    · exact Nat.le_refl 1
    rw [List.foldl_append, List.foldl_append, List.foldl_append]
    rfl
  | top after =>
    -- the steps would lead above the root
    exact absurd (htame.sheltered [.root, .up] ⟨after, rfl⟩) (by decide)

/-- Where no rule is left to use, every step stays. -/
theorem Tame.taken {each : List Component} (htame : Tame each)
    (hdone : ∀ shorter, ¬ Shortens each shorter) :
    each.foldl Remaining.take [] = each.reverse := by
  have hhere : .here ∉ each := by
    intro hmem
    obtain ⟨before, after, rfl⟩ := List.append_of_mem hmem
    exact hdone _ (.here before after)
  have hup : .up ∉ each := by
    intro hmem
    obtain ⟨before, after, rfl, hfirst⟩ := List.eq_append_cons_of_mem hmem
    rcases List.eq_nil_or_concat' before with rfl | ⟨above, last, rfl⟩
    · exact absurd (htame.sheltered [.up] ⟨after, rfl⟩) (by decide)
    -- what stands before the first `..` is a name, and both can be dropped
    cases last with
    | up => exact hfirst (by simp)
    | here => exact hhere (by simp)
    | name name => exact hdone _ (by simpa using Shortens.back above after name)
    | root =>
      cases above with
      | nil => exact hdone _ (.top after)
      | cons first others => exact htame.rooted (by simp)
  rw [foldl_take_of_notMem hhere hup, List.append_nil]

/-- **The lexical resolution** of steps that never lead above where they start is what remains of
them. -/
theorem Resolves.eq_remaining {path : FilePath} {result : List Component}
    (h : Resolves path.components result) (hsheltered : Sheltered path.components) :
    path.normalize.components = result := by
  obtain ⟨hsteps, hdone⟩ := h
  have hall : Tame result
      ∧ result.foldl Remaining.take [] = path.components.foldl Remaining.take [] := by
    clear hdone
    induction hsteps with
    | refl => exact ⟨tame_components hsheltered, rfl⟩
    | tail _ hstep ih =>
      obtain ⟨htame, hsame⟩ := hstep.keeps ih.1
      exact ⟨htame, (hsame []).trans ih.2⟩
  rw [components_normalize, remaining, ← hall.2, hall.1.taken hdone, List.reverse_reverse]

/-- **The normal form of a path** has no `.` and at most one `..`, which only the root can stand in
front of; it is absolute exactly if the path is, and is its own normal form, written for its steps;
a relative path behind it has the normal form of that path behind the first; and where no front
part of the path has more `..` than names, its steps are what the rules of a lexical resolution come
to, in whatever order they are used. -/
theorem normalize_lexical (path : FilePath) :
    (∃ (ups : Nat) (names : Location), ups ≤ 1 ∧ path.normalize.components
        = (if path.isAbsolute then [.root] else []) ++ List.replicate ups .up
          ++ names.map Component.name)
      ∧ path.normalize.isAbsolute = path.isAbsolute
      ∧ path.normalize.normalize = path.normalize
      ∧ path.normalize = ofComponents path.normalize.components
      ∧ (∀ other, Text.startsWith other "/" = false →
        (path.join other).normalize = (path.normalize.join other).normalize)
      ∧ (Sheltered path.components →
        ∀ steps, Resolves path.components steps ↔ path.normalize.components = steps) := by
  obtain ⟨ups, names, hups, -, hground, hcomponents⟩ := path.exists_normalize
  refine ⟨⟨ups, names, hups, ?_⟩, ?_, ?_, ?_, fun other => normalize_join path, ?_⟩
  · rw [hcomponents, climb, ← List.append_assoc, ground]
  · rw [ground, ground] at hground
    cases hown : path.normalize.isAbsolute <;> cases hpath : path.isAbsolute <;>
      simp [hown, hpath] at hground ⊢
  · rw [normalize_eq, remaining_normalize, ← normalize_eq]
  · rw [components_normalize, ← normalize_eq]
  · intro hsheltered steps
    refine ⟨fun h => h.eq_remaining hsheltered, ?_⟩
    rintro rfl
    obtain ⟨result, hresult⟩ := exists_resolves path.components
    rwa [hresult.eq_remaining hsheltered]

/-- A path that goes back over a name, spelled with separators and a `.` too many. -/
theorem normalize_lexical_roundabout :
    Sheltered (components ⟨"/a//./b/../c/"⟩)
      ∧ Resolves (components ⟨"/a//./b/../c/"⟩) [.root, .name "a", .name "c"]
      ∧ Text.startsWith "../d" "/" = false
      ∧ (FilePath.join ⟨"/a//./b/../c/"⟩ "../d").normalize = ⟨"/a/d"⟩ := by
  have hsheltered : Sheltered (components ⟨"/a//./b/../c/"⟩) := by decide +kernel
  obtain ⟨-, -, -, -, hjoin, hresolves⟩ := normalize_lexical ⟨"/a//./b/../c/"⟩
  refine ⟨hsheltered, (hresolves hsheltered _).mpr (by decide +kernel), by decide, ?_⟩
  rw [hjoin "../d" (by decide)]
  decide +kernel

/-- A `..` that has nothing to go back over stays, until the next one goes back over it. -/
example : normalize ⟨"a/../.."⟩ = ⟨".."⟩ ∧ normalize ⟨"a/../../.."⟩ = ⟨""⟩
    ∧ normalize ⟨"/.."⟩ = ⟨"/.."⟩ := by
  decide +kernel

end FilePath

end ApiStubs
