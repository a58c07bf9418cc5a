import ApiStubs.Proofs.Failing
import ApiStubs.Proofs.Machine
import Mathlib.Logic.Relation

/-!
# Proofs — Discipline — the cache while modules are loaded

A loader is asked for one module after another, and loads others meanwhile.  At each moment the
modules being replayed are those whose replay waits on the stack (`Sound`, kept by every step), so
that no change to the table of a module is lost, and between two loads none is left.
`Tree.reachable_disciplined` puts together what that makes of every load, from outside or nested,
with the reasons that one fails for (`Tree.Explains`).
-/

namespace ApiStubs.Python

/-! ### Moments -/

/-- What can happen next: a step, or a load from outside once the last one is over. -/
inductive Tree.Next (tree : Tree) : State → State → Prop where
  | step {s t : State} : tree.Step s t → Next tree s t
  | again {outcome : Except ImportFailure SymbolTable} {cache : Cache} (depth : Nat)
      (name : String) : Next tree ⟨.loaded outcome, [], cache⟩ ⟨.load depth name, [], cache⟩

/-- A moment and one that comes later, or the same. -/
def Tree.Later (tree : Tree) : State → State → Prop := Relation.ReflTransGen tree.Next

/-- A moment in the life of a loader that knew nothing at first. -/
def Tree.Reachable (tree : Tree) (s : State) : Prop :=
  ∃ depth name, tree.Later ⟨.load depth name, [], {}⟩ s

theorem Tree.Steps.later {tree : Tree} {s t : State} (h : tree.Steps s t) : tree.Later s t := by
  induction h with
  | refl => exact .refl
  | more step _ ih => exact .head (.step step) ih

/-! ### What waits on the stack -/

/-- The modules whose replay waits on the stack, the innermost first. -/
def bodies : List Frame → List String
  | [] => []
  | .body name :: below => name :: bodies below
  | _ :: below => bodies below

/-- A frame belongs on the frames below it: a load waits for a module that is not being replayed,
a statement is part of one that is. -/
def Frame.Fits (below : List Frame) : Frame → Prop
  | .around _ name | .body name => name ∉ bodies below
  | .request site _ _ _ | .attempt site _ _ _ _ => site.name ∈ bodies below

/-- Every frame of a stack belongs where it is. -/
def Stacked : List Frame → Prop
  | [] => True
  | frame :: below => frame.Fits below ∧ Stacked below

/-- A task belongs on the stack: a module is replayed that is neither loaded nor being replayed,
statements are part of a module being replayed. -/
def Task.Fits (stack : List Frame) (cache : Cache) : Task → Prop
  | .enter _ name => name ∉ bodies stack ∧ cache.loaded.find? name = none
  | .run site _ _ => site.name ∈ bodies stack
  | _ => True

/-- **The invariant.**  The modules being replayed are those on the stack, and none of them is
loaded. -/
structure Sound (stack : List Frame) (cache : Cache) : Prop where
  named : cache.Named
  opened : ∀ name, cache.loading.contains name ↔ name ∈ bodies stack
  unloaded : ∀ name ∈ bodies stack, cache.loaded.find? name = none
  stacked : Stacked stack

/-- The invariant, of a state. -/
def State.Sound (s : State) : Prop :=
  Python.Sound s.stack s.cache ∧ s.task.Fits s.stack s.cache

theorem Sound.empty : Sound [] {} where
  named := .empty
  opened name := by simp [bodies, NameMap.contains]
  unloaded name h := by simp [bodies] at h
  stacked := trivial

theorem Sound.not_loading {stack : List Frame} {cache : Cache} (h : Sound stack cache)
    {name : String} (hn : cache.loading.find? name = none) : name ∉ bodies stack := by
  rw [← h.opened, NameMap.contains, hn]
  exact Bool.false_ne_true

/-- A frame other than a replay comes on top. -/
theorem Sound.push {frame : Frame} {below : List Frame} {cache : Cache} (h : Sound below cache)
    (hb : bodies (frame :: below) = bodies below) (hf : frame.Fits below) :
    Sound (frame :: below) cache :=
  ⟨h.named, fun name => hb ▸ h.opened name, hb ▸ h.unloaded, hf, h.stacked⟩

/-- A frame other than a replay is done with. -/
theorem Sound.pop {frame : Frame} {below : List Frame} {cache : Cache}
    (h : Sound (frame :: below) cache) (hb : bodies (frame :: below) = bodies below) :
    Sound below cache :=
  ⟨h.named, fun name => hb ▸ h.opened name, hb ▸ h.unloaded, h.stacked.2⟩

/-- The replay of a module begins. -/
theorem Sound.begin {stack : List Frame} {cache : Cache} (h : Sound stack cache) {name : String}
    (hn : name ∉ bodies stack) (hl : cache.loaded.find? name = none) :
    Sound (.body name :: stack) (cache.opened name) where
  named := h.named.opened name
  opened other := by
    rw [bodies, List.mem_cons, ← h.opened, NameMap.contains, NameMap.contains, Cache.opened,
      NameMap.find?_insert]
    by_cases ho : other = name <;> simp [ho]
  unloaded other ho := by
    rcases List.mem_cons.mp ho with rfl | ho
    · exact hl
    · exact h.unloaded other ho
  stacked := ⟨hn, h.stacked⟩

/-- The replay of a module is over. -/
theorem Sound.settled {name : String} {stack : List Frame} {cache : Cache}
    (h : Sound (.body name :: stack) cache) (outcome : Except ImportFailure Unit) :
    Sound stack (Cache.settled name (outcome, cache)).2 := by
  have hname : name ∉ bodies stack := h.stacked.1
  have hne : ∀ other ∈ bodies stack, other ≠ name := fun other ho he => hname (he ▸ ho)
  have hopened : ∀ other, (cache.closed name).loading.contains other ↔ other ∈ bodies stack := by
    intro other
    have ho := h.opened other
    rw [bodies, List.mem_cons] at ho
    rw [NameMap.contains, Cache.closed, NameMap.find?_erase]
    by_cases he : other = name
    · simp [he, hname]
    · simpa [he, NameMap.contains] using ho
  have hunloaded : ∀ other ∈ bodies stack, cache.loaded.find? other = none := fun other ho =>
    h.unloaded other (List.mem_cons_of_mem _ ho)
  -- the module that becomes loaded is on no other place of the stack
  cases outcome with
  | error failure => exact ⟨h.named.closed name, hopened, hunloaded, h.stacked.2⟩
  | ok _ =>
    refine ⟨h.named.finished name, hopened, fun other ho => ?_, h.stacked.2⟩
    rw [Cache.settled, Cache.finished, NameMap.find?_insert, if_neg (hne other ho)]
    exact hunloaded other ho

/-! ### Parts of a replay -/

/-- What a part of the replay of a module does to the cache. -/
def Cache.Works (own : String) (before after : Cache) : Prop :=
  before.Advances own after ∧ before.StaysNamed after

namespace Cache.Works

theorem refl (own : String) (cache : Cache) : Works own cache cache := ⟨.refl own cache, id⟩

theorem trans {own : String} (a b c : Cache) (h : Works own a b) (h' : Works own b c) :
    Works own a c := ⟨h.1.trans h'.1, h'.2 ∘ h.2⟩

theorem update (scope : Scope) (change : Change) (h : KeepsName change) :
    Moves (Works scope.module) (scope.update change) := fun cache =>
  ⟨scope.update_advances change cache, scope.update_staysNamed h cache⟩

theorem load (tree : Tree) (depth : Nat) (own name : String) :
    Moves (Works own) (tree.load depth name) := fun cache =>
  ⟨(tree.load_grows depth name cache).advances own, tree.load_staysNamed depth name cache⟩

end Cache.Works

/-- The invariant survives a part of the replay of a module on the stack. -/
theorem Sound.works {own : String} {stack : List Frame} {before after : Cache}
    (h : Sound stack before) (hw : before.Works own after) : Sound stack after where
  named := hw.2 h.named
  opened name := by rw [hw.1.contains, h.opened]
  unloaded name hn := hw.1.unfinished name ((h.opened name).mpr hn) (h.unloaded name hn)
  stacked := h.stacked

theorem State.Sound.after {site : Site} {stack : List Frame} {cache : Cache}
    (h : Python.Sound stack cache) (hsite : site.name ∈ bodies stack) {x : Importing Unit}
    (hx : Moves (Cache.Works site.name) x) (requests : List Request) (rest : List Statement) :
    (State.after site requests rest stack (x cache)).Sound := by
  have hw := h.works (hx cache)
  rcases hc : x cache with ⟨_ | _, after⟩ <;> rw [hc] at hw
  · exact ⟨hw, trivial⟩
  · exact ⟨hw, hsite⟩

/-! ### Every step keeps the invariant -/

namespace Tree

variable {tree : Tree}

theorem replay_works (tree : Tree) (site : Site) (s : Statement) :
    Moves (Cache.Works site.name) ((tree.scopeAt site).replay s) :=
  Scope.replay_moves (.refl _) .trans (Cache.Works.update (tree.scopeAt site))
    (Cache.Works.load tree site.depth _) s

theorem takeOutside_works (tree : Tree) (site : Site) (request : Request) :
    Moves (Cache.Works site.name) ((tree.scopeAt site).takeOutside request) :=
  Scope.takeOutside_moves (.refl _) .trans (Cache.Works.update (tree.scopeAt site)) request

theorem take_works (tree : Tree) (site : Site) (request : Request) (table : SymbolTable) :
    Moves (Cache.Works site.name) ((tree.scopeAt site).take request table) :=
  Scope.take_moves (.refl _) .trans (Cache.Works.update (tree.scopeAt site)) request table

/-- One step leads from a sound state to a sound one. -/
theorem Step.sound {s t : State} (h : tree.Step s t) (hs : s.Sound) : t.Sound := by
  obtain ⟨hsound, hfits⟩ := hs
  cases h with
  | tooDeep | known _ | missing _ | done | unresolved _ _ => exact ⟨hsound, trivial⟩
  | around hnone _ =>
    exact ⟨hsound.push rfl (hsound.not_loading (Cache.find?_eq_none.mp hnone).2), trivial⟩
  | alone hnone _ =>
    obtain ⟨hloaded, hloading⟩ := Cache.find?_eq_none.mp hnone
    exact ⟨hsound, hsound.not_loading hloading, hloaded⟩
  | aroundFailed | along _ | uncaught _ | refused => exact ⟨hsound.pop rfl, trivial⟩
  | inside hloaded => exact ⟨hsound.pop rfl, hsound.stacked.1, hloaded⟩
  | unreadable _ _ => exact ⟨hsound.begin hfits.1 hfits.2, trivial⟩
  | enter _ _ => exact ⟨hsound.begin hfits.1 hfits.2, List.mem_cons_self⟩
  | settle => exact ⟨hsound.settled _, trivial⟩
  | importing _ _ | branches => exact ⟨hsound, hfits⟩
  | attempt => exact ⟨hsound.push rfl hfits, hfits⟩
  | passed | caught _ => exact ⟨hsound.pop rfl, hsound.stacked.1⟩
  | ask _ => exact ⟨hsound.push rfl hfits, trivial⟩
  | @quiet site s _ _ _ _ => exact .after hsound hfits (tree.replay_works site s) _ _
  | @outside site request _ _ _ _ _ =>
    exact .after hsound hfits (tree.takeOutside_works site request) _ _
  | @take site request _ _ table _ _ =>
    exact .after (hsound.pop rfl) hsound.stacked.1 (tree.take_works site request table) _ _

theorem Next.sound {s t : State} (h : tree.Next s t) (hs : s.Sound) : t.Sound := by
  cases h with
  | step hstep => exact hstep.sound hs
  | again depth name => exact ⟨hs.1, trivial⟩

theorem Later.sound {s t : State} (h : tree.Later s t) (hs : s.Sound) : t.Sound := by
  induction h with
  | refl => exact hs
  | tail _ hnext ih => exact hnext.sound ih

/-- **The invariant holds at every moment.** -/
theorem Reachable.sound {s : State} (h : tree.Reachable s) : s.Sound := by
  obtain ⟨depth, name, h⟩ := h
  exact h.sound ⟨.empty, trivial⟩

/-! ### What is loaded stays -/

/-- A step takes no loaded table away and replaces none. -/
theorem Step.kept {s t : State} (h : tree.Step s t) (hs : s.Sound) {name : String}
    {table : SymbolTable} (hl : s.cache.loaded.find? name = some table) :
    t.cache.loaded.find? name = some table := by
  have hafter {site : Site} {requests : List Request} {rest : List Statement}
      {stack : List Frame} {cache : Cache} {x : Importing Unit}
      (hx : Moves (Cache.Works site.name) x) (hl : cache.loaded.find? name = some table) :
      (State.after site requests rest stack (x cache)).cache.loaded.find? name = some table := by
    have hkept := (hx cache).1.kept name table hl
    rcases hc : x cache with ⟨_ | _, after⟩ <;> rw [hc] at hkept <;> exact hkept
  cases h with
  | @settle own outcome _ _ =>
    cases outcome with
    | error failure => exact hl
    | ok _ =>
      -- the module just replayed was not loaded: it is not the one of the table
      have hne : name ≠ own := by
        rintro rfl
        rw [hs.1.unloaded name List.mem_cons_self] at hl
        cases hl
      simpa [Cache.settled, Cache.finished, hne] using hl
  | @quiet site s _ _ _ _ => exact hafter (tree.replay_works site s) hl
  | @outside site request _ _ _ _ _ => exact hafter (tree.takeOutside_works site request) hl
  | @take site request _ _ table _ _ => exact hafter (tree.take_works site request table) hl
  | _ => exact hl

theorem Later.kept {s t : State} (h : tree.Later s t) (hs : s.Sound) {name : String}
    {table : SymbolTable} (hl : s.cache.loaded.find? name = some table) :
    t.cache.loaded.find? name = some table := by
  induction h with
  | refl => exact hl
  | tail hbefore hnext ih =>
    cases hnext with
    | step hstep => exact hstep.kept (Later.sound hbefore hs) ih
    | again _ _ => exact ih

end Tree

/-! ### What it makes of loads and replays -/

/-- The module whose statements a task is part of. -/
def Task.site? : Task → Option Site
  | .run site _ _ => some site
  | _ => none

/-- The module whose statements a frame waits for. -/
def Frame.site? : Frame → Option Site
  | .request site _ _ _ | .attempt site _ _ _ _ => some site
  | _ => none

/-- The modules some statement of which is being replayed. -/
def State.sites (s : State) : List Site := s.task.site?.toList ++ s.stack.filterMap Frame.site?

/-- A module of which statements wait is being replayed. -/
theorem Stacked.mem_bodies {site : Site} {stack : List Frame} (hs : Stacked stack)
    (h : site ∈ stack.filterMap Frame.site?) : site.name ∈ bodies stack := by
  induction stack with
  | nil => simp at h
  | cons frame below ih =>
    obtain ⟨hfits, hbelow⟩ := hs
    cases frame with
    | around _ _ => exact ih hbelow h
    | body _ => exact List.mem_cons_of_mem _ (ih hbelow h)
    | request _ _ _ _ | attempt _ _ _ _ _ =>
      rcases List.mem_cons.mp h with rfl | h
      · exact hfits
      · exact ih hbelow h

theorem State.Sound.mem_bodies {s : State} (h : s.Sound) {site : Site} (hs : site ∈ s.sites) :
    site.name ∈ bodies s.stack := by
  obtain ⟨task, stack, cache⟩ := s
  rcases List.mem_append.mp hs with htask | hstack
  · cases task with
    | run own _ _ =>
      obtain rfl : site = own := by simpa [Task.site?] using htask
      exact h.2
    | _ => simp [Task.site?] at htask
  · exact h.1.stacked.mem_bodies hstack

/-- The cache with a table in the place of the one of a module being replayed. -/
def Cache.put (cache : Cache) (name : String) (table : SymbolTable) : Cache :=
  { cache with loading := cache.loading.insert name table }

theorem Cache.put_put (cache : Cache) (name : String) (first second : SymbolTable) :
    (cache.put name first).put name second = cache.put name second := by
  have h : (cache.put name first).loading.insert name second
      = cache.loading.insert name second := by
    refine NameMap.ext_find? fun key => ?_
    by_cases hk : key = name <;> simp [put, hk]
  rw [put, h]
  rfl

theorem Cache.put_self {cache : Cache} {name : String} {table : SymbolTable}
    (h : cache.loading.find? name = some table) : cache.put name table = cache := by
  have hsame : cache.loading.insert name table = cache.loading := by
    refine NameMap.ext_find? fun key => ?_
    by_cases hk : key = name <;> simp [hk, h]
  rw [put, hsame]

/-- Changes to the table of a module being replayed all arrive. -/
theorem Scope.write_present (scope : Scope) (changes : List Change) :
    ∀ {cache : Cache} {table : SymbolTable}, cache.loading.find? scope.module = some table →
      scope.write changes cache
        = (.ok (), cache.put scope.module (changes.foldl (fun t change => change t) table)) := by
  induction changes with
  | nil =>
    intro cache table h
    rw [List.foldl_nil, Cache.put_self h]
    rfl
  | cons change more ih =>
    intro cache table h
    have hfirst : scope.update change cache
        = (.ok (), cache.put scope.module (change table)) := by
      rw [run_update, h]
      rfl
    have hput : (cache.put scope.module (change table)).loading.find? scope.module
        = some (change table) := by simp [Cache.put]
    rw [write_cons, Importing.run_bind_ok hfirst, ih hput, Cache.put_put, List.foldl_cons]

namespace Tree

variable (tree : Tree)

/-- What a load does that starts at a moment. -/
structure ProperLoad (depth : Nat) (name : String) (stack : List Frame) (cache : Cache)
    (outcome : Except ImportFailure SymbolTable) (after : Cache) : Prop where
  returns : tree.Steps ⟨.load depth name, stack, cache⟩ ⟨.loaded outcome, stack, after⟩
  /-- The modules being replayed are the same, each with the same table. -/
  loading : after.loading = cache.loading
  /-- What was loaded is loaded, with the same table. -/
  kept : ∀ other table, cache.loaded.find? other = some table →
    after.loaded.find? other = some table
  /-- A module that was not being replayed is loaded under its name, and handed out ever after. -/
  handsOut : cache.loading.find? name = none → ∀ table, outcome = .ok table →
    table.name = name ∧ after.loaded.find? name = some table
      ∧ ∀ later, tree.Later ⟨.loaded outcome, stack, after⟩ later →
        ∀ depth', tree.load (depth' + 1) name later.cache = (.ok table, later.cache)
  /-- An error is that of an import, and there is a reason for it in the tree. -/
  explained : ∀ failure, outcome = .error failure → tree.Explains failure

/-- A load that starts in a sound state is a proper one. -/
theorem properLoad {depth : Nat} {name : String} {stack : List Frame} {cache : Cache}
    (h : State.Sound ⟨.load depth name, stack, cache⟩) :
    tree.ProperLoad depth name stack cache (tree.load depth name cache).1
      (tree.load depth name cache).2 := by
  have hgrows := tree.load_grows depth name cache
  have hsteps := tree.steps_load depth name stack cache
  refine ⟨hsteps, hgrows.loading, hgrows.kept, fun hnone table hok => ?_,
    tree.load_failsAs depth name cache⟩
  -- the machine comes to the end of the load, so that the invariant holds there
  have hloaded := tree.loaded_of_load_ok hnone hok
  have hafter := hsteps.later.sound h
  refine ⟨hafter.1.named.loaded name table hloaded, hloaded, fun later hlater depth' => ?_⟩
  exact tree.load_of_loaded (hlater.kept hafter hloaded) depth'

/-- **Loading is disciplined.**  At every moment: a load that starts is a proper one; when nothing
waits no module is being replayed; and a module of which some statement is being replayed has its
entry, so that whatever changes are made to its table arrive. -/
theorem reachable_disciplined {s : State} (h : tree.Reachable s) :
    (∀ depth name, s.task = .load depth name →
      tree.ProperLoad depth name s.stack s.cache (tree.load depth name s.cache).1
        (tree.load depth name s.cache).2)
    ∧ (s.stack = [] → s.cache.loading = ∅)
    ∧ ∀ site ∈ s.sites, ∃ table, s.cache.loading.find? site.name = some table
      ∧ ∀ changes, (tree.scopeAt site).write changes s.cache
        = (.ok (), s.cache.put site.name (changes.foldl (fun t change => change t) table)) := by
  have hsound := h.sound
  refine ⟨fun depth name htask => ?_, fun hstack => ?_, fun site hsite => ?_⟩
  · obtain ⟨task, stack, cache⟩ := s
    cases htask
    exact tree.properLoad hsound
  · refine NameMap.ext_find? fun name => ?_
    have hnot : ¬s.cache.loading.contains name := by
      rw [hsound.1.opened, hstack]
      exact List.not_mem_nil
    simpa [NameMap.contains] using hnot
  · have hin := (hsound.1.opened site.name).mpr (hsound.mem_bodies hsite)
    obtain ⟨table, htable⟩ := Option.isSome_iff_exists.mp hin
    exact ⟨table, htable, fun changes => (tree.scopeAt site).write_present changes htable⟩

/-- A package that takes a function from a module of its own. -/
def pair : Tree where
  locate name :=
    if name = "pkg" then some ⟨⟨"pkg/__init__.py"⟩, true⟩
    else if name = "pkg.core" then some ⟨⟨"pkg/core.py"⟩, false⟩
    else none
  code path :=
    if path = ⟨"pkg/__init__.py"⟩ then
      .ok [.importFrom (.relative 1 "core") (.listed [⟨"f", none⟩])]
    else .ok [.functionDef "f"]

/-- The package while it is being replayed. -/
def pairSite : Site := ⟨1, "pkg", ⟨⟨"pkg/__init__.py"⟩, true⟩⟩

/-- The moment when the package asks for its module. -/
def pairAsking : State where
  task := .load 1 "pkg.core"
  stack := [.request pairSite ⟨"pkg.core", .name ⟨"f", none⟩⟩ [] [], .body "pkg"]
  cache := Cache.opened {} "pkg"

/-- A machine comes to this state. -/
theorem pairAsking_reachable : pair.Reachable pairAsking := by
  refine ⟨2, "pkg", Steps.later ?_⟩
  have hrequests : (pair.scopeAt pairSite).requests
      (.importFrom (.relative 1 "core") (.listed [⟨"f", none⟩]))
      = .ok [⟨"pkg.core", .name ⟨"f", none⟩⟩] := by cbv
  have hlocate : pair.locate "pkg" = some pairSite.location := by cbv
  have hcode : pair.code pairSite.location.path
      = .ok [.importFrom (.relative 1 "core") (.listed [⟨"f", none⟩])] := by cbv
  have hask : (pair.scopeAt pairSite).isExternal "pkg.core" = false := by cbv
  exact .more (.alone rfl (by cbv)) (.more (.enter hlocate hcode)
    (.more (.importing rfl hrequests) (.one (.ask hask))))

/-- The load of a module by its own package is a proper one, and finds the package's entry. -/
theorem reachable_disciplined_pair :
    pair.Reachable pairAsking
    ∧ pair.ProperLoad 1 "pkg.core" pairAsking.stack pairAsking.cache
      (pair.load 1 "pkg.core" pairAsking.cache).1 (pair.load 1 "pkg.core" pairAsking.cache).2
    ∧ ∃ table, pairAsking.cache.loading.find? "pkg" = some table := by
  obtain ⟨hload, -, hsites⟩ := reachable_disciplined pair pairAsking_reachable
  obtain ⟨table, htable, -⟩ := hsites pairSite (by simp [State.sites, pairAsking, Frame.site?])
  exact ⟨pairAsking_reachable, hload 1 "pkg.core" rfl, table, htable⟩

end Tree

end ApiStubs.Python
