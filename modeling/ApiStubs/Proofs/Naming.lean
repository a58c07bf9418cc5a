import ApiStubs.Proofs.Executing
import ApiStubs.Proofs.Provenance

/-!
# Proofs — Naming — where the names of a table come from

A name gets into the table of a module on many ways: by a definition, a target or an import, as the
alias of what is imported or under its own name, alone or with all that a star takes.  On each of
them it is a word that stands in the code for what is bound, or else it is bound to a module, or to
something from outside (`Realm.Attests`).

What a tree holds is taken from the tree once (`Realm.Covers`).  The invariant says nothing of it,
so that it outlasts a tree that changes between two loads: `Tree.load_attested`.
-/

namespace ApiStubs.Python

/-! ### Names in the code -/

/-- The word stands in the statement for an object that the statement binds. -/
inductive Statement.Names : Statement → String → Prop where
  | classDef {word : String} : Names (.classDef word) word
  | functionDef {word : String} : Names (.functionDef word) word
  | assign {a : Assignment} {word : String} : word ∈ a.bound → Names (.assign a) word
  | renamed {source : ImportSource} {names : List Imported} {imported : Imported} {word : String} :
      imported ∈ names → imported.alias? = some word → Names (.importFrom source (.listed names)) word

/-- The word stands so in a part of the statement. -/
def Statement.Introduces (s : Statement) (word : String) : Prop :=
  ∃ part : Statement, part.Within s ∧ part.Names word

theorem Statement.Introduces.within {part whole : Statement} {word : String}
    (h : part.Introduces word) (hpart : part.Within whole) : whole.Introduces word := by
  obtain ⟨inner, hinner, hnames⟩ := h
  exact ⟨inner, hinner.trans hpart, hnames⟩

/-! ### What is attested -/

/-- What there is to name: the words of the sources, the modules that live in the tree, and those
that come from outside. -/
structure Realm where
  Spelled : String → Prop
  Lives : String → Prop
  Foreign : String → Prop

/-- The name is a word of the sources, or it is bound to a module or to something from outside. -/
inductive Realm.Attests (realm : Realm) (name : String) : Binding → Prop where
  | spelled {binding : Binding} : realm.Spelled name → Attests realm name binding
  | module : Attests realm name .ofModule
  | foreign {origin : String} : realm.Foreign origin → Attests realm name (.objectOf origin)

/-- The realm knows the words of the statements. -/
def Realm.Knows (realm : Realm) (statements : List Statement) : Prop :=
  ∀ s ∈ statements, ∀ word, s.Introduces word → realm.Spelled word

/-- The tree holds nothing that the realm does not know. -/
structure Realm.Covers (realm : Realm) (tree : Tree) : Prop where
  spelled : ∀ module location statements, tree.locate module = some location →
    tree.code location.path = .ok statements → realm.Knows statements
  lives : ∀ module, (tree.locate module).isSome → realm.Lives module
  foreign : ∀ module, tree.External module → realm.Foreign module

end ApiStubs.Python

namespace ApiStubs

open Python (Realm)

/-- Every name of the table is attested. -/
def SymbolTable.Attested (realm : Realm) (table : SymbolTable) : Prop :=
  ∀ name binding, table.find? name = some binding → realm.Attests name binding

namespace SymbolTable.Attested

variable {realm : Realm} {table : SymbolTable}

theorem named (name : String) : (SymbolTable.named name).Attested realm := by
  intro key binding h
  cases h

theorem bind (h : table.Attested realm) {name : String} {binding : Binding}
    (hname : realm.Attests name binding) : (table.bind name binding).Attested realm := by
  intro key found hfind
  rw [find?_bind] at hfind
  split at hfind
  · rename_i hkey
    cases hfind
    exact hkey ▸ hname
  · exact h key found hfind

theorem unbind (h : table.Attested realm) (name : String) :
    (table.unbind name).Attested realm := by
  intro key found hfind
  rw [find?_unbind] at hfind
  split at hfind
  · cases hfind
  · exact h key found hfind

end SymbolTable.Attested

end ApiStubs

namespace ApiStubs.Python

variable {realm : Realm}

/-- Every name of every table is attested, and what is loaded is a module of the tree. -/
structure Cache.Attested (realm : Realm) (cache : Cache) : Prop where
  loaded : ∀ name table, cache.loaded.find? name = some table →
    realm.Lives name ∧ table.Attested realm
  loading : ∀ name table, cache.loading.find? name = some table → table.Attested realm

namespace Cache.Attested

variable {cache : Cache}

theorem empty : Attested realm {} := by
  constructor <;> intro name table h <;> cases h

theorem find? (h : cache.Attested realm) {name : String} {table : SymbolTable}
    (hfind : cache.find? name = some table) : table.Attested realm := by
  rcases Option.or_eq_some_iff.mp hfind with hloaded | ⟨-, hloading⟩
  · exact (h.loaded name table hloaded).2
  · exact h.loading name table hloading

theorem unfinished (h : cache.Attested realm) (name : String) :
    (cache.unfinished name).Attested realm := by
  rw [Cache.unfinished]
  cases hf : cache.loading.find? name with
  | none => exact .named name
  | some table => exact h.loading name table hf

theorem put (h : cache.Attested realm) (name : String) {table : SymbolTable}
    (ht : table.Attested realm) : (cache.put name table).Attested realm := by
  refine ⟨h.loaded, fun key found hf => ?_⟩
  rw [Cache.put, NameMap.find?_insert] at hf
  split at hf
  · cases hf
    exact ht
  · exact h.loading key found hf

theorem opened (h : cache.Attested realm) (name : String) : (cache.opened name).Attested realm :=
  h.put name (.named name)

theorem closed (h : cache.Attested realm) (name : String) : (cache.closed name).Attested realm := by
  refine ⟨h.loaded, fun key found hf => ?_⟩
  rw [Cache.closed, NameMap.find?_erase] at hf
  split at hf
  · cases hf
  · exact h.loading key found hf

/-- A module that lives is settled with its names attested. -/
theorem settled (h : cache.Attested realm) {name : String} (hlives : realm.Lives name)
    (outcome : Except ImportFailure Unit) :
    (Cache.settled name (outcome, cache)).2.Attested realm := by
  cases outcome with
  | error failure => exact h.closed name
  | ok _ =>
    refine ⟨fun key found hf => ?_, (h.closed name).loading⟩
    rw [Cache.settled, Cache.finished, NameMap.find?_insert] at hf
    split at hf
    · rename_i hkey
      cases hf
      exact ⟨hkey ▸ hlives, h.unfinished name⟩
    · exact h.loaded key found hf

end Cache.Attested

/-! ### What changes attest -/

/-- The change leaves attested tables. -/
def Realm.Allows (realm : Realm) (change : Change) : Prop :=
  ∀ table : SymbolTable, table.Attested realm → (change table).Attested realm

theorem Realm.Allows.bind {name : String} {binding : Binding} (h : realm.Attests name binding) :
    realm.Allows fun table => table.bind name binding := fun _ ht => ht.bind h

mutual

theorem Target.changes_allowed {binding : Binding} {change : Change} :
    ∀ {target : Target}, (∀ word ∈ target.bound, realm.Spelled word) →
      change ∈ target.changes binding → realm.Allows change
  | .name id, hbound, h => by
    rw [Target.changes, List.mem_singleton] at h
    exact h ▸ .bind (.spelled (hbound id (by simp [Target.bound])))
  | .sequence items, hbound, h =>
    changesOfTargets_allowed (by rwa [Target.bound] at hbound) (by rwa [Target.changes] at h)
  | .place _, _, h | .star _, _, h => by simp [Target.changes] at h

theorem changesOfTargets_allowed {change : Change} :
    ∀ {targets : List Target}, (∀ word ∈ boundByTargets targets, realm.Spelled word) →
      change ∈ changesOfTargets targets → realm.Allows change
  | [], _, h => by simp [changesOfTargets] at h
  | target :: rest, hbound, h => by
    rw [boundByTargets, List.forall_mem_append] at hbound
    rw [changesOfTargets, List.mem_append] at h
    exact h.elim (Target.changes_allowed hbound.1) (changesOfTargets_allowed hbound.2)

end

/-- Changes of the exports bind nothing. -/
theorem exportChanges_allowed {act : SymbolTable → List String → SymbolTable} {target : Target}
    {right : Expr} {change : Change} (h : change ∈ exportChanges act target right)
    (hact : ∀ table names, (act table names).bindings = table.bindings) : realm.Allows change := by
  rw [exportChanges.eq_def] at h
  split at h
  · rw [List.mem_singleton] at h
    subst h
    intro table ht name binding hfind
    rw [SymbolTable.find?, hact] at hfind
    exact ht name binding hfind
  · simp at h

/-- The changes of an assignment bind the words of its targets. -/
theorem Assignment.changes_allowed {binding : Binding} {change : Change} {a : Assignment}
    (hbound : ∀ word ∈ a.bound, realm.Spelled word) (h : change ∈ a.changes binding) :
    realm.Allows change := by
  induction a with
  | declare target => simp [Assignment.changes] at h
  | value target right =>
    rw [Assignment.changes, List.mem_append] at h
    exact h.elim (exportChanges_allowed · fun _ _ => rfl) (Target.changes_allowed hbound)
  | chain target right ih =>
    rw [Assignment.bound, List.forall_mem_append] at hbound
    rw [Assignment.changes, List.mem_append] at h
    exact h.elim (ih hbound.2) (Target.changes_allowed hbound.1)

namespace Scope

variable (scope : Scope) {cache : Cache}

theorem update_attested {change : Change} (h : realm.Allows change) (hc : cache.Attested realm) :
    (scope.update change cache).2.Attested realm := by
  rw [run_update]
  split
  · rename_i table htable
    exact hc.put scope.module (h table (hc.loading _ table htable))
  · exact hc

theorem write_attested (changes : List Change) (h : ∀ change ∈ changes, realm.Allows change)
    (hc : cache.Attested realm) : (scope.write changes cache).2.Attested realm := by
  induction changes generalizing cache with
  | nil => exact hc
  | cons change more ih =>
    obtain ⟨hfirst, hmore⟩ := List.forall_mem_cons.mp h
    rw [write_cons, Importing.run_bind_ok (run_update scope change cache)]
    exact ih hmore (scope.update_attested hfirst hc)

/-- The changes of a quiet statement bind its own words. -/
theorem changes_allowed {s : Statement} (hs : ∀ word, s.Names word → realm.Spelled word)
    {made : List Change} (h : (scope.changes s cache).1 = .ok made) :
    ∀ change ∈ made, realm.Allows change := by
  intro change hmem
  cases s with
  | classDef name =>
    cases h
    exact List.mem_singleton.mp hmem ▸ .bind (.spelled (hs name .classDef))
  | functionDef name =>
    cases h
    exact List.mem_singleton.mp hmem ▸ .bind (.spelled (hs name .functionDef))
  | assign a =>
    have hbound : ∀ word ∈ a.bound, realm.Spelled word := fun word hword => hs word (.assign hword)
    rw [changes] at h
    cases ha : a.assigned? with
    | none =>
      rw [ha] at h
      cases h
      cases hmem
    | some right =>
      rw [ha] at h
      simp only [Importing.run_bind] at h
      split at h
      · cases h
        exact Assignment.changes_allowed hbound hmem
      · cases h
  | augment target right =>
    cases h
    exact exportChanges_allowed hmem fun _ _ => rfl
  | delete targets =>
    cases h
    obtain ⟨name, -, rfl⟩ := List.mem_map.mp hmem
    exact fun _ ht => ht.unbind name
  | _ =>
    cases h
    cases hmem

theorem replay_quiet_attested {s : Statement} (hquiet : s.isQuiet)
    (hs : ∀ word, s.Names word → realm.Spelled word) (hc : cache.Attested realm) :
    (scope.replay s cache).2.Attested realm := by
  rcases scope.replay_quiet_cases hquiet cache with hkept | ⟨made, hmade, hwritten⟩
  · rwa [hkept]
  · rw [hwritten]
    exact scope.write_attested made (scope.changes_allowed hs hmade) hc

end Scope

/-! ### What imports attest -/

/-- The alias of what is requested is a word of the sources. -/
def Request.Attested (realm : Realm) (request : Request) : Prop :=
  ∀ imported word, request.use = .name imported → imported.alias? = some word → realm.Spelled word

namespace Scope

variable (scope : Scope) {cache : Cache}

/-- An import statement requests what it is asked for under its own words. -/
theorem requests_attested {s : Statement} (hs : ∀ word, s.Names word → realm.Spelled word)
    {requests : List Request} (h : scope.requests s = .ok requests) :
    ∀ request ∈ requests, request.Attested realm := by
  intro request hmem imported word huse halias
  cases s with
  | importModules modules =>
    cases h
    obtain ⟨_, -, rfl⟩ := List.mem_map.mp hmem
    cases huse
  | importFrom source names =>
    cases names with
    | everything =>
      rw [Scope.requests] at h
      cases hresolve : scope.resolve source <;> rw [hresolve] at h <;> cases h
      obtain rfl := List.mem_singleton.mp hmem
      cases huse
    | listed each =>
      rw [Scope.requests] at h
      cases hresolve : scope.resolve source <;> rw [hresolve] at h <;> cases h
      obtain ⟨own, hown, rfl⟩ := List.mem_map.mp hmem
      cases huse
      exact hs word (.renamed hown halias)
  | _ =>
    cases h
    cases hmem

/-- What is taken from a table is attested under the alias, which the code spells, and under its
own name as it was there. -/
theorem take_attested {request : Request} {table : SymbolTable} (hr : request.Attested realm)
    (ht : table.Attested realm) (hc : cache.Attested realm) :
    (scope.take request table cache).2.Attested realm := by
  rw [take]
  cases huse : request.use with
  | asModule imported => exact scope.update_attested (.bind .module) hc
  | everything =>
    -- a star import is a list of changes, one for each name it takes
    let binds : String × Binding → Change := fun entry table => table.bind entry.1 entry.2
    have hwrite : (table.starBindings.forM fun entry => scope.bind entry.1 entry.2)
        = scope.write (table.starBindings.map binds) := by
      rw [write, List.forM_eq_forM, List.forM_eq_forM, List.forM_map]
      rfl
    show ((table.starBindings.forM fun entry => scope.bind entry.1 entry.2) cache).2.Attested realm
    rw [hwrite]
    refine scope.write_attested _ (fun change hmem => ?_) hc
    obtain ⟨entry, hentry, rfl⟩ := List.mem_map.mp hmem
    exact .bind (ht _ _ (SymbolTable.find?_of_mem_starBindings hentry))
  | name imported =>
    simp only [Importing.run_bind, Importing.run_liftExcept, taken]
    have hname : ∀ binding, realm.Attests imported.written binding →
        realm.Attests (imported.alias?.getD imported.written) binding := by
      intro binding hbinding
      cases halias : imported.alias? with
      | none => exact hbinding
      | some word => exact .spelled (hr imported word huse halias)
    cases hfind : table.find? imported.written with
    | some binding => exact scope.update_attested (.bind (hname _ (ht _ _ hfind))) hc
    | none =>
      cases scope.located (Dotted.join request.module imported.written) with
      | true => exact scope.update_attested (.bind .module) hc
      | false => exact hc

theorem takeOutside_attested {request : Request} (h : realm.Foreign request.module)
    (hc : cache.Attested realm) : (scope.takeOutside request cache).2.Attested realm := by
  rw [takeOutside]
  cases request.use with
  | asModule imported => exact scope.update_attested (.bind .module) hc
  | everything => exact hc
  | name imported => exact scope.update_attested (.bind (.foreign h)) hc

end Scope

/-! ### Every step keeps the invariant -/

/-- The realm knows the words of what a task replays, and attests the table it hands out. -/
def Task.Attested (realm : Realm) : Task → Prop
  | .run _ requests statements =>
    (∀ request ∈ requests, request.Attested realm) ∧ realm.Knows statements
  | .loaded (.ok table) => table.Attested realm
  | _ => True

/-- The realm knows the words of what waits to be replayed, and the module that is replayed. -/
def Frame.Attested (realm : Realm) : Frame → Prop
  | .body name => realm.Lives name
  | .request _ own others statements =>
    own.Attested realm ∧ (∀ other ∈ others, other.Attested realm) ∧ realm.Knows statements
  | .attempt _ handlers orElse finish statements =>
    realm.Knows statements ∧ realm.Knows ((catchingBlock? handlers).getD [])
      ∧ realm.Knows (orElse.getD []) ∧ realm.Knows (finish.getD [])
  | _ => True

/-- **The invariant.**  Every name of every table is attested, and the realm knows the words of
everything that is still to be replayed. -/
structure State.Attested (realm : Realm) (s : State) : Prop where
  cache : s.cache.Attested realm
  task : s.task.Attested realm
  stack : ∀ frame ∈ s.stack, frame.Attested realm

namespace Realm

theorem Knows.append {first second : List Statement} (h : realm.Knows first)
    (h' : realm.Knows second) : realm.Knows (first ++ second) :=
  List.forall_mem_append.mpr ⟨h, h'⟩

/-- A part of a statement introduces no words but those of the whole. -/
theorem spelled_within {part whole : Statement}
    (h : ∀ word, whole.Introduces word → realm.Spelled word) (hpart : part.Within whole) :
    ∀ word, part.Introduces word → realm.Spelled word :=
  fun word hword => h word (hword.within hpart)

end Realm

namespace Tree

variable {tree : Tree}

theorem attested_after {site : Site} {requests : List Request} {rest : List Statement}
    {stack : List Frame} (hrequests : ∀ request ∈ requests, request.Attested realm)
    (hrest : realm.Knows rest) (hstack : ∀ frame ∈ stack, frame.Attested realm)
    {result : Except ImportFailure Unit × Cache} (hc : result.2.Attested realm) :
    (State.after site requests rest stack result).Attested realm := by
  obtain ⟨_ | _, cache⟩ := result
  · exact ⟨hc, trivial, hstack⟩
  · exact ⟨hc, ⟨hrequests, hrest⟩, hstack⟩

/-- One step keeps attested what the cache holds and what waits on the stack. -/
theorem Step.attested {s t : State} (h : tree.Step s t) (hcovers : realm.Covers tree)
    (hs : s.Attested realm) : t.Attested realm := by
  obtain ⟨hcache, htask, hstack⟩ := hs
  cases h with
  | tooDeep | missing _ => exact ⟨hcache, trivial, hstack⟩
  | known hknown => exact ⟨hcache, hcache.find? hknown, hstack⟩
  | around _ _ => exact ⟨hcache, trivial, List.forall_mem_cons.mpr ⟨trivial, hstack⟩⟩
  | alone _ _ => exact ⟨hcache, trivial, hstack⟩
  | aroundFailed | inside _ => exact ⟨hcache, trivial, (List.forall_mem_cons.mp hstack).2⟩
  | along hown => exact ⟨hcache, (hcache.loaded _ _ hown).2, (List.forall_mem_cons.mp hstack).2⟩
  | unreadable hlocate _ =>
    have hlives := hcovers.lives _ (Option.isSome_of_eq_some hlocate)
    exact ⟨hcache.opened _, trivial, List.forall_mem_cons.mpr ⟨hlives, hstack⟩⟩
  | enter hlocate hcode =>
    have hlives := hcovers.lives _ (Option.isSome_of_eq_some hlocate)
    exact ⟨hcache.opened _, ⟨List.forall_mem_nil _, hcovers.spelled _ _ _ hlocate hcode⟩,
      List.forall_mem_cons.mpr ⟨hlives, hstack⟩⟩
  | @settle name outcome _ cache =>
    -- The name went on the stack attested when the module was entered.
    obtain ⟨hlives, hbelow⟩ := List.forall_mem_cons.mp hstack
    refine ⟨hcache.settled hlives outcome, ?_, hbelow⟩
    cases outcome with
    | error failure => exact trivial
    | ok _ => exact hcache.unfinished name
  | done | unresolved _ _ => exact ⟨hcache, trivial, hstack⟩
  | @quiet site s rest _ _ hquiet =>
    obtain ⟨hfirst, hrest⟩ := List.forall_mem_cons.mp htask.2
    exact attested_after (List.forall_mem_nil _) hrest hstack ((tree.scopeAt site).replay_quiet_attested hquiet
      (fun word hword => hfirst word ⟨_, .self, hword⟩) hcache)
  | @importing site _ _ _ _ _ _ hrequests =>
    obtain ⟨hfirst, hrest⟩ := List.forall_mem_cons.mp htask.2
    exact ⟨hcache, ⟨(tree.scopeAt site).requests_attested
      (fun word hword => hfirst word ⟨_, .self, hword⟩) hrequests, hrest⟩, hstack⟩
  | branches =>
    obtain ⟨hfirst, hrest⟩ := List.forall_mem_cons.mp htask.2
    have hblocks : realm.Knows _ := Statement.forall_branches fun _ => Realm.spelled_within hfirst
    exact ⟨hcache, ⟨List.forall_mem_nil _, hblocks.append hrest⟩, hstack⟩
  | attempt =>
    obtain ⟨hfirst, hrest⟩ := List.forall_mem_cons.mp htask.2
    obtain ⟨hbody, hblocks⟩ := Statement.forall_attempt fun _ => Realm.spelled_within hfirst
    exact ⟨hcache, ⟨List.forall_mem_nil _, hbody⟩, List.forall_mem_cons.mpr ⟨⟨hrest, hblocks⟩, hstack⟩⟩
  | passed =>
    obtain ⟨⟨hrest, -, helse, hfinish⟩, hbelow⟩ := List.forall_mem_cons.mp hstack
    exact ⟨hcache, ⟨List.forall_mem_nil _, helse.append (hfinish.append hrest)⟩, hbelow⟩
  | caught hcatch =>
    obtain ⟨⟨hrest, hblock, -, hfinish⟩, hbelow⟩ := List.forall_mem_cons.mp hstack
    rw [hcatch] at hblock
    exact ⟨hcache, ⟨List.forall_mem_nil _, Realm.Knows.append hblock (hfinish.append hrest)⟩, hbelow⟩
  | uncaught _ | refused => exact ⟨hcache, trivial, (List.forall_mem_cons.mp hstack).2⟩
  | @outside site request _ _ _ _ hext =>
    have houtside : tree.External request.module := by
      simpa [Scope.isExternal, scopeAt, scope, External] using hext
    exact attested_after (List.forall_mem_cons.mp htask.1).2 htask.2 hstack
      ((tree.scopeAt site).takeOutside_attested (hcovers.foreign _ houtside) hcache)
  | ask _ =>
    obtain ⟨hrequest, hrequests⟩ := List.forall_mem_cons.mp htask.1
    exact ⟨hcache, trivial, List.forall_mem_cons.mpr ⟨⟨hrequest, hrequests, htask.2⟩, hstack⟩⟩
  | @take site request _ _ _ _ _ =>
    obtain ⟨⟨hrequest, hrequests, hrest⟩, hbelow⟩ := List.forall_mem_cons.mp hstack
    exact attested_after hrequests hrest hbelow
      ((tree.scopeAt site).take_attested hrequest htask hcache)

theorem Steps.attested {s t : State} (h : tree.Steps s t) (hcovers : realm.Covers tree)
    (hs : s.Attested realm) : t.Attested realm := by
  induction h with
  | refl => exact hs
  | more step _ ih => exact ih (step.attested hcovers hs)

/-- **A load keeps the names attested**, whatever comes of it, and whatever tree of the realm the
tables were loaded from that it finds. -/
theorem load_attested {cache : Cache} (hcovers : realm.Covers tree) (hc : cache.Attested realm)
    (depth : Nat) (name : String) : (tree.load depth name cache).2.Attested realm :=
  ((tree.steps_load depth name [] cache).attested hcovers ⟨hc, trivial, List.forall_mem_nil _⟩).cache

end Tree

end ApiStubs.Python
