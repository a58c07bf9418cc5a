import ApiStubs.Proofs.Discipline
import ApiStubs.Python.Source
import Mathlib

/-!
# Proofs — Submodules — what a `from` import makes of them

`import a.b` loads `a.b`, and fails where that fails.  `from a import b` asks `a` for `b`; where `a`
does not bind it, it only looks whether a module `a.b` lives in the tree, and does not load it.  So
the two agree about a submodule that loads, and part ways about one that does not:
`Tree.importFrom_leaves_submodule`.
-/

namespace ApiStubs.Python

/-- The name that an import binds. -/
def Imported.target (imported : Imported) : String := imported.alias?.getD imported.written

/-- The module that a name of a `from` import stands for where the source does not bind it. -/
def Imported.submodule (imported : Imported) (source : String) : String :=
  Dotted.join source imported.written

/-- `from source import name`, under the name itself or another one. -/
def Statement.take (source : ImportSource) (imported : Imported) : Statement :=
  .importFrom source (.listed [imported])

/-! ### One name of a `from` import -/

namespace Scope

variable {scope : Scope} {cache after : Cache}

/-- A binding made by a module that is being replayed arrives in its table. -/
theorem bind_present {own : SymbolTable} (hown : cache.loading.find? scope.module = some own)
    (name : String) (binding : Binding) :
    scope.bind name binding cache = (.ok (), cache.put scope.module (own.bind name binding)) := by
  have hwrite := scope.write_present [fun table => table.bind name binding] hown
  rw [write_cons, write_nil, Importing.run_bind] at hwrite
  exact hwrite

theorem replay_take {source : ImportSource} {module : String} (imported : Imported)
    (hresolve : scope.resolve source = .ok module) :
    scope.replay (.take source imported) = scope.serve ⟨module, .name imported⟩ := by
  rw [replay_eq_requests scope rfl, Statement.take, requests, hresolve]
  exact bind_pure (scope.serve ⟨module, .name imported⟩)

/-- A name that the table of a module does not bind is looked up among the modules of the tree. -/
theorem serve_unbound {module : String} {imported : Imported} {table : SymbolTable}
    (hinside : scope.isExternal module = false)
    (hload : scope.load module cache = (.ok table, after))
    (hunbound : table.find? imported.written = none) :
    scope.serve ⟨module, .name imported⟩ cache
      = if scope.located (imported.submodule module) then
          scope.bind imported.target .ofModule after
        else (.error ⟨scope.module, .noName imported.written module⟩, after) := by
  have htaken : scope.taken module imported.written table
      = if scope.located (imported.submodule module) then .ok .ofModule
        else .error ⟨scope.module, .noName imported.written module⟩ := by
    rw [taken, hunbound]
    rfl
  rw [serve, hinside]
  simp only [Bool.false_eq_true, if_false, Importing.run_bind, hload, take, htaken,
    Importing.run_liftExcept]
  cases scope.located (imported.submodule module) <;> rfl

/-- A name that the table of a module binds is taken. -/
theorem serve_bound {module : String} {imported : Imported} {table : SymbolTable}
    (hload : scope.load module cache = (.ok table, after))
    (hbound : (table.find? imported.written).isSome) :
    (scope.serve ⟨module, .name imported⟩ cache).1 = .ok () := by
  obtain ⟨binding, hfind⟩ := Option.isSome_iff_exists.mp hbound
  have htaken : scope.taken module imported.written table = .ok binding := by rw [taken, hfind]
  rw [serve]
  cases scope.isExternal module with
  | true => rfl
  | false =>
    simp only [Bool.false_eq_true, if_false, Importing.run_bind, hload, take, htaken,
      Importing.run_liftExcept]
    rfl

/-- A `try` around one statement goes on with its `else` block or with a handler. -/
theorem replay_attempt (statement : Statement) (handlers : List Handler)
    (orElse finish : Option (List Statement)) (cache : Cache) :
    scope.replay (.attempt [statement] handlers orElse finish) cache
      = match scope.replay statement cache with
        | (.ok (), after) => (do scope.replayOptional orElse; scope.replayOptional finish) after
        | (.error failure, after) =>
          (do scope.replayHandler failure handlers; scope.replayOptional finish) after := by
  rw [replay, Importing.run_bind, Importing.run_outcome, replayAll_singleton]
  rcases scope.replay statement cache with ⟨failure | _, after⟩ <;> rfl

end Scope

/-! ### What becomes of a submodule -/

namespace Tree

variable {tree : Tree} {site : Site} {source : ImportSource} {imported : Imported} {module : String}
variable {own : SymbolTable} {cache after : Cache}

/-- The module at the site, with its own table so far, is being replayed; and the module that it
takes a name from is one of the tree, loads, and does not bind the name. -/
structure TakesUnbound (tree : Tree) (site : Site) (source : ImportSource) (imported : Imported)
    (module : String) (own : SymbolTable) (cache after : Cache) : Prop where
  replaying : cache.loading.find? site.name = some own
  resolved : (tree.scopeAt site).resolve source = .ok module
  inside : (tree.scopeAt site).isExternal module = false
  unbound : ∃ table, tree.load site.depth module cache = (.ok table, after)
    ∧ table.find? imported.written = none

/-- What the import comes to depends on the place of the submodule alone. -/
theorem TakesUnbound.replay_take
    (h : tree.TakesUnbound site source imported module own cache after) :
    (tree.scopeAt site).replay (.take source imported) cache
      = if (tree.locate (imported.submodule module)).isSome then
          (.ok (), after.put site.name (own.bind imported.target .ofModule))
        else (.error ⟨site.name, .noName imported.written module⟩, after) := by
  obtain ⟨table, hload, hunbound⟩ := h.unbound
  -- the load has left the modules being replayed as they were
  have hown : after.loading.find? site.name = some own := by
    have hgrows := tree.load_grows site.depth module cache
    rw [hload] at hgrows
    rw [hgrows.loading, h.replaying]
  have hbind : (tree.scopeAt site).bind imported.target .ofModule after
      = (.ok (), after.put site.name (own.bind imported.target .ofModule)) :=
    Scope.bind_present hown imported.target .ofModule
  rw [Scope.replay_take imported h.resolved, Scope.serve_unbound h.inside hload hunbound, hbind]
  rfl

/-- **A `from` import takes a submodule without loading it.**  Of a module that loads and does not
bind the name, the name is bound as a module if and only if the submodule lives in the tree, and a
`try` around the import goes on as if the submodule were there; otherwise the import fails, and a
handler may catch that.  So the import tells whether the submodule can be located and loaded if and
only if a submodule that can be located loads. -/
theorem importFrom_leaves_submodule
    (h : tree.TakesUnbound site source imported module own cache after) :
    ((tree.locate (imported.submodule module)).isSome →
      (tree.scopeAt site).replay (.take source imported) cache
        = (.ok (), after.put site.name (own.bind imported.target .ofModule))
      ∧ ∀ handlers orElse finish,
        (tree.scopeAt site).replay (.attempt [.take source imported] handlers orElse finish) cache
          = (do
              (tree.scopeAt site).replayOptional orElse
              (tree.scopeAt site).replayOptional finish)
            (after.put site.name (own.bind imported.target .ofModule)))
    ∧ (tree.locate (imported.submodule module) = none →
      (tree.scopeAt site).replay (.take source imported) cache
        = (.error ⟨site.name, .noName imported.written module⟩, after)
      ∧ ∀ handlers orElse finish,
        (tree.scopeAt site).replay (.attempt [.take source imported] handlers orElse finish) cache
          = (do
              (tree.scopeAt site).replayHandler ⟨site.name, .noName imported.written module⟩
                handlers
              (tree.scopeAt site).replayOptional finish) after)
    ∧ ((((tree.scopeAt site).replay (.take source imported) cache).1 = .ok ()
          ↔ (tree.locate (imported.submodule module)).isSome
            ∧ ∃ inner, (tree.load site.depth (imported.submodule module) after).1 = .ok inner)
      ↔ ((tree.locate (imported.submodule module)).isSome →
        ∃ inner, (tree.load site.depth (imported.submodule module) after).1 = .ok inner)) := by
  have hrun := h.replay_take
  cases hlocate : tree.locate (imported.submodule module) with
  | none =>
    rw [hlocate, Option.isSome_none, if_neg Bool.false_ne_true] at hrun
    refine ⟨nofun, fun _ => ⟨hrun, fun handlers orElse finish => ?_⟩, ?_⟩
    · rw [Scope.replay_attempt, hrun]
    · rw [hrun]
      simp
  | some location =>
    rw [hlocate, Option.isSome_some, if_pos rfl] at hrun
    refine ⟨fun _ => ⟨hrun, fun handlers orElse finish => ?_⟩, nofun, ?_⟩
    · rw [Scope.replay_attempt, hrun]
    · rw [hrun]
      simp

/-- A package with a module that cannot be read, and a module that takes it from the package. -/
def hollow : Tree where
  locate name :=
    if name = "pkg" then some ⟨⟨"pkg/__init__.py"⟩, true⟩
    else if name = "pkg.broken" then some ⟨⟨"pkg/broken.py"⟩, false⟩
    else if name = "app" then some ⟨⟨"app.py"⟩, false⟩
    else none
  code path :=
    if path = ⟨"pkg/__init__.py"⟩ then .ok []
    else if path = ⟨"app.py"⟩ then .ok [.take (.absolute "pkg") ⟨"broken", none⟩]
    else .error (.badSyntax path)

/-- The module while it is being replayed. -/
def hollowSite : Site := ⟨2, "app", ⟨⟨"app.py"⟩, false⟩⟩

theorem hollow_takes : hollow.TakesUnbound hollowSite (.absolute "pkg") ⟨"broken", none⟩ "pkg"
    (.named "app") (Cache.opened {} "app") ((hollow.load 2 "pkg" (Cache.opened {} "app")).2) where
  replaying := by decide +kernel
  resolved := rfl
  inside := by decide +kernel
  unbound := ⟨.named "pkg", by cbv, by decide +kernel⟩

/-- The name is bound, and a `try` does not run its handler, although the submodule cannot be
loaded. -/
theorem importFrom_leaves_submodule_hollow :
    ((hollow.scopeAt hollowSite).replay (.take (.absolute "pkg") ⟨"broken", none⟩)
      (Cache.opened {} "app")).1 = .ok ()
    ∧ ¬ ∃ inner, (hollow.load 2 "pkg.broken"
      (hollow.load 2 "pkg" (Cache.opened {} "app")).2).1 = .ok inner := by
  obtain ⟨hthere, -, -⟩ := importFrom_leaves_submodule hollow_takes
  have hlocated : (hollow.locate (Imported.submodule ⟨"broken", none⟩ "pkg")).isSome := by
    decide +kernel
  refine ⟨by rw [(hthere hlocated).1], ?_⟩
  rintro ⟨inner, hinner⟩
  have hfails : (hollow.load 2 "pkg.broken"
      (hollow.load 2 "pkg" (Cache.opened {} "app")).2).1
        = .error ⟨"pkg.broken", .badSyntax ⟨"pkg/broken.py"⟩⟩ := by cbv
  cases hfails.symm.trans hinner

end Tree

/-- A package with a module that is no Python, and three modules that import it. -/
def brokenShelf : Disk where
  entries := [
    (["pkg"], .directory),
    (["pkg", "__init__.py"], .file (.text "")),
    (["pkg", "broken.py"], .file (.text "def (:\n")),
    (["app.py"], .file (.text "from pkg import broken\n")),
    (["careful.py"], .file (.text
      "try:\n    from pkg import broken\nexcept ImportError:\n    broken = None\n")),
    (["direct.py"], .file (.text "import pkg.broken\n"))]
  workingDirectory := []

def brokenShelfLoader : Loader := { searchRoot := ⟨"."⟩ }

/-- The module cannot be loaded, and `import` says so; `from` binds it as a module. -/
theorem broken_submodule_taken :
    (Importer.load brokenShelf "app" brokenShelfLoader).1.map (fun table => table.find? "broken")
      = .ok (some .ofModule)
    ∧ (Importer.load brokenShelf "careful" brokenShelfLoader).1.map
        (fun table => table.find? "broken") = .ok (some .ofModule)
    ∧ (Importer.load brokenShelf "direct" brokenShelfLoader).1
      = .error ⟨"pkg.broken", .badSyntax ⟨"./pkg/broken.py"⟩⟩
    ∧ (Importer.load brokenShelf "pkg.broken"
        (Importer.load brokenShelf "app" brokenShelfLoader).2).1
      = .error ⟨"pkg.broken", .badSyntax ⟨"./pkg/broken.py"⟩⟩ := by
  decide +kernel

end ApiStubs.Python
