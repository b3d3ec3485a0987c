-- SUMMARY: Remembered tables stay what inheritance makes of them, until imports are wired elsewhere.
import RandomTables.Proofs.Engine.Reachable
import RandomTables.Proofs.Evaluation.Balance
import RandomTables.Proofs.Registry.Wiring

/-!
# The memory of resolved tables

Loading and unloading forget all resolved tables, and requests add tables that the registry makes.
Wiring the imports forgets nothing, although it may lead a reference elsewhere. So what is remembered
is what would be resolved anew as long as no wiring moves a reference that a remembered table depends
on, and no longer.
-/
namespace RandomTables

namespace Registry

open Simulation in
/-- A registry upholds that the tables that roll are held, or made of such and remembered. -/
theorem upholds_inherits {r : Registry} (hr : r.Distinct) :
    r.Upholds anything r.Remembers r.Known where
  made := (registry_anything r).made
  held := .inl
  grows hlater ht := ht.grows hlater
  inherit config collectionId t _ := by
    refine (inherit_keeps (tracks_inherits hr) t collectionId).mono fun tables resolved h => ?_
    obtain ⟨held, -, hmade⟩ := h
    exact ⟨simple_anything resolved, .inr ⟨held, hmade⟩⟩

end Registry

namespace Engine

/-! ## Histories -/

/-- What can be done with an engine. -/
inductive Action where
  | load (id : String) (draft : Draft) (sourcePath : Option String)
  | loadDocument (id : String) (d : Document) (sourcePath : Option String)
  | tryLoad (id : String) (draft : Draft) (sourcePath : Option String)
  | unload (id : String)
  | wireImports (paths : Assoc String)
  | inherit (ref collectionId : String)
  | members (ref collectionId : String)
  | evaluate (collectionId : String) (request : Request) (options : Options)

/-- The engine after an action. -/
def after (e : Engine) : Action → Engine
  | .load id draft sourcePath => (e.load id draft sourcePath).engine
  | .loadDocument id d sourcePath => (e.loadDocument id d sourcePath).engine
  | .tryLoad id draft sourcePath => (e.tryLoad id draft sourcePath).engine
  | .unload id => (e.unload id).engine
  | .wireImports paths => (e.wireImports paths).engine
  | .inherit ref collectionId =>
    match e.registry.resolve ref collectionId with
    | .ok ⟨.table (.simple t), owner⟩ => (e.inherit t owner).engine
    | _ => e
  | .members ref collectionId =>
    match e.registry.resolve ref collectionId with
    | .ok ⟨.table (.collection t), owner⟩ => (e.members t owner).engine
    | _ => e
  | .evaluate collectionId request options => (e.evaluate collectionId request options).engine

/-- The engine after some actions, one after another. -/
def afterAll (e : Engine) (actions : List Action) : Engine := actions.foldl after e

/-- Wiring the imports leaves every reference where it leads that a remembered table depends on. -/
def Unmoved (e : Engine) (paths : Assoc String) : Prop :=
  ∀ collectionId t, e.registry.Holds collectionId t →
    (e.resolved.lookup (collectionId, t.id)).isSome →
    ∀ owner parent, e.registry.Extends collectionId t owner parent →
      (parent.parent.getD "").isEmpty = false →
      (e.registry.wireAll paths).find (parent.parent.getD "") owner =
        e.registry.find (parent.parent.getD "") owner

/-- Whenever imports are wired, no reference is moved that a remembered table depends on. -/
def Careful (e : Engine) : List Action → Prop
  | [] => True
  | action :: rest =>
    (∀ paths, action = .wireImports paths → e.Unmoved paths) ∧ (e.after action).Careful rest

/-- An engine with the same collections that has resolved nothing yet. -/
def forgetful (e : Engine) : Engine := { e with resolved := [] }

variable {e : Engine}

/-- Where nothing is remembered there is no reference to move. -/
theorem unmoved_of_forgotten (h : e.resolved = []) (paths : Assoc String) : e.Unmoved paths := by
  intro _ _ _ hlookup
  rw [h] at hlookup
  cases hlookup

theorem unmoved_of_same {paths : Assoc String} (h : e.registry.wireAll paths = e.registry) :
    e.Unmoved paths := by
  intro _ _ _ _ _ _ _ _
  rw [h]

theorem registry_inherit (e : Engine) (ref collectionId : String) :
    (e.after (.inherit ref collectionId)).registry = e.registry := by
  rw [after]
  split <;> rfl

/-! ## Every action -/

theorem Reachable.after (he : e.Reachable) (action : Action) : (e.after action).Reachable := by
  cases action with
  | load id draft sourcePath => exact he.load id draft sourcePath
  | loadDocument id d sourcePath => exact he.loadDocument id d sourcePath
  | tryLoad id draft sourcePath => exact he.tryLoad id draft sourcePath
  | unload id => exact he.unload id
  | wireImports paths => exact he.wireImports paths
  | inherit ref collectionId =>
      rw [Engine.after]
      split
      · rename_i hresolve
        exact he.inherit hresolve
      · exact he
  | members ref collectionId =>
      rw [Engine.after]
      split
      · exact he.members _ _
      · exact he
  | evaluate collectionId request options => exact he.evaluate collectionId request options

/-- What an engine remembers is what inheritance makes of its tables. -/
def Faithful (e : Engine) : Prop := e.registry.Remembers e.resolved

namespace Faithful

theorem forgetful (e : Engine) : e.forgetful.Faithful := Registry.remembers_nil

/-- With a faithful memory inheriting gives what inheritance makes of a table. -/
theorem inherits (he : e.Faithful) (hr : e.registry.Distinct) {collectionId : String}
    {t resolved : SimpleTable} (ht : e.registry.Holds collectionId t)
    (h : (e.inherit t collectionId).result = .ok resolved) :
    e.registry.Inherits collectionId t resolved :=
  Registry.inherits_of_inherit (s := ⟨e.resolved, []⟩) hr ht he h

theorem loads (he : e.Faithful) {e' : Engine} (h : e.Loads e') : e'.Faithful := by
  cases h with
  | refused => exact he
  | added _ _ => exact Registry.remembers_nil

theorem resolving {α : Type} {P : ResolvedTables → α → Prop} (he : e.Faithful) {x : Resolve α}
    (hx : x.Keeps e.registry.Remembers (fun _ => True) P) : (e.resolving x).engine.Faithful :=
  (hx ⟨e.resolved, []⟩ he trivial).1

theorem wireImports (he : e.Faithful) {paths : Assoc String} (h : e.Unmoved paths) :
    (e.wireImports paths).engine.Faithful := by
  have hmemory : e.registry.Remembers e.resolved := he
  constructor
  · intro collectionId t resolved ht hlookup
    have hheld : e.registry.Holds collectionId t := Registry.holds_wireAll ht
    have hinherits := hmemory.inherits hheld hlookup
    exact hinherits.of_chain (h collectionId t hheld (Option.isSome_of_eq_some hlookup))
  · intro collectionId t owner parent ht hremembered hsome hfind
    have hheld : e.registry.Holds collectionId t := Registry.holds_wireAll ht
    have hstill := h collectionId t hheld hremembered collectionId t .refl hsome
    exact hmemory.closed hheld hremembered hsome (hstill ▸ hfind)

/-- Every action keeps the memory faithful, unless it moves references that the memory depends on. -/
theorem after (he : e.Faithful) (hr : e.registry.Distinct) {action : Action}
    (hwiring : ∀ paths, action = .wireImports paths → e.Unmoved paths) :
    (e.after action).Faithful := by
  have htracks := Registry.tracks_inherits hr
  cases action with
  | load id draft sourcePath => exact he.loads (loads_load e id sourcePath draft)
  | loadDocument id d sourcePath => exact he.loads (loads_loadDocument e id sourcePath d)
  | tryLoad id draft sourcePath => exact he.loads (loads_tryLoad e id sourcePath draft)
  | unload id =>
      rw [Engine.after, Engine.unload]
      split
      · exact Registry.remembers_nil
      · exact he
  | wireImports paths => exact he.wireImports (hwiring paths rfl)
  | inherit ref collectionId =>
      rw [Engine.after]
      split
      · rename_i hresolve
        have hheld := Registry.holds_of_find (Registry.find_of_resolve hresolve)
        exact he.resolving ((Registry.inherit_keeps htracks _ _).of_imp fun _ _ => .inl hheld)
      · exact he
  | members ref collectionId =>
      rw [Engine.after]
      split
      · exact he.resolving
          (Registry.members_keeps htracks (Q := fun _ _ => True) (fun _ => trivial) _ _ _)
      · exact he
  | evaluate collectionId request options =>
      have hafter := resolved_evaluate (Material.lenient_ofNames _) (fun _ => trivial)
        (Registry.upholds_inherits hr) he collectionId request options
      rw [Engine.after, Faithful, registry_evaluate]
      exact hafter

/-- So does a whole history. -/
theorem afterAll (he : e.Reachable) (hfaithful : e.Faithful) {history : List Action}
    (hcareful : e.Careful history) :
    (e.afterAll history).Reachable ∧ (e.afterAll history).Faithful := by
  induction history generalizing e with
  | nil => exact ⟨he, hfaithful⟩
  | cons action rest ih =>
      exact ih (he.after action) (hfaithful.after he.orderly.distinct hcareful.1) hcareful.2

end Faithful

/-- After any history since the tables were last forgotten in which no wiring moves a reference that
a remembered table depends on, inheriting gives the same table with and without the memory. -/
theorem inherit_of_forgetful (he : e.Reachable) (hforgot : e.resolved = [])
    {history : List Action} (hcareful : e.Careful history) {c : Collection}
    (hc : c ∈ (e.afterAll history).registry.collections) {t : SimpleTable}
    (ht : .simple t ∈ c.document.tables) {warm fresh : SimpleTable}
    (hwarm : ((e.afterAll history).inherit t c.id).result = .ok warm)
    (hfresh : ((e.afterAll history).forgetful.inherit t c.id).result = .ok fresh) :
    warm = fresh := by
  have hfaithful : e.Faithful := by
    rw [Faithful, hforgot]
    exact Registry.remembers_nil
  obtain ⟨hafter, hmemory⟩ := hfaithful.afterAll he hcareful
  have hdistinct := hafter.orderly.distinct
  have hheld := hafter.orderly.holds hc ht
  have hremembered := hmemory.inherits hdistinct hheld hwarm
  have hanew := (Faithful.forgetful (e.afterAll history)).inherits hdistinct hheld hfresh
  exact hremembered.unique hanew

/-- A table of another collection is inherited, and again after the imports were wired once more. -/
theorem inherit_of_forgetful_wired_again :
    let origin : Document := {
      metadata := { name := "", namespaceText := "a" }
      tables := [.simple { id := "t", entries := [{ value := some "v" }] }] }
    let heir : SimpleTable := { id := "u", parent := some "x.t" }
    let document : Document := {
      metadata := { name := "", namespaceText := "c" }, tables := [.simple heir]
      imports := [{ path := "p", importAlias := "x" }] }
    let e : Engine :=
      ((({} : Engine).loadDocument "a" origin none).engine.loadDocument "c" document none).engine
    let history : List Action :=
      [.wireImports [("p", "a")], .inherit "u" "c", .wireImports [("p", "a")]]
    (e.Reachable ∧ e.resolved = [] ∧ e.Careful history ∧
      (e.afterAll history).resolved.length = 2) ∧
    ∃ resolved, ((e.afterAll history).inherit heir "c").result = .ok resolved ∧
      ((e.afterAll history).forgetful.inherit heir "c").result = .ok resolved := by
  intro origin heir document e history
  let a : Collection := { id := "a", document := origin }
  let c : Collection := { id := "c", document }
  have he : e.Reachable :=
    .loadDocument (.loadDocument (.initial {}) "a" origin none) "c" document none
  have hloaded : e = { registry := ⟨[a, c]⟩ } := by
    have horigin : (({} : Engine).loadDocument "a" origin none).engine = { registry := ⟨[a]⟩ } :=
      engine_loadDocument _ _ _ (by decide +kernel) rfl
    have hdocument := engine_loadDocument { registry := ⟨[a]⟩ } "c" none (d := document)
      (by decide +kernel) (Option.isNone_iff_eq_none.1 (by decide +kernel))
    change (Engine.loadDocument _ "c" document none).engine = _
    rw [horigin, hdocument]
    simp only [Registry.place]
    rw [if_neg (by decide)]
  have hforgot : e.resolved = [] := by rw [hloaded]
  have hwired : ((e.after (.wireImports [("p", "a")])).after (.inherit "u" "c")).registry =
      e.registry.wireAll [("p", "a")] := registry_inherit _ _ _
  have hcareful : e.Careful history := by
    refine ⟨fun paths _ => unmoved_of_forgotten hforgot paths, by rintro _ ⟨⟩,
      fun paths h => unmoved_of_same ?_, trivial⟩
    cases h
    rw [hwired, Registry.wireAll_wireAll]
  have hc : e.registry.rewired [("p", "a")] c ∈ (e.afterAll history).registry.collections := by
    change _ ∈ (Registry.wireAll _ _).collections
    rw [hwired, Registry.wireAll_wireAll]
    refine List.mem_map_of_mem (f := e.registry.rewired _) ?_
    rw [hloaded]
    exact .tail _ (.head _)
  have hwarm : ((e.afterAll history).inherit heir "c").result.toOption.isSome := by
    decide +kernel
  have hfresh : ((e.afterAll history).forgetful.inherit heir "c").result.toOption.isSome := by
    decide +kernel
  cases hw : ((e.afterAll history).inherit heir "c").result with
  | error _ =>
      rw [hw] at hwarm
      cases hwarm
  | ok warm =>
      cases hf : ((e.afterAll history).forgetful.inherit heir "c").result with
      | error _ =>
          rw [hf] at hfresh
          cases hfresh
      | ok fresh =>
          have hsame := inherit_of_forgetful he hforgot hcareful hc (.head _) hw hf
          exact ⟨⟨he, hforgot, hcareful, by decide +kernel⟩, warm, rfl, by rw [hsame]⟩

/-- A wiring that leads an alias to another collection leaves behind what was inherited from the one
before. -/
theorem inherit_stale_of_moved_alias :
    let origin (id text : String) : Document := {
      metadata := { name := id, namespaceText := id }
      tables := [.simple { id := "t", entries := [{ value := some text }] }] }
    let heir : SimpleTable := { id := "u", parent := some "x.t" }
    let document : Document := {
      metadata := { name := "n", namespaceText := "c" }, tables := [.simple heir]
      imports := [{ path := "p", importAlias := "x" }] }
    let e : Engine := ({} : Engine).afterAll [
      .loadDocument "a" (origin "a" "old") none, .loadDocument "b" (origin "b" "new") none,
      .loadDocument "c" document none,
      .wireImports [("p", "a")], .inherit "u" "c", .wireImports [("p", "b")]]
    (∃ c ∈ e.registry.collections, c.id = "c" ∧ .simple heir ∈ c.document.tables) ∧
    ∃ warm fresh, (e.inherit heir "c").result = .ok warm ∧
      (e.forgetful.inherit heir "c").result = .ok fresh ∧ warm ≠ fresh := by
  intro origin heir document e
  let a : Collection := { id := "a", document := origin "a" "old" }
  let b : Collection := { id := "b", document := origin "b" "new" }
  let c : Collection := { id := "c", document }
  have hloaded : ((((({} : Engine).after (.loadDocument "a" (origin "a" "old") none)).after
      (.loadDocument "b" (origin "b" "new") none))).after (.loadDocument "c" document none)) =
      { registry := ⟨[a, b, c]⟩ } := by
    have ha := engine_loadDocument {} "a" none (d := origin "a" "old") (by decide +kernel) rfl
    have hb := engine_loadDocument { registry := ⟨[a]⟩ } "b" none (d := origin "b" "new")
      (by decide +kernel) (Option.isNone_iff_eq_none.1 (by decide +kernel))
    have hc := engine_loadDocument { registry := ⟨[a, b]⟩ } "c" none (d := document)
      (by decide +kernel) (Option.isNone_iff_eq_none.1 (by decide +kernel))
    have hab : Registry.place b [a] = [a, b] := by
      rw [Registry.place, if_neg (by decide)]
      rfl
    have habc : Registry.place c [a, b] = [a, b, c] := by
      rw [Registry.place, if_neg (by decide), Registry.place, if_neg (by decide)]
      rfl
    simp only [after]
    rw [ha]
    change ((Engine.loadDocument { registry := ⟨[a]⟩ } "b" _ none).engine.loadDocument _ _ _).engine = _
    rw [hb]
    change (Engine.loadDocument { registry := ⟨Registry.place b [a]⟩ } "c" _ none).engine = _
    rw [hab, hc]
    change ({ registry := ⟨Registry.place c [a, b]⟩ } : Engine) = _
    rw [habc]
  have hregistry : e.registry =
      ((Registry.mk [a, b, c]).wireAll [("p", "a")]).wireAll [("p", "b")] := by
    have hwired := registry_inherit ((((({} : Engine).after (.loadDocument "a" (origin "a" "old")
      none)).after (.loadDocument "b" (origin "b" "new") none)).after
      (.loadDocument "c" document none)).after (.wireImports [("p", "a")])) "u" "c"
    change Registry.wireAll _ _ = _
    rw [hwired, hloaded]
    rfl
  have hwarm : ((e.inherit heir "c").result.toOption.map fun t => t.entries.map (·.value)) =
      some [some "old"] := by decide +kernel
  have hfresh : ((e.forgetful.inherit heir "c").result.toOption.map fun t =>
      t.entries.map (·.value)) = some [some "new"] := by decide +kernel
  refine ⟨?_, ?_⟩
  · rw [hregistry]
    refine ⟨_, List.mem_map_of_mem (List.mem_map_of_mem (.tail _ (.tail _ (.head _)))), rfl, ?_⟩
    exact .head _
  · cases hw : (e.inherit heir "c").result with
    | error _ =>
        rw [hw] at hwarm
        cases hwarm
    | ok warm =>
        cases hf : (e.forgetful.inherit heir "c").result with
        | error _ =>
            rw [hf] at hfresh
            cases hfresh
        | ok fresh =>
            refine ⟨warm, fresh, rfl, rfl, ?_⟩
            rintro rfl
            rw [hw] at hwarm
            rw [hf] at hfresh
            exact absurd (hwarm.symm.trans hfresh) (by decide)

end Engine

end RandomTables
