-- SUMMARY: The links between loaded collections stay in order, and what is refused changes nothing.
import RandomTables.Proofs.Engine.Caching
import RandomTables.Proofs.Registry.Aliases

/-!
# Loading, unloading and wiring

Loading fails in three places: the draft may not be a document, the document may have errors, and
its namespace may be taken. Wherever it fails, the engine is left as it was; and whatever succeeds
keeps namespaces apart and every wire on another loaded collection. An import that is not wired may
still lead somewhere, and to another collection than wiring it would.
-/
namespace RandomTables

namespace Engine

variable {e : Engine}

/-! ## Refused documents -/

theorem engine_addChecked {id : String} {sourcePath : Option String}
    {checked : Except Failure Document} {records : List LogRecord} {f : Failure}
    (h : (e.addChecked id sourcePath checked records).result = .error f) :
    (e.addChecked id sourcePath checked records).engine = e := by
  cases checked with
  | error _ => rfl
  | ok d =>
      change (e.add id d sourcePath).result = .error f at h
      change (e.add id d sourcePath).engine = e
      unfold Engine.add at h ⊢
      split
      · rfl
      · rename_i hadd
        rw [hadd] at h
        cases h

theorem engine_tryLoad {id : String} {draft : Draft} {sourcePath : Option String} {f : Failure}
    (h : (e.tryLoad id draft sourcePath).result = .error f) :
    (e.tryLoad id draft sourcePath).engine = e := by
  unfold tryLoad at h ⊢
  cases hd : Document.ofDraft draft with
  | error error =>
      dsimp only
      split <;> rfl
  | ok d =>
      simp only [hd] at h ⊢
      cases hresult : (e.loadDocument id d sourcePath).result with
      | ok d =>
          rw [hresult] at h
          cases hresult.symm.trans h
      | error error =>
          have hengine := engine_addChecked hresult
          split <;> exact hengine

/-! ## Links -/

/-- Loading keeps the links in order. -/
theorem Loads.linked {e' : Engine} (h : e.Loads e') (hr : e.registry.Distinct)
    (he : e.registry.Linked) : e'.registry.Linked := by
  cases h with
  | refused => exact he
  | added _ hadd => exact he.add hr hadd

/-- The links of a reachable engine are in order. -/
theorem Reachable.linked (he : e.Reachable) : e.registry.Linked := by
  induction he with
  | initial config => exact .empty
  | load he id draft sourcePath ih =>
      exact (loads_load _ id sourcePath draft).linked he.orderly.distinct ih
  | loadDocument he id d sourcePath ih =>
      exact (loads_loadDocument _ id sourcePath d).linked he.orderly.distinct ih
  | tryLoad he id draft sourcePath ih =>
      exact (loads_tryLoad _ id sourcePath draft).linked he.orderly.distinct ih
  | unload _ id ih =>
      unfold Engine.unload
      split
      · exact ih.remove id
      · exact ih
  | wireImports he paths ih => exact ih.wireAll he.orderly paths
  | inherit _ _ ih => exact ih
  | members _ _ _ ih => exact ih
  | evaluate _ collectionId request options ih =>
      rw [registry_evaluate]
      exact ih

/-- Wiring the imports wires an import, or else reports its path. -/
theorem wired_iff_not_reported (he : e.registry.Orderly) (paths : Assoc String) {c : Collection}
    (hc : c ∈ (e.wireImports paths).engine.registry.collections) {i : Import}
    (hi : i ∈ c.document.imports) :
    c.wired.has i.importAlias = true ↔
      i.path ∉ ((e.wireImports paths).result.get? c.id).getD [] := by
  obtain ⟨owner, howner, rfl⟩ := List.mem_map.1 hc
  have haliases := Document.nodup_aliases (he.sound owner howner)
  change ((e.registry.wire paths owner).1.get? i.importAlias).isSome = true ↔
    i.path ∉ ((e.registry.unresolved paths).get? owner.id).getD []
  rw [Registry.get?_wire haliases hi, Registry.reported_iff he.distinct howner hi]
  cases e.registry.wireTarget paths owner.id i with
  | some target => exact iff_of_true rfl (nomatch ·)
  | none => exact iff_of_false (nomatch ·) fun h => h rfl

/-- Whatever was loaded, unloaded and wired before, no two collections have the same namespace and
every wire leads from a declared alias to another loaded collection; wiring the imports wires or
reports each of them, and not both; and a load that fails changes nothing. -/
theorem links_of_reachable (he : e.Reachable) :
    e.registry.Linked ∧
    (∀ paths, ∀ c ∈ (e.wireImports paths).engine.registry.collections, ∀ i ∈ c.document.imports,
      (c.wired.has i.importAlias = true ↔
        i.path ∉ ((e.wireImports paths).result.get? c.id).getD [])) ∧
    ∀ id sourcePath f,
      (∀ draft, (e.load id draft sourcePath).result = .error f →
        (e.load id draft sourcePath).engine = e) ∧
      (∀ d, (e.loadDocument id d sourcePath).result = .error f →
        (e.loadDocument id d sourcePath).engine = e) ∧
      ∀ draft, (e.tryLoad id draft sourcePath).result = .error f →
        (e.tryLoad id draft sourcePath).engine = e := by
  refine ⟨he.linked, fun paths c hc i hi => wired_iff_not_reported he.orderly paths hc hi,
    fun id sourcePath f => ⟨fun draft h => ?_, fun d h => ?_, fun draft h => ?_⟩⟩
  · exact engine_addChecked h
  · exact engine_addChecked h
  · exact engine_tryLoad h

/-- Of two imports one is wired and the other one is reported, a third document is refused because
its namespace is taken, and unloading the second collection cuts the wire to it. -/
theorem links_of_two_imports :
    let plain (name : String) (imports : List Import) : Document := {
      metadata := { name, namespaceText := name }, imports
      tables := [.simple { id := "t", entries := [{ value := some "v" }] }] }
    let imports : List Import :=
      [{ path := "a", importAlias := "x" }, { path := "q", importAlias := "y" }]
    let e : Engine := ({} : Engine).afterAll [.loadDocument "c" (plain "c" imports) none,
      .loadDocument "d" (plain "a" []) none]
    let wired := e.wireImports []
    let refused := wired.engine.loadDocument "z" (plain "a" []) none
    let cut := (wired.engine.unload "d").engine
    (e.Reachable ∧ wired.result = [("c", ["q"])] ∧ refused.result.toOption.isNone = true ∧
      wired.engine.registry.collections.map (·.wired) = [[("x", "d")], []] ∧
      cut.registry.collections.map (·.wired) = [[]]) ∧
    (wired.engine.registry.Linked ∧ cut.registry.Linked) ∧
    (∀ c ∈ wired.engine.registry.collections, ∀ i ∈ c.document.imports,
      (c.wired.has i.importAlias = true ↔ i.path ∉ (wired.result.get? c.id).getD [])) ∧
    refused.engine = wired.engine := by
  intro plain imports e wired refused cut
  have he : e.Reachable :=
    .loadDocument (.loadDocument (.initial {}) "c" (plain "c" imports) none) "d" (plain "a" []) none
  have hwired : wired.engine.Reachable := .wireImports he []
  have hrefused : refused.result.toOption.isNone = true := by decide
  refine ⟨⟨he, by decide, hrefused, by decide, by decide⟩,
    ⟨(links_of_reachable hwired).1, (links_of_reachable (.unload hwired "d")).1⟩,
    (links_of_reachable he).2.1 [], ?_⟩
  cases hresult : refused.result with
  | ok d =>
      rw [hresult] at hrefused
      cases hrefused
  | error f => exact ((links_of_reachable hwired).2.2 "z" none f).2.1 _ hresult

/-! ## Looking imports up -/

/-- What an alias means before and after the imports are wired, what exports follow for it and what
wiring reports come to the same collection exactly if the path of the import is clear. -/
theorem imports_agree (he : e.Reachable) {c : Collection} (hc : c ∈ e.registry.collections)
    {i : Import} (hi : i ∈ c.document.imports) :
    (∃ target, e.registry.Agree c i target) ↔ e.registry.Clear c.id i.path :=
  Registry.agree_iff he.orderly he.linked hc hi

/-- The path is the namespace of one collection and the id of another one that comes later. -/
theorem imports_agree_on_first :
    let plain (name : String) (imports : List Import) : Document := {
      metadata := { name, namespaceText := name }, imports
      tables := [.simple { id := "t", entries := [{ value := some "v" }] }] }
    let i : Import := { path := "p", importAlias := "x" }
    let b : Collection := { id := "b", document := plain "p" [] }
    let p : Collection := { id := "p", document := plain "a" [] }
    let c : Collection := { id := "c", document := plain "c" [i] }
    let e : Engine := ({} : Engine).afterAll [.loadDocument "b" b.document none,
      .loadDocument "p" p.document none, .loadDocument "c" c.document none]
    (e.Reachable ∧ e.registry = ⟨[b, p, c]⟩ ∧ i ∈ c.document.imports) ∧
    ((∃ target, e.registry.Agree c i target) ↔ e.registry.Clear c.id i.path) ∧
    e.registry.Agree c i (some "b") := by
  intro plain i b p c e
  have he : e.Reachable :=
    .loadDocument (.loadDocument (.loadDocument (.initial {}) "b" b.document none) "p" p.document
      none) "c" c.document none
  have hb : ({} : Engine).after (.loadDocument "b" b.document none) = { registry := ⟨[b]⟩ } :=
    engine_loadDocument {} "b" none (by decide) rfl
  have hp : ({ registry := ⟨[b]⟩ } : Engine).after (.loadDocument "p" p.document none) =
      { registry := ⟨[b, p]⟩ } :=
    engine_loadDocument _ "p" none (by decide)
      (Option.isNone_iff_eq_none.1 (by decide))
  have hc : ({ registry := ⟨[b, p]⟩ } : Engine).after (.loadDocument "c" c.document none) =
      { registry := ⟨[b, p, c]⟩ } :=
    engine_loadDocument _ "c" none (by decide)
      (Option.isNone_iff_eq_none.1 (by decide))
  have hloaded : e.registry = ⟨[b, p, c]⟩ := by
    change ((({} : Engine).after (.loadDocument "b" _ none)).after (.loadDocument "p" _ none)
      |>.after (.loadDocument "c" _ none)).registry = _
    rw [hb, hp, hc]
  have hmem : c ∈ e.registry.collections := by
    rw [hloaded]
    exact .tail _ (.tail _ (.head _))
  have hclear : e.registry.Clear c.id i.path := by
    rw [hloaded]
    refine ⟨fun target htarget => ?_, fun named held hnamed hheld _ _ => ?_⟩
    · cases htarget
      decide
    · cases hnamed
      cases hheld
      exact ⟨[], [p, c], rfl, .head _⟩
  have hagree := imports_agree he hmem (.head _)
  obtain ⟨target, htarget⟩ := hagree.2 hclear
  have hb : target = some "b" := by
    rw [← htarget.unwired, hloaded]
    decide
  exact ⟨⟨he, hloaded, .head _⟩, hagree, hb ▸ htarget⟩

/-- Where the collection with the id comes first, wiring leads the alias away from it. Where an import
leads back to its own collection, it is reported, but exports follow it. -/
theorem imports_disagree :
    let plain (name : String) (imports : List Import) : Document := {
      metadata := { name, namespaceText := name }, imports
      tables := [.simple { id := "t", entries := [{ value := some "v" }] }] }
    let i (path : String) : Import := { path, importAlias := "x" }
    let e : Engine := ({} : Engine).afterAll [.loadDocument "p" (plain "a" []) none,
      .loadDocument "b" (plain "p" []) none, .loadDocument "c" (plain "c" [i "p"]) none,
      .loadDocument "d" (plain "d" [i "d"]) none]
    let leads (e : Engine) (id : String) :=
      (e.registry.get? id).bind fun c => e.registry.aliasedId c "x"
    let follows (id path : String) := (e.registry.get? id).bind fun c =>
      (e.registry.exportTarget ⟨c, [], i path⟩).map (·.id)
    e.Reachable ∧
    (leads e "c" = some "p" ∧ leads (e.wireImports []).engine "c" = some "b" ∧
      follows "c" "p" = some "b") ∧
    leads e "d" = none ∧ follows "d" "d" = some "d" ∧ (e.wireImports []).result = [("d", ["d"])] := by
  intro plain i e leads follows
  refine ⟨.loadDocument (.loadDocument (.loadDocument (.loadDocument (.initial {}) "p" _ none) "b" _
    none) "c" _ none) "d" _ none, ?_⟩
  decide

end Engine

end RandomTables
