-- SUMMARY: Entries are evaluated at home, unless an inherited text means something else elsewhere.
import Mathlib
import RandomTables.Proofs.Engine.Caching
import RandomTables.Proofs.Evaluation.AtHome

/-!
# Evaluating entries at home

An engine evaluates every entry of a table in the collection of the table that was rolled. Beside it
an engine is run that evaluates each text where it was written. With a faithful memory both give the
same replies as long as all inherited texts mean the same in both collections.
-/
namespace RandomTables

namespace Simulation

/-- The simulation of an evaluation by itself with a faithful memory. -/
abbrev faithful (env : Surroundings) : Simulation :=
  keeping env .same anything env.registry.Remembers env.registry.Known fun _ _ => True

section

variable {env : Surroundings} (hr : env.registry.Distinct)
include hr

theorem levelled_faithful : (faithful env).Levelled env.registry.Remembers env.registry.Known
    fun _ _ => True :=
  levelled_keeping (Registry.upholds_inherits hr) (Material.lenient_ofNames _) (fun _ => trivial)
    fun _ _ _ _ _ => trivial

/-- Contexts in place of each other are the same, with a faithful memory of what is being rolled. -/
theorem eq_of_faithful {w : Nesting} {c d : Context} (hm : (faithful env).Match w c d) :
    d = c ∧ env.registry.Remembers c.resolved ∧
      ∀ f ∈ c.frames, env.registry.Known c.resolved f.collectionId f.table := by
  obtain ⟨v, hv, -⟩ := hm.twin
  exact ⟨(levelled_faithful hr).eq_of_traced rfl hm, hv.resolved.2, hv.recalled⟩

/-- Evaluations agree with those at home, if all that is inherited means the same there. -/
theorem answers_atHome (hdomestic : env.registry.Domestic) (fuel : Nat) :
    (faithful env).Answers (Eval.answerWithin env fuel) (Eval.answerAtHome env fuel) := by
  have hlevelled := levelled_faithful hr
  induction fuel with
  | zero => exact hlevelled.exhausted
  | succ fuel ih =>
      have htravels : Eval.Travels env (Eval.answerAtHome env fuel) :=
        Eval.travels_answerAtHome fuel
      have hdescribing : (faithful env).Answers (Eval.answerWithin env fuel)
          (Eval.describing env (Eval.answerAtHome env fuel)) := by
        refine ⟨ih.roll, fun text collectionId hw ht c d hm => ?_, ih.shared, ih.harboured⟩
        obtain ⟨rfl, -, hframes⟩ := eq_of_faithful hr hm
        rw [Eval.describing_apply htravels hr hdomestic hframes]
        exact ih.pattern text collectionId hw ht d d hm
      have honce := hlevelled.once ih
      refine ⟨fun target target' excluded hw ht c d hm => ?_, (hlevelled.once hdescribing).pattern,
        honce.shared, honce.harboured⟩
      obtain ⟨rfl, hremembers, -⟩ := eq_of_faithful hr hm
      have hknown : ∀ t, target'.definition = .table (.simple t) →
          env.registry.Known d.resolved target'.collectionId t := by
        intro t hdefinition
        cases ht with
        | template _ => cases hdefinition
        | table ht =>
            cases ht with
            | simple ht hrecalled =>
                cases hdefinition
                obtain rfl : _ = t := ht.alike.symm
                exact hm.recalled hrecalled
            | composite _ => cases hdefinition
            | collection _ => cases hdefinition
      have hroll : Eval.answerAtHome env (fuel + 1) (.roll target' excluded) d =
          Eval.answerOnce env (Eval.answerAtHome env fuel) (.roll target' excluded) d := by
        refine (Eval.rollWith_congr hr (fun t s hmade hs => ?_) hremembers hknown excluded).trans
          (congrFun (Eval.rollWith_outcomeOf target' excluded) d)
        exact Eval.outcomeAtHome_eq htravels (hdomestic _ _ hmade) hs
      rw [hroll]
      exact honce.roll target target' excluded hw ht d d hm

end

end Simulation

namespace Engine

open Simulation

variable (e : Engine) (collectionId : String) (request : Request) (options : Options)

/-- Evaluates a request in a loaded collection, with entries at home. -/
def runAtHome (c : Collection) : (List Segment × Except Failure Outcome) × Context :=
  let env := e.surroundings c
  (request.complete env (Eval.answerAtHome env (env.callBound options.shared)) c.document
    options.shared).run (e.freshContext request options c.document.statics.keys)

/-- Evaluates a request in a collection, with entries at home. -/
def evaluateAtHome : Reply (Except Failure Report) :=
  match e.registry.loaded collectionId with
  | .error error =>
    e.reply collectionId request [] (.error (.resolution error)) (e.freshContext request options [])
  | .ok c =>
    let ((segments, result), context) := e.runAtHome request options c
    e.reply collectionId request segments result context

variable {e}

theorem runAtHome_eq (hr : e.registry.Distinct) (hfaithful : e.Faithful)
    (hdomestic : e.registry.Domestic) (c : Collection) :
    e.runAtHome request options c = e.run c request options := by
  have hdistinct : (e.surroundings c).registry.Distinct := hr
  have hlevelled := levelled_faithful hdistinct
  have hanswers := answers_atHome hdistinct hdomestic ((e.surroundings c).callBound options.shared)
  have hstart := hlevelled.bare (c := e.freshContext request options c.document.statics.keys)
    (d := e.freshContext request options c.document.statics.keys) rfl rfl rfl rfl hfaithful
  have hruns := hlevelled.complete hanswers trivial rfl rfl request c.document options.shared _ _
    hstart
  rcases hruns with ⟨_, _, h⟩ | ⟨-, hresult, v, -, hmatch⟩
  · exact h.elim
  · exact Prod.ext hresult (hlevelled.eq_of_traced rfl hmatch)

/-- Every text that a table inherits is written where it is at home. With a faithful memory an engine
replies as if each of them were evaluated there, if all names in those that come from other
collections mean the same in the collection of the table. -/
theorem evaluate_at_home (he : e.Reachable) :
    (∀ collectionId held resolved, e.registry.Holds collectionId held →
      e.registry.Inherits collectionId held resolved →
      ∀ entry ∈ resolved.entries, e.registry.Housed collectionId resolved entry) ∧
    (e.Faithful → e.registry.Domestic → ∀ collectionId request options,
      e.evaluate collectionId request options = e.evaluateAtHome collectionId request options) := by
  have hdistinct := he.orderly.distinct
  refine ⟨fun collectionId held resolved hheld hinherits entry hentry =>
    hinherits.housed hdistinct hheld hentry, fun hfaithful hdomestic collectionId request options => ?_⟩
  unfold evaluate evaluateAtHome
  cases e.registry.loaded collectionId with
  | error _ => rfl
  | ok c => dsimp only; rw [runAtHome_eq request options hdistinct hfaithful hdomestic]

/-- A table inherits an entry of another collection, and what the entry refers to by its namespace is
the same in both. -/
theorem evaluate_at_home_of_qualified_reference :
    let plain (id text : String) : SimpleTable :=
      { id, entries := [{ id := some "e", value := some text }] }
    let reference := "\x7b\x7ba.w\x7d\x7d"
    let origin : Document := {
      metadata := { name := "a", namespaceText := "a" }
      tables := [.simple (plain "t" reference), .simple (plain "w" "from a")] }
    let heir : SimpleTable := {
      id := "u", parent := some "x.t", entries := [{ value := some "\x7b\x7bv\x7d\x7d" }] }
    let document : Document := {
      metadata := { name := "n", namespaceText := "c" }
      tables := [.simple heir, .simple (plain "v" "from c")]
      imports := [{ path := "p", importAlias := "x" }] }
    let e : Engine := ({} : Engine).afterAll [.loadDocument "a" origin none,
      .loadDocument "c" document none, .wireImports [("p", "a")]]
    let options (draw : Nat) : Options := { source := .ofDraws [draw, 0] }
    let text (draw : Nat) :=
      (e.evaluate "c" (.roll "u") (options draw)).result.toOption.map (·.text)
    (e.Reachable ∧ e.Faithful ∧ e.registry.Domestic) ∧
    text 0 = some "from a" ∧ text (2 ^ 52) = some "from c" ∧
    (∀ draw, e.evaluate "c" (.roll "u") (options draw) =
      e.evaluateAtHome "c" (.roll "u") (options draw)) ∧
    ∀ resolved, e.registry.Inherits "c" heir resolved →
      ∀ entry ∈ resolved.entries, e.registry.Housed "c" resolved entry := by
  intro plain reference origin heir document e options text
  let a : Collection := { id := "a", document := origin }
  let c : Collection := { id := "c", document, wired := [("x", "a")] }
  have hreachable : e.Reachable :=
    .wireImports (.loadDocument (.loadDocument (.initial {}) "a" origin none) "c" document none) _
  have hloaded : e = { registry := ⟨[a, c]⟩ } := by
    have horigin : (({} : Engine).loadDocument "a" origin none).engine = { registry := ⟨[a]⟩ } :=
      engine_loadDocument _ _ _ (by decide +kernel) rfl
    have hdocument := engine_loadDocument { registry := ⟨[a]⟩ } "c" none (d := document)
      (by decide +kernel) (Option.isNone_iff_eq_none.1 (by decide +kernel))
    change (((Engine.loadDocument _ "a" origin none).engine.loadDocument
      "c" document none).engine.wireImports _).engine = _
    rw [horigin, hdocument]
    simp only [Registry.place]
    rw [if_neg (by decide)]
    rfl
  have hregistry : e.registry = ⟨[a, c]⟩ := by rw [hloaded]
  have hdistinct := hreachable.orderly.distinct
  have hheir : e.registry.Holds "c" heir := by
    rw [hregistry]
    exact ⟨c, .tail _ (.head _), rfl, rfl⟩
  have hfaithful : e.Faithful := by
    rw [hloaded]
    exact Registry.remembers_nil
  have hreference : e.registry.Portable "a" "c" reference := by
    have hspans : Span.find reference.toList = [⟨reference.toList, "a.w".toList, 0, 7⟩] := by cbv
    have hparse : Directive.parse "a.w".toList = .ok (.act "a.w" (.table "a.w" none)) := by
      with_unfolding_all rfl
    intro span hspan d hd
    rw [hspans, List.mem_singleton] at hspan
    rw [hspan, hparse] at hd
    cases hd
    rw [hregistry]
    exact ⟨rfl, rfl⟩
  have hfamiliar : ∀ t, e.registry.Inherits "c" heir t → e.registry.Familiar "c" t := by
    intro t hinherits
    have hblank : Span.find ("" : String).toList = [] := by cbv
    have hid : t.id = "u" := hinherits.id_eq
    obtain rfl : t = heir.laidOver (plain "t" reference).identified := by
      refine hinherits.unique ?_
      have hfind : e.registry.find "x.t" "c" =
          .ok (some ⟨.table (.simple (plain "t" reference)), "a"⟩) := by
        rw [hregistry]
        cbv
      exact .laid rfl hfind (.own rfl)
    have hentries : (heir.laidOver (plain "t" reference).identified).entries =
        [{ id := some "e", value := some reference },
          { id := some "u000", value := some "\x7b\x7bv\x7d\x7d" }] := by cbv
    refine ⟨?_, ?_, ?_⟩
    all_goals rw [hentries]
    · have hhome : (e.registry.homesOf "c" "u" { id := some "e", value := some reference }).value =
          "a" := by
        rw [hregistry]
        decide +kernel
      have hown : (e.registry.homesOf "c" "u"
          { id := some "u000", value := some "\x7b\x7bv\x7d\x7d" }).value = "c" := by
        rw [hregistry]
        decide +kernel
      rw [hid]
      refine List.forall_mem_cons.2 ⟨?_, List.forall_mem_singleton.2 ?_⟩
      · rw [hhome]
        exact hreference
      · rw [hown]
        exact e.registry.portable_self _ _
    · have hnone := fun here => e.registry.portable_of_plain here "c" hblank
      exact List.forall_mem_cons.2 ⟨hnone _, List.forall_mem_singleton.2 (hnone _)⟩
    · exact List.forall_mem_cons.2 ⟨(fun _ h => by cases h),
        List.forall_mem_singleton.2 fun _ h => by cases h⟩
  have hdomestic : e.registry.Domestic := by
    rintro collectionId t ⟨held, hheld, hinherits⟩
    by_cases hnone : (held.parent.getD "").isEmpty = true
    · exact Registry.familiar_of_own hdistinct hheld hnone hinherits.id_eq
    · obtain ⟨owner, howner, rfl, htable⟩ := hheld
      have hmem := List.mem_of_find?_eq_some htable
      rw [hregistry] at howner
      rcases List.mem_pair.1 howner with rfl | rfl
      · rcases List.mem_pair.1 hmem with h | h
        · cases h
          exact absurd rfl hnone
        · cases h
          exact absurd rfl hnone
      · rcases List.mem_pair.1 hmem with h | h
        · cases h
          exact hfamiliar t hinherits
        · cases h
          exact absurd rfl hnone
  have hhome := evaluate_at_home hreachable
  exact ⟨⟨hreachable, hfaithful, hdomestic⟩, by decide +kernel, by decide +kernel,
    fun draw => hhome.2 hfaithful hdomestic "c" (.roll "u") (options draw),
    fun resolved h => hhome.1 "c" heir resolved hheir h⟩

/-- What an inherited entry refers to by a bare id is rolled from the collection of the child, where
another table has that id. -/
theorem evaluate_away_from_home :
    let plain (id text : String) : SimpleTable := { id, entries := [{ value := some text }] }
    let origin : Document := {
      metadata := { name := "a", namespaceText := "a" }
      tables := [.simple (plain "t" "\x7b\x7bw\x7d\x7d"), .simple (plain "w" "from a")] }
    let heir : SimpleTable := { id := "u", parent := some "x.t" }
    let document : Document := {
      metadata := { name := "n", namespaceText := "c" }
      tables := [.simple heir, .simple (plain "w" "from c")]
      imports := [{ path := "p", importAlias := "x" }] }
    let e : Engine := ({} : Engine).afterAll [.loadDocument "a" origin none,
      .loadDocument "c" document none, .wireImports [("p", "a")]]
    let options : Options := { source := .ofDraws [0] }
    let away := (e.evaluate "c" (.roll "u") options).result
    let home := (e.evaluateAtHome "c" (.roll "u") options).result
    (e.Reachable ∧ e.Faithful) ∧
    away.toOption.map (·.text) = some "from c" ∧ home.toOption.map (·.text) = some "from a" ∧
    away ≠ home := by
  intro plain origin heir document e options away home
  have haway : away.toOption.map (·.text) = some "from c" := by decide +kernel
  have hhome : home.toOption.map (·.text) = some "from a" := by decide +kernel
  have hreachable : e.Reachable :=
    .wireImports (.loadDocument (.loadDocument (.initial {}) "a" origin none) "c" document none) _
  have hforgot : e.resolved = [] := List.isEmpty_iff.1 (by decide +kernel)
  have hfaithful : e.Faithful := by
    rw [Faithful, hforgot]
    exact Registry.remembers_nil
  refine ⟨⟨hreachable, hfaithful⟩, haway, hhome, fun hsame => ?_⟩
  rw [hsame, hhome] at haway
  exact absurd haway (by decide)

end Engine

end RandomTables
