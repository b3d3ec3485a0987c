-- SUMMARY: An error that is met anywhere ends the whole evaluation, unless an expression catches it.
import RandomTables.Proofs.Evaluation.Alarm
import RandomTables.Proofs.Evaluation.Breakdown
import RandomTables.Proofs.Evaluation.Origin

/-!
# Failing fast

Patterns are evaluated on behalf of expressions, and an error that is met in one of them is to end
everything. It does where no expression catches errors of its kind: calculations catch parse errors,
whoever raised them, and conditions catch resolution errors around their variables. Nothing else is
ever shown as an error of a calculation, or read as empty, than what the expression itself does wrong.
-/
namespace RandomTables

/-! ## Patterns -/

/-- A pattern without switches passes resolution errors, as calculations catch none. -/
theorem patternPasses_of_actions {spared : List String} {e : ResolutionFailure} {text : String}
    (h : (Span.find text.toList).all fun span =>
      (Switch.form? (Text.trim span.expression)).isNone) :
    PatternPasses spared (.resolution e) text := by
  intro span hspan d hd x hx hcatches
  have hform := Option.isNone_iff_eq_none.1 (List.all_eq_true.1 h span hspan)
  by_cases hempty : Text.trim span.expression = []
  · rw [Directive.parse, hempty, Directive.readTrimmed] at hd
    cases hd
  · rw [Directive.parse_of_action hempty hform] at hd
    obtain ⟨action, -, rfl⟩ := Except.map_eq_ok hd
    cases action with
    | math e =>
        obtain rfl := List.mem_singleton.1 hx
        obtain ⟨_, hparse⟩ := hcatches
        cases hparse
    | _ => exact absurd hx List.not_mem_nil

/-- A calculation of nothing but a variable. -/
theorem Directive.parse_math :
    parse "math:$x".toList = .ok (.act "math:$x" (.math (.variable "x" 0))) :=
  parse_calculation (by decide +kernel)

theorem Piece.ofPattern_math :
    ofPattern "\x7b\x7bmath:$x\x7d\x7d".toList =
      [.directive ⟨"\x7b\x7bmath:$x\x7d\x7d".toList, "math:$x".toList, 0, 11⟩] := by cbv

/-- A directive that is refused, whatever was rendered before: it cannot be read, or it rolls what
cannot be found. -/
inductive Surroundings.Refuses (env : Surroundings) (collectionId : String) (span : Span) :
    Failure → Prop where
  | malformed {f : Failure} (h : Directive.parse span.expression = .error f) :
    Refuses env collectionId span f
  | unknown {raw ref : String} {e : ResolutionFailure}
    (hparse : Directive.parse span.expression = .ok (.act raw (.table ref none)))
    (hresolve : env.registry.resolve ref collectionId = .error e) :
    Refuses env collectionId span (.resolution e)

namespace Eval

variable {env : Surroundings} {answer : Answer} {collectionId : String}

/-- A step gives what is evaluated inside it. -/
theorem traced_fst {α : Type} (step : TraceStep) (body : Option Nat → Eval α) (c : Context) :
    (traced step body c).1 =
      (body (c.trace.enter step).1 { c with trace := (c.trace.enter step).2 }).1 := rfl

theorem renderTable_of_unknown {ref : String} {e : ResolutionFailure}
    (h : env.registry.resolve ref collectionId = .error e) (node : Option Nat) (c : Context) :
    (renderTable env answer collectionId node ref c).1 = .error (.resolution e) := by
  refine Computation.bind_of_error (Computation.bind_of_error ?_)
  rw [h]
  rfl

theorem renderSpan_of_refused {span : Span} {f : Failure} (h : env.Refuses collectionId span f)
    (memory : Again) (c : Context) :
    (renderSpan env answer collectionId memory span c).1 = .error f := by
  cases h with
  | malformed h =>
      refine Computation.bind_of_error ?_
      unfold parseSpan
      rw [h]
      rcases f with (_ | _ | _ | _ | _ | _) | _ | _ <;> rfl
  | @unknown raw ref e hparse hresolve =>
      have hdirective : ∀ c, (renderDirective env answer collectionId memory
          (.act raw (.table ref none)) c).1 = .error (.resolution e) := by
        intro c
        have htable : ∀ node c, (renderTable env answer collectionId node ref c).1 =
            .error (.resolution e) := renderTable_of_unknown hresolve
        have hbody := fun node c => Computation.bind_of_error
          (f := fun output => (pure (output, remembered memory (.table ref none)) : Eval _))
          (htable node c)
        rw [renderDirective, performing, Computation.bind_apply]
        refine (traced_fst _ _ _).trans (Computation.bind_of_error (hbody _ _))
      rw [renderSpan, parseSpan, hparse, Computation.bind_apply]
      exact Computation.bind_of_error (hdirective c)

/-- A pattern that is one directive shows its output. -/
theorem renderPattern_single {text : String} {span : Span} {d : Directive}
    (hpieces : Piece.ofPattern text.toList = [.directive span])
    (hparse : Directive.parse span.expression = .ok d) (c : Context) :
    renderPattern env answer text collectionId c =
      match renderDirective env answer collectionId .nothing d c with
      | (.ok (output, _), c) => (⟨[.ofSpan span d.kind output], none⟩, c)
      | (.error f, c) => (⟨[], some f⟩, c) := by
  have hread : (pure d : Eval Directive) c = (.ok d, c) := rfl
  rw [renderPattern, hpieces, renderPieces_directive, renderSpan, parseSpan, hparse,
    Computation.bind_apply]
  simp only [hread]
  rw [Computation.bind_apply]
  rcases renderDirective env answer collectionId .nothing d c with ⟨_ | _, _⟩ <;> rfl

theorem renderPieces_of_refused {memory : Again} {before after : List Piece} {span : Span}
    {f : Failure} {c c' : Context} {segments : List Segment}
    (hbefore : renderPieces env answer collectionId memory before c = (⟨segments, none⟩, c'))
    (hspan : env.Refuses collectionId span f) :
    (renderPieces env answer collectionId memory (before ++ .directive span :: after) c).1.failure =
      some f := by
  induction before generalizing memory c segments with
  | nil =>
      have hrefused : (renderSpan env answer collectionId memory span c).1 = .error f :=
        renderSpan_of_refused hspan memory c
      rw [List.nil_append, renderPieces_directive]
      rcases hrender : renderSpan env answer collectionId memory span c with ⟨r, c''⟩
      rw [hrender] at hrefused
      cases hrefused
      rfl
  | cons p rest ih =>
      rw [List.cons_append]
      cases p with
      | literal text start =>
          rw [renderPieces_literal] at hbefore ⊢
          rcases hr : renderPieces env answer collectionId memory rest c with ⟨⟨more, failure⟩, c₁⟩
          rw [hr] at hbefore
          cases hbefore
          exact ih hr
      | directive first =>
          rw [renderPieces_directive] at hbefore ⊢
          rcases hs : renderSpan env answer collectionId memory first c with ⟨g | ⟨s, memory'⟩, c₁⟩
          · simp only [hs] at hbefore
            cases hbefore
          · simp only [hs] at hbefore ⊢
            rcases hr : renderPieces env answer collectionId memory' rest c₁ with
              ⟨⟨more, failure⟩, c₂⟩
            rw [hr] at hbefore
            cases hbefore
            exact ih hr

/-- A pattern that comes to a refused directive is answered by that failure. -/
theorem evalPattern_of_refused {text : String} {before after : List Piece} {span : Span}
    {f : Failure} {c c' : Context} {segments : List Segment}
    (hpieces : Piece.ofPattern text.toList = before ++ .directive span :: after)
    (hbefore : renderPieces env answer collectionId .nothing before c = (⟨segments, none⟩, c'))
    (hspan : env.Refuses collectionId span f) :
    (evalPattern env answer text collectionId c).1 = .error f := by
  have hfailure : (renderPattern env answer text collectionId c).1.failure = some f := by
    rw [renderPattern, hpieces]
    exact renderPieces_of_refused hbefore hspan
  rw [Simulation.evalPattern_apply]
  simp only [Rendering.text, hfailure]

end Eval

/-! ## Requests -/

namespace Simulation

variable {env : Surroundings} {request : Request} {extra : Assoc String} {c : Collection}
  {spared : List String} {f : Failure} (h : env.Passes c.document request extra spared f)
include h

theorem registry_passing : (Material.passing spared f).Registry env.registry :=
  Material.registry_of_contents (fun _ _ => trivial)
    (fun _ hc text htext => h.pattern text (.document hc htext)) fun _ _ => trivial

theorem poses_passing (hc : c ∈ env.registry.collections) {w : Nesting} (hframes : w.frames = [])
    (hscopes : w.shared.scopes = []) :
    (alarming env spared f).Poses w request c.document extra where
  pattern text hrequest := h.pattern text (.request hrequest)
  conditionals conditional hmem :=
    ⟨⟨fun e he => ⟨trivial, h.condition conditional hmem e he⟩, fun _ _ => trivial⟩,
      h.pattern _ (.document hc (.conditional hmem)), trivial, fun _ _ _ => trivial⟩
  shared p hp := by
    rcases List.mem_append.1 hp with hp | hp
    · exact h.pattern _ (.document hc (.shared hp))
    · exact h.pattern _ (.extra hp)
  frames := hframes
  scopes := hscopes
  entered _ _ _ _ _ := trivial

end Simulation

namespace Engine

/-- The run of a request in which the first call that fails with an error raises the alarm. -/
def alarmedRun (e : Engine) (c : Collection) (request : Request) (options : Options)
    (error : RollError) (spared : List String) :
    (List Segment × Except Failure Outcome) × Context :=
  let env := e.surroundings c
  let answer : Answer :=
    Eval.alarmedWithin env (.error error) spared (env.callBound options.shared)
  (request.complete env answer c.document options.shared).run
    (e.freshContext request options c.document.statics.keys)

section

variable {e : Engine} (he : e.Reachable) {collectionId : String} {c : Collection}
  (hc : e.registry.loaded collectionId = .ok c) (request : Request) (options : Options)
  {error : RollError} (herror : ¬ (Failure.error error).Exhausts) {spared : List String}
  (hpasses : (e.surroundings c).Passes c.document request options.shared spared (.error error))
include he hc herror hpasses

open Simulation in
/-- A run ends with the error that raised the alarm; without an alarm it is the same. -/
theorem run_of_alarmed :
    ((e.alarmedRun c request options error spared).1.2 = .error .outOfFuel ∧
      (e.run c request options).1.2 = .error (.error error)) ∨
    ((e.alarmedRun c request options error spared).1.2 ≠ .error .outOfFuel ∧
      e.run c request options = e.alarmedRun c request options error spared) := by
  let env := e.surroundings c
  have hr : (Material.passing spared (.error error)).Registry env.registry := registry_passing hpasses
  have halone : (alarming env spared (.error error)).Alone
      (Material.passing spared (.error error)).Resolved fun _ _ _ => True := alone_passing hr
  have hposed := poses_passing hpasses (Material.mem_of_loaded hc)
    (w := (e.freshContext request options c.document.statics.keys).nesting) rfl rfl
  have hruns := Runs.complete (lawful_passing hr herror fun _ _ h => h)
    (answers_alarmed hr herror (env.callBound options.shared)) hposed _ _
    (halone.bare rfl rfl rfl rfl (he.derived.resolved hr))
  rcases hruns with ⟨_, halarm, rfl, hfails⟩ | ⟨-, hresult, v, -, hmatch⟩
  · exact .inl ⟨eq_error_of_failed halarm, eq_error_of_failed hfails⟩
  · have hsame : e.run c request options = e.alarmedRun c request options error spared :=
      Prod.ext hresult (halone.eq_of_traced rfl hmatch)
    refine .inr ⟨fun hempty => ?_, hsame⟩
    rw [← hsame] at hempty
    exact (run_settles he hc request options (Nat.le_refl _)).1 _ hempty

/-- If a call anywhere fails with an error that all expressions pass, the evaluation reports it.
Otherwise no call fails with it, and the alarm changes nothing. A call for a pattern fails so if it
comes to a directive that is refused. What a calculation shows as an error is one of its operands or a
parse error that a call raised, and what a condition reads as empty is missing or a resolution error
that a call raised. -/
theorem evaluate_fails_fast :
    ((e.alarmedRun c request options error spared).1.2 = .error .outOfFuel ∧
        (∃ report, (e.evaluate collectionId request options).result = .ok report ∧
          report.error = some error) ∨
      (e.alarmedRun c request options error spared).1.2 ≠ .error .outOfFuel ∧
        e.run c request options = e.alarmedRun c request options error spared) ∧
    (∀ (env : Surroundings) (answer : Answer) (collectionId text : String) (ctx ctx' : Context)
        (before after : List Piece) (segments : List Segment) (span : Span) (f : Failure),
      Piece.ofPattern text.toList = before ++ .directive span :: after →
      Eval.renderPieces env answer collectionId .nothing before ctx = (⟨segments, none⟩, ctx') →
      env.Refuses collectionId span f →
      (Eval.evalPattern env answer text collectionId ctx).1 = .error f) ∧
    (∀ (env : Surroundings) (answer : Answer) (collectionId raw text : String) (node : Option Nat)
        (expression : Expr) (ctx : Context),
      (Eval.renderMath env answer collectionId node raw expression ctx).1 = .ok text →
      let result := (Eval.evalNumber env answer collectionId expression
        { ctx with trace := ctx.trace.annotate node [("expression", .str expression.render)] }).1
      (∃ v, result = .ok v ∧ text = v.text) ∨
        text = Eval.mathError ∧ ∃ failure, result = .error (.error (.parse failure)) ∧
          (failure.cause.OfOperands ∨ Answer.Raises answer (.error (.parse failure)))) ∧
    ∀ (env : Surroundings) (answer : Answer) (collectionId name text : String) (ctx : Context),
      (Eval.orEmpty (Eval.readDotted env answer name collectionId) ctx).1 = .ok text →
      let result := (Eval.readDotted env answer name collectionId ctx).1
      result = .ok text ∨
        text = "" ∧ ∃ failure, result = .error (.resolution failure) ∧
          (failure.Misses name collectionId ∨ Answer.Raises answer (.resolution failure)) := by
  refine ⟨?_, fun _ _ _ _ _ _ _ _ _ _ _ hpieces hbefore hspan =>
      Eval.evalPattern_of_refused hpieces hbefore hspan,
    fun _ _ _ _ _ _ _ _ h => Eval.text_of_renderMath h,
    fun _ _ _ _ _ _ h => Eval.text_of_orEmpty h⟩
  rcases run_of_alarmed he hc request options herror hpasses with ⟨halarm, hrun⟩ | hquiet
  · refine .inl ⟨halarm, ?_⟩
    rw [evaluate_of_loaded hc, hrun]
    exact ⟨_, rfl, rfl⟩
  · exact .inr hquiet

end

/-- A calculation reads a variable that refers to an unknown table. -/
theorem evaluate_fails_fast_of_unknown_table :
    let document : Document := {
      metadata := { name := "n", namespaceText := "c" }, tables := []
      shared := [("x", "\x7b\x7bnosuch\x7d\x7d")] }
    let e : Engine := (({} : Engine).loadDocument "c" document none).engine
    let c : Collection := { id := "c", document }
    let request : Request := .pattern "\x7b\x7bmath:$x\x7d\x7d"
    let options : Options := { source := .ofDraws [] }
    let error : RollError := .resolution (.unknownReference "nosuch" "c")
    (e.Reachable ∧ e.registry.loaded "c" = .ok c ∧ ¬ (Failure.error error).Exhausts ∧
      (e.surroundings c).Passes document request [] [] (.error error)) ∧
    ∃ report, (e.evaluate "c" request options).result = .ok report ∧
      report.error = some error := by
  intro document e c request options error
  have he : e.Reachable := .loadDocument (.initial _) "c" document none
  have hc : e.registry.loaded "c" = .ok c := rfl
  have herror : ¬ (Failure.error error).Exhausts := by
    rintro ⟨failure, h, -⟩
    have hkind : RollError.resolution (.unknownReference "nosuch" "c") = .selection failure :=
      Failure.error.inj h
    cases hkind
  have hpasses : (e.surroundings c).Passes document request [] [] (.error error) := by
    have hregistry : (e.surroundings c).registry.collections = [c] := rfl
    refine ⟨fun text htext => patternPasses_of_actions ?_, fun _ h => absurd h List.not_mem_nil⟩
    cases htext with
    | request h =>
        obtain rfl := Request.pattern.inj h
        decide +kernel
    | extra h => exact absurd h List.not_mem_nil
    | document hmem h =>
        obtain rfl := List.mem_singleton.1 (hregistry ▸ hmem)
        cases h with
        | shared hp =>
            obtain rfl := List.mem_singleton.1 hp
            decide +kernel
        | tableShared h | table h | templateShared h | template h | conditional h =>
            exact absurd h List.not_mem_nil
  have halarm : failed? (e.alarmedRun c request options error []).1.2 = some .outOfFuel := by
    dsimp only [alarmedRun, StateT.run, request]
    rw [Request.complete_pattern]
    simp only [Eval.renderPattern_single Piece.ofPattern_math Directive.parse_math]
    decide +kernel
  refine ⟨⟨he, hc, herror, hpasses⟩, ?_⟩
  rcases (evaluate_fails_fast he hc request options herror hpasses).1 with
    ⟨-, hreport⟩ | ⟨hquiet, -⟩
  · exact hreport
  · exact absurd (eq_error_of_failed halarm) hquiet

/-- A calculation shows a mark in place of a malformed directive, and a condition takes an unknown table
for an empty text. Read by themselves, the same variables end the evaluation. -/
theorem evaluate_survives_nested_errors :
    let conditional : Conditional := { condition := "!$y", action := .append, value := "?" }
    let malformed : Document := {
      metadata := { name := "n", namespaceText := "c" }, tables := []
      shared := [("x", "\x7b\x7bdice:\x7d\x7d")] }
    let unknown : Document := {
      metadata := { name := "n", namespaceText := "c" }, tables := []
      shared := [("y", "\x7b\x7bnosuch\x7d\x7d")], conditionals := [conditional] }
    let engine (d : Document) : Engine := (({} : Engine).loadDocument "c" d none).engine
    let shown (d : Document) (text : String) : Option (String × Option RollError) :=
      ((engine d).evaluate "c" (.pattern text) { source := .ofDraws [] }).result.toOption.map
        fun report => (report.text, report.error)
    (engine malformed).Reachable ∧ (engine unknown).Reachable ∧
    shown malformed "\x7b\x7bmath:$x\x7d\x7d" = some ("[math error]", none) ∧
    shown malformed "\x7b\x7b$x\x7d\x7d" =
      some ("", some (.parse ⟨.missingDice, "dice:", none⟩)) ∧
    shown unknown "empty" = some ("empty?", none) ∧
    shown unknown "\x7b\x7b$y\x7d\x7d" =
      some ("", some (.resolution (.unknownReference "nosuch" "c"))) := by
  intro conditional malformed unknown engine shown
  have hmath : shown malformed "\x7b\x7bmath:$x\x7d\x7d" = some ("[math error]", none) := by
    have hc : (engine malformed).registry.loaded "c" = .ok { id := "c", document := malformed } := rfl
    dsimp only [shown]
    rw [evaluate_of_loaded hc, run]
    dsimp only [StateT.run]
    rw [Request.complete_pattern]
    simp only [Eval.renderPattern_single Piece.ofPattern_math Directive.parse_math]
    decide +kernel
  have hcondition : shown unknown "empty" = some ("empty?", none) := by
    have hc : (engine unknown).registry.loaded "c" = .ok { id := "c", document := unknown } := rfl
    have hparse : Expr.parse conditional.condition.toList =
        .ok (.unary .not (.variable "y" 1) 0) := by cbv
    have hconditionals : unknown.conditionals = [conditional] := rfl
    dsimp only [shown]
    rw [evaluate_of_loaded hc, run]
    dsimp only [StateT.run]
    rw [Request.complete_pattern]
    simp only [hconditionals, Eval.amend, Eval.amendFrom, Eval.evalConditional, Expr.holdsIn, hparse]
    decide +kernel
  exact ⟨.loadDocument (.initial _) "c" malformed none, .loadDocument (.initial _) "c" unknown none,
    hmath, by decide +kernel, hcondition, by decide +kernel⟩

end Engine

end RandomTables
