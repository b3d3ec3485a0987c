-- SUMMARY: The steps inside the root of a trace are those of the directives of the pattern.
import RandomTables.Proofs.Evaluation.Levels
import RandomTables.Proofs.Evaluation.Segments
import RandomTables.Proofs.Trace.Recording

/-!
# Traces mirror patterns

Each directive of a pattern leaves one step inside the root of the trace. Whatever is evaluated
meanwhile is recorded inside that step or beside the tree, and so are the conditionals afterwards.
-/
namespace RandomTables

/-- A directive knows the text that it was read from. -/
theorem Directive.raw_of_parse {cs : List Char} {d : Directive} (h : Directive.parse cs = .ok d) :
    d.raw = String.ofList (Text.trim cs) := by
  rw [Directive.parse, Directive.readTrimmed] at h
  split at h
  · cases h
  · split at h
    · unfold Directive.readSwitch at h
      split at h
      · cases h
      · obtain ⟨parts, -, h⟩ := Except.bind_eq_ok h
        cases h
        rfl
      · obtain ⟨subject, -, h⟩ := Except.bind_eq_ok h
        obtain ⟨parts, -, h⟩ := Except.bind_eq_ok h
        cases h
        rfl
    · obtain ⟨action, -, rfl⟩ := Except.map_eq_ok h
      rfl

/-! ## Steps of directives -/

/-- The output of a directive that a segment holds. -/
def Segment.output? (s : Segment) : Option String :=
  match s.origin with
  | .directive .. => some s.text
  | _ => none

namespace TraceStep

/-- A step that is that of the directive at a span. -/
def Tells (span : Span) (s : TraceStep) : Prop :=
  ∃ d, Directive.parse span.expression = .ok d ∧ s.kind = .directive d.kind ∧
    s.raw = String.ofList span.expression

/-- A step of a directive that failed: it is that of the directive, unless the span holds none. -/
def Blames (span : Span) (s : TraceStep) : Prop :=
  s.Tells span ∨ s.kind = .parseError ∧ s.raw = String.ofList span.raw

end TraceStep

/-- Steps that mirror rendered spans, in order: each is that of the directive at its span, and its
value is what that directive gave to the text. -/
structure Mirrors (spans : List Span) (segments : List Segment) (steps : List TraceStep) :
    Prop where
  told : List.Forall₂ TraceStep.Tells spans steps
  values : steps.map (·.value) = (segments.filterMap Segment.output?).map Json.str

/-! ## Evaluations while a step is open -/

namespace Simulation

/-- The simulation of an evaluation by itself while a step is open. -/
abbrev whileOpen (env : Surroundings) (begun : OpenTrace) (k : Nat) : Simulation :=
  onLevels env (.inside begun k) fun _ _ => True

variable {env : Surroundings} {begun : OpenTrace} {k : Nat} {α : Type} {P : α → Prop} {x : Eval α}
  {c : Context}

/-- What is recorded while a step is open stays inside it, and no other step stays open. -/
theorem Leads.inside {R : SharedStore → Prop}
    (hx : (whileOpen env begun k).Leads c.nesting R P x x) (h : OpenTrace.Inside begun k c.trace) :
    OpenTrace.Inside begun k (x c).2.trace ∧ (x c).2.trace.stack = c.trace.stack ∧
      R (x c).2.shared.blank := by
  have hmatch : (whileOpen env begun k).Match c.nesting c c :=
    alone_onLevels.contexts rfl ⟨rfl, h⟩ (open_anything _) (fun _ _ => trivial)
      fun _ _ => simple_anything _
  rcases hx c c hmatch with ⟨_, _, htol⟩ | ⟨-, -, s, hs, hafter⟩
  · exact htol.elim
  · obtain rfl := congrArg (·.shared) hafter.nesting
    exact ⟨hafter.traces.2, congrArg (·.steps) hafter.nesting, hs⟩

end Simulation

/-! ## Steps in an idle trace -/

namespace Eval

open OpenTrace Simulation

section

variable {env : Surroundings} {c : Context} {α : Type} (step : TraceStep)
  {body : Option Nat → Eval α} {R : SharedStore → Prop} {P : α → Prop} (h : c.trace.Idle)
  (hbody : ∀ (begun : OpenTrace) (k : Nat), (whileOpen env begun k).Leads
    { c.nesting with steps := begun.stack } R P (body (some k)) (body (some k)))
include h hbody

/-- What is evaluated inside a step leaves the trace idle again, with that step inside the root. -/
theorem traced_idle (hkind : step.kind ≠ .conditional) :
    (traced step body c).2.trace.Idle ∧ R (traced step body c).2.shared.blank ∧
      ∃ s, (traced step body c).2.trace.rootSteps = c.trace.rootSteps ++ [s] ∧
        s.kind = step.kind ∧ s.raw = step.raw ∧
        ∀ a, (traced step body c).1 = .ok a → ∃ id before after,
          body (some id) before = (.ok a, after) ∧
            after.trace.entries[id]?.map (·.step) = some s := by
  let id := c.trace.entries.size
  let begun : OpenTrace := { c.trace.record step with stack := id :: c.trace.stack }
  have henter : c.trace.enter step = (some id, begun) := if_pos h.enabled
  have hbegun : Begun c.trace begun := h.enter hkind
  have hrun : traced step body c =
      closing (some id) (body (some id) { c with trace := begun }) := by
    change closing (c.trace.enter step).1 (body _ { c with trace := (c.trace.enter step).2 }) = _
    rw [henter]
  obtain ⟨hinside, hstack, hshared⟩ :=
    (hbody begun id).inside (c := { c with trace := begun }) hbegun.inside
  rw [hrun]
  rcases hafter : body (some id) { c with trace := begun } with ⟨result, after⟩
  rw [hafter] at hinside hstack hshared
  have hfollows := hinside.follows.trans (follows_closeStep after.trace id result)
  obtain ⟨entry, hentry, hentryKind, hraw, hsteps⟩ := h.rootSteps_record hfollows
  refine ⟨hbegun.close hinside hstack result, hshared, entry.step, hsteps, hentryKind, hraw, ?_⟩
  rintro a rfl
  rw [closeStep, entries_leave] at hentry
  exact ⟨id, _, after, hafter, congrArg (Option.map _) hentry⟩

/-- What is evaluated inside a step beside the tree leaves the trace idle, with the same steps
inside the root. -/
theorem tracedApart_idle :
    (tracedApart step body c).2.trace.Idle ∧ R (tracedApart step body c).2.shared.blank ∧
      (tracedApart step body c).2.trace.rootSteps = c.trace.rootSteps := by
  let id := c.trace.entries.size
  let begun : OpenTrace :=
    { c.trace with
      entries := c.trace.entries.push { step }
      stack := id :: c.trace.stack
      detached := c.trace.detached.push id }
  have henter : c.trace.enterApart step = (some id, begun) := if_pos h.enabled
  have hbegun : Begun c.trace begun := h.enterApart step
  have hrun : tracedApart step body c =
      closing (some id) (body (some id) { c with trace := begun }) := by
    change closing (c.trace.enterApart step).1
      (body _ { c with trace := (c.trace.enterApart step).2 }) = _
    rw [henter]
  obtain ⟨hinside, hstack, hshared⟩ :=
    (hbody begun id).inside (c := { c with trace := begun }) hbegun.inside
  rw [hrun]
  refine ⟨hbegun.close hinside hstack _, hshared, h.rootSteps_push step ?_⟩
  exact hinside.follows.trans (follows_closeStep _ _ _)

end

theorem value_of_setValue {b : OpenTrace} {id : Nat} {value : Json} {s : TraceStep}
    (h : (b.setValue (some id) value).entries[id]?.map (·.step) = some s) : s.value = value := by
  change ((b.entries.modify id _)[id]?).map _ = _ at h
  rw [Array.getElem?_modify, if_pos rfl, Option.map_map] at h
  obtain ⟨entry, -, rfl⟩ := Option.map_eq_some_iff.1 h
  rfl

/-! ## Rendering in an idle trace -/

section

variable {env : Surroundings} {answer : Answer} {collectionId : String} {memory : Again}
  {c after : Context}
  (hanswer : ∀ begun k, (whileOpen env begun k).Answers answer answer)
include hanswer

/-- A directive leaves one step inside the root, whose value is its output. -/
theorem renderDirective_idle (h : c.trace.Idle) {d : Directive}
    {result : Except Failure (String × Again)}
    (hrun : renderDirective env answer collectionId memory d c = (result, after)) :
    after.trace.Idle ∧ after.shared.blank = c.shared.blank ∧
      ∃ s, after.trace.rootSteps = c.trace.rootSteps ++ [s] ∧
        s.kind = .directive d.kind ∧ s.raw = d.raw ∧
        ∀ output memory', result = .ok (output, memory') → s.value = .str output := by
  let logged := c.record .debug .evaluator
    ("Evaluating " ++ d.kind.name ++ " directive '" ++ d.raw ++ "'")
  let body (node : Option Nat) : Eval (String × Again) := do
    let r ← insideStep env answer collectionId memory d node
    setValue node (.str r.1)
    return r
  have hbody : ∀ (begun : OpenTrace) (k : Nat), (whileOpen env begun k).Leads
      { logged.nesting with steps := begun.stack } (· = c.shared.blank) (fun _ => True)
      (body (some k)) (body (some k)) := by
    intro begun k
    have hnode : (whileOpen env begun k).tracing.steps (some k) (some k) :=
      ⟨rfl, by rintro _ ⟨⟩; exact Nat.le_refl k⟩
    have hmemory : Remembers (whileOpen env begun k) memory := by cases memory <;> trivial
    have hstep := Yields.insideStep (levelled_anywhere env _).lawful (hanswer begun k) collectionId
      (w := { logged.nesting with steps := begun.stack }) ⟨trivial, open_anything _⟩ hnode hmemory
      (d := d) ⟨fun _ _ => trivial, fun _ _ => trivial⟩
    exact (Yields.bind hstep fun r _ => .next (.setValue hnode _) fun _ => .pure trivial).leads rfl
  have hdirective : renderDirective env answer collectionId memory d c =
      traced (stepOf d) body logged := by
    rw [renderDirective_eq]
    rfl
  obtain ⟨hidle, hshared, s, hsteps, hkind, hraw, hvalue⟩ :=
    traced_idle (stepOf d) (c := logged) h hbody nofun
  rw [← hdirective, hrun] at hidle hshared hsteps hvalue
  refine ⟨hidle, hshared, s, hsteps, hkind, hraw, ?_⟩
  rintro output memory' rfl
  obtain ⟨id, before, closing, hrun, hs⟩ := hvalue _ rfl
  obtain ⟨r, inner, -, hrun⟩ := Computation.bind_eq_ok hrun
  cases hrun
  exact value_of_setValue hs

omit hanswer in
theorem renderSpan_of_parse {span : Span} {d : Directive}
    (hd : Directive.parse span.expression = .ok d) :
    renderSpan env answer collectionId memory span c =
      match renderDirective env answer collectionId memory d c with
      | (.ok (output, memory), c) => (.ok (.ofSpan span d.kind output, memory), c)
      | (.error f, c) => (.error f, c) := by
  have hparse : parseSpan span = pure d := by rw [parseSpan, hd]
  rw [renderSpan, hparse, pure_bind, Computation.bind_apply]
  rcases renderDirective env answer collectionId memory d c with ⟨_ | ⟨output, memory⟩, c⟩ <;> rfl

omit hanswer in
/-- A malformed directive leaves a step inside the root, unless arithmetic broke down. -/
theorem renderSpan_of_malformed (env : Surroundings) (answer : Answer) (collectionId : String)
    (memory : Again) (c : Context) {span : Span} {f : Failure}
    (hd : Directive.parse span.expression = .error f) :
    ∃ after, renderSpan env answer collectionId memory span c = (.error f, after) ∧
      ∀ error, f = .error error → ∃ step, step.kind = .parseError ∧
        step.raw = String.ofList span.raw ∧ after = { c with trace := c.trace.note step } := by
  have hf := (Directive.ends_parse _).failure f hd
  rw [renderSpan, parseSpan, hd]
  cases f with
  | error e =>
      cases e with
      | parse e => exact ⟨_, rfl, fun _ _ => ⟨_, rfl, rfl, rfl⟩⟩
      | _ => exact hf.elim
  | fault fault => exact ⟨c, rfl, fun _ h => nomatch h⟩
  | outOfFuel => exact hf.elim

/-- A span leaves one step inside the root: that of its directive, with the output as value. -/
theorem renderSpan_idle (h : c.trace.Idle) {span : Span}
    (hspan : Text.trim span.expression = span.expression) {segment : Segment} {memory' : Again}
    (hrun : renderSpan env answer collectionId memory span c = (.ok (segment, memory'), after)) :
    after.trace.Idle ∧ after.shared.blank = c.shared.blank ∧
      ∃ s, after.trace.rootSteps = c.trace.rootSteps ++ [s] ∧ s.Tells span ∧
        segment.output? = some segment.text ∧ s.value = .str segment.text := by
  cases hd : Directive.parse span.expression with
  | ok d =>
      rw [renderSpan_of_parse hd] at hrun
      rcases hdirective : renderDirective env answer collectionId memory d c with
        ⟨_ | ⟨output, _⟩, _⟩ <;> rw [hdirective] at hrun <;> cases hrun
      obtain ⟨hidle, hshared, s, hsteps, hkind, hraw, hvalue⟩ :=
        renderDirective_idle hanswer h hdirective
      rw [Directive.raw_of_parse hd, hspan] at hraw
      exact ⟨hidle, hshared, s, hsteps, ⟨d, hd, hkind, hraw⟩, rfl, hvalue _ _ rfl⟩
  | error f =>
      obtain ⟨_, hfails, -⟩ := renderSpan_of_malformed env answer collectionId memory c hd
      rw [hfails] at hrun
      cases hrun

/-- A span whose rendering fails with an error leaves one step inside the root. -/
theorem renderSpan_idle_of_error (h : c.trace.Idle) {span : Span}
    (hspan : Text.trim span.expression = span.expression) {error : RollError}
    (hrun : renderSpan env answer collectionId memory span c = (.error (.error error), after)) :
    after.trace.Idle ∧
      ∃ s, after.trace.rootSteps = c.trace.rootSteps ++ [s] ∧ s.Blames span := by
  cases hd : Directive.parse span.expression with
  | ok d =>
      rw [renderSpan_of_parse hd] at hrun
      rcases hdirective : renderDirective env answer collectionId memory d c with
        ⟨_ | ⟨output, _⟩, _⟩ <;> rw [hdirective] at hrun <;> cases hrun
      obtain ⟨hidle, -, s, hsteps, hkind, hraw, -⟩ := renderDirective_idle hanswer h hdirective
      rw [Directive.raw_of_parse hd, hspan] at hraw
      exact ⟨hidle, s, hsteps, .inl ⟨d, hd, hkind, hraw⟩⟩
  | error f =>
      obtain ⟨_, hfails, htold⟩ := renderSpan_of_malformed env answer collectionId memory c hd
      rw [hfails] at hrun
      cases hrun
      obtain ⟨step, hkind, hraw, rfl⟩ := htold error rfl
      obtain ⟨hidle, s, hsKind, hsRaw, hsteps⟩ := h.note step (hkind ▸ nofun)
      exact ⟨hidle, s, hsteps, .inr ⟨hsKind.trans hkind, hsRaw.trans hraw⟩⟩

/-- A row of pieces leaves a step for each directive. -/
theorem renderPieces_idle (h : c.trace.Idle) {pieces : List Piece}
    (hspans : ∀ span ∈ pieces.filterMap Piece.span?, Text.trim span.expression = span.expression)
    {segments : List Segment}
    (hrun : renderPieces env answer collectionId memory pieces c = (⟨segments, none⟩, after)) :
    after.trace.Idle ∧ after.shared.blank = c.shared.blank ∧
      ∃ steps, after.trace.rootSteps = c.trace.rootSteps ++ steps ∧
        Mirrors (pieces.filterMap Piece.span?) segments steps := by
  induction pieces generalizing memory c segments with
  | nil =>
      cases hrun
      exact ⟨h, rfl, [], (List.append_nil _).symm, .nil, rfl⟩
  | cons p rest ih =>
      cases p with
      | literal text start =>
          rw [renderPieces_literal] at hrun
          rcases hr : renderPieces env answer collectionId memory rest c with ⟨⟨more, failure⟩, c₁⟩
          rw [hr] at hrun
          cases hrun
          obtain ⟨hidle, hshared, steps, hsteps, htold, hvalues⟩ := ih h hspans hr
          exact ⟨hidle, hshared, steps, hsteps, htold, hvalues⟩
      | directive span =>
          rw [List.filterMap_cons] at hspans
          change ∀ span' ∈ span :: rest.filterMap Piece.span?, _ at hspans
          rw [List.forall_mem_cons] at hspans
          rw [renderPieces_directive] at hrun
          rcases hs : renderSpan env answer collectionId memory span c with ⟨f | ⟨s, memory'⟩, c₁⟩
          · simp only [hs] at hrun
            cases hrun
          · simp only [hs] at hrun
            rcases hr : renderPieces env answer collectionId memory' rest c₁ with
              ⟨⟨more, failure⟩, c₂⟩
            rw [hr] at hrun
            cases hrun
            obtain ⟨hidle, hshared, step, hstep, htells, houtput, hvalue⟩ :=
              renderSpan_idle hanswer h hspans.1 hs
            obtain ⟨hafter, hshared', steps, hsteps, htold, hvalues⟩ := ih hidle hspans.2 hr
            refine ⟨hafter, hshared'.trans hshared, step :: steps, ?_, .cons htells htold, ?_⟩
            · rw [hsteps, hstep, List.append_assoc]
              rfl
            · rw [List.map_cons, hvalues, hvalue]
              change _ = List.map _ ((s :: more).filterMap _)
              rw [List.filterMap_cons, houtput]
              rfl

omit hanswer in
/-- The steps of a rendering that a directive ended: those that mirror the directives before it, and
one that is its own. -/
def Halted (env : Surroundings) (answer : Answer) (collectionId : String) (memory : Again)
    (pieces : List Piece) (c : Context) (segments : List Segment) (f : Failure)
    (steps : List TraceStep) : Prop :=
  ∃ before span after memory' c', pieces = before ++ .directive span :: after ∧
    renderPieces env answer collectionId memory before c = (⟨segments, none⟩, c') ∧
    (renderSpan env answer collectionId memory' span c').1 = .error f ∧
    ∃ told last, steps = told ++ [last] ∧
      Mirrors (before.filterMap Piece.span?) segments told ∧ last.Blames span

/-- A row of pieces that stops at an error leaves a step for each directive up to the one that
failed. -/
theorem renderPieces_idle_of_error (h : c.trace.Idle) {pieces : List Piece}
    (hspans : ∀ span ∈ pieces.filterMap Piece.span?, Text.trim span.expression = span.expression)
    {segments : List Segment} {error : RollError}
    (hrun : renderPieces env answer collectionId memory pieces c =
      (⟨segments, some (.error error)⟩, after)) :
    after.trace.Idle ∧ ∃ steps, after.trace.rootSteps = c.trace.rootSteps ++ steps ∧
      Halted env answer collectionId memory pieces c segments (.error error) steps := by
  obtain ⟨before, span, rest, memory', c', rfl, hbefore, hspan⟩ := stops_of_renderPieces hrun
  rw [List.filterMap_append, List.forall_mem_append] at hspans
  obtain ⟨hidle, -, told, htold, hmirrors⟩ := renderPieces_idle hanswer h hspans.1 hbefore
  obtain ⟨hafter, last, hlast, hblames⟩ :=
    renderSpan_idle_of_error hanswer hidle (hspans.2 span List.mem_cons_self) hspan
  refine ⟨hafter, told ++ [last], ?_, before, span, rest, memory', c', rfl, hbefore, ?_, told, last,
    rfl, hmirrors, hblames⟩
  · rw [hlast, htold, List.append_assoc]
  · rw [hspan]

/-- Conditionals leave their steps beside the tree. -/
theorem amendFrom_idle (collectionId : String) (h : c.trace.Idle)
    (hlevel : ∃ level, c.shared.blank.scopes = [level])
    (conditionals : List Conditional) (r : Rendered) (matched : Nat) :
    (amendFrom env answer collectionId conditionals r matched c).2.trace.Idle ∧
      (amendFrom env answer collectionId conditionals r matched c).2.trace.rootSteps =
        c.trace.rootSteps := by
  induction conditionals generalizing c r matched with
  | nil => exact ⟨h, rfl⟩
  | cons conditional rest ih =>
      have hbody : ∀ (begun : OpenTrace) (k : Nat), (whileOpen env begun k).Leads
          { c.nesting with steps := begun.stack } (fun s => ∃ level, s.scopes = [level])
          (fun _ => True) (insideConditional env answer collectionId conditional r.text (some k))
          (insideConditional env answer collectionId conditional r.text (some k)) := by
        intro begun k
        have hnode : (whileOpen env begun k).tracing.steps (some k) (some k) :=
          ⟨rfl, by rintro _ ⟨⟩; exact Nat.le_refl k⟩
        have hleads := Leads.insideConditional (levelled_anywhere env _).lawful
          (w := { c.nesting with steps := begun.stack }) ⟨⟨trivial, open_anything _⟩, hlevel⟩
          ((levelled_anywhere env _).applies conditional) (hanswer begun k) collectionId r.text hnode
        exact hleads.mono fun s hs => hs.2
      obtain ⟨hidle, hlevel', hsteps⟩ :=
        tracedApart_idle (stepOfConditional conditional) h hbody
      rw [amendFrom, Computation.run_bind_apply, evalConditional_eq]
      rcases hrun : tracedApart (stepOfConditional conditional)
        (insideConditional env answer collectionId conditional r.text) c with ⟨_ | _ | change, c₁⟩
      all_goals rw [hrun] at hidle hlevel' hsteps
      · exact ⟨hidle, hsteps⟩
      · exact hsteps ▸ ih hidle hlevel' r matched
      · exact hsteps ▸ ih hidle hlevel' _ (matched + 1)

theorem amend_idle (collectionId : String) (h : c.trace.Idle)
    (hlevel : ∃ level, c.shared.blank.scopes = [level])
    (conditionals : List Conditional) (r : Rendered) :
    (amend env answer collectionId conditionals r c).2.trace.Idle ∧
      (amend env answer collectionId conditionals r c).2.trace.rootSteps = c.trace.rootSteps := by
  have hfrom := amendFrom_idle hanswer collectionId h hlevel conditionals r 0
  rw [amend, StateM.bind_apply]
  rcases hr : amendFrom env answer collectionId conditionals r 0 c with ⟨⟨r', _ | _⟩, c₁⟩ <;>
    rw [hr] at hfrom <;> exact hfrom

end

end Eval

/-! ## Requests -/

namespace Request

open Eval Simulation

variable {env : Surroundings} {answer : Answer} {pattern : String} {d : Document}
  {extra : Assoc String} {c c' : Context}

theorem openDocument_idle {result : Except Failure Unit} (hscopes : c.shared.scopes = [])
    (hopen : openDocument env d extra c = (result, c')) :
    c'.trace = c.trace ∧ (result = .ok () → ∃ level, c'.shared.blank.scopes = [level]) := by
  rw [openDocument, Computation.get_bind_apply] at hopen
  cases hpush : c.shared.pushDocument d.shared extra env.collectionId with
  | error e =>
      rw [hpush] at hopen
      cases hopen
      refine ⟨rfl, fun h => ?_⟩
      cases h
  | ok opened =>
      obtain ⟨level, shared⟩ := opened
      rw [hpush] at hopen
      cases hopen
      obtain ⟨rfl, -⟩ := SharedStore.pushDocument_eq_ok hpush
      refine ⟨rfl, fun _ => ⟨level.blank, ?_⟩⟩
      change (c.shared.scopes ++ [level]).map SharedLevel.blank = _
      rw [hscopes]
      rfl

/-- Where a request for a pattern gives a text, the pattern was rendered to its end. -/
theorem rendered_of_complete {segments : List Segment} {o : Outcome}
    (hrun : complete env answer (.pattern pattern) d extra c = ((segments, .ok o), c')) :
    ∃ c₀ c₁ rendered, openDocument env d extra c = (.ok (), c₀) ∧
      renderPattern env answer pattern env.collectionId c₀ = (⟨rendered, none⟩, c₁) := by
  rw [complete_pattern] at hrun
  rcases hopen : openDocument env d extra c with ⟨f | ⟨⟨⟩⟩, c₀⟩
  · simp only [hopen] at hrun
    cases hrun
  simp only [hopen] at hrun
  rcases hrender : renderPattern env answer pattern env.collectionId c₀ with ⟨⟨rendered, _ | f⟩, c₁⟩
  · exact ⟨c₀, c₁, rendered, rfl, hrender⟩
  · simp only [hrender] at hrun
    cases hrun

/-- What a request for a pattern leaves in the trace, unless arithmetic breaks down. -/
theorem trace_of_complete (hanswer : ∀ begun k, (whileOpen env begun k).Answers answer answer)
    (hidle : c.trace.Idle) (hscopes : c.shared.scopes = []) {segments : List Segment}
    {result : Except Failure Outcome}
    (hrun : complete env answer (.pattern pattern) d extra c = ((segments, result), c'))
    (herror : ∀ f, result = .error f → ∃ error, f = .error error) :
    c'.trace.Idle ∧ ∀ c₀ c₁ rendering, openDocument env d extra c = (.ok (), c₀) →
      renderPattern env answer pattern env.collectionId c₀ = (rendering, c₁) →
      ∃ steps, c'.trace.rootSteps = c.trace.rootSteps ++ steps ∧
        match rendering.failure with
        | none => Mirrors (Span.find pattern.toList) rendering.segments steps
        | some f => Halted env answer env.collectionId .nothing (Piece.ofPattern pattern.toList) c₀
            rendering.segments f steps := by
  have hspans : ∀ span ∈ (Piece.ofPattern pattern.toList).filterMap Piece.span?,
      Text.trim span.expression = span.expression := by
    rw [Piece.spans_ofPattern]
    exact fun _ => Span.trim_expression
  rw [complete_pattern] at hrun
  rcases hopen : openDocument env d extra c with ⟨f | ⟨⟨⟩⟩, c₀⟩
  · simp only [hopen] at hrun
    cases hrun
    obtain ⟨htrace, -⟩ := openDocument_idle hscopes hopen
    refine ⟨htrace ▸ hidle, fun _ _ _ h => ?_⟩
    cases h
  simp only [hopen] at hrun
  obtain ⟨htrace, hlevel⟩ := openDocument_idle hscopes hopen
  rcases hrender : renderPattern env answer pattern env.collectionId c₀ with ⟨⟨rendered, _ | f⟩, c₁⟩
  · simp only [hrender] at hrun
    obtain ⟨hafter, hshared, steps, hsteps, hmirrors⟩ :=
      renderPieces_idle hanswer (htrace ▸ hidle) hspans hrender
    obtain ⟨hamended, hsame⟩ := amend_idle hanswer env.collectionId hafter
      (hshared ▸ hlevel rfl) d.conditionals ⟨Segment.join rendered, rendered⟩
    have hfinal : c' = (amend env answer env.collectionId d.conditionals
        ⟨Segment.join rendered, rendered⟩ c₁).2 := by
      rcases hr : amend env answer env.collectionId d.conditionals
        ⟨Segment.join rendered, rendered⟩ c₁ with ⟨⟨r, _ | f⟩, c₂⟩ <;> simp only [hr] at hrun <;>
        cases hrun <;> rfl
    subst hfinal
    refine ⟨hamended, fun _ _ _ h h' => ?_⟩
    cases h
    cases hrender.symm.trans h'
    refine ⟨steps, by rw [hsame, hsteps, htrace], ?_⟩
    rwa [Piece.spans_ofPattern] at hmirrors
  · simp only [hrender] at hrun
    cases hrun
    obtain ⟨error, rfl⟩ := herror f rfl
    obtain ⟨hafter, steps, hsteps, hhalted⟩ :=
      renderPieces_idle_of_error hanswer (htrace ▸ hidle) hspans hrender
    refine ⟨hafter, fun _ _ _ h h' => ?_⟩
    cases h
    cases hrender.symm.trans h'
    exact ⟨steps, by rw [hsteps, htrace], hhalted⟩

end Request

namespace Engine

open Simulation

theorem trace_of_reply_ok {e : Engine} {id : String} {request : Request} {segments : List Segment}
    {result : Except Failure Outcome} {c : Context} {report : Report}
    (h : (e.reply id request segments result c).result = .ok report) :
    ∃ value error, report.trace = (c.trace.conclude value error).2 := by
  unfold reply at h
  split at h
  · cases h
    exact ⟨_, _, rfl⟩
  · cases h
    exact ⟨_, _, rfl⟩
  · cases h

/-- The steps inside the root of a trace mirror the directives of the pattern, and no conditional is
among the steps of the tree. If a directive failed, there is a step for each directive up to that
one. -/
theorem trace_of_evaluate {e : Engine} {id pattern : String} {options : Options} {report : Report}
    (h : (e.evaluate id (.pattern pattern) options).result = .ok report)
    (htracing : options.tracing = true) :
    ∃ t, report.trace = some t ∧ (∀ step ∈ t.root.steps, step.kind ≠ .conditional) ∧
      (report.error = none → ∃ c c₀ c₁ segments, e.registry.loaded id = .ok c ∧
        Request.openDocument (e.surroundings c) c.document options.shared
          (e.freshContext (.pattern pattern) options c.document.statics.keys) = (.ok (), c₀) ∧
        Eval.renderPattern (e.surroundings c) ((e.surroundings c).answer options.shared) pattern id
          c₀ = (⟨segments, none⟩, c₁) ∧
        Mirrors (Span.find pattern.toList) segments (t.root.children.map TraceTree.step)) ∧
      ∀ c c₀ c₁ segments f, e.registry.loaded id = .ok c →
        Request.openDocument (e.surroundings c) c.document options.shared
          (e.freshContext (.pattern pattern) options c.document.statics.keys) = (.ok (), c₀) →
        Eval.renderPattern (e.surroundings c) ((e.surroundings c).answer options.shared) pattern id
          c₀ = (⟨segments, some f⟩, c₁) →
        Eval.Halted (e.surroundings c) ((e.surroundings c).answer options.shared) id .nothing
          (Piece.ofPattern pattern.toList) c₀ segments f (t.root.children.map TraceTree.step) := by
  have hidle : (OpenTrace.start options.tracing (Request.pattern pattern).label).Idle := by
    rw [htracing]
    exact OpenTrace.idle_start _
  unfold evaluate at h
  cases hloaded : e.registry.loaded id with
  | error failure =>
      rw [hloaded] at h
      obtain ⟨value, error, htrace⟩ := trace_of_reply_ok h
      obtain ⟨-, error', -, herror⟩ := report_of_reply_ok h
      obtain ⟨t, ht, -, hkinds⟩ := hidle.conclude value error
      refine ⟨t, htrace.trans ht, hkinds, fun hnone => ?_, fun _ _ _ _ _ hc => nomatch hc⟩
      exact nomatch hnone.symm.trans herror
  | ok c =>
      obtain rfl := id_of_loaded hloaded
      rw [hloaded] at h
      dsimp only at h
      rcases hrun : e.run c (.pattern pattern) options with ⟨⟨segments, result⟩, after⟩
      rw [hrun] at h
      obtain ⟨value, error, htrace⟩ := trace_of_reply_ok h
      obtain ⟨-, hresult⟩ := report_of_reply_ok h
      have herror : ∀ f, result = .error f → ∃ error, f = .error error := by
        rintro f rfl
        obtain ⟨error, hf, -⟩ := hresult
        exact ⟨error, hf⟩
      have hafter := Request.trace_of_complete
        (fun begun k => (levelled_anywhere _ _).answers ((e.surroundings c).callBound options.shared))
        hidle rfl hrun herror
      obtain ⟨t, ht, hchildren, hkinds⟩ := hafter.1.conclude value error
      refine ⟨t, htrace.trans ht, hkinds, fun hnone => ?_, ?_⟩
      · cases result with
        | error f =>
            obtain ⟨error, -, herror⟩ := hresult
            exact nomatch hnone.symm.trans herror
        | ok o =>
            obtain ⟨c₀, c₁, rendered, hopen, hrender⟩ := Request.rendered_of_complete hrun
            obtain ⟨steps, hroot, hmirrors⟩ := hafter.2 c₀ c₁ _ hopen hrender
            rw [hchildren, hroot]
            exact ⟨c, c₀, c₁, rendered, rfl, hopen, hrender, hmirrors⟩
      · rintro _ c₀ c₁ segments f ⟨⟩ hopen hrender
        obtain ⟨steps, hroot, hhalted⟩ := hafter.2 c₀ c₁ _ hopen hrender
        rw [hchildren, hroot]
        exact hhalted

/-- Two directives. The second one reads a shared variable, which expands a template. -/
theorem trace_of_two_directives :
    let template : Template := { id := "t", name := "T", pattern := "\x7b\x7bdice:1d1\x7d\x7d" }
    let document : Document :=
      { metadata := { name := "n", namespaceText := "c" }, tables := [], templates := [template]
        shared := [("s", "\x7b\x7bt\x7d\x7d")] }
    let e : Engine := { registry := ⟨[{ id := "c", document }]⟩ }
    let options : Options := { source := .ofDraws [0] }
    let pattern := "\x7b\x7bt\x7d\x7d and \x7b\x7b$s\x7d\x7d"
    ∃ report t, (e.evaluate "c" (.pattern pattern) options).result = .ok report ∧
      report.text = "1 and 1" ∧ report.trace = some t ∧
      List.Forall₂ TraceStep.Tells (Span.find pattern.toList)
        (t.root.children.map TraceTree.step) ∧
      t.root.children.length = 2 := by
  intro template document e options pattern
  have hshown : (e.evaluate "c" (.pattern pattern) options).result.toOption.map
      (fun report => (report.text, report.error)) = some ("1 and 1", none) := by decide +kernel
  cases hreport : (e.evaluate "c" (.pattern pattern) options).result with
  | error f =>
      rw [hreport] at hshown
      cases hshown
  | ok report =>
      rw [hreport] at hshown
      obtain ⟨htext, herror⟩ := Prod.mk.inj (Option.some.inj hshown)
      obtain ⟨t, ht, -, hsuccess, -⟩ := trace_of_evaluate hreport rfl
      obtain ⟨_, _, _, _, -, -, -, hmirrors⟩ := hsuccess herror
      have hspans : (Span.find pattern.toList).length = 2 := by decide +kernel
      have hlength := hmirrors.told.length_eq
      rw [List.length_map, hspans] at hlength
      exact ⟨report, t, rfl, htext, ht, hmirrors.told, hlength.symm⟩

end Engine

end RandomTables
