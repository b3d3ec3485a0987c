-- SUMMARY: The repetitions that the patterns of an entry come to, with its roll underway.
import RandomTables.Proofs.Evaluation.Publishing
import RandomTables.Proofs.Evaluation.Recalling
import RandomTables.Proofs.Evaluation.Segments

/-!
# Where repetitions occur

A roll comes to an entry of a resolved table, and the patterns of the entry come to repetitions,
directly or in a branch of a switch. Both are followed step by step: a relation has one constructor
for each way on, with what was evaluated before. Wherever a pattern of the entry comes to a
repetition, the roll of the entry is underway.
-/
namespace RandomTables.Eval

/-- A repetition that is evaluated: what it would repeat, how often and how, the step of the trace
that it marks, and the context. -/
structure Repeat where
  memory : Again
  count : Nat
  unique : Bool
  separator : String
  node : Option Nat
  context : Context

/-- The evaluation of a repetition. -/
def Repeat.run (env : Surroundings) (answer : Answer) (collectionId : String) (r : Repeat) :
    Except Failure String × Context :=
  renderAgain env answer collectionId r.node r.memory r.count r.unique r.separator r.context

/-! ## In directives -/

/-- The step of a directive, and the context inside it. -/
def begun (d : Directive) (c : Context) : Option Nat × Context :=
  let c := c.record .debug .evaluator
    ("Evaluating " ++ d.kind.name ++ " directive '" ++ d.raw ++ "'")
  let (node, trace) := c.trace.enter (stepOf d)
  (node, { c with trace })

/-- A context with a remark on a step of the trace. -/
def marked (node : Option Nat) (details : List (String × Json)) (c : Context) : Context :=
  { c with trace := c.trace.annotate node details }

section

variable (env : Surroundings) (answer : Answer) (collectionId : String)

/-- What a switch gives, and the context once that is settled: the result of the first branch whose
condition holds, or of the last resort. -/
inductive Decides (subject : Option String) (node : Option Nat) (otherwise : Option Consequence) :
    Nat → List Branch → Context → Consequence → Context → Prop where
  | holds {index : Nat} {condition : Expr} {result : Consequence} {rest : List Branch}
    {c c' : Context} {v : Value}
    (value : condition.eval (expressionScope env answer false subject collectionId) c = (.ok v, c'))
    (truthy : v.truthy = true) :
    Decides subject node otherwise index (.mk condition result :: rest) c result
      (marked node [("matched", .int index), ("condition", .str condition.render)] c')
  | passes {index : Nat} {condition : Expr} {result taken : Consequence} {rest : List Branch}
    {c c' d : Context} {v : Value}
    (value : condition.eval (expressionScope env answer false subject collectionId) c = (.ok v, c'))
    (falsy : v.truthy = false)
    (later : Decides subject node otherwise (index + 1) rest c' taken d) :
    Decides subject node otherwise index (.mk condition result :: rest) c taken d
  | otherwise {index : Nat} {result : Consequence} {c : Context} (given : otherwise = some result) :
    Decides subject node otherwise index [] c result
      (marked node [("matched", .str "else")] c)

/-- A directive comes to a repetition. -/
inductive Repeat.InDirective : Again → Directive → Context → Repeat → Prop where
  | here {memory : Again} {raw separator : String} {count : Nat} {unique : Bool} {c inner : Context}
    {node : Option Nat}
    (begins : begun (.act raw (.again count unique separator)) c = (node, inner)) :
    InDirective memory (.act raw (.again count unique separator)) c
      ⟨memory, count, unique, separator, node, inner⟩
  | branch {memory : Again} {raw : String} {branches : List Branch} {otherwise : Option Consequence}
    {c inner taken : Context} {node : Option Nat} {d : Directive} {r : Repeat}
    (begins : begun (.switch raw none branches otherwise) c = (node, inner))
    (decides : Decides env answer collectionId none node otherwise 0 branches inner (.directive d)
      taken)
    (within : InDirective memory d taken r) :
    InDirective memory (.switch raw none branches otherwise) c r
  | subject {memory : Again} {raw : String} {subject : Directive} {branches : List Branch}
    {otherwise : Option Consequence} {c inner : Context} {node : Option Nat} {r : Repeat}
    (begins : begun (.switch raw (some subject) branches otherwise) c = (node, inner))
    (within : InDirective memory subject inner r) :
    InDirective memory (.switch raw (some subject) branches otherwise) c r
  | branchOfSubject {memory later : Again} {raw text : String} {subject : Directive}
    {branches : List Branch} {otherwise : Option Consequence} {c inner known taken : Context}
    {node : Option Nat} {d : Directive} {r : Repeat}
    (begins : begun (.switch raw (some subject) branches otherwise) c = (node, inner))
    (renders : renderDirective env answer collectionId memory subject inner =
      (.ok (text, later), known))
    (decides : Decides env answer collectionId (some text) node otherwise 0 branches known
      (.directive d) taken)
    (within : InDirective later d taken r) :
    InDirective memory (.switch raw (some subject) branches otherwise) c r

/-! ## In patterns -/

/-- Pieces of a pattern come to a repetition. -/
inductive Repeat.InPieces : Again → List Piece → Context → Repeat → Prop where
  | literal {memory : Again} {text : List Char} {start : Nat} {rest : List Piece} {c : Context}
    {r : Repeat} (within : InPieces memory rest c r) :
    InPieces memory (.literal text start :: rest) c r
  | directive {memory : Again} {span : Span} {rest : List Piece} {c : Context} {d : Directive}
    {r : Repeat} (parses : Directive.parse span.expression = .ok d)
    (within : InDirective env answer collectionId memory d c r) :
    InPieces memory (.directive span :: rest) c r
  | later {memory memory' : Again} {span : Span} {rest : List Piece} {c c' : Context}
    {segment : Segment} {r : Repeat}
    (renders : renderSpan env answer collectionId memory span c = (.ok (segment, memory'), c'))
    (within : InPieces memory' rest c' r) : InPieces memory (.directive span :: rest) c r

/-- A pattern comes to a repetition. -/
def Repeat.InPattern (pattern : String) (c : Context) (r : Repeat) : Prop :=
  InPieces env answer collectionId .nothing (Piece.ofPattern pattern.toList) c r

end

/-! ## In entries -/

/-- The frame of the roll of an entry. -/
def frameOf (s : Selection) (table : SimpleTable) : Frame :=
  ⟨table, s.collectionId, s.entry.id, s.entry.description⟩

/-- The sets of an entry, over the default ones of its table. -/
def setsOf (s : Selection) (table : SimpleTable) : Assoc String :=
  Assoc.putAll (table.defaultSets.getD []) s.entry.sets

/-- What guards a set of a table while it is evaluated. -/
def guardOf (collectionId tableId key : String) : String :=
  collectionId ++ ":" ++ tableId ++ "." ++ key

/-- The context in which a set of a table is evaluated. -/
def guardedBy (guard : String) (c : Context) : Context := { c with guards := guard :: c.guards }

/-- The context inside the roll of an entry. -/
def entered (s : Selection) (table : SimpleTable) (c : Context) : Context where
  __ := c
  trace := c.trace.note {
    kind := .entrySelect, label := "Selected: " ++ s.entry.idText, raw := table.id
    value := Json.ofOption s.entry.value, metadata := s.fields }
  frames := frameOf s table :: c.frames

/-- The own patterns of an entry come to a repetition: its value, once its sets are published, or
one of the sets. -/
inductive Repeat.InEntry (env : Surroundings) (fuel : Nat) (s : Selection) (table : SimpleTable)
    (c : Context) (r : Repeat) : Prop where
  | value {sets : Assoc Content} {c' : Context}
    (renders : renderSets env (answerWithin env (fuel + 1)) s.collectionId table.id (setsOf s table)
      (entered s table c) = (.ok sets, c'))
    (within : InPattern env (answerWithin env fuel) s.collectionId (s.entry.value.getD "")
      (if !sets.isEmpty then c'.publish table.id sets else c') r)
  | set {earlier later : Assoc String} {key pattern : String} {sets : Assoc Content}
    {c' guarded : Context} (split : setsOf s table = earlier ++ (key, pattern) :: later)
    (renders : renderSets env (answerWithin env (fuel + 1)) s.collectionId table.id earlier
      (entered s table c) = (.ok sets, c'))
    (opens : Text.holds Span.opening pattern.toList = true)
    (free : c'.guards.contains (guardOf s.collectionId table.id key) = false)
    (guards : guarded = guardedBy (guardOf s.collectionId table.id key) c')
    (ordinary : onlyTable env pattern s.collectionId guarded = (.ok none, guarded))
    (within : InPattern env (answerWithin env fuel) s.collectionId pattern guarded r)

/-! ## The roll of an entry is underway -/

variable {env : Surroundings} {fuel : Nat} {collectionId : String} {frame : Frame}

theorem Underway.begun {d : Directive} {c inner : Context} {node : Option Nat}
    (h : Underway frame c) (hbegun : Eval.begun d c = (node, inner)) : Underway frame inner := by
  obtain ⟨-, rfl⟩ := Prod.mk.inj hbegun
  exact h.of_same rfl rfl rfl

/-- The conditions of a switch leave the roll underway. -/
theorem Decides.underway {subject : Option String} {node : Option Nat} {index : Nat}
    {otherwise : Option Consequence} {branches : List Branch} {c d : Context} {taken : Consequence}
    (h : Decides env (answerWithin env fuel) collectionId subject node otherwise index branches c
      taken d)
    (hc : Underway frame c) : Underway frame d := by
  have hcondition : ∀ {c c' : Context} {condition : Expr} {v : Value}, Underway frame c →
      condition.eval (expressionScope env (answerWithin env fuel) false subject collectionId) c =
        (.ok v, c') → Underway frame c' := by
    intro c c' condition v hc hvalue
    have hlater := hc.condition env fuel subject collectionId condition
    rwa [hvalue] at hlater
  induction h with
  | holds value _ => exact (hcondition hc value).of_same rfl rfl rfl
  | passes value _ _ ih => exact ih (hcondition hc value)
  | otherwise _ => exact hc.of_same rfl rfl rfl

theorem Repeat.InDirective.underway {memory : Again} {d : Directive} {c : Context} {r : Repeat}
    (h : Repeat.InDirective env (answerWithin env fuel) collectionId memory d c r)
    (hc : Underway frame c) : Underway frame r.context := by
  induction h with
  | here begins => exact hc.begun begins
  | branch begins decides _ ih => exact ih (decides.underway (hc.begun begins))
  | subject begins _ ih => exact ih (hc.begun begins)
  | @branchOfSubject memory _ _ _ subject _ _ _ _ _ _ _ _ _ begins renders decides _ ih =>
      have hknown := (hc.begun begins).renderDirective env fuel collectionId memory subject
      rw [renders] at hknown
      exact ih (decides.underway hknown)

theorem Repeat.InPieces.underway {memory : Again} {pieces : List Piece} {c : Context} {r : Repeat}
    (h : Repeat.InPieces env (answerWithin env fuel) collectionId memory pieces c r)
    (hc : Underway frame c) : Underway frame r.context := by
  induction h with
  | literal _ ih => exact ih hc
  | directive _ within => exact within.underway hc
  | @later memory _ span _ _ _ _ _ renders _ ih =>
      have hlater := hc.renderSpan env fuel collectionId memory span
      rw [renders] at hlater
      exact ih hlater

/-- Wherever the patterns of an entry come to a repetition, the roll of the entry is underway. -/
theorem Repeat.InEntry.underway {s : Selection} {table : SimpleTable} {c : Context} {r : Repeat}
    (h : Repeat.InEntry env fuel s table c r)
    (hlookup : c.resolved.lookup (s.collectionId, table.id) = some table)
    (hsource : c.source.Proper) : Underway (frameOf s table) r.context := by
  have hentered : Underway (frameOf s table) (entered s table c) := ⟨rfl, hlookup, hsource⟩
  have hsets : ∀ {sets : Assoc String} {contents : Assoc Content} {c' : Context},
      renderSets env (answerWithin env (fuel + 1)) s.collectionId table.id sets
        (entered s table c) = (.ok contents, c') → Underway (frameOf s table) c' := by
    intro sets contents c' hrun
    have hlater := hentered.renderSets env (fuel + 1) s.collectionId table.id sets
    rwa [hrun] at hlater
  cases h with
  | value renders within =>
      refine Repeat.InPieces.underway within ?_
      split
      · exact (hsets renders).of_same rfl rfl rfl
      · exact hsets renders
  | set _ renders _ _ guards _ within =>
      refine Repeat.InPieces.underway within ?_
      rw [guards]
      exact (hsets renders).of_same rfl rfl rfl

/-! ## What succeeds around a repetition -/

section

variable {answer : Answer} {r : Repeat} {c : Context}

/-- A repetition gives a text. -/
def Repeat.Ran (env : Surroundings) (answer : Answer) (collectionId : String) (r : Repeat) : Prop :=
  ∃ text c', r.run env answer collectionId = (.ok text, c')

theorem performing_eq_ok {d : Directive} {body : Option Nat → Eval (String × Again)}
    {c c' inner : Context} {node : Option Nat} {output : String × Again}
    (h : performing d body c = (.ok output, c')) (hbegun : Eval.begun d c = (node, inner)) :
    ∃ c'', body node inner = (.ok output, c'') := by
  obtain ⟨_, c₁, hlog, htraced⟩ := Computation.bind_eq_ok h
  cases hlog
  rw [traced, Computation.get_bind_apply] at htraced
  obtain ⟨ended, hbody, -⟩ := inside_eq_ok htraced
  obtain ⟨⟨text, memory⟩, c₂, hrun, hset⟩ := Computation.bind_eq_ok hbody
  obtain ⟨rfl, rfl⟩ := Prod.mk.inj hbegun
  cases hset
  exact ⟨c₂, hrun⟩

/-- A switch goes on with what it gives. -/
theorem Decides.renders {subject : Option String} {node : Option Nat} {index : Nat}
    {otherwise : Option Consequence} {branches : List Branch} {c d : Context} {taken : Consequence}
    (h : Decides env answer collectionId subject node otherwise index branches c taken d)
    (memory : Again) :
    renderBranches env answer collectionId subject node memory index branches
      (renderOtherwise env answer collectionId node memory otherwise) c =
        renderResult env answer collectionId memory taken d := by
  induction h with
  | holds value truthy =>
      rw [renderBranches, Computation.bind_apply, value]
      dsimp only
      rw [if_pos truthy]
      rfl
  | passes value falsy _ ih =>
      rw [renderBranches, Computation.bind_apply, value]
      dsimp only
      rw [if_neg (ne_true_of_eq_false falsy)]
      exact ih
  | otherwise given =>
      rw [renderBranches, given, renderOtherwise]
      rfl

theorem Repeat.InDirective.ran {memory : Again} {d : Directive}
    (h : Repeat.InDirective env answer collectionId memory d c r) {output : String × Again}
    {c' : Context} (hok : renderDirective env answer collectionId memory d c = (.ok output, c')) :
    r.Ran env answer collectionId := by
  have hinside : ∀ {memory : Again} {d : Directive} {c c' inner : Context} {node : Option Nat}
      {output : String × Again}, Eval.begun d c = (node, inner) →
      renderDirective env answer collectionId memory d c = (.ok output, c') →
      ∃ c'', insideStep env answer collectionId memory d node inner = (.ok output, c'') := by
    intro memory d c c' inner node output hbegun hok
    rw [renderDirective_eq] at hok
    exact performing_eq_ok hok hbegun
  induction h generalizing output c' with
  | here begins =>
      obtain ⟨c'', hstep⟩ := hinside begins hok
      obtain ⟨text, c₁, hrun, -⟩ := Computation.bind_eq_ok hstep
      exact ⟨text, c₁, hrun⟩
  | branch begins decides _ ih =>
      obtain ⟨c'', hstep⟩ := hinside begins hok
      rw [insideStep, decides.renders, renderResult] at hstep
      exact ih hstep
  | subject begins _ ih =>
      obtain ⟨c'', hstep⟩ := hinside begins hok
      obtain ⟨_, c₁, hsubject, -⟩ := Computation.bind_eq_ok hstep
      exact ih hsubject
  | branchOfSubject begins renders decides _ ih =>
      obtain ⟨c'', hstep⟩ := hinside begins hok
      rw [insideStep, Computation.bind_apply, renders] at hstep
      dsimp only at hstep
      rw [decides.renders, renderResult] at hstep
      exact ih hstep

theorem Repeat.InPieces.ran {memory : Again} {pieces : List Piece}
    (h : Repeat.InPieces env answer collectionId memory pieces c r)
    (hok : (renderPieces env answer collectionId memory pieces c).1.failure = none) :
    r.Ran env answer collectionId := by
  induction h with
  | literal _ ih => exact ih hok
  | directive parses within =>
      rw [renderPieces_directive] at hok
      split at hok
      · cases hok
      · rename_i hspan
        obtain ⟨d, _, hparsed, hspan⟩ := Computation.bind_eq_ok hspan
        obtain ⟨output, _, hrun, -⟩ := Computation.bind_eq_ok hspan
        rw [parseSpan, parses] at hparsed
        cases hparsed
        exact within.ran hrun
  | later renders _ ih =>
      rw [renderPieces_directive, renders] at hok
      exact ih hok

theorem Repeat.InPattern.ran {pattern text : String} {c' : Context}
    (h : Repeat.InPattern env answer collectionId pattern c r)
    (hok : evalPattern env answer pattern collectionId c = (.ok text, c')) :
    r.Ran env answer collectionId := by
  refine Repeat.InPieces.ran h ?_
  rw [Simulation.evalPattern_apply] at hok
  have htext := congrArg Prod.fst hok
  change (renderPattern env answer pattern collectionId c).1.text = .ok text at htext
  unfold Rendering.text at htext
  split at htext
  · assumption
  · cases htext

/-- The content of a set, unless it is already being evaluated. -/
def contentOf (env : Surroundings) (answer : Answer) (collectionId tableId : String)
    (set : String × String) : Eval Content := do
  let c ← get
  if !Text.holds Span.opening set.2.toList then pure (Content.text set.2)
  else if c.guards.contains (guardOf collectionId tableId set.1) then do
    log .warning ("Set '" ++ set.1 ++ "' of table '" ++ tableId ++ "' references itself")
    pure (Content.text "")
  else guarding (guardOf collectionId tableId set.1) (renderSet env answer set.2 collectionId)

theorem renderSets_cons (tableId : String) (set : String × String) (rest : Assoc String) :
    renderSets env answer collectionId tableId (set :: rest) = (do
      let content ← contentOf env answer collectionId tableId set
      let more ← renderSets env answer collectionId tableId rest
      return (set.1, content) :: more) := by
  funext c
  rw [renderSets, contentOf, guardOf, Computation.get_bind_apply, bind_assoc,
    Computation.get_bind_apply]
  dsimp only
  split
  · rfl
  · split <;> rfl

/-- A set that is not a table alone is evaluated as a pattern. -/
theorem pattern_of_contentOf {tableId key pattern : String} {content : Content}
    {c c' guarded : Context}
    (h : contentOf env answer collectionId tableId (key, pattern) c = (.ok content, c'))
    (hopens : Text.holds Span.opening pattern.toList = true)
    (hfree : c.guards.contains (guardOf collectionId tableId key) = false)
    (hguards : guarded = guardedBy (guardOf collectionId tableId key) c)
    (hordinary : onlyTable env pattern collectionId guarded = (.ok none, guarded)) :
    ∃ text d, answer (.pattern pattern collectionId) guarded = (.ok text, d) := by
  rw [contentOf, Computation.get_bind_apply] at h
  dsimp only at h
  rw [hopens, if_neg (by decide), if_neg (ne_true_of_eq_false hfree), guarding,
    Computation.get_bind_apply] at h
  obtain ⟨_, hset, -⟩ := bracket_eq_ok h
  rw [← guardedBy, ← hguards, renderSet, Computation.bind_apply, hordinary] at hset
  obtain ⟨text, d, hpattern, -⟩ := Computation.bind_eq_ok hset
  exact ⟨text, d, hpattern⟩

/-- The later sets are evaluated where the earlier ones end. -/
theorem renderSets_append {tableId : String} {earlier later : Assoc String}
    {c c₁ c' : Context} {sets contents : Assoc Content}
    (hearlier : renderSets env answer collectionId tableId earlier c = (.ok sets, c₁))
    (h : renderSets env answer collectionId tableId (earlier ++ later) c = (.ok contents, c')) :
    ∃ more, renderSets env answer collectionId tableId later c₁ = (.ok more, c') := by
  induction earlier generalizing c sets contents with
  | nil =>
      cases hearlier
      exact ⟨contents, h⟩
  | cons set rest ih =>
      rw [renderSets_cons] at hearlier
      rw [List.cons_append, renderSets_cons] at h
      obtain ⟨content, c₂, hcontent, hearlier⟩ := Computation.bind_eq_ok hearlier
      obtain ⟨_, _, hsame, h⟩ := Computation.bind_eq_ok h
      cases hcontent.symm.trans hsame
      obtain ⟨_, _, hrest, hlast⟩ := Computation.bind_eq_ok hearlier
      obtain ⟨_, _, hmore, hend⟩ := Computation.bind_eq_ok h
      cases hlast
      cases hend
      exact ih hrest hmore

/-- Evaluating an entry renders its sets, publishes them and renders its value. -/
theorem value_of_outcomeOf {s : Selection} {table : SimpleTable} {c' : Context} {o : Outcome}
    (h : outcomeOf env answer s table c = (.ok o, c')) :
    ∃ sets settled text valued,
      renderSets env answer s.collectionId table.id (setsOf s table) (entered s table c) =
        (.ok sets, settled) ∧
      answer (.pattern (s.entry.value.getD "") s.collectionId)
        (if !sets.isEmpty then settled.publish table.id sets else settled) = (.ok text, valued) := by
  obtain ⟨_, _, hnote, h⟩ := Computation.bind_eq_ok h
  obtain ⟨_, _, hframe, -⟩ := Computation.bind_eq_ok h
  cases hnote
  rw [withFrame, Computation.get_bind_apply] at hframe
  obtain ⟨_, hbody, -⟩ := bracket_eq_ok hframe
  obtain ⟨sets, settled, hsets, hbody⟩ := Computation.bind_eq_ok hbody
  dsimp only at hbody
  rw [modify_if_apply] at hbody
  obtain ⟨text, valued, hvalue, -⟩ := Computation.bind_eq_ok hbody
  exact ⟨sets, settled, text, valued, hsets, hvalue⟩

end

/-- Where the evaluation of an entry succeeds, so does every repetition that occurs in it. -/
theorem Repeat.InEntry.ran {s : Selection} {table : SimpleTable} {c c' : Context} {r : Repeat}
    {o : Outcome} (h : Repeat.InEntry env fuel s table c r)
    (hok : outcomeOf env (answerWithin env (fuel + 1)) s table c = (.ok o, c')) :
    r.Ran env (answerWithin env fuel) s.collectionId := by
  obtain ⟨contents, settled, _, _, hsets, hvalue⟩ := value_of_outcomeOf hok
  cases h with
  | value renders within =>
      cases renders.symm.trans hsets
      exact within.ran hvalue
  | set split renders opens free guards ordinary within =>
      rw [split] at hsets
      obtain ⟨more, hlater⟩ := renderSets_append renders hsets
      rw [renderSets_cons] at hlater
      obtain ⟨content, _, hcontent, -⟩ := Computation.bind_eq_ok hlater
      obtain ⟨_, _, hpattern⟩ := pattern_of_contentOf hcontent opens free guards ordinary
      exact within.ran hpattern

end RandomTables.Eval
