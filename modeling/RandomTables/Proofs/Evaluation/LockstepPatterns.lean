-- SUMMARY: Directives, patterns, answers to calls and operations are in lockstep.
import RandomTables.Proofs.Evaluation.Balance
import RandomTables.Proofs.Evaluation.Lockstep
import RandomTables.Proofs.Evaluation.Segments

/-!
# Patterns in lockstep

Directives are put together from rolls and from what they read, and patterns from the outputs of
their directives. With that every answer to a call and every operation is in lockstep.
-/
namespace RandomTables

universe u

namespace Eval

section

variable (env : Surroundings) (answer : Answer) (collectionId : String)

theorem evalInstance_eq (node : Option Nat) (ref name : String) :
    evalInstance env answer collectionId node ref name = do
      let (text, known) ← recalling name (rollReference env answer collectionId ref)
      annotate node [("instance", .str name), ("cached", .bool known)]
      return text := by
  funext c
  simp only [evalInstance, recalling, Computation.get_bind_apply, bind_assoc]
  cases c.instances.get? name with
  | none => simp only [bind_assoc, pure_bind]
  | some text => simp only [pure_bind]

/-- The text of pieces from left to right. -/
def evalPieces : Again → List Piece → Eval String
  | _, [] => return ""
  | memory, .literal text _ :: rest => do
    return String.ofList text ++ (← evalPieces memory rest)
  | memory, .directive span :: rest => do
    let (segment, memory) ← renderSpan env answer collectionId memory span
    return segment.text ++ (← evalPieces memory rest)

/-- The segments of a rendering join to what its pieces are evaluated to. -/
theorem evalPieces_apply (memory : Again) (pieces : List Piece) (c : Context) :
    evalPieces env answer collectionId memory pieces c =
      (renderPieces env answer collectionId memory pieces c).map Rendering.text id := by
  induction pieces generalizing memory c with
  | nil => rfl
  | cons piece rest ih =>
      cases piece with
      | literal text start =>
          rw [evalPieces, Computation.bind_apply, ih, renderPieces_literal]
          rcases renderPieces env answer collectionId memory rest c with ⟨⟨segments, _ | f⟩, d⟩
          · have hjoin := Segment.join_cons (.ofLiteral text start) segments
            exact congrArg (fun text => (Except.ok text, d)) hjoin.symm
          · rfl
      | directive span =>
          rw [evalPieces, Computation.bind_apply, renderPieces_directive]
          rcases renderSpan env answer collectionId memory span c with ⟨f | ⟨segment, memory⟩, d⟩
          · rfl
          · dsimp only
            rw [Computation.bind_apply, ih]
            rcases renderPieces env answer collectionId memory rest d with ⟨⟨segments, _ | f⟩, e⟩
            · have hjoin := Segment.join_cons segment segments
              exact congrArg (fun text => (Except.ok text, e)) hjoin.symm
            · rfl

/-- A pattern is evaluated piece by piece. -/
theorem evalPattern_eq (pattern : String) :
    evalPattern env answer pattern collectionId =
      evalPieces env answer collectionId .nothing (Piece.ofPattern pattern.toList) := by
  funext c
  rw [evalPieces_apply, Simulation.evalPattern_apply]
  rfl

end

end Eval

namespace Lockstep

variable {ι : Type u} {nodes : (ι → Option Nat) → Prop} {tells : Prop} {a : ι → Answer}
  {α β : Type}

section

variable (env : Surroundings)

/-! ## Directives -/

section

variable (collectionId : String)

theorem rollReference (ref : String) :
    Lockstep nodes tells a fun i => Eval.rollReference env (a i) collectionId ref :=
  .bind (.liftResolution _) fun _ => .callRoll _ _

omit collectionId in
theorem diceAgain (spec : DiceFormula) (count : Nat) (done : List String) :
    Lockstep nodes tells a fun _ => Eval.diceAgain env spec count done := by
  induction count generalizing done with
  | zero => exact .pure _
  | succ count ih =>
      exact .bind (.descending _ _ (.castDice env spec)) fun _ => .bind (.note _) fun _ => ih _

omit collectionId in
theorem entryAgain (frame : Frame) (unique : Bool) (count : Nat) (excluded done : List String) :
    Lockstep nodes tells a fun i =>
      Eval.entryAgain env (a i) frame unique count excluded done := by
  induction count generalizing excluded done with
  | zero => exact .pure _
  | succ count ih =>
      refine .bind (.descending _ _ (.unlessExhausted (.callRoll _ _))) fun drawn => ?_
      cases drawn with
      | none => exact .pure _
      | some o => exact ih _ _

omit env collectionId in
theorem chosenItems (items : Captured) (index : Option Int) (name : String) :
    Lockstep nodes tells a fun _ => Eval.chosenItems items index name := by
  cases index with
  | none => exact .pure _
  | some index => exact .bind (.nthItem items index name) fun _ => .pure _

section

variable {n : ι → Option Nat} (hnode : nodes n)
include hnode

theorem renderMath (raw : String) (e : Expr) :
    Lockstep nodes tells a fun i => Eval.renderMath env (a i) collectionId (n i) raw e := by
  refine .bind (.annotate hnode _) fun _ => .tryCatch (.map ?_) (fun f => ?_) fun f hf i => ?_
  · refine .bind (.eval env true none collectionId e) fun v => ?_
    split
    · exact .bind (.lift _) fun _ => .pure _
    · exact .pure _
  · split
    · exact .bind (.log _ _) fun _ => .bind (.setError hnode _) fun _ => .pure _
    · exact .throw _
  · rcases hf with rfl | ⟨_, rfl⟩ <;> rfl

theorem renderAgain (memory : Again) (count : Nat) (unique : Bool) (separator : String) :
    Lockstep nodes tells a fun i =>
      Eval.renderAgain env (a i) collectionId (n i) memory count unique separator := by
  cases memory with
  | dice spec =>
      refine .bind (.diceAgain env spec count []) fun _ => ?_
      exact .bind (.annotate hnode _) fun _ => .pure _
  | ref ref =>
      refine .bind (.descending _ _ (.rollMany env ref count collectionId unique)) fun _ => ?_
      exact .bind (.annotate hnode _) fun _ => .pure _
  | nothing =>
      refine .look (fun _ => rfl) fun c => ?_
      cases c.frames.head? with
      | none => exact .bind (.log _ _) fun _ => .pure _
      | some frame =>
          refine .bind (.annotate hnode _) fun _ => ?_
          exact .bind (.entryAgain env _ unique count _ _) fun _ => .pure _

theorem renderVariable (name : String) (importAlias : Option String) :
    Lockstep nodes tells a fun i =>
      Eval.renderVariable env (a i) collectionId (n i) name importAlias := by
  cases importAlias with
  | some importAlias =>
      refine .bind (.readImported env importAlias name collectionId) fun _ => ?_
      exact .bind (.annotate hnode _) fun _ => .pure _
  | none =>
      refine .bind (.sortOfVariable env name collectionId) fun _ => ?_
      exact .bind (.annotate hnode _) fun _ => .readVariable env name collectionId

theorem renderCaptureAccess (name : String) (index : Option Int) (asked : Option CaptureAttribute)
    (separator : Option String) :
    Lockstep nodes tells a fun i =>
      Eval.renderCaptureAccess env (a i) collectionId (n i) name index asked separator := by
  refine .bind (.readItems env name collectionId) fun items => .bind (.annotate hnode _) fun _ => ?_
  exact .ite (.pure _) (.bind (.chosenItems items index name) fun _ => .pure _)

/-- Every action is put together from its reads and rolls. -/
theorem renderAction (memory : Again) (raw : String) (action : Action) :
    Lockstep nodes tells a fun i =>
      Eval.renderAction env (a i) collectionId (n i) memory raw action := by
  cases action with
  | dice spec =>
      exact .bind (.castDice env spec) fun _ => .bind (.annotate hnode _) fun _ => .pure _
  | math e => exact .renderMath env collectionId hnode raw e
  | table ref instanceName =>
      cases instanceName with
      | some name =>
          simp only [Eval.renderAction, Eval.evalInstance_eq]
          refine .bind (.recalling name _) fun _ => ?_
          exact .bind (.annotate hnode _) fun _ => .pure _
      | none =>
          refine .bind (.rollReference env collectionId ref) fun _ => ?_
          exact .bind (.annotate hnode _) fun _ => .pure _
  | multiRoll count ref unique separator =>
      refine .bind (.evalCount env count collectionId) fun n => ?_
      refine .bind (.rollMany env ref n collectionId unique) fun _ => ?_
      exact .bind (.annotate hnode _) fun _ => .pure _
  | unique count ref separator =>
      refine .bind (.rollMany env ref count collectionId true) fun _ => ?_
      exact .bind (.annotate hnode _) fun _ => .pure _
  | again count unique separator =>
      exact .renderAgain env collectionId hnode memory count unique separator
  | «variable» name importAlias => exact .renderVariable env collectionId hnode name importAlias
  | captureAccess name index asked separator =>
      exact .renderCaptureAccess env collectionId hnode name index asked separator
  | captureProperty name index properties separator =>
      refine .bind (.readItems env name collectionId) fun items => ?_
      refine .bind (.chosenItems items index name) fun _ => ?_
      exact .bind (.annotate hnode _) fun _ => .pure _
  | placeholder name property =>
      refine .bind (.readPlaceholder env name property) fun _ => ?_
      exact .bind (.annotate hnode _) fun _ => .pure _
  | capture count ref target unique silent separator =>
      refine .bind (.evalCount env count collectionId) fun n => ?_
      refine .bind (.rollMany env ref n collectionId unique) fun outcomes => ?_
      refine .bind (.capture target _) fun _ => ?_
      exact .bind (.annotate hnode _) fun _ => .pure _
  | collect name property fromSets unique separator =>
      refine .bind (.readItems env name collectionId) fun items => ?_
      exact .bind (.annotate hnode _) fun _ => .pure _

end

omit env collectionId in
theorem performing (d : Directive) {f : ι → Option Nat → Eval (String × Again)}
    (h : ∀ n : ι → Option Nat, nodes n → Lockstep nodes tells a fun i => f i (n i)) :
    Lockstep nodes tells a fun i => Eval.performing d (f i) :=
  .bind (.log _ _) fun _ => .traced _ fun n hnode =>
    .bind (h n hnode) fun _ => .bind (.setValue hnode _) fun _ => .pure _

mutual

/-- What a directive does inside its step, by induction on its switches. -/
theorem insideStep (memory : Again) {n : ι → Option Nat} (hnode : nodes n) : ∀ d : Directive,
    Lockstep nodes tells a fun i => Eval.insideStep env (a i) collectionId memory d (n i)
  | .act raw action =>
      .bind (.renderAction env collectionId hnode memory raw action) fun _ => .pure _
  | .switch _ none branches otherwise =>
      renderBranches none hnode memory 0 branches (renderOtherwise hnode memory otherwise)
  | .switch _ (some subject) branches otherwise => by
      simp only [Eval.insideStep, Eval.renderDirective_eq]
      refine .bind (.performing subject fun _ h => insideStep memory h subject) fun output => ?_
      exact renderBranches (some output.1) hnode output.2 0 branches
        (renderOtherwise hnode output.2 otherwise)

theorem renderBranches (subject : Option String) {n : ι → Option Nat} (hnode : nodes n)
    (memory : Again) (index : Nat) : ∀ branches : List Branch,
      ∀ {x : ι → Eval (String × Again)}, Lockstep nodes tells a x →
      Lockstep nodes tells a fun i =>
        Eval.renderBranches env (a i) collectionId subject (n i) memory index branches (x i)
  | [], _, hotherwise => by
      simp only [Eval.renderBranches]
      exact hotherwise
  | .mk condition consequence :: rest, _, hotherwise => by
      simp only [Eval.renderBranches]
      refine .bind (.eval env false subject collectionId condition) fun v => .ite ?_ ?_
      · exact .bind (.annotate hnode _) fun _ => renderResult memory consequence
      · exact renderBranches subject hnode memory (index + 1) rest hotherwise

theorem renderOtherwise {n : ι → Option Nat} (hnode : nodes n) (memory : Again) :
    ∀ otherwise : Option Consequence, Lockstep nodes tells a fun i =>
      Eval.renderOtherwise env (a i) collectionId (n i) memory otherwise
  | some consequence => by
      simp only [Eval.renderOtherwise]
      exact .bind (.annotate hnode _) fun _ => renderResult memory consequence
  | none => by
      simp only [Eval.renderOtherwise]
      exact .bind (.annotate hnode _) fun _ => .pure _

theorem renderResult (memory : Again) : ∀ result : Consequence,
    Lockstep nodes tells a fun i => Eval.renderResult env (a i) collectionId memory result
  | .literal _ => by
      simp only [Eval.renderResult]
      exact .pure _
  | .directive d => by
      simp only [Eval.renderResult, Eval.renderDirective_eq]
      exact .performing d fun _ h => insideStep memory h d

end

theorem renderDirective (memory : Again) (d : Directive) :
    Lockstep nodes tells a fun i => Eval.renderDirective env (a i) collectionId memory d := by
  simp only [Eval.renderDirective_eq]
  exact .performing d fun _ h => .insideStep env collectionId memory h d

end

/-! ## Patterns -/

section

variable (collectionId : String)

theorem parseSpan (span : Span) : Lockstep nodes tells a fun _ => Eval.parseSpan span := by
  unfold Eval.parseSpan
  split
  · exact .pure _
  · exact .bind (.note _) fun _ => .throw _
  · exact .throw _

theorem renderSpan (memory : Again) (span : Span) :
    Lockstep nodes tells a fun i => Eval.renderSpan env (a i) collectionId memory span :=
  .bind (.parseSpan span) fun d =>
    .bind (.renderDirective env collectionId memory d) fun _ => .pure _

theorem evalPieces (memory : Again) (pieces : List Piece) :
    Lockstep nodes tells a fun i => Eval.evalPieces env (a i) collectionId memory pieces := by
  induction pieces generalizing memory with
  | nil => exact .pure _
  | cons piece rest ih =>
      cases piece with
      | literal chars start => exact .bind (ih memory) fun _ => .pure _
      | directive span =>
          refine .bind (.renderSpan env collectionId memory span) fun rendered => ?_
          exact .bind (ih rendered.2) fun _ => .pure _

theorem evalPattern (pattern : String) :
    Lockstep nodes tells a fun i => Eval.evalPattern env (a i) pattern collectionId := by
  simp only [Eval.evalPattern_eq]
  exact .evalPieces env collectionId .nothing _

/-! ## Shared variables -/

theorem referredItem (d : Directive) :
    Lockstep nodes tells a fun i => Eval.referredItem env (a i) collectionId d := by
  unfold Eval.referredItem
  split
  · refine .bind (.readItems env _ collectionId) fun items => ?_
    exact .bind (.nthItem items _ _) fun _ => .pure _
  · exact .bind (.readItems env _ collectionId) fun items => .nthItem items _ _
  · exact .pure _

theorem evalKeeping (pattern : String) :
    Lockstep nodes tells a fun i => Eval.evalKeeping env (a i) pattern collectionId := by
  refine .bind (.onlyTable env pattern collectionId) fun found => ?_
  cases found with
  | some target => exact .bind (.callRoll _ _) fun _ => .pure _
  | none =>
      refine .bind (.lift _) fun only => ?_
      have htext : Lockstep nodes tells a fun i =>
          (do return { value := ← a i (.pattern pattern collectionId) } : Eval Item) :=
        .bind (.callPattern _ _) fun _ => .pure _
      cases only with
      | none => exact htext
      | some d =>
          refine .bind (.referredItem env collectionId d) fun referred => ?_
          cases referred with
          | none => exact htext
          | some item => exact .pure _

theorem evalDeclaration (d : Declaration) :
    Lockstep nodes tells a fun i => Eval.evalDeclaration env (a i) d collectionId :=
  .ite (.bind (.evalKeeping env _ _) fun _ => .pure _) (.bind (.callPattern _ _) fun _ => .pure _)

theorem evalShared (owner : String) (d : Declaration) :
    Lockstep nodes tells a fun i => Eval.evalShared env (a i) owner collectionId d :=
  .traced _ fun _ hnode =>
    .bind (.evalDeclaration env _ d) fun _ => .bind (.setValue hnode _) fun _ => .pure _

end

/-! ## Answers and operations -/

/-- Every call is answered by an evaluation put together from further calls. -/
theorem answerOnce (htells : tells) (call : Call α) :
    Lockstep nodes tells a fun i => Eval.answerOnce env (a i) call := by
  cases call with
  | pattern text collectionId => exact .evalPattern env collectionId text
  | roll target excluded => exact .roll env htells target excluded
  | shared owner collectionId d => exact .evalShared env collectionId owner d

theorem operation (htells : tells) (op : Operation α) :
    Lockstep nodes tells a fun i => op.run env (a i) := by
  cases op with
  | pattern text collectionId => exact .evalPattern env collectionId text
  | directive collectionId memory d => exact .renderDirective env collectionId memory d
  | roll target excluded => exact .roll env htells target excluded
  | rollMany ref count collectionId unique => exact .rollMany env ref count collectionId unique
  | lookup name collectionId => exact .readVariable env name collectionId
  | placeholder name property => exact .readPlaceholder env name property

end

end Lockstep

end RandomTables
