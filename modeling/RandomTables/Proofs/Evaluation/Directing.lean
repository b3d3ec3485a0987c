-- SUMMARY: Directives of every kind, and switches of any nesting, agree in simulations.
import RandomTables.Evaluation.Directive
import RandomTables.Proofs.Evaluation.Rolling

/-!
# Directives in simulations

Every action agrees with itself where calls are answered alike, and a switch does by induction on
the tree of its subject, conditions and results. The steps of the trace may differ: an action takes
the number of its own step on each side.
-/
namespace RandomTables

namespace Eval

variable (env : Surroundings) (answer : Answer) (collectionId : String) (memory : Again)

/-- What a directive does inside its step. -/
def insideStep : Directive → Option Nat → Eval (String × Again)
  | .act raw action, node => do
    let output ← renderAction env answer collectionId node memory raw action
    return (output, remembered memory action)
  | .switch _ none branches otherwise, node =>
    renderBranches env answer collectionId none node memory 0 branches
      (renderOtherwise env answer collectionId node memory otherwise)
  | .switch _ (some subject) branches otherwise, node => do
    let (text, memory) ← renderDirective env answer collectionId memory subject
    renderBranches env answer collectionId (some text) node memory 0 branches
      (renderOtherwise env answer collectionId node memory otherwise)

theorem renderDirective_eq (d : Directive) :
    renderDirective env answer collectionId memory d =
      performing d (insideStep env answer collectionId memory d) := by
  cases d with
  | act raw action => rw [renderDirective]; rfl
  | switch raw subject branches otherwise =>
      cases subject <;> rw [renderDirective] <;> rfl

end Eval

namespace Simulation

variable {S : Simulation} {w : Nesting} {a b : Answer} {n m : Option Nat}

theorem ordinary_of_number {v : Value} {f : Failure} (h : v.number = .error f) : f.Ordinary := by
  unfold Value.number at h
  split at h
  · cases h
  · cases h
    exact .parse _

/-- What may be repeated is made of the material. -/
def Remembers (S : Simulation) : Again → Prop
  | .dice spec => S.material.calculation (.dice spec)
  | _ => True

namespace Yields

theorem chosenItems (items : Captured) (index : Option Int) (name : String) :
    S.Related w (Eval.chosenItems items index name) (Eval.chosenItems items index name) := by
  cases index with
  | none => exact .pure trivial
  | some index => exact .next (.nthItem _ _ _) fun _ => .pure trivial

/-! ## Calculations -/

theorem evalNumber (hS : S.Grounded) {known shown : String → Prop} {e : Expr}
    {collectionId : String}
    (hscope : S.Scopes w known shown (Eval.expressionScope S.env a true none collectionId)
      (Eval.expressionScope S.second b true none collectionId))
    (hreads : e.Reads known shown) (he : S.material.calculation (.expression e)) :
    S.Related w (Eval.evalNumber S.env a collectionId e)
      (Eval.evalNumber S.second b collectionId e) := by
  apply Yields.next (.eval hS hscope hreads he)
  intro v
  split
  · refine .next (.lift ?_) fun _ => .pure trivial
    exact .of_ordinary hS (fun _ _ => trivial) fun f => ordinary_of_number
  · exact .pure trivial

/-- A calculation agrees where its handler lets pass what is tolerated. -/
theorem renderReading (htolerated : ∀ f g, S.tolerates f g → f.Uncaught)
    {e : Expr} (hpasses : S.Passes (Reading.math e).Catches) (hnode : S.tracing.steps n m)
    {collectionId : String} (raw : String)
    (h : S.Related w (Eval.evalNumber S.env a collectionId e)
      (Eval.evalNumber S.second b collectionId e)) :
    S.Related w (Eval.renderMath S.env a collectionId n raw e)
      (Eval.renderMath S.second b collectionId m raw e) := by
  refine .next (.annotate hnode _) fun _ => .tryCatch (h.map fun _ _ => trivial) hpasses
    (fun f g htol => (htolerated f g htol).not_caught _) (fun f hf c => ?_) (fun f hf c => ?_)
    fun f hf => ?_
  · split
    · exact absurd ⟨_, rfl⟩ hf
    · rfl
  · split
    · exact absurd ⟨_, rfl⟩ hf
    · rfl
  · split
    · apply Yields.next (.log _ _)
      intro _
      exact .next (.setError hnode _) fun _ => .pure trivial
    · exact .throw hf

section

variable (hS : S.Lawful) (hab : S.Answers a b) (hw : S.Asking w) (hnode : S.tracing.steps n m)
  (collectionId : String)
include hS hab hw

theorem renderMath (hnode : S.tracing.steps n m) (raw : String) {e : Expr}
    (he : S.material.calculation (.expression e)) (hreading : S.material.reading (.math e)) :
    S.Related w (Eval.renderMath S.env a collectionId n raw e)
      (Eval.renderMath S.second b collectionId m raw e) := by
  rcases hS.reading _ hreading with hpasses | hwithin
  · have hscope := scopes_calculation hS hab hw none collectionId
    have hnumber := evalNumber hS.toGrounded hscope e.reads_any he
    exact .renderReading hS.tolerated hpasses hnode raw hnumber
  · have hscope := scopes_harboured hS hab hw none collectionId
    have hnumber := evalNumber hS.strict hscope hwithin he
    exact .of_strict (.renderReading (S := S.strict) (fun _ _ => False.elim) (fun _ _ => False.elim)
      hnode raw hnumber)

/-! ## Rolls -/

theorem rollReference (ref : String) :
    S.Related w (Eval.rollReference S.env a collectionId ref)
      (Eval.rollReference S.second b collectionId ref) := by
  apply Joins.bind (.liftResolution hS.toGrounded (hS.resolved _ ref collectionId))
  intro target target' ht
  exact hab.roll target target' [] hw ht

include hnode

theorem evalInstance (ref name : String) :
    S.Related w (Eval.evalInstance S.env a collectionId n ref name)
      (Eval.evalInstance S.second b collectionId m ref name) := by
  refine .get_bind fun c v _ _ => ?_
  dsimp only
  split
  · exact .next (.annotate hnode _) fun _ => .pure trivial
  · apply Yields.next (.rollReference hS hab hw collectionId ref)
    intro outcome
    refine .next (.change (fun _ => []) (fun _ => rfl) (fun _ => rfl) fun _ _ => rfl) fun _ => ?_
    exact .next (.annotate hnode _) fun _ => .pure trivial

theorem renderTable (ref : String) :
    S.Related w (Eval.renderTable S.env a collectionId n ref)
      (Eval.renderTable S.second b collectionId m ref) := by
  apply Yields.next (.rollReference hS hab hw collectionId ref)
  intro outcome
  exact .next (.annotate hnode _) fun _ => .pure trivial

theorem renderMultiRoll {count : Multiplicity}
    (hcount : S.material.Calculates count.calculations) (ref : String) (unique : Bool)
    (separator : String) :
    S.Related w (Eval.renderMultiRoll S.env a collectionId n count ref unique separator)
      (Eval.renderMultiRoll S.second b collectionId m count ref unique separator) := by
  apply Yields.next (.evalCount hS hab hw hcount collectionId)
  intro n
  apply Yields.next (.rollMany hS hab hw _ _ _ _)
  intro outcomes
  exact .next (.annotate hnode _) fun _ => .pure trivial

theorem renderUnique (count : Nat) (ref separator : String) :
    S.Related w (Eval.renderUnique S.env a collectionId n count ref separator)
      (Eval.renderUnique S.second b collectionId m count ref separator) := by
  apply Yields.next (.rollMany hS hab hw _ _ _ _)
  intro outcomes
  exact .next (.annotate hnode _) fun _ => .pure trivial

/-! ## Repetitions -/

omit hab hnode in
theorem repeating {α : Type} {P : α → Prop} {x y : Eval α}
    (h : ∀ v, S.Asking v → v.frames = w.frames → S.Yields v P x y) :
    S.Yields w P (Eval.repeating S.env x) (Eval.repeating S.second y) := by
  apply Yields.descending hS (hw.descends hS)
  intro hentered
  exact h _ ((hentered.begun hS).asking hS) rfl

omit hab hnode in
theorem diceAgain {spec : DiceFormula} (hspec : S.material.calculation (.dice spec)) (count : Nat)
    (done : List String) :
    S.Related w (Eval.diceAgain S.env spec count done)
      (Eval.diceAgain S.second spec count done) := by
  induction count generalizing done with
  | zero => exact .pure trivial
  | succ count ih =>
      apply Yields.next (.repeating hS hw fun v _ _ => .castDice hS hspec)
      intro result
      exact .next (.note nofun) fun _ => ih _

omit hnode in
theorem entryAgain {frame frame' : Frame} (hframe : S.Framed frame frame')
    (hopen : frame ∈ w.frames) (unique : Bool) (count : Nat) (excluded done : List String) :
    S.Related w (Eval.entryAgain S.env a frame unique count excluded done)
      (Eval.entryAgain S.second b frame' unique count excluded done) := by
  induction count generalizing excluded done with
  | zero => exact .pure trivial
  | succ count ih =>
      have htarget : S.Targets w.frames ⟨.table (.simple frame.table), frame.collectionId⟩
          ⟨.table (.simple frame'.table), frame'.collectionId⟩ := by
        obtain ⟨h⟩ := hframe
        exact .table (.simple h (.inr ⟨_, hopen, rfl, rfl⟩))
      refine .next (.repeating hS hw fun v hv hframes => ?_) fun outcome => ?_
      · rw [← hframes] at htarget
        exact .unlessExhausted hS (hab.roll _ _ _ hv htarget)
      split
      · exact .pure trivial
      · exact ih _ _

theorem renderAgain {memory : Again} (hmemory : Remembers S memory) (count : Nat) (unique : Bool)
    (separator : String) :
    S.Related w (Eval.renderAgain S.env a collectionId n memory count unique separator)
      (Eval.renderAgain S.second b collectionId m memory count unique separator) := by
  cases memory with
  | dice spec =>
      apply Yields.next (.diceAgain hS hw hmemory count [])
      intro _
      exact .next (.annotate hnode _) fun _ => .pure trivial
  | ref ref =>
      apply Yields.next (.repeating hS hw fun v hv _ => .rollMany hS hab hv _ _ _ _)
      intro _
      exact .next (.annotate hnode _) fun _ => .pure trivial
  | nothing =>
      refine .get_bind fun c v hnesting hv => ?_
      have hframes : List.Forall₂ S.Framed c.frames v.frames := hv.frames
      have hopen : c.frames = w.frames := congrArg Nesting.frames hnesting
      dsimp only
      generalize c.frames = frames at hframes hopen ⊢
      generalize v.frames = frames' at hframes ⊢
      cases hframes with
      | nil => exact .next (.log _ _) fun _ => .pure trivial
      | cons hframe _ =>
          have hagain := entryAgain hS hab hw hframe (hopen ▸ List.mem_cons_self) unique count
          obtain ⟨h⟩ := hframe
          have hid := congrArg (fun t : SimpleTable => t.id) (SimpleTable.eq_of_bare h.bare)
          dsimp only [List.head?_cons, Eval.Frame.keys] at hid ⊢
          rw [hid]
          apply Yields.next (.annotate hnode _)
          intro _
          exact .next (hagain _ _) fun _ => .pure trivial

/-! ## Variables and captures -/

theorem renderVariable (name : String) (importAlias : Option String) :
    S.Related w (Eval.renderVariable S.env a collectionId n name importAlias)
      (Eval.renderVariable S.second b collectionId m name importAlias) := by
  cases importAlias with
  | some importAlias =>
      apply Yields.next (.readImported hS.toGrounded _ _ _)
      intro _
      exact .next (.annotate hnode _) fun _ => .pure trivial
  | none =>
      apply Yields.next (.sortOfVariable hS.toGrounded _ _)
      intro _
      exact .next (.annotate hnode _) fun _ => .readVariable hS.toGrounded (hab.shared _ hw) _

theorem renderCaptureAccess (name : String) (index : Option Int)
    (asked : Option CaptureAttribute) (separator : Option String) :
    S.Related w (Eval.renderCaptureAccess S.env a collectionId n name index asked separator)
      (Eval.renderCaptureAccess S.second b collectionId m name index asked separator) := by
  apply Yields.next (.readItems hS.toGrounded (hab.shared _ hw) _)
  intro items
  apply Yields.next (.annotate hnode _)
  intro _
  split
  · exact .pure trivial
  · exact .next (.chosenItems _ _ _) fun _ => .pure trivial

theorem renderCaptureProperty (name : String) (index : Option Int) (properties : List String)
    (separator : Option String) :
    S.Related w (Eval.renderCaptureProperty S.env a collectionId n name index properties separator)
      (Eval.renderCaptureProperty S.second b collectionId m name index properties separator) := by
  apply Yields.next (.readItems hS.toGrounded (hab.shared _ hw) _)
  intro items
  apply Yields.next (.chosenItems _ _ _)
  intro _
  exact .next (.annotate hnode _) fun _ => .pure trivial

omit collectionId in
theorem renderPlaceholder (name : String) (property : Option String) :
    S.Related w (Eval.renderPlaceholder S.env a n name property)
      (Eval.renderPlaceholder S.second b m name property) := by
  apply Yields.next (.readPlaceholder hS hab hw _ _)
  intro text
  exact .next (.annotate hnode _) fun _ => .pure trivial

omit hS hab hw hnode collectionId in
theorem capture (name : String) (items : Captured) :
    S.Related w (modify (Context.capture name items) : Eval Unit)
      (modify (Context.capture name items)) := by
  let added (c : Context) : List LogRecord :=
    if c.captures.has name then
      [⟨.warning, .context, "Capture variable '$" ++ name ++ "' overwritten"⟩]
    else []
  refine .change added (fun c => ?_) (fun c => ?_) fun c v => ?_ <;>
    · unfold Context.capture
      dsimp only [added]
      split <;> rfl

theorem renderCapture {count : Multiplicity}
    (hcount : S.material.Calculates count.calculations) (ref target : String)
    (unique silent : Bool) (separator : String) :
    S.Related w (Eval.renderCapture S.env a collectionId n count ref target unique silent separator)
      (Eval.renderCapture S.second b collectionId m count ref target unique silent separator) := by
  apply Yields.next (.evalCount hS hab hw hcount _)
  intro _
  apply Yields.next (.rollMany hS hab hw _ _ _ _)
  intro _
  exact .next (.capture _ _) fun _ => .next (.annotate hnode _) fun _ => .pure trivial

theorem renderCollect (name property : String) (fromSets unique : Bool) (separator : String) :
    S.Related w (Eval.renderCollect S.env a collectionId n name property fromSets unique separator)
      (Eval.renderCollect S.second b collectionId m name property fromSets unique separator) := by
  apply Yields.next (.readItems hS.toGrounded (hab.shared _ hw) _)
  intro items
  exact .next (.annotate hnode _) fun _ => .pure trivial

/-! ## All directives -/

theorem renderAction {memory : Again} (hmemory : Remembers S memory) (raw : String)
    {action : Action} (huses : S.material.Uses action.calculations action.readings) :
    S.Related w (Eval.renderAction S.env a collectionId n memory raw action)
      (Eval.renderAction S.second b collectionId m memory raw action) := by
  have haction := huses.calculates
  cases action with
  | dice spec =>
      apply Yields.next (.castDice hS (haction _ (List.mem_singleton_self _)))
      intro _
      exact .next (.annotate hnode _) fun _ => .pure trivial
  | math e =>
      exact .renderMath hS hab hw _ hnode _ (haction _ (List.mem_singleton_self _))
        (huses.reads _ (List.mem_singleton_self _))
  | table ref instanceName =>
      cases instanceName with
      | some name => exact .evalInstance hS hab hw hnode _ _ _
      | none => exact .renderTable hS hab hw hnode _ _
  | multiRoll count ref unique separator =>
      exact .renderMultiRoll hS hab hw hnode _ haction _ _ _
  | unique count ref separator => exact .renderUnique hS hab hw hnode _ _ _ _
  | again count unique separator => exact .renderAgain hS hab hw hnode _ hmemory _ _ _
  | «variable» name importAlias => exact .renderVariable hS hab hw hnode _ _ _
  | captureAccess name index asked separator =>
      exact .renderCaptureAccess hS hab hw hnode _ _ _ _ _
  | captureProperty name index properties separator =>
      exact .renderCaptureProperty hS hab hw hnode _ _ _ _ _
  | placeholder name property => exact .renderPlaceholder hS hab hw hnode _ _
  | capture count ref target unique silent separator =>
      exact .renderCapture hS hab hw hnode _ haction _ _ _ _ _
  | collect name property fromSets unique separator =>
      exact .renderCollect hS hab hw hnode _ _ _ _ _ _

end

theorem remembers_remembered {memory : Again} (hmemory : Remembers S memory) {action : Action}
    (haction : S.material.Calculates action.calculations) :
    Remembers S (Eval.remembered memory action) := by
  cases action with
  | dice spec => exact haction _ (List.mem_singleton_self _)
  | table ref instanceName =>
      cases instanceName with
      | some name => exact hmemory
      | none => trivial
  | multiRoll | unique | capture => trivial
  | math | again | «variable» | captureAccess | captureProperty | placeholder | collect =>
      exact hmemory

theorem performing (hw : S.Asking w) (d : Directive)
    {body body' : Option Nat → Eval (String × Again)}
    (h : ∀ v n m, S.Asking v → S.tracing.steps n m →
      S.Yields v (fun r => Remembers S r.2) (body n) (body' m)) :
    S.Yields w (fun r => Remembers S r.2) (Eval.performing d body) (Eval.performing d body') := by
  refine .next (.log _ _) fun _ => .traced nofun fun n m steps hnode => ?_
  refine .bind (h _ n m hw hnode) fun r hr => ?_
  exact .next (.setValue hnode _) fun _ => .pure hr

mutual

/-- What directives do inside their steps agrees. -/
theorem insideStep (hS : S.Lawful) (hab : S.Answers a b) (collectionId : String)
    {w : Nesting} {n m : Option Nat} {memory : Again} (hw : S.Asking w)
    (hnode : S.tracing.steps n m) (hmemory : Remembers S memory) :
    ∀ {d : Directive}, S.material.Directive d →
      S.Yields w (fun r => Remembers S r.2) (Eval.insideStep S.env a collectionId memory d n)
        (Eval.insideStep S.second b collectionId memory d m)
  | .act raw action, hd => by
      apply Yields.next (.renderAction hS hab hw hnode collectionId hmemory raw hd)
      intro _
      exact .pure (remembers_remembered hmemory hd.calculates)
  | .switch raw none branches otherwise, hd => by
      obtain ⟨hbranches, helse⟩ := Material.uses_append.1 hd
      have hotherwise := renderOtherwise hS hab collectionId hw hnode hmemory helse
      exact renderBranches hS hab collectionId hw hnode hmemory hbranches hotherwise
  | .switch raw (some subject) branches otherwise, hd => by
      obtain ⟨hsubject, hrest⟩ := Material.uses_append.1 hd
      obtain ⟨hbranches, helse⟩ := Material.uses_append.1 hrest
      rw [Eval.insideStep, Eval.insideStep, Eval.renderDirective_eq, Eval.renderDirective_eq]
      have hstep := Yields.performing hw subject fun v n m hv hnode =>
        insideStep hS hab collectionId hv hnode hmemory hsubject
      apply Yields.bind hstep
      intro r hr
      have hotherwise := renderOtherwise hS hab collectionId hw hnode hr helse
      exact renderBranches hS hab collectionId hw hnode hr hbranches hotherwise

/-- The first branch whose condition holds is the same on both sides. -/
theorem renderBranches (hS : S.Lawful) (hab : S.Answers a b) (collectionId : String)
    {w : Nesting} {n m : Option Nat} {memory : Again} (hw : S.Asking w)
    (hnode : S.tracing.steps n m) (hmemory : Remembers S memory) {subject : Option String}
    {index : Nat} {otherwise otherwise' : Eval (String × Again)} :
    ∀ {branches : List Branch},
      S.material.Uses (branchCalculations branches) (branchReadings branches) →
      S.Yields w (fun r => Remembers S r.2) otherwise otherwise' →
      S.Yields w (fun r => Remembers S r.2)
        (Eval.renderBranches S.env a collectionId subject n memory index branches otherwise)
        (Eval.renderBranches S.second b collectionId subject m memory index branches otherwise')
  | [], _, hotherwise => by
      rw [Eval.renderBranches, Eval.renderBranches]
      exact hotherwise
  | .mk condition result :: rest, hbranches, hotherwise => by
      rw [Eval.renderBranches, Eval.renderBranches]
      obtain ⟨⟨hcalculation, hreading⟩, hafter⟩ := Material.uses_cons.1 hbranches
      obtain ⟨hresult, hrest⟩ := Material.uses_append.1 hafter
      apply Yields.next (.condition hS hab hw hcalculation hreading subject collectionId)
      intro v
      split
      · apply Yields.next (.annotate hnode _)
        intro _
        exact renderResult hS hab collectionId hw hmemory hresult
      · exact renderBranches hS hab collectionId hw hnode hmemory hrest hotherwise

theorem renderOtherwise (hS : S.Lawful) (hab : S.Answers a b) (collectionId : String)
    {w : Nesting} {n m : Option Nat} {memory : Again} (hw : S.Asking w)
    (hnode : S.tracing.steps n m) (hmemory : Remembers S memory) :
    ∀ {otherwise : Option Consequence},
      S.material.Uses (elseCalculations otherwise) (elseReadings otherwise) →
      S.Yields w (fun r => Remembers S r.2)
        (Eval.renderOtherwise S.env a collectionId n memory otherwise)
        (Eval.renderOtherwise S.second b collectionId m memory otherwise)
  | some result, hresult => by
      rw [Eval.renderOtherwise, Eval.renderOtherwise]
      exact .next (.annotate hnode _) fun _ => renderResult hS hab collectionId hw hmemory hresult
  | none, _ => by
      rw [Eval.renderOtherwise, Eval.renderOtherwise]
      exact .next (.annotate hnode _) fun _ => .pure hmemory

theorem renderResult (hS : S.Lawful) (hab : S.Answers a b) (collectionId : String)
    {w : Nesting} {memory : Again} (hw : S.Asking w) (hmemory : Remembers S memory) :
    ∀ {result : Consequence}, S.material.Uses result.calculations result.readings →
      S.Yields w (fun r => Remembers S r.2)
        (Eval.renderResult S.env a collectionId memory result)
        (Eval.renderResult S.second b collectionId memory result)
  | .literal text, _ => by
      rw [Eval.renderResult, Eval.renderResult]
      exact .pure hmemory
  | .directive d, hd => by
      rw [Eval.renderResult, Eval.renderResult, Eval.renderDirective_eq, Eval.renderDirective_eq]
      exact .performing hw d fun v n m hv hnode =>
        insideStep hS hab collectionId hv hnode hmemory hd

end

theorem renderDirective (hS : S.Lawful) (hab : S.Answers a b) (collectionId : String)
    {w : Nesting} {memory : Again} (hw : S.Asking w) (hmemory : Remembers S memory) {d : Directive}
    (hd : S.material.Directive d) :
    S.Yields w (fun r => Remembers S r.2) (Eval.renderDirective S.env a collectionId memory d)
      (Eval.renderDirective S.second b collectionId memory d) := by
  rw [Eval.renderDirective_eq, Eval.renderDirective_eq]
  exact .performing hw d fun v n m hv hnode =>
    insideStep hS hab collectionId hv hnode hmemory hd

end Yields

end Simulation

end RandomTables
