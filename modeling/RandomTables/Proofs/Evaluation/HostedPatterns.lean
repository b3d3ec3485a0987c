-- SUMMARY: Directives, patterns and answers to calls are alike for two hosts that agree.
import RandomTables.Proofs.Evaluation.Hosted
import RandomTables.Proofs.Evaluation.Rendering

/-!
# Patterns for two hosts

A directive whose variables are known ends alike for both hosts, and so does a pattern. An answer to
a call has fewer calls open inside it than the call, so all answers are alike, by induction on how
many calls may be open.
-/
namespace RandomTables

namespace Hosting

variable {H : Hosting} {a b : Answer} {α β : Type} {P : α → Prop}

/-- Two runs that end alike for both hosts. -/
def Runs (H : Hosting) (x y : StateM Context β) : Prop :=
  ∀ c d, H.Beside c d → (y d).1 = (x c).1 ∧ H.Beside (x c).2 (y d).2

/-- What a repetition would repeat in a collection, the evaluation may come to. -/
def Repeats (H : Hosting) (id : String) : Again → Prop
  | .ref ref => H.refers id ref
  | _ => True

namespace Runs

theorem pure (r : β) : H.Runs (pure r) (pure r) := fun _ _ hb => ⟨rfl, hb⟩

theorem map {f : α → β} {x y : StateM Context α} (hx : H.Runs x y) :
    H.Runs (do return f (← x)) (do return f (← y)) :=
  fun c d hb => ⟨congrArg f (hx c d hb).1, (hx c d hb).2⟩

/-- Going on with the result of an evaluation, be it a failure. -/
theorem run_bind {x y : Eval α} {f g : Except Failure α → StateM Context β} (hx : H.Agrees P x y)
    (hok : ∀ r, P r → H.Runs (f (.ok r)) (g (.ok r))) (herror : ∀ e, H.Runs (f (.error e)) (g (.error e))) :
    H.Runs (x.run >>= f) (y.run >>= g) := by
  intro c d hb
  obtain ⟨hresult, hvalue, hbeside⟩ := hx c d hb
  rw [Computation.run_bind_apply, Computation.run_bind_apply, hresult]
  cases hr : (x c).1 with
  | ok r => exact hok r (hvalue r hr) _ _ hbeside
  | error e => exact herror e _ _ hbeside

end Runs

namespace Agrees

section

variable (hab : H.Answers a b) (hH : H.Lawful) {id : String} (hid : H.visited id)
  (n m : Option Nat)
include hab hH hid

/-! ## Actions -/

theorem evalNumber {e : Expr} (he : e.Reads (H.known id) fun _ => True) :
    H.Alike (Eval.evalNumber H.env a id e) (Eval.evalNumber H.second b id e) := by
  refine .next (.eval (.ofHosts hab hH hid true none) e he) fun v => ?_
  split
  · exact .next (.lift fun _ _ => trivial) fun _ => .pure trivial
  · exact .pure trivial

theorem renderMath (raw : String) {e : Expr} (he : e.Reads (H.known id) fun _ => True) :
    H.Alike (Eval.renderMath H.env a id n raw e) (Eval.renderMath H.second b id m raw e) := by
  refine .next (.annotate _ _ _) fun _ => .tryCatch ?_ fun f => ?_
  · exact (evalNumber hab hH hid he).map fun _ _ => trivial
  · split
    · exact .next (.log _ _) fun _ => .next (.setError _ _ _) fun _ => .pure trivial
    · exact .throw _

theorem rollReference {ref : String} (href : H.refers id ref) :
    H.Alike (Eval.rollReference H.env a id ref) (Eval.rollReference H.second b id ref) :=
  .bind (.liftResolution fun _ => hH.resolve hid href) fun target ht => hab.roll target [] ht

theorem evalInstance {ref : String} (href : H.refers id ref) (name : String) :
    H.Alike (Eval.evalInstance H.env a id n ref name)
      (Eval.evalInstance H.second b id m ref name) := by
  refine .get_bind fun c d hb => ?_
  obtain ⟨trace, shared, log, rfl, -⟩ := hb.other
  dsimp only
  split
  · exact .next (.annotate _ _ _) fun _ => .pure trivial
  · refine .next (.rollReference hab hH hid href) fun outcome => ?_
    exact .next (.instantiate _ _) fun _ => .next (.annotate _ _ _) fun _ => .pure trivial

theorem renderTable {ref : String} (href : H.refers id ref) :
    H.Alike (Eval.renderTable H.env a id n ref) (Eval.renderTable H.second b id m ref) :=
  .next (.rollReference hab hH hid href) fun _ => .next (.annotate _ _ _) fun _ => .pure trivial

theorem renderMultiRoll {count : Multiplicity} (hcount : count.Names (H.known id))
    {ref : String} (href : H.refers id ref) (unique : Bool) (separator : String) :
    H.Alike (Eval.renderMultiRoll H.env a id n count ref unique separator)
      (Eval.renderMultiRoll H.second b id m count ref unique separator) := by
  refine .next (.evalCount hab hH hid hcount) fun _ => ?_
  refine .next (.rollMany hab hH hid href _ unique) fun _ => ?_
  exact .next (.annotate _ _ _) fun _ => .pure trivial

theorem renderUnique (count : Nat) {ref : String} (href : H.refers id ref) (separator : String) :
    H.Alike (Eval.renderUnique H.env a id n count ref separator)
      (Eval.renderUnique H.second b id m count ref separator) :=
  .next (.rollMany hab hH hid href count true) fun _ =>
    .next (.annotate _ _ _) fun _ => .pure trivial

/-! ### Repetitions -/

omit hab hid in
theorem diceAgain (spec : DiceFormula) (count : Nat) (done : List String) :
    H.Alike (Eval.diceAgain H.env spec count done) (Eval.diceAgain H.second spec count done) := by
  induction count generalizing done with
  | zero => exact .pure trivial
  | succ count ih =>
      exact .next (.descending _ _ (.castDice hH spec)) fun _ => .next (.note _) fun _ => ih _

omit hH hid in
theorem entryAgain {frame : RandomTables.Frame} (hframe : H.Frame frame) (unique : Bool)
    (count : Nat) (excluded done : List String) :
    H.Alike (Eval.entryAgain H.env a frame unique count excluded done)
      (Eval.entryAgain H.second b frame unique count excluded done) := by
  induction count generalizing excluded done with
  | zero => exact .pure trivial
  | succ count ih =>
      have htarget : H.Target ⟨.table (.simple frame.table), frame.collectionId⟩ :=
        ⟨hframe.visited, hframe.rolls⟩
      refine .next (.descending _ _ (.unlessExhausted (hab.roll _ excluded htarget))) fun drawn => ?_
      split
      · exact .pure trivial
      · exact ih _ _

theorem renderAgain {memory : Again} (hmemory : H.Repeats id memory) (count : Nat) (unique : Bool)
    (separator : String) :
    H.Alike (Eval.renderAgain H.env a id n memory count unique separator)
      (Eval.renderAgain H.second b id m memory count unique separator) := by
  cases memory with
  | dice spec =>
      refine .next (.diceAgain hH spec count []) fun _ => ?_
      exact .next (.annotate _ _ _) fun _ => .pure trivial
  | ref ref =>
      refine .next (.descending _ _ (.rollMany hab hH hid hmemory count unique)) fun _ => ?_
      exact .next (.annotate _ _ _) fun _ => .pure trivial
  | nothing =>
      refine .get_bind fun c d hb => ?_
      obtain ⟨trace, shared, log, rfl, -⟩ := hb.other
      have hframes := hb.frames
      dsimp only
      generalize c.frames = frames at hframes ⊢
      cases frames with
      | nil => exact .next (.log _ _) fun _ => .pure trivial
      | cons frame _ =>
          have hframe := hframes frame List.mem_cons_self
          refine .next (.annotate _ _ _) fun _ => ?_
          exact .next (.entryAgain hab hframe unique count _ _) fun _ => .pure trivial

/-! ### Variables and captures -/

theorem renderVariable {name : String} {importAlias : Option String}
    (hnames : (Action.variable name importAlias).Names (H.refers id) (H.known id)) :
    H.Alike (Eval.renderVariable H.env a id n name importAlias)
      (Eval.renderVariable H.second b id m name importAlias) := by
  cases importAlias with
  | some importAlias =>
      refine .next (.readImported importAlias name id) fun _ => ?_
      exact .next (.annotate _ _ _) fun _ => .pure trivial
  | none =>
      refine .next (.sortOfVariable hH hid hnames) fun _ => ?_
      exact .next (.annotate _ _ _) fun _ => .readVariable hab hH hid hnames

omit hab hH hid in
theorem chosenItems (items : Captured) (index : Option Int) (name : String) :
    H.Alike (Eval.chosenItems items index name) (Eval.chosenItems items index name) := by
  cases index with
  | none => exact .pure trivial
  | some index => exact .next (.nthItem _ _ _) fun _ => .pure trivial

theorem renderCaptureAccess {name : String} (hname : H.known id name) (index : Option Int)
    (asked : Option CaptureAttribute) (separator : Option String) :
    H.Alike (Eval.renderCaptureAccess H.env a id n name index asked separator)
      (Eval.renderCaptureAccess H.second b id m name index asked separator) := by
  refine .next (.readItems hab hH hid hname) fun items => .next (.annotate _ _ _) fun _ => ?_
  split
  · exact .pure trivial
  · exact .next (.chosenItems _ _ _) fun _ => .pure trivial

theorem renderCaptureProperty {name : String} (hname : H.known id name) (index : Option Int)
    (properties : List String) (separator : Option String) :
    H.Alike (Eval.renderCaptureProperty H.env a id n name index properties separator)
      (Eval.renderCaptureProperty H.second b id m name index properties separator) := by
  refine .next (.readItems hab hH hid hname) fun items => .next (.chosenItems _ _ _) fun _ => ?_
  exact .next (.annotate _ _ _) fun _ => .pure trivial

omit hH hid in
theorem renderPlaceholder (name : String) (property : Option String) :
    H.Alike (Eval.renderPlaceholder H.env a n name property)
      (Eval.renderPlaceholder H.second b m name property) :=
  .next (.readPlaceholder hab name property) fun _ =>
    .next (.annotate _ _ _) fun _ => .pure trivial

theorem renderCapture {count : Multiplicity} (hcount : count.Names (H.known id)) {ref : String}
    (href : H.refers id ref) (target : String) (unique silent : Bool) (separator : String) :
    H.Alike (Eval.renderCapture H.env a id n count ref target unique silent separator)
      (Eval.renderCapture H.second b id m count ref target unique silent separator) := by
  refine .next (.evalCount hab hH hid hcount) fun _ => ?_
  refine .next (.rollMany hab hH hid href _ unique) fun _ => .next (.capture _ _) fun _ => ?_
  exact .next (.annotate _ _ _) fun _ => .pure trivial

theorem renderCollect {name : String} (hname : H.known id name) (property : String)
    (fromSets unique : Bool) (separator : String) :
    H.Alike (Eval.renderCollect H.env a id n name property fromSets unique separator)
      (Eval.renderCollect H.second b id m name property fromSets unique separator) :=
  .next (.readItems hab hH hid hname) fun _ => .next (.annotate _ _ _) fun _ => .pure trivial

theorem renderAction {memory : Again} (hmemory : H.Repeats id memory) (raw : String) {action : Action}
    (h : action.Names (H.refers id) (H.known id)) :
    H.Alike (Eval.renderAction H.env a id n memory raw action)
      (Eval.renderAction H.second b id m memory raw action) := by
  cases action with
  | dice spec =>
      exact .next (.castDice hH spec) fun _ => .next (.annotate _ _ _) fun _ => .pure trivial
  | math e => exact .renderMath hab hH hid n m raw h
  | table ref instanceName =>
      cases instanceName with
      | some name => exact .evalInstance hab hH hid n m h name
      | none => exact .renderTable hab hH hid n m h
  | multiRoll count ref unique separator =>
      exact .renderMultiRoll hab hH hid n m h.1 h.2 unique separator
  | unique count ref separator => exact .renderUnique hab hH hid n m count h separator
  | again count unique separator => exact .renderAgain hab hH hid n m hmemory count unique separator
  | «variable» name importAlias => exact .renderVariable hab hH hid n m h
  | captureAccess name index asked separator =>
      exact .renderCaptureAccess hab hH hid n m h index asked separator
  | captureProperty name index properties separator =>
      exact .renderCaptureProperty hab hH hid n m h index properties separator
  | placeholder name property => exact .renderPlaceholder hab n m name property
  | capture count ref target unique silent separator =>
      exact .renderCapture hab hH hid n m h.1 h.2 target unique silent separator
  | collect source property fromSets unique separator =>
      exact .renderCollect hab hH hid n m h property fromSets unique separator

end

/-! ## Directives -/

/-- What a repetition would repeat after an action, the evaluation may come to. -/
theorem repeats_remembered {id : String} {memory : Again} (hmemory : H.Repeats id memory)
    {action : Action} (h : action.Names (H.refers id) (H.known id)) :
    H.Repeats id (Eval.remembered memory action) := by
  cases action with
  | dice spec => trivial
  | table ref instanceName =>
      cases instanceName with
      | none => exact h
      | some name => exact hmemory
  | multiRoll count ref unique separator => exact h.2
  | unique count ref separator => exact h
  | capture count ref target unique silent separator => exact h.2
  | _ => exact hmemory

/-- Outputs that are alike, with what a repetition would repeat being what may be rolled. -/
abbrev Outputs (H : Hosting) (id : String) (x y : Eval (String × Again)) : Prop :=
  H.Agrees (fun output => H.Repeats id output.2) x y

/-- The directives themselves only show in the trace and the log. -/
theorem performing {P : String × Again → Prop} (d d' : Directive)
    {x y : Option Nat → Eval (String × Again)} (h : ∀ n m, H.Agrees P (x n) (y m)) :
    H.Agrees P (Eval.performing d x) (Eval.performing d' y) :=
  .next (.relog _ _ _ _) fun _ => .traced fun n m =>
    (h n m).bind fun _ houtput => .next (.setValue _ _ _) fun _ => .pure houtput

mutual

/-- What a directive does inside its step, by induction on its switches. -/
theorem insideStep (hab : H.Answers a b) (hH : H.Lawful) {id : String} (hid : H.visited id)
    (n m : Option Nat) {memory : Again} (hmemory : H.Repeats id memory) :
    ∀ d : Directive, d.Names (H.refers id) (H.known id) →
      Outputs H id (Eval.insideStep H.env a id memory d n) (Eval.insideStep H.second b id memory d m)
  | .act raw _, h => .next (.renderAction hab hH hid n m hmemory raw h) fun _ =>
      .pure (repeats_remembered hmemory h)
  | .switch _ none branches otherwise, h =>
      renderBranches hab hH hid none n m hmemory 0 branches h.1
        (renderOtherwise hab hH hid n m hmemory otherwise h.2)
  | .switch _ (some subject) branches otherwise, h => by
      rw [Eval.insideStep, Eval.insideStep, Eval.renderDirective_eq, Eval.renderDirective_eq]
      refine .bind (.performing subject subject fun n m => insideStep hab hH hid n m hmemory subject h.1)
        fun output houtput => ?_
      exact renderBranches hab hH hid (some output.1) n m houtput 0 branches h.2.1
        (renderOtherwise hab hH hid n m houtput otherwise h.2.2)

theorem renderBranches (hab : H.Answers a b) (hH : H.Lawful) {id : String} (hid : H.visited id)
    (subject : Option String) (n m : Option Nat) {memory : Again} (hmemory : H.Repeats id memory)
    (index : Nat) :
    ∀ branches : List Branch, BranchNames (H.refers id) (H.known id) branches →
      ∀ {x y : Eval (String × Again)}, Outputs H id x y →
        Outputs H id (Eval.renderBranches H.env a id subject n memory index branches x)
          (Eval.renderBranches H.second b id subject m memory index branches y)
  | [], _, _, _, hotherwise => by
      rw [Eval.renderBranches, Eval.renderBranches]
      exact hotherwise
  | .mk condition result :: rest, h, _, _, hotherwise => by
      rw [Eval.renderBranches, Eval.renderBranches]
      refine .next (.eval (.ofHosts hab hH hid false subject) condition h.1) fun v => ?_
      split
      · exact .next (.annotate _ _ _) fun _ => renderResult hab hH hid hmemory result h.2.1
      · exact renderBranches hab hH hid subject n m hmemory (index + 1) rest h.2.2 hotherwise

theorem renderOtherwise (hab : H.Answers a b) (hH : H.Lawful) {id : String} (hid : H.visited id)
    (n m : Option Nat) {memory : Again} (hmemory : H.Repeats id memory) :
    ∀ otherwise : Option Consequence, ElseNames (H.refers id) (H.known id) otherwise →
      Outputs H id (Eval.renderOtherwise H.env a id n memory otherwise)
        (Eval.renderOtherwise H.second b id m memory otherwise)
  | some result, h => by
      rw [Eval.renderOtherwise, Eval.renderOtherwise]
      exact .next (.annotate _ _ _) fun _ => renderResult hab hH hid hmemory result h
  | none, _ => by
      rw [Eval.renderOtherwise, Eval.renderOtherwise]
      exact .next (.annotate _ _ _) fun _ => .pure hmemory

theorem renderResult (hab : H.Answers a b) (hH : H.Lawful) {id : String} (hid : H.visited id)
    {memory : Again} (hmemory : H.Repeats id memory) :
    ∀ result : Consequence, result.Names (H.refers id) (H.known id) →
      Outputs H id (Eval.renderResult H.env a id memory result)
        (Eval.renderResult H.second b id memory result)
  | .literal _, _ => by
      rw [Eval.renderResult, Eval.renderResult]
      exact .pure hmemory
  | .directive d, h => by
      rw [Eval.renderResult, Eval.renderResult, Eval.renderDirective_eq, Eval.renderDirective_eq]
      exact .performing d d fun n m => insideStep hab hH hid n m hmemory d h

end

/-! ## Patterns -/

theorem parseSpan (span : Span) :
    H.Agrees (fun d => Directive.parse span.expression = .ok d) (Eval.parseSpan span)
      (Eval.parseSpan span) := by
  unfold Eval.parseSpan
  split
  · rename_i d hd
    exact .pure hd
  · exact .next (.note _) fun _ => .throw _
  · exact .throw _

section

variable (hab : H.Answers a b) (hH : H.Lawful) {id : String} (hid : H.visited id)
include hab hH hid

theorem renderSpan {memory : Again} (hmemory : H.Repeats id memory) {span : Span}
    (h : ∀ d, Directive.parse span.expression = .ok d → d.Names (H.refers id) (H.known id)) :
    H.Agrees (fun output => H.Repeats id output.2) (Eval.renderSpan H.env a id memory span)
      (Eval.renderSpan H.second b id memory span) := by
  refine .bind (.parseSpan span) fun d hd => ?_
  refine .bind (P := fun output => H.Repeats id output.2) ?_ fun _ houtput => .pure houtput
  rw [Eval.renderDirective_eq, Eval.renderDirective_eq]
  exact .performing d d fun n m => .insideStep hab hH hid n m hmemory d (h d hd)

/-- Pieces are rendered to the same segments, with the same failure if there is one. -/
theorem renderPieces {pieces : List Piece} (hpieces : ∀ span, .directive span ∈ pieces →
      ∀ d, Directive.parse span.expression = .ok d → d.Names (H.refers id) (H.known id))
    (memory : Again) (hmemory : H.Repeats id memory) :
    H.Runs (Eval.renderPieces H.env a id memory pieces)
      (Eval.renderPieces H.second b id memory pieces) := by
  induction pieces generalizing memory with
  | nil => exact .pure _
  | cons piece rest ih =>
      have hrest := ih fun span hspan => hpieces span (List.mem_cons_of_mem _ hspan)
      cases piece with
      | literal chars start => exact .map (hrest memory hmemory)
      | directive span =>
          refine .run_bind (renderSpan hab hH hid hmemory (hpieces span List.mem_cons_self)) ?_ ?_
          · exact fun output houtput => .map (hrest output.2 houtput)
          · exact fun f => .pure _

theorem evalPattern {text : String} (h : (H.material id).pattern text) :
    H.Alike (Eval.evalPattern H.env a text id) (Eval.evalPattern H.second b text id) := by
  intro c d hb
  rw [Simulation.evalPattern_apply, Simulation.evalPattern_apply]
  obtain ⟨hsame, hbeside⟩ := renderPieces hab hH hid
    (fun span hspan => h span (Piece.mem_find_of_mem_ofPattern hspan)) .nothing trivial c d hb
  exact ⟨congrArg Rendering.text hsame, fun _ _ => trivial, hbeside⟩

/-! ## Shared variables -/

theorem referredItem {d : Directive} (h : d.Names (H.refers id) (H.known id)) :
    H.Alike (Eval.referredItem H.env a id d) (Eval.referredItem H.second b id d) := by
  unfold Eval.referredItem
  split
  · exact .next (.readItems hab hH hid h) fun _ => .next (.nthItem _ _ _) fun _ => .pure trivial
  · exact .next (.readItems hab hH hid h) fun _ => .nthItem _ _ _
  · exact .pure trivial

theorem evalKeeping {text : String} (h : (H.material id).pattern text) :
    H.Alike (Eval.evalKeeping H.env a text id) (Eval.evalKeeping H.second b text id) := by
  refine .bind (.onlyTable hH hid h) fun found hfound => ?_
  split
  · exact .next (hab.roll _ [] (hfound _ rfl)) fun _ => .pure trivial
  · have hpattern := hab.pattern text id hid h
    refine .bind (.lift fun _ hd => hd) fun only honly => ?_
    split
    · refine .next (.referredItem hab hH hid (names_onlyDirective h honly)) fun referred => ?_
      cases referred with
      | some item => exact .pure trivial
      | none => exact .next hpattern fun _ => .pure trivial
    · refine .next (.pure trivial) fun referred => ?_
      cases referred with
      | some item => exact .pure trivial
      | none => exact .next hpattern fun _ => .pure trivial

theorem evalDeclaration {d : Declaration} (h : (H.material id).pattern d.pattern) :
    H.Alike (Eval.evalDeclaration H.env a d id) (Eval.evalDeclaration H.second b d id) := by
  unfold Eval.evalDeclaration
  split
  · exact .next (.evalKeeping hab hH hid h) fun _ => .pure trivial
  · exact .next (hab.pattern _ _ hid h) fun _ => .pure trivial

theorem evalShared (owner : String) {d : Declaration} (h : (H.material id).pattern d.pattern) :
    H.Alike (Eval.evalShared H.env a owner id d) (Eval.evalShared H.second b owner id d) := by
  -- a scope without a collection is evaluated in that of the host
  have hhome : (if id.isEmpty then H.second.collectionId else id) =
      (if id.isEmpty then H.env.collectionId else id) := by
    split
    · rename_i hempty
      exact (hH.host id hid hempty).1
    · rfl
  have hvisited : H.visited (if id.isEmpty then H.env.collectionId else id) ∧
      (H.material (if id.isEmpty then H.env.collectionId else id)).pattern d.pattern := by
    split
    · rename_i hempty
      obtain ⟨-, hvisited, hpattern⟩ := hH.host id hid hempty
      exact ⟨hvisited, hpattern _ h⟩
    · exact ⟨hid, h⟩
  unfold Eval.evalShared
  rw [hhome]
  refine .traced fun n m => .next (.evalDeclaration hab hH hvisited.1 hvisited.2) fun value => ?_
  exact .next (.setValue _ _ _) fun _ => .pure trivial

end

end Agrees

/-! ## Answers -/

/-- Answers are alike for both hosts, however many calls may be open. -/
theorem Lawful.answers (hH : H.Lawful) (fuel : Nat) :
    H.Answers (Eval.answerWithin H.env fuel) (Eval.answerWithin H.second fuel) := by
  induction fuel with
  | zero =>
      exact ⟨fun _ _ _ _ => .throw _, fun _ _ _ => .throw _, fun _ _ _ _ _ => .throw _⟩
  | succ fuel ih =>
      constructor
      · exact fun text id hid htext => .evalPattern ih hH hid htext
      · exact fun target excluded htarget => .roll ih hH htarget excluded
      · exact fun owner id d hid hd => .evalShared ih hH hid owner hd

end Hosting

end RandomTables
