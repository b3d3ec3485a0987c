-- SUMMARY: Only a draw with exclusions finds everything used up, and whoever excludes catches that.
import RandomTables.Proofs.Directive.Reading
import RandomTables.Proofs.Evaluation.Origin
import RandomTables.Proofs.Evaluation.Tracking
import RandomTables.Proofs.Selection.Entries

/-!
# Exhaustion is caught

A draw from which nothing is excluded may fail, but never because everything is used up. Exclusions
are made by draws of unique entries and by repetitions, and both catch that failure. So it never
leaves a pattern, a shared variable or a roll without exclusions: where a roll with exclusions is
exhausted, its own draw is.
-/
namespace RandomTables

namespace Failure

variable {f : Failure}

theorem OfReading.not_exhausts (h : f.OfReading) : ¬ f.Exhausts := by
  rintro ⟨e, rfl, -⟩
  exact h

theorem not_exhausts_resolution (e : ResolutionFailure) : ¬ (Failure.resolution e).Exhausts := by
  rintro ⟨_, h, -⟩
  cases h

theorem not_exhausts_declaration (e : DeclarationFailure) :
    ¬ (Failure.declaration e).Exhausts := by
  rintro ⟨_, h, -⟩
  cases h

theorem not_exhausts_depth (e : DepthFailure) : ¬ (Failure.error (.depth e)).Exhausts := by
  rintro ⟨_, h, -⟩
  cases h

theorem not_exhausts_selection {e : SelectionFailure} (h : e.isExhaustion = false) :
    ¬ (Failure.selection e).Exhausts := by
  rintro ⟨e', he, hexhausts⟩
  cases he
  cases h.symm.trans hexhausts

/-- A failure of reading names exhausts nothing unless that of a call does. -/
theorem Stems.not_exhausts {answer : Answer} {missed : ResolutionFailure → Prop}
    (h : f.Stems answer missed) (hraised : ∀ g, answer.Raises g → ¬ g.Exhausts) :
    ¬ f.Exhausts := by
  cases h with
  | operation h => exact h.ofReading.not_exhausts
  | missed _ => exact not_exhausts_resolution _
  | declaration e => exact not_exhausts_declaration e
  | depth e => exact not_exhausts_depth e
  | raised h => exact hraised f h

end Failure

/-- A result that is no failure to find anything left. -/
abbrev Unexhausted {α : Type} (x : Except Failure α) : Prop :=
  FailsOnly (fun f => ¬ f.Exhausts) x

theorem Ends.unexhausted {α : Type} {x : Except Failure α} (h : Ends x) : Unexhausted x :=
  FailsOnly.mono h fun _ hf => hf.not_exhausts

/-- A computation that never fails to find anything left, whatever state it begins in. -/
def NeverExhausts {σ α : Type} (x : ExceptT Failure (StateM σ) α) : Prop :=
  ∀ s, Unexhausted (x s).1

namespace NeverExhausts

variable {σ α β : Type} {x : ExceptT Failure (StateM σ) α}

theorem pure (a : α) : NeverExhausts (pure a : ExceptT Failure (StateM σ) α) := fun _ => .ok

theorem throw {f : Failure} (h : ¬ f.Exhausts) :
    NeverExhausts (throw f : ExceptT Failure (StateM σ) α) := fun _ => .error h

theorem bind {f : α → ExceptT Failure (StateM σ) β} (hx : NeverExhausts x)
    (hf : ∀ a, NeverExhausts (f a)) : NeverExhausts (x >>= f) := by
  intro s
  rw [Computation.bind_apply]
  have hxs := hx s
  rcases hrun : x s with ⟨f | a, s'⟩ <;> rw [hrun] at hxs
  · exact .error (hxs.failure f rfl)
  · exact hf a s'

theorem map {f : α → β} (hx : NeverExhausts x) : NeverExhausts (f <$> x) := by
  rw [map_eq_pure_bind]
  exact hx.bind fun _ => .pure _

theorem get_bind {f : σ → ExceptT Failure (StateM σ) β} (h : ∀ s, NeverExhausts (f s)) :
    NeverExhausts (get >>= f) := fun s => h s s

theorem modify (f : σ → σ) : NeverExhausts (modify f : ExceptT Failure (StateM σ) PUnit) :=
  fun _ => .ok

/-- What a handler does not catch is passed on. -/
theorem tryCatch {handle : Failure → ExceptT Failure (StateM σ) α} (hx : NeverExhausts x)
    (hhandle : ∀ f, ¬ f.Exhausts → NeverExhausts (handle f)) :
    NeverExhausts (tryCatch x handle) := by
  intro s
  rw [Computation.tryCatch_apply]
  have hxs := hx s
  rcases hrun : x s with ⟨f | a, s'⟩ <;> rw [hrun] at hxs
  · exact hhandle f (hxs.failure f rfl) s'
  · exact .ok

end NeverExhausts

/-! ## Draws without exclusions -/

theorem Entry.unexhausted_points (e : Entry) : Unexhausted e.points := by
  unfold Entry.points
  split
  · exact (Weight.ends_ofInt _).unexhausted
  · split
    · exact .ok
    · exact .ok

theorem Candidate.unexhausted_weigh (candidates : List Candidate) :
    Unexhausted (weigh candidates) := by
  induction candidates with
  | nil => exact .ok
  | cons c rest ih => exact .bind c.entry.unexhausted_points fun _ => .bind ih fun _ => .ok

namespace NeverExhausts

theorem draw_lift {α : Type} {e : Except Failure α} (h : Unexhausted e) :
    NeverExhausts (Draw.lift e) := by
  cases e with
  | ok a => exact .pure a
  | error f => exact .throw (h.failure f rfl)

theorem ofSource {α : Type} (f : Source → α × Source) : NeverExhausts (Draw.ofSource f) :=
  fun _ => .ok

theorem pick {W α : Type} [Measure W] (items : List (α × W)) :
    NeverExhausts (Measure.pick items) := by
  unfold Measure.pick
  split
  · exact .throw (Failure.not_exhausts_selection rfl)
  · dsimp only
    split
    · exact .bind (.ofSource _) fun _ => .pure _
    · exact .throw (Failure.not_exhausts_selection rfl)

theorem candidate (pool : List (Candidate × Weight)) : NeverExhausts (Candidate.draw pool) :=
  .bind (.pick pool) fun _ => .pure _

theorem drawByRoll (t : SimpleTable) (collectionId : String) :
    NeverExhausts (t.drawByRoll collectionId) := by
  unfold SimpleTable.drawByRoll
  split
  · exact .throw (Failure.not_exhausts_selection rfl)
  · refine .bind (.ofSource _) fun roll => ?_
    split
    · exact .throw (Failure.not_exhausts_selection rfl)
    · refine .bind (.draw_lift (Entry.unexhausted_points _)) fun _ => ?_
      exact .bind (.draw_lift (Weight.ends_ofInt _).unexhausted) fun _ => .pure _

theorem draw_simple (t : SimpleTable) (collectionId : String) :
    NeverExhausts (t.draw collectionId []) := by
  unfold SimpleTable.draw
  split
  · exact .throw (Failure.not_exhausts_selection rfl)
  · split
    · exact .drawByRoll t collectionId
    · refine .bind (.draw_lift (Candidate.unexhausted_weigh _)) fun weighed => ?_
      split
      · exact .throw (Failure.not_exhausts_selection rfl)
      · exact .candidate _

theorem drawPooled (members : List (SimpleTable × String)) (owner : String) :
    NeverExhausts (drawPooled members owner []) := by
  unfold RandomTables.drawPooled
  split
  · exact .throw (Failure.not_exhausts_selection rfl)
  · exact .bind (.draw_lift (Candidate.unexhausted_weigh _)) fun _ => .candidate _

theorem draw_composite (t : CompositeTable) : NeverExhausts t.draw := by
  unfold CompositeTable.draw
  split
  · exact .throw (Failure.not_exhausts_selection rfl)
  · exact .bind (.pick _) fun _ => .pure _

end NeverExhausts

/-- Where a draw finds nothing left, every entry that could be drawn is excluded. -/
theorem SimpleTable.spent_of_exhausts {t : SimpleTable} {collectionId : String}
    {excluded : List String} {source : Source} {f : Failure}
    (h : (t.draw collectionId excluded source).1 = .error f) (hf : f.Exhausts) :
    ∀ e ∈ t.selectables, e.idText ∈ excluded := by
  intro e he
  by_contra hleft
  unfold draw at h
  split at h
  · cases h
    exact Failure.not_exhausts_selection rfl hf
  · split at h
    · exact (NeverExhausts.drawByRoll t collectionId source).failure f h hf
    · cases hweighed : Candidate.weigh (t.candidates collectionId excluded) with
      | error g =>
          rw [hweighed] at h
          cases h
          exact (Candidate.unexhausted_weigh _).failure _ hweighed hf
      | ok weighed =>
          obtain ⟨p, hp, hpositive⟩ := exists_weighed_of_left hweighed ⟨e, he, hleft⟩
          have hpool : p ∈ weighed.filter fun p => Measure.isPositive p.2 :=
            List.mem_filter.2 ⟨hp, Weight.isPositive_iff.2 hpositive⟩
          rw [hweighed, Draw.lift_ok_bind] at h
          generalize hfiltered : List.filter _ weighed = pool at h
          cases pool with
          | nil => exact List.ne_nil_of_mem hpool hfiltered
          | cons first rest => exact (NeverExhausts.candidate _ source).failure f h hf

namespace NeverExhausts

/-! ## Resolving -/

theorem resolve_lift {α : Type} (e : Except ResolutionFailure α) :
    NeverExhausts (Resolve.lift e) := by
  cases e with
  | ok a => exact .pure a
  | error f => exact .throw (Failure.not_exhausts_resolution f)

theorem inheritFrom (r : Registry) (config : Config) (fuel : Nat) (t : SimpleTable)
    (collectionId : String) (depth : Nat) (chain : List String) :
    NeverExhausts (r.inheritFrom config fuel t collectionId depth chain) := by
  induction fuel generalizing t collectionId depth chain with
  | zero => exact .throw (show Failure.Uncaught _ from .inl rfl).not_exhausts
  | succ fuel ih =>
      rw [Registry.inheritFrom]
      refine .get_bind fun s => ?_
      split
      · exact .pure _
      · dsimp only
        split
        · exact .bind (.modify _) fun _ => .pure _
        · split
          · exact fun _ => .error (Failure.not_exhausts_depth _)
          · refine .bind (.resolve_lift _) fun found => ?_
            split
            · refine .bind (ih _ _ _ _) fun parent => .bind (.modify _) fun _ => ?_
              exact .bind (.modify _) fun _ => .pure _
            · exact .throw (Failure.not_exhausts_resolution _)
            · exact .throw (Failure.not_exhausts_resolution _)

theorem members (r : Registry) (config : Config) (t : CollectionTable) (collectionId : String)
    (members : List String) : NeverExhausts (r.members config t collectionId members) := by
  induction members with
  | nil => exact .pure _
  | cons member rest ih =>
      rw [Registry.members]
      refine .bind (.resolve_lift _) fun found => ?_
      split
      · exact .bind (.inheritFrom _ _ _ _ _ _ _) fun _ => .bind ih fun _ => .pure _
      · exact .throw (Failure.not_exhausts_resolution _)

/-! ## Steps of evaluations -/

section

variable {α : Type} {x : Eval α}

theorem lift {e : Except Failure α} (h : Unexhausted e) : NeverExhausts (Eval.lift e) := by
  cases e with
  | ok a => exact .pure a
  | error f => exact .throw (h.failure f rfl)

theorem lift_expr {e : Except Failure α} (h : Unexhausted e) :
    NeverExhausts (Expr.lift e : Eval α) := by
  cases e with
  | ok a => exact .pure a
  | error f => exact .throw (h.failure f rfl)

theorem liftResolution (e : Except ResolutionFailure α) :
    NeverExhausts (Eval.liftResolution e) := by
  cases e with
  | ok a => exact .pure a
  | error f => exact .throw (Failure.not_exhausts_resolution f)

theorem draw {d : Draw α} (h : NeverExhausts d) : NeverExhausts (Eval.draw d) :=
  fun c => h c.source

theorem resolving {d : Resolve α} (h : NeverExhausts d) : NeverExhausts (Eval.resolving d) :=
  fun c => h ⟨c.resolved, []⟩

theorem log (level : LogLevel) (message : String) : NeverExhausts (Eval.log level message) :=
  .modify _

theorem note (step : TraceStep) : NeverExhausts (Eval.note step) := .modify _

theorem annotate (node : Option Nat) (details : List (String × Json)) :
    NeverExhausts (Eval.annotate node details) := .modify _

theorem setValue (node : Option Nat) (value : Json) : NeverExhausts (Eval.setValue node value) :=
  .modify _

theorem traced (step : TraceStep) {body : Option Nat → Eval α}
    (h : ∀ node, NeverExhausts (body node)) : NeverExhausts (Eval.traced step body) :=
  fun _ => h _ _

theorem descending (limit : Nat) (label : String) (hx : NeverExhausts x) :
    NeverExhausts (Eval.descending limit label x) := by
  intro c
  rw [Eval.descending_apply]
  split
  · exact .error (Failure.not_exhausts_depth _)
  · exact hx _

theorem inScope (owner : String) (declarations : Option (Assoc String)) (collectionId : String)
    (hx : NeverExhausts x) : NeverExhausts (Eval.inScope owner declarations collectionId x) := by
  intro c
  rw [Eval.inScope_apply]
  split
  · exact .error (Failure.not_exhausts_declaration _)
  · exact hx _
  · exact hx _

theorem withFrame (frame : Frame) (hx : NeverExhausts x) :
    NeverExhausts (Eval.withFrame frame x) := fun _ => hx _

theorem guarding (guard : String) (hx : NeverExhausts x) :
    NeverExhausts (Eval.guarding guard x) := fun _ => hx _

end

end NeverExhausts

/-! ## Reading names -/

/-- Answers that never fail to find anything left, where nothing is excluded. -/
structure Answer.Survives (answer : Answer) : Prop where
  pattern : ∀ text collectionId, NeverExhausts (answer (.pattern text collectionId))
  roll : ∀ target, NeverExhausts (answer (.roll target []))
  shared : ∀ owner collectionId d, NeverExhausts (answer (.shared owner collectionId d))

/-- The answers to the calls that reading a name makes. It makes no rolls. -/
def Answer.reading (answer : Answer) : Answer
  | _, .pattern text collectionId => answer (.pattern text collectionId)
  | _, .roll _ _ => throw .outOfFuel
  | _, .shared owner collectionId d => answer (.shared owner collectionId d)

theorem Answer.Survives.raises {answer : Answer} (h : answer.Survives) {f : Failure}
    (hf : Answer.Raises answer.reading f) : ¬ f.Exhausts := by
  obtain ⟨α, call, c, hcall⟩ := hf
  cases call with
  | pattern text collectionId => exact (h.pattern text collectionId c).failure f hcall
  | roll target excluded =>
      cases hcall
      exact (show Failure.Uncaught _ from .inl rfl).not_exhausts
  | shared owner collectionId d => exact (h.shared owner collectionId d c).failure f hcall

namespace NeverExhausts

variable {env : Surroundings} {answer : Answer}

section

variable (h : answer.Survives)
include h

/-- What fails only as reading names does. -/
theorem of_stems {α : Type} {x : Eval α} {missed : ResolutionFailure → Prop}
    (hx : Eval.StemsOnly answer.reading missed x) : NeverExhausts x :=
  fun c => (hx c).mono fun _ hf => hf.not_exhausts fun _ => h.raises

theorem readVariable (name collectionId : String) :
    NeverExhausts (Eval.readVariable env answer name collectionId) := by
  have hreads : Eval.StemsOnly answer.reading (· = .unknownVariable name)
      (Eval.readVariable env answer.reading name collectionId) :=
    Eval.stemsOnly_readVariable name collectionId
  exact .of_stems h hreads

theorem readItems (name collectionId : String) :
    NeverExhausts (Eval.readItems env answer name collectionId) := by
  have hreads : Eval.StemsOnly answer.reading (· = .unknownCapture name)
      (Eval.readItems env answer.reading name collectionId) :=
    Eval.stemsOnly_readItems name collectionId
  exact .of_stems h hreads

theorem readPlaceholder (name : String) (property : Option String) :
    NeverExhausts (Eval.readPlaceholder env answer name property) := by
  have hreads : Eval.StemsOnly answer.reading (fun _ => False)
      (Eval.readPlaceholder env answer.reading name property) :=
    Eval.stemsOnly_readPlaceholder name property
  exact .of_stems h hreads

/-- Conditions read nothing in place of names that lead nowhere. -/
theorem condition (subject : Option String) (collectionId : String) (e : Expr) :
    NeverExhausts (e.eval (Eval.expressionScope env answer false subject collectionId)) := by
  have hkept : Expr.Kept (Eval.expressionScope env answer false subject collectionId)
      fun {α : Type} (x : Eval α) => NeverExhausts x :=
    { named := fun name => by
        have hreads : Eval.StemsOnly answer.reading (·.Misses name collectionId)
            (Eval.readDotted env answer.reading name collectionId) :=
          Eval.stemsOnly_readDotted name collectionId
        refine .tryCatch (.of_stems h hreads) fun f hf => ?_
        split
        · exact .pure _
        · exact .throw hf
      placeholder := .readPlaceholder h
      pure := .pure
      bind := .bind
      lift := fun he => .lift_expr (he.mono fun _ hf => hf.ofReading.not_exhausts) }
  exact Expr.kept_eval hkept e

/-! ## Repeated rolls -/

omit h in
/-- Who excludes something catches that nothing is left. -/
theorem unlessExhausted (x : Eval Outcome) : NeverExhausts (Eval.unlessExhausted x) := by
  intro c
  rw [Eval.unlessExhausted, Computation.tryCatch_apply]
  split
  · exact .ok
  · rename_i f c' hfailed
    split
    · split
      · exact .ok
      · rename_i hexhausts
        refine .error ?_
        rintro ⟨e, he, hexhausted⟩
        cases he
        exact hexhausts hexhausted
    · rename_i hselection
      refine .error ?_
      rintro ⟨e, rfl, -⟩
      exact hselection e rfl

theorem rollTimes (target : Target) (n : Nat) (done : List Outcome) :
    NeverExhausts (Eval.rollTimes answer target n done) := by
  induction n generalizing done with
  | zero => exact .pure _
  | succ n ih => exact .bind (h.roll target) fun outcome => ih (outcome :: done)

omit h in
theorem rollUnique (target : Target) (ref : String) (count n : Nat) (used : List String)
    (done : List Outcome) :
    NeverExhausts (Eval.rollUnique env answer target ref count n used done) := by
  have hfew : ¬ (Failure.selection (.tooFewUnique count ref done.length)).Exhausts :=
    Failure.not_exhausts_selection rfl
  induction n generalizing used done with
  | zero => exact .pure _
  | succ n ih =>
      have hnext : ∀ (used : List String) (o : Outcome),
          NeverExhausts (Eval.rollUnique env answer target ref count n used (o :: done)) :=
        fun _ _ => ih _ _ (Failure.not_exhausts_selection rfl)
      rw [Eval.rollUnique]
      refine .bind (.unlessExhausted _) fun drawn => ?_
      split
      · exact hnext _ _
      · split
        · exact .bind (.log _ _) fun _ => .pure _
        · exact .throw hfew
        · split
          · exact .throw hfew
          · refine .bind (.unlessExhausted _) fun drawn => ?_
            split
            · exact hnext _ _
            · exact .throw hfew

theorem rollMany (ref : String) (count : Nat) (collectionId : String) (unique : Bool) :
    NeverExhausts (Eval.rollMany env answer ref count collectionId unique) := by
  refine .bind (.liftResolution _) fun target => ?_
  split
  · exact .rollUnique target ref count count [] []
  · exact .rollTimes h target count []

omit h in
theorem castDice (spec : DiceFormula) : NeverExhausts (Eval.castDice env spec) :=
  .bind (.draw (.ofSource _)) fun result => .lift result.ends_checked.unexhausted

theorem evalCount (count : Multiplicity) (collectionId : String) :
    NeverExhausts (Eval.evalCount env answer count collectionId) := by
  cases count with
  | literal n => exact .pure _
  | dice spec => exact .bind (.castDice spec) fun _ => .bind (.note _) fun _ => .pure _
  | «variable» name =>
      refine .bind (.readVariable h name collectionId) fun text => ?_
      dsimp only
      split
      · exact .bind (.log _ _) fun _ => .pure _
      · rename_i x hx
        split
        · exact .pure _
        · exact .bind (.log _ _) fun _ => .pure _
        · rename_i f _ hf
          exact .throw (((Number.breaks_truncateInt x).ends.failure f hf).not_exhausts)

/-! ## Directives -/

section

variable (collectionId : String) (node : Option Nat)

omit h in
theorem entryAgain (frame : Frame) (unique : Bool) (n : Nat) (excluded done : List String) :
    NeverExhausts (Eval.entryAgain env answer frame unique n excluded done) := by
  induction n generalizing excluded done with
  | zero => exact .pure _
  | succ n ih =>
      refine .bind (.descending _ _ (.unlessExhausted _)) fun drawn => ?_
      split
      · exact .pure _
      · exact ih _ _

omit h in
theorem diceAgain (spec : DiceFormula) (n : Nat) (done : List String) :
    NeverExhausts (Eval.diceAgain env spec n done) := by
  induction n generalizing done with
  | zero => exact .pure _
  | succ n ih =>
      exact .bind (.descending _ _ (.castDice spec)) fun _ => .bind (.note _) fun _ => ih _

theorem renderAgain (memory : Again) (count : Nat) (unique : Bool) (separator : String) :
    NeverExhausts
      (Eval.renderAgain env answer collectionId node memory count unique separator) := by
  cases memory with
  | dice spec =>
      exact .bind (.diceAgain spec count []) fun _ => .bind (.annotate _ _) fun _ => .pure _
  | ref ref =>
      refine .bind (.descending _ _ (.rollMany h ref count collectionId unique)) fun _ => ?_
      exact .bind (.annotate _ _) fun _ => .pure _
  | nothing =>
      refine .get_bind fun c => ?_
      split
      · exact .bind (.log _ _) fun _ => .pure _
      · refine .bind (.annotate _ _) fun _ => ?_
        exact .bind (.entryAgain _ unique count _ _) fun _ => .pure _

omit h in
theorem nthItem (items : Captured) (index : Int) (name : String) :
    NeverExhausts (Eval.nthItem items index name) := by
  unfold Eval.nthItem
  dsimp only
  split
  · exact .pure _
  · exact .bind (.log _ _) fun _ => .pure _

omit h in
theorem chosenItems (items : Captured) (index : Option Int) (name : String) :
    NeverExhausts (Eval.chosenItems items index name) := by
  cases index with
  | none => exact .pure _
  | some index => exact .bind (.nthItem items index name) fun _ => .pure _

theorem renderVariable (name : String) (importAlias : Option String) :
    NeverExhausts (Eval.renderVariable env answer collectionId node name importAlias) := by
  cases importAlias with
  | some importAlias =>
      refine .bind (.of_stems h (Eval.stemsOnly_readImported importAlias name collectionId))
        fun _ => ?_
      exact .bind (.annotate _ _) fun _ => .pure _
  | none =>
      refine .bind (.get_bind fun c => ?_) fun _ => ?_
      · split
        · exact .pure _
        · split
          · exact .pure _
          · split
            · exact .pure _
            · exact .pure _
      · exact .bind (.annotate _ _) fun _ => .readVariable h name collectionId

theorem renderAction (memory : Again) (raw : String) (action : Action) :
    NeverExhausts (Eval.renderAction env answer collectionId node memory raw action) := by
  have hreference : ∀ ref, NeverExhausts (Eval.rollReference env answer collectionId ref) :=
    fun _ => .bind (.liftResolution _) fun target => h.roll target
  cases action with
  | dice spec => exact .bind (.castDice spec) fun _ => .bind (.annotate _ _) fun _ => .pure _
  | math e =>
      have hreads : Eval.StemsOnly answer.reading (fun _ => True)
          (Eval.evalNumber env answer.reading collectionId e) :=
        Eval.stemsOnly_evalNumber collectionId e
      have hnumber := NeverExhausts.of_stems h hreads
      refine .bind (.annotate _ _) fun _ => .tryCatch (.map hnumber) fun f hf => ?_
      split
      · exact .bind (.log _ _) fun _ => .bind (.modify _) fun _ => .pure _
      · exact .throw hf
  | table ref instanceName =>
      cases instanceName with
      | some name =>
          refine .get_bind fun c => ?_
          split
          · exact .bind (.annotate _ _) fun _ => .pure _
          · refine .bind (hreference ref) fun _ => .bind (.modify _) fun _ => ?_
            exact .bind (.annotate _ _) fun _ => .pure _
      | none => exact .bind (hreference ref) fun _ => .bind (.annotate _ _) fun _ => .pure _
  | multiRoll count ref unique separator =>
      refine .bind (.evalCount h count collectionId) fun n => ?_
      refine .bind (.rollMany h ref n collectionId unique) fun _ => ?_
      exact .bind (.annotate _ _) fun _ => .pure _
  | unique count ref separator =>
      refine .bind (.rollMany h ref count collectionId true) fun _ => ?_
      exact .bind (.annotate _ _) fun _ => .pure _
  | again count unique separator =>
      exact .renderAgain h collectionId node memory count unique separator
  | «variable» name importAlias => exact .renderVariable h collectionId node name importAlias
  | captureAccess name index asked separator =>
      refine .bind (.readItems h name collectionId) fun items => ?_
      refine .bind (.annotate _ _) fun _ => ?_
      split
      · exact .pure _
      · exact .bind (.chosenItems _ _ _) fun _ => .pure _
  | captureProperty name index properties separator =>
      refine .bind (.readItems h name collectionId) fun items => ?_
      refine .bind (.chosenItems _ _ _) fun _ => ?_
      exact .bind (.annotate _ _) fun _ => .pure _
  | placeholder name property =>
      exact .bind (.readPlaceholder h name property) fun _ => .bind (.annotate _ _) fun _ => .pure _
  | capture count ref target unique silent separator =>
      refine .bind (.evalCount h count collectionId) fun n => ?_
      refine .bind (.rollMany h ref n collectionId unique) fun _ => .bind (.modify _) fun _ => ?_
      exact .bind (.annotate _ _) fun _ => .pure _
  | collect name property fromSets unique separator =>
      refine .bind (.readItems h name collectionId) fun items => ?_
      exact .bind (.annotate _ _) fun _ => .pure _

end

omit h in
theorem performing (d : Directive) {body : Option Nat → Eval (String × Again)}
    (hbody : ∀ node, NeverExhausts (body node)) : NeverExhausts (Eval.performing d body) :=
  .bind (.log _ _) fun _ => .traced _ fun node =>
    .bind (hbody node) fun _ => .bind (.setValue _ _) fun _ => .pure _

end

mutual

/-- By induction on the switches of a directive. -/
theorem insideStep (h : answer.Survives) (collectionId : String) (memory : Again)
    (node : Option Nat) :
    ∀ d : Directive, NeverExhausts (Eval.insideStep env answer collectionId memory d node)
  | .act raw action => .bind (renderAction h collectionId node memory raw action) fun _ => .pure _
  | .switch _ none branches otherwise =>
      renderBranches h collectionId none node memory 0 branches
        (renderOtherwise h collectionId node memory otherwise)
  | .switch _ (some subject) branches otherwise => by
      rw [Eval.insideStep, Eval.renderDirective_eq]
      refine .bind (.performing subject fun node => insideStep h collectionId memory node subject)
        fun output => ?_
      exact renderBranches h collectionId (some output.1) node output.2 0 branches
        (renderOtherwise h collectionId node output.2 otherwise)

theorem renderBranches (h : answer.Survives) (collectionId : String) (subject : Option String)
    (node : Option Nat) (memory : Again) (index : Nat) :
    ∀ branches : List Branch, ∀ {x : Eval (String × Again)}, NeverExhausts x →
      NeverExhausts
        (Eval.renderBranches env answer collectionId subject node memory index branches x)
  | [], _, hotherwise => by
      rw [Eval.renderBranches]
      exact hotherwise
  | .mk condition consequence :: rest, _, hotherwise => by
      rw [Eval.renderBranches]
      refine .bind (.condition h subject collectionId condition) fun v => ?_
      split
      · exact .bind (.annotate _ _) fun _ => renderResult h collectionId memory consequence
      · exact renderBranches h collectionId subject node memory (index + 1) rest hotherwise

theorem renderOtherwise (h : answer.Survives) (collectionId : String) (node : Option Nat)
    (memory : Again) :
    ∀ otherwise : Option Consequence,
      NeverExhausts (Eval.renderOtherwise env answer collectionId node memory otherwise)
  | some consequence => by
      rw [Eval.renderOtherwise]
      exact .bind (.annotate _ _) fun _ => renderResult h collectionId memory consequence
  | none => by
      rw [Eval.renderOtherwise]
      exact .bind (.annotate _ _) fun _ => .pure _

theorem renderResult (h : answer.Survives) (collectionId : String) (memory : Again) :
    ∀ result : Consequence,
      NeverExhausts (Eval.renderResult env answer collectionId memory result)
  | .literal _ => by
      rw [Eval.renderResult]
      exact .pure _
  | .directive d => by
      rw [Eval.renderResult, Eval.renderDirective_eq]
      exact .performing d fun node => insideStep h collectionId memory node d

end

/-! ## Patterns and shared variables -/

theorem onlyDirective (pattern : String) : Unexhausted (Eval.onlyDirective pattern) := by
  unfold Eval.onlyDirective
  split
  · split
    · exact .map (Directive.ends_parse _).unexhausted
    · exact .ok
  · exact .ok

section

variable (h : answer.Survives)
include h

section

variable (collectionId : String)

theorem evalPieces (memory : Again) (pieces : List Piece) :
    NeverExhausts (Eval.evalPieces env answer collectionId memory pieces) := by
  induction pieces generalizing memory with
  | nil => exact .pure _
  | cons piece rest ih =>
      cases piece with
      | literal chars start => exact .bind (ih memory) fun _ => .pure _
      | directive span =>
          refine .bind (.bind ?_ fun d => .bind ?_ fun _ => .pure _) fun rendered =>
            .bind (ih rendered.2) fun _ => .pure _
          · unfold Eval.parseSpan
            split
            · exact .pure _
            · exact .bind (.note _) fun _ => .throw (Failure.OfReading.not_exhausts trivial)
            · rename_i f _ hf
              exact .throw ((Directive.ends_parse _).unexhausted.failure f hf)
          · rw [Eval.renderDirective_eq]
            exact .performing d fun node => .insideStep h collectionId memory node d

theorem evalPattern (pattern : String) :
    NeverExhausts (Eval.evalPattern env answer pattern collectionId) := by
  rw [Eval.evalPattern_eq]
  exact .evalPieces h collectionId .nothing _

omit h in
theorem onlyTable (pattern : String) : NeverExhausts (Eval.onlyTable env pattern collectionId) := by
  refine .bind (.lift (onlyDirective pattern)) fun only => ?_
  split
  · refine .bind (.liftResolution _) fun found => ?_
    split
    · exact .pure _
    · exact .pure _
  · exact .pure _

theorem referredItem (d : Directive) :
    NeverExhausts (Eval.referredItem env answer collectionId d) := by
  unfold Eval.referredItem
  split
  · exact .bind (.readItems h _ _) fun items => .bind (.nthItem _ _ _) fun _ => .pure _
  · exact .bind (.readItems h _ _) fun items => .nthItem _ _ _
  · exact .pure _

theorem evalKeeping (pattern : String) :
    NeverExhausts (Eval.evalKeeping env answer pattern collectionId) := by
  refine .bind (.onlyTable collectionId pattern) fun found => ?_
  split
  · exact .bind (h.roll _) fun _ => .pure _
  · have htext : NeverExhausts
        (do return { value := ← answer (.pattern pattern collectionId) } : Eval Item) :=
      .bind (h.pattern _ _) fun _ => .pure _
    refine .bind (.lift (onlyDirective pattern)) fun only => ?_
    cases only with
    | none => exact htext
    | some d =>
        refine .bind (.referredItem h collectionId d) fun referred => ?_
        cases referred with
        | none => exact htext
        | some item => exact .pure _

theorem evalShared (owner : String) (d : Declaration) :
    NeverExhausts (Eval.evalShared env answer owner collectionId d) := by
  refine .traced _ fun node => .bind ?_ fun _ => .bind (.setValue _ _) fun _ => .pure _
  unfold Eval.evalDeclaration
  split
  · exact .bind (.evalKeeping h _ _) fun _ => .pure _
  · exact .bind (h.pattern _ _) fun _ => .pure _

end

/-! ## Rolls -/

theorem renderSets (collectionId tableId : String) (sets : List (String × String)) :
    NeverExhausts (Eval.renderSets env answer collectionId tableId sets) := by
  induction sets with
  | nil => exact .pure _
  | cons set rest ih =>
      obtain ⟨key, pattern⟩ := set
      have hset : NeverExhausts (Eval.renderSet env answer pattern collectionId) := by
        refine .bind (.onlyTable collectionId pattern) fun found => ?_
        split
        · exact .bind (h.roll _) fun _ => .pure _
        · exact .bind (h.pattern _ _) fun _ => .pure _
      rw [Eval.renderSets]
      refine .get_bind fun c => ?_
      dsimp only
      split
      · exact .bind (.pure _) fun _ => .bind ih fun _ => .pure _
      · split
        · exact .bind (.log _ _) fun _ => .bind (.pure _) fun _ => .bind ih fun _ => .pure _
        · exact .bind (.guarding _ hset) fun _ => .bind ih fun _ => .pure _

/-- Whatever was excluded when an entry was drawn, its evaluation is not exhausted. -/
theorem outcomeOf (s : Selection) (table : SimpleTable) :
    NeverExhausts (Eval.outcomeOf env answer s table) := by
  have hdescription : ∀ text, NeverExhausts (Eval.evalDescription answer table s text) := by
    intro text
    unfold Eval.evalDescription
    dsimp only
    split
    · exact .pure _
    · exact .bind (h.pattern _ _) fun _ => .bind (.modify _) fun _ => .pure _
  refine .bind (.note _) fun _ => .bind (.withFrame _ ?_) fun drawn => ?_
  · refine .bind (.renderSets h _ _ _) fun sets => ?_
    dsimp only
    split
    · exact .bind (.modify _) fun _ => .bind (h.pattern _ _) fun _ => .pure _
    · exact .bind (h.pattern _ _) fun _ => .pure _
  · obtain ⟨sets, text⟩ := drawn
    dsimp only
    split
    · exact .bind (.modify _) fun _ => .bind (hdescription _) fun _ => .pure _
    · exact .bind (hdescription _) fun _ => .pure _

theorem rollFrom (t : Table) (collectionId : String) :
    NeverExhausts (Eval.rollFrom env answer t collectionId []) := by
  cases t with
  | simple t =>
      refine .bind (.resolving (.inheritFrom _ _ _ _ _ _ _)) fun table => ?_
      exact .bind (.draw (.draw_simple table collectionId)) fun s => .outcomeOf h s table
  | composite t =>
      refine .bind (.draw (.draw_composite t)) fun drawn => .bind (.note _) fun _ => ?_
      exact .bind (.liftResolution _) fun target => .bind (h.roll target) fun _ => .pure _
  | collection t =>
      refine .bind (.resolving (.members _ _ _ _ _)) fun members => .bind (.note _) fun _ => ?_
      refine .bind (.draw (.drawPooled members t.id)) fun s => ?_
      split
      · exact .bind (.outcomeOf h s _) fun _ => .pure _
      · exact .throw (Failure.not_exhausts_selection rfl)

theorem roll (target : Target) : NeverExhausts (Eval.roll env answer target []) := by
  obtain ⟨definition, collectionId⟩ := target
  cases definition with
  | table t =>
      refine .descending _ _ (.traced _ fun node => .inScope _ _ _ ?_)
      refine .bind (.rollFrom h t collectionId) fun _ => .bind (.setValue _ _) fun _ => ?_
      exact .bind (.annotate _ _) fun _ => .pure _
  | template t =>
      refine .descending _ _ (.traced _ fun node => .inScope _ _ _ ?_)
      exact .bind (h.pattern _ _) fun _ => .bind (.setValue _ _) fun _ => .pure _

end

end NeverExhausts

/-- However many calls may be open, no call fails to find anything left but a roll that excludes
something. -/
theorem Eval.survives_answerWithin (env : Surroundings) (fuel : Nat) :
    Answer.Survives (answerWithin env fuel) := by
  induction fuel with
  | zero =>
      have hfuel : ¬ Failure.outOfFuel.Exhausts :=
        (show Failure.Uncaught _ from .inl rfl).not_exhausts
      exact ⟨fun _ _ => .throw hfuel, fun _ => .throw hfuel, fun _ _ _ => .throw hfuel⟩
  | succ fuel ih =>
      exact ⟨fun text collectionId => .evalPattern ih collectionId text,
        fun target => .roll ih target,
        fun owner collectionId d => .evalShared ih collectionId owner d⟩

end RandomTables
