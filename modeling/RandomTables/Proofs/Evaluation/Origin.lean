-- SUMMARY: Where the failures of calculations, and of the variables in conditions, come from.
import RandomTables.Evaluation.Directive
import RandomTables.Proofs.Directive.Reading
import RandomTables.Proofs.Expr.Reading

/-!
# Origins of failures

An expression fails in one of its operations, because a name of it leads nowhere or may not be read,
or because a call that reads a name fails. The handlers look at the kind of a failure alone. So what
a calculation shows as an error, and what a condition reads as empty, is either a failure of their
own or that of a call, which may be any failure of that kind.
-/
namespace RandomTables

/-- A text is what stands in front of a mark, the mark and what follows. -/
theorem Text.cutAtChar_join {mark : Char} {cs : List Char} (h : cs.contains mark = true) :
    (cutAtChar mark cs).1 ++ mark :: (cutAtChar mark cs).2 = cs := by
  induction cs with
  | nil => cases h
  | cons c rest ih =>
      by_cases hc : c = mark
      · subst hc
        simp [cutAtChar]
      · have hrest : rest.contains mark = true := by simpa [Ne.symm hc] using h
        simpa [cutAtChar, hc] using ih hrest

/-- Some call is answered by this failure. -/
def Answer.Raises (answer : Answer) (f : Failure) : Prop :=
  ∃ (α : Type) (call : Call α) (c : Context), (answer call c).1 = .error f

/-- A failure to find a variable with a name from a collection. -/
inductive ResolutionFailure.Misses (name collectionId : String) : ResolutionFailure → Prop where
  | absent : Misses name collectionId (.unknownVariable name)
  | capture : Misses name collectionId (.unknownCapture (Expr.rootOf name))
  | collection : Misses name collectionId (.unknownCollection collectionId)

/-- Where a failure of reading names can come from, if variables are missed as stated. -/
inductive Failure.Stems (answer : Answer) (missed : ResolutionFailure → Prop) : Failure → Prop where
  | operation {f : Failure} (h : f.Arithmetical) : Stems answer missed f
  | missed {e : ResolutionFailure} (h : missed e) : Stems answer missed (.resolution e)
  | declaration (e : DeclarationFailure) : Stems answer missed (.declaration e)
  | depth (e : DepthFailure) : Stems answer missed (.error (.depth e))
  | raised {f : Failure} (h : Answer.Raises answer f) : Stems answer missed f

namespace Failure.Stems

variable {answer : Answer} {missed missed' : ResolutionFailure → Prop}

theorem mono {f : Failure} (h : f.Stems answer missed) (hmissed : ∀ e, missed e → missed' e) :
    f.Stems answer missed' := by
  cases h with
  | operation h => exact .operation h
  | missed h => exact .missed (hmissed _ h)
  | declaration e => exact .declaration e
  | depth e => exact .depth e
  | raised h => exact .raised h

/-- A parse error is one of operands, or it was raised by a call. -/
theorem parse {e : ParseFailure} (h : (Failure.error (.parse e)).Stems answer missed) :
    e.cause.OfOperands ∨ Answer.Raises answer (.error (.parse e)) := by
  cases h with
  | operation h =>
      rcases h with ⟨fault, hfault⟩ | ⟨cause, source, hcause, hparse⟩
      · cases hfault
      · cases hparse
        exact .inl hcause
  | raised h => exact .inr h

/-- A resolution error is a missed variable, or it was raised by a call. -/
theorem resolution {e : ResolutionFailure} (h : (Failure.resolution e).Stems answer missed) :
    missed e ∨ Answer.Raises answer (.resolution e) := by
  cases h with
  | operation h =>
      rcases h with ⟨fault, hfault⟩ | ⟨cause, source, hcause, hparse⟩
      · cases hfault
      · cases hparse
  | missed h => exact .inl h
  | raised h => exact .inr h

end Failure.Stems

/-! ## Evaluations -/

/-- An evaluation whose failures are as stated, wherever it runs. -/
def Eval.RaisesOnly (P : Failure → Prop) {α : Type} (x : Eval α) : Prop :=
  ∀ c, FailsOnly P (x c).1

namespace Eval.RaisesOnly

variable {P Q : Failure → Prop} {α β : Type} {x : Eval α}

theorem mono (hx : RaisesOnly P x) (h : ∀ f, P f → Q f) : RaisesOnly Q x :=
  fun c => (hx c).mono h

theorem pure (a : α) : RaisesOnly P (pure a : Eval α) := fun _ => .ok

theorem throw {f : Failure} (h : P f) : RaisesOnly P (throw f : Eval α) := fun _ => .error h

theorem bind {f : α → Eval β} (hx : RaisesOnly P x) (hf : ∀ a, RaisesOnly P (f a)) :
    RaisesOnly P (x >>= f) := by
  intro c
  rw [Computation.bind_apply]
  have hxc := hx c
  rcases hrun : x c with ⟨e | a, c'⟩ <;> rw [hrun] at hxc
  · exact .error (hxc.failure e rfl)
  · exact hf a c'

theorem get_bind {f : Context → Eval β} (hf : ∀ c, RaisesOnly P (f c)) :
    RaisesOnly P (get >>= f) := fun c => hf c c

theorem lift {e : Except Failure α} (he : FailsOnly P e) : RaisesOnly P (Eval.lift e) := by
  cases e with
  | ok a => exact .pure a
  | error f => exact .throw (he.failure f rfl)

theorem liftExpr {e : Except Failure α} (he : FailsOnly P e) :
    RaisesOnly P (Expr.lift e : Eval α) := by
  cases e with
  | ok a => exact .pure a
  | error f => exact .throw (he.failure f rfl)

theorem liftResolution {e : Except ResolutionFailure α}
    (he : ∀ failure, e = .error failure → P (.resolution failure)) :
    RaisesOnly P (Eval.liftResolution e) := by
  cases e with
  | ok a => exact .pure a
  | error failure => exact .throw (he failure rfl)

/-- A bracket raises what its body raises. -/
theorem bracket (hx : RaisesOnly P x) (opened : Context)
    (close : Except Failure α → Context → Context) :
    RaisesOnly P (Eval.bracket opened close x) := fun _ => hx opened

end Eval.RaisesOnly

/-! ## Reading names -/

namespace Eval

variable {env : Surroundings} {answer : Answer} {missed : ResolutionFailure → Prop}

/-- Evaluations whose failures come from their operations, from missed variables or from calls. -/
abbrev StemsOnly (answer : Answer) (missed : ResolutionFailure → Prop) {α : Type} (x : Eval α) :
    Prop := RaisesOnly (Failure.Stems answer missed) x

theorem stemsOnly_call {α : Type} (call : Call α) : StemsOnly answer missed (answer call) :=
  fun c => ⟨fun _ h => .raised ⟨α, call, c, h⟩⟩

theorem stemsOnly_readShared (name : String) : StemsOnly answer missed (readShared answer name) := by
  refine .get_bind fun c => ?_
  split
  · exact .pure _
  · exact .throw (.declaration _)
  · exact .pure _
  · refine .bind (.get_bind fun c => ?_) fun _ => .pure _
    refine .bind (.bracket (stemsOnly_call _) _ _) fun _ => ?_
    exact .bind (fun _ => .ok) fun _ => .pure _

theorem stemsOnly_readVariable (name collectionId : String) :
    StemsOnly answer (· = .unknownVariable name) (readVariable env answer name collectionId) := by
  refine .get_bind fun c => ?_
  split
  · exact .pure _
  · apply RaisesOnly.bind (stemsOnly_readShared name)
    intro found
    split
    · exact .pure _
    · split
      · exact .pure _
      · exact .throw (.missed rfl)

theorem stemsOnly_readItems (name collectionId : String) :
    StemsOnly answer (· = .unknownCapture name) (readItems env answer name collectionId) := by
  refine .get_bind fun c => ?_
  split
  · exact .pure _
  · apply RaisesOnly.bind (stemsOnly_readShared name)
    intro found
    split
    · exact .pure _
    · split
      · exact .pure _
      · exact .throw (.missed rfl)

theorem stemsOnly_readImported (importAlias name collectionId : String) :
    StemsOnly answer
      (fun e => e = .unknownVariable (importAlias ++ "." ++ name) ∨
        e = .unknownCollection collectionId)
      (readImported env importAlias name collectionId) := by
  refine .bind (.liftResolution fun failure hfailure => .missed (.inr ?_)) fun found => ?_
  · rcases Except.bind_eq_error hfailure with hloaded | ⟨_, -, hlast⟩
    · unfold Registry.loaded at hloaded
      split at hloaded
      · cases hloaded
      · exact (Except.error.inj hloaded).symm
    · cases hlast
  · split
    · exact .pure _
    · exact .throw (.missed (.inl rfl))

theorem stemsOnly_readDotted (name collectionId : String) :
    StemsOnly answer (·.Misses name collectionId) (readDotted env answer name collectionId) := by
  unfold readDotted
  split
  · rename_i hdot
    have hcapture : ResolutionFailure.Misses name collectionId
        (.unknownCapture (String.ofList (Text.cutAtChar '.' name.toList).1)) := by
      have hroot : Expr.rootOf name = String.ofList (Text.cutAtChar '.' name.toList).1 := if_pos hdot
      exact hroot ▸ .capture
    have habsent : ResolutionFailure.Misses name collectionId
        (.unknownVariable (String.ofList (Text.cutAtChar '.' name.toList).1 ++ "." ++
          String.ofList (Text.cutAtChar '.' name.toList).2)) := by
      have hname : String.ofList (Text.cutAtChar '.' name.toList).1 ++ "." ++
          String.ofList (Text.cutAtChar '.' name.toList).2 = name := by
        rw [← String.toList_inj]
        simp only [String.toList_append, String.toList_ofList, List.append_assoc]
        exact Text.cutAtChar_join hdot
      exact hname.symm ▸ .absent
    refine .get_bind fun c => ?_
    dsimp only
    split
    · refine .bind ((stemsOnly_readItems _ _).mono fun f hf => hf.mono ?_) fun items => ?_
      · rintro _ rfl
        exact hcapture
      · split
        · exact .pure _
        · exact .pure _
    · refine (stemsOnly_readImported _ _ _).mono fun f hf => hf.mono ?_
      rintro _ (rfl | rfl)
      · exact habsent
      · exact .collection
  · refine (stemsOnly_readVariable _ _).mono fun f hf => hf.mono ?_
    rintro _ rfl
    exact .absent

theorem stemsOnly_readPlaceholder (name : String) (property : Option String) :
    StemsOnly answer missed (readPlaceholder env answer name property) := by
  unfold readPlaceholder
  split
  · refine .get_bind fun c => ?_
    split
    · exact .pure _
    · dsimp only
      split
      · refine .get_bind fun c => ?_
        split
        · exact .throw (.depth _)
        · exact .bracket (stemsOnly_call _) _ _
      · exact .pure _
  · refine .get_bind fun c => ?_
    split
    · exact .pure _
    · exact .bind (fun _ => .ok) fun _ => .pure _

/-! ## Calculations -/

theorem stemsOnly_evalNumber (collectionId : String) (e : Expr) :
    StemsOnly answer (fun _ => True) (evalNumber env answer collectionId e) := by
  have hkept : Expr.Kept (expressionScope env answer true none collectionId)
      fun {α : Type} (x : Eval α) => StemsOnly answer (fun _ => True) x :=
    { named := fun name =>
        (stemsOnly_readDotted name collectionId).mono fun f hf => hf.mono fun _ _ => trivial
      placeholder := stemsOnly_readPlaceholder
      pure := .pure
      bind := .bind
      lift := fun he => .liftExpr (he.mono fun _ => .operation) }
  apply RaisesOnly.bind (Expr.kept_eval hkept e)
  intro v
  split
  · exact .bind (.lift ((Expr.computes_number _).mono fun _ => .operation)) fun _ => .pure _
  · exact .pure _

/-! ## Handlers -/

variable {collectionId text : String} {c : Context}

/-- A calculation gives the text of its value. In place of an error it shows the mark of errors, and
that error is one of operands or was raised by a call. -/
theorem text_of_renderMath {node : Option Nat} {raw : String} {e : Expr}
    (h : (renderMath env answer collectionId node raw e c).1 = .ok text) :
    let result := (evalNumber env answer collectionId e
      { c with trace := c.trace.annotate node [("expression", .str e.render)] }).1
    (∃ v, result = .ok v ∧ text = v.text) ∨
      text = mathError ∧ ∃ failure, result = .error (.error (.parse failure)) ∧
        (failure.cause.OfOperands ∨ Answer.Raises answer (.error (.parse failure))) := by
  intro result
  let opened := { c with trace := c.trace.annotate node [("expression", .str e.render)] }
  have hstems : FailsOnly (Failure.Stems answer fun _ => True) result :=
    stemsOnly_evalNumber collectionId e opened
  have hresult : result = (evalNumber env answer collectionId e opened).1 := rfl
  have hopened : annotate node [("expression", .str e.render)] c = (.ok (), opened) := rfl
  rw [renderMath, Computation.bind_apply, hopened] at h
  rcases Computation.tryCatch_eq_ok h with hvalue | ⟨f, hf, hhandled⟩
  · rw [Computation.map_apply, ← hresult] at hvalue
    cases hv : result with
    | error f =>
        rw [hv] at hvalue
        cases hvalue
    | ok v =>
        rw [hv] at hvalue
        exact .inl ⟨v, rfl, (Except.ok.inj hvalue).symm⟩
  · rw [Computation.map_apply, ← hresult] at hf
    have hfails := Except.map_eq_error hf
    split at hhandled
    · rename_i failure
      exact .inr ⟨(Except.ok.inj hhandled).symm, failure, hfails, (hstems.failure _ hfails).parse⟩
    · cases hhandled

/-- A variable in a condition reads as its text. Where it reads as empty instead, it is missing, or a
call raised the error that something else is. -/
theorem text_of_orEmpty {name : String}
    (h : (orEmpty (readDotted env answer name collectionId) c).1 = .ok text) :
    let result := (readDotted env answer name collectionId c).1
    result = .ok text ∨
      text = "" ∧ ∃ failure, result = .error (.resolution failure) ∧
        (failure.Misses name collectionId ∨ Answer.Raises answer (.resolution failure)) := by
  intro result
  have hstems : FailsOnly (Failure.Stems answer (·.Misses name collectionId)) result :=
    stemsOnly_readDotted name collectionId c
  rcases Computation.tryCatch_eq_ok h with hvalue | ⟨f, hfails, hhandled⟩
  · exact .inl hvalue
  · split at hhandled
    · rename_i failure
      exact .inr ⟨(Except.ok.inj hhandled).symm, failure, hfails,
        (hstems.failure _ hfails).resolution⟩
    · cases hhandled

end Eval

end RandomTables
