-- SUMMARY: The descriptions in a report are the records of the described rolls, outer rolls first.
import RandomTables.Proofs.Engine.Completing
import RandomTables.Proofs.Evaluation.Described

/-!
# Descriptions

A request is a quiet evaluation: it renders or rolls, and then it checks the conditionals. So the
descriptions in its report are the records of the rolls of described entries that were completed.
-/
namespace RandomTables

/-! ## Texts without segments -/

/-- A change makes the same text with segments and without. -/
theorem Change.text_apply (change : Change) (condition : String) (r : Rendered) :
    (change.apply condition r).text = change.textAfter r.text := by
  unfold apply
  dsimp only
  split_ifs with h
  · exact h.symm
  · rfl

namespace Eval

variable (env : Surroundings) (answer : Answer) (collectionId : String)

/-- The text after conditionals, and how many of them held. -/
def amendText : List Conditional → String → Nat → Eval (String × Nat)
  | [], text, matched => return (text, matched)
  | c :: rest, text, matched => do
    match ← evalConditional env answer collectionId c text with
    | none => amendText rest text matched
    | some change => amendText rest (change.textAfter text) (matched + 1)

/-- The segments have no part in what becomes of the text. -/
theorem amendText_apply (conditionals : List Conditional) (r : Rendered) (matched : Nat)
    (c : Context) :
    amendText env answer collectionId conditionals r.text matched c =
      (amendFrom env answer collectionId conditionals r matched c).map
        (fun amended => amended.2.map fun matched => (amended.1.text, matched)) id := by
  induction conditionals generalizing r matched c with
  | nil => rfl
  | cons conditional rest ih =>
      rw [amendText, Computation.bind_apply, amendFrom, Computation.run_bind_apply]
      rcases evalConditional env answer collectionId conditional r.text c with
        ⟨f | _ | change, d⟩
      · rfl
      · exact ih r matched d
      · dsimp only
        rw [← Change.text_apply _ conditional.condition]
        exact ih _ _ d

end Eval

namespace Request

variable (env : Surroundings) (answer : Answer)

/-- The outcome of a request before the conditionals. -/
def performed : Request → Eval Outcome
  | .roll ref => outcome env answer ref false
  | .template ref => outcome env answer ref true
  | .pattern text => do
    return { text := ← Eval.evalPattern env answer text env.collectionId
             collectionId := env.collectionId }

theorem performed_apply (request : Request) (c : Context) :
    request.performed env answer c = (request.perform env answer c).map Prod.snd id := by
  cases request with
  | roll ref => rfl
  | template ref => rfl
  | pattern text =>
      rw [performed, Computation.bind_apply, Simulation.evalPattern_apply]
      rw [perform, StateM.bind_apply]
      generalize Eval.renderPattern env answer text env.collectionId c = rendered
      rcases rendered with ⟨⟨segments, _ | f⟩, d⟩ <;> rfl

/-- The outcome of a request after the conditionals of a document. -/
def evaluated (request : Request) (d : Document) (extra : Assoc String) : Eval Outcome := fun c =>
  (request.complete env answer d extra c).map Prod.snd id

theorem evaluated_eq (request : Request) (d : Document) (extra : Assoc String) :
    request.evaluated env answer d extra = do
      openDocument env d extra
      let o ← request.performed env answer
      let (text, matched) ← Eval.amendText env answer env.collectionId d.conditionals o.text 0
      modify (Context.record .debug .conditionals
        ("Applied " ++ toString matched ++ " of " ++ toString d.conditionals.length ++
          " conditionals"))
      return { o with text } := by
  funext c
  rw [evaluated, complete, Computation.run_bind_apply, Computation.bind_apply]
  rcases openDocument env d extra c with ⟨f | _, c₁⟩
  · rfl
  · dsimp only
    rw [StateM.bind_apply, Computation.bind_apply, performed_apply]
    rcases request.perform env answer c₁ with ⟨⟨segments, f | o⟩, c₂⟩
    · rfl
    · simp only [Prod.map, id]
      rw [StateM.bind_apply, Computation.bind_apply, Eval.amend, StateM.bind_apply]
      rw [Eval.amendText_apply env answer env.collectionId d.conditionals ⟨o.text, segments⟩]
      rcases Eval.amendFrom env answer env.collectionId d.conditionals ⟨o.text, segments⟩ 0 c₂ with
        ⟨⟨r, f | matched⟩, c₃⟩ <;> rfl

end Request

/-! ## Requests are quiet -/

namespace Quiet

variable (env : Surroundings)

theorem liftDeclaration {α : Type} (e : Except DeclarationFailure α) :
    Quiet fun _ => Eval.liftDeclaration e := by
  cases e with
  | ok v => exact .pure v
  | error f => exact .throw _

theorem changeOf (c : Conditional) (value text : String) :
    Quiet fun _ => Eval.changeOf c value text := by
  unfold Eval.changeOf
  cases c.action with
  | append => exact .pure _
  | prepend => exact .pure _
  | replace =>
      dsimp only
      split
      · exact .pure _
      · unfold Eval.replaceMatches
        split
        · exact .pure _
        · exact .bind (.silent (fun _ => rfl) fun _ => rfl) fun _ => .pure _
        · exact .throw _
  | setVariable =>
      dsimp only
      split
      · refine .get_bind fun c => .bind (.liftDeclaration _) fun shared => ?_
        exact .bind (.silent (fun _ => rfl) fun _ => rfl) fun _ => .pure _
      · exact .pure _

theorem evalConditional (collectionId : String) (c : Conditional) (text : String) :
    Quiet fun a => Eval.evalConditional env a collectionId c text := by
  refine .inside (fun node => ?_) fun trace => trace.enterApart (Eval.stepOfConditional c)
  have hholds : Quiet fun a =>
      Expr.holdsIn (Eval.expressionScope env a false (some text) collectionId) c.condition :=
    .of_lockstep (.holdsIn env false (some text) collectionId c.condition)
  have hend : ∀ change : Option Change, Quiet fun _ => (do
      Eval.setValue node (.bool change.isSome)
      return change : Eval (Option Change)) := fun change =>
    .bind (.silent (fun _ => rfl) fun _ => rfl) fun _ => .pure change
  refine hholds.bind fun holds => ?_
  dsimp only
  split
  · exact .bind (.call _) fun value => .bind (.map _ (.changeOf c value text)) hend
  · exact .bind (.pure none) hend

theorem amendText (collectionId : String) (conditionals : List Conditional) (text : String)
    (matched : Nat) :
    Quiet fun a => Eval.amendText env a collectionId conditionals text matched := by
  induction conditionals generalizing text matched with
  | nil => exact .pure _
  | cons c rest ih =>
      refine .bind (.evalConditional env collectionId c text) fun change => ?_
      cases change with
      | none => exact ih text matched
      | some change => exact ih _ _

theorem performed (request : Request) : Quiet fun a => request.performed env a := by
  have hroll : ∀ ref wantsTemplate, Quiet fun a => Request.outcome env a ref wantsTemplate :=
    fun ref wantsTemplate => .bind (.liftResolution _) fun found => .call _
  cases request with
  | roll ref => exact hroll ref false
  | template ref => exact hroll ref true
  | pattern text =>
      exact .bind (.of_lockstep (.evalPattern env env.collectionId text)) fun text => .pure _

theorem evaluated (request : Request) (d : Document) (extra : Assoc String) :
    Quiet fun a => request.evaluated env a d extra := by
  simp only [Request.evaluated_eq]
  refine .bind ?_ fun _ => .bind (.performed env request) fun o => ?_
  · refine .get_bind fun c => .bind (.liftDeclaration _) fun opened => ?_
    exact .silent (fun _ => rfl) fun _ => rfl
  · refine .bind (.amendText env env.collectionId d.conditionals o.text 0) fun amended => ?_
    exact .bind (.silent (fun _ => rfl) fun _ => rfl) fun _ => .pure _

end Quiet

/-! ## Reports -/

namespace Engine

/-- In the evaluation of a request in a collection, a roll of an entry with a description is
completed. -/
def Rolls (e : Engine) (c : Collection) (request : Request) (options : Options)
    (path : List Question) (r : Description) : Prop :=
  let env := e.surroundings c
  Eval.Rolled env (env.callBound options.shared)
    (fun a => request.evaluated env a c.document options.shared)
    (e.freshContext request options c.document.statics.keys) path r

variable {e : Engine} {collectionId : String} {c : Collection} {request : Request}
  {options : Options} {report : Report}

/-- A report holds what an evaluation had recorded at its end. -/
theorem descriptions_of_evaluate (hloaded : e.registry.loaded collectionId = .ok c)
    (h : (e.evaluate collectionId request options).result = .ok report) :
    Fueled (e.run c request options).1.2 ∧
      report.descriptions = (e.run c request options).2.descriptionsInOrder := by
  rw [evaluate, hloaded] at h
  dsimp only at h
  unfold reply at h
  generalize (e.run c request options).1.2 = result at h ⊢
  cases result with
  | ok o =>
      cases h
      exact ⟨nofun, rfl⟩
  | error f =>
      cases f with
      | error error =>
          cases h
          exact ⟨nofun, rfl⟩
      | fault _ => cases h
      | outOfFuel => cases h

/-- The descriptions in a report are the records of the described rolls that were completed, one for
each. No roll has its record before that of a roll that it is inside of. -/
theorem descriptions_evaluate (hloaded : e.registry.loaded collectionId = .ok c)
    (h : (e.evaluate collectionId request options).result = .ok report) :
    ∃ rolls : List (List Question × Description),
      (∀ path r, (path, r) ∈ rolls ↔ e.Rolls c request options path r) ∧
      rolls.Pairwise (fun p q => ¬ q.1 <+: p.1) ∧
      report.descriptions = rolls.map Prod.snd := by
  obtain ⟨hfueled, hdescriptions⟩ := descriptions_of_evaluate hloaded h
  obtain ⟨rolls, hrolls, hoften, hrecords⟩ :=
    (Quiet.evaluated (e.surroundings c) request c.document options.shared).exists_rolls
      (c := e.freshContext request options c.document.statics.keys) rfl hfueled
  exact ⟨rolls, hrolls, hoften, hdescriptions.trans hrecords.symm⟩

/-- A roll in the value of an entry and one in the description of that: the outermost is first,
though it is the last that ends. -/
theorem descriptions_of_nested_rolls :
    let entry (value description : String) : List Entry :=
      [{ value := some value, description := some description }]
    let document : Document := {
      metadata := { name := "n", namespaceText := "c" }
      tables := [.simple { id := "t", entries := entry "\x7b\x7bu\x7d\x7d" "a" },
        .simple { id := "u", entries := entry "x" "\x7b\x7bv\x7d\x7d" },
        .simple { id := "v", entries := entry "y" "b" }] }
    let c : Collection := { id := "c", document }
    let e : Engine := { registry := ⟨[c]⟩ }
    let options : Options := { source := .ofDraws [0, 0, 0] }
    ∃ report, (e.evaluate "c" (.roll "t") options).result = .ok report ∧
      report.descriptions =
        [⟨"t", "t", "x", "a", 1⟩, ⟨"u", "u", "x", "y", 2⟩, ⟨"v", "v", "y", "b", 3⟩] ∧
      ∃ rolls : List (List Question × Description),
        (∀ path r, (path, r) ∈ rolls ↔ e.Rolls c (.roll "t") options path r) ∧
        rolls.Pairwise (fun p q => ¬ q.1 <+: p.1) ∧
        report.descriptions = rolls.map Prod.snd := by
  intro entry document c e options
  have hloaded : e.registry.loaded "c" = .ok c := rfl
  -- the innermost roll ends first, so its record is the first before they are sorted
  have hrun : (e.run c (.roll "t") options).2.descriptions =
      [⟨"v", "v", "y", "b", 3⟩, ⟨"u", "u", "x", "y", 2⟩, ⟨"t", "t", "x", "a", 1⟩] := by
    decide +kernel
  have hok : (e.evaluate "c" (.roll "t") options).result.toOption.isSome := by decide +kernel
  cases hresult : (e.evaluate "c" (.roll "t") options).result with
  | error f =>
      rw [hresult] at hok
      cases hok
  | ok report =>
      refine ⟨report, rfl, ?_, descriptions_evaluate hloaded hresult⟩
      rw [(descriptions_of_evaluate hloaded hresult).2, Context.descriptionsInOrder, hrun]
      cbv

end Engine

end RandomTables
