-- SUMMARY: Spellings of a variable: where expressions and directives read it alike, and where not.
import RandomTables.Proofs.Directive.Naming
import RandomTables.Proofs.Evaluation.Instances
import RandomTables.Proofs.Shared.Order

/-!
# Spellings of variables

A variable is read by its name, by its values, or by its items with a separator, and an expression
may ask for its count or value too. Each spelling has a chain of its own through captures, shared
variables, static variables and imports. They coincide for captures and shared variables. In an
expression the attribute of any other name is that of an import, also where the name is that of a
static variable. A calculation shows the number that its expression reads.
-/
namespace RandomTables

/-- A variable is missed if no visible scope declares it. -/
theorem SharedStore.find_eq_undeclared_iff {s : SharedStore} {name : String} :
    s.find name = .undeclared ↔ s.declares name = false := by
  obtain ⟨statics, scopes⟩ := s
  have hscopes : ∀ hidden, findIn statics hidden name scopes = .undeclared ↔
      scopes.any (·.declares name) = false := by
    induction scopes with
    | nil => exact fun _ => ⟨fun _ => rfl, fun _ => rfl⟩
    | cons scope outer ih =>
        intro hidden
        rw [findIn, List.any_cons, SharedLevel.declares]
        cases hd : scope.declaration? name with
        | none => simpa using ih (hidden ++ [scope])
        | some d =>
            refine iff_of_false ?_ (by simp)
            dsimp only
            split
            · exact fun h => by cases h
            · split <;> exact fun h => by cases h
  exact hscopes []

/-- The variable is captured, or a visible scope declares it. -/
def Context.Keeps (c : Context) (name : String) : Prop :=
  c.captures.has name = true ∨ c.shared.declares name = true

instance (c : Context) (name : String) : Decidable (c.Keeps name) :=
  inferInstanceAs (Decidable (_ ∨ _))

namespace Eval

/-- What a directive shows of the items of a variable, asked for an attribute. -/
def shownItems (asked : CaptureAttribute) (items : Captured) : String :=
  match asked with
  | .count => toString items.length
  | .value => joinItems defaultSeparator items

/-- What a calculation shows of a text: the number that it writes. -/
def calculated (text : String) : String :=
  match (Value.str text).number? with
  | some x => (Value.num x).text
  | none => mathError

/-- Two maps over a result are one. -/
theorem result_map_map {ε α β γ : Type} (f : α → β) (g : β → γ) (result : Except ε α) :
    (result.map f).map g = result.map fun a => g (f a) := by
  cases result <;> rfl

theorem joinItems_singleton (separator : String) (i : Item) :
    joinItems separator [i] = i.value := by
  simp [joinItems]

/-- A variable that no visible scope declares is not read. -/
theorem readShared_of_not_declares (answer : Answer) {name : String} {c : Context}
    (h : c.shared.declares name = false) : readShared answer name c = (.ok none, c) := by
  rw [readShared_apply, SharedStore.find_eq_undeclared_iff.2 h]

theorem declares_of_readShared {answer : Answer} {name : String} {c d : Context}
    (h : readShared answer name c = (.ok none, d)) : c.shared.declares name = false := by
  rw [readShared_apply] at h
  cases hfind : c.shared.find name with
  | undeclared => exact SharedStore.find_eq_undeclared_iff.1 hfind
  | illegal e =>
      rw [hfind] at h
      cases h
  | known value =>
      rw [hfind] at h
      cases h
  | pending p =>
      rw [hfind] at h
      obtain ⟨_, _, -, h⟩ := Computation.bind_eq_ok h
      obtain ⟨_, _, -, h⟩ := Computation.bind_eq_ok h
      cases h

section

variable (env : Surroundings) (answer : Answer) (name collectionId : String)

/-- The attribute of a name is one of its items, or a variable of an import. -/
theorem readDotted_attribute (hname : '.' ∉ name.toList) (asked : CaptureAttribute) (c : Context) :
    readDotted env answer (name ++ "." ++ asked.name) collectionId c =
      if c.Keeps name then (shownItems asked <$> readItems env answer name collectionId) c
      else readImported env name asked.name collectionId c := by
  have hlist : (name ++ "." ++ asked.name).toList = name.toList ++ '.' :: asked.name.toList := by
    simp [String.toList_append]
  have hdot : (name.toList ++ '.' :: asked.name.toList).contains '.' = true := by simp
  have hasked : asked.name = CaptureAttribute.count.name ∨
      asked.name = CaptureAttribute.value.name := by
    cases asked
    · exact .inl rfl
    · exact .inr rfl
  rw [readDotted, hlist, if_pos hdot, Text.cutAtChar_append hname]
  dsimp only
  rw [Computation.get_bind_apply, String.ofList_toList, String.ofList_toList]
  have hcondition : ((asked.name = CaptureAttribute.count.name ∨
      asked.name = CaptureAttribute.value.name) ∧
      (c.captures.has name || c.shared.declares name) = true) ↔ c.Keeps name := by
    rw [and_iff_right hasked, Bool.or_eq_true]
    rfl
  rw [map_eq_pure_bind]
  simp only [hcondition]
  split
  · cases asked <;> rfl
  · rfl

/-- The attribute of a variable that is captured or declared is one of its items. -/
theorem readDotted_of_keeps (hname : '.' ∉ name.toList) (asked : CaptureAttribute) {c : Context}
    (h : c.Keeps name) :
    readDotted env answer (name ++ "." ++ asked.name) collectionId c =
      (shownItems asked <$> readItems env answer name collectionId) c := by
  rw [readDotted_attribute env answer name collectionId hname, if_pos h]

/-- The attribute of any other name is a variable of an import. -/
theorem readDotted_of_not_keeps (hname : '.' ∉ name.toList) (asked : CaptureAttribute)
    {c : Context} (h : ¬ c.Keeps name) :
    readDotted env answer (name ++ "." ++ asked.name) collectionId c =
      readImported env name asked.name collectionId c := by
  rw [readDotted_attribute env answer name collectionId hname, if_neg h]

/-- A variable that is captured, declared or static reads as its items in a row. -/
theorem readVariable_eq {c : Context}
    (h : c.Keeps name ∨ (staticText? env name collectionId).isSome) :
    readVariable env answer name collectionId c =
      (joinItems defaultSeparator <$> readItems env answer name collectionId) c := by
  rw [map_eq_pure_bind, readVariable, readItems, Computation.get_bind_apply, Computation.bind_apply,
    Computation.get_bind_apply]
  cases hcaptured : c.captures.get? name with
  | some items => rfl
  | none =>
      dsimp only
      rw [Computation.bind_apply, Computation.bind_apply]
      rcases hread : readShared answer name c with ⟨f | _ | value, d⟩
      · rfl
      · have hmissed : ¬ c.Keeps name := by
          rintro (hhas | hdeclared)
          · rw [Assoc.has, hcaptured] at hhas
            cases hhas
          · rw [declares_of_readShared hread] at hdeclared
            cases hdeclared
        obtain ⟨text, htext⟩ := Option.isSome_iff_exists.1 (h.resolve_left hmissed)
        simp only [htext]
        change _ = (Except.ok (joinItems defaultSeparator [{ value := text }]), d)
        rw [joinItems_singleton]
        rfl
      · change _ = (Except.ok (joinItems defaultSeparator [value.toItem]), d)
        rw [joinItems_singleton]
        cases value <;> rfl

/-- A variable that is neither captured nor declared is read as one item if it is static. -/
theorem readItems_of_not_keeps {c : Context} (h : ¬ c.Keeps name) :
    readItems env answer name collectionId c =
      match staticText? env name collectionId with
      | some text => (.ok [{ value := text }], c)
      | none => (.error (.error (.resolution (.unknownCapture name))), c) := by
  rw [Context.Keeps, not_or, Bool.not_eq_true, Bool.not_eq_true] at h
  have hcaptured : c.captures.get? name = none := Option.not_isSome_iff_eq_none.1 (by
    rw [← Assoc.has, h.1]
    decide)
  rw [readItems, Computation.get_bind_apply, hcaptured]
  dsimp only
  rw [Computation.bind_apply, readShared_of_not_declares answer h.2]
  dsimp only
  cases staticText? env name collectionId <;> rfl

/-- Where a variable would be read from is known without reading it. -/
theorem sortOfVariable_eq_ok (c : Context) :
    ∃ sort, sortOfVariable env name collectionId c = (.ok sort, c) := by
  rw [sortOfVariable, Computation.get_bind_apply]
  split
  · exact ⟨_, rfl⟩
  · split
    · exact ⟨_, rfl⟩
    · split <;> exact ⟨_, rfl⟩

end

/-! ## The directives -/

section

variable (env : Surroundings) (fuel : Nat) (name collectionId raw : String) (memory : Again)

theorem sameRun_variable :
    SameRun
      (renderDirective env (answerWithin env fuel) collectionId memory
        (.act raw (.variable name none)))
      ((·, memory) <$> readVariable env (answerWithin env fuel) name collectionId) := by
  rw [map_eq_pure_bind]
  refine (sameRun_act env fuel collectionId memory raw _).trans ?_
  simp only [renderAction, renderVariable, bind_assoc]
  intro c d hcd
  obtain ⟨sort, hsort⟩ := sortOfVariable_eq_ok env name collectionId c
  rw [Computation.bind_apply, hsort]
  refine SameRun.annotate _ _ ?_ c d hcd
  exact .bind (sameRun_of_uniform env fuel (.readVariable env name collectionId)) fun _ => .pure _

/-- The attribute of a variable is that of its items. -/
theorem sameRun_attribute (asked : CaptureAttribute) :
    SameRun
      (renderDirective env (answerWithin env fuel) collectionId memory
        (.act raw (.captureAccess name none (some asked) none)))
      ((fun items => (shownItems asked items, memory)) <$>
        readItems env (answerWithin env fuel) name collectionId) := by
  rw [map_eq_pure_bind]
  refine (sameRun_act env fuel collectionId memory raw _).trans ?_
  simp only [renderAction, renderCaptureAccess, chosenItems, bind_assoc, pure_bind]
  refine .bind (sameRun_of_uniform env fuel (.readItems env name collectionId)) fun items => ?_
  cases asked <;> exact .annotate _ _ (.pure _)

theorem sameRun_joined (separator : String) :
    SameRun
      (renderDirective env (answerWithin env fuel) collectionId memory
        (.act raw (.captureAccess name none none (some separator))))
      ((fun items => (joinItems separator items, memory)) <$>
        readItems env (answerWithin env fuel) name collectionId) := by
  rw [map_eq_pure_bind]
  refine (sameRun_act env fuel collectionId memory raw _).trans ?_
  simp only [renderAction, renderCaptureAccess, chosenItems, bind_assoc, pure_bind]
  refine .bind (sameRun_of_uniform env fuel (.readItems env name collectionId)) fun items => ?_
  exact .annotate _ _ (.pure _)

end

/-! ## All spellings -/

/-- An attribute in an expression is read as a dotted name. -/
theorem eval_attribute (answer : Answer) (env : Surroundings) (name collectionId : String)
    (position : Nat) (strict : Bool) (subject : Option String) (asked : CaptureAttribute) :
    Expr.eval (expressionScope env answer strict subject collectionId)
        (.variable (name ++ "." ++ asked.name) position) =
      Value.str <$> if strict then readDotted env answer (name ++ "." ++ asked.name) collectionId
        else orEmpty (readDotted env answer (name ++ "." ++ asked.name) collectionId) := by
  have hname : (name ++ "." ++ asked.name).isEmpty = false := by
    simp [String.isEmpty_eq_false_iff, String.append_eq_empty_iff]
  rw [Expr.eval, hname, map_eq_pure_bind]
  cases strict
  · rfl
  · rfl

/-- What a calculation shows where it failed. -/
def shownFailure : Failure → Eval String
  | .error (.parse _) => return mathError
  | f => throw f

/-- A text that is no number fails as an operand, which is shown like any parse error. -/
theorem sameRun_shownNumber {x : Eval String} (hx : SameRun x x) {handler : Failure → Eval String}
    (hhandler : ∀ f, SameRun (handler f) (shownFailure f)) :
    SameRun
      (tryCatch (x >>= fun text => Value.text <$> Value.num <$> lift (Value.str text).number)
        handler)
      (tryCatch (calculated <$> x) shownFailure) := by
  intro c d hcd
  obtain ⟨hresult, hcontext⟩ := hx c d hcd
  rw [Computation.tryCatch_apply, Computation.tryCatch_apply, Computation.bind_apply,
    Computation.map_apply]
  rcases hfirst : x c with ⟨r, c'⟩
  rcases hsecond : x d with ⟨s, d'⟩
  rw [hfirst, hsecond] at hresult hcontext
  obtain rfl : s = r := hresult
  cases s with
  | error f => exact hhandler f c' d' hcontext
  | ok text =>
      dsimp only
      rw [Value.number]
      change Coincide _ (Except.ok (calculated text), d')
      rw [calculated]
      cases (Value.str text).number? with
      | some v => exact ⟨rfl, hcontext⟩
      | none => exact hhandler _ c' d' hcontext

/-- A calculation of what a text says shows the number of the text, if there is one. -/
theorem sameRun_calculation (env : Surroundings) (fuel : Nat) (collectionId raw : String)
    (memory : Again) {e : Expr} {x : Eval String} (hx : SameRun x x)
    (he : e.eval (expressionScope env (answerWithin env fuel) true none collectionId) =
      Value.str <$> x) :
    SameRun
      (renderDirective env (answerWithin env fuel) collectionId memory (.act raw (.math e)))
      ((·, memory) <$> tryCatch (calculated <$> x) shownFailure) := by
  have hnumber : Value.text <$> evalNumber env (answerWithin env fuel) collectionId e =
      x >>= fun text => Value.text <$> Value.num <$> lift (Value.str text).number := by
    rw [evalNumber, he]
    simp only [map_eq_pure_bind, bind_assoc, pure_bind]
  refine (sameRun_act env fuel collectionId memory raw _).trans ?_
  simp only [renderAction, renderMath, hnumber, bind_assoc]
  rw [map_eq_pure_bind]
  refine .annotate _ _ (.bind (sameRun_shownNumber hx fun f => ?_) fun _ => .pure _)
  rcases f with (_ | _ | _ | _ | _ | _) | _ | _
  · exact .log _ _ (.setError _ _ (.pure _))
  all_goals exact .result _

/-- What reads nowhere reads as empty where that is allowed. -/
theorem orEmpty_apply (x : Eval String) (c : Context) :
    orEmpty x c =
      match x c with
      | (.error (.error (.resolution _)), d) => (.ok "", d)
      | p => p := by
  rw [orEmpty, Computation.tryCatch_apply]
  rcases x c with ⟨(⟨_ | _⟩ | _ | _) | _, d⟩ <;> rfl

/-- The spellings of a variable, and which of them coincide. Where the variable is captured or
declared, an attribute in an expression is that of its items, as it is for a directive. Otherwise it
belongs to an import, and the directive reads a static variable. A calculation shows the number that
the expression reads. -/
theorem variables_read_by_spelling (env : Surroundings) (fuel : Nat) (name collectionId : String)
    (hname : Directive.isName name.toList = true) (written : Action → String) (memory : Again)
    (position : Nat) (subject : Option String) (asked : CaptureAttribute) (c : Context) :
    let dotted := name ++ "." ++ asked.name
    let run (action : Action) : Except Failure (String × Again) × Context :=
      renderDirective env (answerWithin env fuel) collectionId memory (.act (written action) action)
        c
    let reads (strict : Bool) : Except Failure (String × Again) × Context :=
      ((fun v : Value => (v.text, memory)) <$> Expr.eval
        (expressionScope env (answerWithin env fuel) strict subject collectionId)
        (.variable dotted position)) c
    let shown := run (.captureAccess name none (some asked) none)
    let static := staticText? env name collectionId
    (Expr.parse ("$" ++ dotted).toList = .ok (.variable dotted 0) ∧
      Directive.Spells ("math:$" ++ dotted) (.math (.variable dotted 0)) ∧
      Directive.Spells ("$" ++ dotted) (.captureAccess name none (some asked) none) ∧
      Directive.Spells ("$" ++ name) (.variable name none) ∧
      Directive.Spells ("$" ++ name ++ "|\", \"")
        (.captureAccess name none none (some defaultSeparator))) ∧
    (reads false = match reads true with
      | (.error (.error (.resolution _)), d) => (.ok ("", memory), d)
      | p => p) ∧
    (c.Keeps name → Coincide (reads true) shown) ∧
    (¬ c.Keeps name →
      reads true = (match env.registry.aliasedStatic name asked.name collectionId with
        | .ok (some text) => (.ok (text, memory), c)
        | .ok none => (.error (.error (.resolution (.unknownVariable dotted))), c)
        | .error e => (.error (.error (.resolution e)), c)) ∧
      Coincide shown (match static with
        | some text => (.ok (if asked = .count then "1" else text, memory), c)
        | none => (.error (.error (.resolution (.unknownCapture name))), c))) ∧
    Coincide (run (.math (.variable dotted position))) (match reads true with
      | (.ok (text, _), d) => (.ok (calculated text, memory), d)
      | (.error (.error (.parse _)), d) => (.ok (mathError, memory), d)
      | p => p) ∧
    (c.Keeps name ∨ static.isSome →
      Coincide (run (.variable name none)) (run (.captureAccess name none (some .value) none)) ∧
      Coincide (run (.variable name none))
        (run (.captureAccess name none none (some defaultSeparator)))) := by
  intro dotted run reads shown static
  have hdot : '.' ∉ name.toList := Directive.not_mem_of_isName hname (by decide +kernel)
  let spelled := readDotted env (answerWithin env fuel) dotted collectionId
  have hreads : ∀ strict, reads strict =
      ((·, memory) <$> if strict then spelled else orEmpty spelled) c := by
    intro strict
    have heval := eval_attribute (answerWithin env fuel) env name collectionId position strict
      subject asked
    exact congrFun ((congrArg _ heval).trans (comp_map _ _ _).symm) c
  have hstrict := hreads true
  have hlenient := hreads false
  rw [if_pos rfl] at hstrict
  rw [if_neg Bool.false_ne_true] at hlenient
  rw [Computation.map_apply] at hstrict hlenient
  have hshown := sameRun_attribute env fuel name collectionId
    (written (.captureAccess name none (some asked) none)) memory asked c c (.refl c)
  have hvariable := sameRun_variable env fuel name collectionId
    (written (.variable name none)) memory c c (.refl c)
  rw [Computation.map_apply] at hshown hvariable
  refine ⟨⟨Directive.parse_expression hname asked, Directive.spells_calculation hname asked,
    Directive.spells_attribute hname asked, Directive.spells_variable hname,
    Directive.spells_joined hname⟩, ?_, fun hkeeps => ?_, fun hkeeps => ⟨?_, ?_⟩, ?_, fun h => ?_⟩
  · rw [hstrict, hlenient, orEmpty_apply]
    rcases spelled c with ⟨(⟨_ | _⟩ | _ | _) | text, d⟩ <;> rfl
  · have hitems : spelled c = _ :=
      readDotted_of_keeps env (answerWithin env fuel) name collectionId hdot asked hkeeps
    rw [hstrict, hitems, Computation.map_apply, result_map_map]
    exact hshown.symm
  · have himported : spelled c = _ :=
      readDotted_of_not_keeps env (answerWithin env fuel) name collectionId hdot asked hkeeps
    rw [hstrict, himported, readImported, Computation.bind_apply]
    cases env.registry.aliasedStatic name asked.name collectionId with
    | error e => rfl
    | ok found => cases found <;> rfl
  · rw [readItems_of_not_keeps env _ name collectionId hkeeps] at hshown
    refine hshown.trans ?_
    change Coincide _ (match static with | some text => _ | none => _)
    have hstatic : staticText? env name collectionId = static := rfl
    rw [hstatic]
    cases static with
    | none => exact ⟨rfl, .refl c⟩
    | some text =>
        refine ⟨congrArg (fun shown => Except.ok (shown, memory)) ?_, .refl c⟩
        cases asked with
        | count => exact (if_pos rfl).trans (by decide : "1" = toString 1)
        | value => exact (joinItems_singleton _ { value := text }).symm
  · have hdotted : SameRun spelled spelled :=
      sameRun_of_uniform env fuel (.readDotted env dotted collectionId)
    have hmath := sameRun_calculation env fuel collectionId
      (written (.math (.variable dotted position))) memory hdotted
      (eval_attribute (answerWithin env fuel) env name collectionId position true none asked)
      c c (.refl c)
    rw [Computation.map_apply, Computation.tryCatch_apply, Computation.map_apply] at hmath
    rw [hstrict]
    generalize spelled c = ended at hmath ⊢
    rcases ended with ⟨((_ | _ | _ | _ | _ | _) | _ | _) | text, d⟩ <;> exact hmath
  · rw [readVariable_eq env _ name collectionId h, Computation.map_apply] at hvariable
    have hvalue := sameRun_attribute env fuel name collectionId
      (written (.captureAccess name none (some .value) none)) memory .value c c (.refl c)
    have hjoined := sameRun_joined env fuel name collectionId
      (written (.captureAccess name none none (some defaultSeparator))) memory defaultSeparator c c
      (.refl c)
    rw [Computation.map_apply] at hvalue hjoined
    rw [result_map_map] at hvariable
    exact ⟨hvariable.trans hvalue.symm, hvariable.trans hjoined.symm⟩

/-- A capture of two items is counted alike by an expression and a directive, and reads alike in
every spelling. -/
theorem two_items_read_by_spelling :
    let document : Document := { metadata := { name := "n", namespaceText := "c" }, tables := [] }
    let env : Surroundings := {
      registry := ⟨[{ id := "c", document }]⟩, base := {}, config := {}, collectionId := "c"
      statics := [] }
    let c : Context := { captures := [("x", [{ value := "A" }, { value := "B" }])] }
    let run (action : Action) : Except Failure (String × Again) × Context :=
      renderDirective env (answerWithin env 9) "c" .nothing (.act "" action) c
    let reads : Except Failure (String × Again) × Context :=
      ((fun v : Value => (v.text, Again.nothing)) <$> Expr.eval
        (expressionScope env (answerWithin env 9) true none "c") (.variable "x.count" 0)) c
    Coincide reads (run (.captureAccess "x" none (some .count) none)) ∧
    reads.1.toOption.map (·.1) = some "2" ∧
    Coincide (run (.variable "x" none))
      (run (.captureAccess "x" none none (some defaultSeparator))) ∧
    (run (.variable "x" none)).1.toOption.map (·.1) = some "A, B" := by
  intro document env c run reads
  have hkeeps : c.Keeps "x" := .inl (by decide)
  obtain ⟨-, -, hcounted, -, -, hspelled⟩ :=
    variables_read_by_spelling env 9 "x" "c" (by decide +kernel) (fun _ => "") .nothing 0 none
      .count c
  exact ⟨hcounted hkeeps, by decide +kernel, (hspelled (.inl hkeeps)).2, by decide +kernel⟩

/-- A directive reads the value of a static variable and an expression does not; an expression reads
a variable of an import that is named like an attribute and a directive does not. -/
theorem static_value_read_by_directive_only :
    let imported : Document := {
      metadata := { name := "m", namespaceText := "d" }, tables := [], statics := [("count", "3")] }
    let document : Document := {
      metadata := { name := "n", namespaceText := "c" }, tables := [], statics := [("hp", "5")] }
    let env : Surroundings := {
      registry := ⟨[{ id := "c", document, wired := [("a", "d")] },
        { id := "d", document := imported }]⟩
      base := {}, config := {}, collectionId := "c", statics := [] }
    let shown (d : Directive) : Option String :=
      (renderDirective env (answerWithin env 9) "c" .nothing d {}).1.toOption.map (·.1)
    let asks (name : String) (asked : CaptureAttribute) : Directive :=
      .act ("$" ++ name ++ "." ++ asked.name) (.captureAccess name none (some asked) none)
    let computes (name : String) : Directive := .act ("math:$" ++ name) (.math (.variable name 0))
    shown (asks "hp" .value) = some "5" ∧ shown (computes "hp.value") = none ∧
    shown (asks "a" .count) = none ∧ shown (computes "a.count") = some "3" := by
  intro imported document env shown asks computes
  exact ⟨by decide +kernel, by decide +kernel, by decide +kernel, by decide +kernel⟩

end Eval

end RandomTables
