-- SUMMARY: Texts whose names mean the same in two collections are rendered alike in both.
import RandomTables.Evaluation.Pattern
import RandomTables.Proofs.Directive.Reading
import RandomTables.Proofs.Evaluation.Monad
import RandomTables.Proofs.Pattern.Tiling

/-!
# Portable texts

Rendering a text looks names up in a collection: references to tables and templates, static
variables, and the aliases of imports. A text is portable from one collection to another if all its
names mean the same in both. It is rendered alike in both then, to the same end and with the same
context left behind.
-/
namespace RandomTables

/-! ## The names of a directive -/

/-- The variable of a count is as stated. -/
def Multiplicity.Names (known : String → Prop) : Multiplicity → Prop
  | .variable name => known name
  | _ => True

/-- The references of an action are as stated by `refs`, its variables and aliases by `known`. -/
def Action.Names (refs known : String → Prop) : Action → Prop
  | .dice _ => True
  | .math e => e.Reads known fun _ => True
  | .table ref _ => refs ref
  | .multiRoll count ref _ _ => count.Names known ∧ refs ref
  | .unique _ ref _ => refs ref
  | .again .. => True
  | .variable name none => known name
  | .variable _ (some importAlias) => known importAlias
  | .captureAccess name .. => known name
  | .captureProperty name .. => known name
  | .placeholder .. => True
  | .capture count ref .. => count.Names known ∧ refs ref
  | .collect source .. => known source

mutual

/-- The names of a directive are as stated, also those of branches that are not taken. -/
def Directive.Names (refs known : String → Prop) : Directive → Prop
  | .act _ action => action.Names refs known
  | .switch _ none branches otherwise =>
    BranchNames refs known branches ∧ ElseNames refs known otherwise
  | .switch _ (some subject) branches otherwise =>
    subject.Names refs known ∧ BranchNames refs known branches ∧ ElseNames refs known otherwise

def BranchNames (refs known : String → Prop) : List Branch → Prop
  | [] => True
  | .mk condition result :: rest =>
    condition.Reads known (fun _ => True) ∧ result.Names refs known ∧ BranchNames refs known rest

def ElseNames (refs known : String → Prop) : Option Consequence → Prop
  | none => True
  | some result => result.Names refs known

def Consequence.Names (refs known : String → Prop) : Consequence → Prop
  | .literal _ => True
  | .directive d => d.Names refs known

end

/-! ### Names as stated of any text -/

section

variable {refs known : String → Prop} (hrefs : ∀ ref, refs ref) (hknown : ∀ name, known name)
include hknown

theorem Multiplicity.names_any (count : Multiplicity) : count.Names known := by
  cases count with
  | «variable» name => exact hknown name
  | _ => trivial

theorem Expr.reads_of_forall (e : Expr) : e.Reads known fun _ => True :=
  e.reads_any.mono (fun name _ => hknown name) fun _ => id

include hrefs

theorem Action.names_any (action : Action) : action.Names refs known := by
  cases action with
  | math e => exact e.reads_of_forall hknown
  | table ref _ => exact hrefs ref
  | multiRoll count ref _ _ => exact ⟨count.names_any hknown, hrefs ref⟩
  | unique _ ref _ => exact hrefs ref
  | «variable» name importAlias =>
      cases importAlias with
      | none => exact hknown name
      | some importAlias => exact hknown importAlias
  | captureAccess name _ _ _ => exact hknown name
  | captureProperty name _ _ _ => exact hknown name
  | capture count ref _ _ _ _ => exact ⟨count.names_any hknown, hrefs ref⟩
  | collect source _ _ _ _ => exact hknown source
  | _ => trivial

end

mutual

theorem Directive.names_any {refs known : String → Prop} (hrefs : ∀ ref, refs ref)
    (hknown : ∀ name, known name) : ∀ d : Directive, d.Names refs known
  | .act _ action => action.names_any hrefs hknown
  | .switch _ none branches otherwise =>
    ⟨branchNames_any hrefs hknown branches, elseNames_any hrefs hknown otherwise⟩
  | .switch _ (some subject) branches otherwise =>
    ⟨Directive.names_any hrefs hknown subject, branchNames_any hrefs hknown branches,
      elseNames_any hrefs hknown otherwise⟩

theorem branchNames_any {refs known : String → Prop} (hrefs : ∀ ref, refs ref)
    (hknown : ∀ name, known name) : ∀ branches : List Branch, BranchNames refs known branches
  | [] => trivial
  | .mk condition result :: rest =>
    ⟨condition.reads_of_forall hknown, Consequence.names_any hrefs hknown result,
      branchNames_any hrefs hknown rest⟩

theorem elseNames_any {refs known : String → Prop} (hrefs : ∀ ref, refs ref)
    (hknown : ∀ name, known name) :
    ∀ otherwise : Option Consequence, ElseNames refs known otherwise
  | none => trivial
  | some result => Consequence.names_any hrefs hknown result

theorem Consequence.names_any {refs known : String → Prop} (hrefs : ∀ ref, refs ref)
    (hknown : ∀ name, known name) : ∀ result : Consequence, result.Names refs known
  | .literal _ => trivial
  | .directive d => Directive.names_any hrefs hknown d

end

namespace Registry

variable (r : Registry) (here there : String)

/-- A reference leads to the same definition from two collections. -/
structure SameTarget (ref : String) : Prop where
  find : r.find ref there = r.find ref here
  resolve : r.resolve ref there = r.resolve ref here

/-- A name means the same variable in two collections, and the same collection if it is an alias. -/
structure SameName (name : String) : Prop where
  static : ((r.get? there).bind fun c => c.document.statics.get? name) =
    (r.get? here).bind fun c => c.document.statics.get? name
  aliased : ∀ imported,
    r.aliasedStatic name imported there = r.aliasedStatic name imported here

/-- All names of a text mean the same in two collections. -/
def Portable (text : String) : Prop :=
  ∀ span ∈ Span.find text.toList, ∀ d, Directive.parse span.expression = .ok d →
    d.Names (r.SameTarget here there) (r.SameName here there)

theorem portable_self (text : String) : r.Portable here here text :=
  fun _ _ d _ => d.names_any (fun _ => ⟨rfl, rfl⟩) fun _ => ⟨rfl, fun _ => rfl⟩

/-- A text without directives has no names. -/
theorem portable_of_plain {text : String} (h : Span.find text.toList = []) :
    r.Portable here there text := by
  intro span hspan
  rw [h] at hspan
  cases hspan

end Registry

/-! ## Evaluations in two collections -/

/-- Two evaluations do the same and give values as stated. -/
def Eval.Same {α : Type} (P : α → Prop) (x y : Eval α) : Prop :=
  y = x ∧ ∀ c a, (x c).1 = .ok a → P a

namespace Eval.Same

variable {α β : Type} {P : α → Prop} {Q : β → Prop} {x y : Eval α} {f g : α → Eval β}

theorem of_eq (h : y = x) : Same (fun _ => True) x y := ⟨h, fun _ _ _ => trivial⟩

theorem pure {a : α} (h : P a) : Same P (pure a : Eval α) (pure a) := by
  refine ⟨rfl, ?_⟩
  rintro _ _ ⟨⟩
  exact h

theorem lift {e : Except Failure α} (h : ∀ a, e = .ok a → P a) :
    Same P (Eval.lift e) (Eval.lift e) := by
  cases e with
  | ok a => exact .pure (h a rfl)
  | error f => exact ⟨rfl, fun _ _ hfails => nomatch hfails⟩

theorem bind (hx : Same P x y) (hf : ∀ a, P a → Same Q (f a) (g a)) :
    Same Q (x >>= f) (y >>= g) := by
  obtain ⟨rfl, hvalue⟩ := hx
  constructor
  · funext c
    rw [Computation.bind_apply, Computation.bind_apply]
    rcases hrun : y c with ⟨e | a, c'⟩
    · rfl
    · exact congrFun (hf a (hvalue c a (congrArg Prod.fst hrun))).1 c'
  · intro c b
    rw [Computation.bind_apply]
    rcases hrun : y c with ⟨e | a, c'⟩
    · exact fun h => nomatch h
    · exact (hf a (hvalue c a (congrArg Prod.fst hrun))).2 c' b

theorem next (hx : Same (fun _ => True) x y) (hf : ∀ a, Same Q (f a) (g a)) :
    Same Q (x >>= f) (y >>= g) := hx.bind fun a _ => hf a

theorem traced {step : TraceStep} {body body' : Option Nat → Eval α}
    (h : ∀ node, Same P (body node) (body' node)) :
    Same P (Eval.traced step body) (Eval.traced step body') := by
  obtain rfl : body' = body := funext fun node => (h node).1
  exact ⟨rfl, fun c => (h _).2 _⟩

end Eval.Same

/-! ## Expressions -/

section

variable {m : Type → Type} [Monad m] [MonadExceptOf Failure m] {known : String → Prop}
  {scope scope' : Expr.Scope m}

mutual

/-- Scopes in which the variables of an expression are resolved alike give it the same value. -/
theorem Expr.eval_same (hvariable : ∀ name, known (rootOf name) →
      scope'.resolveVariable name = scope.resolveVariable name)
    (hplaceholder : scope'.resolvePlaceholder = scope.resolvePlaceholder)
    (hsubject : scope'.subject = scope.subject) :
    ∀ e : Expr, e.Reads known (fun _ => True) → e.eval scope' = e.eval scope
  | .number _ _, _ => rfl
  | .text _ _, _ => rfl
  | .variable name position, h => by
      unfold Expr.eval
      split
      · rw [hsubject]
      · rename_i hname
        rw [hvariable name (h (eq_false_of_ne_true hname))]
  | .placeholder name property position, _ => by
      unfold Expr.eval
      rw [hplaceholder]
  | .unary op operand position, h => by
      unfold Expr.eval
      rw [Expr.eval_same hvariable hplaceholder hsubject operand h]
  | .binary op left right, h => by
      have hleft := Expr.eval_same hvariable hplaceholder hsubject left h.1
      have hright := Expr.eval_same hvariable hplaceholder hsubject right h.2
      cases op <;> simp only [Expr.eval, hleft, hright]
  | .call f arguments position, h => by
      unfold Expr.eval
      rw [Expr.evalNumbers_same hvariable hplaceholder hsubject arguments h]

theorem Expr.evalNumbers_same (hvariable : ∀ name, known (rootOf name) →
      scope'.resolveVariable name = scope.resolveVariable name)
    (hplaceholder : scope'.resolvePlaceholder = scope.resolvePlaceholder)
    (hsubject : scope'.subject = scope.subject) :
    ∀ es : List Expr, Expr.AllRead known (fun _ => True) es →
      Expr.evalNumbers scope' es = Expr.evalNumbers scope es
  | [], _ => rfl
  | e :: rest, h => by
      rw [Expr.evalNumbers, Expr.evalNumbers,
        Expr.eval_same hvariable hplaceholder hsubject e h.1,
        Expr.evalNumbers_same hvariable hplaceholder hsubject rest h.2]

end

end

namespace Eval

variable {env : Surroundings} {answer : Answer} {here there : String}

/-! ## Reading -/

section

variable {name : String} (h : env.registry.SameName here there name)
include h

theorem staticText_same : staticText? env name there = staticText? env name here := by
  unfold staticText?
  rw [h.static]

theorem readVariable_same :
    readVariable env answer name there = readVariable env answer name here := by
  simp only [readVariable, staticText_same h]

theorem readItems_same : readItems env answer name there = readItems env answer name here := by
  simp only [readItems, staticText_same h]

theorem sortOfVariable_same : sortOfVariable env name there = sortOfVariable env name here := by
  simp only [sortOfVariable, staticText_same h]

theorem readImported_same (imported : String) :
    readImported env name imported there = readImported env name imported here := by
  simp only [readImported, h.aliased]

end

theorem readDotted_same {name : String}
    (h : env.registry.SameName here there (Expr.rootOf name)) :
    readDotted env answer name there = readDotted env answer name here := by
  unfold readDotted
  by_cases hdot : name.toList.contains '.' = true
  · rw [Expr.rootOf, if_pos hdot] at h
    rw [if_pos hdot, if_pos hdot]
    simp only [readItems_same h, readImported_same h]
  · rw [Expr.rootOf, if_neg hdot] at h
    rw [if_neg hdot, if_neg hdot]
    exact readVariable_same h

theorem eval_same (strict : Bool) (subject : Option String) {e : Expr}
    (h : e.Reads (env.registry.SameName here there) fun _ => True) :
    e.eval (expressionScope env answer strict subject there) =
      e.eval (expressionScope env answer strict subject here) := by
  refine Expr.eval_same (fun name hname => ?_) ?_ ?_ e h
  · simp only [expressionScope, readDotted_same hname]
  · rfl
  · rfl

/-! ## Directives -/

/-- What a repetition would repeat means the same in two collections. -/
def Memory.Portable (env : Surroundings) (here there : String) : Again → Prop
  | .ref ref => env.registry.SameTarget here there ref
  | _ => True

section

variable {ref : String} (h : env.registry.SameTarget here there ref)
include h

theorem rollMany_same (count : Nat) (unique : Bool) :
    rollMany env answer ref count there unique = rollMany env answer ref count here unique := by
  simp only [rollMany, h.resolve]

theorem rollReference_same :
    rollReference env answer there ref = rollReference env answer here ref := by
  simp only [rollReference, h.resolve]

end

theorem evalCount_same {count : Multiplicity}
    (h : count.Names (env.registry.SameName here there)) :
    evalCount env answer count there = evalCount env answer count here := by
  cases count with
  | literal n => rfl
  | dice spec => rfl
  | «variable» name => simp only [evalCount, readVariable_same h]

/-- An action does the same in two collections in which its names mean the same. -/
theorem renderAction_same (node : Option Nat) {memory : Again}
    (hmemory : Memory.Portable env here there memory) (raw : String) {action : Action}
    (h : action.Names (env.registry.SameTarget here there) (env.registry.SameName here there)) :
    renderAction env answer there node memory raw action =
      renderAction env answer here node memory raw action := by
  cases action with
  | dice spec => rfl
  | math e => simp only [renderAction, renderMath, evalNumber, eval_same true none h]
  | table ref instanceName =>
      cases instanceName with
      | none => simp only [renderAction, renderTable, rollReference_same h]
      | some name => simp only [renderAction, evalInstance, rollReference_same h]
  | multiRoll count ref unique separator =>
      simp only [renderAction, renderMultiRoll, evalCount_same h.1, rollMany_same h.2]
  | unique count ref separator => simp only [renderAction, renderUnique, rollMany_same h]
  | again count unique separator =>
      cases memory with
      | nothing => rfl
      | dice spec => rfl
      | ref ref => simp only [renderAction, renderAgain, rollMany_same hmemory]
  | «variable» name importAlias =>
      cases importAlias with
      | none => simp only [renderAction, renderVariable, sortOfVariable_same h, readVariable_same h]
      | some importAlias => simp only [renderAction, renderVariable, readImported_same h]
  | captureAccess name index asked separator =>
      simp only [renderAction, renderCaptureAccess, readItems_same h]
  | captureProperty name index properties separator =>
      simp only [renderAction, renderCaptureProperty, readItems_same h]
  | placeholder name property => rfl
  | capture count ref target unique silent separator =>
      simp only [renderAction, renderCapture, evalCount_same h.1, rollMany_same h.2]
  | collect source property fromSets unique separator =>
      simp only [renderAction, renderCollect, readItems_same h]

theorem portable_remembered {memory : Again} (hmemory : Memory.Portable env here there memory)
    {action : Action}
    (h : action.Names (env.registry.SameTarget here there) (env.registry.SameName here there)) :
    Memory.Portable env here there (remembered memory action) := by
  cases action with
  | dice spec => trivial
  | table ref instanceName =>
      cases instanceName with
      | none => exact h
      | some name => exact hmemory
  | multiRoll count ref unique separator => exact h.2
  | unique count ref separator => exact h
  | capture count ref target unique silent separator => exact h.2
  | _ => exact hmemory

/-- The outputs of a directive in two collections are the same, and what a repetition would repeat
after it means the same in both. -/
abbrev SameOutput (env : Surroundings) (here there : String) (x y : Eval (String × Again)) : Prop :=
  Same (fun output => Memory.Portable env here there output.2) x y

theorem performing_same (d : Directive) {body body' : Option Nat → Eval (String × Again)}
    (h : ∀ node, SameOutput env here there (body node) (body' node)) :
    SameOutput env here there (performing d body) (performing d body') := by
  refine .next (.of_eq rfl) fun _ => .traced fun node => (h node).bind fun output houtput => ?_
  exact .next (.of_eq rfl) fun _ => .pure houtput

mutual

theorem renderDirective_same {memory : Again} (hmemory : Memory.Portable env here there memory) :
    ∀ d : Directive,
      d.Names (env.registry.SameTarget here there) (env.registry.SameName here there) →
      SameOutput env here there (renderDirective env answer here memory d)
        (renderDirective env answer there memory d)
  | .act raw action, h => by
      rw [renderDirective, renderDirective]
      refine performing_same _ fun node => ?_
      exact .next (.of_eq (renderAction_same node hmemory raw h)) fun output =>
        .pure (portable_remembered hmemory h)
  | .switch raw none branches otherwise, h => by
      rw [renderDirective, renderDirective]
      refine performing_same _ fun node => ?_
      exact renderBranches_same none node hmemory 0 branches h.1
        (renderOtherwise_same node hmemory otherwise h.2)
  | .switch raw (some subject) branches otherwise, h => by
      rw [renderDirective, renderDirective]
      refine performing_same _ fun node => ?_
      refine .bind (renderDirective_same hmemory subject h.1) fun output houtput => ?_
      exact renderBranches_same (some output.1) node houtput 0 branches h.2.1
        (renderOtherwise_same node houtput otherwise h.2.2)

theorem renderBranches_same (subject : Option String) (node : Option Nat) {memory : Again}
    (hmemory : Memory.Portable env here there memory) (index : Nat) :
    ∀ branches : List Branch,
      BranchNames (env.registry.SameTarget here there) (env.registry.SameName here there)
        branches →
      ∀ {x y : Eval (String × Again)}, SameOutput env here there x y →
        SameOutput env here there (renderBranches env answer here subject node memory index branches x)
          (renderBranches env answer there subject node memory index branches y)
  | [], _, _, _, hotherwise => by
      rw [renderBranches, renderBranches]
      exact hotherwise
  | .mk condition result :: rest, h, _, _, hotherwise => by
      rw [renderBranches, renderBranches]
      refine .next (.of_eq (eval_same false subject h.1)) fun v => ?_
      split
      · exact .next (.of_eq rfl) fun _ => renderResult_same hmemory result h.2.1
      · exact renderBranches_same subject node hmemory (index + 1) rest h.2.2 hotherwise

theorem renderOtherwise_same (node : Option Nat) {memory : Again}
    (hmemory : Memory.Portable env here there memory) :
    ∀ otherwise : Option Consequence,
      ElseNames (env.registry.SameTarget here there) (env.registry.SameName here there)
        otherwise →
      SameOutput env here there (renderOtherwise env answer here node memory otherwise)
        (renderOtherwise env answer there node memory otherwise)
  | some result, h => by
      rw [renderOtherwise, renderOtherwise]
      exact .next (.of_eq rfl) fun _ => renderResult_same hmemory result h
  | none, _ => by
      rw [renderOtherwise, renderOtherwise]
      exact .next (.of_eq rfl) fun _ => .pure hmemory

theorem renderResult_same {memory : Again} (hmemory : Memory.Portable env here there memory) :
    ∀ result : Consequence,
      result.Names (env.registry.SameTarget here there) (env.registry.SameName here there) →
      SameOutput env here there (renderResult env answer here memory result)
        (renderResult env answer there memory result)
  | .literal text, _ => by
      rw [renderResult, renderResult]
      exact .pure hmemory
  | .directive d, h => by
      rw [renderResult, renderResult]
      exact renderDirective_same hmemory d h

end

/-! ## Patterns -/

/-- The directive that a span gives is the one that it is parsed to. -/
theorem parse_of_parseSpan {span : Span} {c : Context} {d : Directive}
    (h : (parseSpan span c).1 = .ok d) : Directive.parse span.expression = .ok d := by
  unfold parseSpan at h
  cases hparse : Directive.parse span.expression with
  | ok d' =>
      rw [hparse] at h
      cases h
      rfl
  | error f =>
      rw [hparse] at h
      rcases f with (_ | _ | _ | _ | _ | _) | _ | _ <;> cases h

theorem renderSpan_same (answer : Answer) {span : Span} (h : ∀ d, Directive.parse span.expression = .ok d →
      d.Names (env.registry.SameTarget here there) (env.registry.SameName here there))
    {memory : Again} (hmemory : Memory.Portable env here there memory) :
    Same (fun segment => Memory.Portable env here there segment.2)
      (renderSpan env answer here memory span) (renderSpan env answer there memory span) := by
  refine .bind (P := fun d => Directive.parse span.expression = .ok d)
    ⟨rfl, fun _ _ => parse_of_parseSpan⟩ fun d hd => ?_
  exact (renderDirective_same hmemory d (h d hd)).bind fun output houtput => .pure houtput

theorem renderPieces_same {pieces : List Piece} {memory : Again}
    (hmemory : Memory.Portable env here there memory)
    (h : ∀ span, .directive span ∈ pieces → ∀ d, Directive.parse span.expression = .ok d →
      d.Names (env.registry.SameTarget here there) (env.registry.SameName here there)) :
    renderPieces env answer there memory pieces = renderPieces env answer here memory pieces := by
  induction pieces generalizing memory with
  | nil => rfl
  | cons piece rest ih =>
      have hrest : ∀ memory, Memory.Portable env here there memory →
          renderPieces env answer there memory rest = renderPieces env answer here memory rest :=
        fun _ hmemory => ih hmemory fun span hspan => h span (List.mem_cons_of_mem _ hspan)
      cases piece with
      | literal chars start =>
          rw [renderPieces, renderPieces, hrest memory hmemory]
      | directive span =>
          obtain ⟨hsame, hvalue⟩ := renderSpan_same answer (h span List.mem_cons_self) hmemory
          rw [renderPieces, renderPieces, hsame]
          funext c
          rw [Computation.run_bind_apply, Computation.run_bind_apply]
          have hleft := hvalue c
          generalize (renderSpan env answer here memory span c).1 = result at hleft ⊢
          cases result with
          | error f => rfl
          | ok output => simp only [hrest output.2 (hleft output rfl)]

section

variable {text : String} (h : env.registry.Portable here there text)
include h

/-- A portable text is rendered alike in both collections. -/
theorem evalPattern_same :
    evalPattern env answer text there = evalPattern env answer text here := by
  have hpieces : renderPattern env answer text there = renderPattern env answer text here :=
    renderPieces_same trivial fun span hspan => h span (Piece.mem_find_of_mem_ofPattern hspan)
  simp only [evalPattern, hpieces]

/-- A portable text that is one reference to a table refers to the same table. -/
theorem onlyTable_same : onlyTable env text there = onlyTable env text here := by
  have hnames : ∀ found, onlyDirective text = .ok found → ∀ d, found = some d →
      d.Names (env.registry.SameTarget here there) (env.registry.SameName here there) := by
    rintro _ honly d rfl
    unfold onlyDirective at honly
    split at honly
    · rename_i span hspan
      split at honly
      · obtain ⟨d', hparse, hd⟩ := Except.map_eq_ok honly
        cases hd
        exact h span (hspan ▸ List.mem_singleton_self _) d hparse
      · cases honly
    · cases honly
  refine (Same.bind (Q := fun _ => True) (.lift hnames) fun found hfound => ?_).1
  split
  · rename_i raw ref
    have htarget : env.registry.SameTarget here there ref := hfound _ rfl
    exact .of_eq (by rw [htarget.find])
  · exact .of_eq rfl

/-- The content of a portable set is the same in both collections. -/
theorem renderSet_same (hanswer : answer (.pattern text there) = answer (.pattern text here)) :
    renderSet env answer text there = renderSet env answer text here := by
  simp only [renderSet, onlyTable_same h, hanswer]

end

end Eval

end RandomTables
