-- SUMMARY: Patterns and shared variables agree in simulations, and so do the answers to all calls.
import RandomTables.Evaluation.Pattern
import RandomTables.Proofs.Evaluation.Directing
import RandomTables.Proofs.Pattern.Tiling

/-!
# Rendering in simulations

A rendering keeps its failure beside the segments it finished, so its runs are compared as they are,
without a monad of failures. With patterns, rolls and shared variables each in agreement, answers
that have one more call open agree where the answers before them did.
-/
namespace RandomTables

namespace Simulation

variable {S : Simulation} {w : Nesting} {a b : Answer} {α β : Type} {P : α → Prop}

/-- Two runs that agree, failures and all, unless the first one ended in a tolerated failure.
Afterwards things are open as stated. -/
def Runs (S : Simulation) (w : Nesting) (R : Nesting → Prop) (failure? : β → Option Failure)
    (x y : StateM Context β) : Prop :=
  ∀ c d, S.Match w c d →
    (∃ f, failure? (x c).1 = some f ∧ S.tolerates f (failure? (y d).1)) ∨
      (∀ f, failure? (x c).1 = some f → S.admits f) ∧ (y d).1 = (x c).1 ∧
        ∃ v, R v ∧ S.Match v (x c).2 (y d).2

namespace Runs

variable {R : Nesting → Prop} {failure? : β → Option Failure}

theorem pure {r : β} (hr : ∀ f, failure? r = some f → S.admits f) (hw : R w) :
    S.Runs w R failure? (pure r) (pure r) :=
  fun _ _ hm => .inr ⟨hr, rfl, w, hw, hm⟩

theorem map {γ : Type} {failure' : γ → Option Failure} {x y : StateM Context γ} {h : γ → β}
    (hx : S.Runs w R failure' x y) (hfailure : ∀ r, failure? (h r) = failure' r) :
    S.Runs w R failure? (do return h (← x)) (do return h (← y)) := by
  intro c d hm
  rcases hx c d hm with ⟨f, hf, htol⟩ | ⟨hadmits, hresult, hopen⟩
  · refine .inl ⟨f, (hfailure _).trans hf, ?_⟩
    rwa [← hfailure] at htol
  · exact .inr ⟨fun f hf => hadmits f ((hfailure _).symm.trans hf), congrArg h hresult, hopen⟩

/-- Going on with the result of an evaluation, be it a failure. -/
theorem run_bind {K : SharedStore → Prop} {x y : Eval α}
    {f g : Except Failure α → StateM Context β} (hx : S.Leads w K P x y)
    (hok : ∀ s r, K s → P r → S.Runs { w with shared := s } R failure? (f (.ok r)) (g (.ok r)))
    (herror : ∀ s e, K s → S.admits e →
      S.Runs { w with shared := s } R failure? (f (.error e)) (g (.error e)))
    (hleft : ∀ e c, failure? (f (.error e) c).1 = some e)
    (hright : ∀ e c, failure? (g (.error e) c).1 = some e) :
    S.Runs w R failure? (x.run >>= f) (y.run >>= g) := by
  intro c d hm
  rw [Computation.run_bind_apply, Computation.run_bind_apply]
  rcases hx c d hm with ⟨e, he, htol⟩ | ⟨hsettled, hresult, s, hs, hmatch⟩
  · rw [he]
    refine .inl ⟨e, hleft e _, ?_⟩
    generalize (y d).1 = r at htol ⊢
    cases r with
    | ok r => exact S.lasting _ _ htol
    | error e' =>
        rw [hright]
        exact htol
  · rw [hresult]
    generalize (x c).1 = r at hsettled ⊢
    cases r with
    | ok r => exact hok s r hs (hsettled.value r rfl) _ _ hmatch
    | error e => exact herror s e hs (hsettled.failure e rfl) _ _ hmatch

end Runs

namespace Yields

/-! ## Patterns -/

theorem parseSpan (hS : S.Lawful) {text : String} (ht : S.material.pattern text) {span : Span}
    (hspan : span ∈ Span.find text.toList) :
    S.Yields w S.material.Directive (Eval.parseSpan span) (Eval.parseSpan span) := by
  have hparse := hS.directive text ht span hspan
  unfold Eval.parseSpan
  split
  · rename_i d hd
    exact .pure (hparse.value d hd)
  · exact .next (.note nofun) fun _ => .throw (hS.ordinary _ (.parse _))
  · rename_i f _ hf
    exact .throw (hparse.failure f hf)

variable (hS : S.Lawful) (hab : S.Answers a b)
include hS hab

theorem renderSpan (hw : S.Asking w) {text : String} (ht : S.material.pattern text) {span : Span}
    (hspan : span ∈ Span.find text.toList) (collectionId : String) {memory : Again}
    (hmemory : Remembers S memory) :
    S.Yields w (fun r => Remembers S r.2) (Eval.renderSpan S.env a collectionId memory span)
      (Eval.renderSpan S.second b collectionId memory span) :=
  .bind (.parseSpan hS ht hspan) fun _ hd =>
    .bind (.renderDirective hS hab collectionId hw hmemory hd) fun _ hr => .pure hr

end Yields

namespace Runs

variable (hS : S.Lawful) (hab : S.Answers a b)
include hS hab

theorem renderPieces (hw : S.Asking w) {text : String} (ht : S.material.pattern text)
    (collectionId : String) {pieces : List Piece}
    (hpieces : ∀ span, .directive span ∈ pieces → span ∈ Span.find text.toList) {memory : Again}
    (hmemory : Remembers S memory) :
    S.Runs w (· = w) Rendering.failure (Eval.renderPieces S.env a collectionId memory pieces)
      (Eval.renderPieces S.second b collectionId memory pieces) := by
  induction pieces generalizing memory with
  | nil => exact .pure (fun _ h => nomatch h) rfl
  | cons piece rest ih =>
      have hrest : ∀ span, .directive span ∈ rest → span ∈ Span.find text.toList :=
        fun span h => hpieces span (List.mem_cons_of_mem _ h)
      cases piece with
      | literal chars start => exact .map (ih hrest hmemory) fun _ => rfl
      | directive span =>
          have hspan := hpieces span List.mem_cons_self
          have hsegment := Yields.renderSpan hS hab hw ht hspan collectionId hmemory
          refine .run_bind (K := (· = w.shared)) (hsegment.leads rfl) ?_ ?_ (fun e c => rfl)
            fun e c => rfl
          · rintro _ r rfl hr
            exact .map (ih hrest hr) fun _ => rfl
          · rintro _ e rfl he
            exact .pure (fun f hf => by cases hf; exact he) rfl

theorem renderPattern (hw : S.Asking w) {text : String} (ht : S.material.pattern text)
    (collectionId : String) :
    S.Runs w (· = w) Rendering.failure (Eval.renderPattern S.env a text collectionId)
      (Eval.renderPattern S.second b text collectionId) :=
  .renderPieces hS hab hw ht collectionId (fun _ => Piece.mem_find_of_mem_ofPattern) trivial

end Runs

theorem evalPattern_apply (env : Surroundings) (answer : Answer) (text collectionId : String)
    (c : Context) :
    Eval.evalPattern env answer text collectionId c =
      ((Eval.renderPattern env answer text collectionId c).1.text,
        (Eval.renderPattern env answer text collectionId c).2) := by
  change Eval.lift (Eval.renderPattern env answer text collectionId c).1.text
    (Eval.renderPattern env answer text collectionId c).2 = _
  cases (Eval.renderPattern env answer text collectionId c).1.text with
  | ok text => rfl
  | error f => rfl

theorem failed_text (r : Rendering) : failed? r.text = r.failure := by
  unfold Rendering.text
  cases r.failure with
  | none => rfl
  | some f => rfl

namespace Yields

variable (hS : S.Lawful) (hab : S.Answers a b)
include hS hab

theorem evalPattern (hw : S.Asking w) {text : String} (ht : S.material.pattern text)
    (collectionId : String) :
    S.Related w (Eval.evalPattern S.env a text collectionId)
      (Eval.evalPattern S.second b text collectionId) := by
  intro c d hm
  rw [evalPattern_apply, evalPattern_apply]
  rcases Runs.renderPattern hS hab hw ht collectionId c d hm with
    ⟨f, hf, htol⟩ | ⟨hadmits, hresult, v, rfl, hmatch⟩
  · refine .inl ⟨f, ?_, ?_⟩
    · simp only [Rendering.text, hf]
    · rwa [failed_text]
  · refine .inr ⟨.of_admitted fun f hf => hadmits f ?_, congrArg Rendering.text hresult, hmatch⟩
    revert hf
    unfold Rendering.text
    split
    · exact fun h => nomatch h
    · rename_i f' hf'
      exact fun h => hf'.trans (congrArg some (Except.error.inj h))

/-! ## Shared variables -/

theorem referredItem (hw : S.Asking w) (collectionId : String) (d : Directive) :
    S.Related w (Eval.referredItem S.env a collectionId d)
      (Eval.referredItem S.second b collectionId d) := by
  unfold Eval.referredItem
  split
  · apply Yields.next (.readItems hS.toGrounded (hab.shared _ hw) _)
    intro items
    exact .next (.nthItem _ _ _) fun _ => .pure trivial
  · exact .next (.readItems hS.toGrounded (hab.shared _ hw) _) fun items => .nthItem _ _ _
  · exact .pure trivial

variable (hw : S.Begun w)
include hw

theorem evalKeeping {pattern : String} (hp : S.material.pattern pattern) (collectionId : String) :
    S.Related w (Eval.evalKeeping S.env a pattern collectionId)
      (Eval.evalKeeping S.second b pattern collectionId) := by
  have hasking := hw.asking hS
  have hpattern := hab.pattern pattern collectionId hw hp
  apply Joins.bind (.onlyTable hS hp collectionId)
  intro found found' hfound
  cases hfound with
  | some htarget => exact .next (hab.roll _ _ [] hasking htarget) fun _ => .pure trivial
  | none =>
      apply Yields.bind (.lift (.onlyDirective hS hp))
      intro only _
      split
      · apply Yields.next (.referredItem hS hab hasking _ _)
        intro referred
        cases referred with
        | some item => exact .pure trivial
        | none => exact .next hpattern fun _ => .pure trivial
      · apply Yields.next (.pure trivial)
        intro referred
        cases referred with
        | some item => exact .pure trivial
        | none => exact .next hpattern fun _ => .pure trivial

theorem evalDeclaration {d : Declaration} (hd : S.material.pattern d.pattern)
    (collectionId : String) :
    S.Related w (Eval.evalDeclaration S.env a d collectionId)
      (Eval.evalDeclaration S.second b d collectionId) := by
  unfold Eval.evalDeclaration
  split
  · exact .next (.evalKeeping hS hab hw hd collectionId) fun _ => .pure trivial
  · exact .next (hab.pattern _ _ hw hd) fun _ => .pure trivial

theorem evalShared (owner collectionId : String) {d : Declaration}
    (hd : S.material.pattern d.pattern) :
    S.Related w (Eval.evalShared S.env a owner collectionId d)
      (Eval.evalShared S.second b owner collectionId d) := by
  refine .traced nofun fun n m steps hnode => ?_
  apply Yields.next (.evalDeclaration hS hab (w := { w with steps }) hw hd _)
  intro value
  exact .next (.setValue hnode _) fun _ => .pure trivial

end Yields

end Simulation

/-! ## Calls -/

/-- The answers to calls whose own calls are answered as given. -/
def Eval.answerOnce (env : Surroundings) (answer : Answer) : Answer
  | _, .pattern text collectionId => evalPattern env answer text collectionId
  | _, .roll target excluded => roll env answer target excluded
  | _, .shared owner collectionId d => evalShared env answer owner collectionId d

namespace Simulation

variable {S : Simulation} {a b : Answer}

/-- The same simulation with other conditions on what is open. -/
def wherever (S : Simulation) (descends asking begun entered : Reach → Prop) : Simulation :=
  { S with descends, asking, begun, entered }

section

variable {descends asking begun entered : Reach → Prop}

theorem same_wherever : S.Same (S.wherever descends asking begun entered) :=
  ⟨rfl, rfl, rfl, rfl, rfl, rfl⟩

theorem Yields.wherever {α : Type} {w : Nesting} {P : α → Prop} {x y : Eval α}
    (h : S.Yields w P x y) :
    (S.wherever descends asking begun entered).Yields w P x y :=
  h.of_same same_wherever (fun _ => id) fun _ _ => id

/-- What a pending variable needs is made of the material, if everything open is. -/
theorem open_of_pending {M : Material} {w : Nesting} (hw : M.Open w) {name : String} {p : Pending}
    (hfind : w.shared.find name = .pending p) :
    M.pattern p.declaration.pattern ∧ M.Open { w with shared := p.store } := by
  obtain ⟨outer, hscopes, hfound⟩ := SharedStore.find_pending hfind
  have hmade := hw.2
  rw [hscopes, List.forall_mem_append, List.forall_mem_cons] at hmade
  obtain ⟨-, hscope, houter⟩ := hmade
  refine ⟨hscope _ (List.mem_of_find?_eq_some hfound.declared), hw.1, ?_⟩
  rw [hfound.store]
  exact List.forall_mem_cons.2 ⟨hscope, houter⟩

/-- Answers agree on a pending variable with one more call open. -/
theorem Shares.once (hS : S.Lawful) (hab : S.Answers a b) {w : Nesting} {name : String}
    (hopen : S.material.Open w)
    (hbegun : ∀ p, w.shared.find name = .pending p →
      S.begun { w.toReach with shared := p.store }) :
    S.Shares (Eval.answerOnce S.env a) (Eval.answerOnce S.second b) w name := by
  intro p hfind
  obtain ⟨hmade, hinside⟩ := open_of_pending hopen hfind
  exact Yields.evalShared hS hab ⟨hbegun p hfind, hinside⟩ _ _ hmade

/-- Answers agree with one more call open, where the calls inside are made as they may be. -/
theorem Answers.once (hS : S.Lawful) (hab : S.Answers a b)
    (hroll : ∀ r, asking r → S.descends r) (hpattern : ∀ r, begun r → S.asking r)
    (hshared : ∀ r name p, asking r → r.shared.find name = .pending p →
      S.begun { r with shared := p.store })
    (hharbours : ∀ w name, S.harbours name → asking w.toReach → S.material.Open w →
      S.strict.Shares (Eval.answerOnce S.env a) (Eval.answerOnce S.second b) w name) :
    (S.wherever descends asking begun entered).Answers (Eval.answerOnce S.env a)
      (Eval.answerOnce S.second b) where
  roll _ _ excluded hw ht :=
    .wherever (Yields.roll hS hab ⟨hroll _ hw.1, hw.2⟩ (same_wherever.symm.targets ht) excluded)
  pattern _ collectionId hw ht :=
    .wherever (Yields.evalPattern hS hab ⟨hpattern _ hw.1, hw.2⟩ ht collectionId)
  shared _ hw p hfind :=
    .wherever (Shares.once hS hab hw.2 (fun p => hshared _ _ p hw.1) p hfind)
  harboured name hname hw p hfind := .wherever (S := S.strict) (hharbours _ name hname hw.1 hw.2 p hfind)

end

end Simulation

end RandomTables
