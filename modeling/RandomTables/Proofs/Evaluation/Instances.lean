-- SUMMARY: Evaluations that differ in trace and log only, and the texts that names of instances keep.
import RandomTables.Proofs.Evaluation.Displacement

/-!
# Named instances

A directive with a name rolls what it refers to only where the name is not known, and the text of
that roll is then known by the name alone: whatever another directive with the name refers to, in
whichever collection, it gives that text and rolls nothing. A name becomes known when the roll is
finished. Inside the roll it is not known yet, and what is remembered there is replaced.
-/
namespace RandomTables.Eval

/-! ## Same runs

Directives that are spelled differently open different steps of the trace and log different
messages. Two evaluations are the `SameRun` if that is all they differ in: from contexts that differ
in trace and log at most they end in the same result, in contexts that differ so again. Every
directive is the same run as its bare action. -/

variable {α β : Type}

/-- Two ends that differ at most in what the trace and the log were told. -/
def Coincide (p q : Except Failure α × Context) : Prop := q.1 = p.1 ∧ p.2.Retraced q.2

/-- Two evaluations that differ at most in what they tell the trace and the log. -/
def SameRun (x y : Eval α) : Prop := ∀ c d : Context, c.Retraced d → Coincide (x c) (y d)

theorem Coincide.symm {p q : Except Failure α × Context} (h : Coincide p q) : Coincide q p :=
  ⟨h.1.symm, h.2.symm⟩

theorem Coincide.trans {p q r : Except Failure α × Context} (h : Coincide p q)
    (h' : Coincide q r) : Coincide p r := ⟨h'.1.trans h.1, h.2.trans h'.2⟩

/-- What follows two ends that coincide coincides if it is the same run. -/
theorem Coincide.bind {x y : Eval α} {f g : α → Eval β} {c d : Context}
    (h : Coincide (x c) (y d)) (hf : ∀ v, SameRun (f v) (g v)) :
    Coincide ((x >>= f) c) ((y >>= g) d) := by
  obtain ⟨hresult, hcontext⟩ := h
  rw [Computation.bind_apply, Computation.bind_apply]
  rcases hfirst : x c with ⟨r, c'⟩
  rcases hsecond : y d with ⟨s, d'⟩
  rw [hfirst, hsecond] at hresult hcontext
  obtain rfl : s = r := hresult
  cases s with
  | error e => exact ⟨rfl, hcontext⟩
  | ok v => exact hf v c' d' hcontext

theorem not_excused {r s : Except Failure α} : ¬ Excused [] False r s := by
  rintro (⟨h, -⟩ | ⟨h, -⟩)
  · exact h
  · exact h rfl

theorem Alike.sameRun {x y : Eval α} (h : Alike [] False x y) : SameRun x y := by
  intro c d hcd
  obtain ⟨hresult, hplaces⟩ := (h [] c d hcd.displaced).resolve_left not_excused
  exact ⟨hresult, (Context.displaced_nil.1 hplaces).2.2⟩

namespace SameRun

variable {x y z : Eval α}

theorem symm (h : SameRun x y) : SameRun y x := fun c d hcd => (h d c hcd.symm).symm

theorem trans (h : SameRun x y) (h' : SameRun y z) : SameRun x z := fun c d hcd =>
  (h c c (.refl c)).trans (h' c d hcd)

theorem result (r : Except Failure α) : SameRun (fun c => (r, c)) fun c => (r, c) :=
  fun _ _ h => ⟨rfl, h⟩

theorem pure (v : α) : SameRun (Pure.pure v) (Pure.pure v) := .result (.ok v)

theorem bind {f g : α → Eval β} (hx : SameRun x y) (hf : ∀ v, SameRun (f v) (g v)) :
    SameRun (x >>= f) (y >>= g) := fun c d hcd => (hx c d hcd).bind hf

/-- What only tells the trace or the log something can be left out. -/
theorem told {q : Eval Unit} (hq : ∀ c, ∃ d, q c = (.ok (), d) ∧ c.Retraced d)
    {k k' : Eval α} (h : SameRun k k') : SameRun (q >>= fun _ => k) k' := by
  intro c d hcd
  obtain ⟨c', hrun, hcontext⟩ := hq c
  rw [Computation.bind_apply, hrun]
  exact h c' d (hcontext.symm.trans hcd)

theorem log (level : LogLevel) (message : String) (h : SameRun x y) :
    SameRun (Eval.log level message >>= fun _ => x) y := h.told fun c => ⟨_, rfl, c.trace, _, rfl⟩

theorem annotate (node : Option Nat) (details : List (String × Json)) (h : SameRun x y) :
    SameRun (Eval.annotate node details >>= fun _ => x) y :=
  h.told fun c => ⟨_, rfl, _, c.log, rfl⟩

theorem setValue (node : Option Nat) (value : Json) (h : SameRun x y) :
    SameRun (Eval.setValue node value >>= fun _ => x) y :=
  h.told fun c => ⟨_, rfl, _, c.log, rfl⟩

theorem setError (node : Option Nat) (error : String) (h : SameRun x y) :
    SameRun (Eval.setError node error >>= fun _ => x) y :=
  h.told fun c => ⟨_, rfl, _, c.log, rfl⟩

/-- A step of the trace does not matter to what is evaluated inside it. -/
theorem traced (step : TraceStep) {f : Option Nat → Eval α} (h : ∀ node, SameRun (f node) y) :
    SameRun (Eval.traced step f) y := by
  intro c d hcd
  have hbegun : c.Retraced { c with trace := (c.trace.enter step).2 } := ⟨_, c.log, rfl⟩
  obtain ⟨hresult, hcontext⟩ := h (c.trace.enter step).1 _ d (hbegun.symm.trans hcd)
  have hclosed : ∀ (e : Context) (trace : OpenTrace), ({ e with trace } : Context).Retraced e :=
    fun e _ => ⟨e.trace, e.log, rfl⟩
  rw [traced_apply]
  exact ⟨hresult, (hclosed _ _).trans hcontext⟩

theorem descending (limit : Nat) (label : String) (h : SameRun x y) :
    SameRun (Eval.descending limit label x) (Eval.descending limit label y) := by
  rintro c _ ⟨trace, log, rfl⟩
  rw [descending_apply, descending_apply]
  split
  · exact ⟨rfl, trace, log, rfl⟩
  · obtain ⟨hresult, trace', log', hcontext⟩ := h
      { c with depth := c.depth + 1, chain := label :: c.chain } _ ⟨trace, log, rfl⟩
    refine ⟨hresult, trace', log', ?_⟩
    change Context.ascend (y _).2 = _
    rw [hcontext]
    rfl

/-- A directive is the same run as what it does inside its step. -/
theorem performing (d : Directive) {f : Option Nat → Eval (String × Again)}
    {y : Eval (String × Again)} (h : ∀ node, SameRun (f node) y) :
    SameRun (Eval.performing d f) y := by
  refine .log _ _ (.traced _ fun node => ?_)
  have htold : SameRun
      (f node >>= fun r => Eval.setValue node (.str r.1) >>= fun _ => Pure.pure r)
      (y >>= Pure.pure) :=
    .bind (h node) fun _ => .setValue _ _ (.pure _)
  rw [bind_pure] at htold
  exact htold

end SameRun

/-! ## Directives -/

variable (env : Surroundings) (fuel : Nat) (collectionId : String)

/-- Evaluations put together in the same way are the same run. -/
theorem sameRun_of_uniform {x y : Eval α}
    (h : Uniform (fun _ _ => True) (answerWithin env fuel) (answerWithin env fuel) x y) :
    SameRun x y := (h.alike fun call => alike_answers env (.inl rfl) call).sameRun

theorem sameRun_call (call : Call α) :
    SameRun (answerWithin env fuel call) (answerWithin env fuel call) :=
  (alike_answers env (.inl rfl) call).sameRun

/-- A directive is the same run as its bare action. -/
theorem sameRun_act (memory : Again) (raw : String) (action : Action) :
    SameRun (renderDirective env (answerWithin env fuel) collectionId memory (.act raw action))
      (do
        let output ← renderAction env (answerWithin env fuel) collectionId none memory raw action
        return (output, remembered memory action)) := by
  rw [renderDirective_eq]
  refine .performing _ fun node => .bind (sameRun_of_uniform env fuel ?_) fun _ => .pure _
  exact .renderAction env collectionId trivial memory raw action

variable {env fuel collectionId}

/-- What would be repeated after an action. -/
theorem remembered_of_act {memory after : Again} {raw text : String} {action : Action} {c : Context}
    (h : (renderDirective env (answerWithin env fuel) collectionId memory (.act raw action) c).1 =
      .ok (text, after)) : after = remembered memory action := by
  have hbare := (sameRun_act env fuel collectionId memory raw action c c (.refl c)).1.trans h
  obtain ⟨_, _, -, hdone⟩ := Computation.bind_eq_ok (Prod.ext hbare rfl)
  cases hdone
  rfl

end RandomTables.Eval

namespace RandomTables

/-! ## Conditions on instances -/

/-- Every name that is known stands for the text of a roll. -/
def Context.Recalls (env : Surroundings) (c : Context) : Prop :=
  ∀ name text, c.instances.get? name = some text →
    ∃ (fuel : Nat) (target : Target) (d e : Context) (o : Outcome),
      Eval.answerWithin env fuel (.roll target []) d = (.ok o, e) ∧ o.text = text

/-- Neither opening nor closing anything touches named instances. -/
theorem Context.Opens.instances {c d : Context} {close : Context → Context}
    (h : c.Opens d close) :
    d.instances = c.instances ∧ ∀ e, (close e).instances = e.instances := by
  cases h <;> exact ⟨rfl, fun _ => rfl⟩

/-- A condition on named instances that survives when the text of an answered roll is remembered
under a name that was not known when the roll began. -/
def Memorable (a : Answer) (I : Assoc String → Prop) : Prop :=
  ∀ (name : String) (known later : Assoc String) (target : Target) (c d : Context) (o : Outcome),
    I known → known.get? name = none → I later → a (.roll target []) c = (.ok o, d) →
    I (later.put name o.text)

/-- Whatever can be generated by the evaluator's own steps and by calls, with its conditionals. -/
def Generation {α : Type} (x : Answer → Eval α) : Prop :=
  ∀ a b : Answer, Generating (fun _ => True) a b (x a) (x b)

namespace Tracking

/-- The tracking of a condition on named instances. -/
def remembering (I : Assoc String → Prop) : Tracking where
  stands c := I c.instances
  leads c d := I c.instances → I d.instances
  ends _ := True

variable {I : Assoc String → Prop} {a b : Answer} {α : Type}

theorem closed_remembering : (remembering I).Closed where
  refl _ := id
  trans _ _ _ h h' := h' ∘ h
  stands _ _ hc h := h hc
  ends _ _ _ _ := id
  opens c d close h hc := by
    change I d.instances
    rwa [h.instances.1]
  closes c d close e h hc hleads _ := by
    rw [h.instances.2]
    exact hleads (h.instances.1.symm ▸ hc)
  inside _ _ _ _ _ _ _ := id

/-- Where named instances are left alone they keep satisfying a condition. -/
theorem Tracks.untouched {x : Eval α} (h : ∀ c, (x c).2.instances = c.instances) :
    (remembering I).Tracks x x :=
  .alone fun c _ hc => (h c).symm ▸ hc

/-- A condition survives that a roll is remembered where its name was not known. -/
theorem Tracks.recalling (hI : Memorable a I)
    (hab : ∀ target, (remembering I).Tracks (a (.roll target [])) (b (.roll target [])))
    (name : String) (found : Except ResolutionFailure Target) :
    (remembering I).Tracks
      (Eval.recalling name (Eval.liftResolution found >>= fun target => a (.roll target [])))
      (Eval.recalling name (Eval.liftResolution found >>= fun target => b (.roll target []))) := by
  intro c hc
  rw [TracksFrom, Eval.recalling, Eval.recalling, Computation.get_bind_apply,
    Computation.get_bind_apply]
  cases hname : c.instances.get? name with
  | some text => exact ⟨id, fun _ => rfl⟩
  | none =>
      cases found with
      | error e => exact ⟨id, fun _ => rfl⟩
      | ok target =>
          obtain ⟨hrolled, hsame⟩ := hab target c hc
          dsimp only [Eval.liftResolution]
          rw [pure_bind, pure_bind, Computation.bind_apply, Computation.bind_apply, hsame trivial]
          rcases hroll : a (.roll target []) c with ⟨e | o, d⟩
          · rw [hroll] at hrolled
            exact ⟨hrolled, fun _ => rfl⟩
          · rw [hroll] at hrolled
            exact ⟨fun _ => hI name _ _ target c d o hc hname (hrolled hc) hroll, fun _ => rfl⟩

/-- What is put together in the same way keeps a memorable condition if its calls do. -/
theorem tracks_of_uniform (hI : Memorable a I)
    (hab : ∀ {α : Type} (call : Call α), (remembering I).Tracks (a call) (b call)) {x y : Eval α}
    (h : Uniform Eq a b x y) : (remembering I).Tracks x y := by
  have hclosed : (remembering I).Closed := closed_remembering
  induction h with
  | result r => exact fun _ _ => .stay hclosed r
  | bind _ _ hx hf => exact fun c hc => .bind hclosed hc (hx c hc) hf
  | tryCatch _ _ _ hx hf => exact .tryCatch hclosed hx hf
  | look _ _ _ h => exact fun c hc => h c c hc
  | draw d => exact .untouched fun _ => rfl
  | resolving x => exact .untouched fun _ => rfl
  | change _ hinstances => exact .untouched hinstances
  | mark h f =>
      subst h
      exact .untouched fun _ => rfl
  | recalling name found => exact .recalling hI (fun _ => hab _) name found
  | descending limit label _ h => exact .descending hclosed limit label h
  | withFrame frame _ h => exact fun c hc => .bracket hclosed hc h fun _ => .frame c frame
  | guarding guard _ h => exact fun c hc => .bracket hclosed hc h fun _ => .guard c guard
  | inScope owner declarations collectionId _ h =>
      exact .inScope hclosed owner declarations collectionId h
  | traced step _ h =>
      exact .inside hclosed (fun node => h node node rfl) fun trace => trace.enter step
  | readShared name => exact .readShared hclosed (fun _ _ _ _ => id) (fun _ _ _ => hab _) name
  | callPattern text collectionId => exact hab _
  | callRoll target excluded => exact hab _

/-- Assigning a variable touches no named instance. -/
theorem tracks_of_generating (hI : Memorable a I)
    (hab : ∀ {α : Type} (call : Call α), (remembering I).Tracks (a call) (b call))
    {assigns : String → Prop} {x y : Eval α} (h : Generating assigns a b x y) :
    (remembering I).Tracks x y := by
  have hclosed : (remembering I).Closed := closed_remembering
  induction h with
  | uniform h => exact tracks_of_uniform hI hab h
  | ran _ _ hx hf => exact fun c hc => .ran hclosed hc (hx c hc) hf
  | @assigning target _ value =>
      refine .untouched fun c => ?_
      rw [Eval.assigning, Computation.get_bind_apply]
      cases c.shared.assign target value <;> rfl
  | tracedApart step _ h => exact .inside hclosed h fun trace => trace.enterApart step

section

variable {env : Surroundings} (hI : ∀ fuel, Memorable (Eval.answerWithin env fuel) I)
  (astray : Answer) (fuel : Nat)
include hI

/-- Whatever is generated keeps a memorable condition, and so do the calls that it makes. -/
theorem tracks_generation {x : Answer → Eval α} (hx : Generation x) :
    (remembering I).Tracks (x (Eval.answerWithin env fuel))
      (x (Eval.answerWhere env (fun now later => I now.instances ∧ I later.instances) astray
        fuel)) := by
  refine tracks_of_generating (hI fuel) (fun call => ?_) (hx _ _)
  refine closed_remembering.answers (fun c d hc h _ => ⟨hc, h hc⟩) (fun fuel b hab _ call => ?_)
    astray fuel call
  exact tracks_of_uniform (hI fuel) hab (.answerOnce env call)

end

end Tracking

namespace Eval

variable {env : Surroundings}

/-- Remembering other names does not change what a known one stands for. -/
theorem memorable_known (a : Answer) (name text : String) :
    Memorable a fun instances => instances.get? name = some text := by
  intro other known later target c d o hknown hother hlater _
  have hdifferent : name ≠ other := by
    rintro rfl
    rw [hknown] at hother
    cases hother
  rw [Assoc.get?_put, if_neg hdifferent]
  exact hlater

theorem memorable_recalls (fuel : Nat) :
    Memorable (answerWithin env fuel) fun instances =>
      Context.Recalls env { instances } := by
  intro other known later target c d o _ _ hlater hroll name text hname
  change (later.put other o.text).get? name = some text at hname
  rw [Assoc.get?_put] at hname
  split at hname
  · exact ⟨fuel, target, c, d, o, hroll, Option.some.inj hname⟩
  · exact hlater name text hname

/-- Where a directive finds its name known it gives what is known. -/
theorem sameRun_recalling (env : Surroundings) (fuel : Nat) (collectionId : String)
    (memory : Again) (raw ref name : String) :
    SameRun
      (renderDirective env (answerWithin env fuel) collectionId memory
        (.act raw (.table ref (some name))))
      (do
        let (text, _) ← recalling name (rollReference env (answerWithin env fuel) collectionId ref)
        return (text, memory)) := by
  refine (sameRun_act env fuel collectionId memory raw _).trans ?_
  rw [renderAction, evalInstance_eq]
  simp only [bind_assoc, pure_bind]
  refine .bind (sameRun_of_uniform env fuel (.recalling name _)) fun _ => ?_
  exact .annotate _ _ (.pure _)

theorem recalling_of_known {name text : String} {body : Eval Outcome} {c : Context}
    (h : c.instances.get? name = some text) : recalling name body c = (.ok (text, true), c) := by
  rw [recalling, Computation.get_bind_apply, h]
  rfl

theorem recalling_of_unknown {name : String} {body : Eval Outcome} {c : Context}
    (h : c.instances.get? name = none) :
    recalling name body c =
      match body c with
      | (.error f, d) => (.error f, d)
      | (.ok o, d) =>
        (.ok (o.text, false), { d with instances := d.instances.put name o.text }) := by
  rw [recalling, Computation.get_bind_apply, h]
  dsimp only
  rw [Computation.bind_apply]
  rcases body c with ⟨f | o, d⟩ <;> rfl

/-- What was recalled is known. -/
theorem known_of_recalling {name text : String} {known : Bool} {body : Eval Outcome}
    {c d : Context} (h : recalling name body c = (.ok (text, known), d)) :
    d.instances.get? name = some text := by
  cases hname : c.instances.get? name with
  | some remembered =>
      rw [recalling_of_known hname] at h
      cases h
      exact hname
  | none =>
      rw [recalling_of_unknown hname] at h
      rcases hbody : body c with ⟨f | o, d⟩
      · rw [hbody] at h
        cases h
      · rw [hbody] at h
        cases h
        exact Assoc.get?_put_self _ _ _

/-- A directive with a name gives the text that is known by the name, whatever it refers to. Where
none is known it rolls, and the text of the roll is known from then on, in all that is generated
later and in the calls made there. -/
theorem instances_known_by_name (env : Surroundings) (astray : Answer) (fuel : Nat) :
    (∀ {α : Type} (op : Operation α), Generation fun answer => op.run env answer) ∧
    (∀ (request : Request) (d : Document),
      Generation fun answer => surely (request.completeIn env answer d)) ∧
    (∀ {α : Type} (x : Answer → Eval α) (c : Context), Generation x →
      let ended := (x (answerWithin env fuel) c).2
      (c.Recalls env → ended.Recalls env) ∧
      ∀ name text, c.instances.get? name = some text →
        ended.instances.get? name = some text ∧
        x (answerWhere env (fun now later => now.instances.get? name = some text ∧
          later.instances.get? name = some text) astray fuel) c = x (answerWithin env fuel) c) ∧
    (∀ (c d : Context) (close : Context → Context), c.Opens d close →
      d.instances = c.instances ∧ ∀ e, (close e).instances = e.instances) ∧
    ∀ (collectionId raw ref name : String) (memory : Again) (c : Context),
      let run := renderDirective env (answerWithin env fuel) collectionId memory
        (.act raw (.table ref (some name))) c
      (∀ text, c.instances.get? name = some text → Coincide run (.ok (text, memory), c)) ∧
      (c.instances.get? name = none →
        Coincide run (match env.registry.resolve ref collectionId with
          | .error e => (.error (.error (.resolution e)), c)
          | .ok target =>
            match answerWithin env fuel (.roll target []) c with
            | (.error f, d) => (.error f, d)
            | (.ok o, d) =>
              (.ok (o.text, memory), { d with instances := d.instances.put name o.text }))) ∧
      ∀ text after, run.1 = .ok (text, after) →
        run.2.instances.get? name = some text ∧
        ∀ {α : Type} (x : Answer → Eval α) (collectionId' raw' ref' : String) (memory' : Again),
          Generation x →
          let later := (x (answerWithin env fuel) run.2).2
          Coincide
            (renderDirective env (answerWithin env fuel) collectionId' memory'
              (.act raw' (.table ref' (some name))) later)
            (.ok (text, memory'), later) := by
  have hmemorable : ∀ name text fuel, Memorable (answerWithin env fuel) fun instances =>
      instances.get? name = some text := fun name text _ => memorable_known _ name text
  refine ⟨fun op _ _ => .uniform (.operation env op),
    fun request d _ _ => .completeIn env request fun _ _ _ => trivial,
    fun x c hx => ⟨fun hc => ?_, fun name text hc => ?_⟩, fun c d close h => h.instances,
    fun collectionId raw ref name memory c => ?_⟩
  · exact (Tracking.tracks_generation memorable_recalls astray fuel hx c hc).1 hc
  · obtain ⟨hends, hsame⟩ :=
      Tracking.tracks_generation (hmemorable name text) astray fuel hx c hc
    exact ⟨hends hc, hsame trivial⟩
  intro run
  have hknown : ∀ (collectionId raw ref : String) (memory : Again) (c : Context) (text : String),
      c.instances.get? name = some text → Coincide
        (renderDirective env (answerWithin env fuel) collectionId memory
          (.act raw (.table ref (some name))) c) (.ok (text, memory), c) := by
    intro collectionId raw ref memory c text hc
    have hrun := sameRun_recalling env fuel collectionId memory raw ref name c c (.refl c)
    rw [Computation.bind_apply, recalling_of_known hc] at hrun
    exact hrun
  have hunknown : c.instances.get? name = none → Coincide run (
      match env.registry.resolve ref collectionId with
      | .error e => (.error (.error (.resolution e)), c)
      | .ok target =>
        match answerWithin env fuel (.roll target []) c with
        | (.error f, d) => (.error f, d)
        | (.ok o, d) =>
          (.ok (o.text, memory), { d with instances := d.instances.put name o.text })) := by
    intro hc
    have hrun := sameRun_recalling env fuel collectionId memory raw ref name c c (.refl c)
    rw [Computation.bind_apply, recalling_of_unknown hc, rollReference, Computation.bind_apply]
      at hrun
    cases hfound : env.registry.resolve ref collectionId with
    | error e =>
        rw [hfound] at hrun
        exact hrun
    | ok target =>
        rw [hfound] at hrun
        have hcalled : (liftResolution (.ok target) : Eval Target) c = (.ok target, c) := rfl
        rw [hcalled] at hrun
        dsimp only at hrun ⊢
        generalize answerWithin env fuel (.roll target []) c = rolled at hrun ⊢
        rcases rolled with ⟨f | o, d⟩ <;> exact hrun
  refine ⟨hknown collectionId raw ref memory c, hunknown, fun text after hrun => ?_⟩
  have hremembered : run.2.instances.get? name = some text := by
    have hbare := sameRun_recalling env fuel collectionId memory raw ref name c c (.refl c)
    obtain ⟨⟨known, flag⟩, d, hrecalled, hdone⟩ :=
      Computation.bind_eq_ok (Prod.ext (hbare.1.trans hrun) rfl)
    cases hdone
    rw [← hbare.2.displaced.instances]
    exact known_of_recalling hrecalled
  refine ⟨hremembered, fun x collectionId' raw' ref' memory' hx => ?_⟩
  exact hknown collectionId' raw' ref' memory' _ text
    ((Tracking.tracks_generation (hmemorable name text) astray fuel hx _ hremembered).1 hremembered)

/-- After a roll under a name and another evaluation, the name stands for that roll in a directive
that refers to another table. -/
theorem first_roll_known_by_name :
    let table (id text : String) : Table := .simple { id, entries := [{ value := some text }] }
    let document : Document := {
      metadata := { name := "n", namespaceText := "c" }, tables := [table "a" "A", table "b" "B"] }
    let env : Surroundings := {
      registry := ⟨[{ id := "c", document }]⟩, base := {}, config := {}, collectionId := "c"
      statics := [] }
    let run (ref : String) (c : Context) : Except Failure (String × Again) × Context :=
      renderDirective env (answerWithin env 9) "c" .nothing (.act "" (.table ref (some "x"))) c
    let op : Operation String := .pattern "\x7b\x7bb\x7d\x7d" "c"
    let later := (op.run env (answerWithin env 9) (run "a" {}).2).2
    (run "a" {}).1.toOption.map (·.1) = some "A" ∧
      Coincide (run "b" later) (.ok ("A", .nothing), later) := by
  intro table document env run op later
  obtain ⟨hoperation, -, -, -, hdirective⟩ :=
    instances_known_by_name env (answerWithin env 9) 9
  have hfirst : (run "a" {}).1.toOption.map (·.1) = some "A" := by decide +kernel
  obtain ⟨after, hrolled⟩ : ∃ after, (run "a" {}).1 = .ok ("A", after) := by
    rcases hresult : (run "a" {}).1 with f | ⟨text, after⟩
    · rw [hresult] at hfirst
      cases hfirst
    · rw [hresult] at hfirst
      exact ⟨after, congrArg (fun text => Except.ok (text, after)) (Option.some.inj hfirst)⟩
  obtain ⟨-, hlater⟩ := (hdirective "c" "" "a" "x" .nothing {}).2.2 "A" after hrolled
  exact ⟨hfirst, hlater (fun answer => op.run env answer) "c" "" "b" .nothing (hoperation op)⟩

/-- Two tables under one name give the same text, and a table whose entry rolls it again under its
own name is rolled twice, of which the name keeps the outer roll. -/
theorem name_shared_by_rolls :
    let table (id text : String) : Table := .simple { id, entries := [{ value := some text }] }
    let t : SimpleTable := { id := "t", entries := [
      { value := some "<\x7b\x7bt#n\x7d\x7d>", range := some ⟨1, 1⟩ },
      { value := some "B", range := some ⟨2, 2⟩ }] }
    let document : Document := {
      metadata := { name := "n", namespaceText := "c" }
      tables := [table "a" "A", table "b" "B", .simple t] }
    let env : Surroundings := {
      registry := ⟨[{ id := "c", document }]⟩, base := {}, config := {}, collectionId := "c"
      statics := [] }
    let shown (text : String) : Option String :=
      (evalPattern env (answerWithin env 9) text "c"
        { source := .ofDraws [0, 999999] }).1.toOption
    shown "\x7b\x7ba#x\x7d\x7d\x7b\x7bb#x\x7d\x7d" = some "AA" ∧
    shown "\x7b\x7bt#n\x7d\x7d \x7b\x7bt#n\x7d\x7d" = some "<B> <B>" := by
  intro table t document env shown
  exact ⟨by decide +kernel, by decide +kernel⟩

end Eval

end RandomTables
