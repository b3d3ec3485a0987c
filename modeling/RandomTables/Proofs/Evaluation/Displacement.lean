-- SUMMARY: Evaluations on deeper levels, with another trace, or with another bound on open calls.
import RandomTables.Proofs.Evaluation.Tracking

/-!
# Displaced evaluations

An evaluation does not notice what the trace and the log hold, how many levels lie around it, or how
many calls could still be opened, unless a limit stops it. Run on either of two contexts that differ
in these, it ends in the same result and leaves contexts that differ in nothing else again. The
induction is over the ways of putting evaluations together; `inner` are the levels that were opened
since, which both runs share.
-/
namespace RandomTables

/-- A description recorded some levels deeper. -/
def Description.deeper (levels : Nat) (d : Description) : Description :=
  { d with depth := d.depth + levels }

theorem Description.deeper_zero : Description.deeper 0 = id := rfl

namespace Context

/-- The same context but for its trace and its log. -/
def Retraced (c d : Context) : Prop := ∃ trace log, d = { c with trace, log }

/-- The same context with some levels more around the inner ones, but for its trace and its log. The
descriptions that both runs recorded since then tell that difference. -/
def Displaced (extra inner : List String) (c d : Context) : Prop :=
  ∃ outer told new trace log, c.chain = inner ++ outer ∧ inner.length ≤ c.depth ∧
    c.descriptions = told ++ new ∧
    d = { c with
      depth := c.depth + extra.length, chain := inner ++ (extra ++ outer)
      descriptions := told ++ new.map (·.deeper extra.length), trace, log }

theorem Retraced.refl (c : Context) : c.Retraced c := ⟨c.trace, c.log, rfl⟩

theorem Retraced.symm {c d : Context} (h : c.Retraced d) : d.Retraced c := by
  obtain ⟨trace, log, rfl⟩ := h
  exact ⟨c.trace, c.log, rfl⟩

theorem Retraced.trans {c d e : Context} (h : c.Retraced d) (h' : d.Retraced e) :
    c.Retraced e := by
  obtain ⟨_, _, rfl⟩ := h
  obtain ⟨trace, log, rfl⟩ := h'
  exact ⟨trace, log, rfl⟩

/-- A capture over an earlier one is told the log. -/
theorem Retraced.capture {c d : Context} (h : c.Retraced d) (name : String) (items : Captured) :
    Retraced { c with captures := c.captures.put name items } (d.capture name items) := by
  obtain ⟨trace, log, rfl⟩ := h
  unfold Context.capture
  dsimp only
  split <;> exact ⟨_, _, rfl⟩

/-- Without levels in between nothing but the trace and the log differs. -/
theorem displaced_nil {inner : List String} {c d : Context} :
    Displaced [] inner c d ↔
      (∃ outer, c.chain = inner ++ outer) ∧ inner.length ≤ c.depth ∧ c.Retraced d := by
  constructor
  · rintro ⟨outer, told, new, trace, log, hchain, hdepth, htold, rfl⟩
    refine ⟨⟨outer, hchain⟩, hdepth, trace, log, ?_⟩
    rw [List.length_nil, Description.deeper_zero, List.map_id, ← htold, List.nil_append, ← hchain]
    rfl
  · rintro ⟨⟨outer, hchain⟩, hdepth, trace, log, rfl⟩
    refine ⟨outer, c.descriptions, [], trace, log, hchain, hdepth, (List.append_nil _).symm, ?_⟩
    rw [List.map_nil, List.append_nil, List.nil_append, ← hchain]
    rfl

theorem Retraced.displaced {c d : Context} (h : c.Retraced d) : Displaced [] [] c d :=
  displaced_nil.2 ⟨⟨c.chain, rfl⟩, Nat.zero_le _, h⟩

section

variable {extra inner : List String} {c d : Context}

theorem Displaced.sight (h : Displaced extra inner c d) : d.sight = c.sight := by
  obtain ⟨_, _, _, _, _, -, -, -, rfl⟩ := h
  rfl

theorem Displaced.instances (h : Displaced extra inner c d) : d.instances = c.instances := by
  obtain ⟨_, _, _, _, _, -, -, -, rfl⟩ := h
  rfl

theorem Displaced.shared (h : Displaced extra inner c d) : d.shared = c.shared := by
  obtain ⟨_, _, _, _, _, -, -, -, rfl⟩ := h
  rfl

theorem Displaced.depth_le (h : Displaced extra inner c d) : c.depth ≤ d.depth := by
  obtain ⟨_, _, _, _, _, -, -, -, rfl⟩ := h
  exact Nat.le_add_right _ _

theorem Displaced.share (h : Displaced extra inner c d) (shared : SharedStore) :
    Displaced extra inner { c with shared } { d with shared } := by
  obtain ⟨outer, told, new, trace, log, hchain, hdepth, htold, rfl⟩ := h
  exact ⟨outer, told, new, trace, log, hchain, hdepth, htold, rfl⟩

theorem Displaced.reframe (h : Displaced extra inner c d) (f : List Frame → List Frame) :
    Displaced extra inner { c with frames := f c.frames } { d with frames := f d.frames } := by
  obtain ⟨outer, told, new, trace, log, hchain, hdepth, htold, rfl⟩ := h
  exact ⟨outer, told, new, trace, log, hchain, hdepth, htold, rfl⟩

theorem Displaced.reguard (h : Displaced extra inner c d) (f : List String → List String) :
    Displaced extra inner { c with guards := f c.guards } { d with guards := f d.guards } := by
  obtain ⟨outer, told, new, trace, log, hchain, hdepth, htold, rfl⟩ := h
  exact ⟨outer, told, new, trace, log, hchain, hdepth, htold, rfl⟩

theorem Displaced.retrace (h : Displaced extra inner c d) (trace trace' : OpenTrace) :
    Displaced extra inner { c with trace } { d with trace := trace' } := by
  obtain ⟨outer, told, new, _, log, hchain, hdepth, htold, rfl⟩ := h
  exact ⟨outer, told, new, trace', log, hchain, hdepth, htold, rfl⟩

/-- One more level within those that both contexts have. -/
theorem Displaced.enter (h : Displaced extra inner c d) (label : String) :
    Displaced extra (label :: inner) { c with depth := c.depth + 1, chain := label :: c.chain }
      { d with depth := d.depth + 1, chain := label :: d.chain } := by
  obtain ⟨outer, told, new, trace, log, hchain, hdepth, htold, rfl⟩ := h
  refine ⟨outer, told, new, trace, log, ?_, Nat.succ_le_succ hdepth, htold, ?_⟩
  · rw [List.cons_append, ← hchain]
  · simp only [Nat.add_right_comm c.depth, List.cons_append]

theorem Displaced.ascend {label : String} (h : Displaced extra (label :: inner) c d) :
    Displaced extra inner c.ascend d.ascend := by
  obtain ⟨outer, told, new, trace, log, hchain, hdepth, htold, rfl⟩ := h
  refine ⟨outer, told, new, trace, log, ?_, Nat.le_sub_one_of_lt hdepth, htold, ?_⟩
  · rw [Context.ascend, hchain, List.cons_append, List.drop_one, List.tail_cons]
  · have hlevels : c.depth + extra.length - 1 = c.depth - 1 + extra.length :=
      Nat.sub_add_comm (Nat.one_le_of_lt hdepth)
    simp only [Context.ascend, hlevels, List.cons_append, List.drop_one, List.tail_cons]

/-- After the one level more is closed, the descriptions tell that it was open. -/
theorem Displaced.ascend_last {label : String} (h : Displaced [label] [] c d) :
    ∃ told new trace log, c.descriptions = told ++ new ∧
      d.ascend = { c with trace, log, descriptions := told ++ new.map (·.deeper 1) } := by
  obtain ⟨outer, told, new, trace, log, hchain, -, htold, rfl⟩ := h
  exact ⟨told, new, trace, log, htold, by rw [List.nil_append] at hchain; rw [hchain]; rfl⟩

/-- What evaluations change by themselves changes both contexts alike. -/
theorem Displaced.change (h : Displaced extra inner c d) {f : Context → Context}
    (hf : OwnChange f) : Displaced extra inner (f c) (f d) := by
  obtain ⟨outer, told, new, trace, log, hchain, hdepth, htold, rfl⟩ := h
  cases hf with
  | record level logger message =>
      exact ⟨outer, told, new, trace, _ :: log, hchain, hdepth, htold, rfl⟩
  | retrace f => exact ⟨outer, told, new, f trace, log, hchain, hdepth, htold, rfl⟩
  | publish name sets => exact ⟨outer, told, new, trace, log, hchain, hdepth, htold, rfl⟩
  | instantiate name text => exact ⟨outer, told, new, trace, log, hchain, hdepth, htold, rfl⟩
  | capture name items =>
      unfold Context.capture
      dsimp only
      split
      · exact ⟨outer, told, new, trace, _ :: log, hchain, hdepth, htold, rfl⟩
      · exact ⟨outer, told, new, trace, log, hchain, hdepth, htold, rfl⟩
  | describe tableName tableId rolledValue description =>
      refine ⟨outer, told, new ++ [⟨tableName, tableId, rolledValue, description, c.depth⟩], trace,
        log, hchain, hdepth, ?_, ?_⟩
      · rw [Context.describe, htold, List.append_assoc]
      · simp only [Context.describe, List.map_append, List.append_assoc]
        rfl

end

end Context

namespace Eval

/-! ## Ending alike -/

section

variable (extra : List String) (short : Prop) {α β : Type}

/-- Two results that need not agree: calls ran short, or the limit stops the second run, which has
more levels around it. -/
def Excused (r s : Except Failure α) : Prop :=
  short ∧ (r = .error .outOfFuel ∨ s = .error .outOfFuel) ∨
    extra ≠ [] ∧ ∃ f : Failure, f.OverLimit ∧ s = .error f

/-- Two runs that end in the same result, in contexts displaced as they were. -/
def Ends (inner : List String) (p q : Except Failure α × Context) : Prop :=
  Excused extra short p.1 q.1 ∨ q.1 = p.1 ∧ Context.Displaced extra inner p.2 q.2

/-- Two evaluations that end alike wherever they start displaced. -/
def Alike (x y : Eval α) : Prop :=
  ∀ inner c d, Context.Displaced extra inner c d → Ends extra short inner (x c) (y d)

end

variable {extra inner : List String} {short : Prop} {α β : Type}

theorem uncaught_of_overLimit {f : Failure} (h : f.OverLimit) : f.Uncaught := by
  obtain ⟨e, rfl, -⟩ := h
  exact .inr ⟨e, rfl⟩

/-- What is not caught stays an excuse. -/
theorem Excused.pass {r s : Except Failure α} {r' s' : Except Failure β}
    (h : Excused extra short r s)
    (hr : ∀ f : Failure, f.Uncaught → r = .error f → r' = .error f)
    (hs : ∀ f : Failure, f.Uncaught → s = .error f → s' = .error f) :
    Excused extra short r' s' := by
  rcases h with ⟨hshort, h | h⟩ | ⟨hextra, f, hf, h⟩
  · exact .inl ⟨hshort, .inl (hr _ (.inl rfl) h)⟩
  · exact .inl ⟨hshort, .inr (hs _ (.inl rfl) h)⟩
  · exact .inr ⟨hextra, f, hf, hs f (uncaught_of_overLimit hf) h⟩

theorem Ends.bind {x y : Eval α} {f g : α → Eval β} {c d : Context}
    (h : Ends extra short inner (x c) (y d)) (hf : ∀ v, Alike extra short (f v) (g v)) :
    Ends extra short inner ((x >>= f) c) ((y >>= g) d) := by
  rcases h with hexcused | ⟨hresult, hplaces⟩
  · exact .inl (hexcused.pass (fun _ _ h => Computation.bind_of_error h)
      fun _ _ h => Computation.bind_of_error h)
  · rw [Computation.bind_apply, Computation.bind_apply]
    rcases hx : x c with ⟨r, c'⟩
    rcases hy : y d with ⟨s, d'⟩
    rw [hx, hy] at hresult hplaces
    obtain rfl : s = r := hresult
    cases s with
    | error e => exact .inr ⟨rfl, hplaces⟩
    | ok v => exact hf v inner c' d' hplaces

/-- Runs between opening and closing end alike if they do so within. -/
theorem Ends.bracket {x y : Eval α} (h : Alike extra short x y) {within : List String}
    {c d c' d' : Context} {close close' : Except Failure α → Context → Context}
    (hopened : Context.Displaced extra within c d)
    (hclosed : ∀ r c d, Context.Displaced extra within c d →
      Context.Displaced extra inner (close r c) (close' r d)) :
    Ends extra short inner (bracket c close x c') (bracket d close' y d') := by
  rcases h within c d hopened with hexcused | ⟨hresult, hplaces⟩
  · exact .inl hexcused
  · refine .inr ⟨hresult, ?_⟩
    change Context.Displaced extra inner (close (x c).1 (x c).2) (close' (y d).1 (y d).2)
    rw [hresult]
    exact hclosed _ _ _ hplaces

namespace Alike

theorem result (r : Except Failure α) :
    Alike extra short (fun c => (r, c)) fun c => (r, c) := fun _ _ _ h => .inr ⟨rfl, h⟩

theorem bind {x y : Eval α} {f g : α → Eval β} (hx : Alike extra short x y)
    (hf : ∀ v, Alike extra short (f v) (g v)) : Alike extra short (x >>= f) (y >>= g) :=
  fun inner c d h => (hx inner c d h).bind hf

theorem tryCatch {x y : Eval α} {f g : Failure → Eval α} (hx : Alike extra short x y)
    (hf : ∀ e, Alike extra short (f e) (g e))
    (hpass : ∀ e : Failure, e.Uncaught → f e = throw e ∧ g e = throw e) :
    Alike extra short (tryCatch x f) (tryCatch y g) := by
  intro inner c d h
  have hpassed : ∀ (x : Eval α) (f : Failure → Eval α) (c : Context) (e : Failure),
      f e = throw e → (x c).1 = .error e → (MonadExcept.tryCatch x f c).1 = .error e := by
    intro x f c e hf hx
    rw [Computation.tryCatch_apply]
    rcases hrun : x c with ⟨r, c'⟩
    rw [hrun] at hx
    obtain rfl : r = .error e := hx
    simp only [hf]
    rfl
  rcases hx inner c d h with hexcused | ⟨hresult, hplaces⟩
  · exact .inl (hexcused.pass (fun e he => hpassed x f c e (hpass e he).1)
      fun e he => hpassed y g d e (hpass e he).2)
  · rw [Computation.tryCatch_apply, Computation.tryCatch_apply]
    rcases hx : x c with ⟨r, c'⟩
    rcases hy : y d with ⟨s, d'⟩
    rw [hx, hy] at hresult hplaces
    obtain rfl : s = r := hresult
    cases s with
    | error e => exact hf e inner c' d' hplaces
    | ok v => exact .inr ⟨rfl, hplaces⟩

theorem change {f : Context → Context} (h : OwnChange f) :
    Alike extra short (modify f) (modify f) := fun _ _ _ hplaces => .inr ⟨rfl, hplaces.change h⟩

/-- Remarks on steps of the trace do not matter. -/
theorem retrace (f g : OpenTrace → OpenTrace) :
    Alike extra short (modify fun c => { c with trace := f c.trace })
      (modify fun c => { c with trace := g c.trace }) :=
  fun _ _ _ h => .inr ⟨rfl, h.retrace _ _⟩

theorem draw (d : Draw α) : Alike extra short (Eval.draw d) (Eval.draw d) := by
  rintro inner c _ ⟨outer, told, new, trace, log, hchain, hdepth, htold, rfl⟩
  exact .inr ⟨rfl, outer, told, new, trace, log, hchain, hdepth, htold, rfl⟩

theorem resolving (x : Resolve α) :
    Alike extra short (Eval.resolving x) (Eval.resolving x) := by
  rintro inner c _ ⟨outer, told, new, trace, log, hchain, hdepth, htold, rfl⟩
  exact .inr ⟨rfl, outer, told, new, trace, _, hchain, hdepth, htold, rfl⟩

/-- Both runs see the same. -/
theorem look {f g : Context → Eval α} (hf : ∀ c, f c.sight = f c) (hg : ∀ c, g c.sight = g c)
    (h : ∀ c, Alike extra short (f c) (g c)) : Alike extra short (get >>= f) (get >>= g) := by
  intro inner c d hplaces
  rw [Computation.get_bind_apply, Computation.get_bind_apply, ← hf c, ← hg d, hplaces.sight, hf, hg]
  exact h c inner c d hplaces

theorem recalling (name : String) {x y : Eval Outcome} (h : Alike extra short x y) :
    Alike extra short (Eval.recalling name x) (Eval.recalling name y) := by
  intro inner c d hplaces
  rw [Eval.recalling, Eval.recalling, Computation.get_bind_apply, Computation.get_bind_apply,
    hplaces.instances]
  cases c.instances.get? name with
  | some text => exact .inr ⟨rfl, hplaces⟩
  | none =>
      refine (h inner c d hplaces).bind fun outcome => ?_
      exact .bind (.change (.instantiate name outcome.text)) fun _ => .result _

/-- Only on a level that the limit refuses the second run can end otherwise. -/
theorem descending (limit : Nat) (label : String) {x y : Eval α} (h : Alike extra short x y) :
    Alike extra short (Eval.descending limit label x) (Eval.descending limit label y) := by
  intro inner c d hplaces
  have hbody : Ends extra short inner
      (Eval.bracket { c with depth := c.depth + 1, chain := label :: c.chain }
        (fun _ => Context.ascend) x c)
      (Eval.bracket { d with depth := d.depth + 1, chain := label :: d.chain }
        (fun _ => Context.ascend) y d) :=
    .bracket h (hplaces.enter label) fun _ _ _ => Context.Displaced.ascend
  rw [descending_apply, descending_apply]
  by_cases hsecond : limit < d.depth + 1
  · rw [if_pos hsecond]
    cases extra with
    | nil =>
        obtain ⟨trace, log, rfl⟩ := (Context.displaced_nil.1 hplaces).2.2
        rw [if_pos hsecond]
        exact .inr ⟨rfl, hplaces⟩
    | cons level rest => exact .inl (.inr ⟨List.cons_ne_nil _ _, _, ⟨_, rfl, rfl⟩, rfl⟩)
  · have hfirst : ¬ limit < c.depth + 1 := fun h =>
      hsecond (Nat.lt_of_lt_of_le h (Nat.succ_le_succ hplaces.depth_le))
    rw [if_neg hsecond, if_neg hfirst]
    exact hbody

theorem withFrame (frame : Frame) {x y : Eval α} (h : Alike extra short x y) :
    Alike extra short (Eval.withFrame frame x) (Eval.withFrame frame y) := by
  intro inner c d hplaces
  rw [Eval.withFrame, Eval.withFrame, Computation.get_bind_apply, Computation.get_bind_apply]
  exact .bracket h (hplaces.reframe (frame :: ·)) fun _ _ _ h => h.reframe (·.drop 1)

theorem guarding (guard : String) {x y : Eval α} (h : Alike extra short x y) :
    Alike extra short (Eval.guarding guard x) (Eval.guarding guard y) := by
  intro inner c d hplaces
  rw [Eval.guarding, Eval.guarding, Computation.get_bind_apply, Computation.get_bind_apply]
  exact .bracket h (hplaces.reguard (guard :: ·)) fun _ _ _ h => h.reguard (·.drop 1)

theorem inScope (owner : String) (declarations : Option (Assoc String)) (collectionId : String)
    {x y : Eval α} (h : Alike extra short x y) :
    Alike extra short (Eval.inScope owner declarations collectionId x)
      (Eval.inScope owner declarations collectionId y) := by
  intro inner c d hplaces
  rw [inScope_apply, inScope_apply, hplaces.shared]
  rcases c.shared.enter owner (declarations.getD []) collectionId with e | _ | ⟨_, shared⟩
  · exact .inr ⟨rfl, hplaces⟩
  · exact h inner c d hplaces
  · refine Ends.bracket h (hplaces.share shared) fun _ c d h => ?_
    rw [h.shared]
    exact h.share _

theorem traced (step : TraceStep) {f g : Option Nat → Eval α}
    (h : ∀ n m, Alike extra short (f n) (g m)) :
    Alike extra short (Eval.traced step f) (Eval.traced step g) := by
  intro inner c d hplaces
  rw [traced_apply, traced_apply]
  exact .bracket (h _ _) (hplaces.retrace _ _) fun _ _ _ h => h.retrace _ _

/-- A shared variable ends alike if its evaluation does. -/
theorem readShared {a b : Answer}
    (hab : ∀ owner collectionId d, Alike extra short (a (.shared owner collectionId d))
      (b (.shared owner collectionId d))) (name : String) :
    Alike extra short (Eval.readShared a name) (Eval.readShared b name) := by
  intro inner c d hplaces
  rw [readShared_apply, readShared_apply, hplaces.shared]
  cases c.shared.find name with
  | undeclared => exact .inr ⟨rfl, hplaces⟩
  | illegal e => exact .inr ⟨rfl, hplaces⟩
  | known value => exact .inr ⟨rfl, hplaces⟩
  | pending p =>
      refine Ends.bind ?_ fun value => .bind (.change (.record _ _ _)) fun _ => .result _
      refine Ends.bracket (hab _ _ _) (hplaces.share p.store) fun r c d h => ?_
      rw [h.shared]
      exact h.share _

end Alike

end Eval

/-! ## Evaluations put together in the same way -/

variable {extra : List String} {short : Prop}

/-- What is put together in the same way ends alike if its calls do, whichever steps of the trace
are open. -/
theorem Uniform.alike {a b : Answer}
    (hab : ∀ {α : Type} (call : Call α), Eval.Alike extra short (a call) (b call)) {α : Type}
    {x y : Eval α} (h : Uniform (fun _ _ => True) a b x y) : Eval.Alike extra short x y := by
  induction h with
  | result r => exact .result r
  | bind _ _ hx hf => exact .bind hx hf
  | tryCatch _ _ hpass hx hf => exact .tryCatch hx hf hpass
  | look hf hg _ h => exact .look hf hg h
  | draw d => exact .draw d
  | resolving x => exact .resolving x
  | change h _ => exact .change h
  | mark _ f => exact .retrace _ _
  | recalling name found =>
      refine .recalling name ?_
      cases found with
      | ok target => exact hab _
      | error e => exact .result _
  | descending limit label _ h => exact .descending limit label h
  | withFrame frame _ h => exact .withFrame frame h
  | guarding guard _ h => exact .guarding guard h
  | inScope owner declarations collectionId _ h => exact .inScope owner declarations collectionId h
  | traced step _ h => exact .traced step fun n m => h n m trivial
  | readShared name => exact .readShared (fun _ _ _ => hab _) name
  | callPattern text collectionId => exact hab _
  | callRoll target excluded => exact hab _

/-- Answers to calls end alike, with any two bounds on the open calls if running short excuses. -/
theorem Eval.alike_answers (env : Surroundings) {n m : Nat} (h : n = m ∨ short) {α : Type}
    (call : Call α) : Alike extra short (answerWithin env n call) (answerWithin env m call) := by
  induction n generalizing m α with
  | zero =>
      cases m with
      | zero => cases call <;> exact .result _
      | succ m =>
          have hshort := h.resolve_left (Nat.succ_ne_zero m).symm
          cases call <;> exact fun _ _ _ _ => .inl (.inl ⟨hshort, .inl rfl⟩)
  | succ n ih =>
      cases m with
      | zero =>
          have hshort := h.resolve_left (Nat.succ_ne_zero n)
          cases call <;> exact fun _ _ _ _ => .inl (.inl ⟨hshort, .inr rfl⟩)
      | succ m =>
          rw [answerWithin_succ, answerWithin_succ]
          exact (Uniform.answerOnce env call).alike fun call => ih (h.imp_left Nat.succ.inj) call

end RandomTables
