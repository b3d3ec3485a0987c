-- SUMMARY: Repeated rolls come to the same as their rolls written out one after another.
import RandomTables.Proofs.Evaluation.Instances

/-!
# Repetition

A directive that rolls a reference several times does what as many single directives do in turn. A
capture of several rolls keeps their outcomes and reads them back as that text, and `again` does the
same one level deeper, which is noticed only where the limit stops it.
-/
namespace RandomTables.Eval

section

variable (env : Surroundings) (answer : Answer) (collectionId : String)

/-- The outputs of a directive that is evaluated some times in a row, and what would be repeated
after it. -/
def inTurn (d : Directive) : Nat → Again → Eval (List String × Again)
  | 0, memory => return ([], memory)
  | n + 1, memory => do
    let (text, memory) ← renderDirective env answer collectionId memory d
    let (texts, memory) ← inTurn d n memory
    return (text :: texts, memory)

variable {answer}

theorem rollTimes_eq (target : Target) (n : Nat) (done : List Outcome) :
    rollTimes answer target n done = do
      let outcomes ← rollTimes answer target n []
      return done.reverse ++ outcomes := by
  induction n generalizing done with
  | zero => simp only [rollTimes, pure_bind, List.reverse_nil, List.append_nil]
  | succ n ih =>
      simp only [rollTimes, bind_assoc]
      refine bind_congr fun outcome => ?_
      rw [ih (outcome :: done), ih [outcome]]
      simp only [bind_assoc, pure_bind, List.reverse_cons, List.append_assoc, List.reverse_nil,
        List.nil_append]

theorem rollTimes_succ {n : Nat} (target : Target) :
    rollTimes answer target (n + 1) [] = do
      let outcome ← answer (.roll target [])
      let outcomes ← rollTimes answer target n []
      return outcome :: outcomes := by
  rw [rollTimes]
  exact bind_congr fun outcome => rollTimes_eq target n [outcome]

theorem rollMany_repeating (ref : String) (n : Nat) :
    rollMany env answer ref n collectionId false =
      liftResolution (env.registry.resolve ref collectionId) >>= fun target =>
        rollTimes answer target n [] := by
  rw [rollMany]
  refine bind_congr fun target => ?_
  split
  · contradiction
  · rfl

end

variable (env : Surroundings) (fuel : Nat) (collectionId : String)

/-! ## Rolls -/

theorem sameRun_liftResolution {α : Type} (e : Except ResolutionFailure α) :
    SameRun (liftResolution e) (liftResolution e) := by
  cases e with
  | ok v => exact .pure v
  | error f => exact .result _

/-- A reference alone is rolled once. -/
theorem sameRun_table (memory : Again) (raw ref : String) :
    SameRun
      (renderDirective env (answerWithin env fuel) collectionId memory (.act raw (.table ref none)))
      (do
        let target ← liftResolution (env.registry.resolve ref collectionId)
        let outcome ← answerWithin env fuel (.roll target [])
        return (outcome.text, Again.ref ref)) := by
  refine (sameRun_act env fuel collectionId memory raw _).trans ?_
  simp only [renderAction, renderTable, rollReference, bind_assoc, pure_bind]
  refine .bind (sameRun_liftResolution _) fun target => ?_
  exact .bind (sameRun_call env fuel _) fun outcome => .annotate _ _ (.pure _)

/-- Rolls in a row are those of one target. -/
theorem sameRun_inTurn (memory : Again) (raw ref : String) (n : Nat) :
    SameRun
      (inTurn env (answerWithin env fuel) collectionId (.act raw (.table ref none)) (n + 1) memory)
      (do
        let outcomes ← rollMany env (answerWithin env fuel) ref (n + 1) collectionId false
        return (outcomes.map (·.text), Again.ref ref)) := by
  induction n generalizing memory with
  | zero =>
      have hfirst := (sameRun_table env fuel collectionId memory raw ref).bind
        fun r => SameRun.pure ([r.1], r.2)
      simpa only [inTurn, rollMany_repeating, rollTimes, bind_assoc, pure_bind,
        List.reverse_singleton, List.map_cons, List.map_nil] using hfirst
  | succ n ih =>
      have hboth := (sameRun_table env fuel collectionId memory raw ref).bind fun r =>
        (ih r.2).bind fun q => SameRun.pure (r.1 :: q.1, q.2)
      rw [inTurn]
      refine hboth.trans ?_
      simp only [rollMany_repeating, bind_assoc, pure_bind]
      cases env.registry.resolve ref collectionId with
      | error e => exact .result _
      | ok target =>
          simp only [liftResolution, pure_bind, rollTimes_succ (n := n + 1), bind_assoc,
            List.map_cons]
          refine .bind (sameRun_call env fuel _) fun outcome => ?_
          exact .bind (sameRun_of_uniform env fuel (.rollTimes target _ _)) fun _ => .pure _

theorem length_rollTimes {answer : Answer} {target : Target} {n : Nat} {c c' : Context}
    {done outcomes : List Outcome} (h : rollTimes answer target n done c = (.ok outcomes, c')) :
    outcomes.length = n + done.length := by
  induction n generalizing done c with
  | zero =>
      cases h
      rw [List.length_reverse, Nat.zero_add]
  | succ n ih =>
      obtain ⟨outcome, d, -, h⟩ := Computation.bind_eq_ok h
      rw [ih h, List.length_cons]
      omega

/-- As many outcomes as rolls. -/
theorem length_rollMany {answer : Answer} {ref : String} {n : Nat} {c c' : Context}
    {outcomes : List Outcome}
    (h : rollMany env answer ref n collectionId false c = (.ok outcomes, c')) :
    outcomes.length = n := by
  rw [rollMany_repeating] at h
  obtain ⟨target, d, -, h⟩ := Computation.bind_eq_ok h
  exact length_rollTimes h

/-- Several rolls of a reference, joined. -/
theorem sameRun_multiRoll (memory : Again) (raw ref separator : String) (n : Nat) :
    SameRun
      (renderDirective env (answerWithin env fuel) collectionId memory
        (.act raw (.multiRoll (.literal n) ref false separator)))
      (do
        let outcomes ← rollMany env (answerWithin env fuel) ref n collectionId false
        return (joinOutcomes separator outcomes, Again.ref ref)) := by
  refine (sameRun_act env fuel collectionId memory raw _).trans ?_
  simp only [renderAction, renderMultiRoll, evalCount, bind_assoc, pure_bind]
  refine .bind (sameRun_of_uniform env fuel (.rollMany env ref n collectionId false)) fun _ => ?_
  exact .annotate _ _ (.pure _)

/-- A silent capture of several rolls keeps their outcomes. -/
theorem sameRun_capture (memory : Again) (raw ref name separator : String) (n : Nat) :
    SameRun
      (renderDirective env (answerWithin env fuel) collectionId memory
        (.act raw (.capture (.literal n) ref name false true separator)))
      (do
        let outcomes ← rollMany env (answerWithin env fuel) ref n collectionId false
        modify (Context.capture name (outcomes.map Outcome.item))
        return ("", Again.ref ref)) := by
  refine (sameRun_act env fuel collectionId memory raw _).trans ?_
  simp only [renderAction, renderCapture, evalCount, bind_assoc, pure_bind]
  refine .bind (sameRun_of_uniform env fuel (.rollMany env ref n collectionId false)) fun _ => ?_
  refine .bind (sameRun_of_uniform env fuel (.capture name _)) fun _ => ?_
  exact .annotate _ _ (.pure _)

/-- What is captured is read back as it is. -/
theorem coincide_captured {name : String} {items : Captured} {c : Context}
    (h : c.captures.get? name = some items) (memory : Again) (raw : String)
    (asked : Option CaptureAttribute) (separator : Option String) :
    Coincide
      (.ok (if asked = some .count then toString items.length
        else joinItems (separator.getD defaultSeparator) items, memory), c)
      (renderDirective env (answerWithin env fuel) collectionId memory
        (.act raw (.captureAccess name none asked separator)) c) := by
  refine .trans ?_ (sameRun_act env fuel collectionId memory raw _ c c (.refl c)).symm
  have hread : readItems env (answerWithin env fuel) name collectionId c = (.ok items, c) := by
    rw [readItems, Computation.get_bind_apply, h]
    rfl
  simp only [renderAction, renderCaptureAccess, bind_assoc, chosenItems, pure_bind]
  rw [Computation.bind_apply, hread]
  split <;> exact ⟨rfl, _, c.log, rfl⟩

/-- What follows a repetition without effects may as well stand inside it. -/
theorem repeating_map {α β : Type} (x : Eval α) (f : α → β) :
    (repeating env x >>= fun v => pure (f v)) = repeating env (x >>= fun v => pure (f v)) := by
  funext c
  rw [Computation.bind_apply, repeating, repeating, descending_apply, descending_apply]
  by_cases hlimit : env.config.maxRecursionDepth < c.depth + 1
  · simp only [if_pos hlimit]
  · simp only [if_neg hlimit, bracket, ExceptT.run, Computation.bind_apply]
    rcases x { c with depth := c.depth + 1, chain := "again" :: c.chain } with ⟨_ | _, _⟩ <;> rfl

/-- A run that the limit on levels stops. -/
def Stopped {α : Type} (r : Except Failure α) : Prop := ∃ f : Failure, f.OverLimit ∧ r = .error f

/-- The context inside a repetition. -/
def within (c : Context) : Context := { c with depth := c.depth + 1, chain := "again" :: c.chain }

theorem repeating_of_limit {α : Type} (x : Eval α) {c : Context}
    (h : env.config.maxRecursionDepth ≤ c.depth) :
    ∃ f : Failure, f.OverLimit ∧ repeating env x c = (.error f, c) := by
  rw [repeating, descending_apply, if_pos (Nat.lt_succ_of_le h)]
  exact ⟨_, ⟨_, rfl, rfl⟩, rfl⟩

/-- A repetition is stopped by the limit outside or inside of it. -/
theorem stopped_repeating_iff {α : Type} (x : Eval α) (c : Context) :
    Stopped (repeating env x c).1 ↔
      env.config.maxRecursionDepth ≤ c.depth ∨ Stopped (x (within c)).1 := by
  rcases Nat.lt_or_ge c.depth env.config.maxRecursionDepth with hlimit | hlimit
  · rw [repeating, descending_apply, if_neg (Nat.not_lt.2 hlimit),
      or_iff_right (Nat.not_le.2 hlimit)]
    rfl
  · obtain ⟨f, hf, hrefused⟩ := repeating_of_limit env x hlimit
    exact iff_of_true ⟨f, hf, congrArg Prod.fst hrefused⟩ (.inl hlimit)

theorem repeating_of_not_stopped {α : Type} {x : Eval α} (hx : Alike ["again"] False x x)
    {c : Context} (h : ¬ Stopped (repeating env x c).1) :
    (repeating env x c).1 = (x c).1 ∧ ∃ told new trace log,
      (x c).2.descriptions = told ++ new ∧
      (repeating env x c).2 = { (x c).2 with
        trace, log, descriptions := told ++ new.map (·.deeper 1) } := by
  rw [stopped_repeating_iff, not_or, Nat.not_le] at h
  have hdeeper : Context.Displaced ["again"] [] c (within c) :=
    ⟨c.chain, c.descriptions, [], c.trace, c.log, rfl, Nat.zero_le _, (List.append_nil _).symm,
      by simp only [within, List.map_nil, List.append_nil]; rfl⟩
  rw [repeating, descending_apply, if_neg (Nat.not_lt.2 h.1)]
  rcases hx [] c _ hdeeper with (⟨h', -⟩ | ⟨-, hstopped⟩) | ⟨hresult, hplaces⟩
  · exact h'.elim
  · exact absurd hstopped h.2
  · exact ⟨hresult, hplaces.ascend_last⟩

/-- A repetition of a reference rolls one level deeper. -/
theorem sameRun_again (raw rawMany ref separator : String) (n : Nat) :
    SameRun
      (renderDirective env (answerWithin env fuel) collectionId (.ref ref)
        (.act raw (.again n false separator)))
      (repeating env (renderDirective env (answerWithin env fuel) collectionId (.ref ref)
        (.act rawMany (.multiRoll (.literal n) ref false separator)))) := by
  have hrolls : Uniform (fun _ _ => True) (answerWithin env fuel) (answerWithin env fuel) _ _ :=
    .rollMany env ref n collectionId false
  have hagain : SameRun
      (renderDirective env (answerWithin env fuel) collectionId (.ref ref)
        (.act raw (.again n false separator)))
      (repeating env (do
        let outcomes ← rollMany env (answerWithin env fuel) ref n collectionId false
        return (joinOutcomes separator outcomes, Again.ref ref))) := by
    refine (sameRun_act env fuel collectionId (.ref ref) raw _).trans ?_
    rw [← repeating_map]
    simp only [renderAction, renderAgain, bind_assoc, pure_bind]
    refine .bind (sameRun_of_uniform env fuel (.descending _ _ hrolls)) fun _ => ?_
    exact .annotate _ _ (.pure _)
  refine hagain.trans (.descending _ _ ?_)
  exact (sameRun_multiRoll env fuel collectionId (.ref ref) rawMany ref separator n).symm

/-! ## Dice -/

/-- Dice are rolled once. -/
theorem sameRun_dice (memory : Again) (raw : String) (spec : DiceFormula) :
    SameRun
      (renderDirective env (answerWithin env fuel) collectionId memory (.act raw (.dice spec)))
      (do
        let result ← castDice env spec
        return (toString result.total, Again.dice spec)) := by
  refine (sameRun_act env fuel collectionId memory raw _).trans ?_
  simp only [renderAction, bind_assoc, pure_bind]
  refine .bind (sameRun_of_uniform env fuel (.castDice env spec)) fun _ => ?_
  exact .annotate _ _ (.pure _)

/-- A draw and what is made of it only use up the source. -/
theorem draw_lift_apply {α β : Type} (x : Draw α) (f : α → Except Failure β) (c : Context) :
    (draw x >>= fun v => lift (f v)) c =
      ((x.run c.source).1 >>= f, { c with source := (x.run c.source).2 }) := by
  rw [Computation.bind_apply, draw]
  rcases x.run c.source with ⟨e | v, s⟩
  · rfl
  · change lift (f v) { c with source := s } = (f v, { c with source := s })
    cases f v <;> rfl

/-- Where the limit allows one more level, dice fall there as they do here. -/
theorem repeating_castDice {c : Context} (h : c.depth < env.config.maxRecursionDepth)
    (spec : DiceFormula) : repeating env (castDice env spec) c = castDice env spec c := by
  rw [repeating, descending_apply, if_neg (Nat.not_lt.2 h), castDice]
  generalize Draw.ofSource (spec.roll env.config.maxExplodingDice) = x
  change (((draw x >>= fun v => lift v.checked) _).1,
    ((draw x >>= fun v => lift v.checked) _).2.ascend) = _
  rw [draw_lift_apply, draw_lift_apply]
  rfl

theorem depth_castDice (spec : DiceFormula) (c : Context) :
    (castDice env spec c).2.depth = c.depth := by
  rw [castDice, draw_lift_apply]

/-- Dice again are dice in turn. -/
theorem coincide_diceAgain {c d : Context} (h : c.depth < env.config.maxRecursionDepth)
    (hcd : c.Retraced d) (raw : String) (spec : DiceFormula) (n : Nat) (done : List String) :
    Coincide
      ((do
        let (texts, after) ← inTurn env (answerWithin env fuel) collectionId
          (.act raw (.dice spec)) n (.dice spec)
        return (done.reverse ++ texts, after)) c)
      ((do
        let totals ← diceAgain env spec n done
        return (totals, Again.dice spec)) d) := by
  induction n generalizing c d done with
  | zero =>
      refine ⟨?_, hcd⟩
      exact congrArg (fun totals => Except.ok (totals, Again.dice spec)) (List.append_nil _).symm
  | succ n ih =>
      have hdepth : d.depth < env.config.maxRecursionDepth := by
        obtain ⟨_, _, rfl⟩ := hcd
        exact h
      obtain ⟨hresult, hcontext⟩ :=
        sameRun_dice env fuel collectionId (.dice spec) raw spec c d hcd
      have hlevel := depth_castDice env spec d
      rw [Computation.bind_apply] at hresult hcontext
      rw [inTurn, diceAgain, bind_assoc, bind_assoc, Computation.bind_apply,
        Computation.bind_apply (repeating _ _), repeating_castDice env hdepth]
      rcases hfirst : renderDirective env (answerWithin env fuel) collectionId (.dice spec)
        (.act raw (.dice spec)) c with ⟨first, c'⟩
      rcases hcast : castDice env spec d with ⟨e | roll, d'⟩ <;>
        rw [hfirst, hcast] at hresult hcontext <;> rw [hcast] at hlevel
      · dsimp only at hresult hcontext
        subst hresult
        exact ⟨rfl, hcontext⟩
      · have houtput : first = .ok (toString roll.total, Again.dice spec) := hresult.symm
        subst houtput
        have hnoted : ∀ trace, c'.Retraced { d' with trace } := fun trace =>
          .trans hcontext ⟨trace, d'.log, rfl⟩
        have hlimit : c'.depth < env.config.maxRecursionDepth := by
          obtain ⟨_, _, rfl⟩ := Context.Retraced.symm hcontext
          exact hlevel ▸ hdepth
        have hrest := fun trace => ih hlimit (hnoted trace) (toString roll.total :: done)
        simp only [List.reverse_cons, List.append_assoc, List.singleton_append] at hrest
        simp only [bind_assoc, pure_bind]
        exact hrest _

/-- A repetition of dice, joined. -/
theorem sameRun_againDice (raw separator : String) (spec : DiceFormula) (n : Nat) :
    SameRun
      (renderDirective env (answerWithin env fuel) collectionId (.dice spec)
        (.act raw (.again n false separator)))
      (do
        let totals ← diceAgain env spec n []
        return (String.intercalate separator totals, Again.dice spec)) := by
  refine (sameRun_act env fuel collectionId (.dice spec) raw _).trans ?_
  simp only [renderAction, renderAgain, bind_assoc, pure_bind]
  refine .bind (sameRun_of_uniform env fuel (.diceAgain env spec n [])) fun _ => ?_
  exact .annotate _ _ (.pure _)

/-! ## Written out -/

/-- A silent capture ends where the rolls do, with their outcomes kept, and gives them back. -/
theorem captured_of_rolled (memory : Again)
    (rawMany raw rawText rawCount ref name separator inner : String) (n : Nat) (c : Context) :
    let run (memory : Again) (raw : String) (action : Action) :=
      renderDirective env (answerWithin env fuel) collectionId memory (.act raw action)
    let kept := run memory raw (.capture (.literal n) ref name false true inner) c
    match run memory rawMany (.multiRoll (.literal n) ref false separator) c with
    | (.error f, c') => Coincide (.error f, c') kept
    | (.ok (text, after), c') => ∃ items : Captured, items.length = n ∧
        Coincide (.ok ("", after), { c' with captures := c'.captures.put name items }) kept ∧
        ∀ later d, kept.2.Retraced d →
          Coincide (.ok (text, later), d)
            (run later rawText (.captureAccess name none none (some separator)) d) ∧
          Coincide (.ok (toString n, later), d)
            (run later rawCount (.captureAccess name none (some .count) none) d) := by
  intro run kept
  have hmany := sameRun_multiRoll env fuel collectionId memory rawMany ref separator n c c (.refl c)
  have hkept := sameRun_capture env fuel collectionId memory raw ref name inner n c c (.refl c)
  rw [Computation.bind_apply] at hmany hkept
  change Coincide (run memory rawMany (.multiRoll (.literal n) ref false separator) c) _ at hmany
  rcases hrolled : rollMany env (answerWithin env fuel) ref n collectionId false c
    with ⟨f | outcomes, d⟩ <;> rw [hrolled] at hmany hkept <;>
    generalize run memory rawMany (.multiRoll (.literal n) ref false separator) c = done
      at hmany ⊢ <;>
    rcases done with ⟨result, c'⟩
  · obtain rfl : Except.error f = result := hmany.1
    exact hmany.trans hkept.symm
  · obtain rfl : Except.ok (joinOutcomes separator outcomes, Again.ref ref) = result := hmany.1
    have hlength : (outcomes.map Outcome.item).length = n := by
      rw [List.length_map, length_rollMany env collectionId hrolled]
    have hjoined : joinItems separator (outcomes.map Outcome.item) =
        joinOutcomes separator outcomes := by
      rw [joinItems, List.map_map]
      rfl
    have hcontext : Context.Retraced _ kept.2 :=
      (Context.Retraced.capture (c := c') hmany.2 name (outcomes.map Outcome.item)).trans
        hkept.2.symm
    refine ⟨outcomes.map Outcome.item, hlength, ⟨hkept.1.symm, hcontext⟩, fun later d hd => ?_⟩
    have hread : d.captures.get? name = some (outcomes.map Outcome.item) := by
      obtain ⟨_, _, rfl⟩ := hcontext.trans hd
      exact Assoc.get?_put_self _ _ _
    have htext := coincide_captured env fuel collectionId hread later rawText none (some separator)
    have hcount := coincide_captured env fuel collectionId hread later rawCount (some .count) none
    rw [if_neg (by decide), Option.getD_some, hjoined] at htext
    rw [if_pos rfl, hlength] at hcount
    exact ⟨htext, hcount⟩

/-- Several rolls of a reference are as many single ones in turn, joined; captured and read back
they are the same with as many items; and a repetition of that reference, or of dice, is the same
again where one more level is allowed. -/
theorem repetition_written_out (env : Surroundings) (fuel : Nat)
    (collectionId ref separator : String) (n : Nat) (written : Action → String) :
    let run (memory : Again) (action : Action) : Eval (String × Again) :=
      renderDirective env (answerWithin env fuel) collectionId memory (.act (written action) action)
    let turns (memory : Again) (action : Action) : Eval (String × Again) := do
      let (texts, memory) ← inTurn env (answerWithin env fuel) collectionId
        (.act (written action) action) (n + 1) memory
      return (String.intercalate separator texts, memory)
    let once : Action := .table ref none
    let many : Action := .multiRoll (.literal (n + 1)) ref false separator
    let again : Action := .again (n + 1) false separator
    (∀ memory, SameRun (turns memory once) (run memory many)) ∧
    (∀ memory name inner c,
      let kept := run memory (.capture (.literal (n + 1)) ref name false true inner) c
      match run memory many c with
      | (.error f, c') => Coincide (.error f, c') kept
      | (.ok (text, after), c') => ∃ items : Captured, items.length = n + 1 ∧
          Coincide (.ok ("", after), { c' with captures := c'.captures.put name items }) kept ∧
          ∀ later d, kept.2.Retraced d →
            Coincide (.ok (text, later), d)
              (run later (.captureAccess name none none (some separator)) d) ∧
            Coincide (.ok (toString (n + 1), later), d)
              (run later (.captureAccess name none (some .count) none) d)) ∧
    (∀ memory before text after, (run memory once before).1 = .ok (text, after) → ∀ c,
      let done := run after many c
      let repeated := run after again c
      (Stopped repeated.1 ↔
        env.config.maxRecursionDepth ≤ c.depth ∨ Stopped (run after many (within c)).1) ∧
      (¬ Stopped repeated.1 → repeated.1 = done.1 ∧ ∃ told new trace log,
        done.2.descriptions = told ++ new ∧
        repeated.2 = { done.2 with
          trace, log, descriptions := told ++ new.map (·.deeper 1) })) ∧
    ∀ memory spec before text after, (run memory (.dice spec) before).1 = .ok (text, after) → ∀ c,
      (c.depth < env.config.maxRecursionDepth →
        Coincide (turns after (.dice spec) c) (run after again c)) ∧
      (env.config.maxRecursionDepth ≤ c.depth →
        Stopped (run after again c).1 ∧ c.Retraced (run after again c).2) := by
  intro run turns once many again
  refine ⟨fun memory => ?_, fun memory name inner c => ?_, fun memory before text after h c => ?_,
    fun memory spec before text after h c => ?_⟩
  · have hturns := (sameRun_inTurn env fuel collectionId memory (written once) ref n).bind
      fun r => SameRun.pure (String.intercalate separator r.1, r.2)
    refine hturns.trans
      (.trans ?_ (sameRun_multiRoll env fuel collectionId memory _ ref separator _).symm)
    simp only [bind_assoc, pure_bind]
    exact sameRun_of_uniform env fuel (.bind (.rollMany env ref _ _ _) fun _ => .pure _)
  · exact captured_of_rolled env fuel collectionId memory _ _ _ _ ref name separator inner (n + 1) c
  · obtain rfl : after = .ref ref := remembered_of_act h
    intro done repeated
    have hrolls : Alike ["again"] False (run (.ref ref) many) (run (.ref ref) many) :=
      (Uniform.renderDirective env collectionId _ _).alike
        fun call => alike_answers env (.inl rfl) call
    obtain ⟨hresult, hcontext⟩ := sameRun_again env fuel collectionId (written again) (written many)
      ref separator (n + 1) c c (.refl c)
    change (repeating env (run (.ref ref) many) c).1 = repeated.1 at hresult
    rw [← hresult]
    refine ⟨stopped_repeating_iff env _ c, fun hallowed => ?_⟩
    obtain ⟨hsame, told, new, trace, log, htold, hafter⟩ :=
      repeating_of_not_stopped env hrolls hallowed
    obtain ⟨trace', log', hretraced⟩ := hcontext.symm
    exact ⟨hsame, told, new, trace', log', htold, hretraced.trans (by rw [hafter])⟩
  · obtain rfl : after = .dice spec := remembered_of_act h
    have hagain := sameRun_againDice env fuel collectionId (written again) separator spec (n + 1)
      c c (.refl c)
    refine ⟨fun hlimit => ?_, fun hlimit => ?_⟩
    · have hdice := coincide_diceAgain env fuel collectionId hlimit (.refl c) (written (.dice spec))
        spec (n + 1) []
      have hjoined := hdice.bind fun r => SameRun.pure (String.intercalate separator r.1, r.2)
      simp only [bind_assoc, pure_bind, List.reverse_nil, List.nil_append] at hjoined
      exact hjoined.trans hagain.symm
    · obtain ⟨f, hf, hrefused⟩ := repeating_of_limit env (castDice env spec) hlimit
      rw [diceAgain, bind_assoc, Computation.bind_apply, hrefused] at hagain
      exact ⟨⟨f, hf, hagain.1.symm⟩, hagain.2.symm⟩

/-- Two rolls again of a table that was rolled, which give its other entry first; and a die again,
which falls on the first level and not where the limit is reached. -/
theorem repetition_of_two_entries :
    let t : SimpleTable := { id := "t", entries := [
      { value := some "A", range := some ⟨1, 1⟩ }, { value := some "B", range := some ⟨2, 2⟩ }] }
    let document : Document := {
      metadata := { name := "n", namespaceText := "c" }, tables := [.simple t] }
    let env : Surroundings := {
      registry := ⟨[{ id := "c", document }]⟩, base := {}, config := {}, collectionId := "c"
      statics := [] }
    let run (memory : Again) (action : Action) : Eval (String × Again) :=
      renderDirective env (answerWithin env 9) "c" memory (.act "" action)
    let c : Context := { source := .ofDraws [0, 999999] }
    let drawn : Context := { source := .ofDraws [999999, 0] }
    let last : Context := { c with depth := env.config.maxRecursionDepth }
    let die : DiceFormula := { count := 1, sides := 6 }
    let again : Action := .again 2 false "-"
    (∃ after, (run .nothing (.table "t" none) c).1 = .ok ("A", after) ∧
      (run after again drawn).1 = (run after (.multiRoll (.literal 2) "t" false "-") drawn).1 ∧
      (run after again drawn).1.toOption.map (·.1) = some "B-A") ∧
    ∃ after, (run .nothing (.dice die) c).1 = .ok ("1", after) ∧
      Coincide
        ((do
          let (texts, after) ← inTurn env (answerWithin env 9) "c" (.act "" (.dice die)) 2 after
          return (String.intercalate "-" texts, after)) drawn)
        (run after again drawn) ∧
      (run after again drawn).1.toOption.map (·.1) = some "6-1" ∧
      Stopped (run after again last).1 := by
  intro t document env run c drawn last die again
  obtain ⟨-, -, hrolls, hdice⟩ := repetition_written_out env 9 "c" "t" "-" 1 fun _ => ""
  have houtput : ∀ {r : Except Failure (String × Again)} {text : String},
      r.toOption.map (·.1) = some text → ∃ after, r = .ok (text, after) := by
    rintro (f | ⟨text, after⟩) _ h
    · cases h
    · exact ⟨after, congrArg (fun text => Except.ok (text, after)) (Option.some.inj h)⟩
  obtain ⟨after, hrolled⟩ : ∃ after, (run .nothing (.table "t" none) c).1 = .ok ("A", after) :=
    houtput (by decide +kernel)
  obtain ⟨later, hcast⟩ : ∃ after, (run .nothing (.dice die) c).1 = .ok ("1", after) :=
    houtput (by decide +kernel)
  obtain rfl : after = .ref "t" := remembered_of_act hrolled
  obtain rfl : later = .dice die := remembered_of_act hcast
  have htext : (run (.ref "t") again drawn).1.toOption.map (·.1) = some "B-A" := by decide +kernel
  have hallowed : ¬ Stopped (run (.ref "t") again drawn).1 := by
    rintro ⟨f, -, hstopped⟩
    rw [hstopped] at htext
    cases htext
  have hsame := ((hrolls .nothing c "A" _ hrolled drawn).2 hallowed).1
  have hdie := hdice .nothing die c "1" _ hcast
  exact ⟨⟨_, hrolled, hsame, htext⟩, _, hcast, (hdie drawn).1 (by decide), by decide +kernel,
    ((hdie last).2 (Nat.le_refl _)).1⟩

end RandomTables.Eval
