-- SUMMARY: Which rolls of described entries an evaluation completes, and what it records of them.
import RandomTables.Proofs.Evaluation.Telling

/-!
# Described rolls

A roll takes place while a call is answered that is asked for while another is answered, and so on
out to the evaluation itself. The path of these calls says which roll it is. Every record of an
evaluation is that of one roll of an entry with a description, and every such roll that is completed
has one record. A roll that takes place inside another is at a deeper level than that one.
-/
namespace RandomTables

namespace Eval

/-- In the course of an evaluation from a context, a roll of an entry with a description is
completed, and there is this to be recorded of it. The path has the calls that are open then, from
the outermost to the roll itself. -/
inductive Rolled (env : Surroundings) : Nat → {α : Type} → (Answer → Eval α) → Context →
    List Question → Description → Prop where
  | asked {fuel : Nat} {α : Type} {x : Answer → Eval α} {c : Context} {q : Question} {v : q.α}
    {r : Description} (asks : Asks x (answerWithin env fuel) c q)
    (gives : (answerWithin env fuel q.call q.context).1 = .ok v)
    (tells : q.call.Tells env q.context v r) : Rolled env fuel x c [q] r
  | inside {fuel : Nat} {α : Type} {x : Answer → Eval α} {c : Context} {q : Question}
    {path : List Question} {r : Description} (asks : Asks x (answerWithin env (fuel + 1)) c q)
    (rolled : Rolled env fuel (fun a => answerOnce env a q.call) q.context path r) :
    Rolled env (fuel + 1) x c (q :: path) r

/-- Where the record of a completed roll stands: at the end of all that was recorded when the
innermost call of its path was answered. -/
def place (env : Surroundings) : Nat → List Question → Nat
  | fuel + 1, _ :: q :: path => place env fuel (q :: path)
  | fuel, [q] => (q.ended (answerWithin env fuel)).descriptions.length - 1
  | _, _ => 0

end Eval

/-! ## Levels -/

/-- Only rolls tell something, and what they tell is of their own level. -/
theorem Call.Tells.level {env : Surroundings} {α : Type} {call : Call α} {c : Context} {v : α}
    {r : Description} (h : call.Tells env c v r) :
    call.levels = 1 ∧ r.depth = c.depth + 1 := by
  cases call with
  | pattern _ _ => exact h.elim
  | shared _ _ _ => exact h.elim
  | roll target excluded =>
      obtain ⟨t | t, owner⟩ := target
      · obtain ⟨s, table, -, -, rfl⟩ := h
        exact ⟨rfl, rfl⟩
      · exact h.elim

namespace Call.Telling

variable {env : Surroundings} {α : Type} {call : Call α} {fuel : Nat} {a : Answer} {c : Context}
  {q : Question} {z : Answer → Eval (α × Option Description)}

/-- What the answer to a call asks for, the quiet evaluation in it asks for. -/
theorem asks (hz : call.Telling env z) (h : Asks (fun a => Eval.answerOnce env a call) a c q) :
    Asks z a c q := by
  intro hsame
  apply h
  dsimp only
  rw [hz.answers, hz.answers]
  exact Eval.recording_congr hsame

theorem fueled_iff (hz : call.Telling env z) :
    Fueled (Eval.answerWithin env (fuel + 1) call c).1 ↔
      Fueled (z (Eval.answerWithin env fuel) c).1 := by
  rw [Eval.answerWithin_succ, hz.answers, Fueled, Fueled, (Eval.recording_apply _ _).1]
  rcases (z (Eval.answerWithin env fuel) c).1 with e | v <;> simp [Except.map]

/-- With enough fuel it is the other way round, too. -/
theorem asks_of_fueled (hz : call.Telling env z) (ha : a.Tidy) (hfueled : Fueled (z a c).1)
    (h : Asks z a c q) : Asks (fun a => Eval.answerOnce env a call) a c q := by
  intro hsame
  have hout := (hz.quiet.asks_iff ha hfueled).1 h
  have hresult := congrArg Prod.fst hsame
  dsimp only at hresult
  rw [hz.answers, hz.answers, (Eval.recording_apply _ _).1, (Eval.recording_apply _ _).1, hout]
    at hresult
  exact hfueled (Except.map_eq_error hresult.symm)

/-- An answered call has recorded what its quiet evaluation has, and then what it had to tell. -/
theorem answered (hz : call.Telling env z) (fuel : Nat) (c : Context) :
    (∃ v r, (Eval.answerWithin env (fuel + 1) call c).1 = .ok v ∧
      (∀ r', call.Tells env c v r' ↔ r' = r) ∧
      (Eval.answerWithin env (fuel + 1) call c).2.descriptions =
        (z (Eval.answerWithin env fuel) c).2.descriptions ++ [r]) ∨
    ((∀ v r, (Eval.answerWithin env (fuel + 1) call c).1 = .ok v → ¬ call.Tells env c v r) ∧
      (Eval.answerWithin env (fuel + 1) call c).2.descriptions =
        (z (Eval.answerWithin env fuel) c).2.descriptions) := by
  rw [Eval.answerWithin_succ, hz.answers]
  rcases hquiet : z (Eval.answerWithin env fuel) c with ⟨e | ⟨v, told⟩, d⟩
  · rw [Eval.recording_error hquiet]
    exact .inr ⟨fun v r h => (nomatch h), rfl⟩
  · have htells := hz.tells _ (Eval.tidy_answerWithin env fuel) c v told
      (congrArg Prod.fst hquiet)
    rw [Eval.recording_ok hquiet]
    cases told with
    | some r =>
        have htold := fun r' => (htells r').symm.trans (Option.some_inj.trans eq_comm)
        exact .inl ⟨v, r, rfl, htold, rfl⟩
    | none =>
        refine .inr ⟨fun v' r h htold => ?_, List.append_nil _⟩
        cases h
        exact nomatch (htells r).2 htold

end Call.Telling

namespace Eval.Rolled

variable {env : Surroundings} {fuel : Nat} {α β : Type} {x : Answer → Eval α} {c : Context}
  {path : List Question} {r : Description}

/-- What is rolled in the course of one evaluation is rolled in that of another that asks for the
same. -/
theorem imp {y : Answer → Eval β}
    (h : ∀ q, Asks x (answerWithin env fuel) c q → Asks y (answerWithin env fuel) c q)
    (hx : Rolled env fuel x c path r) : Rolled env fuel y c path r := by
  cases hx with
  | asked asks gives tells => exact .asked (h _ asks) gives tells
  | inside asks rolled => exact .inside (h _ asks) rolled

theorem ne_nil (h : Rolled env fuel x c path r) : path ≠ [] := by
  cases h <;> exact List.cons_ne_nil _ _

/-- Whatever is rolled is one level deeper at least than all that is asked for. -/
theorem level {floor : Nat} (h : Rolled env fuel x c path r)
    (hfloor : ∀ q, Asks x (answerWithin env fuel) c q → floor ≤ q.context.depth) :
    floor + 1 ≤ r.depth := by
  induction h generalizing floor with
  | asked asks _ tells =>
      rw [tells.level.2]
      exact Nat.succ_le_succ (hfloor _ asks)
  | @inside fuel _ _ _ q _ _ asks _ ih =>
      obtain ⟨z, hz⟩ := q.call.exists_telling env
      refine ih fun q' h => ?_
      have hlevel := hz.levels _ (tidy_answerWithin env fuel) _ _ (hz.asks h)
      exact (hfloor _ asks).trans (Nat.le_trans (Nat.le_add_right _ _) hlevel)

/-- What takes place inside a roll is deeper than that roll. -/
theorem deeper {rest : List Question} {r' : Description} (h : Rolled env fuel x c path r)
    (h' : Rolled env fuel x c (path ++ rest) r') (hrest : rest ≠ []) : r.depth < r'.depth := by
  induction h with
  | @asked fuel _ _ _ q _ _ _ _ tells =>
      cases h' with
      | asked => exact absurd rfl hrest
      | inside _ rolled =>
          -- the outer roll opens a level of its own around all that its call asks for
          obtain ⟨z, hz⟩ := q.call.exists_telling env
          obtain ⟨hlevels, hdepth⟩ := tells.level
          rw [hdepth, ← hlevels]
          exact rolled.level fun q' h => hz.levels _ (tidy_answerWithin env _) _ _ (hz.asks h)
  | inside _ rolled ih =>
      obtain ⟨q', path, rfl⟩ := List.exists_cons_of_ne_nil rolled.ne_nil
      cases h' with
      | inside _ rolled' => exact ih rolled'

/-! ## Places -/

theorem asks_head {q : Question} (h : Rolled env fuel x c (q :: path) r) :
    Asks x (answerWithin env fuel) c q := by
  cases h with
  | asked asks => exact asks
  | inside asks => exact asks

end Eval.Rolled

/-- While a question is answered this is recorded as the description of a number. -/
structure Question.Records (q : Question) (answer : Answer) (i : Nat) (r : Description) : Prop where
  begun : q.context.descriptions.length ≤ i
  record : (q.ended answer).descriptions[i]? = some r

theorem Question.Records.spans {q : Question} {a : Answer} {i : Nat} {r : Description}
    (h : q.Records a i r) : q.Spans a i :=
  ⟨h.begun, (List.getElem?_eq_some_iff.1 h.record).1⟩

theorem Quiet.Reaches.records {α : Type} {q : Question} {a : Answer} {i : Nat} {r : Description}
    {c : Context} {result : Except Failure α × Context} (h : Quiet.Reaches a q c result)
    (hrecords : q.Records a i r) :
    c.descriptions.length ≤ i ∧ result.2.descriptions[i]? = some r := by
  obtain ⟨rest, hrest⟩ := h.ended
  refine ⟨h.begun.length_le.trans hrecords.begun, ?_⟩
  rw [← hrest, List.getElem?_append_left hrecords.spans.ended]
  exact hrecords.record

namespace Eval.Rolled

variable {env : Surroundings} {fuel : Nat} {α β : Type} {x : Answer → Eval α} {c : Context}
  {path : List Question} {q : Question} {r : Description}

/-- The record of a completed roll stands at its place, in what is recorded while the outermost
call of its path is answered. -/
theorem records (h : Rolled env fuel x c path r) (hq : path.head? = some q)
    (hfueled : Fueled (answerWithin env fuel q.call q.context).1) :
    q.Records (answerWithin env fuel) (place env fuel path) r := by
  induction h generalizing q with
  | @asked fuel _ _ c q v r asks gives tells =>
      cases hq
      cases fuel with
      | zero =>
          rw [answerWithin_zero] at gives
          cases gives
      | succ fuel =>
          obtain ⟨z, hz⟩ := q.call.exists_telling env
          rcases hz.answered fuel q.context with ⟨v', r', hv, htold, hall⟩ | ⟨hnothing, -⟩
          · obtain rfl : v = v' := Except.ok.inj (gives.symm.trans hv)
            obtain rfl := (htold r).1 tells
            -- the roll tells of itself when all else that its call records is there
            have hkept := (hz.quiet.tidy (tidy_answerWithin env fuel) q.context).1.length_le
            constructor <;> rw [place, Question.ended, hall, List.length_append]
            · exact hkept
            · exact List.getElem?_concat_length
          · exact absurd tells (hnothing v r gives)
  | @inside fuel _ _ c q path r asks rolled ih =>
      cases hq
      obtain ⟨q', path, rfl⟩ := List.exists_cons_of_ne_nil rolled.ne_nil
      obtain ⟨z, hz⟩ := q.call.exists_telling env
      have hreaches := hz.quiet.reaches (tidy_answerWithin env fuel) (hz.asks rolled.asks_head)
      have hinner := hreaches.records (ih rfl (hreaches.fueled (hz.fueled_iff.1 hfueled)))
      -- and what the call around it may tell at its end comes behind it
      have hless := (List.getElem?_eq_some_iff.1 hinner.2).1
      refine ⟨hinner.1, ?_⟩
      rw [place, Question.ended]
      rcases hz.answered fuel q.context with ⟨_, _, -, -, hall⟩ | ⟨-, hall⟩
      · rw [hall, List.getElem?_append_left hless, hinner.2]
      · rw [hall, hinner.2]

/-- An evaluation that asks for what another asks for, and is quiet, has the record, too. -/
theorem placed {z : Answer → Eval β} (h : Rolled env fuel x c path r) (hz : Quiet z)
    (hasks : ∀ q, Asks x (answerWithin env fuel) c q → Asks z (answerWithin env fuel) c q)
    (hfueled : Fueled (z (answerWithin env fuel) c).1) :
    c.descriptions.length ≤ place env fuel path ∧
      (z (answerWithin env fuel) c).2.descriptions[place env fuel path]? = some r := by
  obtain ⟨q, path, rfl⟩ := List.exists_cons_of_ne_nil h.ne_nil
  have hreaches := hz.reaches (tidy_answerWithin env fuel) (hasks q h.asks_head)
  exact hreaches.records (h.records rfl (hreaches.fueled hfueled))

/-- The record of a roll stands behind those of the rolls inside it. -/
theorem place_lt {v : q.α} {r' : Description}
    (h : Rolled env fuel (fun a => answerOnce env a q.call) q.context path r')
    (gives : (answerWithin env (fuel + 1) q.call q.context).1 = .ok v)
    (tells : q.call.Tells env q.context v r) : place env fuel path < place env (fuel + 1) [q] := by
  obtain ⟨z, hz⟩ := q.call.exists_telling env
  have hfueled : Fueled (answerWithin env (fuel + 1) q.call q.context).1 := by
    rw [gives]
    exact nofun
  have hplaced := (h.placed hz.quiet (fun _ => hz.asks) (hz.fueled_iff.1 hfueled)).2
  rw [place, Question.ended]
  rcases hz.answered fuel q.context with ⟨_, _, -, -, hall⟩ | ⟨hnothing, -⟩
  · rw [hall, List.length_append]
    exact (List.getElem?_eq_some_iff.1 hplaced).1
  · exact absurd tells (hnothing v r gives)

/-- No two questions are answered while a roll is recorded that is inside both. -/
theorem head_unique {z : Answer → Eval β} {path' : List Question} {q' : Question} {r' : Description}
    (h : Rolled env fuel x c (q :: path) r) (h' : Rolled env fuel x c (q' :: path') r')
    (hz : Quiet z)
    (hasks : ∀ q, Asks x (answerWithin env fuel) c q → Asks z (answerWithin env fuel) c q)
    (hfueled : Fueled (z (answerWithin env fuel) c).1)
    (hplace : place env fuel (q' :: path') = place env fuel (q :: path)) : q = q' := by
  have ha := tidy_answerWithin env fuel
  have hq := hasks q h.asks_head
  have hq' := hasks q' h'.asks_head
  have hrecords := h.records rfl ((hz.reaches ha hq).fueled hfueled)
  have hrecords' := h'.records rfl ((hz.reaches ha hq').fueled hfueled)
  rw [hplace] at hrecords'
  exact hz.spans_unique ha hfueled ((hz.asks_iff ha hfueled).1 hq) ((hz.asks_iff ha hfueled).1 hq')
    hrecords.spans hrecords'.spans

/-- No two rolls have their records at one place. -/
theorem unique {z : Answer → Eval β} {path' : List Question} {r' : Description}
    (h : Rolled env fuel x c path r) (h' : Rolled env fuel x c path' r') (hz : Quiet z)
    (hasks : ∀ q, Asks x (answerWithin env fuel) c q → Asks z (answerWithin env fuel) c q)
    (hfueled : Fueled (z (answerWithin env fuel) c).1)
    (hplace : place env fuel path' = place env fuel path) : path' = path := by
  induction h generalizing β path' r' with
  | @asked fuel _ _ c q v r asks gives tells =>
      obtain ⟨q', path', rfl⟩ := List.exists_cons_of_ne_nil h'.ne_nil
      obtain rfl := (Rolled.asked asks gives tells).head_unique h' hz hasks hfueled hplace
      cases h' with
      | asked => rfl
      | inside _ rolled' =>
          obtain ⟨q', path', rfl⟩ := List.exists_cons_of_ne_nil rolled'.ne_nil
          exact absurd hplace (rolled'.place_lt gives tells).ne
  | @inside fuel _ _ c q path r asks rolled ih =>
      obtain ⟨q', path', rfl⟩ := List.exists_cons_of_ne_nil h'.ne_nil
      obtain rfl := (Rolled.inside asks rolled).head_unique h' hz hasks hfueled hplace
      obtain ⟨q'', path, rfl⟩ := List.exists_cons_of_ne_nil rolled.ne_nil
      cases h' with
      | asked _ gives' tells' => exact absurd hplace (rolled.place_lt gives' tells').ne'
      | inside _ rolled' =>
          obtain ⟨z', hz'⟩ := q.call.exists_telling env
          have hanswered := (hz.reaches (tidy_answerWithin env _) (hasks q asks)).fueled hfueled
          obtain ⟨q₁, path', rfl⟩ := List.exists_cons_of_ne_nil rolled'.ne_nil
          exact congrArg (q :: ·)
            (ih rolled' hz'.quiet (fun _ => hz'.asks) (hz'.fueled_iff.1 hanswered) hplace)

/-- Whatever an evaluation records is the record of a roll. -/
theorem exists_rolled {z : Answer → Eval β} {i : Nat} (hz : Quiet z)
    (hfueled : Fueled (z (answerWithin env fuel) c).1) (hbegun : c.descriptions.length ≤ i)
    (hended : i < (z (answerWithin env fuel) c).2.descriptions.length) :
    ∃ path r, Rolled env fuel z c path r ∧ place env fuel path = i := by
  induction fuel generalizing β c with
  | zero =>
      obtain ⟨q, -, hspans⟩ := hz.exists_spans (tidy_answerWithin env 0) hbegun hended
      have hnothing := hspans.ended
      rw [Question.ended, answerWithin_zero] at hnothing
      exact absurd hnothing (Nat.not_lt.2 hspans.begun)
  | succ fuel ih =>
      have ha := tidy_answerWithin env (fuel + 1)
      obtain ⟨q, hout, hspans⟩ := hz.exists_spans ha hbegun hended
      have hasks := (hz.asks_iff ha hfueled).2 hout
      have hanswered := (hz.reaches ha hasks).fueled hfueled
      obtain ⟨z', hz'⟩ := q.call.exists_telling env
      have hinner := hz'.fueled_iff.1 hanswered
      -- recorded inside the answer to the call, or by the call itself at the end of its answer
      by_cases hearly : i < (z' (answerWithin env fuel) q.context).2.descriptions.length
      · obtain ⟨path, r, hrolled, hplace⟩ := ih hz'.quiet hinner hspans.begun hearly
        have hrolled' : Rolled env fuel (fun a => answerOnce env a q.call) q.context path r :=
          hrolled.imp fun _ => hz'.asks_of_fueled (tidy_answerWithin env fuel) hinner
        obtain ⟨q', path, rfl⟩ := List.exists_cons_of_ne_nil hrolled.ne_nil
        exact ⟨q :: q' :: path, r, .inside hasks hrolled', hplace⟩
      · have hlate := hspans.ended
        rw [Question.ended] at hlate
        rcases hz'.answered fuel q.context with ⟨v, r, hv, htold, hall⟩ | ⟨-, hall⟩
        · rw [hall, List.length_append, List.length_singleton] at hlate
          refine ⟨[q], r, .asked hasks hv ((htold r).2 rfl), ?_⟩
          rw [place, Question.ended, hall, List.length_append, List.length_singleton]
          omega
        · rw [hall] at hlate
          exact absurd hlate hearly

end Eval.Rolled

/-! ## All that is recorded -/

namespace Quiet

variable {env : Surroundings} {fuel : Nat} {α : Type} {x : Answer → Eval α} {c : Context}

/-- The completed rolls of described entries in the course of a quiet evaluation, in the order of
their records. -/
theorem exists_recorded (hx : Quiet x) (hc : c.descriptions = [])
    (hfueled : Fueled (x (Eval.answerWithin env fuel) c).1) :
    ∃ rolls : List (List Question × Description),
      (∀ path r, (path, r) ∈ rolls ↔ Eval.Rolled env fuel x c path r) ∧
      rolls.Pairwise (fun p q => p.1 ≠ q.1) ∧
      rolls.map Prod.snd = (x (Eval.answerWithin env fuel) c).2.descriptions := by
  generalize hall : (x (Eval.answerWithin env fuel) c).2.descriptions = all
  have hplaced : ∀ {path r}, Eval.Rolled env fuel x c path r →
      all[Eval.place env fuel path]? = some r := fun h =>
    hall ▸ (h.placed hx (fun _ => id) hfueled).2
  have hrolled : ∀ i : Fin all.length, ∃ path r, Eval.Rolled env fuel x c path r ∧
      Eval.place env fuel path = i := fun i =>
    Eval.Rolled.exists_rolled hx hfueled (hc ▸ Nat.zero_le _) (hall ▸ i.isLt)
  -- one roll for each record, and each roll has only one place among the records
  choose path record hrolled hplace using hrolled
  have hrecord : ∀ i : Fin all.length, record i = all[i] := fun i =>
    Option.some.inj ((hplaced (hrolled i)).symm.trans
      ((congrArg (all[·]?) (hplace i)).trans (List.getElem?_eq_getElem i.isLt)))
  refine ⟨List.ofFn fun i => (path i, record i), fun p r => ?_, ?_, ?_⟩
  · rw [List.mem_ofFn]
    constructor
    · rintro ⟨i, hi⟩
      cases hi
      exact hrolled i
    · intro h
      obtain ⟨hless, hr⟩ := List.getElem?_eq_some_iff.1 (hplaced h)
      let i : Fin all.length := ⟨Eval.place env fuel p, hless⟩
      have hpath : path i = p := h.unique (hrolled i) hx (fun _ => id) hfueled (hplace i)
      exact ⟨i, Prod.ext hpath ((hrecord i).trans hr)⟩
  · rw [List.pairwise_ofFn]
    intro i j hless hsame
    have hplaces := congrArg (Eval.place env fuel) hsame
    rw [hplace, hplace] at hplaces
    exact absurd (Fin.ext hplaces) hless.ne
  · rw [List.map_ofFn]
    exact (congrArg List.ofFn (funext hrecord)).trans List.ofFn_getElem

/-- They can be listed so that no roll comes before one that it is inside of: in the order that
descriptions are returned in. -/
theorem exists_rolls (hx : Quiet x) (hc : c.descriptions = [])
    (hfueled : Fueled (x (Eval.answerWithin env fuel) c).1) :
    ∃ rolls : List (List Question × Description),
      (∀ path r, (path, r) ∈ rolls ↔ Eval.Rolled env fuel x c path r) ∧
      rolls.Pairwise (fun p q => ¬ q.1 <+: p.1) ∧
      rolls.map Prod.snd = (x (Eval.answerWithin env fuel) c).2.descriptionsInOrder := by
  obtain ⟨rolls, hmem, hdistinct, hrecords⟩ := hx.exists_recorded hc hfueled
  let before (p q : List Question × Description) : Bool := p.2.depth ≤ q.2.depth
  have hperm : (rolls.mergeSort before).Perm rolls := List.mergeSort_perm rolls before
  refine ⟨rolls.mergeSort before, fun path r => hperm.mem_iff.trans (hmem path r), ?_, ?_⟩
  · have hdistinct := hdistinct.perm hperm.symm Ne.symm
    have hsorted : (rolls.mergeSort before).Pairwise fun p q => before p q = true := by
      apply List.pairwise_mergeSort <;> simp only [before, Bool.or_eq_true, decide_eq_true_eq]
      · exact fun _ _ _ => Nat.le_trans
      · exact fun _ _ => Nat.le_total _ _
    -- a roll inside another one would be deeper than that one, and the list is sorted by depth
    refine (hdistinct.and hsorted).imp_of_mem fun {p q} hp hq ⟨hne, hle⟩ hinside => ?_
    obtain ⟨rest, hrest⟩ := hinside
    have hrolled := (hmem _ _).1 (hperm.mem_iff.1 hp)
    rw [← hrest] at hrolled
    have hdeeper := ((hmem _ _).1 (hperm.mem_iff.1 hq)).deeper hrolled fun hnil =>
      hne (by rw [← hrest, hnil, List.append_nil])
    exact absurd (of_decide_eq_true hle) (Nat.not_le.2 hdeeper)
  · have hsort : (rolls.mergeSort before).map Prod.snd =
        (rolls.map Prod.snd).mergeSort fun a b => a.depth ≤ b.depth :=
      List.map_mergeSort fun _ _ _ _ => rfl
    rw [hsort, hrecords]
    rfl

end Quiet

end RandomTables
