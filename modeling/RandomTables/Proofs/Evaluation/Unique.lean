-- SUMMARY: What draws without replacement give where each roll takes a key that is left, if there is one.
import Mathlib.Data.List.Nodup
import Mathlib.Data.List.Perm.Subperm
import RandomTables.Evaluation.Roll
import RandomTables.Proofs.Evaluation.Monad

/-!
# Draws without replacement

A draw of unique entries excludes the keys that it has taken. Under one policy it takes all keys to
be left again when it finds none; what it takes then goes round in laps, each of which takes every
key once. Where each roll takes a key that is left if there is one, and is exhausted otherwise, the
number of outcomes, and which keys they have, follow for every policy.
-/
namespace RandomTables

/-! ## Laps -/

/-- Keys taken one after another, after those taken in the lap so far. A lap ends when all keys are
taken. -/
inductive Laps (keys : List String) : List String → List String → Prop where
  | nil (taken : List String) : Laps keys taken []
  | next {taken rest : List String} {key : String} (hkey : key ∈ keys) (hleft : key ∉ taken)
    (hrest : Laps keys (key :: taken) rest) : Laps keys taken (key :: rest)
  | anew {taken rest : List String} {key : String} (hkey : key ∈ keys)
    (hall : ∀ key ∈ keys, key ∈ taken) (hrest : Laps keys [key] rest) :
    Laps keys taken (key :: rest)

/-- Keys that were taken once each, all of them among the keys. -/
structure TakenFrom (keys taken : List String) : Prop where
  once : taken.Nodup
  among : ∀ key ∈ taken, key ∈ keys

namespace TakenFrom

variable {keys taken : List String}

theorem nil (keys : List String) : TakenFrom keys [] :=
  ⟨List.nodup_nil, fun _ h => absurd h List.not_mem_nil⟩

theorem cons (h : TakenFrom keys taken) {key : String} (hkey : key ∈ keys) (hleft : key ∉ taken) :
    TakenFrom keys (key :: taken) :=
  ⟨List.nodup_cons.2 ⟨hleft, h.once⟩, List.forall_mem_cons.2 ⟨hkey, h.among⟩⟩

theorem of_reverse (h : TakenFrom keys taken.reverse) : TakenFrom keys taken :=
  ⟨List.nodup_reverse.1 h.once, fun key hkey => h.among key (List.mem_reverse.2 hkey)⟩

theorem length_le (h : TakenFrom keys taken) : taken.length ≤ keys.length :=
  (h.once.subperm h.among).length_le

theorem perm_of_length (h : TakenFrom keys taken) (hlength : keys.length ≤ taken.length) :
    taken.Perm keys := (h.once.subperm h.among).perm_of_length_le hlength

/-- A key is left exactly as long as fewer keys were taken than there are. -/
theorem exists_left_iff (hkeys : keys.Nodup) (h : TakenFrom keys taken) :
    (∃ key ∈ keys, key ∉ taken) ↔ taken.length < keys.length := by
  constructor
  · rintro ⟨key, hkey, hleft⟩
    exact (h.cons hkey hleft).length_le
  · intro hless
    by_contra hnone
    have hall : TakenFrom taken keys :=
      ⟨hkeys, fun key hkey => by_contra fun hleft => hnone ⟨key, hkey, hleft⟩⟩
    exact absurd hall.length_le (Nat.not_le.2 hless)

end TakenFrom

namespace Laps

variable {keys taken ks : List String}

/-- When all keys are taken, it goes on as if none was. -/
theorem restart (h : Laps keys taken ks) (hall : ∀ key ∈ keys, key ∈ taken) : Laps keys [] ks := by
  cases h with
  | nil => exact .nil []
  | next hkey hleft _ => exact absurd (hall _ hkey) hleft
  | anew hkey _ hrest => exact .next hkey List.not_mem_nil hrest

/-- The rest of a lap takes keys that are left, once each. -/
theorem takenFrom (hkeys : keys.Nodup) (h : Laps keys taken ks) (htaken : TakenFrom keys taken)
    {n : Nat} (hn : taken.length + n ≤ keys.length) :
    TakenFrom keys ((ks.take n).reverse ++ taken) := by
  induction n generalizing taken ks with
  | zero => exact htaken
  | succ n ih =>
      cases h with
      | nil => exact htaken
      | @next _ rest key hkey hleft hrest =>
          have hcount : (key :: taken).length + n ≤ keys.length := by
            rw [List.length_cons]
            omega
          rw [List.take_succ_cons, List.reverse_cons, List.append_assoc]
          exact ih hrest (htaken.cons hkey hleft) hcount
      | anew _ hall _ =>
          obtain ⟨key, hkey, hleft⟩ := (htaken.exists_left_iff hkeys).2 (by omega)
          exact absurd (hall key hkey) hleft

/-- After the rest of a lap it goes on as if no key was taken. -/
theorem after (hkeys : keys.Nodup) (h : Laps keys taken ks) (htaken : TakenFrom keys taken) {n : Nat}
    (hn : taken.length + n = keys.length) : Laps keys [] (ks.drop n) := by
  induction n generalizing taken ks with
  | zero =>
      have hperm := htaken.perm_of_length (by omega)
      exact h.restart fun key hkey => hperm.mem_iff.2 hkey
  | succ n ih =>
      cases h with
      | nil => exact .nil []
      | next hkey hleft hrest =>
          exact ih hrest (htaken.cons hkey hleft) (by rw [List.length_cons]; omega)
      | anew _ hall _ =>
          obtain ⟨key, hkey, hleft⟩ := (htaken.exists_left_iff hkeys).2 (by omega)
          exact absurd (hall key hkey) hleft

/-- A lap takes no key twice. -/
theorem lap (hkeys : keys.Nodup) (h : Laps keys [] ks) (lap : Nat) :
    TakenFrom keys ((ks.drop (lap * keys.length)).take keys.length) := by
  induction lap generalizing ks with
  | zero =>
      have htaken := h.takenFrom hkeys (.nil keys) (Nat.le_of_eq (Nat.zero_add _))
      rw [List.append_nil] at htaken
      rw [Nat.zero_mul, List.drop_zero]
      exact htaken.of_reverse
  | succ lap ih =>
      have hlater := ih (h.after hkeys (.nil keys) (Nat.zero_add _))
      rwa [List.drop_drop, Nat.add_comm, ← Nat.succ_mul] at hlater

/-- A lap that was completed took every key. -/
theorem perm (hkeys : keys.Nodup) (h : Laps keys [] ks) (lap : Nat)
    (hlength : (lap + 1) * keys.length ≤ ks.length) :
    ((ks.drop (lap * keys.length)).take keys.length).Perm keys := by
  refine (h.lap hkeys lap).perm_of_length ?_
  rw [Nat.succ_mul] at hlength
  rw [List.length_take, List.length_drop]
  omega

end Laps

/-! ## Rolls without replacement -/

namespace Eval

variable {roll : List String → Eval Outcome} {start c : Context} {used : List String}

/-- The exclusions and states in which a draw of unique entries makes its rolls. -/
inductive Comes (roll : List String → Eval Outcome) (start : Context) :
    List String → Context → Prop where
  | start : Comes roll start [] start
  | drawn {used : List String} {c c' : Context} {o : Outcome} (h : Comes roll start used c)
    (hroll : roll used c = (.ok o, c')) : Comes roll start (keysOf o ++ used) c'
  /-- Nothing is excluded any more once nothing was left. -/
  | cleared {used : List String} {c c' : Context} (h : Comes roll start used c) (hused : used ≠ [])
    (hroll : unlessExhausted (roll used) c = (.ok none, c')) : Comes roll start [] c'

/-- An outcome of the entry with a key. -/
structure Bears (o : Outcome) (key : String) : Prop where
  excluding : o.key = some key
  naming : o.entryId = some key

/-- A roll takes a key that is left. -/
def Takes (keys used : List String) (o : Outcome) : Prop :=
  ∃ key ∈ keys, key ∉ used ∧ Bears o key

/-- Outcomes of the entries with the given keys. -/
abbrev Keyed (outcomes : List Outcome) (ks : List String) : Prop := List.Forall₂ Bears outcomes ks

theorem Keyed.entryIds {outcomes : List Outcome} {ks : List String} (h : Keyed outcomes ks) :
    outcomes.map (·.entryId) = ks.map some := by
  induction h with
  | nil => rfl
  | cons ho _ ih => rw [List.map_cons, List.map_cons, ho.naming, ih]

theorem Bears.keysOf {o : Outcome} {key : String} (h : Bears o key) (hkey : key ≠ "") :
    keysOf o = [key] := by
  have hempty : ¬ key.isEmpty = true := by simpa using hkey
  rw [Eval.keysOf, h.excluding]
  dsimp only
  rw [if_neg hempty]

theorem unlessExhausted_of_ok {x : Eval Outcome} {c c' : Context} {o : Outcome}
    (h : x c = (.ok o, c')) : unlessExhausted x c = (.ok (some o), c') := by
  rw [unlessExhausted, Computation.tryCatch_apply, Computation.map_apply, h]
  rfl

/-- Turning an exhaustion into no outcome changes nothing else. -/
theorem unlessExhausted_snd (x : Eval Outcome) (c : Context) :
    (unlessExhausted x c).2 = (x c).2 := by
  rw [unlessExhausted, Computation.tryCatch_apply, Computation.map_apply]
  rcases x c with ⟨f | o, c'⟩
  · dsimp only [Except.map]
    split
    · split <;> rfl
    · rfl
  · rfl

/-- A failure that tells that exclusions left nothing is no outcome. -/
theorem unlessExhausted_of_error {x : Eval Outcome} {c c' : Context} {e : SelectionFailure}
    (h : x c = (.error (.selection e), c')) (he : e.isExhaustion = true) :
    unlessExhausted x c = (.ok none, c') := by
  rw [unlessExhausted, Computation.tryCatch_apply, Computation.map_apply, h]
  change (if e.isExhaustion = true then Pure.pure none else throw _ : Eval (Option Outcome)) c' = _
  rw [if_pos he]
  rfl

/-- What every roll keeps holds wherever a roll is made. -/
theorem Comes.keeps {P : Context → Prop} (hroll : ∀ used c, P c → P (roll used c).2)
    (h : Comes roll start used c) (hstart : P start) : P c := by
  induction h with
  | start => exact hstart
  | @drawn used c c' o _ hrun ih =>
      have hleft := hroll used c ih
      rwa [hrun] at hleft
  | @cleared used c c' _ _ hrun ih =>
      have hleft := hroll used c ih
      rwa [← unlessExhausted_snd, hrun] at hleft

/-! ## Draws until nothing is left -/

/-- Rolls that take a key that is left if they have an outcome, and are exhausted otherwise. -/
structure Sound (roll : List String → Eval Outcome) (start : Context) (keys : List String) : Prop where
  named : "" ∉ keys
  takes : ∀ used c o c', Comes roll start used c → roll used c = (.ok o, c') → Takes keys used o
  fails : ∀ used c f c', Comes roll start used c → roll used c = (.error f, c') →
    unlessExhausted (roll used) c = (.ok none, c')

/-- A roll that is made with these exclusions is exhausted. -/
def Spent (roll : List String → Eval Outcome) (start : Context) (used : List String) : Prop :=
  ∃ c c', Comes roll start used c ∧ unlessExhausted (roll used) c = (.ok none, c')

namespace Sound

variable {env : Surroundings} {answer : Answer} {target : Target} {keys : List String}
  (h : Sound (fun used => answer (.roll target used)) start keys) (ref : String) (count : Nat)
include h

variable (env) in
/-- A roll that has an outcome takes one more key. -/
theorem step (hc : Comes (fun used => answer (.roll target used)) start used c) {o : Outcome}
    {c' : Context} (hroll : answer (.roll target used) c = (.ok o, c')) (n : Nat)
    (done : List Outcome) :
    ∃ key ∈ keys, key ∉ used ∧ Bears o key ∧
      Comes (fun used => answer (.roll target used)) start (key :: used) c' ∧
      rollUnique env answer target ref count (n + 1) used done c =
        rollUnique env answer target ref count n (key :: used) (o :: done) c' := by
  obtain ⟨key, hkey, hleft, ho⟩ := h.takes used c o c' hc hroll
  have hkeys : keysOf o = [key] := ho.keysOf fun hempty => h.named (hempty ▸ hkey)
  have hnext := hc.drawn hroll
  rw [hkeys] at hnext
  refine ⟨key, hkey, hleft, ho, hnext, ?_⟩
  rw [rollUnique, Computation.bind_apply, unlessExhausted_of_ok hroll]
  dsimp only
  rw [hkeys]
  rfl

variable (env) in
/-- Each roll takes another key until the count is reached or a roll is exhausted. -/
theorem run (hc : Comes (fun used => answer (.roll target used)) start used c)
    (hused : TakenFrom keys used) (n : Nat) (done : List Outcome) :
    ∃ outcomes ks, Keyed outcomes ks ∧ TakenFrom keys (ks.reverse ++ used) ∧
      ((ks.length = n ∧ ∃ c', rollUnique env answer target ref count n used done c =
          (.ok (done.reverse ++ outcomes), c')) ∨
        ∃ m c₁ c', ks.length + (m + 1) = n ∧
          Comes (fun used => answer (.roll target used)) start (ks.reverse ++ used) c₁ ∧
          unlessExhausted (answer (.roll target (ks.reverse ++ used))) c₁ = (.ok none, c') ∧
          rollUnique env answer target ref count n used done c =
            rollUnique env answer target ref count (m + 1) (ks.reverse ++ used)
              (outcomes.reverse ++ done) c₁) := by
  induction n generalizing used done c with
  | zero =>
      refine ⟨[], [], .nil, hused, .inl ⟨rfl, c, ?_⟩⟩
      rw [rollUnique, List.append_nil]
      rfl
  | succ n ih =>
      rcases hroll : answer (.roll target used) c with ⟨f | o, c₁⟩
      · exact ⟨[], [], .nil, hused,
          .inr ⟨n, c, c₁, Nat.zero_add _, hc, h.fails used c f c₁ hc hroll, rfl⟩⟩
      · obtain ⟨key, hkey, hleft, ho, hnext, hstep⟩ := h.step env ref count hc hroll n done
        obtain ⟨outcomes, ks, hkeyed, htaken, hend⟩ :=
          ih hnext (hused.cons hkey hleft) (o :: done)
        refine ⟨o :: outcomes, key :: ks, .cons ho hkeyed, ?_, ?_⟩
        · rwa [List.reverse_cons, List.append_assoc]
        · simp only [List.reverse_cons, List.append_assoc, List.singleton_append, List.length_cons]
            at hend ⊢
          rw [hstep]
          rcases hend with ⟨hlength, hrun⟩ | ⟨m, c₂, c', hlength, hend⟩
          · exact .inl ⟨congrArg Nat.succ hlength, hrun⟩
          · exact .inr ⟨m, c₂, c', by omega, hend⟩

/-- A draw that stops has outcomes of different keys, and fewer than it was asked for only where a
roll is exhausted. -/
theorem stops (hpolicy : env.config.uniqueOverflow = .stop) :
    ∃ outcomes ks, (rollUnique env answer target ref count count [] [] start).1 = .ok outcomes ∧
      Keyed outcomes ks ∧ TakenFrom keys ks ∧ ks.length ≤ count ∧
      (ks.length < count → Spent (fun used => answer (.roll target used)) start ks.reverse) := by
  obtain ⟨outcomes, ks, hkeyed, htaken, hend⟩ := h.run env ref count .start (.nil keys) count []
  rw [List.append_nil] at htaken
  refine ⟨outcomes, ks, ?_, hkeyed, htaken.of_reverse, ?_⟩
  · rcases hend with ⟨-, c', hrun⟩ | ⟨m, c₁, c', -, -, hexhausted, hrun⟩
    · exact congrArg Prod.fst hrun
    · have hdone : (outcomes.reverse ++ []).reverse = outcomes := by
        rw [List.append_nil, List.reverse_reverse]
      rw [hrun, rollUnique, Computation.bind_apply, hexhausted, hpolicy]
      exact congrArg Except.ok hdone
  · rcases hend with ⟨hlength, -⟩ | ⟨m, c₁, c', hlength, hcomes, hexhausted, -⟩
    · exact ⟨Nat.le_of_eq hlength, fun hless => absurd hlength (Nat.ne_of_lt hless)⟩
    · rw [List.append_nil] at hcomes hexhausted
      exact ⟨by omega, fun _ => ⟨c₁, c', hcomes, hexhausted⟩⟩

/-- A draw that has to be complete has as many outcomes of different keys as it was asked for, or
fails where a roll is exhausted. -/
theorem errors (hpolicy : env.config.uniqueOverflow = .error) :
    ∃ outcomes ks, Keyed outcomes ks ∧ TakenFrom keys ks ∧
      ((ks.length = count ∧
          (rollUnique env answer target ref count count [] [] start).1 = .ok outcomes) ∨
        (ks.length < count ∧
          Spent (fun used => answer (.roll target used)) start ks.reverse ∧
          (rollUnique env answer target ref count count [] [] start).1 =
            .error (.selection (.tooFewUnique count ref ks.length)))) := by
  obtain ⟨outcomes, ks, hkeyed, htaken, hend⟩ := h.run env ref count .start (.nil keys) count []
  rw [List.append_nil] at htaken
  refine ⟨outcomes, ks, hkeyed, htaken.of_reverse, ?_⟩
  rcases hend with ⟨hlength, c', hrun⟩ | ⟨m, c₁, c', hlength, hcomes, hexhausted, hrun⟩
  · exact .inl ⟨hlength, congrArg Prod.fst hrun⟩
  · have hdone : (outcomes.reverse ++ []).length = ks.length := by
      rw [List.append_nil, List.length_reverse, hkeyed.length_eq]
    refine .inr ⟨by omega, ?_, ?_⟩
    · rw [List.append_nil] at hcomes hexhausted
      exact ⟨c₁, c', hcomes, hexhausted⟩
    · rw [hrun, rollUnique, Computation.bind_apply, hexhausted, hpolicy, hdone]
      rfl

end Sound

/-! ## Draws that leave nothing out -/

/-- Rolls that take a key that is left as long as there is one, and are exhausted otherwise. -/
structure Exact (roll : List String → Eval Outcome) (start : Context) (keys : List String) : Prop
    extends Sound roll start keys where
  nodup : keys.Nodup
  ne_nil : keys ≠ []
  gives : ∀ used c, Comes roll start used c → (∃ key ∈ keys, key ∉ used) →
    ∃ o, (roll used c).1 = .ok o

namespace Exact

/-- Nothing is left where a roll is exhausted. -/
theorem all_of_spent {roll : List String → Eval Outcome} {keys : List String}
    (h : Exact roll start keys) (hspent : Spent roll start used) : ∀ key ∈ keys, key ∈ used := by
  obtain ⟨c, c', hc, hexhausted⟩ := hspent
  intro key hkey
  by_contra hleft
  obtain ⟨o, ho⟩ := h.gives used c hc ⟨key, hkey, hleft⟩
  rw [unlessExhausted_of_ok (Prod.ext ho rfl)] at hexhausted
  cases hexhausted

/-- All keys were taken where a roll is exhausted. -/
theorem length_of_spent {roll : List String → Eval Outcome} {keys ks : List String}
    (h : Exact roll start keys) (htaken : TakenFrom keys ks) (hspent : Spent roll start ks.reverse) :
    ks.length = keys.length := by
  refine Nat.le_antisymm htaken.length_le (Nat.le_of_not_lt fun hless => ?_)
  obtain ⟨key, hkey, hleft⟩ := (htaken.exists_left_iff h.nodup).2 hless
  exact hleft (List.mem_reverse.1 (h.all_of_spent hspent key hkey))

variable {env : Surroundings} {answer : Answer} {target : Target} {keys : List String}
  (h : Exact (fun used => answer (.roll target used)) start keys) (ref : String) (count : Nat)
include h

/-- A draw that stops takes as many keys as there are, up to the count. -/
theorem takes_min (hpolicy : env.config.uniqueOverflow = .stop) :
    ∃ outcomes ks, (rollUnique env answer target ref count count [] [] start).1 = .ok outcomes ∧
      Keyed outcomes ks ∧ TakenFrom keys ks ∧ ks.length = min count keys.length := by
  obtain ⟨outcomes, ks, hrun, hkeyed, htaken, hle, hspent⟩ := h.stops ref count hpolicy
  refine ⟨outcomes, ks, hrun, hkeyed, htaken, ?_⟩
  have hkeys := htaken.length_le
  by_cases hless : ks.length < count
  · have hall := h.length_of_spent htaken (hspent hless)
    omega
  · omega

/-- A draw that has to be complete fails if there are too few keys, and only then. -/
theorem takes_all (hpolicy : env.config.uniqueOverflow = .error) :
    (count ≤ keys.length → ∃ outcomes ks,
      (rollUnique env answer target ref count count [] [] start).1 = .ok outcomes ∧
      Keyed outcomes ks ∧ TakenFrom keys ks ∧ ks.length = count) ∧
    (keys.length < count → (rollUnique env answer target ref count count [] [] start).1 =
      .error (.selection (.tooFewUnique count ref keys.length))) := by
  obtain ⟨outcomes, ks, hkeyed, htaken, hend⟩ := h.errors ref count hpolicy
  have hkeys := htaken.length_le
  rcases hend with ⟨hlength, hrun⟩ | ⟨hless, hspent, hrun⟩
  · exact ⟨fun _ => ⟨outcomes, ks, hrun, hkeyed, htaken, hlength⟩, fun hfew => by omega⟩
  · have hall := h.length_of_spent htaken hspent
    exact ⟨fun henough => by omega, fun _ => hall ▸ hrun⟩

/-- A draw that goes on takes keys in laps. -/
theorem cycles (hpolicy : env.config.uniqueOverflow = .cycle)
    (hc : Comes (fun used => answer (.roll target used)) start used c)
    (hused : TakenFrom keys used) (n : Nat) (done : List Outcome) :
    ∃ outcomes ks c', rollUnique env answer target ref count n used done c =
        (.ok (done.reverse ++ outcomes), c') ∧
      Keyed outcomes ks ∧ ks.length = n ∧ Laps keys used ks := by
  induction n generalizing used done c with
  | zero => exact ⟨[], [], c, by rw [rollUnique, List.append_nil]; rfl, .nil, rfl, .nil used⟩
  | succ n ih =>
      have hadd : ∀ (o : Outcome) (outcomes : List Outcome),
          (o :: done).reverse ++ outcomes = done.reverse ++ o :: outcomes := fun o outcomes => by
        rw [List.reverse_cons, List.append_assoc, List.singleton_append]
      rcases hroll : answer (.roll target used) c with ⟨f | o, c₁⟩
      · have hexhausted := h.fails used c f c₁ hc hroll
        have hall := h.all_of_spent ⟨c, c₁, hc, hexhausted⟩
        obtain ⟨first, hfirst⟩ := List.exists_mem_of_ne_nil keys h.ne_nil
        have hsome : used ≠ [] := List.ne_nil_of_mem (hall first hfirst)
        have hcleared := hc.cleared hsome hexhausted
        obtain ⟨o, ho⟩ := h.gives [] c₁ hcleared ⟨first, hfirst, List.not_mem_nil⟩
        rcases hagain : answer (.roll target []) c₁ with ⟨result, c₂⟩
        obtain rfl : result = .ok o := (congrArg Prod.fst hagain).symm.trans ho
        obtain ⟨key, hkey, hnew, ho, hnext, -⟩ := h.step env ref count hcleared hagain n done
        have hone : keysOf o = [key] := ho.keysOf fun hempty => h.named (hempty ▸ hkey)
        obtain ⟨outcomes, ks, c', hrest, hkeyed, hlength, hlaps⟩ :=
          ih hnext ((TakenFrom.nil keys).cons hkey hnew) (o :: done)
        refine ⟨o :: outcomes, key :: ks, c', ?_, .cons ho hkeyed, congrArg Nat.succ hlength,
          .anew hkey hall hlaps⟩
        have hempty : ¬ used.isEmpty = true := by simpa using hsome
        rw [← hadd, ← hrest, rollUnique, Computation.bind_apply, hexhausted, hpolicy]
        dsimp only
        rw [if_neg hempty, Computation.bind_apply, unlessExhausted_of_ok hagain]
        dsimp only
        rw [hone]
      · obtain ⟨key, hkey, hnew, ho, hnext, hrun⟩ := h.step env ref count hc hroll n done
        obtain ⟨outcomes, ks, c', hrest, hkeyed, hlength, hlaps⟩ :=
          ih hnext (hused.cons hkey hnew) (o :: done)
        refine ⟨o :: outcomes, key :: ks, c', ?_, .cons ho hkeyed, congrArg Nat.succ hlength,
          .next hkey hnew hlaps⟩
        rw [hrun, hrest, hadd]

end Exact

end Eval

end RandomTables
