-- SUMMARY: Evaluations in which a failure raises an alarm, and that nothing silences it.
import RandomTables.Proofs.Evaluation.Budget

/-!
# Alarms

To tell whether an evaluation ever meets a failure, it is run with an alarm: the first call that fails
so ends everything, as no handler catches the alarm. Without it, the same evaluation ends with the
failure itself, unless it is caught on the way. Calculations catch parse errors, and conditions catch
resolution errors around their variables, so the failure passes where these read nothing but some
spared variables, in which no alarm is raised.
-/
namespace RandomTables

/-! ## Where failures pass -/

/-- An expression passes a failure if that is not caught, or can only come from spared variables. -/
def Reading.Passes (spared : List String) (f : Failure) (x : Reading) : Prop :=
  x.Catches f → x.Within (· ∈ spared)

/-- All expressions of a pattern pass a failure. -/
def PatternPasses (spared : List String) (f : Failure) (text : String) : Prop :=
  ∀ span ∈ Span.find text.toList, ∀ d, Directive.parse span.expression = .ok d →
    ∀ x ∈ d.readings, x.Passes spared f

/-- All expressions that the evaluation of a request may come to pass a failure. -/
structure Surroundings.Passes (env : Surroundings) (d : Document) (request : Request)
    (extra : Assoc String) (spared : List String) (f : Failure) : Prop where
  pattern : ∀ text, env.Writes request extra text → PatternPasses spared f text
  condition : ∀ c ∈ d.conditionals, ∀ e, Expr.parse c.condition.toList = .ok e →
    (Reading.condition e).Passes spared f

theorem patternPasses_empty {spared : List String} {f : Failure} : PatternPasses spared f "" := by
  intro span hspan
  have hnone : Span.find "".toList = [] := by cbv
  exact absurd (hnone ▸ hspan) List.not_mem_nil

/-! ## Evaluations with an alarm -/

namespace Eval

/-- An evaluation that raises the alarm in place of a failure: it claims to be out of fuel, which is
caught nowhere. -/
def alarmed (f : Failure) {α : Type} (x : Eval α) : Eval α :=
  tryCatch x fun g => throw (if g = f then .outOfFuel else g)

theorem alarmed_of_error {f g : Failure} {α : Type} {x : Eval α} {c c' : Context}
    (h : x c = (.error g, c')) :
    alarmed f x c = (.error (if g = f then .outOfFuel else g), c') := by
  rw [alarmed, Computation.tryCatch_apply, h]
  rfl

theorem alarmed_of_ok {f : Failure} {α : Type} {x : Eval α} {c c' : Context} {a : α}
    (h : x c = (.ok a, c')) : alarmed f x c = (.ok a, c') := by
  rw [alarmed, Computation.tryCatch_apply, h]

/-- The answers to calls of which each one raises the alarm, apart from those of spared variables. -/
def alarmedWithin (env : Surroundings) (f : Failure) (spared : List String) :
    Nat → {α : Type} → Call α → Eval α
  | 0, _, _ => throw .outOfFuel
  | fuel + 1, _, .shared owner collectionId d =>
    if d.name ∈ spared then answerWithin env (fuel + 1) (.shared owner collectionId d)
    else alarmed f (answerOnce env (alarmedWithin env f spared fuel) (.shared owner collectionId d))
  | fuel + 1, _, call => alarmed f (answerOnce env (alarmedWithin env f spared fuel) call)

section

variable {env : Surroundings} {f : Failure} {spared : List String} {fuel : Nat}
  {owner collectionId : String} {d : Declaration}

theorem alarmedWithin_of_spared (h : d.name ∈ spared) :
    alarmedWithin env f spared (fuel + 1) (.shared owner collectionId d) =
      answerWithin env (fuel + 1) (.shared owner collectionId d) := if_pos h

theorem alarmedWithin_of_not_spared (h : d.name ∉ spared) :
    alarmedWithin env f spared (fuel + 1) (.shared owner collectionId d) =
      alarmed f (answerOnce env (alarmedWithin env f spared fuel) (.shared owner collectionId d)) :=
  if_neg h

end

end Eval

/-- The material whose expressions pass a failure. -/
def Material.passing (spared : List String) (f : Failure) : Material where
  pattern := PatternPasses spared f
  name _ := True
  calculation _ := True
  reading := Reading.Passes spared f

/-- The variable that a name leads to has that name. -/
theorem SharedStore.name_of_pending {s : SharedStore} {name : String} {p : Pending}
    (h : s.find name = .pending p) : p.declaration.name = name := by
  obtain ⟨_, -, hfound⟩ := find_pending h
  have hfirst := List.find?_some hfound.declared
  exact of_decide_eq_true hfirst

namespace Simulation

/-- The simulation of an evaluation with an alarm by one without, where everything passes a failure.
What is tolerated is at most that the alarm is raised. -/
def passing (env : Surroundings) (spared : List String) (f : Failure)
    (tolerates : Failure → Option Failure → Prop) (lasting : ∀ f g, tolerates f none → tolerates f g) :
    Simulation where
  env
  registry := env.registry
  limit := env.config.maxRecursionDepth
  tracing := .same
  logged := True
  material := .passing spared f
  alike := fun _ t t' => t' = t
  remembers := fun u v => v = u ∧ (Material.passing spared f).Resolved u
  recalls := fun _ _ _ => True
  admits := fun _ => True
  tolerates
  lasting
  harbours := (· ∈ spared)
  descends := fun _ => True
  asking := fun _ => True
  begun := fun _ => True
  entered := fun _ => True

/-- The alarm in place of a failure. -/
def Alarms (f : Failure) (g : Failure) (h : Option Failure) : Prop := g = .outOfFuel ∧ h = some f

/-- The simulation in which the alarm is tolerated. -/
abbrev alarming (env : Surroundings) (spared : List String) (f : Failure) : Simulation :=
  passing env spared f (Alarms f) fun _ _ h => nomatch h.2

variable {env : Surroundings} {spared : List String} {f : Failure}
  {tolerates : Failure → Option Failure → Prop}
  {lasting : ∀ f g, tolerates f none → tolerates f g} {fuel : Nat}

section

variable (hr : (Material.passing spared f).Registry env.registry)
include hr

theorem alone_passing : (passing env spared f tolerates lasting).Alone
    (Material.passing spared f).Resolved fun _ _ _ => True :=
  ⟨rfl, trivial, fun _ _ _ => .rfl, fun _ _ => .rfl, rfl, Registry.upholds_material hr⟩

theorem lawful_passing (hf : ¬ f.Exhausts) (htolerates : ∀ g h, tolerates g h → Alarms f g h) :
    (passing env spared f tolerates lasting).Lawful where
  descends_of_asking _ h := h
  asking_of_begun _ h := h
  begun_of_entered _ h := h
  deeper _ _ _ _ := trivial
  scope _ _ _ _ _ _ _ _ _ _ _ := trivial
  assigned _ _ _ _ _ _ _ _ _ _ _ := trivial
  limit_le := Nat.le_refl _
  refused _ _ _ _ := .inr ⟨rfl, trivial⟩
  tolerated g h htol := .inl (htolerates g h htol).1
  exhausted g h htol := by
    obtain ⟨-, hfailed⟩ := htolerates g (some h) htol
    cases hfailed
    exact .inr hf
  reading x hx := by
    by_cases hcatches : x.Catches f
    · exact .inr (hx hcatches)
    · refine .inl fun g h htol => .inr ?_
      obtain ⟨-, hfailed⟩ := htolerates g (some h) htol
      cases hfailed
      exact hcatches
  ordinary _ _ := trivial
  aliased := (alone_passing hr).aliased
  static := (alone_passing hr).static
  found := (alone_passing hr).found
  inherits := (alone_passing hr).inherits fun _ _ => trivial
  directive _ htext span hspan :=
    ⟨fun d hd => ⟨fun _ _ => trivial, htext span hspan d hd⟩, fun _ _ => trivial⟩
  blank := patternPasses_empty
  calculation _ _ _ _ := trivial
  width _ _ _ _ _ _ := trivial

/-! ## Answers -/

/-- Without an alarm, nothing is tolerated. -/
theorem answers_unalarmed (hf : ¬ f.Exhausts) (fuel : Nat) :
    (passing env spared f (fun _ _ => False) fun _ _ => id).Answers (Eval.answerWithin env fuel)
      (Eval.answerWithin env fuel) := by
  have hS : (passing env spared f (fun _ _ => False) fun _ _ => id).Lawful :=
    lawful_passing hr hf fun _ _ => False.elim
  induction fuel with
  | zero =>
      exact ⟨fun _ _ _ _ _ => .throw trivial, fun _ _ _ _ => .throw trivial,
        fun _ _ _ _ => .throw trivial, fun _ _ _ _ _ => .throw trivial⟩
  | succ fuel ih =>
      have honce : (passing env spared f (fun _ _ => False) fun _ _ => id).Answers
          (Eval.answerOnce env (Eval.answerWithin env fuel))
          (Eval.answerOnce env (Eval.answerWithin env fuel)) :=
        Answers.once hS ih (fun _ h => h) (fun _ h => h) (fun _ _ _ h _ => h)
          fun _ _ _ _ hopen => Shares.once hS ih hopen fun _ _ => trivial
      exact ⟨honce.roll, honce.pattern, honce.shared, honce.harboured⟩

omit hr in
/-- The alarm takes the place of the failure. -/
theorem Yields.alarmed {α : Type} {P : α → Prop} {w : Nesting} {x y : Eval α}
    (h : (alarming env spared f).Yields w P x y) :
    (alarming env spared f).Yields w P (Eval.alarmed f x) y := by
  intro c d hm
  have hxy := h c d hm
  rcases hx : x c with ⟨g | a, c'⟩
  · rw [hx] at hxy
    rw [Eval.alarmed_of_error hx]
    rcases hxy with ⟨_, hg, rfl, hfailed⟩ | ⟨hsettled, hresult, hmatch⟩
    · cases hg
      exact .inl ⟨.outOfFuel, congrArg Except.error (ite_self _), rfl, hfailed⟩
    · by_cases hgf : g = f
      · subst hgf
        rw [if_pos rfl]
        exact .inl ⟨.outOfFuel, rfl, rfl, congrArg failed? hresult⟩
      · rw [if_neg hgf]
        exact .inr ⟨hsettled, hresult, hmatch⟩
  · rw [Eval.alarmed_of_ok hx, ← hx]
    exact hxy

theorem answers_alarmed (hf : ¬ f.Exhausts) (fuel : Nat) :
    (alarming env spared f).Answers (Eval.alarmedWithin env f spared fuel)
      (Eval.answerWithin env fuel) := by
  have hS : (alarming env spared f).Lawful := lawful_passing hr hf fun _ _ h => h
  induction fuel with
  | zero =>
      exact ⟨fun _ _ _ _ _ => .throw trivial, fun _ _ _ _ => .throw trivial,
        fun _ _ _ _ => .throw trivial, fun _ _ _ _ _ => .throw trivial⟩
  | succ fuel ih =>
      have hself : (passing env spared f (fun _ _ => False) fun _ _ => id).Answers
          (Eval.answerWithin env (fuel + 1)) (Eval.answerWithin env (fuel + 1)) :=
        answers_unalarmed hr hf (fuel + 1)
      refine ⟨fun target target' excluded hw ht => .alarmed (Yields.roll hS ih hw ht excluded),
        fun text collectionId hw ht => .alarmed (Yields.evalPattern hS ih hw ht collectionId),
        fun name hw p hfind => ?_, fun name hname hw p hfind => ?_⟩
      · dsimp only
        by_cases hname : p.declaration.name ∈ spared
        · rw [Eval.alarmedWithin_of_spared hname]
          exact .of_strict (hself.shared name hw p hfind)
        · rw [Eval.alarmedWithin_of_not_spared hname]
          exact .alarmed (Shares.once hS ih hw.2 (fun _ _ => trivial) p hfind)
      · dsimp only
        rw [Eval.alarmedWithin_of_spared (SharedStore.name_of_pending hfind ▸ hname)]
        exact hself.shared name hw p hfind

end

end Simulation

end RandomTables
