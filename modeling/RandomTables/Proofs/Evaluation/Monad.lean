-- SUMMARY: Computations that can fail as functions of their state.
import RandomTables.Evaluation.Monad

/-!
# Running computations

Evaluations, draws and resolutions of tables are functions from a state to a result and the state
afterwards. The equations here apply the combinators to a state, so that proofs need not open the
monad.
-/
namespace RandomTables

namespace Except

variable {ε α β : Type} {x : Except ε α}

/-- A bind that gives a value ran both parts. -/
theorem bind_eq_ok {f : α → Except ε β} {b : β} (h : (x >>= f) = .ok b) :
    ∃ a, x = .ok a ∧ f a = .ok b := by
  cases x with
  | error e => cases h
  | ok a => exact ⟨a, rfl, h⟩

/-- A bind fails in one of its parts. -/
theorem bind_eq_error {f : α → Except ε β} {e : ε} (h : (x >>= f) = .error e) :
    x = .error e ∨ ∃ a, x = .ok a ∧ f a = .error e := by
  cases x with
  | error e => exact .inl (congrArg _ (Except.error.inj h))
  | ok a => exact .inr ⟨a, rfl, h⟩

theorem map_eq_ok {f : α → β} {b : β} (h : x.map f = .ok b) : ∃ a, x = .ok a ∧ b = f a := by
  cases x with
  | error e => cases h
  | ok a => exact ⟨a, rfl, (Except.ok.inj h).symm⟩

theorem map_eq_error {f : α → β} {e : ε} (h : x.map f = .error e) : x = .error e := by
  cases x with
  | error e => exact congrArg _ (Except.error.inj h)
  | ok a => cases h

end Except

/-- A result that, if it is a failure, is one as stated. -/
structure FailsOnly {ε α : Type} (P : ε → Prop) (x : Except ε α) : Prop where
  failure : ∀ e, x = .error e → P e

namespace FailsOnly

variable {ε α β : Type} {P Q : ε → Prop} {x : Except ε α}

theorem ok {a : α} : FailsOnly P (.ok a : Except ε α) := ⟨fun _ h => nomatch h⟩

theorem error {e : ε} (h : P e) : FailsOnly P (.error e : Except ε α) :=
  ⟨fun _ h' => Except.error.inj h' ▸ h⟩

theorem mono (hx : FailsOnly P x) (h : ∀ e, P e → Q e) : FailsOnly Q x :=
  ⟨fun e he => h e (hx.failure e he)⟩

theorem bind {f : α → Except ε β} (hx : FailsOnly P x) (hf : ∀ a, FailsOnly P (f a)) :
    FailsOnly P (x >>= f) := by
  refine ⟨fun e h => ?_⟩
  rcases Except.bind_eq_error h with h | ⟨a, -, h⟩
  · exact hx.failure e h
  · exact (hf a).failure e h

theorem map {f : α → β} (hx : FailsOnly P x) : FailsOnly P (x.map f) :=
  ⟨fun e h => hx.failure e (Except.map_eq_error h)⟩

theorem ite {p : Prop} [Decidable p] {y : Except ε α} (hx : FailsOnly P x) (hy : FailsOnly P y) :
    FailsOnly P (if p then x else y) := by
  split
  · exact hx
  · exact hy

/-- Both cases of a condition go on alike. -/
theorem iteBind {p : Prop} [Decidable p] {y : Except ε α} {f : α → Except ε β}
    (hx : FailsOnly P x) (hy : FailsOnly P y) (hf : ∀ a, FailsOnly P (f a)) :
    FailsOnly P (if p then x >>= f else y >>= f) := .ite (hx.bind hf) (hy.bind hf)

/-- What goes on unless a condition refuses it. -/
theorem refusing {p : Prop} [Decidable p] {y : Except ε β} (hx : FailsOnly P x)
    (hy : FailsOnly P y) : FailsOnly P (if p then x >>= fun _ => y else y) :=
  .ite (hx.bind fun _ => hy) hy

end FailsOnly

theorem StateM.bind_apply {σ α β : Type} (x : StateM σ α) (f : α → StateM σ β) (s : σ) :
    (x >>= f) s = f (x s).1 (x s).2 := rfl

namespace Computation

variable {σ α β : Type}

theorem bind_apply (x : ExceptT Failure (StateM σ) α) (f : α → ExceptT Failure (StateM σ) β)
    (s : σ) :
    (x >>= f) s =
      match x s with
      | (.ok a, s) => f a s
      | (.error e, s) => (.error e, s) := by
  change ExceptT.bindCont f (x s).1 (x s).2 = _
  rcases x s with ⟨_ | _, _⟩ <;> rfl

/-- What follows a failure changes nothing about it. -/
theorem bind_of_error {x : ExceptT Failure (StateM σ) α} {f : α → ExceptT Failure (StateM σ) β}
    {s : σ} {e : Failure} (h : (x s).1 = .error e) : ((x >>= f) s).1 = .error e := by
  rw [bind_apply]
  rcases hx : x s with ⟨r, s'⟩
  rw [hx] at h
  cases h
  rfl

theorem map_apply (f : α → β) (x : ExceptT Failure (StateM σ) α) (s : σ) :
    (f <$> x) s = ((x s).1.map f, (x s).2) := by
  rw [map_eq_pure_bind, bind_apply]
  rcases x s with ⟨_ | _, _⟩ <;> rfl

theorem get_bind_apply (f : σ → ExceptT Failure (StateM σ) β) (s : σ) :
    ((get : ExceptT Failure (StateM σ) σ) >>= f) s = f s s := rfl

theorem tryCatch_apply (x : ExceptT Failure (StateM σ) α)
    (handle : Failure → ExceptT Failure (StateM σ) α) (s : σ) :
    (tryCatch x handle : ExceptT Failure (StateM σ) α) s =
      match x s with
      | (.ok a, s) => (.ok a, s)
      | (.error e, s) => handle e s := by
  change (ExceptT.tryCatch x handle : ExceptT Failure (StateM σ) α) s = _
  rw [ExceptT.tryCatch, ExceptT.mk, StateM.bind_apply]
  rcases x s with ⟨_ | _, _⟩ <;> rfl

/-- A value behind a handler is that of the computation, or the handler made it of a failure. -/
theorem tryCatch_eq_ok {x : ExceptT Failure (StateM σ) α}
    {handle : Failure → ExceptT Failure (StateM σ) α} {s : σ} {a : α}
    (h : ((tryCatch x handle : ExceptT Failure (StateM σ) α) s).1 = .ok a) :
    (x s).1 = .ok a ∨ ∃ e, (x s).1 = .error e ∧ (handle e (x s).2).1 = .ok a := by
  rw [tryCatch_apply] at h
  rcases hx : x s with ⟨e | b, s'⟩ <;> rw [hx] at h
  · exact .inr ⟨e, rfl, h⟩
  · exact .inl h

/-- What follows a computation that was run to its result, be it a failure. -/
theorem run_bind_apply (x : ExceptT Failure (StateM σ) α)
    (f : Except Failure α → StateM σ β) (s : σ) : (x.run >>= f) s = f (x s).1 (x s).2 := rfl

/-- A bind that gives a value ran both parts. -/
theorem bind_eq_ok {x : ExceptT Failure (StateM σ) α} {f : α → ExceptT Failure (StateM σ) β}
    {s s' : σ} {b : β} (h : (x >>= f) s = (.ok b, s')) :
    ∃ a s₁, x s = (.ok a, s₁) ∧ f a s₁ = (.ok b, s') := by
  rw [bind_apply] at h
  rcases hx : x s with ⟨e | a, s₁⟩ <;> simp only [hx] at h
  · cases h
  · exact ⟨a, s₁, rfl, h⟩

end Computation

end RandomTables
