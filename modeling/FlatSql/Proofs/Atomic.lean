import FlatSql.Action
import Mathlib.Tactic.Common

/-!
# Atomic actions

An action is atomic from a state when its failure leaves that state. Nothing in the type of actions
makes them so; every operation that is shown to be atomic is from then on determined by its
`outcome`, which forgets what a failure leaves behind.

## Main definitions

* `Action.outcome` — the result and the new state of an action that succeeds
* `Action.settle` — an outcome together with the state it leaves when failure leaves the old one
* `Action.Atomic` — failure leaves the state as it was
* `Except.FailsOnly` — all failures are of a kind

## Main results

* `Action.Atomic.exec_eq` — an atomic action is its settled outcome
* `Except.bind_eq_ok_iff`, `Except.map_eq_ok_iff`, `Except.mapError_eq_ok_iff` — inversion
-/

/-! ### Successful outcomes -/

namespace Except

variable {ε ε' α β : Type}

theorem bind_eq_ok_iff {x : Except ε α} {f : α → Except ε β} {b : β} :
    x >>= f = .ok b ↔ ∃ a, x = .ok a ∧ f a = .ok b := by
  cases x <;> simp [bind, Except.bind]

theorem bind_eq_error_iff {x : Except ε α} {f : α → Except ε β} {e : ε} :
    x >>= f = .error e ↔ x = .error e ∨ ∃ a, x = .ok a ∧ f a = .error e := by
  cases x <;> simp [bind, Except.bind]

theorem map_eq_ok_iff {x : Except ε α} {f : α → β} {b : β} :
    x.map f = .ok b ↔ ∃ a, x = .ok a ∧ f a = b := by
  cases x <;> simp [Except.map]

theorem map_eq_error_iff {x : Except ε α} {f : α → β} {e : ε} :
    x.map f = .error e ↔ x = .error e := by
  cases x <;> simp [Except.map]

theorem mapError_eq_ok_iff {x : Except ε α} {f : ε → ε'} {a : α} :
    x.mapError f = .ok a ↔ x = .ok a := by
  cases x <;> simp [Except.mapError]

theorem mapError_eq_error_iff {x : Except ε α} {f : ε → ε'} {e : ε'} :
    x.mapError f = .error e ↔ ∃ e', x = .error e' ∧ f e' = e := by
  cases x <;> simp [Except.mapError]

/-- Whether there is a value with a property. -/
instance decidableExistsOk {x : Except ε α} {P : α → Prop} [DecidablePred P] :
    Decidable (∃ a, x = .ok a ∧ P a) :=
  match x with
  | .ok a => decidable_of_iff (P a) ⟨fun h => ⟨a, rfl, h⟩, fun ⟨_, ha, h⟩ => ok.inj ha ▸ h⟩
  | .error _ => isFalse fun ⟨_, ha, _⟩ => nomatch ha

/-! ### Kinds of failures -/

/-- All failures are of a kind. An outcome that is no failure has the property for every kind. -/
def FailsOnly (P : ε → Prop) (x : Except ε α) : Prop := ∀ e, x = .error e → P e

namespace FailsOnly

variable {P : ε → Prop} {x : Except ε α}

theorem ok (a : α) : FailsOnly P (.ok a : Except ε α) := fun _ h => nomatch h

theorem error {e : ε} (h : P e) : FailsOnly P (.error e : Except ε α) := by
  intro e' he
  exact Except.error.inj he ▸ h

instance [DecidablePred P] : Decidable (x.FailsOnly P) :=
  match x with
  | .ok a => isTrue (ok a)
  | .error e => decidable_of_iff (P e) ⟨error, fun h => h e rfl⟩

theorem bind {f : α → Except ε β} (h : x.FailsOnly P) (h' : ∀ a, (f a).FailsOnly P) :
    (x >>= f).FailsOnly P := by
  intro e he
  rcases Except.bind_eq_error_iff.mp he with he | ⟨a, -, he⟩
  · exact h e he
  · exact h' a e he

/-- What is done with a result has no part in failures. -/
theorem map_iff {f : α → β} : (x.map f).FailsOnly P ↔ x.FailsOnly P := by
  simp only [FailsOnly, Except.map_eq_error_iff]

theorem map (h : x.FailsOnly P) (f : α → β) : (x.map f).FailsOnly P := map_iff.mpr h

theorem mapError {Q : ε' → Prop} {f : ε → ε'} (h : x.FailsOnly P) (hf : ∀ e, P e → Q (f e)) :
    (x.mapError f).FailsOnly Q := by
  intro e he
  obtain ⟨e', he', rfl⟩ := Except.mapError_eq_error_iff.mp he
  exact hf e' (h e' he')

end FailsOnly

end Except

namespace FlatSql

namespace Action

variable {ε σ α β : Type}

/-! ### Outcomes -/

/-- The result and the new state of an action that succeeds, or its failure. What a failure leaves
behind is not told. -/
def outcome (x : Action ε σ α) (s : σ) : Except ε (α × σ) :=
  match x.exec s with
  | (.ok a, s') => .ok (a, s')
  | (.error e, _) => .error e

/-- An outcome with the state it leaves, where failure leaves the state `s`. It is what an action
does that writes all or nothing. -/
def settle (s : σ) : Except ε (α × σ) → Except ε α × σ
  | .ok (a, s') => (.ok a, s')
  | .error e => (.error e, s)

@[simp] theorem settle_ok (s s' : σ) (a : α) :
    settle s (.ok (a, s') : Except ε (α × σ)) = (.ok a, s') := rfl

@[simp] theorem settle_error (s : σ) (e : ε) :
    settle s (.error e : Except ε (α × σ)) = (.error e, s) := rfl

theorem outcome_eq_ok_iff {x : Action ε σ α} {s s' : σ} {a : α} :
    x.outcome s = .ok (a, s') ↔ x.exec s = (.ok a, s') := by
  unfold outcome
  rcases x.exec s with ⟨_ | _, _⟩ <;> simp

theorem finalState_eq_ok_iff {x : Action ε σ Unit} {s s' : σ} :
    x.finalState s = .ok s' ↔ x.exec s = (.ok (), s') := by
  unfold finalState
  rcases x.exec s with ⟨_ | ⟨⟩, _⟩ <;> simp [Except.map]

/-! ### Atomicity -/

/-- Failure leaves the state as it was. This is said of a state, since an action may need its
invariant for it. -/
def Atomic (x : Action ε σ α) (s : σ) : Prop := ∀ e s', x.exec s = (.error e, s') → s' = s

/-- **An atomic action is its settled outcome.** So it is enough to know when it succeeds and what
it does then. -/
theorem Atomic.exec_eq {x : Action ε σ α} {s : σ} (h : x.Atomic s) :
    x.exec s = settle s (x.outcome s) := by
  unfold outcome
  rcases hx : x.exec s with ⟨e | a, s'⟩
  · rw [h e s' hx]; rfl
  · rfl

/-- What an atomic action keeps when it succeeds it keeps in any case, since a failure leaves
nothing new. -/
theorem Atomic.invariant {x : Action ε σ α} {s : σ} (h : x.Atomic s) {P : σ → Prop} (hs : P s)
    (hok : ∀ a s', x.exec s = (.ok a, s') → P s') : P (x.exec s).2 := by
  rcases hx : x.exec s with ⟨e | a, s'⟩
  · rw [h e s' hx]
    exact hs
  · exact hok a s' hx

theorem atomic_of_exec_eq {x : Action ε σ α} {s : σ} {r : Except ε (α × σ)}
    (h : x.exec s = settle s r) : x.Atomic s := by
  intro e s' hx
  rw [h] at hx
  cases r with
  | ok p => simp [settle] at hx
  | error e' => simpa [settle, eq_comm] using (Prod.mk.inj hx).2

theorem outcome_of_exec_eq {x : Action ε σ α} {s : σ} {r : Except ε (α × σ)}
    (h : x.exec s = settle s r) : x.outcome s = r := by
  unfold outcome
  rw [h]
  rcases r with e | ⟨a, s'⟩ <;> rfl

/-! ### Sequences

`exec_bind` says all of it with a `match`; these are its two arms, for rewriting where the first
action's end is known. -/

theorem exec_bind_of_ok {x : Action ε σ α} {f : α → Action ε σ β} {s s' : σ} {a : α}
    (h : x.exec s = (.ok a, s')) : (x >>= f).exec s = (f a).exec s' := by
  simp only [exec_bind, h]

theorem exec_bind_of_error {x : Action ε σ α} {f : α → Action ε σ β} {s s' : σ} {e : ε}
    (h : x.exec s = (.error e, s')) : (x >>= f).exec s = (.error e, s') := by
  simp only [exec_bind, h]

@[simp] theorem exec_ofExcept_ok_bind (a : α) (f : α → Action ε σ β) (s : σ) :
    (ofExcept (.ok a) >>= f).exec s = (f a).exec s := exec_bind_of_ok rfl

@[simp] theorem exec_ofExcept_error_bind (e : ε) (f : α → Action ε σ β) (s : σ) :
    (ofExcept (.error e) >>= f).exec s = (.error e, s) := exec_bind_of_error rfl

@[simp] theorem exec_get_bind (f : σ → Action ε σ β) (s : σ) :
    (get >>= f).exec s = (f s).exec s := exec_bind_of_ok rfl

@[simp] theorem exec_throw_bind (e : ε) (f : α → Action ε σ β) (s : σ) :
    ((throw e : Action ε σ α) >>= f).exec s = (.error e, s) := exec_bind_of_error rfl

@[simp] theorem exec_set_bind (t : σ) (f : PUnit → Action ε σ β) (s : σ) :
    ((set t : Action ε σ PUnit) >>= f).exec s = (f ⟨⟩).exec t := exec_bind_of_ok rfl

@[simp] theorem exec_modify_bind (g : σ → σ) (f : PUnit → Action ε σ β) (s : σ) :
    ((modify g : Action ε σ PUnit) >>= f).exec s = (f ⟨⟩).exec (g s) := exec_bind_of_ok rfl

end Action

end FlatSql
