/-!
# Actions

An action changes a state and either gives a result or fails. A failed action still leaves a state
behind: the one it had reached. What failure leaves unchanged is therefore never a matter of the
type and has to be shown for each action.

## Main definitions

* `Action ε σ α`: actions on states `σ` with results `α` and failures `ε`
* `Action.exec`: the outcome of an action together with the state it leaves
* `Action.within`: an action on a part of the state
-/

namespace FlatSql

/-- Actions on a state that may fail. The state survives a failure, as what has been written before
it stays written; whether anything has been is for proofs about single actions. -/
abbrev Action (ε σ : Type) := ExceptT ε (StateM σ)

namespace Action

variable {ε ε' σ τ α : Type}

/-- Runs an action: its outcome, and the state left behind by success or failure alike. -/
def exec (x : Action ε σ α) (s : σ) : Except ε α × σ := x.run s

/-- An outcome as an action that leaves the state alone. Checks are written as outcomes and take
their place among actions by this. -/
def ofExcept (r : Except ε α) : Action ε σ α := ExceptT.mk (pure r)

/-- The same action with its failures renamed, which is how a layer passes on those of the one
below. -/
def mapError (f : ε → ε') (x : Action ε σ α) : Action ε' σ α := ExceptT.mk fun s =>
  let (r, s') := x.exec s
  (r.mapError f, s')

/-- An action on the part of the state that `get` reads and `put` writes back. The part is put back
after a failure too. -/
def within (get : σ → τ) (put : τ → σ → σ) (x : Action ε τ α) : Action ε σ α :=
  ExceptT.mk fun s =>
    let (r, t) := x.exec (get s)
    (r, put t s)

/-- The outcome of an action, with the state it leaves as its result, for those who go on only after
a success. -/
def finalState (x : Action ε σ Unit) (s : σ) : Except ε σ :=
  let (r, s') := x.exec s
  r.map fun _ => s'

/-! ### What actions leave behind

One equation for each way to make an action says what running it gives, so that proofs need not
unfold how actions are built. -/

variable {β : Type}

@[simp] theorem exec_pure (a : α) (s : σ) : (pure a : Action ε σ α).exec s = (.ok a, s) := rfl

@[simp] theorem exec_throw (e : ε) (s : σ) :
    (throw e : Action ε σ α).exec s = (.error e, s) := rfl

@[simp] theorem exec_get (s : σ) : (get : Action ε σ σ).exec s = (.ok s, s) := rfl

@[simp] theorem exec_set (s t : σ) : (set t : Action ε σ PUnit).exec s = (.ok ⟨⟩, t) := rfl

@[simp] theorem exec_modify (f : σ → σ) (s : σ) :
    (modify f : Action ε σ PUnit).exec s = (.ok ⟨⟩, f s) := rfl

@[simp] theorem exec_ofExcept (r : Except ε α) (s : σ) :
    (ofExcept r : Action ε σ α).exec s = (r, s) := rfl

@[simp] theorem exec_mapError (f : ε → ε') (x : Action ε σ α) (s : σ) :
    (x.mapError f).exec s = ((x.exec s).1.mapError f, (x.exec s).2) := rfl

@[simp] theorem exec_within (get : σ → τ) (put : τ → σ → σ) (x : Action ε τ α) (s : σ) :
    (x.within get put).exec s = ((x.exec (get s)).1, put (x.exec (get s)).2 s) := rfl

@[simp] theorem exec_ite (c : Prop) [Decidable c] (x y : Action ε σ α) (s : σ) :
    (if c then x else y).exec s = if c then x.exec s else y.exec s := by
  split <;> rfl

/-- The second action runs on the state the first one left, and only if that one succeeded. All
proofs about sequences of actions start here. -/
theorem exec_bind (x : Action ε σ α) (f : α → Action ε σ β) (s : σ) :
    (x >>= f).exec s =
      match (x.exec s).1 with
      | .ok a => (f a).exec (x.exec s).2
      | .error e => (.error e, (x.exec s).2) := by
  simp only [exec, bind, ExceptT.bind, ExceptT.run, ExceptT.mk, StateT.bind]
  rcases x s with ⟨_ | _, _⟩ <;> rfl

@[simp] theorem exec_map (f : α → β) (x : Action ε σ α) (s : σ) :
    (f <$> x).exec s = ((x.exec s).1.map f, (x.exec s).2) := by
  simp only [exec, Functor.map, ExceptT.map, ExceptT.run, ExceptT.mk, StateT.bind, bind]
  rcases x s with ⟨_ | _, _⟩ <;> rfl

end Action

end FlatSql
