import DeepJit.Library.Post

/-!
# Actions

Computations that change a state and may fail, with the state kept when they do. The rules give the
postcondition of a composed action from those of its parts.
-/

namespace DeepJit

/-- A computation on a state `σ` that ends with a value or an error `ε`. -/
def Action (ε σ α : Type) : Type := σ → Except ε α × σ

namespace Action

variable {ε σ α β : Type}

/-- One action after the other, the second with the value of the first. -/
def andThen (x : Action ε σ α) (f : α → Action ε σ β) : Action ε σ β := fun s =>
  match x s with
  | (.ok value, s) => f value s
  | (.error error, s) => (.error error, s)

instance instMonad : Monad (Action ε σ) where
  pure value s := (.ok value, s)
  bind := andThen

def throw (error : ε) : Action ε σ α := fun s => (.error error, s)

def modify (f : σ → σ) : Action ε σ Unit := fun s => (.ok (), f s)

/-- An action that ends with `result` and changes nothing. -/
def lift (result : Except ε α) : Action ε σ α := fun s => (result, s)

/-- `try { x } catch (...) { cleanup; throw; }`. -/
def onError (x : Action ε σ α) (cleanup : σ → σ) : Action ε σ α := fun s =>
  match x s with
  | (.ok value, s) => (.ok value, s)
  | (.error error, s) => (.error error, cleanup s)

variable {Q : α → σ → Prop} {R : β → σ → Prop} {E : ε → σ → Prop} {s : σ}

@[simp] theorem post_pure {value : α} : Post Q E ((pure value : Action ε σ α) s) ↔ Q value s := Iff.rfl

@[simp] theorem post_throw {error : ε} : Post Q E ((throw error : Action ε σ α) s) ↔ E error s := Iff.rfl

@[simp] theorem post_modify {Q : Unit → σ → Prop} {f : σ → σ} :
    Post Q E ((modify f : Action ε σ Unit) s) ↔ Q () (f s) := Iff.rfl

/-- The rule for actions in a row. -/
theorem post_bind {x : Action ε σ α} {f : α → Action ε σ β} (hx : Post Q E (x s))
    (hf : ∀ value t, Q value t → Post R E (f value t)) : Post R E ((x >>= f) s) := by
  change Post R E (andThen x f s)
  unfold andThen
  cases hxs : x s with
  | mk result t =>
      rw [hxs] at hx
      cases result with
      | ok value => exact hf value t hx
      | error error => exact hx

theorem post_lift {result : Except ε α} (hok : ∀ value, result = .ok value → Q value s)
    (herror : ∀ error, result = .error error → E error s) : Post Q E (lift result s) := by
  cases result with
  | ok value => exact hok value rfl
  | error error => exact herror error rfl

theorem post_onError {x : Action ε σ α} {cleanup : σ → σ}
    (hx : Post Q (fun error s => E error (cleanup s)) (x s)) : Post Q E (onError x cleanup s) := by
  unfold onError
  cases hxs : x s with
  | mk result t =>
      rw [hxs] at hx
      cases result with
      | ok value => exact hx
      | error error => exact hx

end Action

end DeepJit
