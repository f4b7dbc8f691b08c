import Mathlib.Logic.Basic

/-!
# Postconditions of fallible stateful computations

A computation that ends in a state with a value or with an error has a postcondition for each.
Nothing here depends on what is computed.
-/

namespace DeepJit

variable {ε α β σ : Type}

/-- The outcome satisfies `Q` if it is a value and `E` if it is an error. -/
def Post (Q : α → σ → Prop) (E : ε → σ → Prop) : Except ε α × σ → Prop
  | (.ok value, s) => Q value s
  | (.error error, s) => E error s

@[simp] theorem post_ok {Q : α → σ → Prop} {E : ε → σ → Prop} {value : α} {s : σ} :
    Post Q E (.ok value, s) ↔ Q value s := Iff.rfl

@[simp] theorem post_error {Q : α → σ → Prop} {E : ε → σ → Prop} {error : ε} {s : σ} :
    Post Q E (.error error, s) ↔ E error s := Iff.rfl

theorem Post.imp {Q Q' : α → σ → Prop} {E E' : ε → σ → Prop} {outcome : Except ε α × σ}
    (h : Post Q E outcome)
    (hQ : ∀ value s, Q value s → Q' value s) (hE : ∀ error s, E error s → E' error s) :
    Post Q' E' outcome := by
  obtain ⟨result, s⟩ := outcome
  cases result with
  | ok value => exact hQ value s h
  | error error => exact hE error s h

theorem Post.and {Q Q' : α → σ → Prop} {E E' : ε → σ → Prop} {outcome : Except ε α × σ}
    (h : Post Q E outcome) (h' : Post Q' E' outcome) :
    Post (fun value s => Q value s ∧ Q' value s)
      (fun error s => E error s ∧ E' error s) outcome := by
  obtain ⟨result, s⟩ := outcome
  cases result with
  | ok value => exact ⟨h, h'⟩
  | error error => exact ⟨h, h'⟩

theorem Post.ok_of {Q : α → σ → Prop} {E : ε → σ → Prop} {outcome : Except ε α × σ}
    (h : Post Q E outcome)
    {value : α} {s : σ} (heq : outcome = (.ok value, s)) : Q value s := by
  rw [heq] at h
  exact h

theorem Post.error_of {Q : α → σ → Prop} {E : ε → σ → Prop} {outcome : Except ε α × σ}
    (h : Post Q E outcome)
    {error : ε} {s : σ} (heq : outcome = (.error error, s)) : E error s := by
  rw [heq] at h
  exact h

end DeepJit
