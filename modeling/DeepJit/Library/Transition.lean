import Mathlib.Logic.Relation

/-!
# Labelled transition systems

Runs, reachable states and the rule for invariants, for any type of states and actions. A property
of every reachable state is proved for the initial states and for one step.
-/

namespace DeepJit

structure TransitionSystem (σ α : Type) where
  init : σ → Prop
  step : σ → α → σ → Prop

namespace TransitionSystem

variable {σ α : Type} (m : TransitionSystem σ α)

/-- Any number of steps. -/
def Run : σ → σ → Prop := Relation.ReflTransGen fun s t => ∃ a, m.step s a t

def Reachable (s : σ) : Prop := ∃ s₀, m.init s₀ ∧ m.Run s₀ s

variable {m} {s t u : σ}

theorem Run.refl (s : σ) : m.Run s s := Relation.ReflTransGen.refl

theorem Run.tail (h : m.Run s t) {a : α} (hstep : m.step t a u) : m.Run s u :=
  Relation.ReflTransGen.tail h ⟨a, hstep⟩

theorem Run.trans (h : m.Run s t) (h' : m.Run t u) : m.Run s u := Relation.ReflTransGen.trans h h'

theorem Reachable.run (h : m.Reachable s) (hrun : m.Run s t) : m.Reachable t := by
  obtain ⟨s₀, hinit, hreach⟩ := h
  exact ⟨s₀, hinit, hreach.trans hrun⟩

theorem Reachable.tail (h : m.Reachable s) {a : α} (hstep : m.step s a t) : m.Reachable t :=
  h.run ((Run.refl s).tail hstep)

/-- What holds of a state and is kept by every step holds along every run from it. -/
theorem Run.invariant {I : σ → Prop} (hstep : ∀ s a t, I s → m.step s a t → I t) (h : m.Run s t)
    (hs : I s) : I t := by
  induction h with
  | refl => exact hs
  | tail _ hlast ih =>
      obtain ⟨a, ha⟩ := hlast
      exact hstep _ a _ ih ha

/-- What holds initially and is kept by every step holds in every reachable state. -/
theorem Reachable.invariant {I : σ → Prop} (hinit : ∀ s, m.init s → I s)
    (hstep : ∀ s a t, I s → m.step s a t → I t) (h : m.Reachable s) : I s := by
  obtain ⟨s₀, hs₀, hrun⟩ := h
  exact hrun.invariant hstep (hinit s₀ hs₀)

/-- Along a run from a reachable state an invariant of the reachable states may be used for every
step. -/
theorem Run.invariant_of_reachable {I J : σ → Prop} (hinit : ∀ s, m.init s → J s)
    (hJ : ∀ s a t, J s → m.step s a t → J t) (hI : ∀ s a t, J s → I s → m.step s a t → I t)
    (hs : m.Reachable s)
    (h : m.Run s t) (his : I s) : I t := by
  have hboth : J t ∧ I t := h.invariant (I := fun s => J s ∧ I s)
    (fun s a t hst hstep => ⟨hJ s a t hst.1 hstep, hI s a t hst.1 hst.2 hstep⟩) ⟨hs.invariant hinit hJ, his⟩
  exact hboth.2

end TransitionSystem

end DeepJit
