import Mathlib.Data.List.Basic

/-!
# Length framing

A sequence of components is written as one stream, each component behind a header of fixed width
that gives its length. A reader who knows the headers can tell where every component ends, so the
stream determines the sequence whatever the components contain.
-/

namespace Framing

variable {α : Type*}

/-- The components one after the other, each behind the header of its length. -/
def frames (header : Nat → List α) (components : List (List α)) : List α :=
  components.flatMap fun component => header component.length ++ component

section

variable (header : Nat → List α)

@[simp] theorem frames_nil : frames header [] = [] := rfl

@[simp] theorem frames_cons (component : List α) (components : List (List α)) :
    frames header (component :: components) =
      header component.length ++ (component ++ frames header components) := by
  simp [frames]

end

/-- Headers of one positive width that tell the lengths below `bound` apart. -/
structure Header (bound : Nat) (header : Nat → List α) : Prop where
  width : ∀ m n, (header m).length = (header n).length
  nonempty : ∀ n, header n ≠ []
  injOn : ∀ m n, m < bound → n < bound → header m = header n → m = n

variable {bound : Nat} {header : Nat → List α}

/-- The first component and the rest of a stream can be read off. -/
theorem Header.cut (h : Header bound header) {left right rest rest' : List α}
    (hleft : left.length < bound) (hright : right.length < bound)
    (heq : header left.length ++ (left ++ rest) = header right.length ++ (right ++ rest')) :
    left = right ∧ rest = rest' := by
  obtain ⟨hheader, hbody⟩ := List.append_inj heq (h.width _ _)
  have hlength := h.injOn _ _ hleft hright hheader
  exact List.append_inj hbody hlength

/-- Induction on one sequence; the header shows that the other has a next component as well. -/
theorem Header.frames_injective (h : Header bound header) {left right : List (List α)}
    (hleft : ∀ component ∈ left, component.length < bound)
    (hright : ∀ component ∈ right, component.length < bound)
    (heq : frames header left = frames header right) : left = right := by
  induction left generalizing right with
  | nil =>
      cases right with
      | nil => rfl
      | cons component right =>
          rw [frames_nil, frames_cons] at heq
          exact absurd (List.append_eq_nil_iff.mp heq.symm).1 (h.nonempty _)
  | cons component left ih =>
      cases right with
      | nil =>
          rw [frames_nil, frames_cons] at heq
          exact absurd (List.append_eq_nil_iff.mp heq).1 (h.nonempty _)
      | cons component' right =>
          rw [List.forall_mem_cons] at hleft hright
          rw [frames_cons, frames_cons] at heq
          obtain ⟨rfl, hrest⟩ := h.cut hleft.1 hright.1 heq
          rw [ih hleft.2 hright.2 hrest]

end Framing
