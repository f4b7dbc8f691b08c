import Mathlib.Logic.Function.Basic

/-!
# Owners of resources

Places that hold at most one resource each, and resources that are in use. No resource is held in
two places, what is held is in use, and what is in use is held unless it was lost. The rules say
what keeps this: a new resource, a release, a loss, and a move from one place to another.
-/

namespace DeepJit

section

variable {ω ρ : Type}

/-- Every resource in use has exactly one owner, or was lost. -/
structure Owned (holds : ω → Option ρ) (used : ρ → Bool) (lost : ρ → Prop) : Prop where
  inUse : ∀ a r, holds a = some r → used r = true
  unique : ∀ a b r, holds a = some r → holds b = some r → a = b
  kept : ∀ r, used r = true → (∃ a, holds a = some r) ∨ lost r

variable {holds : ω → Option ρ} {used : ρ → Bool} {lost : ρ → Prop} {a b : ω} {r : ρ}

theorem Owned.empty : Owned (fun _ : ω => none) (fun _ : ρ => false) lost where
  inUse := by simp
  unique := by simp
  kept := by simp

theorem Owned.mono {lost' : ρ → Prop} (h : Owned holds used lost) (hlost : ∀ r, lost r → lost' r) :
    Owned holds used lost' where
  inUse := h.inUse
  unique := h.unique
  kept r hr := (h.kept r hr).imp_right (hlost r)

variable [DecidableEq ω]

section

variable [DecidableEq ρ]

/-- A place takes a resource that is not in use. -/
theorem Owned.acquire (h : Owned holds used lost) (hempty : holds a = none) (hnew : used r = false) :
    Owned (Function.update holds a (some r)) (Function.update used r true) lost := by
  have hne : ∀ c r', holds c = some r' → r' ≠ r := by
    rintro c r' hc rfl
    rw [h.inUse c r' hc] at hnew
    simp at hnew
  constructor
  · intro c r' hc
    by_cases hca : c = a
    · subst hca
      rw [Function.update_self, Option.some.injEq] at hc
      rw [← hc, Function.update_self]
    · rw [Function.update_of_ne hca] at hc
      rw [Function.update_of_ne (hne c r' hc)]
      exact h.inUse c r' hc
  · intro c d r' hc hd
    by_cases hca : c = a <;> by_cases hda : d = a
    · exact hca.trans hda.symm
    · subst hca
      rw [Function.update_self, Option.some.injEq] at hc
      rw [Function.update_of_ne hda] at hd
      exact absurd hc.symm (hne d r' hd)
    · subst hda
      rw [Function.update_self, Option.some.injEq] at hd
      rw [Function.update_of_ne hca] at hc
      exact absurd hd.symm (hne c r' hc)
    · rw [Function.update_of_ne hca] at hc
      rw [Function.update_of_ne hda] at hd
      exact h.unique c d r' hc hd
  · intro r' hr'
    by_cases heq : r' = r
    · exact .inl ⟨a, by rw [heq, Function.update_self]⟩
    · rw [Function.update_of_ne heq] at hr'
      refine (h.kept r' hr').imp_left fun ⟨c, hc⟩ => ⟨c, ?_⟩
      rwa [Function.update_of_ne]
      rintro rfl
      rw [hempty] at hc
      simp at hc

/-- The owner of a resource releases it. -/
theorem Owned.release (h : Owned holds used lost) (ha : holds a = some r) :
    Owned (Function.update holds a none) (Function.update used r false) lost := by
  have hne : ∀ c r', Function.update holds a none c = some r' → c ≠ a ∧ r' ≠ r ∧ holds c = some r' := by
    intro c r' hc
    by_cases hca : c = a
    · rw [hca, Function.update_self] at hc
      simp at hc
    · rw [Function.update_of_ne hca] at hc
      refine ⟨hca, ?_, hc⟩
      rintro rfl
      exact hca (h.unique c a r' hc ha)
  constructor
  · intro c r' hc
    obtain ⟨-, hr', hc⟩ := hne c r' hc
    rw [Function.update_of_ne hr']
    exact h.inUse c r' hc
  · intro c d r' hc hd
    exact h.unique c d r' (hne c r' hc).2.2 (hne d r' hd).2.2
  · intro r' hr'
    by_cases heq : r' = r
    · rw [heq, Function.update_self] at hr'
      simp at hr'
    · rw [Function.update_of_ne heq] at hr'
      refine (h.kept r' hr').imp_left fun ⟨c, hc⟩ => ⟨c, ?_⟩
      rwa [Function.update_of_ne]
      rintro rfl
      exact heq (Option.some.inj (hc.symm.trans ha))

end

/-- The owner of a resource gives it up without a release. -/
theorem Owned.lose {lost' : ρ → Prop} (h : Owned holds used lost) (ha : holds a = some r)
    (hlost : ∀ r', lost r' ∨ r' = r → lost' r') : Owned (Function.update holds a none) used lost' := by
  have hold : ∀ c r', Function.update holds a none c = some r' → holds c = some r' := by
    intro c r' hc
    by_cases hca : c = a
    · rw [hca, Function.update_self] at hc
      simp at hc
    · rwa [Function.update_of_ne hca] at hc
  refine ⟨fun c r' hc => h.inUse c r' (hold c r' hc),
    fun c d r' hc hd => h.unique c d r' (hold c r' hc) (hold d r' hd), fun r' hr' => ?_⟩
  rcases h.kept r' hr' with ⟨c, hc⟩ | hwas
  · by_cases hca : c = a
    · exact .inr (hlost r' (.inr (Option.some.inj (hc.symm.trans (hca ▸ ha)))))
    · exact .inl ⟨c, by rwa [Function.update_of_ne hca]⟩
  · exact .inr (hlost r' (.inl hwas))

/-- A resource moves to an empty place. -/
theorem Owned.move (h : Owned holds used lost) (ha : holds a = some r) (hempty : holds b = none) :
    Owned (Function.update (Function.update holds a none) b (some r)) used lost := by
  have hab : a ≠ b := by
    rintro rfl
    rw [hempty] at ha
    simp at ha
  have hold : ∀ c r', Function.update (Function.update holds a none) b (some r) c = some r' →
      (c = b ∧ r' = r) ∨ (c ≠ a ∧ holds c = some r') := by
    intro c r' hc
    by_cases hcb : c = b
    · rw [hcb, Function.update_self, Option.some.injEq] at hc
      exact .inl ⟨hcb, hc.symm⟩
    · rw [Function.update_of_ne hcb] at hc
      by_cases hca : c = a
      · rw [hca, Function.update_self] at hc
        simp at hc
      · exact .inr ⟨hca, by rwa [Function.update_of_ne hca] at hc⟩
  constructor
  · intro c r' hc
    rcases hold c r' hc with ⟨-, rfl⟩ | ⟨-, hc⟩
    · exact h.inUse a r' ha
    · exact h.inUse c r' hc
  · intro c d r' hc hd
    rcases hold c r' hc with ⟨hcb, hcr⟩ | ⟨hca, hc'⟩ <;> rcases hold d r' hd with ⟨hdb, hdr⟩ | ⟨hda, hd'⟩
    · exact hcb.trans hdb.symm
    · exact absurd (h.unique d a r' hd' (hcr ▸ ha)) hda
    · exact absurd (h.unique c a r' hc' (hdr ▸ ha)) hca
    · exact h.unique c d r' hc' hd'
  · intro r' hr'
    refine (h.kept r' hr').imp_left fun ⟨c, hc⟩ => ?_
    by_cases hca : c = a
    · refine ⟨b, ?_⟩
      rw [Function.update_self, ← hc, hca, ha]
    · have hcb : c ≠ b := by
        rintro rfl
        rw [hempty] at hc
        simp at hc
      exact ⟨c, by rwa [Function.update_of_ne hcb, Function.update_of_ne hca]⟩

end

end DeepJit
