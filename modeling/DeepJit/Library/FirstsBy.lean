import Mathlib.Data.List.Induction
import Mathlib.Data.List.Nodup

/-!
# The first element of each key

A list of elements with keys, reduced to the first element of each key, in order.
-/

namespace DeepJit

variable {α κ : Type} [DecidableEq κ]

/-- The first of each group of elements with one key. -/
def firstsBy (key : α → κ) (l : List α) : List α :=
  l.foldl (fun firsts c => if key c ∈ firsts.map key then firsts else firsts ++ [c]) []

variable {key : α → κ}

@[simp] theorem firstsBy_nil : firstsBy key ([] : List α) = [] := rfl

theorem firstsBy_append (l : List α) (c : α) :
    firstsBy key (l ++ [c]) =
      if key c ∈ (firstsBy key l).map key then firstsBy key l else firstsBy key l ++ [c] := by
  simp [firstsBy]

theorem firstsBy_sublist (l : List α) : (firstsBy key l).Sublist l := by
  induction l using List.reverseRecOn with
  | nil => simp
  | append_singleton l c ih =>
      rw [firstsBy_append]
      split
      · exact ih.trans (List.sublist_append_left l [c])
      · exact ih.append (List.Sublist.refl [c])

/-- The kept element with a key is the one that `find?` meets first in the whole list. -/
theorem find?_firstsBy (l : List α) (k : κ) :
    (firstsBy key l).find? (fun d => key d = k) = l.find? (fun d => key d = k) := by
  induction l using List.reverseRecOn with
  | nil => rfl
  | append_singleton l c ih =>
      rw [firstsBy_append, List.find?_append, ← ih]
      split
      · rename_i hpresent
        by_cases hk : key c = k
        · have hsome : ((firstsBy key l).find? fun d => key d = k).isSome = true := by
            obtain ⟨d, hd, hdk⟩ := List.mem_map.mp hpresent
            exact List.find?_isSome.mpr ⟨d, hd, by simp [hdk, hk]⟩
          obtain ⟨d, hd⟩ := Option.isSome_iff_exists.mp hsome
          simp [hd]
        · simp [hk]
      · rw [List.find?_append]

theorem nodup_map_firstsBy (l : List α) : ((firstsBy key l).map key).Nodup := by
  induction l using List.reverseRecOn with
  | nil => simp
  | append_singleton l c ih =>
      rw [firstsBy_append]
      split
      · exact ih
      · rename_i hfresh
        rw [List.map_append, List.nodup_append]
        refine ⟨ih, by simp, ?_⟩
        intro a ha b hb hab
        obtain rfl : b = key c := by simpa using hb
        exact hfresh (hab ▸ ha)

theorem mem_firstsBy {l : List α} {c : α} :
    c ∈ firstsBy key l ↔ l.find? (fun d => key d = key c) = some c := by
  rw [← find?_firstsBy]
  constructor
  · intro hmem
    have hsome : ((firstsBy key l).find? fun d => key d = key c).isSome = true :=
      List.find?_isSome.mpr ⟨c, hmem, by simp⟩
    obtain ⟨d, hd⟩ := Option.isSome_iff_exists.mp hsome
    have hdk : key d = key c := by simpa using List.find?_some hd
    have hdmem := List.mem_of_find?_eq_some hd
    rw [hd, List.inj_on_of_nodup_map (nodup_map_firstsBy l) hdmem hmem hdk]
  · exact List.mem_of_find?_eq_some

end DeepJit
