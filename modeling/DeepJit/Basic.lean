import Mathlib.Data.List.Sort

/-!
# Byte strings

`std::string`, `std::string_view` and file contents are byte strings. A C++ literal is the list of
its ASCII bytes.
-/

namespace DeepJit

abbrev Bytes := List UInt8

/-- The bytes of an ASCII literal of the source. -/
def bytes (literal : String) : Bytes := literal.toList.map fun c => c.toNat.toUInt8

/-- The decimal rendering that `std::format("{}", n)` and `std::to_string` give of a natural
number. -/
def decimal (n : Nat) : Bytes := (Nat.toDigits 10 n).map fun c => c.toNat.toUInt8

/-- The same for a signed integer. -/
def decimalInt : Int → Bytes
  | .ofNat n => decimal n
  | .negSucc n => 45 :: decimal (n + 1)

theorem not_mem_of_mem_splitOn {value item : Bytes} {separator : UInt8} (h : item ∈ value.splitOn separator) :
    separator ∉ item := by
  induction value generalizing item with
  | nil =>
      rw [List.splitOn_nil, List.mem_singleton] at h
      simp [h]
  | cons c rest ih =>
      rw [List.splitOn_cons_eq_if_modifyHead] at h
      by_cases hc : c = separator
      · simp only [hc, beq_self_eq_true, if_true, List.mem_cons] at h
        rcases h with rfl | hrest
        · simp
        · exact ih hrest
      · obtain ⟨first, others, hsplit⟩ := List.exists_cons_of_ne_nil (List.splitOn_ne_nil separator rest)
        simp only [beq_iff_eq, hc, if_false, hsplit, List.modifyHead_cons, List.mem_cons] at h
        rcases h with rfl | hothers
        · have hfirst : separator ∉ first := ih (by simp [hsplit])
          simp [hfirst, Ne.symm hc]
        · exact ih (by simp [hsplit, hothers])

end DeepJit
