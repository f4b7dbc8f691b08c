import Mathlib.Data.List.Basic

/-!
# Buffers

A buffer is a list of cells. `writeAt` copies values into it and fails when they do not fit, so that
a successful write is one inside the buffer. Writes to ranges that follow one another can all be
read back, and leave every other cell alone.
-/

namespace Buffer

variable {α : Type*}

/-- The values at `length` cells from `offset` on. -/
def slice (buffer : List α) (offset length : Nat) : List α := (buffer.drop offset).take length

def writeAt (buffer : List α) (offset : Nat) (values : List α) : Option (List α) :=
  if offset + values.length ≤ buffer.length then
    some (buffer.take offset ++ values ++ buffer.drop (offset + values.length))
  else none

/-- Several writes, one after the other. -/
def writeAll : List (Nat × List α) → List α → Option (List α)
  | [], buffer => some buffer
  | (offset, values) :: rest, buffer =>
      match writeAt buffer offset values with
      | none => none
      | some buffer => writeAll rest buffer

/-- The cell belongs to the range of a write. -/
def Covers (write : Nat × List α) (i : Nat) : Prop := write.1 ≤ i ∧ i < write.1 + write.2.length

theorem getElem?_slice (buffer : List α) (offset length i : Nat) :
    (slice buffer offset length)[i]? = if i < length then buffer[offset + i]? else none := by
  rw [slice, List.getElem?_take, List.getElem?_drop]

theorem slice_append_right (front buffer : List α) (offset length : Nat) :
    slice (front ++ buffer) (front.length + offset) length = slice buffer offset length := by
  rw [slice, slice, List.drop_length_add_append]

theorem length_of_writeAt {buffer buffer' values : List α} {offset : Nat}
    (h : writeAt buffer offset values = some buffer') : buffer'.length = buffer.length := by
  rw [writeAt] at h
  split at h
  · rename_i hfits
    rw [← Option.some.inj h]
    simp only [List.length_append, List.length_take, List.length_drop]
    omega
  · simp at h

theorem getElem?_of_writeAt {buffer buffer' values : List α} {offset : Nat}
    (h : writeAt buffer offset values = some buffer') (i : Nat) :
    buffer'[i]? =
      if offset ≤ i ∧ i < offset + values.length then values[i - offset]? else buffer[i]? := by
  rw [writeAt] at h
  split at h
  · rename_i hfits
    rw [← Option.some.inj h]
    have htake : (buffer.take offset).length = offset := by
      rw [List.length_take]
      omega
    by_cases hbefore : i < offset
    · rw [if_neg (by omega), List.append_assoc, List.getElem?_append_left (by omega), List.getElem?_take,
        if_pos hbefore]
    · by_cases hinside : i < offset + values.length
      · rw [if_pos ⟨by omega, hinside⟩, List.append_assoc, List.getElem?_append_right (by omega), htake,
          List.getElem?_append_left (by omega)]
      · rw [if_neg (by omega), List.getElem?_append_right (by rw [List.length_append]; omega), List.length_append,
          htake, List.getElem?_drop]
        congr 1
        omega
  · simp at h

/-- Writes to ranges that follow one another inside the buffer. -/
theorem writeAll_spec (writes : List (Nat × List α)) (buffer : List α)
    (horder : writes.Pairwise fun earlier later => earlier.1 + earlier.2.length ≤ later.1)
    (hinside : ∀ write ∈ writes, write.1 + write.2.length ≤ buffer.length) :
    ∃ buffer', writeAll writes buffer = some buffer' ∧ buffer'.length = buffer.length ∧
      (∀ write ∈ writes, slice buffer' write.1 write.2.length = write.2) ∧
      ∀ i, (∀ write ∈ writes, ¬Covers write i) → buffer'[i]? = buffer[i]? := by
  induction writes generalizing buffer with
  | nil => exact ⟨buffer, rfl, rfl, by simp, fun _ _ => rfl⟩
  | cons write rest ih =>
      rw [List.pairwise_cons] at horder
      have hfits := hinside write List.mem_cons_self
      obtain ⟨first, hfirst⟩ : ∃ first, writeAt buffer write.1 write.2 = some first := by
        rw [writeAt, if_pos hfits]
        exact ⟨_, rfl⟩
      have hlength := length_of_writeAt hfirst
      obtain ⟨buffer', hrest, hlength', hread, hkeep⟩ := ih first horder.2 fun later hlater => by
        rw [hlength]
        exact hinside later (List.mem_cons_of_mem _ hlater)
      refine ⟨buffer', ?_, hlength'.trans hlength, ?_, ?_⟩
      · rw [writeAll, hfirst]
        exact hrest
      · intro later hlater
        rcases List.mem_cons.mp hlater with heq | hmem
        · rw [heq]
          apply List.ext_getElem?
          intro i
          rw [getElem?_slice]
          by_cases hi : i < write.2.length
          · have huncovered : ∀ later ∈ rest, ¬Covers later (write.1 + i) := by
              intro later hlater hcovers
              have hafter := horder.1 later hlater
              have hbegin := hcovers.1
              omega
            rw [if_pos hi, hkeep _ huncovered, getElem?_of_writeAt hfirst, if_pos ⟨by omega, by omega⟩,
              Nat.add_sub_cancel_left]
          · rw [if_neg hi, List.getElem?_eq_none (by omega)]
        · exact hread later hmem
      · intro i huncovered
        have hoff : ¬(write.1 ≤ i ∧ i < write.1 + write.2.length) := huncovered write List.mem_cons_self
        rw [hkeep i fun later hlater => huncovered later (List.mem_cons_of_mem _ hlater),
          getElem?_of_writeAt hfirst, if_neg hoff]

end Buffer
