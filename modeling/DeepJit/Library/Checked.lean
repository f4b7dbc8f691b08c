import DeepJit.Library.Buffer
import Mathlib.Algebra.Group.Nat.Defs

/-!
# Checked reads and sizes

Code that reads a buffer at computed offsets, with every read, every index and every operation on
sizes checked: one that leaves the buffer, or wraps, is a fault of its own, apart from the
exceptions that the code raises itself. A computation is safe when exceptions are all that can stop
it.
-/

universe u v

namespace Checked

inductive Fault (ε : Type u) where
  | thrown (what : ε)
  | outOfBounds
  | wrapped
  | diverged
deriving DecidableEq

abbrev Result (ε : Type u) (α : Type v) := Except (Fault ε) α

variable {ε : Type u} {α β : Type v} {w : Nat}

def throw (what : ε) : Result ε α := .error (.thrown what)

def require (condition : Bool) (what : ε) : Result ε Unit :=
  if condition then .ok () else throw what

def add (a b : BitVec w) : Result ε (BitVec w) :=
  if a.toNat + b.toNat < 2 ^ w then .ok (a + b) else .error .wrapped

def sub (a b : BitVec w) : Result ε (BitVec w) := if b ≤ a then .ok (a - b) else .error .wrapped

def mul (a b : BitVec w) : Result ε (BitVec w) :=
  if a.toNat * b.toNat < 2 ^ w then .ok (a * b) else .error .wrapped

/-- The cells at `length` places from `offset` on. -/
def read (buffer : List α) (offset length : BitVec w) : Result ε (List α) :=
  if offset.toNat + length.toNat ≤ buffer.length then .ok (Buffer.slice buffer offset.toNat length.toNat)
  else .error .outOfBounds

def index (items : List α) (i : BitVec w) : Result ε α :=
  match items[i.toNat]? with
  | some item => .ok item
  | none => .error .outOfBounds

/-- `offset <= total and size <= total - offset`, or an exception. -/
def requireRange (total offset size : BitVec w) (what : ε) : Result ε Unit :=
  if offset ≤ total then do
    let rest ← sub total offset
    require (decide (size ≤ rest)) what
  else throw what

/-! ### Values of computations that return -/

section

variable {x : Result ε α} {f : α → Result ε β}

theorem ok_of_bind {b : β} (h : x >>= f = .ok b) : ∃ a, x = .ok a ∧ f a = .ok b := by
  cases x with
  | error fault => simp [Bind.bind, Except.bind] at h
  | ok a => exact ⟨a, rfl, h⟩

theorem require_ok {condition : Bool} {what : ε} {u : Unit} (h : require condition what = .ok u) :
    condition = true := by
  cases condition with
  | true => rfl
  | false => simp [require, throw] at h

theorem toNat_of_add {a b c : BitVec w} (h : (add a b : Result ε (BitVec w)) = .ok c) :
    c.toNat = a.toNat + b.toNat := by
  rw [add] at h
  split at h
  · rename_i hsum
    rw [← Except.ok.inj h, BitVec.toNat_add]
    exact Nat.mod_eq_of_lt hsum
  · simp at h

theorem toNat_of_sub {a b c : BitVec w} (h : (sub a b : Result ε (BitVec w)) = .ok c) :
    b.toNat ≤ a.toNat ∧ c.toNat = a.toNat - b.toNat := by
  rw [sub] at h
  split at h
  · rename_i hle
    rw [← Except.ok.inj h]
    exact ⟨hle, BitVec.toNat_sub_of_le hle⟩
  · simp at h

theorem toNat_of_mul {a b c : BitVec w} (h : (mul a b : Result ε (BitVec w)) = .ok c) :
    c.toNat = a.toNat * b.toNat := by
  rw [mul] at h
  split at h
  · rename_i hproduct
    rw [← Except.ok.inj h, BitVec.toNat_mul]
    exact Nat.mod_eq_of_lt hproduct
  · simp at h

theorem eq_of_read {buffer cells : List α} {offset length : BitVec w}
    (h : (read buffer offset length : Result ε (List α)) = .ok cells) :
    offset.toNat + length.toNat ≤ buffer.length ∧
      cells = Buffer.slice buffer offset.toNat length.toNat := by
  rw [read] at h
  split at h
  · rename_i hinside
    exact ⟨hinside, (Except.ok.inj h).symm⟩
  · simp at h

theorem getElem?_of_index {items : List α} {i : BitVec w} {item : α}
    (h : (index items i : Result ε α) = .ok item) : items[i.toNat]? = some item := by
  rw [index] at h
  cases hitem : items[i.toNat]? with
  | none => simp [hitem] at h
  | some found =>
      rw [hitem] at h
      rw [Except.ok.inj h]

theorem le_of_requireRange {total offset size : BitVec w} {what : ε} {u : Unit}
    (h : requireRange total offset size what = .ok u) : offset.toNat + size.toNat ≤ total.toNat := by
  rw [requireRange] at h
  split at h
  · obtain ⟨rest, hrest, hsize⟩ := ok_of_bind h
    obtain ⟨hle, heq⟩ := toNat_of_sub hrest
    have hfits : size.toNat ≤ rest.toNat := of_decide_eq_true (require_ok hsize)
    omega
  · simp [throw] at h

end

/-! ### Safe computations -/

/-- Only exceptions stop the computation. -/
def Safe (x : Result ε α) : Prop := ∀ fault, x = .error fault → ∃ what, fault = .thrown what

section

variable {x : Result ε α} {f : α → Result ε β}

theorem Safe.ok (a : α) : Safe (.ok a : Result ε α) := by
  intro fault h
  simp at h

theorem Safe.throw (what : ε) : Safe (throw what : Result ε α) := by
  intro fault h
  exact ⟨what, (Except.error.inj h).symm⟩

theorem Safe.bind (hx : Safe x) (hf : ∀ a, x = .ok a → Safe (f a)) : Safe (x >>= f) := by
  cases x with
  | ok a => exact hf a rfl
  | error fault =>
      intro fault' h
      exact hx fault' (by simpa [Bind.bind, Except.bind] using h)

theorem Safe.require (condition : Bool) (what : ε) : Safe (require condition what) := by
  cases condition with
  | true => exact Safe.ok ()
  | false => exact Safe.throw what

theorem Safe.add {a b : BitVec w} (h : a.toNat + b.toNat < 2 ^ w) :
    Safe (add a b : Result ε (BitVec w)) := by
  rw [Checked.add, if_pos h]
  exact Safe.ok _

theorem Safe.sub {a b : BitVec w} (h : b.toNat ≤ a.toNat) : Safe (sub a b : Result ε (BitVec w)) := by
  rw [Checked.sub, if_pos (BitVec.le_def.mpr h)]
  exact Safe.ok _

theorem Safe.mul {a b : BitVec w} (h : a.toNat * b.toNat < 2 ^ w) :
    Safe (mul a b : Result ε (BitVec w)) := by
  rw [Checked.mul, if_pos h]
  exact Safe.ok _

theorem Safe.read {buffer : List α} {offset length : BitVec w}
    (h : offset.toNat + length.toNat ≤ buffer.length) : Safe (read buffer offset length : Result ε (List α)) := by
  rw [Checked.read, if_pos h]
  exact Safe.ok _

theorem Safe.index {items : List α} {i : BitVec w} (h : i.toNat < items.length) :
    Safe (index items i : Result ε α) := by
  rw [Checked.index, List.getElem?_eq_getElem h]
  exact Safe.ok _

theorem Safe.requireRange (total offset size : BitVec w) (what : ε) :
    Safe (requireRange total offset size what) := by
  rw [Checked.requireRange]
  split
  · rename_i hle
    exact (Safe.sub hle).bind fun rest _ => Safe.require _ what
  · exact Safe.throw what

end

end Checked
