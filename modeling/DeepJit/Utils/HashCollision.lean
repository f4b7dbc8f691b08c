import DeepJit.Library.Framing
import DeepJit.Library.Mixing
import DeepJit.Utils.Hash

/-!
# What the hasher keeps apart

Each lane of `FNV1a` is mixed by bijections, so a state never forgets a difference and one changed
byte shows in both halves of every later digest. The bytes that a sequence of `update` calls mixes
are its components behind their lengths, so they determine the sequence.
-/

namespace DeepJit.Hash.FNV1a

open Function Mixing

/-! ### Lanes -/

/-- A mixing step of one lane. -/
def mixByte (multiplier lane : BitVec 64) (byte : UInt8) : BitVec 64 :=
  (lane ^^^ byte.toBitVec.setWidth 64) * multiplier

def multiplier0 : BitVec 64 := 0x100000001b3#64

def multiplier1 : BitVec 64 := 0x9e3779b97f4a7c15#64

theorem multiplier0_unit : multiplier0 * 0xce965057aff6957b#64 = 1#64 := by decide

theorem multiplier1_unit : multiplier1 * 0xf1de83e19937733d#64 = 1#64 := by decide

theorem updateByte_eq (h : FNV1a) (byte : UInt8) :
    updateByte h byte = ⟨mixByte multiplier0 h.state0 byte, mixByte multiplier1 h.state1 byte⟩ := rfl

theorem foldl_updateByte (data : Bytes) (h : FNV1a) :
    data.foldl updateByte h =
      ⟨data.foldl (mixByte multiplier0) h.state0, data.foldl (mixByte multiplier1) h.state1⟩ := by
  induction data generalizing h with
  | nil => rfl
  | cons byte data ih => rw [List.foldl_cons, ih, updateByte_eq, List.foldl_cons, List.foldl_cons]

section

variable {multiplier inverse : BitVec 64} (hunit : multiplier * inverse = 1#64)

include hunit

theorem mixByte_bijective (byte : UInt8) : Bijective fun lane => mixByte multiplier lane byte :=
  (mul_bijective hunit).comp (xor_bijective _)

theorem mixByte_byte_injective (lane : BitVec 64) : Injective (mixByte multiplier lane) := by
  intro byte byte' h
  have hxor := (mul_bijective hunit).injective h
  have hwide := (BitVec.xor_right_inj lane).mp hxor
  have hnarrow := congrArg (BitVec.setWidth 8) hwide
  rw [BitVec.setWidth_setWidth_of_le _ (by decide), BitVec.setWidth_setWidth_of_le _ (by decide),
    BitVec.setWidth_eq, BitVec.setWidth_eq] at hnarrow
  exact UInt8.toBitVec_inj.mp hnarrow

end

/-! ### The finaliser -/

theorem splitMix_bijective : Bijective splitMix := by
  have hfirst : Bijective fun value : BitVec 64 =>
      (value ^^^ (value >>> 30)) * 0xbf58476d1ce4e5b9#64 :=
    (mul_bijective (b := 0x96de1b173f119089#64) (by decide)).comp (xorShift_bijective (by decide))
  have hsecond : Bijective fun value : BitVec 64 =>
      (value ^^^ (value >>> 27)) * 0x94d049bb133111eb#64 :=
    (mul_bijective (b := 0x319642b2d24d8ec3#64) (by decide)).comp (xorShift_bijective (by decide))
  have hthird : Bijective fun value : BitVec 64 => value ^^^ (value >>> 31) :=
    xorShift_bijective (by decide)
  exact hthird.comp (hsecond.comp hfirst)

theorem hexDigit_injOn : ∀ m < 16, ∀ n < 16, hexDigit m = hexDigit n → m = n := by decide

theorem hex_length (value : BitVec 64) : (hex value).length = 16 := by simp [hex]

/-- Sixteen digits of four bits are all the bits. -/
theorem hex_injective : Injective hex := by
  intro left right h
  have hdigit : ∀ i < 16, (left >>> (60 - 4 * i)).toNat % 16 = (right >>> (60 - 4 * i)).toNat % 16 := by
    intro i hi
    apply hexDigit_injOn _ (Nat.mod_lt _ (by decide)) _ (Nat.mod_lt _ (by decide))
    have hget := congrArg (·[i]?) h
    simpa [hex, List.getElem?_map, List.getElem?_range hi] using hget
  apply BitVec.eq_of_getLsbD_eq
  intro i hi
  have hnibble := congrArg (Nat.testBit · (i % 4)) (hdigit (15 - i / 4) (by omega))
  have hlow : i % 4 < 4 := Nat.mod_lt _ (by decide)
  have hindex : 60 - 4 * (15 - i / 4) + i % 4 = i := by omega
  simp only [show 16 = 2 ^ 4 from rfl, Nat.testBit_mod_two_pow, hlow, decide_true, Bool.true_and,
    BitVec.testBit_toNat, BitVec.getLsbD_ushiftRight, hindex] at hnibble
  exact hnibble

theorem take_getHexDigest (h : FNV1a) : h.getHexDigest.take 16 = hex (splitMix h.state0) := by
  rw [getHexDigest, List.take_left' (hex_length _)]

theorem drop_getHexDigest (h : FNV1a) : h.getHexDigest.drop 16 = hex (splitMix h.state1) := by
  rw [getHexDigest, List.drop_left' (hex_length _)]

theorem getHexDigest_injective : Injective getHexDigest := by
  intro left right h
  have h0 := congrArg (List.take 16) h
  have h1 := congrArg (List.drop 16) h
  rw [take_getHexDigest, take_getHexDigest] at h0
  rw [drop_getHexDigest, drop_getHexDigest] at h1
  have hstate0 := splitMix_bijective.injective (hex_injective h0)
  have hstate1 := splitMix_bijective.injective (hex_injective h1)
  cases left
  cases right
  exact FNV1a.mk.injEq .. ▸ ⟨hstate0, hstate1⟩

/-! ### The mixed stream -/

/-- The bytes that a sequence of `update` calls mixes. -/
def stream (components : List Bytes) : Bytes := Framing.frames sizePrefix components

theorem foldl_update (components : List Bytes) (h : FNV1a) :
    components.foldl update h = (stream components).foldl updateByte h := by
  induction components generalizing h with
  | nil => rfl
  | cons data components ih =>
      rw [List.foldl_cons, ih, update, stream, stream, Framing.frames_cons]
      simp only [List.foldl_append]

/-! ### Lengths below 2^63 are told apart -/

theorem sizePrefix_length (size : Nat) : (sizePrefix size).length = 8 := by simp [sizePrefix]

theorem sizePrefix_injOn {m n : Nat} (hm : m < 2 ^ 63) (hn : n < 2 ^ 63)
    (h : sizePrefix m = sizePrefix n) : m = n := by
  have hbyte : ∀ i < 8, (m >>> (8 * i)) % 2 ^ 8 = (n >>> (8 * i)) % 2 ^ 8 := by
    intro i hi
    have hget := congrArg (·[i]?) h
    simp only [sizePrefix, List.getElem?_map, List.getElem?_range hi, Option.map_some,
      Option.some.injEq] at hget
    have hnat := congrArg UInt8.toNat hget
    simpa using hnat
  apply Nat.eq_of_testBit_eq
  intro i
  by_cases hi : i < 64
  · have hbit := congrArg (Nat.testBit · (i % 8)) (hbyte (i / 8) (by omega))
    have hindex : 8 * (i / 8) + i % 8 = i := Nat.div_add_mod i 8
    have hlow : i % 8 < 8 := Nat.mod_lt _ (by decide)
    simp only [Nat.testBit_mod_two_pow, hlow, decide_true, Bool.true_and, Nat.testBit_shiftRight,
      hindex] at hbit
    exact hbit
  · have hpow : 2 ^ 63 ≤ 2 ^ i := Nat.pow_le_pow_right (by decide) (by omega)
    rw [Nat.testBit_lt_two_pow (by omega), Nat.testBit_lt_two_pow (by omega)]

theorem sizePrefix_header : Framing.Header (2 ^ 63) sizePrefix where
  width m n := by rw [sizePrefix_length, sizePrefix_length]
  nonempty n h := by simpa [h] using sizePrefix_length n
  injOn _ _ hm hn h := sizePrefix_injOn hm hn h

/-- `std::string::size` as an `int64_t`. -/
def Sized (components : List Bytes) : Prop := ∀ data ∈ components, data.length < 2 ^ 63

theorem stream_inj {left right : List Bytes} (hleft : Sized left) (hright : Sized right) :
    stream left = stream right ↔ left = right := by
  constructor
  · exact sizePrefix_header.frames_injective hleft hright
  · exact congrArg stream

/-! ### One changed byte -/

/-- One changed byte changes both halves of the digest, whatever is mixed in afterwards, and every
mixing step is a bijection of each lane. -/
theorem differOnce_getHexDigest_ne :
    (∀ (h : FNV1a) (data data' : Bytes), DifferOnce data data' → ∀ components : List Bytes,
      (components.foldl update (h.update data)).getHexDigest.take 16 ≠
          (components.foldl update (h.update data')).getHexDigest.take 16 ∧
        (components.foldl update (h.update data)).getHexDigest.drop 16 ≠
          (components.foldl update (h.update data')).getHexDigest.drop 16) ∧
    (∀ byte, ∃ mix0 mix1 : BitVec 64 → BitVec 64, Bijective mix0 ∧ Bijective mix1 ∧
      ∀ h : FNV1a, updateByte h byte = ⟨mix0 h.state0, mix1 h.state1⟩) ∧
    Injective getHexDigest := by
  refine ⟨?_, ?_, getHexDigest_injective⟩
  · intro h data data' hdiffer components
    have hlanes : ∀ {multiplier inverse : BitVec 64}, multiplier * inverse = 1#64 → ∀ lane,
        (stream components).foldl (mixByte multiplier)
            (data.foldl (mixByte multiplier) ((sizePrefix data.length).foldl (mixByte multiplier) lane)) ≠
          (stream components).foldl (mixByte multiplier)
            (data'.foldl (mixByte multiplier) ((sizePrefix data.length).foldl (mixByte multiplier) lane)) := by
      intro multiplier inverse hunit lane heq
      have hstep := fun byte => (mixByte_bijective hunit byte).injective
      exact foldl_ne_of_differOnce hstep (mixByte_byte_injective hunit) _ hdiffer
        (foldl_injective hstep (stream components) heq)
    simp only [foldl_update, update, ← hdiffer.1, List.foldl_append, foldl_updateByte,
      take_getHexDigest, drop_getHexDigest]
    constructor
    · exact fun heq => hlanes multiplier0_unit _ (splitMix_bijective.injective (hex_injective heq))
    · exact fun heq => hlanes multiplier1_unit _ (splitMix_bijective.injective (hex_injective heq))
  · intro byte
    exact ⟨_, _, mixByte_bijective multiplier0_unit byte, mixByte_bijective multiplier1_unit byte,
      fun h => updateByte_eq h byte⟩

theorem differOnce_getHexDigest_ne_kernel :
    ([bytes "hook"].foldl update (({} : FNV1a).update (bytes "kernel"))).getHexDigest.take 16 ≠
        ([bytes "hook"].foldl update (({} : FNV1a).update (bytes "kerned"))).getHexDigest.take 16 ∧
      ([bytes "hook"].foldl update (({} : FNV1a).update (bytes "kernel"))).getHexDigest.drop 16 ≠
        ([bytes "hook"].foldl update (({} : FNV1a).update (bytes "kerned"))).getHexDigest.drop 16 :=
  differOnce_getHexDigest_ne.1 {} (bytes "kernel") (bytes "kerned")
    (differOnce_append (by decide : (108 : UInt8) ≠ 100) (bytes "kerne") []) [bytes "hook"]

end DeepJit.Hash.FNV1a
