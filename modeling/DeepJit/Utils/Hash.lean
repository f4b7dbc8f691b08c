import DeepJit.Basic
import Mathlib.Data.BitVec

/-!
# The FNV1a hasher

`hash::FNV1a` keeps two 64-bit lanes. `update` mixes in the length of its component, as eight
little-endian bytes, and then the component itself, so the digest is a function of the sequence of
components that were passed to `update`.
-/

namespace DeepJit.Hash

structure FNV1a where
  state0 : BitVec 64 := 0xc6a4a7935bd1e995#64
  state1 : BitVec 64 := 0xff51afd7ed558ccd#64
deriving DecidableEq, Repr

namespace FNV1a

def updateByte (h : FNV1a) (byte : UInt8) : FNV1a where
  state0 := (h.state0 ^^^ byte.toBitVec.setWidth 64) * 0x100000001b3#64
  state1 := (h.state1 ^^^ byte.toBitVec.setWidth 64) * 0x9e3779b97f4a7c15#64

/-- The eight bytes `size >> 0`, `size >> 8`, ..., `size >> 56` that frame a component. -/
def sizePrefix (size : Nat) : Bytes := (List.range 8).map fun i => (size >>> (8 * i)).toUInt8

def update (h : FNV1a) (data : Bytes) : FNV1a := (sizePrefix data.length ++ data).foldl updateByte h

def splitMix (value : BitVec 64) : BitVec 64 :=
  let value := (value ^^^ (value >>> 30)) * 0xbf58476d1ce4e5b9#64
  let value := (value ^^^ (value >>> 27)) * 0x94d049bb133111eb#64
  value ^^^ (value >>> 31)

def hexDigit (n : Nat) : UInt8 := if n < 10 then (48 + n).toUInt8 else (87 + n).toUInt8

/-- `{:016x}`. -/
def hex (value : BitVec 64) : Bytes :=
  (List.range 16).map fun i => hexDigit ((value >>> (60 - 4 * i)).toNat % 16)

def getHexDigest (h : FNV1a) : Bytes := hex (splitMix h.state0) ++ hex (splitMix h.state1)

theorem getHexDigest_length (h : FNV1a) : h.getHexDigest.length = 32 := by
  simp [getHexDigest, hex]

/-- The digest of a fresh hasher after the given `update` calls. -/
def digest (components : List Bytes) : Bytes := (components.foldl update {}).getHexDigest

theorem digest_length (components : List Bytes) : (digest components).length = 32 :=
  getHexDigest_length _

end FNV1a

/-- `hash::get_hex_digest`. -/
def getHexDigest (data : Bytes) : Bytes := (({} : FNV1a).update data).getHexDigest

end DeepJit.Hash
