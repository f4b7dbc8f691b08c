import DeepJit.Utils.JsonRoundTrip
import Mathlib.Algebra.Ring.Int.Defs
import Mathlib.Data.List.Induction
import Mathlib.Data.List.TakeWhile

/-!
# Environment variables

`parse_integer`, `get_env` and `Env`. A variable of a library is looked up under its own name first
and under `DJ` then, and a malformed value is an error and not an absent one. The functions return
the texts that they panic with.
-/

namespace DeepJit

/-- `getenv`. -/
abbrev Getenv := Bytes → Option Bytes

/-! ### Integers -/

structure IntegerType where
  signed : Bool
  width : Nat

namespace IntegerType

def int : IntegerType := ⟨true, 32⟩

def longLong : IntegerType := ⟨true, 64⟩

def lowest (type : IntegerType) : Int := if type.signed then -2 ^ (type.width - 1) else 0

def highest (type : IntegerType) : Int :=
  if type.signed then 2 ^ (type.width - 1) - 1 else 2 ^ type.width - 1

/-- The values of the type. -/
def Holds (type : IntegerType) (n : Int) : Prop := type.lowest ≤ n ∧ n ≤ type.highest

instance instDecidableHolds (type : IntegerType) (n : Int) : Decidable (type.Holds n) :=
  inferInstanceAs (Decidable (type.lowest ≤ n ∧ n ≤ type.highest))

end IntegerType

inductive Errc where
  | invalidArgument
  | resultOutOfRange

def digitsValue (digits : Bytes) : Nat := digits.foldl (fun n c => 10 * n + (c.toNat - 48)) 0

/-- Whether `from_chars` takes the first character for a minus sign. -/
def hasSign (type : IntegerType) (text : Bytes) : Bool := type.signed && text.head? == some 45

def unsignedText (type : IntegerType) (text : Bytes) : Bytes := if hasSign type text then text.tail else text

def signedValue (type : IntegerType) (text digits : Bytes) : Int :=
  if hasSign type text then -digitsValue digits else digitsValue digits

/-- `std::from_chars`: the value, and the text behind it. -/
def fromChars (type : IntegerType) (text : Bytes) : Except Errc Int × Bytes :=
  let digits := (unsignedText type text).takeWhile Json.isDigit
  if digits = [] then (.error .invalidArgument, text)
  else
    (if type.Holds (signedValue type text digits) then .ok (signedValue type text digits)
      else .error .resultOutOfRange,
      (unsignedText type text).dropWhile Json.isDigit)

/-- `parse_integer`. -/
def parseInteger (type : IntegerType) (raw name : Bytes) : Except Bytes Int :=
  match fromChars type raw with
  | (.ok value, []) => .ok value
  | _ => .error (bytes "invalid value for " ++ name ++ bytes ": " ++ raw)

/-! ### `get_env` -/

/-- The types that `get_env` is instantiated with, and the branch for each. -/
class EnvValue (α : Type) where
  parse : (raw name : Bytes) → Except Bytes α

instance EnvValue.string : EnvValue Bytes where
  parse raw _ := .ok raw

instance EnvValue.int : EnvValue Int where
  parse := parseInteger .int

/-- `std::tolower` in the classic locale. -/
def toLowerClassic (c : UInt8) : UInt8 := if 65 ≤ c ∧ c ≤ 90 then c + 32 else c

def parseBool (raw name : Bytes) : Except Bytes Bool :=
  let value := raw.map toLowerClassic
  if value = bytes "true" ∨ value = bytes "yes" then .ok true
  else if value = bytes "false" ∨ value = bytes "no" then .ok false
  else
    match parseInteger .longLong raw name with
    | .ok n => .ok (n ≠ 0)
    | .error what => .error what

instance EnvValue.bool : EnvValue Bool where
  parse := parseBool

section

variable {α : Type} [EnvValue α]

/-- `get_env`. -/
def getEnv (getenv : Getenv) (name : Bytes) (defaultValue : α) : Except Bytes α :=
  match getenv name with
  | none => .ok defaultValue
  | some raw => EnvValue.parse raw name

/-- `Env`. The constructor asserts both conditions on its prefix. -/
structure Env where
  leading : Bytes
  leading_ne : leading ≠ []
  leading_ne_dj : leading ≠ bytes "DJ"

namespace Env

/-- The constructor. -/
def construct (leading : Bytes) : Except Bytes Env :=
  if hempty : leading = [] then .error (bytes "environment variable prefix must not be empty")
  else if hdj : leading = bytes "DJ" then .error (bytes "DJ is reserved for global environment variables")
  else .ok ⟨leading, hempty, hdj⟩

def variableName (leading suffix : Bytes) : Bytes := leading ++ bytes "_" ++ suffix

/-- `get_with_prefix`. -/
def getWithPrefix (getenv : Getenv) (leading suffix : Bytes) : Except Bytes (Option α) :=
  match getenv (variableName leading suffix) with
  | none => .ok none
  | some raw => (EnvValue.parse raw (variableName leading suffix)).map some

/-- `get` without a default. -/
def get? (env : Env) (getenv : Getenv) (suffix : Bytes) : Except Bytes (Option α) :=
  match getWithPrefix getenv env.leading suffix with
  | .error what => .error what
  | .ok (some value) => .ok (some value)
  | .ok none => getWithPrefix getenv (bytes "DJ") suffix

/-- `get` with a default. -/
def get (env : Env) (getenv : Getenv) (suffix : Bytes) (defaultValue : α) : Except Bytes α :=
  (env.get? getenv suffix).map fun value => value.getD defaultValue

/-- `debug or env.get<bool>(suffix, false)`, which reads nothing when `debug` is set. -/
def orGet (env : Env) (getenv : Getenv) (debug : Bool) (suffix : Bytes) : Except Bytes Bool :=
  if debug then .ok true else env.get getenv suffix false

end Env

end

/-! ### What the parsers accept -/

/-- The texts of an integer: its digits behind any number of zeros, with a sign if it is negative.
Zero may have the sign as well. -/
inductive SpellsInteger (type : IntegerType) : Bytes → Int → Prop where
  | unsigned (zeros n : Nat) : SpellsInteger type (List.replicate zeros 48 ++ decimal n) n
  | negative (zeros n : Nat) (hsigned : type.signed = true) :
      SpellsInteger type (45 :: (List.replicate zeros 48 ++ decimal n)) (-n)

/-- Digits are the decimal rendering of their value behind zeros. -/
theorem digits_eq_zeros_append (digits : Bytes) (hdigits : ∀ c ∈ digits, Json.Digit c) (hne : digits ≠ []) :
    ∃ zeros, digits = List.replicate zeros 48 ++ decimal (digitsValue digits) := by
  have hsmall : ∀ c : UInt8, Json.Digit c → c.toNat - 48 < 10 ∧ 48 + (c.toNat - 48).toUInt8 = c := by
    intro c hc
    obtain ⟨hlow, hhigh⟩ := hc
    rw [UInt8.le_iff_toNat_le] at hlow hhigh
    have hlow' : 48 ≤ c.toNat := hlow
    have hhigh' : c.toNat ≤ 57 := hhigh
    refine ⟨by omega, UInt8.toNat_inj.mp ?_⟩
    rw [UInt8.toNat_add, Nat.toUInt8_eq, UInt8.toNat_ofNat', Nat.mod_eq_of_lt (by omega : c.toNat - 48 < 2 ^ 8)]
    change (48 + (c.toNat - 48)) % 2 ^ 8 = c.toNat
    omega
  -- the last digit apart from the others, as `decimal` renders them
  induction digits using List.reverseRecOn with
  | nil => exact absurd rfl hne
  | append_singleton front c ih =>
      obtain ⟨hlt, hc⟩ := hsmall c (hdigits c (by simp))
      have hvalue : digitsValue (front ++ [c]) = 10 * digitsValue front + (c.toNat - 48) := by
        simp [digitsValue]
      rw [hvalue]
      by_cases hfront : front = []
      · subst hfront
        refine ⟨0, ?_⟩
        rw [show 10 * digitsValue [] + (c.toNat - 48) = c.toNat - 48 by simp [digitsValue],
          decimal_of_lt hlt, hc]
        rfl
      · obtain ⟨zeros, hzeros⟩ := ih (fun d hd => hdigits d (by simp [hd])) hfront
        by_cases hzero : digitsValue front = 0
        · have hnil : decimal 0 = [48] := by decide
          rw [hzero, hnil] at hzeros
          refine ⟨zeros + 1, ?_⟩
          rw [hzero, Nat.mul_zero, Nat.zero_add, decimal_of_lt hlt, hc, hzeros, List.replicate_succ']
        · refine ⟨zeros, ?_⟩
          rw [decimal_of_le (by omega), show (10 * digitsValue front + (c.toNat - 48)) / 10 = digitsValue front by omega,
            show (10 * digitsValue front + (c.toNat - 48)) % 10 = c.toNat - 48 by omega, hc,
            ← List.append_assoc, ← hzeros]

/-- Zeros in front of a decimal rendering leave its value. -/
theorem digits_zeros_append (zeros n : Nat) :
    (∀ c ∈ List.replicate zeros 48 ++ decimal n, Json.Digit c) ∧
      digitsValue (List.replicate zeros 48 ++ decimal n) = n ∧ List.replicate zeros 48 ++ decimal n ≠ [] := by
  obtain ⟨hdigits, hvalue, -, -⟩ := Json.decimal_spec n
  obtain ⟨c, rest, hcons, -⟩ := Json.exists_decimal_cons n
  refine ⟨?_, ?_, by simp [hcons]⟩
  · intro d hd
    rcases List.mem_append.mp hd with hzero | hdigit
    · rw [List.eq_of_mem_replicate hzero]
      exact ⟨by decide, by decide⟩
    · exact hdigits d hdigit
  · induction zeros with
    | zero => exact hvalue
    | succ zeros ih => exact ih

/-- The texts that are digits altogether, with their value. -/
theorem digits_iff (text : Bytes) (n : Nat) :
    (text.takeWhile Json.isDigit ≠ [] ∧ text.dropWhile Json.isDigit = [] ∧
        digitsValue (text.takeWhile Json.isDigit) = n) ↔
      ∃ zeros, text = List.replicate zeros 48 ++ decimal n := by
  constructor
  · rintro ⟨hne, hdrop, hvalue⟩
    have hall := List.dropWhile_eq_nil_iff.mp hdrop
    have htake := List.takeWhile_eq_self_iff.mpr hall
    rw [htake] at hne hvalue
    rw [← hvalue]
    exact digits_eq_zeros_append text (fun c hc => Json.isDigit_iff.mp (hall c hc)) hne
  · rintro ⟨zeros, rfl⟩
    obtain ⟨hdigits, hvalue, hne⟩ := digits_zeros_append zeros n
    have hspan := Json.span_digits hdigits Json.ends_nil
    rw [List.append_nil] at hspan
    rw [hspan.1, hspan.2]
    exact ⟨hne, rfl, hvalue⟩

theorem parseInteger_eq_ok (type : IntegerType) (raw name : Bytes) (n : Int) :
    parseInteger type raw name = .ok n ↔ type.Holds n ∧
      ∃ v : Nat, n = (if hasSign type raw then -(v : Int) else v) ∧
        ∃ zeros, unsignedText type raw = List.replicate zeros 48 ++ decimal v := by
  simp only [← digits_iff]
  unfold parseInteger fromChars
  by_cases hne : (unsignedText type raw).takeWhile Json.isDigit = []
  · simp [hne]
  · cases hdrop : (unsignedText type raw).dropWhile Json.isDigit with
    | cons c rest => simp [hne]
    | nil =>
        by_cases hholds : type.Holds (signedValue type raw ((unsignedText type raw).takeWhile Json.isDigit))
        · simp only [hne, hholds, if_false, if_true, Except.ok.injEq]
          constructor
          · rintro rfl
            exact ⟨hholds, _, rfl, hne, trivial, rfl⟩
          · rintro ⟨-, v, rfl, -, -, rfl⟩
            rfl
        · simp only [hne, hholds, if_false, reduceCtorEq, false_iff]
          rintro ⟨hn, v, rfl, -, -, rfl⟩
          exact hholds hn

/-- `parse_integer` accepts the texts of the values of its type. -/
theorem parseInteger_eq_ok_iff (type : IntegerType) (raw name : Bytes) (n : Int) :
    parseInteger type raw name = .ok n ↔ type.Holds n ∧ SpellsInteger type raw n := by
  rw [parseInteger_eq_ok]
  refine and_congr_right fun _ => ⟨?_, ?_⟩
  · rintro ⟨v, rfl, zeros, htext⟩
    by_cases hsign : hasSign type raw = true
    · rw [unsignedText, if_pos hsign] at htext
      simp only [hasSign, Bool.and_eq_true, beq_iff_eq] at hsign
      obtain ⟨rest, rfl⟩ := List.head?_eq_some_iff.mp hsign.2
      rw [List.tail_cons] at htext
      subst htext
      simp only [hasSign, hsign.1]
      exact .negative zeros v hsign.1
    · rw [unsignedText, if_neg hsign] at htext
      subst htext
      rw [if_neg hsign]
      exact .unsigned zeros v
  · intro hspells
    cases hspells with
    | unsigned zeros v =>
        have hsign : hasSign type (List.replicate zeros 48 ++ decimal v) = false := by
          obtain ⟨hdigits, -, hne⟩ := digits_zeros_append zeros v
          obtain ⟨c, rest, hcons⟩ := List.exists_cons_of_ne_nil hne
          have hc := hdigits c (by rw [hcons]; simp)
          have hminus : c ≠ 45 := by
            rintro rfl
            exact absurd hc.1 (by decide)
          simp [hasSign, hcons, hminus]
        exact ⟨v, by rw [hsign]; rfl, zeros, by rw [unsignedText, hsign]; rfl⟩
    | negative zeros v hsigned =>
        have hsign : hasSign type (45 :: (List.replicate zeros 48 ++ decimal v)) = true := by
          simp [hasSign, hsigned]
        exact ⟨v, by rw [if_pos hsign], zeros, by rw [unsignedText, if_pos hsign, List.tail_cons]⟩

/-- The texts of a flag: one of four words in any case, or an integer. -/
inductive SpellsBool : Bytes → Bool → Prop where
  | yes {raw : Bytes} (hword : raw.map toLowerClassic = bytes "true" ∨ raw.map toLowerClassic = bytes "yes") :
      SpellsBool raw true
  | no {raw : Bytes} (hword : raw.map toLowerClassic = bytes "false" ∨ raw.map toLowerClassic = bytes "no") :
      SpellsBool raw false
  | integer {raw : Bytes} {n : Int} (hholds : IntegerType.longLong.Holds n)
      (hspells : SpellsInteger .longLong raw n) : SpellsBool raw (n ≠ 0)

theorem SpellsInteger.head_le {type : IntegerType} {c : UInt8} {rest : Bytes} {n : Int}
    (h : SpellsInteger type (c :: rest) n) : c ≤ 57 := by
  generalize htext : c :: rest = text at h
  cases h with
  | unsigned zeros v =>
      obtain ⟨hdigits, -, -⟩ := digits_zeros_append zeros v
      exact (hdigits c (by rw [← htext]; simp)).2
  | negative zeros v hsigned =>
      rw [(List.cons.inj htext).1]
      decide

/-- No word is an integer. -/
theorem not_spellsInteger_of_letter {type : IntegerType} {raw rest : Bytes} {c : UInt8} {n : Int}
    (hlower : raw.map toLowerClassic = c :: rest) (hc : 57 < c) : ¬SpellsInteger type raw n := by
  obtain ⟨d, tail, rfl, rfl, -⟩ := List.map_eq_cons_iff.mp hlower
  intro hspells
  have hd := hspells.head_le
  rw [UInt8.le_iff_toNat_le] at hd
  have hupper : ¬(65 ≤ d ∧ d ≤ 90) := by
    rw [UInt8.le_iff_toNat_le]
    have h57 : (57 : UInt8).toNat = 57 := rfl
    have h65 : (65 : UInt8).toNat = 65 := rfl
    omega
  rw [toLowerClassic, if_neg hupper, UInt8.lt_iff_toNat_lt] at hc
  omega

theorem parseBool_eq_ok_iff (raw name : Bytes) (b : Bool) : parseBool raw name = .ok b ↔ SpellsBool raw b := by
  unfold parseBool
  by_cases hyes : raw.map toLowerClassic = bytes "true" ∨ raw.map toLowerClassic = bytes "yes"
  · simp only [hyes, if_true, Except.ok.injEq]
    constructor
    · rintro rfl
      exact .yes hyes
    · intro h
      cases h with
      | yes => rfl
      | no hno => exact absurd hyes (by rcases hno with h | h <;> rw [h] <;> decide)
      | integer _ hspells =>
          rcases hyes with h | h
          · exact absurd hspells (not_spellsInteger_of_letter h (by decide))
          · exact absurd hspells (not_spellsInteger_of_letter h (by decide))
  · by_cases hno : raw.map toLowerClassic = bytes "false" ∨ raw.map toLowerClassic = bytes "no"
    · simp only [hyes, hno, if_false, if_true, Except.ok.injEq]
      constructor
      · rintro rfl
        exact .no hno
      · intro h
        cases h with
        | yes hyes' => exact absurd hyes' hyes
        | no => rfl
        | integer _ hspells =>
            rcases hno with h | h
            · exact absurd hspells (not_spellsInteger_of_letter h (by decide))
            · exact absurd hspells (not_spellsInteger_of_letter h (by decide))
    · simp only [hyes, hno, if_false]
      constructor
      · intro h
        cases hparse : parseInteger .longLong raw name with
        | error what => simp [hparse] at h
        | ok n =>
            obtain ⟨hholds, hspells⟩ := (parseInteger_eq_ok_iff _ _ _ _).mp hparse
            simp only [hparse, Except.ok.injEq] at h
            subst h
            exact .integer hholds hspells
      · intro h
        cases h with
        | yes hyes' => exact absurd hyes' hyes
        | no hno' => exact absurd hno' hno
        | integer hholds hspells => rw [(parseInteger_eq_ok_iff _ _ name _).mpr ⟨hholds, hspells⟩]

/-! ### What `Env` returns -/

/-- A type whose parser accepts exactly the texts of its values, and names the variable otherwise. -/
class LawfulEnvValue (α : Type) extends EnvValue α where
  Spells : Bytes → α → Prop
  parse_eq_ok_iff : ∀ (raw name : Bytes) (value : α), parse raw name = .ok value ↔ Spells raw value
  parse_eq_error : ∀ (raw name what : Bytes), parse raw name = .error what →
    what = bytes "invalid value for " ++ name ++ bytes ": " ++ raw

theorem parseInteger_eq_error {type : IntegerType} {raw name what : Bytes}
    (h : parseInteger type raw name = .error what) :
    what = bytes "invalid value for " ++ name ++ bytes ": " ++ raw := by
  unfold parseInteger at h
  split at h
  · simp at h
  · exact (Except.error.inj h).symm

theorem parseBool_eq_error {raw name what : Bytes} (h : parseBool raw name = .error what) :
    what = bytes "invalid value for " ++ name ++ bytes ": " ++ raw := by
  unfold parseBool at h
  by_cases hyes : raw.map toLowerClassic = bytes "true" ∨ raw.map toLowerClassic = bytes "yes"
  · simp [hyes] at h
  · by_cases hno : raw.map toLowerClassic = bytes "false" ∨ raw.map toLowerClassic = bytes "no"
    · simp [hyes, hno] at h
    · simp only [hyes, hno, if_false] at h
      cases hparse : parseInteger .longLong raw name with
      | ok n => simp [hparse] at h
      | error text =>
          simp only [hparse, Except.error.injEq] at h
          rw [← h]
          exact parseInteger_eq_error hparse

instance LawfulEnvValue.string : LawfulEnvValue Bytes where
  Spells raw value := raw = value
  parse_eq_ok_iff raw name value := by simp [EnvValue.parse]
  parse_eq_error raw name what h := by simp [EnvValue.parse] at h

instance LawfulEnvValue.int : LawfulEnvValue Int where
  Spells raw n := IntegerType.int.Holds n ∧ SpellsInteger .int raw n
  parse_eq_ok_iff := parseInteger_eq_ok_iff .int
  parse_eq_error _ _ _ := parseInteger_eq_error

instance LawfulEnvValue.bool : LawfulEnvValue Bool where
  Spells := SpellsBool
  parse_eq_ok_iff := parseBool_eq_ok_iff
  parse_eq_error _ _ _ := parseBool_eq_error

namespace Env

/-- The variable that decides a setting, and its text: the library's own one if it is set. -/
def deciding (env : Env) (getenv : Getenv) (suffix : Bytes) : Option (Bytes × Bytes) :=
  match getenv (variableName env.leading suffix) with
  | some raw => some (variableName env.leading suffix, raw)
  | none => (getenv (variableName (bytes "DJ") suffix)).map (variableName (bytes "DJ") suffix, ·)

section

variable {α : Type} [LawfulEnvValue α] (env : Env) {getenv : Getenv} {suffix : Bytes}

theorem get?_of_undecided (h : env.deciding getenv suffix = none) :
    env.get? getenv suffix = .ok (none : Option α) := by
  unfold deciding at h
  cases hown : getenv (variableName env.leading suffix) with
  | some raw => simp [hown] at h
  | none =>
      simp only [hown, Option.map_eq_none_iff] at h
      simp only [get?, getWithPrefix, hown, h]

theorem get?_of_decided {name raw : Bytes} (h : env.deciding getenv suffix = some (name, raw)) :
    env.get? getenv suffix = (EnvValue.parse raw name : Except Bytes α).map some := by
  unfold deciding at h
  cases hown : getenv (variableName env.leading suffix) with
  | some raw' =>
      simp only [hown, Option.some.injEq, Prod.mk.injEq] at h
      obtain ⟨rfl, rfl⟩ := h
      simp only [get?, getWithPrefix, hown]
      cases (EnvValue.parse raw' (variableName env.leading suffix) : Except Bytes α) with
      | ok value => rfl
      | error what => rfl
  | none =>
      simp only [hown, Option.map_eq_some_iff, Prod.mk.injEq] at h
      obtain ⟨raw', hraw, rfl, rfl⟩ := h
      simp only [get?, getWithPrefix, hown, hraw]

theorem get_of_undecided (h : env.deciding getenv suffix = none) (defaultValue : α) :
    env.get getenv suffix defaultValue = .ok defaultValue := by
  rw [get, env.get?_of_undecided h]
  rfl

theorem get_of_decided {name raw : Bytes} (h : env.deciding getenv suffix = some (name, raw)) (defaultValue : α) :
    env.get getenv suffix defaultValue = EnvValue.parse raw name := by
  rw [get, env.get?_of_decided h]
  cases (EnvValue.parse raw name : Except Bytes α) with
  | ok value => rfl
  | error what => rfl

end

theorem get_eq_ok_iff {α : Type} [LawfulEnvValue α] (env : Env) (getenv : Getenv) (suffix : Bytes)
    (defaultValue value : α) :
    env.get getenv suffix defaultValue = .ok value ↔
      (env.deciding getenv suffix = none ∧ value = defaultValue) ∨
        ∃ name raw, env.deciding getenv suffix = some (name, raw) ∧ LawfulEnvValue.Spells raw value := by
  cases hdeciding : env.deciding getenv suffix with
  | none => simp [get_of_undecided env hdeciding, eq_comm]
  | some variable_ =>
      obtain ⟨name, raw⟩ := variable_
      rw [get_of_decided env hdeciding, LawfulEnvValue.parse_eq_ok_iff]
      simp

theorem parse_eq_error_iff {α : Type} [LawfulEnvValue α] (raw name what : Bytes) :
    (EnvValue.parse raw name : Except Bytes α) = .error what ↔
      (∀ value : α, ¬LawfulEnvValue.Spells raw value) ∧
        what = bytes "invalid value for " ++ name ++ bytes ": " ++ raw := by
  constructor
  · intro h
    refine ⟨fun value hspells => ?_, LawfulEnvValue.parse_eq_error raw name what h⟩
    rw [(LawfulEnvValue.parse_eq_ok_iff raw name value).mpr hspells] at h
    simp at h
  · rintro ⟨hnone, rfl⟩
    cases hparse : (EnvValue.parse raw name : Except Bytes α) with
    | ok value => exact absurd ((LawfulEnvValue.parse_eq_ok_iff raw name value).mp hparse) (hnone value)
    | error what => rw [LawfulEnvValue.parse_eq_error raw name what hparse]

theorem get_eq_error_iff {α : Type} [LawfulEnvValue α] (env : Env) (getenv : Getenv) (suffix : Bytes)
    (defaultValue : α) (what : Bytes) :
    env.get getenv suffix defaultValue = .error what ↔
      ∃ name raw, env.deciding getenv suffix = some (name, raw) ∧
        (∀ value : α, ¬LawfulEnvValue.Spells raw value) ∧
        what = bytes "invalid value for " ++ name ++ bytes ": " ++ raw := by
  cases hdeciding : env.deciding getenv suffix with
  | none => simp [get_of_undecided env hdeciding]
  | some variable_ =>
      obtain ⟨name, raw⟩ := variable_
      rw [get_of_decided env hdeciding, parse_eq_error_iff]
      simp

/-- Integer and flag settings have the value that the deciding variable spells, or their default if
there is none. A deciding variable that spells no value is an error that names it, whatever the
other variable is. -/
theorem settings_exact (env : Env) (getenv : Getenv) (suffix : Bytes) :
    (∀ defaultValue n : Int, env.get getenv suffix defaultValue = .ok n ↔
      (env.deciding getenv suffix = none ∧ n = defaultValue) ∨
        ∃ name raw, env.deciding getenv suffix = some (name, raw) ∧ IntegerType.int.Holds n ∧
          SpellsInteger .int raw n) ∧
    (∀ (defaultValue : Int) (what : Bytes), env.get getenv suffix defaultValue = .error what ↔
      ∃ name raw, env.deciding getenv suffix = some (name, raw) ∧
        (∀ n : Int, ¬(IntegerType.int.Holds n ∧ SpellsInteger .int raw n)) ∧
        what = bytes "invalid value for " ++ name ++ bytes ": " ++ raw) ∧
    (∀ defaultValue value : Bool, env.get getenv suffix defaultValue = .ok value ↔
      (env.deciding getenv suffix = none ∧ value = defaultValue) ∨
        ∃ name raw, env.deciding getenv suffix = some (name, raw) ∧ SpellsBool raw value) ∧
    ∀ (defaultValue : Bool) (what : Bytes), env.get getenv suffix defaultValue = .error what ↔
      ∃ name raw, env.deciding getenv suffix = some (name, raw) ∧
        (∀ value, ¬SpellsBool raw value) ∧
        what = bytes "invalid value for " ++ name ++ bytes ": " ++ raw :=
  ⟨fun defaultValue => env.get_eq_ok_iff getenv suffix defaultValue,
    fun defaultValue => env.get_eq_error_iff getenv suffix defaultValue,
    fun defaultValue => env.get_eq_ok_iff getenv suffix defaultValue,
    fun defaultValue => env.get_eq_error_iff getenv suffix defaultValue⟩

end Env

/-- The variable of all libraries decides where the own one is not set. -/
example : Env.get ⟨bytes "EP", by decide, by decide⟩
    (fun name => if name = bytes "DJ_JIT_CPP_STANDARD" then some (bytes "0017") else none)
    (bytes "JIT_CPP_STANDARD") (20 : Int) = .ok 17 := by rfl

end DeepJit
