import DeepJit.Utils.Json
import Mathlib.Data.List.Basic

/-!
# JSON texts and the values they say

`dump` writes a value that the decoder reads back, in a text that the grammar accepts. The text
depends on what is said only: `render` writes the same text from the value alone.
-/

namespace DeepJit

/-! ### Decimal numbers -/

theorem decimal_of_lt {n : Nat} (hn : n < 10) : decimal n = [48 + n.toUInt8] := by
  have hdigit : ∀ n < 10, (Nat.digitChar n).toNat.toUInt8 = 48 + n.toUInt8 := by decide
  rw [decimal, Nat.toDigits_of_lt_base hn, List.map_singleton, hdigit n hn]

theorem decimal_of_le {n : Nat} (hn : 10 ≤ n) :
    decimal n = decimal (n / 10) ++ [48 + (n % 10).toUInt8] := by
  have hlast : [48 + (n % 10).toUInt8] = decimal (n % 10) :=
    (decimal_of_lt (Nat.mod_lt n (by decide))).symm
  rw [hlast, decimal, decimal, decimal, Nat.toDigits_of_base_le (by decide) hn, List.map_append,
    Nat.toDigits_of_lt_base (Nat.mod_lt n (by decide)), List.map_singleton]

namespace Json

theorem isDigit_iff {c : UInt8} : isDigit c = true ↔ Digit c := by
  simp [isDigit, Digit]

/-- The last digit apart from the others. -/
theorem decimal_spec (n : Nat) :
    (∀ c ∈ decimal n, Digit c) ∧ (decimal n).foldl (fun n c => 10 * n + (c.toNat - 48)) 0 = n ∧
      (n = 0 → decimal n = [48]) ∧ (n ≠ 0 → ∃ c rest, decimal n = c :: rest ∧ c ≠ 48) := by
  have hdigit : ∀ n < 10, (48 ≤ 48 + n.toUInt8 ∧ 48 + n.toUInt8 ≤ 57) ∧
      (48 + n.toUInt8).toNat - 48 = n ∧ (n ≠ 0 → 48 + n.toUInt8 ≠ 48) := by decide
  induction n using Nat.strong_induction_on with
  | _ n ih =>
      by_cases hn : n < 10
      · obtain ⟨hrange, hvalue, hnonzero⟩ := hdigit n hn
        rw [decimal_of_lt hn]
        refine ⟨?_, ?_, ?_, fun h => ⟨_, _, rfl, hnonzero h⟩⟩
        · intro c hc
          rw [List.mem_singleton.mp hc]
          exact hrange
        · rw [List.foldl_cons, List.foldl_nil, hvalue]
          omega
        · intro hzero
          rw [hzero]
          rfl
      · obtain ⟨hdigits, hfold, -, hhead⟩ := ih (n / 10) (by omega)
        obtain ⟨hrange, hvalue, -⟩ := hdigit (n % 10) (Nat.mod_lt n (by decide))
        obtain ⟨c, rest, hrest, hc⟩ := hhead (by omega)
        rw [decimal_of_le (by omega)]
        refine ⟨?_, ?_, by omega, fun _ => ⟨c, rest ++ [48 + (n % 10).toUInt8], by rw [hrest]; rfl, hc⟩⟩
        · intro d hd
          obtain hd | hd := List.mem_append.mp hd
          · exact hdigits d hd
          · rw [List.mem_singleton.mp hd]
            exact hrange
        · rw [List.foldl_append, hfold, List.foldl_cons, List.foldl_nil, hvalue]
          omega

/-- What may follow a number. -/
def Ends (rest : Bytes) : Prop := ∀ c tail, rest = c :: tail → isDigit c = false

theorem span_digits {digits rest : Bytes} (hdigits : ∀ c ∈ digits, Digit c) (hrest : Ends rest) :
    (digits ++ rest).takeWhile isDigit = digits ∧ (digits ++ rest).dropWhile isDigit = rest := by
  have hall : ∀ c ∈ digits, isDigit c = true := fun c hc => isDigit_iff.mpr (hdigits c hc)
  rw [List.takeWhile_append_of_pos hall, List.dropWhile_append_of_pos hall]
  cases rest with
  | nil => simp
  | cons c tail => simp [hrest c tail rfl]

theorem decodeNatural_decimal (n : Nat) {rest : Bytes} (hrest : Ends rest) :
    decodeNatural (decimal n ++ rest) = some (n, rest) := by
  obtain ⟨hdigits, hfold, hzero, hnonzero⟩ := decimal_spec n
  obtain ⟨htake, hdrop⟩ := span_digits hdigits hrest
  rw [decodeNatural, htake, hdrop, hfold]
  apply if_neg
  by_cases hn : n = 0
  · simp [hzero hn]
  · obtain ⟨c, tail, htail, hc⟩ := hnonzero hn
    simp [htail, hc]

/-! ### Strings -/

/-- A string in quotes. -/
def quote (text : Bytes) : Bytes := 34 :: (text.flatMap escape ++ [34])

theorem dumpString_eq (output text : Bytes) : dumpString output text = output ++ quote text := by
  have hfold : ∀ start : Bytes, text.foldl (fun output c => output ++ escape c) start =
      start ++ text.flatMap escape := by
    induction text with
    | nil => simp
    | cons c text ih =>
        intro start
        rw [List.foldl_cons, ih, List.flatMap_cons, List.append_assoc]
  rw [dumpString, hfold, quote]
  simp

instance (c : UInt8) : Decidable (HexDigit c) :=
  inferInstanceAs (Decidable ((48 ≤ c ∧ c ≤ 57) ∨ (97 ≤ c ∧ c ≤ 102) ∨ (65 ≤ c ∧ c ≤ 70)))

/-- The digits of a control character. -/
theorem hex_control : ∀ n < 32, HexDigit (hex (n.toUInt8 >>> 4)) ∧ HexDigit (hex (n.toUInt8 &&& 0x0f)) ∧
    codeValue 48 48 (hex (n.toUInt8 >>> 4)) (hex (n.toUInt8 &&& 0x0f)) = some n.toUInt8 := by decide

/-- The three kinds of characters that `dump_string` writes. -/
theorem escape_cases (c : UInt8) :
    (∃ letter, escape c = [92, letter] ∧ letter ∈ bytes "\"\\/bfnrt" ∧ letter ≠ 117 ∧ escapeValue letter = some c) ∨
    (∃ high low, escape c = [92, 117, 48, 48, high, low] ∧ HexDigit high ∧ HexDigit low ∧
      codeValue 48 48 high low = some c) ∨
    (escape c = [c] ∧ 0x20 ≤ c ∧ c ≠ 34 ∧ c ≠ 92) := by
  by_cases hletter : c ∈ ([34, 92, 8, 12, 10, 13, 9] : Bytes)
  · left
    simp only [List.mem_cons, List.not_mem_nil, or_false] at hletter
    obtain rfl | rfl | rfl | rfl | rfl | rfl | rfl := hletter
    · exact ⟨34, by decide⟩
    · exact ⟨92, by decide⟩
    · exact ⟨98, by decide⟩
    · exact ⟨102, by decide⟩
    · exact ⟨110, by decide⟩
    · exact ⟨114, by decide⟩
    · exact ⟨116, by decide⟩
  · right
    simp only [List.mem_cons, List.not_mem_nil, or_false, not_or] at hletter
    obtain ⟨hquote, hbackslash, hb, hf, hn, hr, ht⟩ := hletter
    by_cases hcontrol : c < 0x20
    · obtain ⟨hhigh, hlow, hvalue⟩ := hex_control c.toNat (UInt8.lt_iff_toNat_lt.mp hcontrol)
      have hself : c.toNat.toUInt8 = c := by simp
      rw [hself] at hhigh hlow hvalue
      refine .inl ⟨_, _, ?_, hhigh, hlow, hvalue⟩
      simp [escape, hquote, hbackslash, hb, hf, hn, hr, ht, hcontrol, bytes]
    · refine .inr ⟨?_, UInt8.not_lt.mp hcontrol, hquote, hbackslash⟩
      simp [escape, hquote, hbackslash, hb, hf, hn, hr, ht, hcontrol]

theorem text_quote (text : Bytes) : Text (quote text) := by
  rw [quote, List.flatMap_def]
  apply Text.quoted
  intro character hcharacter
  obtain ⟨c, -, rfl⟩ := List.mem_map.mp hcharacter
  obtain ⟨letter, hescape, hletter, -, -⟩ | ⟨high, low, hescape, hhigh, hlow, -⟩ |
    ⟨hescape, hcontrol, hquote, hbackslash⟩ := escape_cases c
  · rw [hescape]
    exact .escaped hletter
  · rw [hescape]
    exact .code (by decide) (by decide) hhigh hlow
  · rw [hescape]
    exact .raw hcontrol hquote hbackslash

theorem decodeString_quote (text rest : Bytes) :
    decodeString (text.flatMap escape ++ 34 :: rest) = some (text, rest) := by
  induction text with
  | nil => rfl
  | cons c text ih =>
      rw [List.flatMap_cons, List.append_assoc]
      obtain ⟨letter, hescape, -, hletter, hvalue⟩ | ⟨high, low, hescape, -, -, hvalue⟩ |
        ⟨hescape, hcontrol, hquote, hbackslash⟩ := escape_cases c
      · rw [hescape]
        show decodeString (92 :: letter :: (text.flatMap escape ++ 34 :: rest)) = _
        rw [decodeString]
        · simp only [hvalue, ih]
        · exact fun _ _ _ _ _ h => absurd h hletter
      · rw [hescape]
        show decodeString (92 :: 117 :: 48 :: 48 :: high :: low :: (text.flatMap escape ++ 34 :: rest)) = _
        rw [decodeString]
        simp only [hvalue, ih]
      · rw [hescape]
        show decodeString (c :: (text.flatMap escape ++ 34 :: rest)) = _
        rw [decodeString]
        · have hplain : ¬ (c < 0x20 ∨ c = 92) := not_or.mpr ⟨UInt8.not_lt.mpr hcontrol, hbackslash⟩
          rw [if_neg hplain, ih]
        · exact hquote
        · exact fun _ _ _ _ _ h => absurd h hbackslash
        · exact fun _ _ h => absurd h hbackslash

/-! ### Values -/

mutual

/-- The text of a value. -/
def render : Value → Bytes
  | .null => bytes "null"
  | .bool value => if value then bytes "true" else bytes "false"
  | .integer n => decimalInt n
  | .string text => quote text
  | .array items => 91 :: (separated (renderItems items) ++ [93])
  | .object members => 123 :: (separated (renderMembers members) ++ [125])

def renderItems : List Value → List Bytes
  | [] => []
  | item :: items => render item :: renderItems items

def renderMembers : List (Bytes × Value) → List Bytes
  | [] => []
  | (key, item) :: members => (quote key ++ 58 :: render item) :: renderMembers members

end

/-- The items as a loop writes them that has begun or not. -/
def joined (first : Bool) (items : List Bytes) : Bytes :=
  if first then separated items else items.flatMap fun item => 44 :: item

theorem joined_cons (first : Bool) (output item : Bytes) (items : List Bytes) :
    (if first then output else output ++ [44]) ++ item ++ joined false items =
      output ++ joined first (item :: items) := by
  cases first <;> simp [joined, separated]

mutual

theorem dumpTo_eq (output : Bytes) : (v : Json) → dumpTo output v = output ++ render (value v)
  | .null => rfl
  | .bool b => rfl
  | .int64 n => rfl
  | .uint64 n => by
      rw [dumpTo, value, render]
      rfl
  | .string text => by rw [dumpTo, dumpString_eq, value, render]
  | .array items => by
      rw [dumpTo, dumpItems_eq true (output ++ [91]) items, value, render, joined]
      simp
  | .object members => by
      rw [dumpTo, dumpMembers_eq true (output ++ [123]) members, value, render, joined]
      simp

theorem dumpItems_eq (first : Bool) (output : Bytes) : (items : List Json) →
    dumpItems first output items = output ++ joined first (renderItems (values items))
  | [] => by cases first <;> simp [dumpItems, values, renderItems, joined, separated]
  | item :: items => by
      rw [dumpItems, dumpItems_eq false _ items, dumpTo_eq _ item, joined_cons, values, renderItems]

theorem dumpMembers_eq (first : Bool) (output : Bytes) : (members : List (Bytes × Json)) →
    dumpMembers first output members = output ++ joined first (renderMembers (memberValues members))
  | [] => by cases first <;> simp [dumpMembers, memberValues, renderMembers, joined, separated]
  | (key, item) :: members => by
      rw [dumpMembers, dumpMembers_eq false _ members, dumpTo_eq _ item, dumpString_eq, memberValues,
        renderMembers, ← joined_cons]
      simp

end

theorem dump_eq (v : Json) : v.dump = render v.value := by
  rw [dump, dumpTo_eq, List.nil_append]

/-! ### The grammar accepts -/

theorem natural_decimal (n : Nat) : Natural (decimal n) := by
  obtain ⟨hdigits, -, hzero, hnonzero⟩ := decimal_spec n
  by_cases hn : n = 0
  · rw [hzero hn]
    exact .zero
  · obtain ⟨c, rest, hrest, hc⟩ := hnonzero hn
    rw [hrest, List.forall_mem_cons] at hdigits
    rw [hrest]
    exact .digits hdigits.1 hc hdigits.2

theorem accepts_decimalInt (n : Int) : Accepts (decimalInt n) := by
  cases n with
  | ofNat n =>
      have h := Accepts.number (.inl rfl) (natural_decimal n) .none .none
      show Accepts (decimal n)
      simpa using h
  | negSucc n =>
      have h := Accepts.number (.inr rfl) (natural_decimal (n + 1)) .none .none
      show Accepts (45 :: decimal (n + 1))
      simpa using h

theorem renderMembers_eq (members : List (Bytes × Value)) :
    renderMembers members = List.zipWith (fun key item => key ++ 58 :: item)
      (members.map fun member => quote member.1) (renderItems (members.map Prod.snd)) := by
  induction members with
  | nil => rfl
  | cons member members ih =>
      rw [List.map_cons, List.map_cons, renderItems, List.zipWith_cons_cons, ← ih]
      rfl

theorem renderItems_length (items : List Value) : (renderItems items).length = items.length := by
  induction items with
  | nil => rfl
  | cons item items ih => rw [renderItems, List.length_cons, List.length_cons, ih]

mutual

theorem accepts_render : (v : Value) → Accepts (render v)
  | .null => .null
  | .bool true => .true
  | .bool false => .false
  | .integer n => accepts_decimalInt n
  | .string text => .string (text_quote text)
  | .array [] => @Accepts.emptyArray [] (by simp [Space])
  | .array (item :: items) => by
      rw [render]
      exact .array (List.cons_ne_nil _ _) (accepts_renderItems (item :: items))
  | .object [] => @Accepts.emptyObject [] (by simp [Space])
  | .object (member :: members) => by
      rw [render, renderMembers_eq]
      refine .object (by simp) (by rw [renderItems_length]; simp) ?_ (accepts_renderMembers (member :: members))
      intro key hkey
      obtain ⟨other, -, rfl⟩ := List.mem_map.mp hkey
      exact ⟨[], quote other.1, [], by simp [Space], text_quote other.1, by simp [Space], by simp⟩

theorem accepts_renderItems : (items : List Value) → ∀ text ∈ renderItems items, Accepts text
  | [] => by simp [renderItems]
  | item :: items => by
      rw [renderItems, List.forall_mem_cons]
      exact ⟨accepts_render item, accepts_renderItems items⟩

theorem accepts_renderMembers : (members : List (Bytes × Value)) →
    ∀ text ∈ renderItems (members.map Prod.snd), Accepts text
  | [] => by simp [renderItems]
  | (_, item) :: members => by
      rw [List.map_cons, renderItems, List.forall_mem_cons]
      exact ⟨accepts_render item, accepts_renderMembers members⟩

end

/-! ### The decoder reads the value back -/

theorem skip_cons {c : UInt8} (hc : isBlank c = false) (rest : Bytes) : skip (c :: rest) = c :: rest := by
  rw [skip, List.dropWhile_cons, if_neg (by simp [hc])]

theorem expect_append (literal rest : Bytes) : expect literal (literal ++ rest) = some rest := by
  have hstarts : literal.isPrefixOf (literal ++ rest) = true := by
    rw [List.isPrefixOf_iff_prefix]
    exact List.prefix_append _ _
  rw [expect, if_pos hstarts, List.drop_left]

theorem expect_singleton (c : UInt8) (rest : Bytes) : expect [c] (c :: rest) = some rest :=
  expect_append [c] rest

theorem expect_singleton_ne {c first : UInt8} (h : first ≠ c) (rest : Bytes) :
    expect [c] (first :: rest) = none := by
  rw [expect, if_neg]
  simp [List.isPrefixOf, Ne.symm h]

/-- The bytes with which a value can begin. -/
def Starts (c : UInt8) : Prop := isBlank c = false ∧ c ≠ 93

theorem starts_of_digit {c : UInt8} (h : Digit c) : Starts c := by
  constructor
  · rw [Bool.eq_false_iff]
    intro hblank
    simp only [isBlank, Bool.or_eq_true, beq_iff_eq] at hblank
    obtain ((rfl | rfl) | rfl) | rfl := hblank <;> exact absurd h (by simp [Digit])
  · intro hbracket
    rw [hbracket] at h
    exact absurd h (by simp [Digit])

theorem exists_decimal_cons (n : Nat) : ∃ c rest, decimal n = c :: rest ∧ Digit c := by
  obtain ⟨hdigits, -, hzero, hnonzero⟩ := decimal_spec n
  by_cases hn : n = 0
  · exact ⟨48, [], hzero hn, by simp [Digit]⟩
  · obtain ⟨c, rest, hrest, -⟩ := hnonzero hn
    exact ⟨c, rest, hrest, hdigits c (by simp [hrest])⟩

theorem exists_render_cons (v : Value) : ∃ c rest, render v = c :: rest ∧ Starts c := by
  cases v with
  | null => exact ⟨110, bytes "ull", rfl, rfl, by decide⟩
  | bool b =>
      cases b with
      | true => exact ⟨116, bytes "rue", rfl, rfl, by decide⟩
      | false => exact ⟨102, bytes "alse", rfl, rfl, by decide⟩
  | integer n =>
      cases n with
      | ofNat n =>
          obtain ⟨c, rest, hrest, hc⟩ := exists_decimal_cons n
          exact ⟨c, rest, hrest, starts_of_digit hc⟩
      | negSucc n => exact ⟨45, decimal (n + 1), rfl, rfl, by decide⟩
  | string text => exact ⟨34, _, rfl, rfl, by decide⟩
  | array items => exact ⟨91, _, rfl, rfl, by decide⟩
  | object members => exact ⟨123, _, rfl, rfl, by decide⟩

theorem ends_cons {c : UInt8} (hc : isDigit c = false) (rest : Bytes) : Ends (c :: rest) := by
  intro d tail h
  rw [← List.head_eq_of_cons_eq h]
  exact hc

theorem ends_nil : Ends [] := by
  intro c tail h
  cases h

theorem decodeValue_integer (fuel : Nat) (n : Int) {rest : Bytes} (hrest : Ends rest) :
    decodeValue (fuel + 1) (decimalInt n ++ rest) = some (.integer n, rest) := by
  cases n with
  | ofNat n =>
      obtain ⟨c, tail, htail, hc⟩ := exists_decimal_cons n
      have hnat := decodeNatural_decimal n hrest
      rw [htail, List.cons_append] at hnat
      have hdispatch : c ≠ 110 ∧ c ≠ 116 ∧ c ≠ 102 ∧ c ≠ 34 ∧ c ≠ 91 ∧ c ≠ 123 ∧ c ≠ 45 := by
        refine ⟨?_, ?_, ?_, ?_, ?_, ?_, ?_⟩ <;> rintro rfl <;> exact absurd hc (by simp [Digit])
      show decodeValue (fuel + 1) (decimal n ++ rest) = _
      rw [htail, List.cons_append, decodeValue, skip_cons (starts_of_digit hc).1]
      simp [hdispatch, hnat]
  | negSucc n =>
      show decodeValue (fuel + 1) (45 :: (decimal (n + 1) ++ rest)) = _
      rw [decodeValue, skip_cons rfl]
      simp [decodeNatural_decimal (n + 1) hrest, Int.negSucc_eq]

theorem decodeValue_null (fuel : Nat) (rest : Bytes) :
    decodeValue (fuel + 1) (bytes "null" ++ rest) = some (.null, rest) := by
  show decodeValue (fuel + 1) (110 :: (bytes "ull" ++ rest)) = _
  rw [decodeValue, skip_cons rfl]
  simp [expect_append]

theorem decodeValue_bool (fuel : Nat) (b : Bool) (rest : Bytes) :
    decodeValue (fuel + 1) ((if b then bytes "true" else bytes "false") ++ rest) = some (.bool b, rest) := by
  cases b with
  | true =>
      show decodeValue (fuel + 1) (116 :: (bytes "rue" ++ rest)) = _
      rw [decodeValue, skip_cons rfl]
      simp [expect_append]
  | false =>
      show decodeValue (fuel + 1) (102 :: (bytes "alse" ++ rest)) = _
      rw [decodeValue, skip_cons rfl]
      simp [expect_append]

theorem decodeValue_string (fuel : Nat) (text rest : Bytes) :
    decodeValue (fuel + 1) (quote text ++ rest) = some (.string text, rest) := by
  rw [quote, List.cons_append, List.append_assoc, decodeValue, skip_cons rfl]
  simp [decodeString_quote]

theorem separated_cons_cons (item next : Bytes) (items : List Bytes) :
    separated (item :: next :: items) = item ++ 44 :: separated (next :: items) := by
  simp [separated]

theorem separated_singleton (item : Bytes) : separated [item] = item := by simp [separated]

/-- A value takes at least one byte, so there is fuel for it. -/
theorem exists_fuel {v : Value} {fuel : Nat} (h : (render v).length ≤ fuel) : ∃ less, fuel = less + 1 := by
  obtain ⟨c, rest, hrest, -⟩ := exists_render_cons v
  rw [hrest, List.length_cons] at h
  exact ⟨fuel - 1, by omega⟩

/-- After an array has opened, its items follow. -/
theorem expect_bracket_items (item : Value) (items : List Value) (rest : Bytes) :
    skip (separated (renderItems (item :: items)) ++ rest) = separated (renderItems (item :: items)) ++ rest ∧
      expect [93] (separated (renderItems (item :: items)) ++ rest) = none := by
  obtain ⟨c, tail, htail, hblank, hbracket⟩ := exists_render_cons item
  have hseparated : ∃ tail, separated (renderItems (item :: items)) ++ rest = c :: tail :=
    ⟨_, by rw [renderItems, separated, htail]; rfl⟩
  obtain ⟨tail, htail⟩ := hseparated
  rw [htail]
  exact ⟨skip_cons hblank tail, expect_singleton_ne hbracket tail⟩

theorem expect_brace_members (key : Bytes) (item : Value) (members : List (Bytes × Value)) (rest : Bytes) :
    skip (separated (renderMembers ((key, item) :: members)) ++ rest) =
        separated (renderMembers ((key, item) :: members)) ++ rest ∧
      expect [125] (separated (renderMembers ((key, item) :: members)) ++ rest) = none := by
  have hseparated : ∃ tail, separated (renderMembers ((key, item) :: members)) ++ rest = 34 :: tail :=
    ⟨_, rfl⟩
  obtain ⟨tail, htail⟩ := hseparated
  rw [htail]
  exact ⟨skip_cons rfl tail, expect_singleton_ne (by decide) tail⟩

mutual

theorem decodeValue_render : (v : Value) → ∀ (fuel : Nat) (rest : Bytes), (render v).length ≤ fuel →
    Ends rest → decodeValue fuel (render v ++ rest) = some (v, rest)
  | v, fuel, rest, hfuel, hrest => by
      obtain ⟨less, rfl⟩ := exists_fuel hfuel
      match v with
      | .null => exact decodeValue_null less rest
      | .bool b => exact decodeValue_bool less b rest
      | .integer n => exact decodeValue_integer less n hrest
      | .string text => exact decodeValue_string less text rest
      | .array [] =>
          show decodeValue (less + 1) (91 :: 93 :: rest) = _
          rw [decodeValue, skip_cons rfl]
          simp [skip_cons (c := 93) rfl, expect]
      | .array (item :: items) =>
          rw [render, List.length_cons, List.length_append] at hfuel
          have hitems := decodeItems_render (item :: items) less rest (List.cons_ne_nil _ _)
            (by simp only [List.length_singleton] at hfuel; omega)
          obtain ⟨hskip, hexpect⟩ := expect_bracket_items item items (93 :: rest)
          rw [render, List.cons_append, List.append_assoc, decodeValue, skip_cons rfl]
          simp [hskip, hexpect, hitems]
      | .object [] =>
          show decodeValue (less + 1) (123 :: 125 :: rest) = _
          rw [decodeValue, skip_cons rfl]
          simp [skip_cons (c := 125) rfl, expect]
      | .object ((key, item) :: members) =>
          rw [render, List.length_cons, List.length_append] at hfuel
          have hmembers := decodeMembers_render ((key, item) :: members) less rest (List.cons_ne_nil _ _)
            (by simp only [List.length_singleton] at hfuel; omega)
          obtain ⟨hskip, hexpect⟩ := expect_brace_members key item members (125 :: rest)
          rw [render, List.cons_append, List.append_assoc, decodeValue, skip_cons rfl]
          simp [hskip, hexpect, hmembers]

theorem decodeItems_render : (items : List Value) → ∀ (fuel : Nat) (rest : Bytes), items ≠ [] →
    (separated (renderItems items)).length + 1 ≤ fuel →
    decodeItems fuel (separated (renderItems items) ++ 93 :: rest) = some (items, rest)
  | [], _, _, hitems, _ => absurd rfl hitems
  | [item], fuel + 1, rest, _, hfuel => by
      rw [renderItems, renderItems, separated_singleton] at hfuel ⊢
      rw [decodeItems, decodeValue_render item fuel (93 :: rest) (by omega) (ends_cons rfl rest)]
      simp [skip_cons (c := 93) rfl]
  | item :: next :: items, fuel + 1, rest, _, hfuel => by
      rw [renderItems, renderItems, separated_cons_cons, ← renderItems] at hfuel ⊢
      rw [List.length_append, List.length_cons] at hfuel
      rw [List.append_assoc, List.cons_append, decodeItems,
        decodeValue_render item fuel _ (by omega) (ends_cons rfl _)]
      have hitems := decodeItems_render (next :: items) fuel rest (List.cons_ne_nil _ _) (by omega)
      simp [skip_cons (c := 44) rfl, hitems]

theorem decodeMembers_render : (members : List (Bytes × Value)) → ∀ (fuel : Nat) (rest : Bytes), members ≠ [] →
    (separated (renderMembers members)).length + 1 ≤ fuel →
    decodeMembers fuel (separated (renderMembers members) ++ 125 :: rest) = some (members, rest)
  | [], _, _, hmembers, _ => absurd rfl hmembers
  | [(key, item)], fuel + 1, rest, _, hfuel => by
      rw [renderMembers, renderMembers, separated_singleton] at hfuel ⊢
      rw [List.length_append, List.length_cons] at hfuel
      have hvalue := decodeValue_render item fuel (125 :: rest) (by omega) (ends_cons rfl rest)
      rw [List.append_assoc, quote, List.cons_append, List.append_assoc, decodeMembers, skip_cons rfl]
      simp [expect_singleton, decodeString_quote, skip_cons (c := 58) rfl, skip_cons (c := 125) rfl, hvalue]
  | (key, item) :: (nextKey, next) :: members, fuel + 1, rest, _, hfuel => by
      rw [renderMembers, renderMembers, separated_cons_cons, ← renderMembers] at hfuel ⊢
      rw [List.length_append, List.length_cons, List.length_append, List.length_cons] at hfuel
      have hmembers := decodeMembers_render ((nextKey, next) :: members) fuel rest (List.cons_ne_nil _ _) (by omega)
      have hvalue := decodeValue_render item fuel
        (44 :: (separated (renderMembers ((nextKey, next) :: members)) ++ 125 :: rest)) (by omega) (ends_cons rfl _)
      rw [List.append_assoc, List.append_assoc, quote, List.cons_append, List.append_assoc, decodeMembers,
        skip_cons rfl]
      simp [expect_singleton, decodeString_quote, skip_cons (c := 58) rfl, skip_cons (c := 44) rfl, hvalue,
        hmembers]

end

theorem decode_render (v : Value) : decode (render v) = some v := by
  have hvalue := decodeValue_render v (render v).length [] le_rfl ends_nil
  rw [List.append_nil] at hvalue
  rw [decode, hvalue]
  rfl

/-- The dump of every value is accepted by the grammar and decodes to what the value says, so that
two values have one dump exactly if they say the same. -/
theorem dump_faithful :
    (∀ v : Json, Accepts v.dump ∧ decode v.dump = some v.value) ∧
      ∀ v w : Json, v.dump = w.dump ↔ v.value = w.value := by
  have hdecode : ∀ v : Json, decode v.dump = some v.value := by
    intro v
    rw [dump_eq, decode_render]
  refine ⟨fun v => ⟨by rw [dump_eq]; exact accepts_render v.value, hdecode v⟩, ?_⟩
  intro v w
  constructor
  · intro h
    have hvalues : some v.value = some w.value := by rw [← hdecode v, ← hdecode w, h]
    exact Option.some.inj hvalues
  · intro h
    rw [dump_eq, dump_eq, h]

end Json

end DeepJit
