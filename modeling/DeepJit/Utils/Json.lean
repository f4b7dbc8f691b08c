import DeepJit.Basic

/-!
# JSON

`json::dump`, a grammar of JSON texts at byte level, and a decoder that is written against the
grammar and not against `dump`. Objects keep their members in order and may repeat a key.
-/

namespace DeepJit

/-- `json::value_t`. -/
inductive Json
  | null
  | bool (value : Bool)
  | int64 (value : BitVec 64)
  | uint64 (value : BitVec 64)
  | string (value : Bytes)
  | array (items : List Json)
  | object (members : List (Bytes × Json))

namespace Json

/-! ### Dump -/

/-- The table `hex`. -/
def hex (n : UInt8) : UInt8 := (bytes "0123456789abcdef").getD n.toNat 0

/-- One character of `dump_string`. -/
def escape (c : UInt8) : Bytes :=
  if c = 34 then bytes "\\\""
  else if c = 92 then bytes "\\\\"
  else if c = 8 then bytes "\\b"
  else if c = 12 then bytes "\\f"
  else if c = 10 then bytes "\\n"
  else if c = 13 then bytes "\\r"
  else if c = 9 then bytes "\\t"
  else if c < 0x20 then bytes "\\u00" ++ [hex (c >>> 4), hex (c &&& 0x0f)]
  else [c]

def dumpString (output value : Bytes) : Bytes :=
  value.foldl (fun output c => output ++ escape c) (output ++ [34]) ++ [34]

mutual

/-- `dump_to`: the output with the value behind it. -/
def dumpTo (output : Bytes) : Json → Bytes
  | .null => output ++ bytes "null"
  | .bool value => output ++ if value then bytes "true" else bytes "false"
  | .int64 value => output ++ decimalInt value.toInt
  | .uint64 value => output ++ decimal value.toNat
  | .string value => dumpString output value
  | .array items => dumpItems true (output ++ [91]) items ++ [93]
  | .object members => dumpMembers true (output ++ [123]) members ++ [125]

/-- The loop over the items of an array. -/
def dumpItems (first : Bool) (output : Bytes) : List Json → Bytes
  | [] => output
  | item :: items => dumpItems false (dumpTo (if first then output else output ++ [44]) item) items

/-- The loop over the members of an object. -/
def dumpMembers (first : Bool) (output : Bytes) : List (Bytes × Json) → Bytes
  | [] => output
  | (key, item) :: members =>
      dumpMembers false
        (dumpTo (dumpString (if first then output else output ++ [44]) key ++ [58]) item) members

end

def dump (value : Json) : Bytes := dumpTo [] value

/-! ### Values -/

/-- What a JSON text says: both kinds of integers are integers. -/
inductive Value
  | null
  | bool (value : Bool)
  | integer (value : Int)
  | string (value : Bytes)
  | array (items : List Value)
  | object (members : List (Bytes × Value))

mutual

def value : Json → Value
  | .null => .null
  | .bool value => .bool value
  | .int64 value => .integer value.toInt
  | .uint64 value => .integer value.toNat
  | .string value => .string value
  | .array items => .array (values items)
  | .object members => .object (memberValues members)

def values : List Json → List Value
  | [] => []
  | item :: items => value item :: values items

def memberValues : List (Bytes × Json) → List (Bytes × Value)
  | [] => []
  | (key, item) :: members => (key, value item) :: memberValues members

end

/-! ### Grammar -/

def Space (run : Bytes) : Prop := ∀ c ∈ run, c = 32 ∨ c = 9 ∨ c = 10 ∨ c = 13

def Digit (c : UInt8) : Prop := 48 ≤ c ∧ c ≤ 57

def HexDigit (c : UInt8) : Prop := Digit c ∨ (97 ≤ c ∧ c ≤ 102) ∨ (65 ≤ c ∧ c ≤ 70)

/-- One character of a string: any byte from the space on other than `"` and `\`, or an escape. -/
inductive Character : Bytes → Prop
  | raw {c : UInt8} : 0x20 ≤ c → c ≠ 34 → c ≠ 92 → Character [c]
  | escaped {c : UInt8} : c ∈ bytes "\"\\/bfnrt" → Character [92, c]
  | code {a b c d : UInt8} : HexDigit a → HexDigit b → HexDigit c → HexDigit d →
      Character [92, 117, a, b, c, d]

inductive Text : Bytes → Prop
  | quoted {characters : List Bytes} : (∀ character ∈ characters, Character character) →
      Text (34 :: (characters.flatten ++ [34]))

/-- Digits, without a leading zero. -/
inductive Natural : Bytes → Prop
  | zero : Natural [48]
  | digits {c : UInt8} {rest : Bytes} : Digit c → c ≠ 48 → (∀ d ∈ rest, Digit d) → Natural (c :: rest)

inductive Fraction : Bytes → Prop
  | none : Fraction []
  | digits {c : UInt8} {rest : Bytes} : (∀ d ∈ c :: rest, Digit d) → Fraction (46 :: c :: rest)

inductive Exponent : Bytes → Prop
  | none : Exponent []
  | digits {e c : UInt8} {sign rest : Bytes} : e = 101 ∨ e = 69 → sign = [] ∨ sign = [43] ∨ sign = [45] →
      (∀ d ∈ c :: rest, Digit d) → Exponent (e :: (sign ++ c :: rest))

/-- The items with commas between them. -/
def separated : List Bytes → Bytes
  | [] => []
  | item :: items => item ++ items.flatMap fun item => 44 :: item

inductive Accepts : Bytes → Prop
  | null : Accepts (bytes "null")
  | true : Accepts (bytes "true")
  | false : Accepts (bytes "false")
  | number {sign digits fraction exponent : Bytes} : sign = [] ∨ sign = [45] → Natural digits →
      Fraction fraction → Exponent exponent → Accepts (sign ++ digits ++ fraction ++ exponent)
  | string {text : Bytes} : Text text → Accepts text
  | emptyArray {run : Bytes} : Space run → Accepts (91 :: (run ++ [93]))
  | array {items : List Bytes} : items ≠ [] → (∀ item ∈ items, Accepts item) →
      Accepts (91 :: (separated items ++ [93]))
  | emptyObject {run : Bytes} : Space run → Accepts (123 :: (run ++ [125]))
  | object {keys items : List Bytes} : keys ≠ [] → keys.length = items.length →
      (∀ key ∈ keys, ∃ before text after, Space before ∧ Text text ∧ Space after ∧
        key = before ++ text ++ after) →
      (∀ item ∈ items, Accepts item) →
      Accepts (123 :: (separated (List.zipWith (fun key item => key ++ 58 :: item) keys items) ++ [125]))
  | padded {before text after : Bytes} : Space before → Space after → Accepts text →
      Accepts (before ++ text ++ after)

/-! ### Decoder -/

def isBlank (c : UInt8) : Bool := c == 32 || c == 9 || c == 10 || c == 13

def isDigit (c : UInt8) : Bool := 48 ≤ c && c ≤ 57

def skip (text : Bytes) : Bytes := text.dropWhile isBlank

/-- The text behind a literal. -/
def expect (literal text : Bytes) : Option Bytes :=
  if literal.isPrefixOf text then some (text.drop literal.length) else none

def hexValue (c : UInt8) : Option Nat :=
  if isDigit c then some (c.toNat - 48)
  else if 97 ≤ c ∧ c ≤ 102 then some (c.toNat - 87)
  else if 65 ≤ c ∧ c ≤ 70 then some (c.toNat - 55)
  else none

/-- What a backslash and this character stand for. -/
def escapeValue (c : UInt8) : Option UInt8 :=
  (List.zip (bytes "\"\\/bfnrt") [34, 92, 47, 8, 12, 10, 13, 9]).lookup c

/-- A code point below 128, which is one byte. -/
def codeValue (a b c d : UInt8) : Option UInt8 := do
  let code := (((← hexValue a) * 16 + (← hexValue b)) * 16 + (← hexValue c)) * 16 + (← hexValue d)
  if code < 128 then some code.toUInt8 else none

/-- The characters of a string up to its closing quote. -/
def decodeString : Bytes → Option (Bytes × Bytes)
  | [] => none
  | 34 :: rest => some ([], rest)
  | 92 :: 117 :: a :: b :: c :: d :: rest =>
      match codeValue a b c d, decodeString rest with
      | some value, some (text, rest) => some (value :: text, rest)
      | _, _ => none
  | 92 :: c :: rest =>
      match escapeValue c, decodeString rest with
      | some value, some (text, rest) => some (value :: text, rest)
      | _, _ => none
  | c :: rest =>
      if c < 0x20 ∨ c = 92 then none
      else
        match decodeString rest with
        | some (text, rest) => some (c :: text, rest)
        | none => none

/-- An unsigned number, and what follows its digits. -/
def decodeNatural (text : Bytes) : Option (Nat × Bytes) :=
  let digits := text.takeWhile isDigit
  if digits = [] ∨ (digits.head? = some 48 ∧ digits ≠ [48]) then none
  else some (digits.foldl (fun n c => 10 * n + (c.toNat - 48)) 0, text.dropWhile isDigit)

mutual

/-- A value, and the text behind it. `fuel` bounds the depth of the recursion. -/
def decodeValue : Nat → Bytes → Option (Value × Bytes)
  | 0, _ => none
  | fuel + 1, text =>
      match skip text with
      | [] => none
      | first :: rest =>
          if first = 110 then (expect (bytes "ull") rest).map (Value.null, ·)
          else if first = 116 then (expect (bytes "rue") rest).map (Value.bool true, ·)
          else if first = 102 then (expect (bytes "alse") rest).map (Value.bool false, ·)
          else if first = 34 then (decodeString rest).map fun (text, rest) => (Value.string text, rest)
          else if first = 91 then
            match expect [93] (skip rest) with
            | some rest => some (.array [], rest)
            | none => (decodeItems fuel rest).map fun (items, rest) => (Value.array items, rest)
          else if first = 123 then
            match expect [125] (skip rest) with
            | some rest => some (.object [], rest)
            | none => (decodeMembers fuel rest).map fun (members, rest) => (Value.object members, rest)
          else if first = 45 then
            (decodeNatural rest).map fun (n, rest) => (Value.integer (-(n : Int)), rest)
          else (decodeNatural (first :: rest)).map fun (n, rest) => (Value.integer n, rest)

/-- One or more items up to the closing bracket. -/
def decodeItems : Nat → Bytes → Option (List Value × Bytes)
  | 0, _ => none
  | fuel + 1, text =>
      match decodeValue fuel text with
      | none => none
      | some (item, rest) =>
          match skip rest with
          | 93 :: rest => some ([item], rest)
          | 44 :: rest => (decodeItems fuel rest).map fun (items, rest) => (item :: items, rest)
          | _ => none

/-- One or more members up to the closing brace. -/
def decodeMembers : Nat → Bytes → Option (List (Bytes × Value) × Bytes)
  | 0, _ => none
  | fuel + 1, text =>
      match expect [34] (skip text) with
      | none => none
      | some rest =>
          match decodeString rest with
          | none => none
          | some (key, rest) =>
              match expect [58] (skip rest) with
              | none => none
              | some rest =>
                  match decodeValue fuel rest with
                  | none => none
                  | some (item, rest) =>
                      match skip rest with
                      | 125 :: rest => some ([(key, item)], rest)
                      | 44 :: rest =>
                          (decodeMembers fuel rest).map fun (members, rest) => ((key, item) :: members, rest)
                      | _ => none

end

/-- The value of a whole text. -/
def decode (text : Bytes) : Option Value :=
  match decodeValue text.length text with
  | some (value, rest) => if skip rest = [] then some value else none
  | none => none

end Json

end DeepJit
