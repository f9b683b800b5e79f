import LightningCast.Json.Reader

-- `Json::FastWriter` with the settings of its default constructor.
namespace Json.FastWriter

open Reader (char)

-- The loop writes from the end of its buffer to the front: `current` is what it has written.
def uintToString (value : Nat) (current : Bytes) : Bytes :=
  let current := .ofNat (value % 10 + 48) :: current
  if value / 10 ≠ 0 then uintToString (value / 10) current else current
termination_by value
decreasing_by omega

-- `valueToString` of a `LargestInt`.
def valueToString (value : Int64) : Bytes :=
  if value = .minValue then 0x2D :: uintToString (Int64.maxValue.toInt.toNat + 1) []
  else if value < 0 then 0x2D :: uintToString (-value).toInt.toNat []
  else uintToString value.toInt.toNat []

def doesAnyCharRequireEscaping (s : Bytes) : Bool :=
  s.any fun c => char c = '\\' ∨ char c = '"' ∨ c < 0x20 ∨ c > 0x7F

def replacementCharacter : UInt32 := 0xFFFD

-- The code point at the beginning of a text which is not empty, and how far the text is moved forward.
def utf8ToCodepoint : Bytes → UInt32 × Nat
  | []     => (0, 0)
  | b :: s =>
    let firstByte := b.toUInt32
    if firstByte < 0x80 then
      (firstByte, 0)
    else if firstByte < 0xE0 then
      match s with
      | b₁ :: _ =>
        let calculated := ((firstByte &&& 0x1F) <<< 6) ||| (b₁.toUInt32 &&& 0x3F)
        (if calculated < 0x80 then replacementCharacter else calculated, 1)
      | _ => (replacementCharacter, 0)
    else if firstByte < 0xF0 then
      match s with
      | b₁ :: b₂ :: _ =>
        let calculated := ((firstByte &&& 0x0F) <<< 12) ||| ((b₁.toUInt32 &&& 0x3F) <<< 6) ||| (b₂.toUInt32 &&& 0x3F)
        (if 0xD800 ≤ calculated ∧ calculated ≤ 0xDFFF then replacementCharacter
          else if calculated < 0x800 then replacementCharacter
          else calculated, 2)
      | _ => (replacementCharacter, 0)
    else if firstByte < 0xF8 then
      match s with
      | b₁ :: b₂ :: b₃ :: _ =>
        let calculated := ((firstByte &&& 0x07) <<< 18) ||| ((b₁.toUInt32 &&& 0x3F) <<< 12) |||
          ((b₂.toUInt32 &&& 0x3F) <<< 6) ||| (b₃.toUInt32 &&& 0x3F)
        (if calculated < 0x10000 then replacementCharacter else calculated, 3)
      | _ => (replacementCharacter, 0)
    else (replacementCharacter, 0)

-- A digit of the table `hex2`.
def hexChar (digit : UInt32) : UInt8 :=
  if digit < 10 then digit.toUInt8 + 48 else digit.toUInt8 - 10 + 97

def toHex16Bit (x : UInt32) : Bytes :=
  let hi := (x >>> 8) &&& 0xFF
  let lo := x &&& 0xFF
  [hexChar (hi / 16), hexChar (hi % 16), hexChar (lo / 16), hexChar (lo % 16)]

def appendHex (ch : UInt32) : Bytes :=
  ascii "\\u" ++ toHex16Bit ch

def appendCodepoint (codepoint : UInt32) : Bytes :=
  if codepoint < 0x20 then appendHex codepoint
  else if codepoint < 0x80 then [codepoint.toUInt8]
  else if codepoint < 0x10000 then appendHex codepoint
  else
    let codepoint := codepoint - 0x10000
    appendHex ((0xD800 : UInt32) + ((codepoint >>> 10) &&& 0x3FF)) ++
      appendHex ((0xDC00 : UInt32) + (codepoint &&& 0x3FF))

-- The short escape of a byte.
def shortEscape (c : UInt8) : Option Bytes :=
  match char c with
  | '"'    => some (ascii "\\\"")
  | '\\'   => some (ascii "\\\\")
  | '\x08' => some (ascii "\\b")
  | '\x0C' => some (ascii "\\f")
  | '\n'   => some (ascii "\\n")
  | '\r'   => some (ascii "\\r")
  | '\t'   => some (ascii "\\t")
  | _      => none

-- The loop of `valueToQuotedStringN`.
def escape : Bytes → Bytes
  | []      => []
  | c :: cs =>
    match shortEscape c with
    | some escaped => escaped ++ escape cs
    | none         =>
      let codepoint := utf8ToCodepoint (c :: cs)
      appendCodepoint codepoint.1 ++ escape (cs.drop codepoint.2)
termination_by value => value.length
decreasing_by all_goals (simp; try omega)

def valueToQuotedStringN (value : Bytes) : Bytes :=
  if doesAnyCharRequireEscaping value then 0x22 :: escape value ++ [0x22] else 0x22 :: value ++ [0x22]

-- `doubleToString` is `valueToString` of a `double`.
variable (doubleToString : Double → Bytes)

def writeValue : Value → Bytes
  | .null      => ascii "null"
  | .int n     => valueToString n
  | .uint n    => uintToString n.toNat []
  | .real d    => doubleToString d
  | .string s  => valueToQuotedStringN s
  | .bool b    => ascii (if b then "true" else "false")
  | .array vs  => 0x5B :: [0x2C].intercalate (vs.map writeValue) ++ [0x5D]
  | .object ms =>
    0x7B :: [0x2C].intercalate (ms.map fun m => valueToQuotedStringN m.1 ++ 0x3A :: writeValue m.2) ++ [0x7D]
termination_by value => sizeOf value
decreasing_by
  · exact Value.sizeOf_lt_array ‹_›
  · exact Value.sizeOf_lt_object ‹_›

def write (root : Value) : Bytes :=
  writeValue doubleToString root ++ [0x0A]

end Json.FastWriter
