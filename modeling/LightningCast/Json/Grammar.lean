import LightningCast.Json.Reader

-- JSON texts and what they mean: a specification which does not depend on how they are read.
namespace Json

open Reader (char isSpace isDigit)

def Spaces (ws : Bytes) : Prop :=
  ∀ b ∈ ws, isSpace b

-- `c` is the hexadecimal digit `d`.
def IsHexDigit (c : UInt8) (d : Nat) : Prop :=
  (ascii "0123456789abcdef")[d]? = some c ∨ (ascii "0123456789ABCDEF")[d]? = some c

-- The four hexadecimal digits of a number.
inductive Hex : Bytes → Nat → Prop
  | digits {a b c d : UInt8} {i j k l : Nat} : IsHexDigit a i → IsHexDigit b j → IsHexDigit c k → IsHexDigit d l →
    Hex [a, b, c, d] (((i * 16 + j) * 16 + k) * 16 + l)

-- The escapes of one byte, and the bytes for which they stand.
def escapes : List (UInt8 × UInt8) :=
  (ascii "\"\\/bfnrt").zip [0x22, 0x5C, 0x2F, 0x08, 0x0C, 0x0A, 0x0D, 0x09]

-- What is between the quotes of a string, and the string, whose characters are encoded in UTF-8. An escape stands for
-- a character, or two for one: there is no surrogate without its other half.
inductive Chars : Bytes → Bytes → Prop
  | nil : Chars [] []
  | plain {b : UInt8} {t s : Bytes} : char b ≠ '"' → char b ≠ '\\' → Chars t s → Chars (b :: t) (b :: s)
  | escape {e b : UInt8} {t s : Bytes} : (e, b) ∈ escapes → Chars t s → Chars (ascii "\\" ++ e :: t) (b :: s)
  | unicode {h t s : Bytes} {c : Char} : Hex h c.toNat → Chars t s →
    Chars (ascii "\\u" ++ h ++ t) (String.utf8EncodeChar c ++ s)
  | surrogates {h h' t s : Bytes} {c : Char} : 0x10000 ≤ c.toNat → Hex h (0xD800 + (c.toNat - 0x10000) / 0x400) →
    Hex h' (0xDC00 + (c.toNat - 0x10000) % 0x400) → Chars t s →
    Chars (ascii "\\u" ++ h ++ ascii "\\u" ++ h' ++ t) (String.utf8EncodeChar c ++ s)

def Quoted (t s : Bytes) : Prop :=
  ∃ t', Chars t' s ∧ t = ascii "\"" ++ t' ++ ascii "\""

def Digits (ds : Bytes) : Prop :=
  ds ≠ [] ∧ ∀ d ∈ ds, isDigit d

-- The number whose decimal digits are given.
def ofDigits (ds : Bytes) : Nat :=
  ds.foldl (fun n d => n * 10 + (d.toNat - 48)) 0

-- The parts of a number, of which only the digits before the fraction have to be there.
def IsSign (sign : Bytes) : Prop :=
  sign = [] ∨ sign = ascii "-"

def IsFraction (fraction : Bytes) : Prop :=
  fraction = [] ∨ ∃ ds, Digits ds ∧ fraction = ascii "." ++ ds

def IsExponent (exponent : Bytes) : Prop :=
  exponent = [] ∨ ∃ e sign ds, (e = ascii "e" ∨ e = ascii "E") ∧ (sign = [] ∨ sign = ascii "+" ∨ sign = ascii "-") ∧
    Digits ds ∧ exponent = e ++ sign ++ ds

inductive Numeral : Bytes → Prop
  | mk {sign ds fraction exponent : Bytes} : IsSign sign → Digits ds → IsFraction fraction → IsExponent exponent →
    Numeral (sign ++ ds ++ fraction ++ exponent)

-- The meaning of a numeral: an integer, if it fits in 64 bits.
inductive Number (decodeDouble : Bytes → Option Double) : Bytes → Value → Prop
  | int {ds : Bytes} : Digits ds → ofDigits ds < 2 ^ 31 → Number decodeDouble ds (.int (.ofInt (ofDigits ds)))
  | uint {ds : Bytes} : Digits ds → 2 ^ 31 ≤ ofDigits ds → ofDigits ds < 2 ^ 64 →
    Number decodeDouble ds (.uint (.ofNat (ofDigits ds)))
  | negative {ds : Bytes} : Digits ds → ofDigits ds ≤ 2 ^ 63 →
    Number decodeDouble (ascii "-" ++ ds) (.int (.ofInt (-ofDigits ds)))
  | large {ds : Bytes} {d : Double} : Digits ds → 2 ^ 64 ≤ ofDigits ds → decodeDouble ds = some d →
    Number decodeDouble ds (.real d)
  | negativeLarge {ds : Bytes} {d : Double} : Digits ds → 2 ^ 63 < ofDigits ds →
    decodeDouble (ascii "-" ++ ds) = some d → Number decodeDouble (ascii "-" ++ ds) (.real d)
  | real {sign ds fraction exponent : Bytes} {d : Double} : IsSign sign → Digits ds → IsFraction fraction →
    IsExponent exponent → fraction ++ exponent ≠ [] →
    decodeDouble (sign ++ ds ++ fraction ++ exponent) = some d →
    Number decodeDouble (sign ++ ds ++ fraction ++ exponent) (.real d)

section

variable (text : Value → Bytes → Prop)

-- What is between the brackets of an array which is not empty, and its values, whose texts are given by `text`.
inductive Elements : List Value → Bytes → Prop
  | last {v : Value} {ws t ws' : Bytes} : Spaces ws → text v t → Spaces ws' → Elements [v] (ws ++ t ++ ws')
  | cons {v : Value} {vs : List Value} {ws t ws' ts : Bytes} : Spaces ws → text v t → Spaces ws' → Elements vs ts →
    Elements (v :: vs) (ws ++ t ++ ws' ++ ascii "," ++ ts)

-- A member of an object.
inductive Member : Bytes × Value → Bytes → Prop
  | mk {name : Bytes} {v : Value} {ws q ws' ws'' t ws''' : Bytes} : name.length < 2 ^ 30 → Spaces ws → Quoted q name →
    Spaces ws' → Spaces ws'' → text v t → Spaces ws''' →
    Member (name, v) (ws ++ q ++ ws' ++ ascii ":" ++ ws'' ++ t ++ ws''')

inductive Members : List (Bytes × Value) → Bytes → Prop
  | last {m : Bytes × Value} {t : Bytes} : Member text m t → Members [m] t
  | cons {m : Bytes × Value} {ms : List (Bytes × Value)} {t ts : Bytes} : Member text m t → Members ms ts →
    Members (m :: ms) (t ++ ascii "," ++ ts)

end

namespace Value

-- An integer as it is represented when it has been read.
@[irreducible] def ofInteger (n : Int) : Value :=
  if n < 2 ^ 31 then .int (.ofInt n) else .uint (.ofNat n.toNat)

-- The members of an object in whose text they come in the given order. The last of several with one name is kept.
def ofMembers (ms : List (Bytes × Value)) : Value :=
  .object (ms.foldl (fun ms m => setMember m.1 m.2 ms) [])

-- The value which is stored when the text of `v` is read.
def stored : Value → Value
  | null      => null
  | int n     => int n
  | uint n    => uint n
  | real d    => real d
  | string s  => string s
  | bool b    => bool b
  | array vs  => array (vs.map stored)
  | object ms => ofMembers (ms.map fun m => (m.1, stored m.2))
termination_by v => sizeOf v
decreasing_by
  · exact sizeOf_lt_array ‹_›
  · exact sizeOf_lt_object ‹_›

-- `v` is nested in at most `n` levels.
def Nested : Nat → Value → Prop
  | 0, _             => False
  | n + 1, array vs  => ∀ v ∈ vs, Nested n v
  | n + 1, object ms => ∀ m ∈ ms, Nested n m.2
  | _ + 1, _         => True

instance decidableNested : (n : Nat) → (v : Value) → Decidable (Nested n v)
  | 0, _             => inferInstanceAs (Decidable False)
  | n + 1, array vs  =>
    have := decidableNested n
    inferInstanceAs (Decidable (∀ v ∈ vs, Nested n v))
  | n + 1, object ms =>
    have := fun m : Bytes × Value => decidableNested n m.2
    inferInstanceAs (Decidable (∀ m ∈ ms, Nested n m.2))
  | _ + 1, null      => isTrue trivial
  | _ + 1, int _     => isTrue trivial
  | _ + 1, uint _    => isTrue trivial
  | _ + 1, real _    => isTrue trivial
  | _ + 1, string _  => isTrue trivial
  | _ + 1, bool _    => isTrue trivial

end Value

-- The text of a value whose parts have texts. The members of an object may come in any order, and more than once.
inductive Node (decodeDouble : Bytes → Option Double) (text : Value → Bytes → Prop) : Value → Bytes → Prop
  | null : Node decodeDouble text .null (ascii "null")
  | true : Node decodeDouble text (.bool true) (ascii "true")
  | false : Node decodeDouble text (.bool false) (ascii "false")
  | number {t : Bytes} {v : Value} : Number decodeDouble t v → Node decodeDouble text v t
  | string {t s : Bytes} : s.length ≤ 2 ^ 31 - 6 → Quoted t s → Node decodeDouble text (.string s) t
  | emptyArray {ws : Bytes} : Spaces ws → Node decodeDouble text (.array []) (ascii "[" ++ ws ++ ascii "]")
  | array {vs : List Value} {ts : Bytes} : Elements text vs ts →
    Node decodeDouble text (.array vs) (ascii "[" ++ ts ++ ascii "]")
  | emptyObject {ws : Bytes} : Spaces ws → Node decodeDouble text (.object []) (ascii "\x7b" ++ ws ++ ascii "\x7d")
  | object {ms : List (Bytes × Value)} {ts : Bytes} : Members text ms ts →
    Node decodeDouble text (.object ms) (ascii "\x7b" ++ ts ++ ascii "\x7d")

-- The texts of values which are nested in at most `n` levels.
def Text (decodeDouble : Bytes → Option Double) : Nat → Value → Bytes → Prop
  | 0     => fun _ _ => False
  | n + 1 => Node decodeDouble (Text decodeDouble n)

end Json
