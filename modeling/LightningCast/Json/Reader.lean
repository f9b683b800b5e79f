import LightningCast.Json.Basic
import Mathlib.Algebra.Group.Nat.Defs

namespace Json.Value

theorem sizeOf_lt_array {v : Value} {vs : List Value} (h : v ∈ vs) : sizeOf v < sizeOf (array vs) :=
  (List.sizeOf_lt_of_mem h).trans (by simp)

theorem sizeOf_lt_object {m : Bytes × Value} {ms : List (Bytes × Value)} (h : m ∈ ms) :
    sizeOf m.2 < sizeOf (object ms) := by
  have hm := List.sizeOf_lt_of_mem h
  cases m
  simp only [Prod.mk.sizeOf_spec, object.sizeOf_spec] at *
  omega

-- The name under which a member is stored: the length is kept in 30 bits.
def czString (name : Bytes) : Bytes :=
  name.take (name.length % 2 ^ 30)

-- The value `v` for the member `name`. The members are in the order of their names.
def setMember (name : Bytes) (v : Value) : List (Bytes × Value) → List (Bytes × Value)
  | []              => [(name, v)]
  | (name', v') :: ms =>
    if name = name'
    then (name, v) :: ms
    else if name < name'
    then (name, v) :: (name', v') :: ms
    else (name', v') :: setMember name v ms

-- The constructor from a `String`, whose length is converted to an `unsigned`.
def ofString (s : Bytes) : Except Exception Value :=
  let length := s.length % 2 ^ 32
  if length ≤ 2 ^ 31 - 1 - 4 - 1
  then .ok (string (s.take length))
  else .error (.logicError "in Json::Value::duplicateAndPrefixStringValue(): length too big for prefixing")

end Json.Value

-- `Json::Reader` with the features of its default constructor, for callers which collect no comments. What is
-- left of the document, from `current_` to `end_`, is given by its bytes.
namespace Json.Reader

def char (b : UInt8) : Char :=
  .ofNat b.toNat

theorem char_toNat (b : UInt8) : (char b).toNat = b.toNat := by
  have h : b.toNat < 0xD800 := b.toNat_lt.trans (by decide)
  rw [char, Char.ofNat, dif_pos (.inl h)]
  rfl

inductive TokenType
  | tokenEndOfStream
  | tokenObjectBegin
  | tokenObjectEnd
  | tokenArrayBegin
  | tokenArrayEnd
  | tokenString
  | tokenNumber
  | tokenTrue
  | tokenFalse
  | tokenNull
  | tokenArraySeparator
  | tokenMemberSeparator
  | tokenComment
  | tokenError
deriving DecidableEq

open TokenType

-- The text of a token is what is between its `start_` and its `end_`.
structure Token where
  type : TokenType
  text : Bytes
deriving DecidableEq

def isSpace (b : UInt8) : Bool :=
  char b = ' ' ∨ char b = '\t' ∨ char b = '\r' ∨ char b = '\n'

def isDigit (b : UInt8) : Bool :=
  '0' ≤ char b ∧ char b ≤ '9'

theorem isDigit_iff {b : UInt8} : isDigit b ↔ 48 ≤ b.toNat ∧ b.toNat ≤ 57 := by
  rw [← char_toNat, isDigit, decide_eq_true_iff]
  exact Iff.rfl

def skipSpaces (current : Bytes) : Bytes :=
  current.dropWhile isSpace

-- The functions below return whether they have succeeded, and what they leave.

def matchPattern (pattern : String) (current : Bytes) : Bool × Bytes :=
  if ascii pattern <+: current then (true, current.drop pattern.length) else (false, current)

-- The last byte ends the comment if it is a slash, whatever is before it.
def readCStyleComment : Bytes → Bool × Bytes
  | []          => (false, [])
  | [c]         => (char c = '/', [])
  | c :: d :: cs => if char c = '*' ∧ char d = '/' then (true, cs) else readCStyleComment (d :: cs)

def readCppStyleComment : Bytes → Bool × Bytes
  | []      => (true, [])
  | c :: cs =>
    match char c with
    | '\n' => (true, cs)
    | '\r' => (true, if (cs.head?.map char) = some '\n' then cs.tail else cs)
    | _    => readCppStyleComment cs

def readComment : Bytes → Bool × Bytes
  | []      => (false, [])
  | c :: cs =>
    match char c with
    | '*' => readCStyleComment cs
    | '/' => readCppStyleComment cs
    | _   => (false, cs)

def readDigits (current : Bytes) : Bytes :=
  current.dropWhile isDigit

def readFraction : Bytes → Bytes
  | []      => []
  | c :: cs => if char c = '.' then readDigits cs else c :: cs

def readSign : Bytes → Bytes
  | []      => []
  | c :: cs => if char c = '+' ∨ char c = '-' then cs else c :: cs

def readExponent : Bytes → Bytes
  | []      => []
  | c :: cs => if char c = 'e' ∨ char c = 'E' then readDigits (readSign cs) else c :: cs

def readNumber (current : Bytes) : Bytes :=
  readExponent (readFraction (readDigits current))

def readString : Bytes → Bool × Bytes
  | []      => (false, [])
  | c :: cs =>
    if char c = '\\'
    then
      match cs with
      | []      => (false, [])
      | _ :: cs => readString cs
    else if char c = '"'
    then (true, cs)
    else readString cs

-- `if (!ok) token.type_ = tokenError;`
def checked (type : TokenType) : Bool × Bytes → TokenType × Bytes
  | (ok, current) => (if ok then type else tokenError, current)

-- The `switch` of `readToken` over the first byte of the token.
def tokenType (c : UInt8) (current : Bytes) : TokenType × Bytes :=
  if isDigit c
  then (tokenNumber, readNumber current)
  else
    match char c with
    | '{'    => (tokenObjectBegin, current)
    | '}'    => (tokenObjectEnd, current)
    | '['    => (tokenArrayBegin, current)
    | ']'    => (tokenArrayEnd, current)
    | '"'    => checked tokenString (readString current)
    | '/'    => checked tokenComment (readComment current)
    | '-'    => (tokenNumber, readNumber current)
    | 't'    => checked tokenTrue (matchPattern "rue" current)
    | 'f'    => checked tokenFalse (matchPattern "alse" current)
    | 'n'    => checked tokenNull (matchPattern "ull" current)
    | ','    => (tokenArraySeparator, current)
    | ':'    => (tokenMemberSeparator, current)
    | '\x00' => (tokenEndOfStream, current)
    | _      => (tokenError, current)

def readToken (current : Bytes) : Token × Bytes :=
  match skipSpaces current with
  | []         => ({ type := tokenEndOfStream, text := [] }, [])
  | c :: start =>
    let (type, current) := tokenType c start
    ({ type, text := (c :: start).take (start.length + 1 - current.length) }, current)

section

variable (current : Bytes)

theorem readCStyleComment_suffix : (readCStyleComment current).2 <:+ current := by
  fun_induction readCStyleComment current
  case case1           => exact List.suffix_rfl
  case case2           => exact List.nil_suffix
  case case3 c d cs _  => exact (List.suffix_cons d cs).trans (List.suffix_cons c _)
  case case4 c d _ _ hi => exact hi.trans (List.suffix_cons c _)

theorem readCppStyleComment_suffix : (readCppStyleComment current).2 <:+ current := by
  fun_induction readCppStyleComment current
  case case1 => exact List.suffix_rfl
  case case2 => exact List.suffix_cons ..
  case case3 c cs _ =>
    refine List.IsSuffix.trans ?_ (List.suffix_cons c cs)
    simp only
    split
    case isTrue  => exact List.tail_suffix cs
    case isFalse => exact List.suffix_rfl
  case case4 c _ _ _ hi => exact hi.trans (List.suffix_cons c _)

theorem readComment_suffix : (readComment current).2 <:+ current := by
  unfold readComment
  split
  case h_1 => exact List.suffix_rfl
  case h_2 c cs =>
    refine List.IsSuffix.trans ?_ (List.suffix_cons c cs)
    split
    case h_1 => exact readCStyleComment_suffix cs
    case h_2 => exact readCppStyleComment_suffix cs
    case h_3 => exact List.suffix_rfl

theorem readDigits_suffix : readDigits current <:+ current :=
  List.dropWhile_suffix _

theorem readNumber_suffix : readNumber current <:+ current := by
  have hf (cs : Bytes) : readFraction cs <:+ cs := by
    unfold readFraction
    split
    case h_1 => exact List.suffix_rfl
    case h_2 c cs =>
      split
      case isTrue  => exact (readDigits_suffix cs).trans (List.suffix_cons c cs)
      case isFalse => exact List.suffix_rfl
  have hs (cs : Bytes) : readSign cs <:+ cs := by
    unfold readSign
    split
    case h_1 => exact List.suffix_rfl
    case h_2 c cs =>
      split
      case isTrue  => exact List.suffix_cons c cs
      case isFalse => exact List.suffix_rfl
  have he (cs : Bytes) : readExponent cs <:+ cs := by
    unfold readExponent
    split
    case h_1 => exact List.suffix_rfl
    case h_2 c cs =>
      split
      case isTrue  => exact (readDigits_suffix _).trans ((hs cs).trans (List.suffix_cons c cs))
      case isFalse => exact List.suffix_rfl
  exact (he _).trans ((hf _).trans (readDigits_suffix _))

theorem readString_suffix : (readString current).2 <:+ current := by
  fun_induction readString current
  case case1                => exact List.suffix_rfl
  case case2                => exact List.nil_suffix
  case case3 c _ e cs hi    => exact hi.trans ((List.suffix_cons e cs).trans (List.suffix_cons c _))
  case case4 c cs _ _       => exact List.suffix_cons c cs
  case case5 c cs _ _ hi    => exact hi.trans (List.suffix_cons c cs)

theorem tokenType_suffix (c : UInt8) : (tokenType c current).2 <:+ current := by
  have hp (pattern : String) : (matchPattern pattern current).2 <:+ current := by
    unfold matchPattern
    split
    case isTrue  => exact List.drop_suffix ..
    case isFalse => exact List.suffix_rfl
  unfold tokenType
  split
  case isTrue => exact readNumber_suffix current
  case isFalse =>
    split
    case h_5 => exact readString_suffix current
    case h_6 => exact readComment_suffix current
    case h_7 => exact readNumber_suffix current
    case h_8 | h_9 | h_10 => exact hp _
    all_goals exact List.suffix_rfl

theorem skipSpaces_suffix : skipSpaces current <:+ current :=
  List.dropWhile_suffix _

-- At the end of the document there is nothing to be taken from it.
theorem readToken_eq : readToken current = ({ type := tokenEndOfStream, text := [] }, []) ∨
    ∃ c start, c :: start <:+ current ∧ (readToken current).1.type = (tokenType c start).1 ∧
      (readToken current).2 = (tokenType c start).2 := by
  have hs := skipSpaces_suffix current
  unfold readToken
  split
  case h_1            => exact .inl rfl
  case h_2 c start he => exact .inr ⟨c, start, he ▸ hs, rfl, rfl⟩

theorem readToken_suffix : (readToken current).2 <:+ current := by
  rcases readToken_eq current with h | ⟨c, start, hs, -, h⟩
  · rw [h]
    exact List.nil_suffix
  · rw [h]
    exact (tokenType_suffix start c).trans ((List.suffix_cons c start).trans hs)

theorem readToken_length_lt (h : (readToken current).1.type ≠ tokenEndOfStream) :
    (readToken current).2.length < current.length := by
  rcases readToken_eq current with he | ⟨c, start, hs, -, he⟩
  · simp [he] at h
  · have ht := (tokenType_suffix start c).length_le
    have hs := hs.length_le
    rw [List.length_cons] at hs
    rw [he]
    omega

end

def readTokenSkippingComments (current : Bytes) : Token × Bytes :=
  if (readToken current).1.type = tokenComment
  then readTokenSkippingComments (readToken current).2
  else readToken current
termination_by current.length
decreasing_by exact readToken_length_lt current (by simp [*])

def recoverFromError (skipUntilToken : TokenType) (current : Bytes) : Bytes :=
  if (readToken current).1.type = skipUntilToken ∨ (readToken current).1.type = tokenEndOfStream
  then (readToken current).2
  else recoverFromError skipUntilToken (readToken current).2
termination_by current.length
decreasing_by exact readToken_length_lt current (by simp_all)

theorem readTokenSkippingComments_suffix (current : Bytes) : (readTokenSkippingComments current).2 <:+ current := by
  fun_induction readTokenSkippingComments current
  case case1 hi => exact hi.trans (readToken_suffix _)
  case case2    => exact readToken_suffix _

theorem readTokenSkippingComments_length_lt (current : Bytes)
    (h : (readTokenSkippingComments current).1.type ≠ tokenEndOfStream) :
    (readTokenSkippingComments current).2.length < current.length := by
  fun_induction readTokenSkippingComments current
  case case1 hi => exact (hi h).trans_le (readToken_suffix _).length_le
  case case2    => exact readToken_length_lt _ h

theorem recoverFromError_suffix (skipUntilToken : TokenType) (current : Bytes) :
    recoverFromError skipUntilToken current <:+ current := by
  fun_induction recoverFromError skipUntilToken current
  case case1    => exact readToken_suffix _
  case case2 hi => exact hi.trans (readToken_suffix _)

-- A hexadecimal digit.
def hexDigit (c : UInt8) : Option UInt32 :=
  if '0' ≤ char c ∧ char c ≤ '9' then some (c.toUInt32 - 48)
  else if 'a' ≤ char c ∧ char c ≤ 'f' then some (c.toUInt32 - 97 + 10)
  else if 'A' ≤ char c ∧ char c ≤ 'F' then some (c.toUInt32 - 65 + 10)
  else none

def decodeUnicodeEscapeSequence (current : Bytes) : Option UInt32 :=
  if current.length < 4
  then none
  else (current.take 4).foldlM (fun (unicode : UInt32) c => (unicode * 16 + ·) <$> hexDigit c) 0

-- The code points below return how many bytes they take, too. This is the second half of a surrogate pair.
def decodeSurrogatePair (unicode : UInt32) (current : Bytes) : Option (UInt32 × Nat) :=
  if current.length < 6
  then none
  else if ascii "\\u" <+: current
  then
    match decodeUnicodeEscapeSequence (current.drop 2) with
    | none               => none
    | some surrogatePair => some ((0x10000 : UInt32) + ((unicode &&& 0x3FF) <<< 10) + (surrogatePair &&& 0x3FF), 10)
  else none

def decodeUnicodeCodePoint (current : Bytes) : Option (UInt32 × Nat) :=
  match decodeUnicodeEscapeSequence current with
  | none         => none
  | some unicode =>
    if 0xD800 ≤ unicode ∧ unicode ≤ 0xDBFF
    then decodeSurrogatePair unicode (current.drop 4)
    else some (unicode, 4)

def utf8Byte (mark mask bits : UInt32) : UInt8 :=
  (mark ||| (mask &&& bits)).toUInt8

def codePointToUTF8 (cp : UInt32) : Bytes :=
  if cp ≤ 0x7F then
    [cp.toUInt8]
  else if cp ≤ 0x7FF then
    [utf8Byte 0xC0 0x1F (cp >>> 6), utf8Byte 0x80 0x3F cp]
  else if cp ≤ 0xFFFF then
    [utf8Byte 0xE0 0xF (cp >>> 12), utf8Byte 0x80 0x3F (cp >>> 6), utf8Byte 0x80 0x3F cp]
  else if cp ≤ 0x10FFFF then
    [utf8Byte 0xF0 0x7 (cp >>> 18), utf8Byte 0x80 0x3F (cp >>> 12), utf8Byte 0x80 0x3F (cp >>> 6),
     utf8Byte 0x80 0x3F cp]
  else []

-- The byte for which an escape stands.
def unescape (escape : UInt8) : Option UInt8 :=
  match char escape with
  | '"'  => some 0x22
  | '/'  => some 0x2F
  | '\\' => some 0x5C
  | 'b'  => some 0x08
  | 'f'  => some 0x0C
  | 'n'  => some 0x0A
  | 'r'  => some 0x0D
  | 't'  => some 0x09
  | _    => none

-- The loop of `decodeString`, over what is between the quotes.
def decodeChars : Bytes → Option Bytes
  | []      => some []
  | c :: cs =>
    if char c = '"'
    then some []
    else if char c = '\\'
    then
      match cs with
      | []           => none
      | escape :: cs =>
        if char escape = 'u'
        then
          match decodeUnicodeCodePoint cs with
          | none              => none
          | some (unicode, n) => (codePointToUTF8 unicode ++ ·) <$> decodeChars (cs.drop n)
        else
          match unescape escape with
          | none   => none
          | some b => (b :: ·) <$> decodeChars cs
    else (c :: ·) <$> decodeChars cs
termination_by cs => cs.length
decreasing_by all_goals (simp; try omega)

def decodeString (text : Bytes) : Option Bytes :=
  decodeChars (text.drop 1).dropLast

-- The loop of `decodeNumber`, for which `maxIntegerValue` is given. If the number is not an integer, or is too
-- large, it is none.
def decodeDigits (maxIntegerValue value : Nat) : Bytes → Option Nat
  | []      => some value
  | c :: cs =>
    let threshold := maxIntegerValue / 10
    let digit := c.toNat - 48
    if ¬isDigit c
    then none
    else if value ≥ threshold ∧ (value > threshold ∨ cs ≠ [] ∨ digit > maxIntegerValue % 10)
    then none
    else decodeDigits maxIntegerValue (value * 10 + digit) cs

section

-- `decodeDouble` finds the number which a stream reads from a text, if it is one.
variable (decodeDouble : Bytes → Option Double)

def decodeNumber (text : Bytes) : Option Value :=
  let isNegative := (text.head?.map char) = some '-'
  let digits := if isNegative then text.drop 1 else text
  let maxIntegerValue := if isNegative then 2 ^ 63 else 2 ^ 64 - 1
  match decodeDigits maxIntegerValue 0 digits with
  | none       => .real <$> decodeDouble text
  | some value =>
    some <|
      if isNegative then .int (.ofInt (-value))
      else if value ≤ 2 ^ 31 - 1 then .int (.ofInt value)
      else .uint (.ofNat value)

-- A function which reads a value. What it leaves is the end of what it has been given.
structure ValueReader where
  run    : Bytes → Except Exception (Option Value × Bytes)
  suffix {current v current'} : run current = .ok (v, current') → current' <:+ current

variable (nested : ValueReader)

-- The loop of `readObject`, where `name` is the last name which has been read.
def readMembers (name : Bytes) (ms : List (Bytes × Value)) (current : Bytes) :
    Except Exception (Option Value × Bytes) :=
  let tokenName := readTokenSkippingComments current
  if tokenName.1.type = tokenObjectEnd ∧ name = []
  then .ok (some (.object ms), tokenName.2)
  else if tokenName.1.type ≠ tokenString
  then .ok (none, recoverFromError tokenObjectEnd tokenName.2)
  else
    match decodeString tokenName.1.text with
    | none      => .ok (none, recoverFromError tokenObjectEnd tokenName.2)
    | some name =>
      let colon := readToken tokenName.2
      if colon.1.type ≠ tokenMemberSeparator
      then .ok (none, recoverFromError tokenObjectEnd colon.2)
      else
        match _hv : nested.run colon.2 with
        | .error e                  => .error e
        | .ok (none, current)       => .ok (none, recoverFromError tokenObjectEnd current)
        | .ok (some value, current) =>
          let ms := Value.setMember (Value.czString name) value ms
          let comma := readTokenSkippingComments current
          if comma.1.type = tokenObjectEnd
          then .ok (some (.object ms), comma.2)
          else if comma.1.type = tokenArraySeparator
          then readMembers name ms comma.2
          else .ok (none, recoverFromError tokenObjectEnd comma.2)
termination_by current.length
decreasing_by
  have ht : tokenName.1.type ≠ tokenEndOfStream := by simp_all
  have hn : tokenName.2.length < _ := readTokenSkippingComments_length_lt _ ht
  have hc : colon.2.length ≤ _ := (readToken_suffix _).length_le
  have hl : comma.2.length ≤ _ := (readTokenSkippingComments_suffix _).length_le
  have := (nested.suffix _hv).length_le
  show comma.2.length < _
  omega

-- The loop of `readArray`, where `vs` are the values which have been read.
def readElements (vs : List Value) (current : Bytes) : Except Exception (Option Value × Bytes) :=
  match _hv : nested.run current with
  | .error e                  => .error e
  | .ok (none, current)       => .ok (none, recoverFromError tokenArrayEnd current)
  | .ok (some value, current) =>
    let currentToken := readTokenSkippingComments current
    if currentToken.1.type = tokenArrayEnd
    then .ok (some (.array (vs ++ [value])), currentToken.2)
    else if currentToken.1.type = tokenArraySeparator
    then readElements (vs ++ [value]) currentToken.2
    else .ok (none, recoverFromError tokenArrayEnd currentToken.2)
termination_by current.length
decreasing_by
  have ht : currentToken.1.type ≠ tokenEndOfStream := by simp_all
  have hl : currentToken.2.length < _ := readTokenSkippingComments_length_lt _ ht
  have := (nested.suffix _hv).length_le
  show currentToken.2.length < _
  omega

def readArray (current : Bytes) : Except Exception (Option Value × Bytes) :=
  let current := skipSpaces current
  if (current.head?.map char) = some ']'
  then .ok (some (.array []), (readToken current).2)
  else readElements nested [] current

def readObject (current : Bytes) : Except Exception (Option Value × Bytes) :=
  readMembers nested [] [] current

theorem readMembers_suffix {name : Bytes} {ms : List (Bytes × Value)} {current current' : Bytes} {v : Option Value}
    (h : readMembers nested name ms current = .ok (v, current')) : current' <:+ current := by
  have hs := readTokenSkippingComments_suffix
  have hc (current : Bytes) : (readToken (readTokenSkippingComments current).2).2 <:+ current :=
    (readToken_suffix _).trans (hs _)
  have hr := recoverFromError_suffix tokenObjectEnd
  fun_induction readMembers nested name ms current
  case case1                 => cases h; exact hs _
  case case2                 => cases h; exact (hr _).trans (hs _)
  case case3                 => cases h; exact (hr _).trans (hs _)
  case case4                 => cases h; exact (hr _).trans (hc _)
  case case5                 => cases h
  case case6 hv              => cases h; exact (hr _).trans ((nested.suffix hv).trans (hc _))
  case case7 hv _ _ _        => cases h; exact (hs _).trans ((nested.suffix hv).trans (hc _))
  case case8 hv _ _ _ _ hi   => exact (hi h).trans ((hs _).trans ((nested.suffix hv).trans (hc _)))
  case case9 hv _ _ _        => cases h; exact (hr _).trans ((hs _).trans ((nested.suffix hv).trans (hc _)))

theorem readElements_suffix {vs : List Value} {current current' : Bytes} {v : Option Value}
    (h : readElements nested vs current = .ok (v, current')) : current' <:+ current := by
  have hs := readTokenSkippingComments_suffix
  have hr := recoverFromError_suffix tokenArrayEnd
  fun_induction readElements nested vs current
  case case1               => cases h
  case case2 hv            => cases h; exact (hr _).trans (nested.suffix hv)
  case case3 hv _ _        => cases h; exact (hs _).trans (nested.suffix hv)
  case case4 hv _ _ _ hi   => exact (hi h).trans ((hs _).trans (nested.suffix hv))
  case case5 hv _ _ _      => cases h; exact (hr _).trans ((hs _).trans (nested.suffix hv))

-- `readValue`, past the test of the stack limit.
def readToValue (current : Bytes) : Except Exception (Option Value × Bytes) :=
  let token := readTokenSkippingComments current
  match token.1.type with
  | .tokenObjectBegin => readObject nested token.2
  | .tokenArrayBegin  => readArray nested token.2
  | .tokenNumber      => .ok (decodeNumber decodeDouble token.1.text, token.2)
  | .tokenString      =>
    match decodeString token.1.text with
    | none         => .ok (none, token.2)
    | some decoded => (fun v => (some v, token.2)) <$> Value.ofString decoded
  | .tokenTrue        => .ok (some (.bool true), token.2)
  | .tokenFalse       => .ok (some (.bool false), token.2)
  | .tokenNull        => .ok (some .null, token.2)
  | _                 => .ok (none, token.2)

theorem readToValue_suffix {current current' : Bytes} {v : Option Value}
    (h : readToValue decodeDouble nested current = .ok (v, current')) : current' <:+ current := by
  refine List.IsSuffix.trans ?_ (readTokenSkippingComments_suffix current)
  unfold readToValue at h
  simp only at h
  split at h
  case h_1 => exact readMembers_suffix nested h
  case h_2 =>
    unfold readArray at h
    refine List.IsSuffix.trans ?_ (skipSpaces_suffix _)
    simp only at h
    split at h
    · cases h
      exact readToken_suffix _
    · exact readElements_suffix nested h
  case h_4 =>
    split at h
    case h_1 =>
      cases h
      exact List.suffix_rfl
    case h_2 decoded _ =>
      cases hd : Value.ofString decoded
      all_goals
        rw [hd] at h
        cases h
      exact List.suffix_rfl
  all_goals
    cases h
    exact List.suffix_rfl

-- `readValue`, where `n` is how many nodes there may still be on the stack.
def readValue : Nat → ValueReader
  | 0     => { run := fun _ => .error (.runtimeError "Exceeded stackLimit in readValue()."), suffix := by simp }
  | n + 1 => { run := readToValue decodeDouble (readValue n), suffix := readToValue_suffix decodeDouble _ }

def stackLimit : Nat := 1000

-- The root, if it can be read. What comes behind it is not looked at, apart from one token.
def parse (document : Bytes) : Except Exception (Option Value) :=
  Prod.fst <$> (readValue decodeDouble stackLimit).run document

end

end Json.Reader
