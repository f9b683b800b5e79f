import LightningCast.Json.Theorems.Reader
import Mathlib.Data.List.Count

namespace Json

open Reader

-- What begins an array or an object.
def opens (b : UInt8) : Bool :=
  char b = '[' ∨ char b = '{'

-- A text on which the reader can throw with `n` nodes left on the stack: it has as many brackets, or a string in it
-- can be too long.
def Heavy (n : Nat) (current : Bytes) : Prop :=
  n ≤ current.countP opens ∨ 2 ^ 31 - 6 < current.length

section

variable {decodeDouble : Bytes → Option Double} {nested : ValueReader} {e : Exception} {vs : List Value}
  {ms : List (Bytes × Value)} {name current current' rest t s : Bytes} {n : Nat} {c : UInt8}

theorem Heavy.mono (h : Heavy n current') (hs : current' <:+ current) : Heavy n current := by
  rcases h with h | h
  · exact .inl (h.trans (hs.sublist.countP_le))
  · exact .inr (h.trans_le hs.length_le)

theorem readElements_heavy (hn : ∀ {current}, nested.run current = .error e → Heavy n current)
    (h : readElements nested vs current = .error e) : Heavy n current := by
  fun_induction readElements nested vs current
  case case1 hv =>
    cases h
    exact hn hv
  case case4 hv _ _ _ hi => exact (hi h).mono ((readTokenSkippingComments_suffix _).trans (nested.suffix hv))
  all_goals cases h

theorem readMembers_heavy (hn : ∀ {current}, nested.run current = .error e → Heavy n current)
    (h : readMembers nested name ms current = .error e) : Heavy n current := by
  have hc (current : Bytes) : (readToken (readTokenSkippingComments current).2).2 <:+ current :=
    (readToken_suffix _).trans (readTokenSkippingComments_suffix _)
  fun_induction readMembers nested name ms current
  case case5 hv =>
    cases h
    exact (hn hv).mono (hc _)
  case case8 hv _ _ _ _ hi =>
    exact (hi h).mono ((readTokenSkippingComments_suffix _).trans ((nested.suffix hv).trans (hc _)))
  all_goals cases h

-- What is read as a bracket is one.
theorem opens_of_tokenType
    (h : (tokenType c current).1 = .tokenObjectBegin ∨ (tokenType c current).1 = .tokenArrayBegin) :
    opens c := by
  have hc {type : TokenType} {p : Bool × Bytes} (ht : type ≠ .tokenObjectBegin ∧ type ≠ .tokenArrayBegin) :
      ¬((checked type p).1 = .tokenObjectBegin ∨ (checked type p).1 = .tokenArrayBegin) := by
    obtain ⟨ok, current⟩ := p
    cases ok
    all_goals simp [checked, ht]
  unfold tokenType at h
  split at h
  case isTrue => simp at h
  case isFalse =>
    split at h
    case h_1 hb => simp [opens, hb]
    case h_3 hb => simp [opens, hb]
    case h_5 | h_6 | h_8 | h_9 | h_10 => exact absurd h (hc (by simp))
    all_goals simp at h

theorem heavy_of_bracket (ht : (readTokenSkippingComments current).1.type = .tokenObjectBegin ∨
    (readTokenSkippingComments current).1.type = .tokenArrayBegin)
    (h : Heavy n (readTokenSkippingComments current).2) : Heavy (n + 1) current := by
  fun_induction readTokenSkippingComments current
  case case1 hi => exact (hi ht h).mono (readToken_suffix _)
  case case2 current _ =>
    rcases readToken_eq current with he | ⟨c, start, hs, he, hr⟩
    · simp [he] at ht
    · rw [he] at ht
      have hc := opens_of_tokenType ht
      have h := h.mono (hr ▸ tokenType_suffix start c)
      refine Heavy.mono ?_ hs
      rcases h with h | h
      · refine .inl ?_
        rw [List.countP_cons_of_pos hc]
        exact Nat.succ_le_succ h
      · exact .inr (h.trans (Nat.lt_succ_self _))

-- A string does not get longer when it is decoded.

theorem codePointToUTF8_length (cp : UInt32) : (codePointToUTF8 cp).length ≤ 4 := by
  unfold codePointToUTF8
  split
  case isTrue => simp
  case isFalse =>
    split
    case isTrue => simp
    case isFalse =>
      split
      case isTrue => simp
      case isFalse => split <;> simp

theorem decodeUnicodeEscapeSequence_length {unicode : UInt32} (h : decodeUnicodeEscapeSequence current = some unicode) :
    4 ≤ current.length := by
  unfold decodeUnicodeEscapeSequence at h
  split at h
  case isTrue     => cases h
  case isFalse hl => exact Nat.not_lt.mp hl

theorem decodeUnicodeCodePoint_length {p : UInt32 × Nat} (h : decodeUnicodeCodePoint current = some p) :
    4 ≤ current.length ∧ 4 ≤ p.2 := by
  unfold decodeUnicodeCodePoint at h
  split at h
  case h_1 => cases h
  case h_2 unicode hu =>
    refine ⟨decodeUnicodeEscapeSequence_length hu, ?_⟩
    split at h
    case isTrue =>
      unfold decodeSurrogatePair at h
      split at h
      case isTrue => cases h
      case isFalse =>
        split at h
        case isTrue =>
          split at h
          case h_1 => cases h
          case h_2 =>
            cases h
            exact Nat.le_of_ble_eq_true rfl
        case isFalse => cases h
    case isFalse =>
      cases h
      exact le_refl _

theorem decodeChars_length (h : decodeChars t = some s) : s.length ≤ t.length := by
  fun_induction decodeChars t generalizing s
  case case5 cs _ unicode n hu hi =>
    obtain ⟨s', hs, rfl⟩ := Option.map_eq_some_iff.mp h
    have hc := codePointToUTF8_length unicode
    have := decodeUnicodeCodePoint_length hu
    have := hi hs
    simp only [List.length_append, List.length_cons, List.length_drop] at *
    omega
  case case7 hi =>
    obtain ⟨s', hs, rfl⟩ := Option.map_eq_some_iff.mp h
    have := hi hs
    simp only [List.length_cons]
    omega
  case case8 hi =>
    obtain ⟨s', hs, rfl⟩ := Option.map_eq_some_iff.mp h
    exact Nat.succ_le_succ (hi hs)
  all_goals
    cases h
    try exact Nat.zero_le _

theorem readToken_text_length (current : Bytes) : (readToken current).1.text.length ≤ current.length := by
  have hs := (skipSpaces_suffix current).length_le
  unfold readToken
  split
  case h_1            => exact Nat.zero_le _
  case h_2 c start he =>
    rw [he] at hs
    exact (List.length_take_le' ..).trans hs

theorem readTokenSkippingComments_text_length (current : Bytes) :
    (readTokenSkippingComments current).1.text.length ≤ current.length := by
  fun_induction readTokenSkippingComments current
  case case1 hi => exact hi.trans (readToken_suffix _).length_le
  case case2    => exact readToken_text_length _

theorem heavy_of_ofString {token : Token} (ht : token.text.length ≤ current.length)
    (hd : decodeString token.text = some s) (h : Value.ofString s = .error e) : Heavy n current := by
  have hs : s.length ≤ token.text.length := by
    refine (decodeChars_length hd).trans ?_
    simp only [List.length_dropLast, List.length_drop]
    omega
  rw [Value.ofString] at h
  split at h
  case isTrue => cases h
  case isFalse hl =>
    have := Nat.mod_le s.length (2 ^ 32)
    exact .inr (by omega)

theorem readToValue_heavy (hn : ∀ {current}, nested.run current = .error e → Heavy n current)
    (h : readToValue decodeDouble nested current = .error e) : Heavy (n + 1) current := by
  unfold readToValue at h
  simp only at h
  split at h
  case h_1 ht => exact heavy_of_bracket (.inl ht) (readMembers_heavy hn h)
  case h_2 ht =>
    refine heavy_of_bracket (.inr ht) (Heavy.mono ?_ (skipSpaces_suffix _))
    unfold readArray at h
    simp only at h
    split at h
    case isTrue  => cases h
    case isFalse => exact readElements_heavy hn h
  case h_4 =>
    split at h
    case h_1 => cases h
    case h_2 decoded hd =>
      cases ho : Value.ofString decoded
      case error =>
        exact heavy_of_ofString (readTokenSkippingComments_text_length current) hd ho
      case ok =>
        rw [ho] at h
        cases h
  all_goals cases h

theorem readValue_heavy (n : Nat) {current : Bytes} (h : (readValue decodeDouble n).run current = .error e) :
    Heavy n current := by
  induction n generalizing current
  case zero      => exact .inl (Nat.zero_le _)
  case succ n hi => exact readToValue_heavy hi h

-- A text which opens more arrays than there may be nodes on the stack.
theorem readValue_replicate (n : Nat) (rest : Bytes) :
    (readValue decodeDouble n).run (List.replicate (n + 1) 0x5B ++ rest) =
      .error (.runtimeError "Exceeded stackLimit in readValue().") := by
  induction n
  case zero => rfl
  case succ n hi =>
    have hc : skipSpaces (List.replicate (n + 1) 0x5B ++ rest) = List.replicate (n + 1) 0x5B ++ rest :=
      skipSpaces_cons (by decide)
    have hv : (readValue decodeDouble (n + 1)).run (List.replicate (n + 1 + 1) 0x5B ++ rest) =
        readArray (readValue decodeDouble n) (List.replicate (n + 1) 0x5B ++ rest) :=
      readToValue_array spaces_nil
    have hb : ((List.replicate (n + 1) (0x5B : UInt8) ++ rest).head?.map char) ≠ some ']' := by
      show some (char 0x5B) ≠ some ']'
      decide
    rw [hv, readArray, hc, if_neg hb, readElements_error hi]

-- The reader throws only at documents with a thousand brackets, or with a string of two gigabytes. It does so at
-- each which begins with one bracket more.
theorem parse_limit (document rest : Bytes) :
    (∀ e, parse decodeDouble document = .error e →
      stackLimit ≤ document.countP opens ∨ 2 ^ 31 - 6 < document.length) ∧
    parse decodeDouble (List.replicate (stackLimit + 1) 0x5B ++ rest) =
      .error (.runtimeError "Exceeded stackLimit in readValue().") := by
  constructor
  case left =>
    intro e h
    rw [parse] at h
    cases hv : (readValue decodeDouble stackLimit).run document
    case error => exact readValue_heavy stackLimit hv
    case ok    =>
      rw [hv] at h
      cases h
  case right => rw [parse, readValue_replicate, Except.map_error]

end

end Json
