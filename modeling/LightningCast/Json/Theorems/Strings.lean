import LightningCast.Json.Grammar
import LightningCast.Json.Writer
import Mathlib.Data.Bool.AllAny
import Mathlib.Data.List.Basic

namespace Json

open Reader

section

variable {b c : UInt8} {t s h cs : Bytes} {n d : Nat}

theorem isHexDigit_lt (hd : IsHexDigit c d) : d < 16 := by
  rcases hd with hd | hd
  all_goals
    obtain ⟨hd, -⟩ := List.getElem?_eq_some_iff.mp hd
    exact hd

theorem hexDigit_of_isHexDigit (hd : IsHexDigit c d) : hexDigit c = some (.ofNat d) := by
  have h : ∀ d < 16, ∀ s ∈ ["0123456789abcdef", "0123456789ABCDEF"],
      ((ascii s)[d]?).all fun c => hexDigit c = some (.ofNat d) := by
    decide
  rcases id hd with hd' | hd'
  all_goals exact of_decide_eq_true ((Option.all_eq_true ..).mp (h d (isHexDigit_lt hd) _ (by simp)) c hd')

-- Neither a quote nor a backslash.
def Plain (b : UInt8) : Prop :=
  char b ≠ '"' ∧ char b ≠ '\\'

instance (b : UInt8) : Decidable (Plain b) :=
  inferInstanceAs (Decidable (_ ∧ _))

theorem plain_of_isHexDigit (hd : IsHexDigit c d) : Plain c := by
  have h : ∀ d < 16, ∀ s ∈ ["0123456789abcdef", "0123456789ABCDEF"], ((ascii s)[d]?).all fun c => Plain c := by
    decide
  rcases id hd with hd' | hd'
  all_goals exact of_decide_eq_true ((Option.all_eq_true ..).mp (h d (isHexDigit_lt hd) _ (by simp)) c hd')

theorem hex_length (hh : Hex h n) : h.length = 4 := by
  cases hh
  rfl

theorem decodeUnicodeEscapeSequence_of_hex (hh : Hex h n) : decodeUnicodeEscapeSequence (h ++ t) = some (.ofNat n) := by
  obtain ⟨ha, hb, hc, hd⟩ := hh
  simp [decodeUnicodeEscapeSequence, hexDigit_of_isHexDigit ha, hexDigit_of_isHexDigit hb, hexDigit_of_isHexDigit hc,
    hexDigit_of_isHexDigit hd, UInt32.ofNat_add, UInt32.ofNat_mul]

theorem codePointToUTF8_val (c : Char) : codePointToUTF8 c.val = String.utf8EncodeChar c := by
  have hb (mark mask bits : UInt32) : utf8Byte mark mask bits = (bits.toUInt8 &&& mask.toUInt8) ||| mark.toUInt8 := by
    rw [utf8Byte, UInt32.toUInt8_or, UInt32.toUInt8_and, UInt8.or_comm, UInt8.and_comm]
  have hc : c.val ≤ 0x10FFFF := by
    have := c.valid
    rw [UInt32.le_iff_toNat_le]
    simp only [UInt32.isValidChar, Nat.isValidChar] at this
    have hn : UInt32.toNat 0x10FFFF = 0x10FFFF := rfl
    omega
  rw [String.utf8EncodeChar_eq_utf8EncodeCharFast]
  simp only [codePointToUTF8, String.utf8EncodeCharFast, hb, if_pos hc]
  rfl

theorem val_eq (c : Char) : UInt32.ofNat c.toNat = c.val :=
  UInt32.ofNat_toNat

theorem decodeUnicodeCodePoint_unicode {c : Char} (hh : Hex h c.toNat) :
    decodeUnicodeCodePoint (h ++ t) = some (c.val, 4) := by
  have hs : ¬(0xD800 ≤ c.val ∧ c.val ≤ 0xDBFF) := by
    have := c.valid
    simp only [UInt32.isValidChar, Nat.isValidChar] at this
    simp only [UInt32.le_iff_toNat_le]
    have h₁ : UInt32.toNat 0xD800 = 0xD800 := rfl
    have h₂ : UInt32.toNat 0xDBFF = 0xDBFF := rfl
    omega
  rw [decodeUnicodeCodePoint, decodeUnicodeEscapeSequence_of_hex hh, val_eq]
  exact if_neg hs

theorem toNat_ofNat32 (hn : n < 2 ^ 32) : (UInt32.ofNat n).toNat = n := by
  rw [UInt32.toNat_ofNat', Nat.mod_eq_of_lt hn]

theorem isHighSurrogate {k : Nat} (hk : k < 0x400) :
    0xD800 ≤ UInt32.ofNat (0xD800 + k) ∧ UInt32.ofNat (0xD800 + k) ≤ 0xDBFF := by
  have h₁ : UInt32.toNat 0xD800 = 0xD800 := rfl
  have h₂ : UInt32.toNat 0xDBFF = 0xDBFF := rfl
  rw [UInt32.le_iff_toNat_le, UInt32.le_iff_toNat_le, toNat_ofNat32 (by omega), h₁, h₂]
  omega

theorem surrogatePair_eq {k l : Nat} (hk : k < 0x400) (hl : l < 0x400) :
    (0x10000 : UInt32) + ((UInt32.ofNat (0xD800 + k) &&& 0x3FF) <<< 10) + (UInt32.ofNat (0xDC00 + l) &&& 0x3FF) =
      UInt32.ofNat (0x10000 + k * 0x400 + l) := by
  refine UInt32.toNat_inj.mp ?_
  have hm : UInt32.toNat 0x3FF = 2 ^ 10 - 1 := rfl
  have ht : UInt32.toNat 10 % 32 = 10 := rfl
  have hb : UInt32.toNat 0x10000 = 0x10000 := rfl
  simp only [UInt32.toNat_add, UInt32.toNat_shiftLeft, UInt32.toNat_and, hm, ht, hb, Nat.and_two_pow_sub_one_eq_mod,
    toNat_ofNat32 (show 0xD800 + k < 2 ^ 32 by omega), toNat_ofNat32 (show 0xDC00 + l < 2 ^ 32 by omega),
    toNat_ofNat32 (show 0x10000 + k * 0x400 + l < 2 ^ 32 by omega), Nat.shiftLeft_eq]
  omega

theorem decodeUnicodeCodePoint_surrogates {h' : Bytes} {c : Char} (hc : 0x10000 ≤ c.toNat)
    (hh : Hex h (0xD800 + (c.toNat - 0x10000) / 0x400)) (hh' : Hex h' (0xDC00 + (c.toNat - 0x10000) % 0x400)) :
    decodeUnicodeCodePoint (h ++ (ascii "\\u" ++ (h' ++ t))) = some (c.val, 10) := by
  have hlt : c.toNat < 0x110000 := by
    have := c.valid
    simp only [UInt32.isValidChar, Nat.isValidChar] at this
    have : c.toNat = c.val.toNat := rfl
    omega
  have hl := hex_length hh
  have hl' := hex_length hh'
  have hu : (ascii "\\u").length = 2 := rfl
  have hd : (h ++ (ascii "\\u" ++ (h' ++ t))).drop 4 = ascii "\\u" ++ (h' ++ t) := by
    rw [← hl, List.drop_left]
  have hd' : (ascii "\\u" ++ (h' ++ t)).drop 2 = h' ++ t := by
    rw [← hu, List.drop_left]
  have hlen : ¬(ascii "\\u" ++ (h' ++ t)).length < 6 := by
    simp only [List.length_append]
    omega
  have hp := List.prefix_append (ascii "\\u") (h' ++ t)
  have hn : UInt32.ofNat (0x10000 + (c.toNat - 0x10000) / 0x400 * 0x400 + (c.toNat - 0x10000) % 0x400) = c.val := by
    rw [← val_eq]
    exact congrArg UInt32.ofNat (by omega)
  generalize hk : (c.toNat - 0x10000) / 0x400 = k at hh hn
  generalize hl : (c.toNat - 0x10000) % 0x400 = l at hh' hn
  have hk : k < 0x400 := by omega
  have hl : l < 0x400 := by omega
  have hi := isHighSurrogate hk
  have hc := surrogatePair_eq hk hl
  have he : decodeUnicodeEscapeSequence (h ++ (ascii "\\u" ++ (h' ++ t))) = _ := decodeUnicodeEscapeSequence_of_hex hh
  have he' : decodeUnicodeEscapeSequence (h' ++ t) = _ := decodeUnicodeEscapeSequence_of_hex hh'
  rw [hn] at hc
  generalize UInt32.ofNat (0xD800 + k) = unicode at hi hc he
  generalize UInt32.ofNat (0xDC00 + l) = surrogatePair at hc he'
  rw [decodeUnicodeCodePoint, he]
  refine (if_pos hi).trans ?_
  rw [hd, decodeSurrogatePair, if_neg hlen, if_pos hp, hd', he']
  exact congrArg (fun u => some (u, 10)) hc

-- `readString` passes by what is not a quote or a backslash.

theorem readString_cons (hp : Plain b) : readString (b :: cs) = readString cs := by
  rw [readString.eq_def]
  exact (if_neg hp.right).trans (if_neg hp.left)

theorem readString_plain (hp : ∀ b ∈ t, Plain b) : readString (t ++ cs) = readString cs := by
  induction t
  case nil => rfl
  case cons b t hi =>
    obtain ⟨hb, hp⟩ := List.forall_mem_cons.mp hp
    exact (readString_cons hb).trans (hi hp)

theorem readString_escape (e : UInt8) : readString (ascii "\\" ++ e :: cs) = readString cs := by
  have h : ascii "\\" ++ e :: cs = 92 :: e :: cs := rfl
  rw [h, readString.eq_def]
  exact if_pos (by decide)

theorem readString_quote : readString (ascii "\"" ++ cs) = (true, cs) := by
  have h : ascii "\"" ++ cs = 34 :: cs := rfl
  rw [h, readString.eq_def]
  exact (if_neg (by decide)).trans (if_pos (by decide))

theorem plain_of_hex (hh : Hex h n) : ∀ b ∈ h, Plain b := by
  obtain ⟨ha, hb, hc, hd⟩ := hh
  simp [plain_of_isHexDigit ha, plain_of_isHexDigit hb, plain_of_isHexDigit hc, plain_of_isHexDigit hd]

theorem readString_of_chars (hc : Chars t s) : readString (t ++ (ascii "\"" ++ cs)) = (true, cs) := by
  induction hc
  case nil                     => exact readString_quote
  case plain hq hb _ hi        => exact (readString_cons ⟨hq, hb⟩).trans hi
  case escape hi               => exact (readString_escape _).trans hi
  case unicode h _ _ _ hh _ hi =>
    rw [List.append_assoc, List.append_assoc]
    exact (readString_escape _).trans ((readString_plain (plain_of_hex hh)).trans hi)
  case surrogates h h' _ _ _ _ hh hh' _ hi =>
    simp only [List.append_assoc]
    refine (readString_escape _).trans ((readString_plain (plain_of_hex hh)).trans ?_)
    exact (readString_escape _).trans ((readString_plain (plain_of_hex hh')).trans hi)

-- `decodeString` finds the string.

theorem unescape_of_mem {e : UInt8} (he : (e, b) ∈ escapes) : char e ≠ 'u' ∧ unescape e = some b := by
  have h : ∀ p ∈ escapes, char p.1 ≠ 'u' ∧ unescape p.1 = some p.2 := List.all_iff_forall_prop.mp (by decide)
  exact h _ he

theorem decodeChars_escape {e : UInt8} (hu : char e ≠ 'u') (he : unescape e = some b) :
    decodeChars (ascii "\\" ++ e :: cs) = (b :: ·) <$> decodeChars cs := by
  have h : ascii "\\" ++ e :: cs = 92 :: e :: cs := rfl
  rw [h, decodeChars.eq_def]
  refine (if_neg (by decide)).trans ((if_pos (by decide)).trans ((if_neg hu).trans ?_))
  rw [he]

theorem decodeChars_unicode {unicode : UInt32} (hu : decodeUnicodeCodePoint cs = some (unicode, n)) :
    decodeChars (ascii "\\u" ++ cs) = (codePointToUTF8 unicode ++ ·) <$> decodeChars (cs.drop n) := by
  have h : ascii "\\u" ++ cs = 92 :: 117 :: cs := rfl
  rw [h, decodeChars.eq_def]
  refine (if_neg (by decide)).trans ((if_pos (by decide)).trans ((if_pos (by decide)).trans ?_))
  rw [hu]

theorem decodeChars_of_chars (hc : Chars t s) : decodeChars t = some s := by
  induction hc
  case nil => rw [decodeChars]
  case plain b _ _ hq hb _ hi =>
    rw [decodeChars.eq_def]
    refine (if_neg hq).trans ((if_neg hb).trans ?_)
    rw [hi]
    rfl
  case escape e b t s he _ hi =>
    obtain ⟨hu, he⟩ := unescape_of_mem he
    rw [decodeChars_escape hu he, hi]
    rfl
  case unicode h _ _ _ hh _ hi =>
    rw [List.append_assoc, decodeChars_unicode (decodeUnicodeCodePoint_unicode hh), codePointToUTF8_val,
      ← hex_length hh, List.drop_left, hi]
    rfl
  case surrogates h h' t _ _ hc hh hh' _ hi =>
    have hl : (h ++ (ascii "\\u" ++ h')).length = 10 := by
      simp [hex_length hh, hex_length hh', ascii]
    have hd : (h ++ (ascii "\\u" ++ (h' ++ t))).drop 10 = t := by
      rw [← hl, ← List.append_assoc, ← List.append_assoc, ← List.append_assoc, List.drop_left]
    simp only [List.append_assoc]
    rw [decodeChars_unicode (decodeUnicodeCodePoint_surrogates hc hh hh'), codePointToUTF8_val, hd, hi]
    rfl

theorem decodeString_of_quoted (hq : Quoted t s) : decodeString t = some s := by
  obtain ⟨t', hc, rfl⟩ := hq
  have h : (ascii "\"" ++ t' ++ ascii "\"").drop 1 = t' ++ ascii "\"" := rfl
  rw [decodeString, h, ← decodeChars_of_chars hc]
  exact congrArg _ (List.dropLast_concat ..)

end

end Json
