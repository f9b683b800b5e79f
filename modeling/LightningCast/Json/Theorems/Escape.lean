import LightningCast.Json.Theorems.Strings

namespace Json

open Reader (char)
open FastWriter

-- The bytes which encode the characters of a text.
def utf8 (cs : List Char) : Bytes :=
  cs.flatMap String.utf8EncodeChar

-- The arithmetic of code points.

section

variable {x y k mask : UInt32} {b b₁ b₂ b₃ : UInt8} {s : Bytes} {n : Nat}

theorem toNat_mask (n : Nat) (hm : mask.toNat = 2 ^ n - 1) : (x &&& mask).toNat = x.toNat % 2 ^ n := by
  rw [UInt32.toNat_and, hm, Nat.and_two_pow_sub_one_eq_mod]

-- A part of a code point, which `k` moves to its place.
theorem toNat_part (n m : Nat) (hm : mask.toNat = 2 ^ n - 1) (hk : k.toNat = m) (h : n + m < 32) :
    ((x &&& mask) <<< k).toNat = x.toNat % 2 ^ n * 2 ^ m := by
  have hlt : x.toNat % 2 ^ n * 2 ^ m < 2 ^ 32 :=
    calc x.toNat % 2 ^ n * 2 ^ m
      _ < 2 ^ n * 2 ^ m := Nat.mul_lt_mul_of_pos_right (Nat.mod_lt _ (Nat.two_pow_pos n)) (Nat.two_pow_pos m)
      _ = 2 ^ (n + m)   := (Nat.pow_add ..).symm
      _ ≤ 2 ^ 32        := Nat.pow_le_pow_right (by decide) (by omega)
  have hm' : m % 32 = m := Nat.mod_eq_of_lt (by omega)
  rw [UInt32.toNat_shiftLeft, hk, hm', Nat.shiftLeft_eq, toNat_mask n hm, Nat.mod_eq_of_lt hlt]

theorem toNat_or (n : Nat) (hx : 2 ^ n ∣ x.toNat) (hy : y.toNat < 2 ^ n) : (x ||| y).toNat = x.toNat + y.toNat := by
  obtain ⟨m, hx⟩ := hx
  rw [UInt32.toNat_or, hx, Nat.two_pow_add_eq_or_of_lt hy]

theorem toNat_two (b b₁ : UInt8) : (((b.toUInt32 &&& 0x1F) <<< 6) ||| (b₁.toUInt32 &&& 0x3F)).toNat =
    b.toNat % 32 * 64 + b₁.toNat % 64 := by
  have hb : ((b.toUInt32 &&& 0x1F) <<< 6).toNat = b.toNat % 32 * 64 := toNat_part 5 6 rfl rfl (by decide)
  have hb₁ : (b₁.toUInt32 &&& 0x3F).toNat = b₁.toNat % 64 := toNat_mask 6 rfl
  rw [toNat_or 6 (by omega) (by omega), hb, hb₁]

theorem toNat_three : (((b.toUInt32 &&& 0x0F) <<< 12) ||| ((b₁.toUInt32 &&& 0x3F) <<< 6) |||
    (b₂.toUInt32 &&& 0x3F)).toNat = b.toNat % 16 * 4096 + b₁.toNat % 64 * 64 + b₂.toNat % 64 := by
  have hb : ((b.toUInt32 &&& 0x0F) <<< 12).toNat = b.toNat % 16 * 4096 := toNat_part 4 12 rfl rfl (by decide)
  have hb₁ : ((b₁.toUInt32 &&& 0x3F) <<< 6).toNat = b₁.toNat % 64 * 64 := toNat_part 6 6 rfl rfl (by decide)
  have hb₂ : (b₂.toUInt32 &&& 0x3F).toNat = b₂.toNat % 64 := toNat_mask 6 rfl
  have ho : (((b.toUInt32 &&& 0x0F) <<< 12) ||| ((b₁.toUInt32 &&& 0x3F) <<< 6)).toNat =
      b.toNat % 16 * 4096 + b₁.toNat % 64 * 64 := by
    rw [toNat_or 12 (by omega) (by omega), hb, hb₁]
  rw [toNat_or 6 (by omega) (by omega), ho, hb₂]

theorem toNat_four : (((b.toUInt32 &&& 0x07) <<< 18) ||| ((b₁.toUInt32 &&& 0x3F) <<< 12) |||
    ((b₂.toUInt32 &&& 0x3F) <<< 6) ||| (b₃.toUInt32 &&& 0x3F)).toNat =
      b.toNat % 8 * 262144 + b₁.toNat % 64 * 4096 + b₂.toNat % 64 * 64 + b₃.toNat % 64 := by
  have hb : ((b.toUInt32 &&& 0x07) <<< 18).toNat = b.toNat % 8 * 262144 := toNat_part 3 18 rfl rfl (by decide)
  have hb₁ : ((b₁.toUInt32 &&& 0x3F) <<< 12).toNat = b₁.toNat % 64 * 4096 := toNat_part 6 12 rfl rfl (by decide)
  have hb₂ : ((b₂.toUInt32 &&& 0x3F) <<< 6).toNat = b₂.toNat % 64 * 64 := toNat_part 6 6 rfl rfl (by decide)
  have hb₃ : (b₃.toUInt32 &&& 0x3F).toNat = b₃.toNat % 64 := toNat_mask 6 rfl
  have ho : (((b.toUInt32 &&& 0x07) <<< 18) ||| ((b₁.toUInt32 &&& 0x3F) <<< 12)).toNat =
      b.toNat % 8 * 262144 + b₁.toNat % 64 * 4096 := by
    rw [toNat_or 18 (by omega) (by omega), hb, hb₁]
  have ho₁ : (((b.toUInt32 &&& 0x07) <<< 18) ||| ((b₁.toUInt32 &&& 0x3F) <<< 12) |||
      ((b₂.toUInt32 &&& 0x3F) <<< 6)).toNat = b.toNat % 8 * 262144 + b₁.toNat % 64 * 4096 + b₂.toNat % 64 * 64 := by
    rw [toNat_or 12 (by omega) (by omega), ho, hb₂]
  rw [toNat_or 6 (by omega) (by omega), ho₁, hb₃]

-- A code point is written as one character. What no character has for a code point is written as another one.
def written (codepoint : UInt32) : Char :=
  if h : codepoint.isValidChar
  then ⟨codepoint, h⟩
  else .ofNat (0x10000 + (codepoint - 0x10000).toNat % 0x100000)

theorem written_val (c : Char) : written c.val = c :=
  dif_pos c.valid

-- What is found for a text which begins with `b`: no half of a surrogate pair, and a code point of one byte only
-- where it is.
def Found (b : UInt8) (codepoint : UInt32) : Prop :=
  (codepoint.toNat < 0xD800 ∨ 0xDFFF < codepoint.toNat) ∧ (codepoint.toNat < 0x80 → codepoint = b.toUInt32)

theorem found_replacementCharacter : Found b replacementCharacter :=
  ⟨.inr (by decide), (absurd · (by decide))⟩

theorem found_unless (hn : 0x80 ≤ y.toNat) (hx : y.toNat ≤ x.toNat → x.toNat < 0xD800 ∨ 0xDFFF < x.toNat) :
    Found b (if x < y then replacementCharacter else x) := by
  split
  case isTrue     => exact found_replacementCharacter
  case isFalse h =>
    have h : y.toNat ≤ x.toNat := Nat.not_lt.mp h
    exact ⟨hx h, by omega⟩

theorem utf8ToCodepoint_found (b : UInt8) (s : Bytes) : Found b (utf8ToCodepoint (b :: s)).1 := by
  have hr := found_replacementCharacter (b := b)
  rw [utf8ToCodepoint.eq_def]
  split
  case h_1 h => cases h
  case h_2 h =>
    cases h
    dsimp only
    split
    case isTrue h =>
      have h : b.toUInt32.toNat < 0x80 := h
      exact ⟨.inl (Nat.lt_trans h (by decide)), fun _ => rfl⟩
    case isFalse =>
      split
      case isTrue =>
        split
        case h_1 b₁ _ =>
          have hn := toNat_two b b₁
          exact found_unless (by decide) fun _ => .inl (by omega)
        case h_2 => exact hr
      case isFalse =>
        split
        case isTrue =>
          split
          case h_1 =>
            dsimp only
            split
            case isTrue => exact hr
            case isFalse h =>
              refine found_unless (by decide) fun _ => ?_
              rw [not_and_or, UInt32.not_le, UInt32.not_le] at h
              exact h
          case h_2 => exact hr
        case isFalse =>
          split
          case isTrue =>
            split
            case h_1 => exact found_unless (by decide) fun h => .inr (Nat.lt_of_lt_of_le (by decide) h)
            case h_2 => exact hr
          case isFalse => exact hr

-- The hexadecimal digits.

theorem hexChar_isHexDigit (hx : x.toNat < 16) : IsHexDigit (hexChar x) x.toNat := by
  have h : ∀ n < 16, IsHexDigit (hexChar (.ofNat n)) n := by
    simp only [IsHexDigit]
    decide
  have hx' := h x.toNat hx
  rwa [UInt32.ofNat_toNat] at hx'

theorem hex_toHex16Bit (hx : x.toNat < 0x10000) : Hex (toHex16Bit x) x.toNat := by
  have hk : UInt32.toNat 8 % 32 = 8 := rfl
  have hhi : ((x >>> 8) &&& 0xFF).toNat = x.toNat / 256 := by
    rw [toNat_mask 8 rfl, UInt32.toNat_shiftRight, hk, Nat.shiftRight_eq_div_pow]
    omega
  have hlo : (x &&& 0xFF).toNat = x.toNat % 256 := toNat_mask 8 rfl
  have hd {y : UInt32} (hy : y.toNat < 256) : IsHexDigit (hexChar (y / 16)) (y.toNat / 16) := by
    have h : (y / 16).toNat = y.toNat / 16 := UInt32.toNat_div ..
    rw [← h]
    exact hexChar_isHexDigit (by omega)
  have hm (y : UInt32) : IsHexDigit (hexChar (y % 16)) (y.toNat % 16) := by
    have h : (y % 16).toNat = y.toNat % 16 := UInt32.toNat_mod ..
    rw [← h]
    exact hexChar_isHexDigit (by omega)
  have hh := Hex.digits (hd (y := (x >>> 8) &&& 0xFF) (by omega)) (hm ((x >>> 8) &&& 0xFF))
    (hd (y := x &&& 0xFF) (by omega)) (hm (x &&& 0xFF))
  rw [hhi, hlo] at hh
  have he : ((x.toNat / 256 / 16 * 16 + x.toNat / 256 % 16) * 16 + x.toNat % 256 / 16) * 16 + x.toNat % 256 % 16 =
      x.toNat := by
    omega
  rwa [he] at hh

theorem written_toNat_of_lt (hx : x.toNat < 0xD800 ∨ 0xDFFF < x.toNat) (h : x.toNat < 0x10000) :
    (written x).toNat = x.toNat := by
  have hv : x.isValidChar := hx.imp_right fun h' => ⟨h', by omega⟩
  rw [written, dif_pos hv]
  rfl

theorem written_toNat_of_le (h : 0x10000 ≤ x.toNat) :
    (written x).toNat = 0x10000 + (x - 0x10000).toNat % 0x100000 := by
  have hs : (x - 0x10000).toNat = x.toNat - 0x10000 := UInt32.toNat_sub_of_le _ _ h
  rw [written]
  split
  case isTrue hv =>
    have hlt : x.toNat < 0x110000 := by
      rcases hv with hv | ⟨-, hv⟩
      · omega
      · exact hv
    have ht : Char.toNat ⟨x, hv⟩ = x.toNat := rfl
    rw [ht, hs]
    omega
  case isFalse hv =>
    have hv : Nat.isValidChar (0x10000 + (x - 0x10000).toNat % 0x100000) := .inr ⟨by omega, by omega⟩
    rw [Char.ofNat, dif_pos hv]
    rfl

theorem utf8EncodeChar_ascii {c : Char} (hc : c.toNat = b.toNat) (hb : b.toNat < 0x80) :
    String.utf8EncodeChar c = [b] := by
  have h : c.val.toNat = b.toNat := hc
  rw [String.utf8EncodeChar, h, if_pos (by omega), UInt8.ofNat_toNat]

theorem plain_of_shortEscape (hs : shortEscape b = none) : Plain b := by
  constructor
  all_goals
    intro hb
    rw [shortEscape, hb] at hs
    cases hs

theorem chars_surrogates {t s : Bytes} (hx : 0x10000 ≤ x.toNat) (hc : Chars t s) :
    Chars (appendHex ((0xD800 : UInt32) + (((x - 0x10000) >>> 10) &&& 0x3FF)) ++
      appendHex ((0xDC00 : UInt32) + ((x - 0x10000) &&& 0x3FF)) ++ t)
      (String.utf8EncodeChar (written x) ++ s) := by
  have hw := written_toNat_of_le hx
  generalize x - 0x10000 = y at hw
  have hk : UInt32.toNat 10 % 32 = 10 := rfl
  have hh : ((0xD800 : UInt32) + ((y >>> 10) &&& 0x3FF)).toNat = 0xD800 + ((written x).toNat - 0x10000) / 0x400 := by
    have hs : ((y >>> 10) &&& 0x3FF).toNat = y.toNat / 1024 % 1024 := by
      rw [toNat_mask 10 rfl, UInt32.toNat_shiftRight, hk]
      exact congrArg (· % 1024) (Nat.shiftRight_eq_div_pow ..)
    have hb : UInt32.toNat 0xD800 = 0xD800 := rfl
    rw [UInt32.toNat_add, hs, hb, hw]
    omega
  have hl : ((0xDC00 : UInt32) + (y &&& 0x3FF)).toNat = 0xDC00 + ((written x).toNat - 0x10000) % 0x400 := by
    have hs : (y &&& 0x3FF).toNat = y.toNat % 1024 := toNat_mask 10 rfl
    have hb : UInt32.toNat 0xDC00 = 0xDC00 := rfl
    rw [UInt32.toNat_add, hs, hb, hw]
    omega
  have hhigh := hex_toHex16Bit (x := (0xD800 : UInt32) + ((y >>> 10) &&& 0x3FF)) (by omega)
  have hlow := hex_toHex16Bit (x := (0xDC00 : UInt32) + (y &&& 0x3FF)) (by omega)
  rw [hh] at hhigh
  rw [hl] at hlow
  have hcs := Chars.surrogates (by omega) hhigh hlow hc
  rwa [appendHex, appendHex, ← List.append_assoc]

-- The escape of a code point stands for the character which is written.
theorem chars_appendCodepoint {t s : Bytes} (hf : Found b x) (hs : shortEscape b = none) (hc : Chars t s) :
    Chars (appendCodepoint x ++ t) (String.utf8EncodeChar (written x) ++ s) := by
  obtain ⟨hx, hb⟩ := hf
  have hu (h : x.toNat < 0x10000) : Chars (appendHex x ++ t) (String.utf8EncodeChar (written x) ++ s) := by
    have hh := hex_toHex16Bit h
    rw [← written_toNat_of_lt hx h] at hh
    exact .unicode hh hc
  rw [appendCodepoint]
  split
  case isTrue h =>
    have h : x.toNat < 0x20 := h
    exact hu (by omega)
  case isFalse =>
    split
    case isTrue h =>
      have h : x.toNat < 0x80 := h
      have he : x.toUInt8 = b := by rw [hb h, UInt8.toUInt8_toUInt32]
      have hn : x.toNat = b.toNat := by rw [hb h, UInt8.toNat_toUInt32]
      have hw := written_toNat_of_lt hx (by omega)
      have ⟨hq, hb⟩ := plain_of_shortEscape hs
      rw [he, utf8EncodeChar_ascii (hw.trans hn) (by omega)]
      exact .plain hq hb hc
    case isFalse =>
      split
      case isTrue h  => exact hu h
      case isFalse h => exact chars_surrogates (Nat.not_lt.mp h) hc

-- What is written for a string.

theorem shortEscape_eq {escaped : Bytes} (he : shortEscape b = some escaped) :
    ∃ e, (e, b) ∈ escapes ∧ escaped = ascii "\\" ++ [e] ∧ b.toNat < 0x80 := by
  have h : ∀ n < 256, ∀ escaped ∈ shortEscape (.ofNat n), ∃ p ∈ escapes,
      p.2 = .ofNat n ∧ escaped = ascii "\\" ++ [p.1] ∧ n < 0x80 := by
    decide +kernel
  have hb := h b.toNat b.toNat_lt
  rw [UInt8.ofNat_toNat] at hb
  obtain ⟨⟨e, b⟩, hp, rfl, he, hlt⟩ := hb escaped he
  exact ⟨e, hp, he, hlt⟩

-- The characters which are written for a string.
def writtenChars : Bytes → List Char
  | []      => []
  | c :: cs =>
    match shortEscape c with
    | some _ => char c :: writtenChars cs
    | none   =>
      let codepoint := utf8ToCodepoint (c :: cs)
      written codepoint.1 :: writtenChars (cs.drop codepoint.2)
termination_by value => value.length
decreasing_by all_goals (simp; try omega)

-- The text between the quotes stands for these characters, whatever the string is.
theorem chars_escape (s : Bytes) : Chars (escape s) (utf8 (writtenChars s)) := by
  fun_induction escape s
  case case1 =>
    rw [writtenChars]
    exact .nil
  case case2 c cs escaped he hi =>
    obtain ⟨e, hm, rfl, hlt⟩ := shortEscape_eq he
    rw [writtenChars, he, utf8, List.flatMap_cons, utf8EncodeChar_ascii (Reader.char_toNat c) hlt]
    exact .escape hm hi
  case case3 c cs he codepoint hi =>
    rw [writtenChars, he]
    exact chars_appendCodepoint (utf8ToCodepoint_found c cs) he hi

-- What is found for the bytes of a character.

theorem utf8ToCodepoint_one (hb : b.toNat < 0x80) : utf8ToCodepoint (b :: s) = (b.toUInt32, 0) := by
  rw [utf8ToCodepoint.eq_def]
  exact if_pos hb

theorem utf8ToCodepoint_two (hl : 0x80 ≤ b.toNat) (hb : b.toNat < 0xE0)
    (hx : x.toNat = b.toNat % 32 * 64 + b₁.toNat % 64)
    (hn : 0x80 ≤ x.toNat) : utf8ToCodepoint (b :: b₁ :: s) = (x, 1) := by
  have he := UInt32.toNat_inj.mp ((toNat_two _ _).trans hx.symm)
  rw [utf8ToCodepoint.eq_def]
  dsimp only
  rw [he]
  exact (if_neg (Nat.not_lt.mpr hl)).trans ((if_pos hb).trans (congrArg (·, 1) (if_neg (Nat.not_lt.mpr hn))))

theorem utf8ToCodepoint_three (hl : 0xE0 ≤ b.toNat) (hb : b.toNat < 0xF0)
    (hx : x.toNat = b.toNat % 16 * 4096 + b₁.toNat % 64 * 64 + b₂.toNat % 64)
    (hw : ¬(0xD800 ≤ x.toNat ∧ x.toNat ≤ 0xDFFF)) (hn : 0x800 ≤ x.toNat) :
    utf8ToCodepoint (b :: b₁ :: b₂ :: s) = (x, 2) := by
  have he := UInt32.toNat_inj.mp (toNat_three.trans hx.symm)
  have h₁ : ¬b.toUInt32 < 0x80 := Nat.not_lt.mpr (Nat.le_trans (by decide) hl)
  have h₂ : ¬b.toUInt32 < 0xE0 := Nat.not_lt.mpr hl
  have h₃ : ¬x < 0x800 := Nat.not_lt.mpr hn
  rw [utf8ToCodepoint.eq_def]
  dsimp only
  rw [he]
  refine (if_neg h₁).trans ((if_neg h₂).trans ((if_pos hb).trans (congrArg (·, 2) ?_)))
  exact (if_neg hw).trans (if_neg h₃)

theorem utf8ToCodepoint_four (hl : 0xF0 ≤ b.toNat) (hb : b.toNat < 0xF8)
    (hx : x.toNat = b.toNat % 8 * 262144 + b₁.toNat % 64 * 4096 + b₂.toNat % 64 * 64 + b₃.toNat % 64)
    (hn : 0x10000 ≤ x.toNat) : utf8ToCodepoint (b :: b₁ :: b₂ :: b₃ :: s) = (x, 3) := by
  have he := UInt32.toNat_inj.mp (toNat_four.trans hx.symm)
  have h₁ : ¬b.toUInt32 < 0x80 := Nat.not_lt.mpr (Nat.le_trans (by decide) hl)
  have h₂ : ¬b.toUInt32 < 0xE0 := Nat.not_lt.mpr (Nat.le_trans (by decide) hl)
  have h₃ : ¬b.toUInt32 < 0xF0 := Nat.not_lt.mpr hl
  have h₄ : ¬x < 0x10000 := Nat.not_lt.mpr hn
  rw [utf8ToCodepoint.eq_def]
  dsimp only
  rw [he]
  refine (if_neg h₁).trans ((if_neg h₂).trans ((if_neg h₃).trans ((if_pos hb).trans (congrArg (·, 3) ?_))))
  exact if_neg h₄

theorem utf8ToCodepoint_encode (c : Char) :
    utf8ToCodepoint (String.utf8EncodeChar c ++ s) = (c.val, (String.utf8EncodeChar c).length - 1) := by
  have hv : c.val.toNat < 0xD800 ∨ 0xDFFF < c.val.toNat ∧ c.val.toNat < 0x110000 := c.valid
  have ht {n : Nat} (hn : n < 256) : (UInt8.ofNat n).toNat = n := by
    rw [UInt8.toNat_ofNat', Nat.mod_eq_of_lt hn]
  rw [String.utf8EncodeChar]
  split
  case isTrue h =>
    have hb : (UInt8.ofNat c.val.toNat).toUInt32 = c.val := by
      refine UInt32.toNat_inj.mp ?_
      rw [UInt8.toNat_toUInt32, ht (by omega)]
    refine (utf8ToCodepoint_one ?_).trans (congrArg (·, 0) hb)
    rw [ht (by omega)]
    omega
  case isFalse h =>
    split
    case isTrue h₁ =>
      refine utf8ToCodepoint_two ?_ ?_ ?_ (by omega)
      all_goals
        simp (disch := omega) only [ht]
        omega
    case isFalse h₁ =>
      split
      case isTrue h₂ =>
        refine utf8ToCodepoint_three ?_ ?_ ?_ (by omega) (by omega)
        all_goals
          simp (disch := omega) only [ht]
          omega
      case isFalse h₂ =>
        refine utf8ToCodepoint_four ?_ ?_ ?_ (by omega)
        all_goals
          simp (disch := omega) only [ht]
          omega

-- A string which consists of characters is written as it is.
theorem writtenChars_utf8 (cs : List Char) : writtenChars (utf8 cs) = cs := by
  induction cs
  case nil => rw [utf8, List.flatMap_nil, writtenChars]
  case cons c cs hi =>
    have hc := utf8ToCodepoint_encode (s := utf8 cs) c
    rw [utf8, List.flatMap_cons, ← utf8]
    cases he : String.utf8EncodeChar c
    case nil       => exact absurd he String.utf8EncodeChar_ne_nil
    case cons b tl =>
      rw [he, List.cons_append] at hc
      rw [List.cons_append, writtenChars]
      split
      case h_1 escaped hs =>
        -- Only a character of one byte has a short escape.
        obtain ⟨e, hm, rfl, hlt⟩ := shortEscape_eq hs
        rw [utf8ToCodepoint_one hlt] at hc
        obtain rfl : tl = [] := List.eq_nil_of_length_eq_zero (congrArg Prod.snd hc).symm
        have hv : c.toNat = b.toNat := congrArg UInt32.toNat (congrArg Prod.fst hc).symm
        have hb : char b = c := Char.toNat_inj.mp ((Reader.char_toNat b).trans hv.symm)
        rw [List.nil_append, hi, hb]
      case h_2 hs =>
        have hd : (tl ++ utf8 cs).drop ((b :: tl).length - 1) = utf8 cs := List.drop_left
        rw [hc]
        dsimp only
        rw [hd, hi, written_val]

theorem chars_of_plain (hs : ¬doesAnyCharRequireEscaping s) : Chars s s ∧ s = utf8 (s.map char) := by
  induction s
  case nil => exact ⟨.nil, rfl⟩
  case cons b s hi =>
    simp only [doesAnyCharRequireEscaping, List.any_cons, Bool.or_eq_true, not_or, decide_eq_true_iff] at hs
    obtain ⟨⟨hb, hq, -, hlt⟩, hs⟩ := hs
    obtain ⟨hc, hi⟩ := hi hs
    have hlt : ¬UInt8.toNat 0x7F < b.toNat := hlt
    have hn : UInt8.toNat 0x7F = 0x7F := rfl
    rw [List.map_cons, utf8, List.flatMap_cons, utf8EncodeChar_ascii (Reader.char_toNat b) (by omega), ← utf8, ← hi]
    exact ⟨.plain hq hb hc, rfl⟩

-- The string which is read when `s` has been written.
def reread (s : Bytes) : Bytes :=
  utf8 (writtenChars s)

theorem reread_eq_iff (s : Bytes) : reread s = s ↔ ∃ cs, s = utf8 cs := by
  constructor
  case mp => exact fun hs => ⟨_, hs.symm⟩
  case mpr =>
    rintro ⟨cs, rfl⟩
    rw [reread, writtenChars_utf8]

theorem quoted_valueToQuotedStringN (s : Bytes) : Quoted (valueToQuotedStringN s) (reread s) := by
  rw [valueToQuotedStringN]
  split
  case isTrue     => exact ⟨_, chars_escape s, rfl⟩
  case isFalse hs =>
    obtain ⟨hc, hs⟩ := chars_of_plain hs
    rw [(reread_eq_iff s).mpr ⟨_, hs⟩]
    exact ⟨s, hc, rfl⟩

-- What is written of a string can be read. It is the string if that consists of characters, and only then.
theorem decodeString_valueToQuotedStringN (s : Bytes) :
    Reader.decodeString (valueToQuotedStringN s) = some (reread s) ∧ (reread s = s ↔ ∃ cs, s = utf8 cs) :=
  ⟨decodeString_of_quoted (quoted_valueToQuotedStringN s), reread_eq_iff s⟩

end

end Json
