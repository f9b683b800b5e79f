import LightningCast.Json.Grammar
import LightningCast.Json.Writer
import Mathlib.Data.List.TakeWhile

namespace Json

open Reader

-- What comes behind a number, and does not go on with it.
def Ends (rest : Bytes) : Prop :=
  ∀ b ∈ rest.head?, ¬isDigit b ∧ char b ≠ '.' ∧ char b ≠ 'e' ∧ char b ≠ 'E'

section

variable {max value n : Nat} {c : UInt8} {ds rest sign fraction exponent t : Bytes}

theorem le_foldl (ds : Bytes) (value : Nat) : value ≤ ds.foldl (fun n d => n * 10 + (d.toNat - 48)) value := by
  induction ds generalizing value
  case nil => exact le_refl _
  case cons d ds hi =>
    rw [List.foldl_cons]
    exact le_trans (by omega) (hi _)

-- The loop never overflows, and finds the number unless it is larger than the maximum.
theorem decodeDigits_eq (hd : ∀ d ∈ ds, isDigit d) (hm : max < max / 10 * 100) (hv : value ≤ max) :
    decodeDigits max value ds =
      let n := ds.foldl (fun n d => n * 10 + (d.toNat - 48)) value
      if n ≤ max then some n else none := by
  induction ds generalizing value
  case nil => exact (if_pos hv).symm
  case cons c ds hi =>
    obtain ⟨hc, hd⟩ := List.forall_mem_cons.mp hd
    have := isDigit_iff.mp hc
    have hle := le_foldl ds (value * 10 + (c.toNat - 48))
    rw [decodeDigits, if_neg (not_not.mpr hc)]
    simp only [List.foldl_cons]
    split
    case isTrue h =>
      obtain ⟨ht, h⟩ := h
      refine (if_neg ?_).symm
      rcases h with h | h | h
      · omega
      · obtain ⟨d, ds, rfl⟩ := List.exists_cons_of_ne_nil h
        have hle := le_foldl ds ((value * 10 + (c.toNat - 48)) * 10 + (d.toNat - 48))
        rw [List.foldl_cons]
        omega
      · omega
    case isFalse h =>
      simp only [not_and, not_or] at h
      exact hi hd (by omega)

theorem decodeDigits_none (hc : c ∈ t) (hd : ¬isDigit c) : decodeDigits max value t = none := by
  induction t generalizing value
  case nil => cases hc
  case cons c' t hi =>
    rw [decodeDigits]
    split
    case isTrue => rfl
    case isFalse h =>
      split
      case isTrue => rfl
      case isFalse =>
        rcases List.mem_cons.mp hc with rfl | hc
        · exact absurd hd h
        · exact hi hc

-- How far `readNumber` goes.

theorem ne_of_isDigit (hd : isDigit c) {x : Char} (hx : ¬('0' ≤ x ∧ x ≤ '9')) : char c ≠ x := by
  rintro rfl
  exact hx (of_decide_eq_true hd)

theorem readDigits_append (hd : ∀ d ∈ ds, isDigit d) (hr : ∀ b ∈ rest.head?, ¬isDigit b) :
    readDigits (ds ++ rest) = rest := by
  rw [readDigits, List.dropWhile_append_of_pos hd]
  cases rest
  case nil       => rfl
  case cons b cs => exact List.dropWhile_cons_of_neg (hr b rfl)

theorem readExponent_append (he : IsExponent exponent) (hr : Ends rest) : readExponent (exponent ++ rest) = rest := by
  have hd : ∀ b ∈ rest.head?, ¬isDigit b := fun b hb => (hr b hb).left
  rcases he with rfl | ⟨e, sign, ds, he, hs, ⟨hne, hds⟩, rfl⟩
  · cases rest
    case nil => rfl
    case cons b cs =>
      obtain ⟨-, -, he, hE⟩ := hr b rfl
      exact if_neg (by simp [he, hE])
  · have hs : readSign (sign ++ (ds ++ rest)) = ds ++ rest := by
      rcases hs with rfl | rfl | rfl
      · obtain ⟨d, ds, rfl⟩ := List.exists_cons_of_ne_nil hne
        have hd := hds d (List.mem_cons_self ..)
        exact if_neg (not_or.mpr ⟨ne_of_isDigit hd (by decide), ne_of_isDigit hd (by decide)⟩)
      · rfl
      · rfl
    rw [List.append_assoc, List.append_assoc]
    rcases he with rfl | rfl
    all_goals
      refine Eq.trans ?_ (readDigits_append hds hd)
      exact congrArg readDigits hs

-- An exponent does not go on with the number before it either, apart from its `e`.
theorem readFraction_append (hf : IsFraction fraction) (he : IsExponent exponent) (hr : Ends rest) :
    readFraction (fraction ++ (exponent ++ rest)) = exponent ++ rest := by
  have hb : ∀ b ∈ (exponent ++ rest).head?, ¬isDigit b ∧ char b ≠ '.' := by
    rcases he with rfl | ⟨e, sign, ds, rfl | rfl, -, -, rfl⟩
    · exact fun b hb => ⟨(hr b hb).left, (hr b hb).right.left⟩
    all_goals
      rintro b ⟨⟩
      decide
  rcases hf with rfl | ⟨ds, ⟨-, hds⟩, rfl⟩
  · rw [List.nil_append]
    cases h : exponent ++ rest
    case nil => rfl
    case cons b cs =>
      rw [h] at hb
      exact if_neg (hb b rfl).right
  · exact readDigits_append hds fun b hb' => (hb b hb').left

theorem readNumber_append (hd : ∀ d ∈ ds, isDigit d) (hf : IsFraction fraction) (he : IsExponent exponent)
    (hr : Ends rest) : readNumber (ds ++ (fraction ++ (exponent ++ rest))) = rest := by
  have hb : ∀ b ∈ (fraction ++ (exponent ++ rest)).head?, ¬isDigit b := by
    rcases hf with rfl | ⟨_, -, rfl⟩
    · rcases he with rfl | ⟨e, _, _, rfl | rfl, -, -, rfl⟩
      · exact fun b hb => (hr b hb).left
      all_goals
        rintro b ⟨⟩
        decide
    · rintro b ⟨⟩
      decide
  rw [readNumber, readDigits_append hd hb, readFraction_append hf he hr, readExponent_append he hr]

theorem tokenType_of_numeral (hn : Numeral (c :: t)) (hr : Ends rest) :
    tokenType c (t ++ rest) = (.tokenNumber, rest) := by
  generalize h : c :: t = ct at hn
  obtain ⟨hs, ⟨hne, hd⟩, hf, he⟩ := hn
  rename_i ds fraction exponent
  rcases hs with rfl | rfl
  · obtain ⟨d, ds, rfl⟩ := List.exists_cons_of_ne_nil hne
    obtain ⟨hc, hds⟩ := List.forall_mem_cons.mp hd
    have h : c :: t = d :: (ds ++ fraction ++ exponent) := h
    obtain ⟨rfl, rfl⟩ := List.cons.inj h
    rw [tokenType, if_pos hc, List.append_assoc, List.append_assoc, readNumber_append hds hf he hr]
  · have h : c :: t = 45 :: (ds ++ fraction ++ exponent) := h
    obtain ⟨rfl, rfl⟩ := List.cons.inj h
    rw [List.append_assoc, List.append_assoc]
    exact congrArg (TokenType.tokenNumber, ·) (readNumber_append hd hf he hr)

theorem numeral_of_digits (hs : IsSign sign) (hd : Digits ds) : Numeral (sign ++ ds) := by
  have hn := Numeral.mk hs hd (.inl rfl) (.inl rfl)
  rwa [List.append_nil, List.append_nil] at hn

theorem numeral_of_number {decodeDouble : Bytes → Option Double} {v : Value} (hn : Number decodeDouble t v) :
    Numeral t := by
  cases hn
  case int hd _                => exact numeral_of_digits (.inl rfl) hd
  case uint hd _ _             => exact numeral_of_digits (.inl rfl) hd
  case negative hd _           => exact numeral_of_digits (.inr rfl) hd
  case large hd _ _            => exact numeral_of_digits (.inl rfl) hd
  case negativeLarge hd _ _    => exact numeral_of_digits (.inr rfl) hd
  case real hs hd hf he _ _    => exact .mk hs hd hf he

-- What `decodeNumber` finds.

theorem ofDigits_eq (hd : ∀ d ∈ ds, isDigit d) (hm : max < max / 10 * 100) :
    decodeDigits max 0 ds = if ofDigits ds ≤ max then some (ofDigits ds) else none :=
  decodeDigits_eq hd hm (Nat.zero_le _)

section

variable {decodeDouble : Bytes → Option Double} {v : Value}

theorem decodeNumber_positive (hd : (t.head?.map char) ≠ some '-') : decodeNumber decodeDouble t =
    match decodeDigits (2 ^ 64 - 1) 0 t with
    | none       => .real <$> decodeDouble t
    | some value => some (if value ≤ 2 ^ 31 - 1 then .int (.ofInt value) else .uint (.ofNat value)) := by
  rw [decodeNumber]
  simp only [hd]
  rfl

theorem decodeNumber_negative : decodeNumber decodeDouble (ascii "-" ++ t) =
    match decodeDigits (2 ^ 63) 0 t with
    | none       => .real <$> decodeDouble (ascii "-" ++ t)
    | some value => some (.int (.ofInt (-value))) :=
  rfl

theorem head_append_ne_of_digits (hd : Digits ds) (rest : Bytes) : ((ds ++ rest).head?.map char) ≠ some '-' := by
  obtain ⟨hne, hd⟩ := hd
  obtain ⟨d, ds, rfl⟩ := List.exists_cons_of_ne_nil hne
  exact fun h => ne_of_isDigit (hd d (List.mem_cons_self ..)) (by decide) (Option.some.inj h)

theorem head_ne_of_digits (hd : Digits ds) : (ds.head?.map char) ≠ some '-' := by
  have hh := head_append_ne_of_digits hd []
  rwa [List.append_nil] at hh

theorem exists_not_digit (hf : IsFraction fraction) (he : IsExponent exponent) (hne : fraction ++ exponent ≠ []) :
    ∃ c ∈ fraction ++ exponent, ¬isDigit c := by
  rcases hf with rfl | ⟨_, -, rfl⟩
  · rcases he with rfl | ⟨e, _, _, rfl | rfl, -, -, rfl⟩
    · exact absurd rfl hne
    · exact ⟨_, List.mem_cons_self .., by decide⟩
    · exact ⟨_, List.mem_cons_self .., by decide⟩
  · exact ⟨_, List.mem_cons_self .., by decide⟩

theorem decodeNumber_of_number (hn : Number decodeDouble t v) : decodeNumber decodeDouble t = some v := by
  cases hn
  case int hd h =>
    rw [decodeNumber_positive (head_ne_of_digits hd), ofDigits_eq hd.right (by decide), if_pos (by omega)]
    exact congrArg some (if_pos (by omega))
  case uint hd hl h =>
    rw [decodeNumber_positive (head_ne_of_digits hd), ofDigits_eq hd.right (by decide), if_pos (by omega)]
    exact congrArg some (if_neg (by omega))
  case negative hd h =>
    rw [decodeNumber_negative, ofDigits_eq hd.right (by decide), if_pos h]
  case large hd h hv =>
    rw [decodeNumber_positive (head_ne_of_digits hd), ofDigits_eq hd.right (by decide), if_neg (by omega), hv]
    rfl
  case negativeLarge hd h hv =>
    rw [decodeNumber_negative, ofDigits_eq hd.right (by decide), if_neg (by omega), hv]
    rfl
  case real sign ds fraction exponent d hs hd hf he hne hv =>
    obtain ⟨c, hc, hn⟩ := exists_not_digit hf he hne
    have hc : c ∈ ds ++ (fraction ++ exponent) := List.mem_append_right _ hc
    rw [List.append_assoc, List.append_assoc] at hv ⊢
    rcases hs with rfl | rfl
    · rw [List.nil_append] at hv ⊢
      rw [decodeNumber_positive (head_append_ne_of_digits hd _), decodeDigits_none hc hn, hv]
      rfl
    · rw [decodeNumber_negative, decodeDigits_none hc hn, hv]
      rfl

end

-- What is written of an integer.

theorem digit_toNat (n : Nat) : (UInt8.ofNat (n % 10 + 48)).toNat = n % 10 + 48 := by
  rw [UInt8.toNat_ofNat']
  omega

theorem digit_isDigit (n : Nat) : isDigit (.ofNat (n % 10 + 48)) := by
  rw [isDigit_iff, digit_toNat]
  omega

theorem uintToString_eq (n : Nat) (current : Bytes) :
    ∃ ds, Digits ds ∧ ofDigits ds = n ∧ FastWriter.uintToString n current = ds ++ current := by
  fun_induction FastWriter.uintToString n current
  case case1 n current current' _ hi =>
    obtain ⟨ds, ⟨hne, hds⟩, hn, hi⟩ := hi
    refine ⟨ds ++ [.ofNat (n % 10 + 48)], ⟨by simp, ?_⟩, ?_, ?_⟩
    · exact List.forall_mem_append.mpr ⟨hds, List.forall_mem_singleton.mpr (digit_isDigit n)⟩
    · rw [ofDigits, List.foldl_append, ← ofDigits, hn, List.foldl_cons, List.foldl_nil, digit_toNat]
      omega
    · rw [List.append_assoc]
      exact hi
  case case2 n current current' h =>
    refine ⟨[.ofNat (n % 10 + 48)], ⟨by simp, List.forall_mem_singleton.mpr (digit_isDigit n)⟩, ?_, rfl⟩
    rw [ofDigits, List.foldl_cons, List.foldl_nil, digit_toNat]
    omega

section

variable {decodeDouble : Bytes → Option Double}

theorem number_uintToString (hn : n < 2 ^ 64) :
    Number decodeDouble (FastWriter.uintToString n []) (.ofInteger n) := by
  obtain ⟨ds, hd, rfl, hds⟩ := uintToString_eq n []
  rw [hds, List.append_nil, Value.ofInteger]
  split
  case isTrue h  => exact .int hd (by omega)
  case isFalse h => exact .uint hd (by omega) hn

theorem number_negative (hn : n ≤ 2 ^ 63) :
    Number decodeDouble (ascii "-" ++ FastWriter.uintToString n []) (.int (.ofInt (-n))) := by
  obtain ⟨ds, hd, rfl, hds⟩ := uintToString_eq n []
  rw [hds, List.append_nil]
  exact .negative hd hn

theorem number_valueToString (n : Int64) :
    Number decodeDouble (FastWriter.valueToString n) (.ofInteger n.toInt) := by
  have hn := n.le_toInt
  rw [FastWriter.valueToString]
  split
  case isTrue h =>
    have hv : Value.ofInteger n.toInt = .int (.ofInt (-((2 ^ 63 : Nat) : Int))) := by
      rw [h, Value.ofInteger]
      rfl
    rw [hv]
    exact number_negative (le_refl _)
  case isFalse h =>
    have hm : n.toInt ≠ -2 ^ 63 := fun he => h (Int64.toInt_inj.mp he)
    split
    case isTrue h =>
      have h : n.toInt < 0 := Int64.lt_iff_toInt_lt.mp h
      have ht : (-n).toInt = -n.toInt := by
        rw [Int64.toInt_neg, Int.bmod_eq_of_le]
        all_goals omega
      have hv : Value.ofInteger n.toInt = .int (.ofInt (-((-n.toInt).toNat : Nat))) := by
        rw [Value.ofInteger, if_pos (by omega)]
        exact congrArg (fun m => Value.int (.ofInt m)) (by omega)
      rw [ht, hv]
      exact number_negative (by omega)
    case isFalse h =>
      have h : ¬n.toInt < Int64.toInt 0 := mt Int64.lt_iff_toInt_lt.mpr h
      have h : 0 ≤ n.toInt := Int.not_lt.mp h
      have hlt := n.toInt_lt
      have hn : Number decodeDouble _ _ := number_uintToString (n := n.toInt.toNat) (by omega)
      rwa [Int.toNat_of_nonneg h] at hn

end

end

end Json
