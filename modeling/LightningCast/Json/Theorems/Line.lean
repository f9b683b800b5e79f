import LightningCast.Json.Theorems.RoundTrip

namespace Json

open FastWriter

-- A line of ASCII: nothing below 0x20, the line feed among it, and no byte of another character set. DEL is allowed,
-- since the writer leaves it as it is.
def AsciiLine (bs : Bytes) : Prop :=
  ∀ b ∈ bs, 0x20 ≤ b.toNat ∧ b.toNat < 0x80

section

variable {bs bs' : Bytes} {b : UInt8} {x : UInt32} {v : Value} {n : Nat} {doubleToString : Double → Bytes}

theorem asciiLine_append (h : AsciiLine bs) (h' : AsciiLine bs') : AsciiLine (bs ++ bs') :=
  List.forall_mem_append.mpr ⟨h, h'⟩

theorem asciiLine_cons (hb : 0x20 ≤ b.toNat ∧ b.toNat < 0x80) (h : AsciiLine bs) : AsciiLine (b :: bs) :=
  List.forall_mem_cons.mpr ⟨hb, h⟩

theorem asciiLine_ascii {s : String} (h : s.toList.all fun c => 0x20 ≤ c.toNat ∧ c.toNat < 0x80) :
    AsciiLine (ascii s) := by
  intro b hb
  obtain ⟨c, hc, rfl⟩ := List.mem_map.mp hb
  have := List.all_iff_forall_prop.mp h c hc
  rw [UInt8.toNat_ofNat', Nat.mod_eq_of_lt (by omega)]
  exact this

theorem asciiLine_intercalate {ts : List Bytes} (h : ∀ t ∈ ts, AsciiLine t) : AsciiLine ([0x2C].intercalate ts) := by
  induction ts
  case nil => exact fun b hb => absurd hb List.not_mem_nil
  case cons t ts hi =>
    obtain ⟨ht, hts⟩ := List.forall_mem_cons.mp h
    cases ts
    case nil =>
      rw [List.intercalate_singleton]
      exact ht
    case cons t' ts =>
      rw [List.intercalate_cons_cons]
      exact asciiLine_append (asciiLine_append ht (List.forall_mem_singleton.mpr (by decide))) (hi hts)

theorem asciiLine_uintToString (n : Nat) : AsciiLine (uintToString n []) := by
  obtain ⟨ds, ⟨-, hd⟩, -, hds⟩ := uintToString_eq n []
  rw [hds, List.append_nil]
  intro d hm
  have := Reader.isDigit_iff.mp (hd d hm)
  omega

theorem asciiLine_valueToString (n : Int64) : AsciiLine (valueToString n) := by
  unfold valueToString
  split
  case isTrue => exact asciiLine_cons (by decide) (asciiLine_uintToString _)
  case isFalse =>
    split
    case isTrue  => exact asciiLine_cons (by decide) (asciiLine_uintToString _)
    case isFalse => exact asciiLine_uintToString _

theorem asciiLine_appendHex (x : UInt32) : AsciiLine (appendHex x) := by
  have hd {y : UInt32} (hy : y.toNat < 16) : 0x20 ≤ (hexChar y).toNat ∧ (hexChar y).toNat < 0x80 := by
    have h : ∀ n < 16, 0x20 ≤ (hexChar (.ofNat n)).toNat ∧ (hexChar (.ofNat n)).toNat < 0x80 := by decide
    have hy := h y.toNat hy
    rwa [UInt32.ofNat_toNat] at hy
  have hb (y : UInt32) : AsciiLine [hexChar ((y &&& 0xFF) / 16), hexChar ((y &&& 0xFF) % 16)] := by
    have h : (y &&& 0xFF).toNat = y.toNat % 256 := toNat_mask 8 rfl
    have hq : ((y &&& 0xFF) / 16).toNat = (y &&& 0xFF).toNat / 16 := UInt32.toNat_div ..
    have hr : ((y &&& 0xFF) % 16).toNat = (y &&& 0xFF).toNat % 16 := UInt32.toNat_mod ..
    exact asciiLine_cons (hd (by omega)) (asciiLine_cons (hd (by omega)) fun b hb => absurd hb List.not_mem_nil)
  exact asciiLine_append (asciiLine_ascii (by decide)) (asciiLine_append (hb (x >>> 8)) (hb x))

theorem asciiLine_appendCodepoint (x : UInt32) : AsciiLine (appendCodepoint x) := by
  unfold appendCodepoint
  split
  case isTrue => exact asciiLine_appendHex x
  case isFalse hl =>
    split
    case isTrue h =>
      have hl : ¬x.toNat < 0x20 := hl
      have h : x.toNat < 0x80 := h
      refine asciiLine_cons ?_ fun b hb => absurd hb List.not_mem_nil
      rw [UInt32.toNat_toUInt8]
      omega
    case isFalse =>
      split
      case isTrue  => exact asciiLine_appendHex x
      case isFalse => exact asciiLine_append (asciiLine_appendHex _) (asciiLine_appendHex _)

theorem asciiLine_escape (s : Bytes) : AsciiLine (escape s) := by
  have hm : ∀ p ∈ escapes, 0x20 ≤ p.1.toNat ∧ p.1.toNat < 0x80 := List.all_iff_forall_prop.mp (by decide)
  fun_induction escape s
  case case1 => exact fun b hb => absurd hb List.not_mem_nil
  case case2 he hi =>
    obtain ⟨e, hme, rfl, -⟩ := shortEscape_eq he
    have hb := hm _ hme
    exact asciiLine_append (asciiLine_append (asciiLine_ascii (by decide)) (List.forall_mem_singleton.mpr hb)) hi
  case case3 hi => exact asciiLine_append (asciiLine_appendCodepoint _) hi

theorem asciiLine_valueToQuotedStringN (s : Bytes) : AsciiLine (valueToQuotedStringN s) := by
  have hq : 0x20 ≤ UInt8.toNat 0x22 ∧ UInt8.toNat 0x22 < 0x80 := by decide
  unfold valueToQuotedStringN
  split
  case isTrue =>
    exact asciiLine_append (asciiLine_cons hq (asciiLine_escape s)) (List.forall_mem_singleton.mpr hq)
  case isFalse hs =>
    refine asciiLine_append (asciiLine_cons hq ?_) (List.forall_mem_singleton.mpr hq)
    intro b hb
    simp only [doesAnyCharRequireEscaping, List.any_eq_true, not_exists, not_and, decide_eq_true_iff, not_or] at hs
    obtain ⟨-, -, hl, hh⟩ := hs b hb
    have hl : ¬b.toNat < 0x20 := hl
    have hh : ¬0x7F < b.toNat := hh
    omega

theorem asciiLine_writeValue (hd : ∀ d, AsciiLine (doubleToString d)) (hn : v.Nested n) :
    AsciiLine (writeValue doubleToString v) := by
  induction n generalizing v
  case zero      => exact hn.elim
  case succ n hi =>
    cases v
    all_goals rw [writeValue]
    case null     => exact asciiLine_ascii (by decide)
    case int m    => exact asciiLine_valueToString m
    case uint m   => exact asciiLine_uintToString _
    case real d   => exact hd d
    case string s => exact asciiLine_valueToQuotedStringN s
    case bool b   =>
      cases b
      all_goals exact asciiLine_ascii (by decide)
    case array vs =>
      have hvs := asciiLine_intercalate (List.forall_mem_map.mpr fun v hv => hi (hn v hv))
      exact asciiLine_append (asciiLine_cons (by decide) hvs) (List.forall_mem_singleton.mpr (by decide))
    case object ms =>
      have hms : ∀ m ∈ ms, AsciiLine (valueToQuotedStringN m.1 ++ 0x3A :: writeValue doubleToString m.2) := fun m hm =>
        asciiLine_append (asciiLine_valueToQuotedStringN m.1) (asciiLine_cons (by decide) (hi (hn m hm)))
      have hms := asciiLine_intercalate (List.forall_mem_map.mpr hms)
      exact asciiLine_append (asciiLine_cons (by decide) hms) (List.forall_mem_singleton.mpr (by decide))

-- What is written of a value is one line of ASCII, whatever its strings are.
theorem write_line (hd : ∀ d, AsciiLine (doubleToString d)) (v : Value) :
    ∃ line, write doubleToString v = line ++ [0x0A] ∧ AsciiLine line :=
  ⟨_, rfl, asciiLine_writeValue hd v.nested_sizeOf⟩

theorem write_line_member : ∃ line, write (fun _ => ascii "1.5") (.object [([0xE9, 0x0A], .real (.finite (3 / 2)))]) =
    line ++ [0x0A] ∧ AsciiLine line :=
  write_line (fun _ => asciiLine_ascii (by decide)) _

end

end Json
