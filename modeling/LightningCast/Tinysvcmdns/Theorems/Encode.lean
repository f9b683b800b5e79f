import LightningCast.Tinysvcmdns.Parse
import LightningCast.Tinysvcmdns.Theorems.Label

open DomainName (Holds Reads IsPointer target wire)

namespace Mdns

-- Numbers.

theorem u16_of_bytes (v : UInt16) : ((v >>> 8).toUInt8.toUInt16 <<< 8) ||| v.toUInt8.toUInt16 = v := by
  refine UInt16.eq_of_toBitVec_eq (BitVec.eq_of_getLsbD_eq fun i hi => ?_)
  simp only [UInt16.toBitVec_or, UInt16.toBitVec_shiftLeft, UInt8.toBitVec_toUInt16,
    UInt16.toBitVec_toUInt8, UInt16.toBitVec_shiftRight, BitVec.getLsbD_or]
  simp [-BitVec.setWidth_setWidth]
  grind

theorem u32_of_bytes (v : UInt32) : ((v >>> 24).toUInt8.toUInt32 <<< 24) |||
    ((v >>> 16).toUInt8.toUInt32 <<< 16) ||| ((v >>> 8).toUInt8.toUInt32 <<< 8) ||| v.toUInt8.toUInt32 = v := by
  refine UInt32.eq_of_toBitVec_eq (BitVec.eq_of_getLsbD_eq fun i hi => ?_)
  simp only [UInt32.toBitVec_or, UInt32.toBitVec_shiftLeft, UInt8.toBitVec_toUInt32,
    UInt32.toBitVec_toUInt8, UInt32.toBitVec_shiftRight, BitVec.getLsbD_or]
  simp [-BitVec.setWidth_setWidth]
  grind

theorem swap_swap (v : UInt32) : swap (swap v) = v := by
  refine UInt32.eq_of_toBitVec_eq (BitVec.eq_of_getLsbD_eq fun i hi => ?_)
  simp only [swap, UInt32.toBitVec_or, UInt32.toBitVec_shiftLeft, UInt8.toBitVec_toUInt32,
    UInt32.toBitVec_toUInt8, UInt32.toBitVec_shiftRight, BitVec.getLsbD_or]
  simp [-BitVec.setWidth_setWidth]
  grind

section

variable {buf : Buffer} {p off : Nat}

@[simp]
theorem mdnsWriteU16_length (v : UInt16) : (mdnsWriteU16 v).length = 2 :=
  rfl

@[simp]
theorem mdnsWriteU32_length (v : UInt32) : (mdnsWriteU32 v).length = 4 :=
  rfl

theorem mdnsReadU16_of_holds {v : UInt16} (h : Holds buf p (mdnsWriteU16 v)) : mdnsReadU16 buf p = v := by
  obtain ⟨h₀, h₁, _⟩ := h
  rw [mdnsReadU16, h₀, h₁, u16_of_bytes]

theorem mdnsReadU32_of_holds {v : UInt32} (h : Holds buf p (mdnsWriteU32 v)) : mdnsReadU32 buf p = v := by
  obtain ⟨h₀, h₁, h₂, h₃, _⟩ := h
  rw [mdnsReadU32, h₀, h₁, h₂, h₃, u32_of_bytes]

-- The reference to the place `n`.
theorem toNat_pointer {n : Nat} (h : n < 2 ^ 14) :
    ((0xC000 : UInt16) ||| (.ofNat n &&& ~~~0xC000)).toNat = 2 ^ 14 * 3 + n := by
  have hn : (UInt16.ofNat n).toNat = n := by
    rw [UInt16.toNat_ofNat', Nat.mod_eq_of_lt (by omega)]
  have hm : UInt16.toNat (~~~0xC000) = 2 ^ 14 - 1 := rfl
  rw [UInt16.toNat_or, UInt16.toNat_and, hn, hm, Nat.and_two_pow_sub_one_eq_mod, Nat.mod_eq_of_lt h,
    Nat.two_pow_add_eq_or_of_lt h]
  rfl

theorem isPointer_iff (b : UInt8) : IsPointer b ↔ 0xC0 ≤ b.toNat := by
  have h : ∀ n < 256, IsPointer (.ofNat n) ↔ 0xC0 ≤ n := by decide +kernel
  rw [← h _ b.toNat_lt, UInt8.ofNat_toNat]

theorem pointer_of_holds {n : Nat} (hn : n < 2 ^ 14)
    (h : Holds buf p (mdnsWriteU16 (0xC000 ||| (.ofNat n &&& ~~~0xC000)))) :
    IsPointer (buf p) ∧ target (buf p) (buf (p + 1)) = n := by
  obtain ⟨h₀, h₁, _⟩ := h
  have hv := toNat_pointer hn
  generalize ((0xC000 : UInt16) ||| (.ofNat n &&& ~~~0xC000)) = v at h₀ h₁ hv
  have hhi : (buf p).toNat = (2 ^ 14 * 3 + n) / 256 := by
    have h8 : UInt16.toNat 8 % 16 = 8 := rfl
    rw [h₀, UInt16.toNat_toUInt8, UInt16.toNat_shiftRight, hv, h8, Nat.shiftRight_eq_div_pow]
    omega
  have hlo : (buf (p + 1)).toNat = (2 ^ 14 * 3 + n) % 256 := by
    rw [h₁, UInt16.toNat_toUInt8, hv]
  have hm : UInt8.toNat (~~~0xC0) = 2 ^ 6 - 1 := rfl
  refine ⟨(isPointer_iff _).mpr (by omega), ?_⟩
  rw [target, UInt8.toNat_and, hm, Nat.and_two_pow_sub_one_eq_mod, hhi, hlo]
  omega

end

-- Names.

-- Where the compression list puts a name, a packet which begins with `out` has it.
def NameComp.Valid (out : Bytes) (c : NameComp) : Prop :=
  ∀ l n, cString c.label = wire (l :: n) → c.pos < out.length ∧
    ∀ m e, Holds m 0 out → out.length ≤ e → Holds m c.pos l.wire ∧ Reads m e (c.pos + l.wire.length) n

section

variable {out bs bs' : Bytes} {comp : List NameComp} {c : NameComp} {l : Label} {n : DomainName} {m : Buffer}
variable {e p : Nat}

theorem NameComp.Valid.append (h : c.Valid out) : c.Valid (out ++ bs) := by
  intro l n hc
  obtain ⟨hp, h⟩ := h l n hc
  rw [List.length_append]
  exact ⟨by omega, fun m e hm he => h m e (DomainName.holds_append.mp hm).left (by omega)⟩

theorem cString_wire (n : DomainName) : cString (wire n) = wire n :=
  cString_eq_self (DomainName.zero_notMem_wire n)

theorem labelLen_root (hp : p < e) (h : m p = 0) : labelLen m e p = 1 := by
  rw [labelLen, if_pos hp, if_pos h]

theorem labelLen_pointer (hp : p < e) (h : IsPointer (m p)) : labelLen m e p = 2 := by
  have h' : m p &&& 0xC0 = 0xC0 := h
  rw [labelLen, if_pos hp, if_neg (DomainName.isPointer_ne_zero h), if_pos h']

theorem labelLen_label (hp : p < e) (h : Holds m p l.wire) :
    labelLen m e p = l.wire.length + labelLen m e (p + l.wire.length) := by
  have hz : m p ≠ 0 := h.1 ▸ l.ofNat_length_ne_zero
  have hi : ¬m p &&& 0xC0 = 0xC0 := h.1 ▸ DomainName.not_isPointer l
  have hl : (m p).toNat = l.bytes.length := h.1 ▸ l.toNat_length
  rw [labelLen, if_pos hp, if_neg hz, if_neg hi, hl, Label.wire_length]

-- What the encoder has written at the end of `out` is read as the name.
structure Encodes (out bs : Bytes) (n : DomainName) : Prop where
  reads    : ∀ m e, Holds m 0 (out ++ bs) → (out ++ bs).length ≤ e → Reads m e out.length n
  labelLen : ∀ m e, Holds m 0 (out ++ bs) → (out ++ bs).length ≤ e → labelLen m e out.length = bs.length

namespace Encodes

theorem root (out : Bytes) : Encodes out [0] [] := by
  have hz {m : Buffer} (hm : Holds m 0 (out ++ [0])) : m out.length = 0 := by
    simpa [Holds] using (DomainName.holds_append.mp hm).right
  constructor
  case reads => exact fun m e hm _ => .root (hz hm)
  case labelLen =>
    intro m e hm he
    rw [List.length_append] at he
    exact labelLen_root he (hz hm)

theorem pointer (hv : c.Valid out) (hc : cString c.label = wire (l :: n)) (hl : out.length ≤ 2 ^ 14) :
    Encodes out (mdnsWriteU16 (0xC000 ||| (.ofNat c.pos &&& ~~~0xC000))) (l :: n) := by
  obtain ⟨hp, hv⟩ := hv l n hc
  have hq {m : Buffer} (hm : Holds m 0 (out ++ mdnsWriteU16 (0xC000 ||| (.ofNat c.pos &&& ~~~0xC000)))) :
      Holds m 0 out ∧ IsPointer (m out.length) ∧ target (m out.length) (m (out.length + 1)) = c.pos := by
    obtain ⟨ho, hm⟩ := DomainName.holds_append.mp hm
    rw [Nat.zero_add] at hm
    exact ⟨ho, pointer_of_holds (by omega) hm⟩
  constructor
  all_goals
    intro m e hm he
    obtain ⟨ho, hi, ht⟩ := hq hm
    rw [List.length_append, mdnsWriteU16_length] at he
  case reads =>
    obtain ⟨hl, hr⟩ := hv m e ho (by omega)
    exact .pointer (by omega) hi ht hl hr
  case labelLen => exact labelLen_pointer (by omega) hi

theorem holds_label {m : Buffer} (hm : Holds m 0 (out ++ l.wire ++ bs)) : Holds m out.length l.wire := by
  have h := (DomainName.holds_append.mp (DomainName.holds_append.mp hm).left).right
  rwa [Nat.zero_add] at h

theorem label (h : Encodes (out ++ l.wire) bs n) : Encodes out (l.wire ++ bs) (l :: n) := by
  have hlen : (out ++ l.wire ++ bs).length = out.length + l.bytes.length + 1 + bs.length := by
    simp [← Nat.add_assoc]
  constructor
  all_goals
    intro m e hm he
    rw [← List.append_assoc] at hm he
  case reads =>
    refine .label (by omega) (holds_label hm) ?_
    rw [← List.length_append]
    exact h.reads m e hm he
  case labelLen =>
    rw [labelLen_label (by omega) (holds_label hm), ← List.length_append, h.labelLen m e hm he, List.length_append]

-- The entry which the encoder has made for a name when it writes its first label.
theorem valid (h : Encodes (out ++ l.wire) bs n) :
    NameComp.Valid (out ++ l.wire ++ bs) { label := wire (l :: n), pos := out.length } := by
  intro l' n' hw
  rw [cString_wire, DomainName.wire_inj] at hw
  obtain ⟨rfl, rfl⟩ := List.cons_eq_cons.mp hw
  refine ⟨by simp, fun m e hm he => ⟨holds_label hm, ?_⟩⟩
  simp only
  rw [← List.length_append]
  exact h.reads m e hm he

theorem ne_nil (h : Encodes out bs n) : bs ≠ [] := by
  rintro rfl
  have hm : Holds (fun i => out.getD i 0) 0 (out ++ []) :=
    DomainName.holds_iff.mpr fun i hi => by simp only [List.append_nil] at hi ⊢; simp [hi]
  have hl := h.labelLen _ (out.length + 1) hm (by simp)
  rw [Mdns.labelLen, if_pos (Nat.lt_succ_self _), if_pos (by simp)] at hl
  exact absurd hl (by simp)

end Encodes

section

variable {off : Nat}

theorem mdnsEncodeName_of_find (hf : comp.find? (cmpNlabel (wire (l :: n)) ·.label) = some c) :
    mdnsEncodeName off (wire (l :: n)) comp = (mdnsWriteU16 (0xC000 ||| (.ofNat c.pos &&& ~~~0xC000)), comp) := by
  have hw : wire (l :: n) = .ofNat l.bytes.length :: (l.bytes ++ wire n) := rfl
  rw [hw, mdnsEncodeName, ← hw, if_neg l.ofNat_length_ne_zero, hf]

theorem mdnsEncodeName_of_find_none (hf : comp.find? (cmpNlabel (wire (l :: n)) ·.label) = none) :
    mdnsEncodeName off (wire (l :: n)) comp =
      let rest := mdnsEncodeName (off + l.wire.length) (wire n) (comp ++ [{ label := wire (l :: n), pos := off }])
      (l.wire ++ rest.1, rest.2) := by
  have hw : wire (l :: n) = .ofNat l.bytes.length :: (l.bytes ++ wire n) := rfl
  have ht : (wire (l :: n)).take l.wire.length = l.wire := List.take_left
  have hs : strncpy (wire (l :: n)) l.wire.length = l.wire := by
    rw [strncpy_eq_take (ht.symm ▸ l.zero_notMem_wire) (by simp), ht]
  have hd : (wire (l :: n)).drop l.wire.length = wire n := List.drop_left
  rw [hw, mdnsEncodeName, ← hw, if_neg l.ofNat_length_ne_zero, hf]
  simp only [l.toNat_length, ← l.wire_length, hs, hd]

end

-- Before a name is encoded, the entries of the compression list which are not longer than it have to be valid.
-- Its own entry comes before its bytes, and is valid after them.
theorem mdnsEncodeName_encodes (n : DomainName)
    (hc : ∀ c ∈ comp, (cString c.label).length ≤ (wire n).length → c.Valid out)
    (hl : (out ++ (mdnsEncodeName out.length (wire n) comp).1).length ≤ 2 ^ 14) :
    Encodes out (mdnsEncodeName out.length (wire n) comp).1 n ∧
    ∀ c ∈ (mdnsEncodeName out.length (wire n) comp).2,
      c ∈ comp ∨ c.Valid (out ++ (mdnsEncodeName out.length (wire n) comp).1) := by
  induction n generalizing out comp
  case nil =>
    have he : mdnsEncodeName out.length (wire []) comp = ([0], comp) := by
      rw [DomainName.wire_nil, mdnsEncodeName]
    rw [he]
    exact ⟨.root out, fun c hc => .inl hc⟩
  case cons l n hi =>
    cases hf : comp.find? (cmpNlabel (wire (l :: n)) ·.label)
    case some c =>
      -- The name has been encoded before.
      have hm := List.mem_of_find?_eq_some hf
      have hw : cString c.label = wire (l :: n) := by
        have h := List.find?_some hf
        rw [cmpNlabel, cString_wire, decide_eq_true_eq] at h
        exact h.symm
      rw [mdnsEncodeName_of_find hf, List.length_append] at hl
      rw [mdnsEncodeName_of_find hf]
      exact ⟨.pointer (hc c hm (congrArg List.length hw).le) hw (by omega), fun c hc => .inl hc⟩
    case none =>
      have hc' : ∀ c ∈ comp ++ [{ label := wire (l :: n), pos := out.length }],
          (cString c.label).length ≤ (wire n).length → c.Valid (out ++ l.wire) := by
        intro c hm hle
        obtain hm | hm := List.mem_append.mp hm
        · exact (hc c hm (hle.trans (by simp))).append
        · rw [List.mem_singleton.mp hm, cString_wire] at hle
          simp at hle
      have hn : mdnsEncodeName out.length (wire (l :: n)) comp = _ := mdnsEncodeName_of_find_none hf
      rw [← List.length_append] at hn
      generalize hr : mdnsEncodeName (out ++ l.wire).length (wire n)
        (comp ++ [{ label := wire (l :: n), pos := out.length }]) = rest at hn
      rw [hn, ← List.append_assoc] at hl
      obtain ⟨he, hv⟩ := hr ▸ hi hc' (by rwa [hr])
      rw [hn, ← List.append_assoc]
      refine ⟨he.label, fun c hm => ?_⟩
      obtain hm | hm := hv c hm
      · obtain hm | hm := List.mem_append.mp hm
        · exact .inl hm
        · exact .inr (List.mem_singleton.mp hm ▸ he.valid)
      · exact .inr hm

theorem encodes_of_valid (n : DomainName) (hc : ∀ c ∈ comp, c.Valid out)
    (hl : (out ++ (mdnsEncodeName out.length (wire n) comp).1).length ≤ 2 ^ 14) :
    Encodes out (mdnsEncodeName out.length (wire n) comp).1 n ∧
    ∀ c ∈ (mdnsEncodeName out.length (wire n) comp).2,
      c.Valid (out ++ (mdnsEncodeName out.length (wire n) comp).1) := by
  obtain ⟨he, hv⟩ := mdnsEncodeName_encodes n (fun c hm _ => hc c hm) hl
  exact ⟨he, fun c hm => (hv c hm).elim (fun hm => (hc c hm).append) id⟩

end

-- What can go wrong.

-- A text of the record is a null pointer.
def RrEntry.HasNull (rr : RrEntry) : Prop :=
  match rr.data with
  | .txt txts => none ∈ txts
  | _         => False

-- The encoder goes wrong at the record `rr`, before which it has written `pkt`: a text of the record is null, or
-- the record ends behind the end of the buffer.
def FailsAt (pktLen : Nat) (pkt : Bytes) (comp : List NameComp) (rr : RrEntry) (f : Fault) : Prop :=
  f = .nullDereference ∧ rr.HasNull ∨
    f = .overflow ∧ ∃ r, mdnsEncodeRr pktLen pkt.length rr comp = .ok r ∧ pktLen < (pkt ++ r.1).length

-- It goes wrong at one of the records of the packet.
def EncodingFails (answer : MdnsPkt RrEntry) (pktLen : Nat) (f : Fault) : Prop :=
  ∃ rrs rr rrs' pkt comp, answer.rrAns ++ answer.rrAuth ++ answer.rrAdd = rrs ++ rr :: rrs' ∧
    encodeRrs pktLen (encodeHeader answer) [] rrs = .ok (some (pkt, comp)) ∧ FailsAt pktLen pkt comp rr f

section

variable {off pktLen : Nat} {rr : RrEntry} {rrs : List RrEntry} {pkt : Bytes} {comp : List NameComp} {f : Fault}

theorem encodeTxts_error_iff {txts : List (Option Bytes)} :
    encodeTxts txts = .error f ↔ f = .nullDereference ∧ none ∈ txts := by
  induction txts
  case nil => simp [encodeTxts]
  case cons txt txts hi =>
    cases txt
    case none     => simp [encodeTxts, eq_comm]
    case some txt =>
      simp only [encodeTxts, List.mem_cons, reduceCtorEq, false_or, ← hi]
      cases encodeTxts txts <;> simp

theorem encodeData_error_iff : encodeData off rr comp = .error f ↔ f = .nullDereference ∧ rr.HasNull := by
  unfold encodeData RrEntry.HasNull
  cases rr.data
  case txt txts =>
    simp only [← encodeTxts_error_iff]
    cases encodeTxts txts <;> simp
  all_goals simp

theorem mdnsEncodeName_ne_nil (name : NLabel) : (mdnsEncodeName off name comp).1 ≠ [] := by
  fun_induction mdnsEncodeName off name comp
  case case4 hrest hi =>
    rw [hrest] at hi
    exact List.append_ne_nil_of_right_ne_nil _ hi
  all_goals exact List.cons_ne_nil _ _

-- No assertion fails at a record which begins within the buffer.
theorem mdnsEncodeRr_error_iff (ho : off < pktLen) :
    mdnsEncodeRr pktLen off rr comp = .error f ↔ f = .nullDereference ∧ rr.HasNull := by
  have hd : encodeData (off + (mdnsEncodeName off rr.name comp).1.length + (encodeFields rr).length + 2) rr
      (mdnsEncodeName off rr.name comp).2 = .error f ↔ _ := encodeData_error_iff
  rw [← hd]
  unfold mdnsEncodeRr
  simp only [ho, mdnsEncodeName_ne_nil, ne_eq, not_false_eq_true, and_self, if_true]
  cases h : encodeData _ rr (mdnsEncodeName off rr.name comp).2 <;> simp [bind, Except.bind, pure, Except.pure]

theorem encodeRrs_cons {r : Bytes × List NameComp} (h : mdnsEncodeRr pktLen pkt.length rr comp = .ok r) :
    encodeRrs pktLen pkt comp (rr :: rrs) =
      if (pkt ++ r.1).length > pktLen then .error .overflow
      else if (pkt ++ r.1).length = pktLen then .ok none
      else encodeRrs pktLen (pkt ++ r.1) r.2 rrs := by
  rw [encodeRrs, h]
  rfl

theorem encodeRrs_cons_ok {out : Bytes × List NameComp} (h : encodeRrs pktLen pkt comp (rr :: rrs) = .ok (some out)) :
    ∃ r, mdnsEncodeRr pktLen pkt.length rr comp = .ok r ∧ (pkt ++ r.1).length < pktLen ∧
      encodeRrs pktLen (pkt ++ r.1) r.2 rrs = .ok (some out) := by
  cases hr : mdnsEncodeRr pktLen pkt.length rr comp
  case error f =>
    rw [encodeRrs, hr] at h
    cases h
  case ok r =>
    rw [encodeRrs_cons hr] at h
    split_ifs at h with hgt heq
    case pos => cases h
    case neg => exact ⟨r, rfl, by omega, h⟩

-- The encoder goes wrong at the first record at which there is a reason.
theorem encodeRrs_error_iff (hp : pkt.length < pktLen) : encodeRrs pktLen pkt comp rrs = .error f ↔
    ∃ rrs₁ rr rrs₂ pkt' comp', rrs = rrs₁ ++ rr :: rrs₂ ∧
      encodeRrs pktLen pkt comp rrs₁ = .ok (some (pkt', comp')) ∧ FailsAt pktLen pkt' comp' rr f := by
  induction rrs generalizing pkt comp
  case nil => simp [encodeRrs, pure, Except.pure]
  case cons rr rrs hi =>
    constructor
    case mp =>
      intro h
      cases hr : mdnsEncodeRr pktLen pkt.length rr comp
      case error f' =>
        rw [encodeRrs, hr] at h
        cases h
        exact ⟨[], rr, rrs, pkt, comp, rfl, rfl, .inl ((mdnsEncodeRr_error_iff hp).mp hr)⟩
      case ok r =>
        rw [encodeRrs_cons hr] at h
        split_ifs at h with hgt heq
        case pos =>
          cases h
          exact ⟨[], rr, rrs, pkt, comp, rfl, rfl, .inr ⟨rfl, r, hr, hgt⟩⟩
        case neg =>
          obtain ⟨rrs₁, rr', rrs₂, pkt', comp', rfl, he, hf⟩ := (hi (by omega)).mp h
          refine ⟨rr :: rrs₁, rr', rrs₂, pkt', comp', rfl, ?_, hf⟩
          rw [encodeRrs_cons hr, if_neg hgt, if_neg heq, he]
    case mpr =>
      rintro ⟨_ | ⟨rr₁, rrs₁⟩, rr', rrs₂, pkt', comp', hrrs, he, hf⟩
      case nil =>
        cases hrrs
        cases he
        obtain ⟨rfl, hn⟩ | ⟨rfl, r, hr, hgt⟩ := hf
        · rw [encodeRrs, (mdnsEncodeRr_error_iff hp).mpr ⟨rfl, hn⟩]
          rfl
        · rw [encodeRrs_cons hr, if_pos hgt]
      case cons =>
        cases hrrs
        obtain ⟨r, hr, hle, he⟩ := encodeRrs_cons_ok he
        rw [encodeRrs_cons hr, if_neg (by omega), if_neg (by omega)]
        exact (hi hle).mpr ⟨rrs₁, rr', rrs₂, pkt', comp', rfl, he, hf⟩

theorem mdnsEncodePkt_error_iff {answer : MdnsPkt RrEntry} (hl : 12 < pktLen) (hq : answer.numQn = 0) :
    mdnsEncodePkt answer pktLen = .error f ↔ EncodingFails answer pktLen f := by
  have h12 : (encodeHeader answer).length = 12 := rfl
  rw [EncodingFails, ← encodeRrs_error_iff (h12 ▸ hl), mdnsEncodePkt, if_pos ⟨hl.le, hq⟩]
  cases encodeRrs pktLen (encodeHeader answer) [] (answer.rrAns ++ answer.rrAuth ++ answer.rrAdd) <;> simp

theorem EncodingFails.fault {answer : MdnsPkt RrEntry} (h : EncodingFails answer pktLen f) :
    f = .nullDereference ∨ f = .overflow := by
  obtain ⟨_, _, _, _, _, _, _, h⟩ := h
  exact h.imp And.left And.left

end

end Mdns
