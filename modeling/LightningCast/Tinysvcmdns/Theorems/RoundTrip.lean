import LightningCast.Library.Throwing
import LightningCast.Tinysvcmdns.Theorems.Encode

open DomainName (Holds Reads wire)

namespace Mdns

open RrType

-- The length of a text and its bytes. The parser does not accept a text of 63 bytes.
def IsText (txt : Bytes) : Prop :=
  ∃ s : Bytes, s.length ≤ 62 ∧ 0 ∉ s ∧ txt = .ofNat s.length :: s

-- The data of the records which the program makes.
def RrData.Encodable : RrData → Prop
  | none type     => type ∉ [RR_A, RR_AAAA, RR_PTR, RR_TXT, RR_SRV, RR_NSEC]
  | ptr target    => ∃ n, target = wire n
  | srv _ _ _ target => ∃ n, target = wire n
  | txt txts      => ∃ ts, txts = ts.map some ∧ ts ≠ [] ∧ ∀ t ∈ ts, IsText t
  | _             => True

structure RrEntry.Encodable (rr : RrEntry) : Prop where
  name : ∃ n, rr.name = wire n
  data : rr.data.Encodable

-- What the parser keeps. It does not look at the data of some types, and leaves the cache flush bit in the class.
def RrData.parsed : RrData → RrData
  | srv ..  => none RR_SRV
  | nsec _  => none RR_NSEC
  | data    => data

def RrEntry.parsed (rr : RrEntry) : RrEntry :=
  { rr with
    unicastQuery := false
    rrClass      := ((rr.rrClass &&& ~~~(0x8000 : UInt16)) ||| (rr.cacheFlush.toUInt16 <<< 15)) &&& ~~~0x80
    data         := rr.data.parsed }

namespace IsText

variable {txt : Bytes} (h : IsText txt)

include h

theorem headD : (txt.headD 0).toNat + 1 = txt.length := by
  obtain ⟨s, hs, -, rfl⟩ := h
  rw [List.headD_cons, UInt8.toNat_ofNat', Nat.mod_eq_of_lt (by omega), List.length_cons]

theorem ne_nil : txt ≠ [] := by
  obtain ⟨s, -, -, rfl⟩ := h
  exact List.cons_ne_nil _ _

theorem length_le : txt.length ≤ 63 := by
  obtain ⟨s, hs, -, rfl⟩ := h
  exact Nat.succ_le_succ hs

theorem strncpy : strncpy txt txt.length = txt := by
  obtain ⟨s, hs, hz, rfl⟩ := id h
  by_cases hn : s = []
  case pos =>
    subst hn
    rfl
  case neg =>
    have h0 : 0 ∉ UInt8.ofNat s.length :: s := by
      rw [List.mem_cons, not_or]
      refine ⟨fun h0 => hn (List.length_eq_zero_iff.mp ?_), hz⟩
      have hl := h.headD
      rw [List.headD_cons, ← h0] at hl
      simpa using hl.symm
    rw [strncpy_eq_take (by rwa [List.take_length]) (le_refl _), List.take_length]

end IsText

section

variable {m : Buffer} {out : Bytes} {comp : List NameComp} {e p : Nat} {rr : RrEntry} {txt : Bytes}

theorem cacheFlush_of_field (c : UInt16) (b : Bool) :
    (((c &&& ~~~(0x8000 : UInt16)) ||| (b.toUInt16 <<< 15)) >>> 8).toUInt8 &&& 0x80 = 0x80 ↔ b := by
  cases b
  case false =>
    refine iff_of_false (fun h => ?_) (by simp)
    have h := congrArg (fun v : UInt8 => v.toBitVec.getLsbD 7) h
    simp at h
  case true =>
    refine iff_of_true ?_ rfl
    refine UInt8.eq_of_toBitVec_eq (BitVec.eq_of_getLsbD_eq fun i hi => ?_)
    have hb : ∀ i < 8, (128#8).getLsbD i → (32768#16).getLsbD (i + 8) := by decide
    simp [-BitVec.setWidth_setWidth]
    grind

theorem flatten_length_pos {txts : List Bytes} (hn : txts ≠ []) (ht : ∀ txt ∈ txts, IsText txt) :
    0 < txts.flatten.length := by
  obtain ⟨txt, txts, rfl⟩ := List.exists_cons_of_ne_nil hn
  rw [List.flatten_cons, List.length_append]
  exact Nat.add_pos_left (List.length_pos_iff.mpr (ht txt (List.mem_cons_self ..)).ne_nil) _

theorem copyLabel_of_holds (ht : IsText txt) (hm : Holds m p txt) (he : p + txt.length ≤ e) :
    copyLabel m e p = some txt := by
  have hb := bytes_of_holds hm
  obtain ⟨b, s, rfl⟩ := List.exists_cons_of_ne_nil ht.ne_nil
  have hl : b.toNat + 1 = (b :: s).length := ht.headD
  have hle := ht.length_le
  rw [copyLabel, hm.1, hl, if_neg (by omega), hb, dupLabel, List.headD_cons, hl, if_neg (by omega), ht.strncpy]

theorem parseTxts_of_holds (txts : List Bytes) (hn : txts ≠ []) (ht : ∀ txt ∈ txts, IsText txt)
    (hm : Holds m p txts.flatten) (he : p + txts.flatten.length ≤ e) :
    parseTxts m e (p + txts.flatten.length) p = some (txts, p + txts.flatten.length) := by
  induction txts generalizing p
  case nil => exact absurd rfl hn
  case cons txt txts hi =>
    obtain ⟨ht', ht⟩ := List.forall_mem_cons.mp ht
    rw [List.flatten_cons] at hm he ⊢
    obtain ⟨hm', hm⟩ := DomainName.holds_append.mp hm
    rw [List.length_append] at he ⊢
    rw [parseTxts, copyLabel_of_holds ht' hm' (by omega)]
    simp only [ht'.headD]
    by_cases hn : txts = []
    case pos => simp [hn]
    case neg =>
      have hp := flatten_length_pos hn ht
      rw [if_neg (by omega), ← Nat.add_assoc p, hi hn ht hm (by omega)]
      rfl

theorem holds_right {bs : Bytes} (hm : Holds m 0 (out ++ bs)) : Holds m out.length bs := by
  have h := (DomainName.holds_append.mp hm).right
  rwa [Nat.zero_add] at h

theorem encodeTxts_map {txts : List Bytes} (ht : ∀ txt ∈ txts, IsText txt) :
    encodeTxts (txts.map some) = .ok txts.flatten := by
  induction txts
  case nil => rfl
  case cons txt txts hi =>
    obtain ⟨ht', ht⟩ := List.forall_mem_cons.mp ht
    rw [List.map_cons, encodeTxts, hi ht, ht'.headD, ht'.strncpy]
    rfl

section

variable {rrDataLen : Nat} {type : RrType}

theorem parseData_a (h : 4 ≤ rrDataLen) :
    parseData m e RR_A rrDataLen p = pure (.a (swap (mdnsReadU32 m p)), p + 4) := by
  rw [parseData, if_pos rfl, if_neg (by omega)]

theorem parseData_aaaa (h : 16 ≤ rrDataLen) :
    parseData m e RR_AAAA rrDataLen p = pure (.aaaa ⟨m.bytes p 16, by simp⟩, p + 16) := by
  rw [parseData, if_neg (by decide), if_pos rfl, if_neg (by omega)]

theorem parseData_ptr {n : DomainName} (hp : p < e) (h : Reads m e p n) :
    parseData m e RR_PTR rrDataLen p = pure (.ptr (wire n), p + rrDataLen) := by
  rw [parseData, if_neg (by decide), if_neg (by decide), if_pos rfl, uncompressNlabel_of_reads hp h]
  rfl

theorem parseData_txt {txts : List Bytes} (hn : rrDataLen ≠ 0)
    (h : parseTxts m e (p + rrDataLen) p = some (txts, p + rrDataLen)) :
    parseData m e RR_TXT rrDataLen p = pure (.txt (txts.map some), p + rrDataLen) := by
  rw [parseData, if_neg (by decide), if_neg (by decide), if_neg (by decide), if_pos rfl, if_neg hn, h]

theorem parseData_none (h : type ∉ [RR_A, RR_AAAA, RR_PTR, RR_TXT]) :
    parseData m e type rrDataLen p = pure (.none type, p + rrDataLen) := by
  simp only [List.mem_cons, List.not_mem_nil, or_false, not_or] at h
  rw [parseData, if_neg h.1, if_neg h.2.1, if_neg h.2.2.1, if_neg h.2.2.2]

end

-- What the encoder has put behind `out` for the data of a record is parsed as these data.
theorem parseData_encodeData {data : Bytes × List NameComp} (hrr : rr.Encodable) (hc : ∀ c ∈ comp, c.Valid out)
    (h : encodeData out.length rr comp = .ok data) (hl : (out ++ data.1).length ≤ 2 ^ 14)
    (hm : Holds m 0 (out ++ data.1)) (he : (out ++ data.1).length ≤ e) :
    parseData m e rr.type data.1.length out.length = pure (rr.data.parsed, out.length + data.1.length) := by
  have hd := hrr.data
  unfold encodeData at h
  unfold RrEntry.type
  cases hdata : rr.data
  all_goals
    rw [hdata] at hd
    simp only [hdata] at h
  case txt txts =>
    obtain ⟨ts, rfl, hn, ht⟩ := hd
    rw [encodeTxts_map ht] at h
    cases h
    rw [List.length_append] at he
    exact parseData_txt (flatten_length_pos hn ht).ne' (parseTxts_of_holds ts hn ht (holds_right hm) he)
  all_goals cases h
  case none type =>
    refine parseData_none fun h => hd ?_
    simp only [List.mem_cons, List.not_mem_nil, or_false] at h ⊢
    tauto
  case a addr =>
    rw [RrData.type, parseData_a (mdnsWriteU32_length _).ge, mdnsReadU32_of_holds (holds_right hm), swap_swap]
    rfl
  case aaaa addr =>
    obtain ⟨addr, ha⟩ := addr
    have hb := ha ▸ bytes_of_holds (holds_right hm)
    simp only [RrData.type, ha, parseData_aaaa (le_refl _), hb]
    rfl
  case ptr target =>
    obtain ⟨n, rfl⟩ := hd
    obtain ⟨hn, -⟩ := encodes_of_valid n hc hl
    have hp := List.length_pos_iff.mpr hn.ne_nil
    rw [List.length_append] at he
    exact parseData_ptr (by omega) (hn.reads m e hm (by rwa [List.length_append]))
  case srv  => exact parseData_none (show RR_SRV ∉ _ by decide)
  case nsec => exact parseData_none (show RR_NSEC ∉ _ by decide)

theorem encodeData_valid {data : Bytes × List NameComp} (hrr : rr.Encodable) (hc : ∀ c ∈ comp, c.Valid out)
    (h : encodeData out.length rr comp = .ok data) (hl : (out ++ data.1).length ≤ 2 ^ 14) :
    ∀ c ∈ data.2, c.Valid (out ++ data.1) := by
  have hd := hrr.data
  unfold encodeData at h
  cases hdata : rr.data
  all_goals
    rw [hdata] at hd
    simp only [hdata] at h
  case txt txts =>
    obtain ⟨ts, rfl, -, ht⟩ := hd
    rw [encodeTxts_map ht] at h
    cases h
    exact fun c hm => (hc c hm).append
  all_goals cases h
  case ptr target =>
    obtain ⟨n, rfl⟩ := hd
    exact (encodes_of_valid n hc hl).right
  case srv priority weight port target =>
    obtain ⟨n, rfl⟩ := hd
    generalize mdnsWriteU16 priority ++ mdnsWriteU16 weight ++ mdnsWriteU16 port = numbers at hl ⊢
    rw [← List.length_append, ← List.append_assoc] at hl ⊢
    exact (encodes_of_valid n (fun c hm => (hc c hm).append) hl).right
  case nsec bitmap =>
    obtain ⟨n, hn⟩ := hrr.name
    rw [hn] at hl ⊢
    simp only [← List.append_assoc] at hl ⊢
    simp only [List.length_append] at hl
    have h := (encodes_of_valid n hc (by rw [List.length_append]; omega)).right
    exact fun c hm => (h c hm).append.append
  all_goals exact fun c hm => (hc c hm).append

section

variable (out : Bytes) (rr : RrEntry) (comp : List NameComp)

-- What the encoder has written when it comes to the data of a record, whose length is `len`.
def rrHead (len : Nat) : Bytes :=
  out ++ (mdnsEncodeName out.length rr.name comp).1 ++ (encodeFields rr ++ mdnsWriteU16 (.ofNat len))

theorem rrHead_length (len : Nat) : (rrHead out rr comp len).length =
    out.length + (mdnsEncodeName out.length rr.name comp).1.length + (encodeFields rr).length + 2 := by
  simp [rrHead, Nat.add_assoc]

variable {out rr comp} {pktLen : Nat}

theorem mdnsEncodeRr_eq_ok {r : Bytes × List NameComp} (h : mdnsEncodeRr pktLen out.length rr comp = .ok r) :
    ∃ data, encodeData (rrHead out rr comp data.1.length).length rr (mdnsEncodeName out.length rr.name comp).2 =
        .ok data ∧ out ++ r.1 = rrHead out rr comp data.1.length ++ data.1 ∧ r.2 = data.2 := by
  simp only [mdnsEncodeRr] at h
  split at h
  case isFalse => cases h
  obtain ⟨data, hd, h⟩ := Except.bind_eq_ok_iff.mp h
  cases h
  refine ⟨data, by rwa [rrHead_length], ?_, rfl⟩
  simp only [rrHead, List.append_assoc]

end

theorem ok_bind {α β : Type} (a : α) (f : α → ParseM β) :
    (show ParseM α from Except.ok (some a)) >>= f = f a :=
  rfl

-- The fields of a record whose name is before `q`.
theorem mdnsParseRr_of_holds {q e' : Nat} {len : UInt16} (hp : p ≤ e)
    (hn : uncompressNlabel m e p = .ok (some rr.name)) (hq : p + labelLen m e p = q)
    (hf : Holds m q (encodeFields rr ++ mdnsWriteU16 len)) (he : q + 10 + len.toNat ≤ e)
    (hd : parseData m e rr.type len.toNat (q + 10) = pure (rr.data.parsed, e')) :
    mdnsParseRr m e p = pure (rr.parsed, e') := by
  obtain ⟨hf, hlen⟩ := DomainName.holds_append.mp hf
  obtain ⟨hf, httl⟩ := DomainName.holds_append.mp hf
  obtain ⟨htype, hclass⟩ := DomainName.holds_append.mp hf
  have hflush : (m (q + 2) &&& 0x80 = 0x80) = (rr.cacheFlush = true) := by
    rw [← cacheFlush_of_field rr.rrClass]
    exact hclass.1 ▸ rfl
  have hlen : mdnsReadU16 m (q + 8) = len := mdnsReadU16_of_holds hlen
  have httl : mdnsReadU32 m (q + 4) = rr.ttl := mdnsReadU32_of_holds httl
  have hclass : mdnsReadU16 m (q + 2) = _ := mdnsReadU16_of_holds hclass
  unfold mdnsParseRr
  simp only [hn, hq, hlen, httl, hclass, mdnsReadU16_of_holds htype, hflush]
  rw [if_neg (by omega), ok_bind, if_neg (by omega), hd, pure_bind, Bool.decide_eq_true]
  rfl

-- A record which the encoder has put behind `out` is parsed, and the entries of the compression list stay valid.
theorem mdnsParseRr_mdnsEncodeRr {pktLen : Nat} {r : Bytes × List NameComp} (hrr : rr.Encodable) (hc : ∀ c ∈ comp, c.Valid out)
    (h : mdnsEncodeRr pktLen out.length rr comp = .ok r) (hl : (out ++ r.1).length ≤ 2 ^ 14) :
    (∀ m e, Holds m 0 (out ++ r.1) → (out ++ r.1).length ≤ e →
      mdnsParseRr m e out.length = pure (rr.parsed, (out ++ r.1).length)) ∧
    ∀ c ∈ r.2, c.Valid (out ++ r.1) := by
  obtain ⟨n, hname⟩ := hrr.name
  obtain ⟨data, hdata, hr, hcomp⟩ := mdnsEncodeRr_eq_ok h
  rw [hr] at hl ⊢
  rw [hcomp]
  have hlen := rrHead_length out rr comp data.1.length
  have hhead : rrHead out rr comp data.1.length = out ++ (mdnsEncodeName out.length rr.name comp).1 ++
    (encodeFields rr ++ mdnsWriteU16 (.ofNat data.1.length)) := rfl
  rw [List.length_append] at hl
  rw [hname] at hlen hhead
  -- The name comes first.
  obtain ⟨hn, hv⟩ := encodes_of_valid n hc (by rw [List.length_append]; omega)
  have hc' : ∀ c ∈ (mdnsEncodeName out.length rr.name comp).2, c.Valid (rrHead out rr comp data.1.length) := by
    rw [hname, hhead]
    exact fun c hm => (hv c hm).append
  constructor
  case right => exact encodeData_valid hrr hc' hdata (by rwa [List.length_append])
  case left =>
    intro m e hm he
    have hd := parseData_encodeData hrr hc' hdata (by rwa [List.length_append]) hm he
    have ho := (DomainName.holds_append.mp hm).left
    rw [hhead] at ho
    have hno := (DomainName.holds_append.mp ho).left
    have hf := holds_right ho
    have h8 : (encodeFields rr).length = 8 := rfl
    rw [List.length_append] at he hf
    have hne : (out ++ (mdnsEncodeName out.length (wire n) comp).1).length ≤ e := by
      rw [List.length_append]
      omega
    have hu := uncompressNlabel_of_reads (by omega) (hn.reads m e hno hne)
    have hlen' : (UInt16.ofNat data.1.length).toNat = data.1.length := by
      rw [UInt16.toNat_ofNat', Nat.mod_eq_of_lt (by omega)]
    rw [List.length_append]
    refine mdnsParseRr_of_holds (by omega) (hname ▸ hu) (by rw [hn.labelLen m e hno hne]) hf (by omega) ?_
    rw [hlen', ← Nat.add_assoc _ 8 2, ← h8, ← hlen]
    exact hd

end

section

variable {m : Buffer} {out bytes : Bytes} {comp comp' : List NameComp} {rrs rest : List RrEntry} {pktLen e : Nat}

theorem encodeRrs_prefix (h : encodeRrs pktLen out comp rrs = .ok (some (bytes, comp'))) : out <+: bytes := by
  induction rrs generalizing out comp
  case nil =>
    cases h
    exact List.prefix_refl _
  case cons rr rrs hi =>
    obtain ⟨r, -, -, h⟩ := encodeRrs_cons_ok h
    exact (List.prefix_append ..).trans (hi h)

theorem mdnsEncodePkt_eq_ok {answer : MdnsPkt RrEntry} (h : mdnsEncodePkt answer pktLen = .ok (some bytes)) :
    ∃ comp', encodeRrs pktLen (encodeHeader answer) [] (answer.rrAns ++ answer.rrAuth ++ answer.rrAdd) =
      .ok (some (bytes, comp')) := by
  unfold mdnsEncodePkt at h
  split at h
  case isFalse => cases h
  cases he : encodeRrs pktLen (encodeHeader answer) [] (answer.rrAns ++ answer.rrAuth ++ answer.rrAdd)
  all_goals rw [he] at h
  case error => cases h
  case ok out =>
    cases out
    case none     => cases h
    case some out =>
      cases h
      exact ⟨out.2, rfl⟩

theorem holds_of_isPrefix (h : out <+: bytes) (hm : Holds m 0 bytes) : Holds m 0 out := by
  obtain ⟨_, rfl⟩ := h
  exact (DomainName.holds_append.mp hm).left

-- The records which come first in a packet are parsed, and if no others follow, they end where it ends.
theorem parseMany_encodeRrs (hrrs : ∀ rr ∈ rrs, rr.Encodable) (hc : ∀ c ∈ comp, c.Valid out)
    (h : encodeRrs pktLen out comp (rrs ++ rest) = .ok (some (bytes, comp'))) (hl : bytes.length ≤ 2 ^ 14)
    (hm : Holds m 0 bytes) (he : bytes.length ≤ e) :
    ∃ off, parseMany (mdnsParseRr m e) rrs.length out.length = pure (rrs.map RrEntry.parsed, off) ∧
      (rest = [] → off = bytes.length) := by
  induction rrs generalizing out comp
  case nil =>
    refine ⟨out.length, rfl, ?_⟩
    rintro rfl
    cases h
    rfl
  case cons rr rrs hi =>
    obtain ⟨hrr, hrrs⟩ := List.forall_mem_cons.mp hrrs
    obtain ⟨r, hr, -, h⟩ := encodeRrs_cons_ok h
    have hp := encodeRrs_prefix h
    have hlen := hp.length_le
    obtain ⟨hparse, hv⟩ := mdnsParseRr_mdnsEncodeRr hrr hc hr (hlen.trans hl)
    obtain ⟨off, hoff, hend⟩ := hi hrrs hv h
    refine ⟨off, ?_, hend⟩
    rw [List.length_cons, parseMany, hparse m e (holds_of_isPrefix hp hm) (hlen.trans he), pure_bind]
    simp only [hoff, pure_bind]
    rfl

theorem mdnsParsePkt_of_holds {answer : MdnsPkt RrEntry} (hq : answer.numQn = 0)
    (ha : answer.numAnsRr.toNat = answer.rrAns.length)
    (hrr : ∀ rr ∈ answer.rrAns ++ answer.rrAuth ++ answer.rrAdd, rr.Encodable)
    (h : mdnsEncodePkt answer pktLen = .ok (some bytes)) (hl : bytes.length ≤ 2 ^ 14) (hm : Holds m 0 bytes) :
    mdnsParsePkt m bytes.length = pure { answer with
      rrQn   := []
      rrAns  := answer.rrAns.map RrEntry.parsed
      rrAuth := []
      rrAdd  := [] } ∧
    parseMany (mdnsParseRr m bytes.length) (answer.rrAns ++ answer.rrAuth ++ answer.rrAdd).length 12 =
      pure ((answer.rrAns ++ answer.rrAuth ++ answer.rrAdd).map RrEntry.parsed, bytes.length) := by
  have hc : ∀ c ∈ ([] : List NameComp), c.Valid (encodeHeader answer) := fun c hc => absurd hc (List.not_mem_nil)
  obtain ⟨comp', h⟩ := mdnsEncodePkt_eq_ok h
  have hp := encodeRrs_prefix h
  have h12 : (encodeHeader answer).length = 12 := rfl
  constructor
  case right =>
    rw [← List.append_nil (_ ++ answer.rrAdd)] at h
    obtain ⟨off, hoff, hend⟩ := parseMany_encodeRrs hrr hc h hl hm (le_refl _)
    rw [← h12, hoff, hend rfl]
  case left =>
    have hr {rr : RrEntry} (hrr' : rr ∈ answer.rrAns) : rr.Encodable :=
      hrr rr (List.mem_append_left _ (List.mem_append_left _ hrr'))
    rw [List.append_assoc] at h
    obtain ⟨off, hoff, -⟩ := parseMany_encodeRrs (fun rr => hr) hc h hl hm (le_refl _)
    obtain ⟨hh, hadd⟩ := DomainName.holds_append.mp (holds_of_isPrefix hp hm)
    obtain ⟨hh, hauth⟩ := DomainName.holds_append.mp hh
    obtain ⟨hh, hans⟩ := DomainName.holds_append.mp hh
    obtain ⟨hh, hqn⟩ := DomainName.holds_append.mp hh
    obtain ⟨hid, hflags⟩ := DomainName.holds_append.mp hh
    have hid : mdnsReadU16 m 0 = _ := mdnsReadU16_of_holds hid
    have hflags : mdnsReadU16 m 2 = _ := mdnsReadU16_of_holds hflags
    have hqn : mdnsReadU16 m 4 = _ := mdnsReadU16_of_holds hqn
    have hans : mdnsReadU16 m 6 = _ := mdnsReadU16_of_holds hans
    have hauth : mdnsReadU16 m 8 = _ := mdnsReadU16_of_holds hauth
    have hadd : mdnsReadU16 m 10 = _ := mdnsReadU16_of_holds hadd
    have hlen := hp.length_le
    unfold mdnsParsePkt
    simp only [hid, hflags, hqn, hans, hauth, hadd, hq, ha]
    have h0 : parseMany (mdnsParseQn m bytes.length) (UInt16.toNat 0) 12 = pure ([], 12) := rfl
    rw [if_neg (by omega), h0, pure_bind]
    rw [h12] at hoff
    simp only [hoff, pure_bind]

-- The buffer when `bytes` have been received. What is behind them can be anything.
def received (bytes : Bytes) (beyond : Buffer) : Buffer :=
  fun i => bytes[i]?.getD (beyond i)

theorem holds_received (bytes : Bytes) (beyond : Buffer) : Holds (received bytes beyond) 0 bytes := by
  refine DomainName.holds_iff.mpr fun i hi => ?_
  simp [received, hi]

-- What the encoder writes is parsed as the header and the answers which have been encoded. The records of the
-- other sections, which `mdns_parse_pkt` does not look at, are there as well.
theorem mdnsParsePkt_mdnsEncodePkt (answer : MdnsPkt RrEntry) (hq : answer.numQn = 0)
    (ha : answer.numAnsRr.toNat = answer.rrAns.length)
    (hrr : ∀ rr ∈ answer.rrAns ++ answer.rrAuth ++ answer.rrAdd, rr.Encodable)
    (h : mdnsEncodePkt answer pktLen = .ok (some bytes)) (hl : bytes.length ≤ 2 ^ 14) (beyond : Buffer) :
    mdnsParsePkt (received bytes beyond) bytes.length = pure { answer with
      rrQn   := []
      rrAns  := answer.rrAns.map RrEntry.parsed
      rrAuth := []
      rrAdd  := [] } ∧
    parseMany (mdnsParseRr (received bytes beyond) bytes.length)
      (answer.rrAns ++ answer.rrAuth ++ answer.rrAdd).length 12 =
      pure ((answer.rrAns ++ answer.rrAuth ++ answer.rrAdd).map RrEntry.parsed, bytes.length) :=
  mdnsParsePkt_of_holds hq ha hrr h hl (holds_received bytes beyond)

-- A pointer from `a` to `b.a`, the end of which is compressed.
theorem mdnsParsePkt_mdnsEncodePkt_ptr :
    let a : Label := ⟨[97], by decide, by decide, by decide⟩
    let b : Label := ⟨[98], by decide, by decide, by decide⟩
    let answer : MdnsPkt RrEntry := { numAnsRr := 1, rrAns := [rrCreatePtr (wire [a]) (rrCreateA (wire [b, a]) 0)] }
    let bytes : Bytes := [0, 0, 0, 0, 0, 0, 0, 1, 0, 0, 0, 0] ++ [1, 97, 0] ++ [0, 12, 0, 1] ++ [0, 0, 17, 148] ++
      [0, 4] ++ [1, 98, 0xC0, 12]
    mdnsEncodePkt answer 100 = .ok (some bytes) ∧ mdnsParsePkt (received bytes fun _ => 0) bytes.length =
      pure { answer with rrAns := answer.rrAns.map RrEntry.parsed } := by
  intro a b answer bytes
  have he : mdnsEncodePkt answer 100 = .ok (some bytes) := by decide +kernel
  have hrr : ∀ rr ∈ answer.rrAns ++ answer.rrAuth ++ answer.rrAdd, rr.Encodable := by
    intro rr hm
    cases List.mem_singleton.mp hm
    exact ⟨⟨[a], rfl⟩, [b, a], rfl⟩
  exact ⟨he, (mdnsParsePkt_mdnsEncodePkt answer rfl rfl hrr he (by decide) _).left⟩

end

end Mdns
