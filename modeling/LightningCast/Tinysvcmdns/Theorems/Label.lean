import LightningCast.Tinysvcmdns.Label
import LightningCast.Library.DomainName
import Mathlib.Data.List.TakeWhile

open DomainName (Holds Reads IsPointer text wire)

namespace Mdns

section

variable {bs src : Bytes} {n : Nat}

theorem cString_eq_self (h : 0 ∉ bs) : cString bs = bs := by
  refine List.takeWhile_eq_self_iff.mpr fun b hb => ?_
  simp only [ne_eq, decide_not, Bool.not_eq_true', decide_eq_false_iff_not]
  rintro rfl
  exact h hb

theorem zero_notMem_cString (bs : Bytes) : 0 ∉ cString bs :=
  fun h => by simpa using List.mem_takeWhile_imp h

@[simp]
theorem strncpy_length (src : Bytes) (n : Nat) : (strncpy src n).length = n := by
  have h : (cString (src.take n)).length ≤ n :=
    ((List.takeWhile_prefix _).length_le).trans (List.length_take_le n src)
  simp [strncpy, Nat.add_sub_cancel' h]

theorem strncpy_eq_take (h : 0 ∉ src.take n) (hn : n ≤ src.length) : strncpy src n = src.take n := by
  simp [strncpy, cString_eq_self h, hn]

end

section

variable {pktBuf : Buffer} {pktLen p e off : Nat} {bs : Bytes} {l : Label} {n : DomainName}

@[simp]
theorem bytes_length (pktBuf : Buffer) (off len : Nat) : (pktBuf.bytes off len).length = len := by
  simp [Buffer.bytes]

theorem bytes_of_holds (h : Holds pktBuf p bs) : pktBuf.bytes p bs.length = bs := by
  refine List.ext_getElem (by simp) fun i hi hi' => ?_
  simp [Buffer.bytes, DomainName.holds_iff.mp h i hi']

theorem strncpy_label (h : Holds pktBuf p l.wire) :
    strncpy (pktBuf.bytes p (l.bytes.length + 1)) (l.bytes.length + 1) = l.wire := by
  have hb : pktBuf.bytes p (l.bytes.length + 1) = l.wire := bytes_of_holds h
  have ht : l.wire.take (l.bytes.length + 1) = l.wire := List.take_of_length_le (le_refl _)
  rw [hb, strncpy_eq_take (ht.symm ▸ l.zero_notMem_wire) l.wire_length.ge, ht]

theorem segment_label (hp : p < pktLen) (h : Holds pktBuf p l.wire) :
    segment pktBuf pktLen p = some (l.wire, p + l.wire.length) := by
  have hz : pktBuf p ≠ 0 := h.1 ▸ l.ofNat_length_ne_zero
  have hi : ¬pktBuf p &&& 0xC0 = 0xC0 := h.1 ▸ DomainName.not_isPointer l
  have hl : (pktBuf p).toNat = l.bytes.length := h.1 ▸ l.toNat_length
  simp only [segment, if_pos (And.intro hz hp), if_neg hi, hl, strncpy_label h, Label.wire_length]

theorem target_eq (hi lo : UInt8) :
    ((hi &&& ~~~0xC0).toNat <<< 8) ||| lo.toNat = DomainName.target hi lo := by
  rw [← Nat.shiftLeft_add_eq_or_of_lt lo.toNat_lt, Nat.shiftLeft_eq]
  rfl

theorem segment_pointer {q : Nat} (hp : p < pktLen) (hi : IsPointer (pktBuf p))
    (hq : DomainName.target (pktBuf p) (pktBuf (p + 1)) = q) (h : Holds pktBuf q l.wire) :
    segment pktBuf pktLen p = some (l.wire, q + l.wire.length) := by
  have hl : (pktBuf q).toNat = l.bytes.length := h.1 ▸ l.toNat_length
  have hi' : pktBuf p &&& 0xC0 = 0xC0 := hi
  simp only [segment, if_pos (And.intro (DomainName.isPointer_ne_zero hi) hp), if_pos hi', target_eq, hq, hl,
    strncpy_label h, Label.wire_length]

theorem run_of_reads (h : Reads pktBuf pktLen p n) :
    Walk.run (segment pktBuf pktLen) (n.length + 1) p = some (n.map Label.wire) := by
  induction h
  case root p hp                => simp [Walk.run, segment, hp]
  case label hp hl _ ih         => rw [List.length_cons, Walk.run_of_next (segment_label hp hl), ih]; rfl
  case pointer hp hi hq hl _ ih => rw [List.length_cons, Walk.run_of_next (segment_pointer hp hi hq hl), ih]; rfl

theorem mem_range_of_segment {b : Nat} (h : segment pktBuf pktLen b ≠ none) : b ∈ Finset.range pktLen := by
  rw [Finset.mem_range]
  by_contra hb
  simp [segment, hb] at h

-- If a reader of domain names finds a name, so does `uncompress_nlabel`.
theorem uncompressNlabel_of_reads (ho : off < pktLen) (h : Reads pktBuf pktLen off n) :
    uncompressNlabel pktBuf pktLen off = .ok (some n.wire) := by
  have hs : ∀ b, segment pktBuf pktLen b ≠ none → b ∈ Finset.range pktLen := fun b => mem_range_of_segment
  have hr := run_of_reads h
  rw [uncompressNlabel, if_neg (by omega)]
  cases he : Walk.run (segment pktBuf pktLen) (pktLen + 1) off
  case none =>
    have he : Walk.run (segment pktBuf pktLen) ((Finset.range pktLen).card + 1) off = none := by
      rwa [Finset.card_range]
    exact absurd hr (by simp [(Walk.run_card_eq_none_iff hs).mp he])
  case some segs =>
    rcases Nat.le_total (n.length + 1) (pktLen + 1) with hl | hl
    · cases (Walk.run_of_le hl hr).symm.trans he
      simp [DomainName.wire, List.flatMap]
    · cases (Walk.run_of_le hl he).symm.trans hr
      simp [DomainName.wire, List.flatMap]

-- `uncompress_nlabel` does not return if and only if its walk comes to a place for the second time.
theorem uncompressNlabel_hangs_iff (pktBuf : Buffer) (pktLen off : Nat) (ho : off < pktLen) :
    uncompressNlabel pktBuf pktLen off = .error .hang ↔
      ∃ i j, i < j ∧ Walk.place (segment pktBuf pktLen) i off = Walk.place (segment pktBuf pktLen) j off ∧
        Walk.place (segment pktBuf pktLen) j off ≠ none := by
  have hs : ∀ b, segment pktBuf pktLen b ≠ none → b ∈ Finset.range pktLen := fun b => mem_range_of_segment
  have hc : Walk.run (segment pktBuf pktLen) (pktLen + 1) off = none ↔
      ∀ n, Walk.run (segment pktBuf pktLen) n off = none := by
    rw [← Walk.run_card_eq_none_iff hs, Finset.card_range]
  rw [← Walk.forever_iff_revisit hs, ← hc, uncompressNlabel, if_neg (by omega)]
  cases Walk.run (segment pktBuf pktLen) (pktLen + 1) off <;> simp

-- A pointer to the label before it.
theorem uncompressNlabel_pointerBack :
    uncompressNlabel (fun i => ([1, 97, 0xC0, 12] : Bytes).getD (i - 12) 0) 16 12 = .error .hang :=
  (uncompressNlabel_hangs_iff _ 16 12 (by decide)).mpr ⟨1, 2, by decide, by decide, by decide⟩

end

section

variable {n : DomainName} {name : NLabel} {bufLen : Nat}

theorem createNlabel_text (hn : n ≠ []) (hd : DomainName.Dotless n) : createNlabel (text n) = wire n := by
  induction n
  case nil => exact absurd rfl hn
  case cons l n hi =>
    obtain ⟨hl, hd⟩ := List.forall_mem_cons.mp hd
    by_cases hn : n = []
    case pos =>
      subst hn
      have hx : l.bytes.dropLast.idxOf 46 = l.bytes.dropLast.length :=
        List.idxOf_eq_length_iff.mpr fun h => hl (List.mem_of_mem_dropLast h)
      rw [createNlabel]
      simp [text, hx, Label.wire]
    case neg =>
      have hx : (text (l :: n)).dropLast = l.bytes ++ 46 :: (text n).dropLast := by
        rw [DomainName.text_cons hn, List.dropLast_append_of_ne_nil (List.cons_ne_nil _ _),
          List.dropLast_cons_of_ne_nil (DomainName.text_ne_nil hn)]
      have hidx : (l.bytes ++ 46 :: (text n).dropLast).idxOf 46 = l.bytes.length := by
        simp [List.idxOf_append_of_notMem hl]
      have hdrop : (text (l :: n)).drop (l.bytes.length + 1) = text n := by
        simp [DomainName.text_cons hn, ← List.drop_drop]
      rw [createNlabel]
      simp only [hx, hidx, hdrop, hi hn hd]
      simp [DomainName.text_cons hn, Label.wire]

theorem loop_length (bufLen : Nat) (name : NLabel) :
    (nlabelToStr.loop bufLen name).1.length + (nlabelToStr.loop bufLen name).2 = bufLen := by
  induction bufLen, name using nlabelToStr.loop.induct
  case case1 => simp [nlabelToStr.loop]
  case case2 h => simp [nlabelToStr.loop, h]
  case case3 bufLen len p' h s left hs hi =>
    rw [nlabelToStr.loop, if_neg h]
    rw [not_or, Nat.not_le] at h
    simp only [List.length_append, strncpy_length, List.length_cons]
    omega

theorem loop_wire (h : (wire n).length ≤ bufLen) : nlabelToStr.loop bufLen (wire n) =
    (n.flatMap fun l => l.bytes ++ [46], bufLen - (wire n).length) := by
  induction n generalizing bufLen
  case nil => simp [nlabelToStr.loop]
  case cons l n hi =>
    have hw : wire (l :: n) = .ofNat l.bytes.length :: (l.bytes ++ wire n) := rfl
    simp only [hw, List.length_cons, List.length_append] at h
    have hc : ¬(UInt8.ofNat l.bytes.length = 0 ∨ bufLen ≤ l.bytes.length) :=
      not_or.mpr ⟨l.ofNat_length_ne_zero, by omega⟩
    have hs : strncpy (l.bytes ++ wire n) l.bytes.length = l.bytes := by
      rw [strncpy_eq_take] <;> simp [l.nonzero]
    have hr := @hi (bufLen - (l.bytes.length + 1)) (by omega)
    rw [hw, nlabelToStr.loop]
    simp only [l.toNat_length, if_neg hc, List.drop_left, hs, hr]
    refine Prod.ext (by simp) ?_
    simp only [List.length_cons, List.length_append]
    omega

theorem flatMap_dot (hn : n ≠ []) : (n.flatMap fun l => l.bytes ++ [46]) = text n ++ [46] := by
  induction n
  case nil => exact absurd rfl hn
  case cons l n hi =>
    by_cases hn : n = []
    case pos => simp [hn, text]
    case neg => simp [DomainName.text_cons hn, hi hn]

-- `nlabel_to_str` inverts `create_nlabel`, up to a dot at the end, for which there is no room behind a name of
-- 255 bytes.
theorem nlabelToStr_createNlabel (hn : n ≠ []) (hd : DomainName.Dotless n) (hl : (text n).length ≤ 255) :
    nlabelToStr (createNlabel (text n)) = if (text n).length < 255 then text n ++ [46] else text n := by
  have hw : (wire n).length = (text n).length + 1 := by
    have h := congrArg List.length (flatMap_dot hn)
    simpa [wire, List.length_flatMap] using h
  rw [createNlabel_text hn hd, nlabelToStr, loop_wire (by omega)]
  simp only [flatMap_dot hn, hw]
  split
  case isTrue h  => rw [if_neg (by omega), List.dropLast_concat]
  case isFalse h => rw [if_pos (by omega)]

theorem nlabelToStr_createNlabel_local : nlabelToStr (createNlabel (ascii "local")) = ascii "local." :=
  nlabelToStr_createNlabel (n := [⟨ascii "local", by decide, by decide, by decide⟩]) (by decide) (by decide)
    (by decide)

-- Whatever the name is, `nlabel_to_str` does not write behind its buffer of 256 bytes.
theorem nlabelToStr_length_lt (name : NLabel) : (nlabelToStr name).length < 256 := by
  have h := loop_length 256 name
  unfold nlabelToStr
  split
  split
  all_goals simp_all
  all_goals omega

end

end Mdns
