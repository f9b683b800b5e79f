import LightningCast.Library.Throwing
import LightningCast.SnapcastComm.Parse

open Throwing (Keeps)
open Json (Lib)

namespace SnapcastComm

-- The memory from the beginning of a payload on. What lies beyond the payload can be anything.
def memory (payload : Bytes) (beyond : Nat → UInt8) (i : Nat) : UInt8 :=
  payload[i]?.getD (beyond i)

-- The payload holds an inner frame: a header with the right key, and as many bytes as it announces.
structure InnerFrame (payload : Bytes) : Prop where
  header : Header.size ≤ payload.length
  key    : (Header.ofBytes payload).key = Header.commKey
  data   : Header.size + (Header.ofBytes payload).dataSize ≤ payload.length

def innerText (payload : Bytes) : Bytes :=
  (payload.drop Header.size).take (Header.ofBytes payload).dataSize

def Range.Inside (r : Range) (length : Nat) : Prop :=
  ∀ i, r.off ≤ i → i < r.off + r.len → i < length

-- What a call of `doParse` has come to is right: it has stayed inside of the payload, and has handed on
-- the text of an inner frame, or has rejected anything else once it had read the header.
structure ReadsFrame (payload : Bytes) (out : Except Exception Bool × Parsing) : Prop where
  inside  : ∀ r ∈ out.2.reads, r.Inside payload.length
  accepts : InnerFrame payload → out.2.texts = [innerText payload]
  rejects : ¬InnerFrame payload → out.2.texts = [] ∧ out.1 = .ok false ∧
    ∀ r ∈ out.2.reads, r.Inside Header.size

variable {lib : Lib} {payload : Bytes} {beyond : Nat → UInt8} {s : Parsing}

theorem memory_range (beyond : Nat → UInt8) {off n : Nat} (h : off + n ≤ payload.length) :
    (List.range' off n).map (memory payload beyond) = (payload.drop off).take n := by
  refine List.ext_getElem (by simp; omega) fun i hi _ => ?_
  simp at hi
  simp [memory, show off + i < payload.length by omega]

theorem memory_header (beyond : Nat → UInt8) (h : Header.size ≤ payload.length) :
    Header.ofBytes ((List.range' 0 Header.size).map (memory payload beyond)) = Header.ofBytes payload := by
  rw [memory_range beyond (by omega), List.drop_zero, Header.ofBytes_take]

-- The JSON reader and what comes after it read no more of the payload.
theorem parseReceipt_keeps (lib : Lib) (text : Bytes) :
    Keeps (fun s : Parsing => (s.reads, s.texts)) (parseReceipt lib text) := by
  have signal : Keeps (fun s : Parsing => (s.reads, s.texts)) lockSignal := .modify fun _ => rfl
  refine .bind (.lift _) fun root => ?_
  split
  case h_1 root =>
    refine .bind (.lift _) fun (cmd, root) => .bind (.lift _) fun n => ?_
    split
    case h_1 =>
      refine .bind (.lift _) fun (result, _) => .bind (.lift _) fun _ => ?_
      exact .bind (.modify fun _ => rfl) fun _ => .bind signal fun _ => .pure _
    case h_2 => exact .bind signal fun _ => .pure _
    case h_3 => exact .pure _
  case h_2 => exact .pure _

theorem copy_run {buf : Nat → UInt8} {off n : Nat} : (copy buf off n).run.run s =
    (.ok ((List.range' off n).map buf), { s with reads := s.reads ++ [{ off, len := n }] }) :=
  rfl

theorem negative_iff {n : Nat} (h : n < 2 ^ 32) : (Int32.ofNat n).toInt < 0 ↔ 2 ^ 31 ≤ n := by
  rw [Int32.toInt_ofNat', Int.bmod]
  simp only [Int32.size]
  omega

section

variable {buf : Nat → UInt8} {length : Nat} {hi : Header}
  (hh : Header.ofBytes ((List.range' 0 Header.size).map buf) = hi)
include hh

theorem doParse_wrong_key (hk : hi.key ≠ Header.commKey) : (doParse lib buf length).run.run s =
    (.ok false, { s with reads := s.reads ++ [{ off := 0, len := Header.size }] }) := by
  rw [doParse, Throwing.run_bind, copy_run]
  simp only [hh, if_pos hk]
  rfl

theorem doParse_negative (hk : hi.key = Header.commKey) (hn : 2 ^ 31 ≤ hi.dataSize) :
    (doParse lib buf length).run.run s =
      (.error .lengthError, { s with reads := s.reads ++ [{ off := 0, len := Header.size }] }) := by
  have hn := (negative_iff (hh ▸ Header.dataSize_ofBytes_lt _)).mpr hn
  rw [doParse, Throwing.run_bind, copy_run]
  simp only [hh, if_neg (not_not.mpr hk), Throwing.run_bind, stringOf, if_pos hn]
  rfl

theorem doParse_text (lib : Lib) (length : Nat) (s : Parsing) (hk : hi.key = Header.commKey)
    (hn : hi.dataSize < 2 ^ 31) :
    let out := (doParse lib buf length).run.run s
    out.2.reads = s.reads ++
        [{ off := 0, len := Header.size }, { off := Header.size, len := hi.dataSize }] ∧
      out.2.texts = s.texts ++ [(List.range' Header.size hi.dataSize).map buf] := by
  have hn := Int32.toInt_ofNat_of_lt hn
  rw [doParse, Throwing.run_bind, copy_run]
  simp only [hh, if_neg (not_not.mpr hk), Throwing.run_bind, stringOf, hn]
  rw [if_neg (by omega), copy_run]
  have hp := parseReceipt_keeps lib ((List.range' Header.size hi.dataSize).map buf) {
    reads           := s.reads ++ [{ off := 0, len := Header.size }] ++
      [{ off := Header.size, len := hi.dataSize }]
    texts           := s.texts ++ [(List.range' Header.size hi.dataSize).map buf]
    sendStartResult := s.sendStartResult
    signals         := s.signals }
  have ⟨hr, ht⟩ := Prod.mk.inj hp
  exact ⟨hr.trans (List.append_assoc ..), ht⟩

-- Whatever the payload is, a whole header is read.
theorem doParse_reads_header : { off := 0, len := Header.size } ∈
    ((doParse lib buf length).run.run s).2.reads := by
  by_cases hk : hi.key = Header.commKey
  case neg => simp [doParse_wrong_key hh hk]
  case pos =>
    by_cases hn : hi.dataSize < 2 ^ 31
    case pos => simp [(doParse_text hh lib length s hk hn).1]
    case neg => simp [doParse_negative hh hk (not_lt.mp hn)]

end

theorem Range.inside_iff {r : Range} {length : Nat} :
    r.Inside length ↔ r.len = 0 ∨ r.off + r.len ≤ length := by
  unfold Inside
  constructor
  case mp =>
    intro h
    have := h (r.off + r.len - 1)
    omega
  case mpr => omega

-- `doParse` reads outside of a payload which is shorter than a header or than the text which its header
-- announces, and throws where the announced size does not fit an int. Everywhere else it is right.
theorem doParse_reads_frame_iff (lib : Lib) (payload : Bytes) (beyond : Nat → UInt8) (result : Bool) :
    ReadsFrame payload ((doParse lib (memory payload beyond) payload.length).run.run
        { sendStartResult := result }) ↔
      Header.size ≤ payload.length ∧ ((Header.ofBytes payload).key ≠ Header.commKey ∨
        (Header.ofBytes payload).dataSize < 2 ^ 31 ∧
          Header.size + (Header.ofBytes payload).dataSize ≤ payload.length) := by
  by_cases hl : Header.size ≤ payload.length
  case neg =>
    refine iff_of_false (fun h => hl ?_) (hl ·.1)
    have hr := h.inside _ (doParse_reads_header rfl)
    simpa [Range.inside_iff, Header.size] using hr
  case pos =>
    have hh := memory_header beyond hl
    by_cases hk : (Header.ofBytes payload).key = Header.commKey
    case neg =>
      refine iff_of_true ?_ ⟨hl, .inl hk⟩
      rw [doParse_wrong_key hh hk]
      constructor
      case inside => simpa [Range.inside_iff] using .inr hl
      case accepts => exact fun hf => absurd hf.key hk
      case rejects => exact fun _ => ⟨rfl, rfl, by simp [Range.inside_iff]⟩
    case pos =>
      by_cases hn : (Header.ofBytes payload).dataSize < 2 ^ 31
      case neg =>
        refine iff_of_false (fun h => ?_) fun h => h.right.elim (· hk) (hn ·.1)
        rw [doParse_negative hh hk (not_lt.mp hn)] at h
        by_cases hf : InnerFrame payload
        case pos => exact List.cons_ne_nil _ _ (h.accepts hf).symm
        case neg => cases (h.rejects hf).right.left
      case pos =>
        obtain ⟨hr, ht⟩ := doParse_text hh lib payload.length { sendStartResult := result } hk hn
        by_cases hd : Header.size + (Header.ofBytes payload).dataSize ≤ payload.length
        case pos =>
          refine iff_of_true ⟨?inside, fun _ => ?accepts, absurd ⟨hl, hk, hd⟩⟩ ⟨hl, .inr ⟨hn, hd⟩⟩
          case inside =>
            rw [hr]
            simpa [Range.inside_iff, hd] using .inr hl
          case accepts => rw [ht, memory_range beyond hd]; rfl
        case neg =>
          refine iff_of_false (fun h => ?_) fun h => h.right.elim (· hk) (hd ·.2)
          have hi := h.inside ⟨Header.size, (Header.ofBytes payload).dataSize⟩ (by simp [hr])
          rw [Range.inside_iff] at hi
          simp only at hi
          omega

-- A header which announces one byte, and nothing behind it.
def headerOnly : Bytes :=
  Header.bytes { key := Header.commKey, dataSize := 1 }

-- A jsoncpp which accepts no text.
def rejectingLib : Lib where
  parse _          := .ok none
  doubleToString _ := []

-- The byte behind the payload is read, and handed to the JSON reader.
theorem headerOnly_overread :
    let out := (doParse rejectingLib (memory headerOnly fun _ => 0) headerOnly.length).run.run
      { sendStartResult := false }
    doRead [.data (frame headerOnly)] = .parse headerOnly [] ∧
      out.2.reads = [{ off := 0, len := 8 }, { off := 8, len := 1 }] ∧ out.2.texts = [[0]] ∧
      ¬ReadsFrame headerOnly out := by
  intro out
  have hr : out.2.reads = [{ off := 0, len := 8 }, { off := 8, len := 1 }] := rfl
  refine ⟨by decide, hr, rfl, fun h => ?_⟩
  have hi := h.inside { off := 8, len := 1 } (by simp [hr])
  exact absurd (hi 8 (by decide) (by decide)) (by decide)

end SnapcastComm
