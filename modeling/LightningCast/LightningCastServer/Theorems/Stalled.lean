import LightningCast.Frame.Theorems.RoundTrip
import LightningCast.LightningCastServer.Handle
import Mathlib.Order.Bounds.Basic

open Stream (Read Clean content agains)

namespace LightningCastServer

-- A `doRead` which gets to `doParse` has received the frame of its payload.
theorem content_doReadReads {rs rest : List (Read UInt8)} {p : Bytes} (h : doRead rs = .parse p rest) :
    content (doReadReads rs) = frame p := by
  have hc := (doRead_parse h).left
  unfold doRead at h
  split at h <;> try cases h
  case _ hi _ hf =>
    simp only [ne_eq, ite_not] at h
    split at h <;> try cases h
    case isTrue hk =>
      split at h <;> cases h
      case _ hf' =>
        have h₁ := Stream.content_reads_of_full hf
        have h₂ := Stream.content_reads_of_full hf'
        rw [(Stream.full_of_fill hf).right, (Stream.full_of_fill hf').right, ← List.append_assoc] at hc
        rw [← List.append_cancel_right hc]
        simp only [List.nil_append] at h₁ h₂
        simp [doReadReads, hf, hk, ← h₁, ← h₂]

theorem doReadReads_length_le (rs : List (Read UInt8)) : (doReadReads rs).length ≤
    (content (doReadReads rs)).length + agains (doReadReads rs) + 2 := by
  have hi : (Stream.reads Header.size rs).length ≤ (content (Stream.reads Header.size rs)).length +
      agains (Stream.reads Header.size rs) + 1 := Stream.reads_length_le
  have happend : ∀ rs' : List (Read UInt8), rs'.length ≤ (content rs').length + agains rs' + 1 →
      (Stream.reads Header.size rs ++ rs').length ≤ (content (Stream.reads Header.size rs ++ rs')).length +
        agains (Stream.reads Header.size rs ++ rs') + 2 := by
    intro rs' h
    simp only [List.length_append, Stream.content_append, Stream.agains_append]
    omega
  unfold doReadReads
  split
  case h_1 | h_2 => exact happend [] (by simp)
  case h_3 rs' _ =>
    dsimp only
    split
    case isTrue  => exact happend [] (by simp)
    case isFalse => exact happend _ Stream.reads_length_le

theorem doReadReads_replicate_again (n : Nat) :
    doReadReads (List.replicate n .again) = List.replicate n .again := by
  have hn : (content (List.replicate n (.again : Read UInt8))).length < Header.size := by
    simp [Stream.content_replicate_again, Header.size]
  have hnil : Clean ([] : List (Read UInt8)) := by simp [Clean]
  have hc : Clean (List.replicate n (.again : Read UInt8)) := hnil.append_again n
  simp only [doReadReads, Stream.fill_starved hc hn, List.append_nil]
  exact Stream.reads_replicate_again (by decide) n

-- Silence after a part of a frame keeps `doRead` waiting.
theorem doRead_starved_of_part {str : Bytes} {rs : List (Read UInt8)} (hs : str.length < 2 ^ 32)
    (hc : Clean rs) (hp : content rs <+: frame str) (hne : content rs ≠ frame str) (n : Nat) :
    doRead (rs ++ List.replicate n .again) = .starved := by
  have hc := hc.append_again n
  have hcn : content (rs ++ List.replicate n .again) = content rs := by
    simp [Stream.content_replicate_again]
  rw [← hcn] at hp hne
  generalize rs ++ List.replicate n .again = rs at hc hp hne
  by_cases hlt : (content rs).length < Header.size
  case pos => simp [doRead, Stream.fill_starved hc hlt]
  case neg =>
    have hlen : (content rs).length < (frame str).length :=
      lt_of_le_of_ne hp.length_le fun h => hne (hp.eq_of_length h)
    obtain ⟨more, hmore⟩ := hp
    have hhead : (content rs).take Header.size =
        Header.bytes { key := Header.commKey, dataSize := str.length } := by
      rw [← List.take_append_of_le_length (not_lt.mp hlt), hmore, frame, List.take_left' (Header.bytes_length _)]
    obtain ⟨rest, hf, hrest⟩ : ∃ rest, Stream.fill Header.size [] rs =
        .full ([] ++ (content rs).take Header.size) rest ∧ Clean rest := Stream.fill_of_clean hc (not_lt.mp hlt)
    have hbody : (content rest).length < str.length := by
      have := congrArg List.length (Stream.full_of_fill hf).right
      simp only [List.nil_append, List.length_append, List.length_take, frame, Header.bytes_length] at this hlen
      omega
    rw [List.nil_append, hhead] at hf
    have hh := (congrArg Header.ofBytes (List.append_nil _)).symm.trans (ofBytes_frame hs)
    simp [doRead, hf, hh, Stream.fill_starved hrest hbody]

namespace Handle

-- As long as there is nothing to read behind `rs`, the loop stays in `doRead`: no action is possible but
-- the return from a `doRead` which has read something else.
def Captured (cfg : Config) (s : State) (rs : List (Read UInt8)) : Prop :=
  ∀ n a s', step cfg s a = some s' → ∃ rs' parsed, a = .doRead rs' parsed ∧ rs' ≠ rs ++ List.replicate n .again

theorem captured {cfg : Config} {s : State} {i : Nat} {rs : List (Read UInt8)} (hi : s.pc = .read i)
    (h : ∀ n, doRead (rs ++ List.replicate n .again) = .starved) : Captured cfg s rs := by
  intro n a s' hs
  cases a <;> simp only [step, hi] at hs
  case doRead rs' parsed =>
    refine ⟨rs', parsed, rfl, ?_⟩
    rintro rfl
    simp [h n] at hs
  all_goals simp at hs

end Handle

-- `doRead` makes no more calls than it receives bytes, up to a constant, if and only if the number of those
-- which find nothing is bounded. After a part of a frame, silence keeps the loop from everything else.
theorem calls_bounded_iff (cfg : Handle.Config) (B : Set Nat) :
    ((∃ c, ∀ rs, agains (doReadReads rs) ∈ B →
        (doReadReads rs).length ≤ (content (doReadReads rs)).length + c) ↔ BddAbove B) ∧
    ∀ {s i str rs}, s.pc = .read i → str.length < 2 ^ 32 → Clean rs → content rs <+: frame str →
      content rs ≠ frame str → Handle.Captured cfg s rs := by
  refine ⟨⟨?_, ?_⟩, ?_⟩
  · rintro ⟨c, h⟩
    refine ⟨c, fun b hb => ?_⟩
    have := h (List.replicate b .again)
    simp only [doReadReads_replicate_again, Stream.agains_replicate_again, Stream.content_replicate_again,
      List.length_replicate] at this
    simpa using this hb
  · rintro ⟨k, hk⟩
    refine ⟨k + 2, fun rs hr => ?_⟩
    have := doReadReads_length_le rs
    have := hk hr
    omega
  · intro s i str rs hi hs hc hp hne
    exact Handle.captured hi (doRead_starved_of_part hs hc hp hne)

-- A client is accepted, and `select` reports its descriptor.
def clientReported : List Handle.Act :=
  [.select {3}, .scan, .scan, .scan, .scan, .accept (some 5), .scan, .scan, .scan,
   .select {5}, .scan, .scan, .scan, .scan, .scan, .scan]

theorem clientReported_captured : ∃ s, (Handle.machine ⟨3, 4, by decide⟩).exec
      (Handle.machine ⟨3, 4, by decide⟩).init clientReported = some s ∧ s.pc = .read 5 ∧
    Handle.Captured ⟨3, 4, by decide⟩ s [.data [0, 0, 0x98]] := by
  have ⟨s, he, hs⟩ := (Handle.machine ⟨3, 4, by decide⟩).exec_of_any clientReported (fun s => s.pc = .read 5)
    (by decide)
  have hp := of_decide_eq_true hs
  have hb : ([] : Bytes).length < 2 ^ 32 := by decide
  exact ⟨s, he, hp, (calls_bounded_iff _ ∅).right hp hb (by decide) (by decide) (by decide)⟩

-- A client which sends three bytes of a header, and then nothing.
def threeBytes (n : Nat) : List (Read UInt8) :=
  [.data [0, 0, 0x98]] ++ List.replicate n .again

theorem threeBytes_unbounded :
    (∀ n, doRead (threeBytes n) = .starved ∧ (doReadReads (threeBytes n)).length = n + 1 ∧
      content (doReadReads (threeBytes n)) = [0, 0, 0x98]) ∧
    ¬∃ c, ∀ rs, (doReadReads rs).length ≤ (content (doReadReads rs)).length + c := by
  have h : ∀ n, doRead (threeBytes n) = .starved ∧ (doReadReads (threeBytes n)).length = n + 1 ∧
      content (doReadReads (threeBytes n)) = [0, 0, 0x98] := by
    intro n
    have hc : content (threeBytes n) = [0, 0, 0x98] := by
      simp [threeBytes, Stream.content_replicate_again, Read.content]
    have hf : Stream.fill Header.size [] (threeBytes n) = .starved :=
      Stream.fill_starved (Clean.append_again (by decide) n) (hc ▸ by decide)
    have hr : doReadReads (threeBytes n) = threeBytes n := by
      simp only [doReadReads, hf, List.append_nil]
      simp [threeBytes, Stream.reads, Header.size, Stream.reads_replicate_again]
    rw [hr, hc]
    exact ⟨by simp [doRead, hf], by simp [threeBytes], rfl⟩
  refine ⟨h, ?_⟩
  rintro ⟨c, hc⟩
  have hb := hc (threeBytes (c + 3))
  rw [(h (c + 3)).right.left, (h (c + 3)).right.right] at hb
  exact absurd hb (by simp; omega)

end LightningCastServer
