import LightningCast.Frame.Theorems.Sending

open Stream (Read Clean content)

theorem frame_append (p rest : Bytes) : frame p ++ rest =
    Header.bytes { key := Header.commKey, dataSize := p.length } ++ (p ++ rest) := by
  simp [frame]

theorem ofBytes_frame {p bs : Bytes} (hp : p.length < 2 ^ 32) :
    Header.ofBytes (Header.bytes { key := Header.commKey, dataSize := p.length } ++ bs) =
      { key := Header.commKey, dataSize := p.length } :=
  Header.ofBytes_append (show Header.commKey < 2 ^ 32 by decide) hp

-- A `doRead` which gets to `doParse` has read a whole frame, and nothing more.
theorem doRead_parse {rs rest : List (Read UInt8)} {p : Bytes} (h : doRead rs = .parse p rest) :
    content rs = frame p ++ content rest ∧ p.length < 2 ^ 32 := by
  unfold doRead at h
  split at h <;> try cases h
  case _ hi _ hf =>
    simp only [ne_eq, ite_not] at h
    split at h <;> try cases h
    case isTrue hk =>
      split at h <;> cases h
      case _ hf' =>
        have ⟨hl, hc⟩ := Stream.full_of_fill hf
        have ⟨hp, hc'⟩ := Stream.full_of_fill hf'
        have hh : Header.ofBytes hi = { key := Header.commKey, dataSize := p.length } := by rw [← hk, hp]
        rw [hc, hc', frame_append, ← hh, Header.bytes_ofBytes hl]
        exact ⟨rfl, hp ▸ ntohl_lt _⟩

-- A stream which begins with a frame has it read.
theorem doRead_frame {rs : List (Read UInt8)} {p more : Bytes} (hc : Clean rs) (hp : p.length < 2 ^ 32)
    (h : content rs = frame p ++ more) :
    ∃ rest, doRead rs = .parse p rest ∧ Clean rest ∧ content rest = more := by
  have ⟨rs₁, hf, hc₁, h₁⟩ := Stream.fill_append hc (h.trans (frame_append ..))
  have ⟨rest, hf', hc', h'⟩ := Stream.fill_append hc₁ h₁
  refine ⟨rest, ?_, hc', h'⟩
  rw [Header.bytes_length] at hf
  have hh := (congrArg Header.ofBytes (List.append_nil _)).symm.trans (ofBytes_frame hp)
  simp [doRead, hf, hh, hf']

-- A stream which holds no more keeps `doRead` waiting.
theorem doRead_starved {rs : List (Read UInt8)} (hc : Clean rs) (h : content rs = []) :
    doRead rs = .starved := by
  simp [doRead, Stream.fill_starved hc (show (content rs).length < Header.size by simp [h, Header.size])]

theorem doReads_frames {ps : List Bytes} (hp : ∀ p ∈ ps, p.length < 2 ^ 32) {rs : List (Read UInt8)}
    (hc : Clean rs) (h : content rs = ps.flatMap frame) (n : Nat) : (doReads n rs).1 = ps.take n := by
  induction n generalizing ps rs
  case zero => rfl
  case succ n hi =>
    cases ps
    case nil => simp [doReads, doRead_starved hc h]
    case cons p ps =>
      obtain ⟨hp, hps⟩ := List.forall_mem_cons.mp hp
      obtain ⟨rest, hr, hc, h⟩ := doRead_frame hc hp (h.trans (List.flatMap_cons ..))
      simp [doReads, hr, hi hps hc h]

-- The calls take nothing but the frames which they hand on.
theorem doReads_content {n : Nat} {rs rest : List (Read UInt8)} {ps : List Bytes}
    (h : doReads n rs = (ps, rest)) (hl : ps.length = n) :
    content rs = ps.flatMap frame ++ content rest := by
  induction n generalizing rs ps
  case zero =>
    cases h
    rfl
  case succ n hi =>
    unfold doReads at h
    split at h
    case h_1 p rest hr =>
      cases h
      have hl : (doReads n rest).1.length = n := by simpa using hl
      rw [(doRead_parse hr).left, hi rfl hl, List.flatMap_cons, List.append_assoc]
    all_goals
      cases h
      cases hl

-- What threads send by `processSend`, `doRead` hands to `doParse`: the same payloads in the order in which
-- the threads took the mutex, however the bytes are cut on either side. And a `doRead` which gets to
-- `doParse` has read the frame of its payload, as long as its header says.
theorem framing_round_trip {T : Type} [DecidableEq T] {as : List (ProcessSend.Act T)}
    {s : ProcessSend.State T} (he : ProcessSend.machine.exec ProcessSend.machine.init as = some s)
    (hc : ProcessSend.machine.Meets (fun _ a => ¬a.cuts) as) (hn : s.current = none)
    (hp : ∀ p ∈ s.sent, p.length < 2 ^ 32) {rs : List (Read UInt8)} (hr : Clean rs)
    (ho : content rs = s.out) :
    (∀ n, (doReads n rs).1 = s.sent.take n) ∧
    (∃ rest, doReads s.sent.length rs = (s.sent, rest) ∧ content rest = []) ∧
    (∀ {rs rest : List (Read UInt8)} {p : Bytes}, doRead rs = .parse p rest →
      content rs = frame p ++ content rest ∧
      (frame p).length = Header.size + (Header.ofBytes (content rs)).dataSize) := by
  have hw := ProcessSend.whole hc he
  simp only [ProcessSend.State.Whole, ProcessSend.State.left, hn, Option.elim_none, List.append_nil] at hw
  have hd := doReads_frames hp hr (ho.trans hw)
  have hl := (hd s.sent.length).trans List.take_length
  refine ⟨hd, ⟨_, Prod.ext hl rfl, ?_⟩, ?_⟩
  · have hc := doReads_content (Prod.ext hl rfl) rfl
    rw [ho, hw] at hc
    exact List.self_eq_append_right.mp hc
  · intro rs rest p h
    obtain ⟨hc, hp⟩ := doRead_parse h
    rw [hc, frame_append, ofBytes_frame hp]
    exact ⟨rfl, by simp [frame]⟩

-- Two threads send, and the bytes come in pieces which do not know of frames.
theorem framing_round_trip_twoThreads :
    let as : List (ProcessSend.Act Thread) :=
      [.call .main [1], .call .client [], .lock .client, .write (.accept 5), .write .again,
       .write (.accept 3), .call .client [2, 3], .lock .main, .write (.accept 9), .lock .client,
       .write (.accept 10)]
    let rs : List (Read UInt8) :=
      [.data [0, 0, 0x98], .again, .data [0x76, 0, 0, 0, 0, 0, 0, 0x98, 0x76, 0, 0, 0], .data [1, 1],
       .data [0, 0, 0x98, 0x76, 0, 0, 0, 2, 2], .again, .data [3]]
    ∃ s, ProcessSend.machine.exec ProcessSend.machine.init as = some s ∧
      (doReads 3 rs).1 = s.sent.take 3 ∧ s.sent = [[], [1], [2, 3]] := by
  intro as rs
  have ⟨s, he, hs⟩ := ProcessSend.machine.exec_of_any as
    (fun s => s.current.isNone ∧ s.sent = [[], [1], [2, 3]] ∧ content rs = s.out) (by decide)
  have ⟨hn, hs, ho⟩ := of_decide_eq_true hs
  have hn := Option.isNone_iff_eq_none.mp hn
  refine ⟨s, he, (framing_round_trip he (by decide) hn ?_ (by decide) ho).left 3, hs⟩
  simp [hs]
