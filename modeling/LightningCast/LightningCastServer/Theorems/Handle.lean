import LightningCast.LightningCastServer.Handle

open Stream (Read)

namespace LightningCastServer.Handle

variable {cfg : Config} {s s' : State} {a : Act} {i fd c : Nat}

-- The bookkeeping of `handle`.
structure State.Kept (cfg : Config) (s : State) : Prop where
  master   : ∀ fd, fd ∈ s.master ↔ fd = cfg.listener ∨ fd = cfg.wakeFd ∨ ∃ c, s.Open fd c
  fdmax    : ∀ fd ∈ s.master, fd ≤ s.fdmax
  open_iff : ∀ c, (∃ fd, s.Open fd c) ↔ c < s.accepted ∧ c ∉ s.closed
  client   : ∀ fd c, s.Open fd c → fd ≠ cfg.listener ∧ fd ≠ cfg.wakeFd
  read     : ∀ i, s.pc = .read i → i ∈ s.readFds ∧ ∃ c, s.Open i c ∧ s.reported i = some c
  closed   : s.closed.Nodup

-- The descriptor which the `for` loop has got to.
def Pc.position : Pc → Option Nat
  | .sweep i | .accept i | .read i => i
  | .select | .returned            => none

-- Connections have numbers below `accepted`, and no two of them have one number.
structure State.Numbered (s : State) : Prop where
  conn      : ∀ fd, ∀ c ∈ s.conn fd, c < s.accepted
  closed    : ∀ c ∈ s.closed, c < s.accepted
  injective : ∀ fd fd' c, s.conn fd = some c → s.conn fd' = some c → fd = fd'

-- From its position on, the sweep will only find what is still as `select` has reported it.
def State.Ahead (cfg : Config) (s : State) : Prop :=
  ∀ i ∈ s.pc.position, ∀ fd ∈ s.readFds, i ≤ fd →
    fd = cfg.listener ∨ fd = cfg.wakeFd ∨ ∃ c, s.Open fd c ∧ s.reported fd = some c

structure State.Invariant (cfg : Config) (s : State) : Prop where
  master   : ∀ fd, fd ∈ s.master ↔ fd = cfg.listener ∨ fd = cfg.wakeFd ∨ ∃ c, s.Open fd c
  fdmax    : ∀ fd ∈ s.master, fd ≤ s.fdmax
  open_of  : ∀ c < s.accepted, c ∉ s.closed → ∃ fd, s.Open fd c
  client   : ∀ fd, ∀ c ∈ s.conn fd, fd ≠ cfg.listener ∧ fd ≠ cfg.wakeFd
  numbered : s.Numbered
  ahead    : s.Ahead cfg
  reads    : ∀ i, s.pc = .read i → i ∈ s.readFds ∧ i ≠ cfg.listener ∧ i ≠ cfg.wakeFd
  closed   : s.closed.Nodup

theorem State.Invariant.kept (h : s.Invariant cfg) : s.Kept cfg where
  master   := h.master
  fdmax    := h.fdmax
  open_iff := fun c =>
    ⟨fun ⟨fd, ho⟩ => ⟨h.numbered.conn fd c ho.left, ho.right⟩, fun ⟨hc, ho⟩ => h.open_of c hc ho⟩
  client   := fun fd c ho => h.client fd c ho.left
  read     := by
    intro i hi
    have ⟨hr, hl, hw⟩ := h.reads i hi
    refine ⟨hr, ?_⟩
    rcases h.ahead i (by simp [hi, Pc.position]) i hr (le_refl i) with h | h | h
    · exact absurd h hl
    · exact absurd h hw
    · exact h
  closed   := h.closed

-- What moves the loop on without a change to the books.
theorem State.Invariant.move {pc : Pc} (h : s.Invariant cfg)
    (hp : ∀ i ∈ pc.position, ∃ j ∈ s.pc.position, j ≤ i)
    (hr : ∀ i, pc = .read i → i ∈ s.readFds ∧ i ≠ cfg.listener ∧ i ≠ cfg.wakeFd) :
    ({ s with pc } : State).Invariant cfg where
  master   := h.master
  fdmax    := h.fdmax
  open_of  := h.open_of
  client   := h.client
  numbered := ⟨h.numbered.conn, h.numbered.closed, h.numbered.injective⟩
  reads    := hr
  closed   := h.closed
  ahead    := by
    intro i hi fd hf hle
    obtain ⟨j, hj, hji⟩ := hp i hi
    exact h.ahead j hj fd hf (hji.trans hle)

theorem State.Invariant.select {ready : Finset Nat} (h : s.Invariant cfg) (hr : ready ⊆ s.master) :
    (s.select ready).Invariant cfg where
  master   := h.master
  fdmax    := h.fdmax
  open_of  := h.open_of
  client   := h.client
  numbered := ⟨h.numbered.conn, h.numbered.closed, h.numbered.injective⟩
  reads    := nofun
  closed   := h.closed
  ahead    := by
    intro _ _ fd hf _
    rcases (h.master fd).mp (hr hf) with hl | hw | ⟨c, hc⟩
    · exact .inl hl
    · exact .inr <| .inl hw
    · refine .inr <| .inr ⟨c, hc, ?_⟩
      have hs : fd ∈ ready ∧ ∃ c ∈ s.conn fd, c ∉ s.closed := ⟨hf, c, hc.left, hc.right⟩
      exact (if_pos hs).trans hc.left

theorem State.Invariant.scan (h : s.Invariant cfg) (hi : s.pc = .sweep i) :
    (s.scan cfg i).Invariant cfg := by
  have hp : i ∈ s.pc.position := by simp [hi, Pc.position]
  unfold State.scan
  split
  case isTrue => exact h.move nofun nofun
  split
  case isTrue => exact h.move (fun j hj => ⟨i, hp, by cases hj; omega⟩) nofun
  case isFalse hr =>
    have hr := not_not.mp hr
    split
    case isTrue => exact h.move (fun j hj => ⟨i, hp, by cases hj; omega⟩) nofun
    case isFalse hl =>
      split
      case isTrue => exact h.move nofun nofun
      case isFalse hw =>
        refine h.move (fun j hj => ⟨i, hp, by cases hj; omega⟩) fun j hj => ?_
        cases hj
        exact ⟨hr, hl, hw⟩

-- A branch of the loop ends, and what the rest of the sweep is going to find is as it was.
theorem State.Ahead.next (h : s.Ahead cfg) (hi : i ∈ s.pc.position) (hp : s'.pc = .sweep (i + 1))
    (hf : s'.readFds = s.readFds) (hr : s'.reported = s.reported)
    (ho : ∀ fd c, i < fd → s.Open fd c → s'.Open fd c) : s'.Ahead cfg := by
  intro j hj fd hfd hle
  rw [hp] at hj
  cases hj
  rcases h i hi fd (hf ▸ hfd) (by omega) with hl | hw | ⟨c, hc, hrc⟩
  · exact .inl hl
  · exact .inr <| .inl hw
  · exact .inr <| .inr ⟨c, ho fd c (by omega) hc, hr ▸ hrc⟩

theorem State.accept_conn_iff {fd' : Nat} : (s.accept i fd).conn fd' = some c ↔
    fd' = fd ∧ c = s.accepted ∨ fd' ≠ fd ∧ s.conn fd' = some c := by
  simp only [State.accept, Function.update_apply]
  split
  case isTrue he  => simp [he, eq_comm]
  case isFalse he => simp [he]

-- `accept` returns a descriptor which is not open: it opens a connection and hides none.
theorem State.Numbered.accept_open_iff {fd' : Nat} (h : s.Numbered) (hf : s.Fresh cfg fd) :
    (s.accept i fd).Open fd' c ↔ fd' = fd ∧ c = s.accepted ∨ s.Open fd' c := by
  obtain ⟨_, _, hcl, _⟩ := hf
  have hn : s.accepted ∉ s.closed := fun hm => absurd (h.closed _ hm) (lt_irrefl _)
  unfold State.Open
  rw [State.accept_conn_iff]
  constructor
  case mp =>
    rintro ⟨hc | ⟨_, hc⟩, hm⟩
    · exact .inl hc
    · exact .inr ⟨hc, hm⟩
  case mpr =>
    rintro (⟨rfl, rfl⟩ | ⟨hc, hm⟩)
    · exact ⟨.inl ⟨rfl, rfl⟩, hn⟩
    · exact ⟨.inr ⟨fun he => hm (hcl c (he ▸ hc)), hc⟩, hm⟩

theorem State.Numbered.accept (h : s.Numbered) : (s.accept i fd).Numbered where
  closed c hm := Nat.lt_succ_of_lt (h.closed c hm)
  conn fd' c hm := by
    rcases State.accept_conn_iff.mp hm with ⟨_, rfl⟩ | ⟨_, hc⟩
    · exact Nat.lt_succ_self _
    · exact Nat.lt_succ_of_lt (h.conn fd' c hc)
  injective fd₁ fd₂ c h₁ h₂ := by
    have hlt : ∀ fd, s.conn fd = some c → c ≠ s.accepted := fun fd hc => (h.conn fd c hc).ne
    rcases State.accept_conn_iff.mp h₁ with ⟨h₁, hc₁⟩ | ⟨_, h₁⟩ <;>
      rcases State.accept_conn_iff.mp h₂ with ⟨h₂, hc₂⟩ | ⟨_, h₂⟩
    · rw [h₁, h₂]
    · exact absurd hc₁ (hlt fd₂ h₂)
    · exact absurd hc₂ (hlt fd₁ h₁)
    · exact h.injective fd₁ fd₂ c h₁ h₂

theorem State.Invariant.accept (h : s.Invariant cfg) (hi : s.pc = .accept i) (hf : s.Fresh cfg fd) :
    (s.accept i fd).Invariant cfg := by
  have ho : ∀ fd' c, (s.accept i fd).Open fd' c ↔ fd' = fd ∧ c = s.accepted ∨ s.Open fd' c :=
    fun _ _ => h.numbered.accept_open_iff hf
  constructor
  case numbered => exact h.numbered.accept
  case reads    => nofun
  case closed   => exact h.closed
  case ahead    =>
    refine h.ahead.next (by simp [hi, Pc.position]) rfl rfl rfl fun fd' c _ hc => ?_
    exact (ho fd' c).mpr (.inr hc)
  case master =>
    intro fd'
    simp only [ho, exists_or, exists_and_left, exists_eq, and_true]
    rw [State.accept, Finset.mem_insert, h.master, or_left_comm, or_left_comm (b := fd' = cfg.wakeFd)]
  case fdmax =>
    intro fd' hm
    simp only [State.accept, Finset.mem_insert] at hm ⊢
    rcases hm with rfl | hm
    · split <;> omega
    · have := h.fdmax fd' hm
      split <;> omega
  case open_of =>
    intro c hlt hcl
    rcases Nat.lt_succ_iff_lt_or_eq.mp hlt with hlt | he
    · obtain ⟨fd', hc⟩ := h.open_of c hlt hcl
      exact ⟨fd', (ho fd' c).mpr (.inr hc)⟩
    · exact ⟨fd, (ho fd c).mpr (.inl ⟨rfl, he⟩)⟩
  case client =>
    intro fd' c hm
    rcases State.accept_conn_iff.mp hm with ⟨rfl, _⟩ | ⟨_, hc⟩
    · exact ⟨hf.left, hf.right.left⟩
    · exact h.client fd' c hc

theorem State.Open.close_closed (ho : s.Open i c) : (s.close i).closed = s.closed ++ [c] := by
  simp [State.close, ho.left]

-- The connection of the descriptor which the sweep has got to is closed, and no other.
theorem State.Numbered.close_open_iff {d : Nat} (h : s.Numbered) (ho : s.Open i c) :
    (s.close i).Open fd d ↔ s.Open fd d ∧ fd ≠ i := by
  simp only [State.Open, ho.close_closed, List.mem_append, List.mem_singleton, not_or, and_assoc]
  refine and_congr_right fun hd => and_congr_right fun _ => not_congr ⟨?_, ?_⟩
  · rintro rfl
    exact h.injective fd i d hd ho.left
  · rintro rfl
    exact Option.some.inj (hd.symm.trans ho.left)

theorem State.Numbered.close (h : s.Numbered) (ho : s.Open i c) : (s.close i).Numbered where
  conn      := h.conn
  injective := h.injective
  closed d hm := by
    rw [ho.close_closed, List.mem_append, List.mem_singleton] at hm
    rcases hm with hm | rfl
    · exact h.closed d hm
    · exact h.conn i d ho.left

theorem State.Invariant.close (h : s.Invariant cfg) (hi : s.pc = .read i) :
    (s.close i).Invariant cfg := by
  obtain ⟨_, hl, hw⟩ := h.reads i hi
  obtain ⟨_, c, ho, _⟩ := h.kept.read i hi
  constructor
  case numbered => exact h.numbered.close ho
  case client   => exact h.client
  case reads    => nofun
  case fdmax    => exact fun fd hm => h.fdmax fd (Finset.mem_of_mem_erase hm)
  case ahead    =>
    refine h.ahead.next (by simp [hi, Pc.position]) rfl rfl rfl fun fd d hlt hd => ?_
    exact (h.numbered.close_open_iff ho).mpr ⟨hd, hlt.ne'⟩
  case master =>
    intro fd
    simp only [h.numbered.close_open_iff ho, exists_and_right]
    rw [State.close, Finset.mem_erase, h.master]
    constructor
    case mp =>
      rintro ⟨hne, hl | hw | hd⟩
      · exact .inl hl
      · exact .inr <| .inl hw
      · exact .inr <| .inr ⟨hd, hne⟩
    case mpr =>
      rintro (rfl | rfl | ⟨hd, hne⟩)
      · exact ⟨hl.symm, .inl rfl⟩
      · exact ⟨hw.symm, .inr <| .inl rfl⟩
      · exact ⟨hne, .inr <| .inr hd⟩
  case open_of =>
    intro d hlt hm
    rw [ho.close_closed, List.mem_append, not_or, List.mem_singleton] at hm
    obtain ⟨fd, hd⟩ := h.open_of d hlt hm.left
    refine ⟨fd, (h.numbered.close_open_iff ho).mpr ⟨hd, ?_⟩⟩
    rintro rfl
    exact hm.right (Option.some.inj (hd.left.symm.trans ho.left))
  case closed =>
    rw [ho.close_closed]
    exact h.closed.append (List.nodup_singleton c) (by simpa using ho.right)

theorem State.Invariant.step (h : s.Invariant cfg) (hs : step cfg s a = some s') : s'.Invariant cfg := by
  cases a <;> simp only [Handle.step] at hs
  case select ready =>
    split at hs <;> cases hs
    case isTrue hr => exact h.select hr.right
  case scan =>
    split at hs <;> cases hs
    case h_1 i hi => exact h.scan hi
  case accept fd =>
    split at hs <;> try cases hs
    case h_1 i hi => exact h.move (fun j hj => ⟨i, by simp [hi, Pc.position], by cases hj; omega⟩) nofun
    case h_2 i fd hi =>
      split at hs <;> cases hs
      case isTrue hf => exact h.accept hi hf
  case doRead rs parsed =>
    split at hs <;> cases hs
    case h_1 i _ _ hi _ =>
      cases parsed
      case false => exact h.close hi
      case true  => exact h.move (fun j hj => ⟨i, by simp [hi, Pc.position], by cases hj; omega⟩) nofun
    case h_2 i hi _ => exact h.close hi

theorem reachable_invariant (h : (machine cfg).Reachable s) : s.Invariant cfg := by
  refine h.invariant ?_ fun h hs => State.Invariant.step h hs
  constructor <;> simp [machine, State.Open, State.Ahead, Pc.position]
  exact ⟨by simp, by simp, by simp⟩

-- Whatever `select`, `accept` and `doRead` return, the books are kept: `master` is what is open, `fdmax` is
-- no less than any of it, `doRead` is called for an open connection which `select` has reported, and no
-- connection is closed twice.
theorem books_kept (h : (machine cfg).Reachable s) : s.Kept cfg :=
  (reachable_invariant h).kept

-- A descriptor is closed and returned by `accept` again in one sweep.
def reuse : List Act :=
  [.select {4}, .scan, .scan, .scan, .scan, .scan, .accept (some 3), .scan, .scan,
   .select {3, 4}, .scan, .scan, .scan, .scan, .doRead [.error] false, .scan, .accept (some 3)]

theorem reuse_kept : ∃ s, (machine ⟨4, 5, by decide⟩).exec (machine ⟨4, 5, by decide⟩).init reuse = some s ∧
    s.pc = .sweep 5 ∧ s.conn 3 = some 1 ∧ s.closed = [0] ∧ s.Kept ⟨4, 5, by decide⟩ := by
  have ⟨s, he, hs⟩ := (machine ⟨4, 5, by decide⟩).exec_of_any reuse
    (fun s => s.pc = .sweep 5 ∧ s.conn 3 = some 1 ∧ s.closed = [0]) (by decide)
  have ⟨hp, hc, hcl⟩ := of_decide_eq_true hs
  exact ⟨s, he, hp, hc, hcl, books_kept ⟨reuse, he⟩⟩

end LightningCastServer.Handle
