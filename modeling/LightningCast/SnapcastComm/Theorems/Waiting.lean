import LightningCast.SnapcastComm.Theorems.Receipts

namespace SnapcastComm

-- What keeps a request from losing its receipt: a frame is written whole, and to a player which has not
-- hung up; the player hangs up only when it owes no receipt; and the connection is given up only when
-- nothing is on the way.
def Undisturbed (s : State) : Act → Prop
  | .cut ..      => False
  | .send _ _ k  => ¬k.gone
  | .hangUp k    => k.requests = []
  | .teardown    => s.comm.serverFd.flight = []
  | _            => True

instance (s : State) (a : Act) : Decidable (Undisturbed s a) := by
  cases a <;> dsimp only [Undisturbed] <;> infer_instance

namespace State

variable {s s' : State} {a : Act} {t : Thread} {r : Request}

structure Expected (s : State) : Prop where
  flight : ∀ {t r}, s.awaits t = some r → r.key ∈ s.flight
  conn   : ∀ {t r}, s.awaits t = some r → s.history.signals = [] →
    ∃ k, s.comm.serverFd = .conn k ∧ r.conn = some k.id
  alive  : ∀ k, s.comm.serverFd = .conn k → ¬k.cut ∧ (k.requests ≠ [] → ¬k.gone)

theorem Expected.init : machine.init.Expected where
  flight := by simp [machine, awaits]
  conn   := by simp [machine, awaits]
  alive  := by simp [machine]

-- A connection stays until the handler gives it up.
theorem serverFd_step (hf : s.HoldsFd) (h : SnapcastComm.step s a = some s') (ha : a ≠ .teardown)
    {k : PlayerConn} (hk : s.comm.serverFd = .conn k) :
    ∃ k', s'.comm.serverFd = .conn k' ∧ k'.id = k.id := by
  unfold HoldsFd at hf
  cases a <;> simp only [SnapcastComm.step, Option.ite_none_right_eq_some, Option.some.injEq] at h <;>
    obtain ⟨hg, rfl⟩ := h
  case teardown => exact absurd rfl ha
  case socket | connect => simp [hg, hk, HandlerPc.Holds] at hf
  case doRead wake k' =>
    cases hk.symm.trans hg.right.left
    rcases s.read_cases wake k with ⟨_, _, _, h⟩ | ⟨_, _, h⟩ | ⟨_, h⟩ <;> rw [h]
    case inr.inr => exact ⟨k, hk, rfl⟩
    all_goals exact ⟨_, rfl, rfl⟩
  case send t c k' =>
    cases hk.symm.trans hg.right
    exact ⟨_, rfl, by simp⟩
  case cut t c part => exact ⟨{ k with cut := k.cut || part }, by simp [hk, PlayerFd.cutShort], rfl⟩
  case answer | babble | hangUp =>
    cases hk.symm.trans hg.left
    exact ⟨_, rfl, rfl⟩
  all_goals exact ⟨k, hk, rfl⟩

theorem Expected.alive_step (i : s.Expected) (hu : Undisturbed s a) (h : SnapcastComm.step s a = some s') :
    ∀ k, s'.comm.serverFd = .conn k → ¬k.cut ∧ (k.requests ≠ [] → ¬k.gone) := by
  have alive := i.alive
  clear i
  intro k hk
  cases a <;> simp only [SnapcastComm.step, Option.ite_none_right_eq_some, Option.some.injEq] at h <;>
    obtain ⟨hg, rfl⟩ := h <;> simp only [Undisturbed] at hu
  case doRead wake k' =>
    rcases s.read_cases wake k' with ⟨_, _, _, h⟩ | ⟨_, _, h⟩ | ⟨_, h⟩ <;> rw [h] at hk
    case inr.inr => exact alive k hk
    all_goals
      cases hk
      exact alive k' hg.right.left
  case send t c k' =>
    cases hk
    exact ⟨by simpa using (alive k' hg.right).left, fun _ => by simpa using hu⟩
  case answer k' r result =>
    cases hk
    exact ⟨(alive k' hg.left).left, fun _ => hg.right.left⟩
  case babble k' =>
    cases hk
    exact alive k' hg.left
  case hangUp k' =>
    cases hk
    exact ⟨(alive k' hg.left).left, fun h => absurd hu h⟩
  case connect => cases hk; simp
  case socket | teardown => cases hk
  all_goals exact alive k hk

-- After a call has consumed `pending` no call waits.
theorem Matched.not_awaits_consumed (i : s.Matched) {t' : Thread} {r' : Request}
    (h : SnapcastComm.step s (.consume t r) = some s') : s'.awaits t' ≠ some r' := by
  simp only [SnapcastComm.step, Option.ite_none_right_eq_some, Option.some.injEq] at h
  obtain ⟨hg, rfl⟩ := h
  exact i.fresh_consume hg.left.awaits

-- A call which waits after a step has just sent its request, or waited before.
theorem Matched.awaits_cases (i : s.Matched) (hn : NoOverlap s a) (hu : Undisturbed s a)
    (h : SnapcastComm.step s a = some s') (hw : s'.awaits t = some r) :
    (s.awaits t = some r ∧ a.sender = none ∧ ∀ t r, a ≠ .consume t r) ∨
      ∃ c k, a = .send t c k ∧ r = s.request c k.id := by
  by_cases hs : a.sender = none
  case pos =>
    refine .inl ⟨(awaits_of_step h hw).resolve_right (by simp [hs]), hs, ?_⟩
    rintro t' r' rfl
    exact i.not_awaits_consumed h hw
  case neg =>
    have hne : s.awaits t = none := by
      by_contra hne
      obtain ⟨r', hr'⟩ := Option.ne_none_iff_exists'.mp hne
      simpa [hn hs t] using engaged_of_awaits hr'
    cases a <;> simp only [Act.sender, not_true] at hs
    case cut => cases hu
    case send t' c k =>
      simp only [SnapcastComm.step, Option.ite_none_right_eq_some, Option.some.injEq] at h
      obtain ⟨hg, rfl⟩ := h
      by_cases ht : t = t'
      case neg =>
        have hw : s.awaits t = some r := by simpa [awaits, ht] using hw
        cases hne.symm.trans hw
      case pos =>
        cases ht
        exact .inr ⟨c, k, rfl, by simpa [awaits, Call.awaits] using hw.symm⟩

theorem Expected.flight_step (i : s.Expected) (hm : s.Matched) (hf : s.HoldsFd) (hn : NoOverlap s a)
    (hu : Undisturbed s a) (h : SnapcastComm.step s a = some s') (hw : s'.awaits t = some r) :
    r.key ∈ s'.flight := by
  rcases hm.awaits_cases hn hu h hw with ⟨hw, hs, hc⟩ | ⟨c, k, rfl, rfl⟩
  case inl =>
    have hk := i.flight hw
    by_cases hd : a.drops
    case neg => exact (State.flight_step hf h hs hd).mem_iff.mpr hk
    case pos =>
      cases a <;> simp only [Act.drops, Bool.false_eq_true] at hd
      case consume t' r' => exact absurd rfl (hc t' r')
      case teardown =>
        simp only [SnapcastComm.step, Option.ite_none_right_eq_some, Option.some.injEq] at h
        obtain ⟨hg, rfl⟩ := h
        have hu : s.comm.serverFd.flight = [] := hu
        simp only [State.flight, hu, hg, HandlerPc.held, List.map_nil, List.nil_append] at hk
        simpa [State.flight, HandlerPc.held, PlayerFd.flight] using hk
  case inr =>
    simp only [SnapcastComm.step, Option.ite_none_right_eq_some, Option.some.injEq] at h
    obtain ⟨hg, rfl⟩ := h
    simp [State.flight, PlayerFd.flight, PlayerConn.accept, i.alive k hg.right]

theorem Expected.conn_step (i : s.Expected) (hm : s.Matched) (hf : s.HoldsFd) (hn : NoOverlap s a)
    (hu : Undisturbed s a) (h : SnapcastComm.step s a = some s') (hw : s'.awaits t = some r)
    (hs : s'.history.signals = []) : ∃ k, s'.comm.serverFd = .conn k ∧ r.conn = some k.id := by
  have hk := i.flight_step hm hf hn hu h hw
  rcases hm.awaits_cases hn hu h hw with ⟨hw, _, hc⟩ | ⟨c, k, rfl, rfl⟩
  case inl =>
    by_cases ht : a = .teardown
    case pos =>
      subst ht
      simp only [SnapcastComm.step, Option.ite_none_right_eq_some, Option.some.injEq] at h
      obtain ⟨_, rfl⟩ := h
      simp [State.flight, PlayerFd.flight, HandlerPc.held, show s.history.signals = [] from hs] at hk
    case neg =>
      have hs' : s.history.signals = [] := by
        by_cases ha : a.records
        case neg => exact (history_step h ha).left ▸ hs
        case pos =>
          cases a <;> simp only [Act.records, Bool.false_eq_true] at ha <;>
            simp only [SnapcastComm.step, Option.ite_none_right_eq_some, Option.some.injEq] at h <;>
            obtain ⟨_, rfl⟩ := h
          case consume => exact absurd rfl (hc _ _)
          case lockSignal => simp at hs
          case started => exact hs
      obtain ⟨k, hk, hr⟩ := i.conn hw hs'
      obtain ⟨k', hk', hi⟩ := serverFd_step hf h ht hk
      exact ⟨k', hk', hi ▸ hr⟩
  case inr =>
    simp only [SnapcastComm.step, Option.ite_none_right_eq_some, Option.some.injEq] at h
    obtain ⟨hg, rfl⟩ := h
    exact ⟨_, rfl, by simp [request]⟩

theorem Expected.step (i : s.Expected) (hm : s.Matched) (hf : s.HoldsFd) (hn : NoOverlap s a)
    (hu : Undisturbed s a) (h : SnapcastComm.step s a = some s') : s'.Expected where
  flight := i.flight_step hm hf hn hu h
  conn   := i.conn_step hm hf hn hu h
  alive  := i.alive_step hu h

-- The connection on which a request was written whole is open, and its receipt has not been processed:
-- the player is going to send it, or it is to be read, or `doParse` has it.
def CanCome (s : State) (r : Request) : Prop :=
  (∃ k, s.comm.serverFd = .conn k ∧ r.conn = some k.id ∧
    (r.key ∈ k.requests.map Request.key ∧ ¬k.gone ∨ r.key ∈ k.inbox.flatMap PlayerMsg.keys ∨
      r.key ∈ s.handler.held.map Receipt.key)) ∧
  ∀ c ∈ s.history.processed, c.key ≠ r.key

theorem Expected.canCome (i : s.Expected) (hm : s.Matched) (hr : s.Recorded) (hw : s.awaits t = some r)
    (hp : ¬s.comm.pending) : s.CanCome r := by
  have hs : s.history.signals = [] := by simpa [hr.pending] using hp
  have ⟨k, hk, hc⟩ := i.conn hw hs
  constructor
  case left =>
    refine ⟨k, hk, hc, ?_⟩
    have hf := i.flight hw
    simp only [State.flight, hk, hs, PlayerFd.flight, List.map_nil, List.append_nil, List.mem_append,
      or_assoc] at hf
    refine hf.imp_left fun h => ⟨h, (i.alive k hk).right ?_⟩
    rintro hn
    simp [hn] at h
  case right =>
    intro c hc hk
    simp only [hr.processed, hs, List.append_nil] at hc
    have hi : c.id ∈ s.history.released.map (·.1.id) := released_ids hm.own ▸ List.mem_map_of_mem hc
    obtain ⟨p, hp, hi⟩ := List.mem_map.mp hi
    exact hm.fresh hw p hp (hi.trans (congrArg Prod.fst hk))

end State

theorem can_come {as : List Act} {s : State} (hn : machine.Meets NoOverlap as)
    (hu : machine.Meets Undisturbed as) (he : machine.exec machine.init as = some s) {t : Thread}
    {r : Request} (hw : s.awaits t = some r) (hp : ¬s.comm.pending) : s.CanCome r := by
  have ⟨hm, hx⟩ : s.Matched ∧ s.Expected := by
    refine (hn.and hu).invariant he (P := fun s => s.Matched ∧ s.Expected) ⟨.init, .init⟩ ?_
    intro s a s' hr ⟨i, j⟩ ⟨hn, hu⟩ h
    exact ⟨i.step (holdsFd hr) (recorded hr) hn h, j.step i (holdsFd hr) hn hu h⟩
  exact hx.canCome hm (recorded ⟨as, he⟩) hw hp

end SnapcastComm
