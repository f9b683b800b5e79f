import LightningCast.SnapcastComm.Theorems.Handoff

namespace SnapcastComm

-- The descriptor which belongs to each place of the handler.
def HandlerPc.Holds (fd : PlayerFd) : HandlerPc → Prop
  | .handle | .wait | .returned | .socket => fd = .none
  | .connect                              => fd = .socket
  | _                                     => ∃ k, fd = .conn k

theorem HandlerPc.holds_ofTurn {fd : PlayerFd} :
    {t : Mailbox.Turn} → (ofTurn t).Holds fd ↔ fd = .none
  | .doOpen | .wait | .exit => .rfl

theorem HandlerPc.Holds.conn {p : HandlerPc} {k k' : PlayerConn} (h : p.Holds (.conn k)) :
    p.Holds (.conn k') := by
  cases p <;> simp_all [Holds]

theorem HandlerPc.Holds.cutShort {p : HandlerPc} {fd : PlayerFd} {part : Bool} (h : p.Holds fd) :
    p.Holds (fd.cutShort part) := by
  cases fd
  case conn k       => exact h.conn
  case none | socket => exact h

namespace State

def HoldsFd (s : State) : Prop :=
  s.handler.Holds s.comm.serverFd

theorem HoldsFd.step {s s' : State} {a : Act} (hi : s.HoldsFd) (h : SnapcastComm.step s a = some s') :
    s'.HoldsFd := by
  unfold HoldsFd at hi ⊢
  cases a <;> simp only [SnapcastComm.step, Option.ite_none_right_eq_some, Option.some.injEq] at h <;>
    obtain ⟨hg, rfl⟩ := h
  case handle | resume =>
    rw [hg.left] at hi
    exact HandlerPc.holds_ofTurn.mpr hi
  case send t c k => exact (hg.right ▸ hi).conn
  case cut        => exact hi.cutShort
  case answer | babble | hangUp => exact (hg.left ▸ hi).conn
  case doRead wake k =>
    rcases s.read_cases wake k with ⟨_, _, _, h⟩ | ⟨_, _, h⟩ | ⟨_, h⟩ <;> rw [h] <;>
      simp [HandlerPc.Holds, hg]
  case loop | checkWake => split <;> simpa [hg, HandlerPc.Holds] using hi
  all_goals simp_all [HandlerPc.Holds, openCmd, close, exit, lockFinishCmd, setResult]

end State

theorem holdsFd {s : State} (h : machine.Reachable s) : s.HoldsFd :=
  h.invariant rfl State.HoldsFd.step

-- Outside `do_open` the handler has no connection.
theorem serverFd_eq_none {s : State} (h : machine.Reachable s) (hp : s.handler.phase = .outside) :
    s.comm.serverFd = .none := by
  have hf := holdsFd h
  unfold State.HoldsFd at hf
  cases hs : s.handler <;> simp only [hs, HandlerPc.phase, reduceCtorEq] at hp hf <;> exact hf

-- The client thread makes no call, and the handler serves no `OPEN` until it makes the next one.
def State.Quiet (s : State) : Prop :=
  s.call .client = none ∧ Handoff.Quiet s.handoff

-- The client thread is in `doPause` or `doStop`, or has been.
def State.Stops (s : State) : Prop :=
  (∀ c, s.call .client = some c → ¬c.Plays) ∧ (s.call .client = none → s.Quiet)

-- The thread which starts a call with an action.
def Act.begins : Act → Option Thread
  | .doPlay t | .doPause t | .doStop t => some t
  | _                                  => none

theorem State.Quiet.call_step {s s' : State} {a : Act} (hc : s.call .client = none)
    (ha : a.begins ≠ some .client) (h : step s a = some s') : s'.call .client = none := by
  cases a <;> simp only [step, Option.ite_none_right_eq_some, Option.some.injEq] at h <;>
    obtain ⟨hg, rfl⟩ := h <;>
    simp only [goto_call, done_call, read_call, consumed_call, startedWith_call, turn_call,
      Function.update_apply]
  all_goals grind [Act.begins, TestsReady, TestsPending]

theorem State.Quiet.step {s s' : State} {a : Act} (hr : machine.Reachable s) (hq : s.Quiet)
    (ha : a.begins ≠ some .client) (h : SnapcastComm.step s a = some s') : s'.Quiet := by
  refine ⟨call_step hq.left ha h, hq.right.follows ?_ (handoff_step hr h)⟩
  -- Only the client thread could post `OPEN`, and it makes no call.
  cases a <;> simp only [handoffAct, ne_eq, reduceCtorEq, not_false_eq_true]
  case openCmd t w =>
    simp only [SnapcastComm.step, Option.ite_none_right_eq_some] at h
    cases client_plays hr t _ h.left.left trivial
    simp [hq.left] at h
  case handle | resume => simp only [Handoff.Act.ofTurn]; grind
  all_goals grind

-- When its `Close` returns, the client thread leaves the handler quiet.
theorem State.Quiet.of_closed {s s' : State} (hr : machine.Reachable s)
    (h : SnapcastComm.step s (.closed .client) = some s') : s'.Quiet := by
  simp only [SnapcastComm.step, Option.ite_none_right_eq_some, Option.some.injEq] at h
  obtain ⟨⟨⟨hc, _⟩, _, hn⟩, rfl⟩ := h
  have ho : s.handoff.opener = .closing := by simp [handoff, Handoff.view, hc, Call.opener]
  have hp := ((handoff_inv hr).quiet_of_closed ho hn).left
  exact ⟨by simp, hp, by simp [handoff, Handoff.view, hn]⟩

theorem State.Quiet.serverFd {s : State} (hr : machine.Reachable s) (hq : s.Quiet) :
    s.comm.serverFd = .none :=
  serverFd_eq_none hr hq.right.left

section

variable {s s' : State} {a : Act}

theorem State.Quiet.stops (hq : s.Quiet) : s.Stops :=
  ⟨by simp [hq.left], fun _ => hq⟩

-- A call which does not play goes on without playing, and ends with the return of `Close`.
theorem not_plays_step {t : Thread} {c : Call} (hc : s.call t = some c) (hp : ¬c.Plays)
    (h : step s a = some s') : (∃ c', s'.call t = some c' ∧ ¬c'.Plays) ∨ a = .closed t := by
  cases a <;> simp only [step, Option.ite_none_right_eq_some, Option.some.injEq] at h <;>
    obtain ⟨hg, rfl⟩ := h <;>
    simp only [State.goto_call, State.done_call, State.read_call, State.consumed_call, State.startedWith_call,
      State.turn_call, Function.update_apply]
  all_goals grind [Call.Plays, State.TestsReady, State.TestsPending, Call.after, State.request]

theorem State.Stops.step (hr : machine.Reachable s) (hs : s.Stops) (ha : a.begins ≠ some .client)
    (h : SnapcastComm.step s a = some s') : s'.Stops := by
  cases hc : s.call .client
  case none   => exact (hs.right hc).step hr ha h |>.stops
  case some c =>
    cases not_plays_step hc (hs.left c hc) h
    case inl hn =>
      obtain ⟨c', hc', hp⟩ := hn
      refine ⟨fun c hc => ?_, by simp [hc']⟩
      cases hc'.symm.trans hc
      exact hp
    case inr ha =>
      subst ha
      exact (Quiet.of_closed hr h).stops

end

end SnapcastComm
