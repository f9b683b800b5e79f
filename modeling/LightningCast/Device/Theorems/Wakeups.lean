import LightningCast.Device.Theorems.Receipts
import LightningCast.LightningCastClient.Theorems.Wakeups
import LightningCast.SnapcastComm.Theorems.Wakeups

namespace Device

open Thread

-- No thread is blocked on a condition variable of either object while its predicate holds and the
-- notification for it has been issued.
structure State.AllWoken (s : State) : Prop where
  cast : s.cast.AllWoken
  link : s.link.AllWoken

-- The action with another choice of the thread which its notification wakes. A call into `SnapcastComm`
-- notifies nobody on the side of `LightningCastClient`.
def Act.waking (w : Option Thread) : Act → Act
  | .cast a   => .cast (a.waking w)
  | .link b   => .link (b.waking w)
  | .call a b => .call a (b.waking w)

-- Whichever thread is woken, none is left behind.
def WakesAll (s : State) (a : Act) : Prop :=
  ∀ w s', step s (a.waking w) = some s' → s'.AllWoken

-- A notification is issued to at most one thread which waits for it.
def Alone (s : State) (a : Act) : Prop :=
  (∀ a' ∈ a.castPart, LightningCastClient.Alone s.cast a') ∧ (∀ b ∈ a.linkPart, SnapcastComm.Alone s.link b)

instance (s : State) (a : Act) : Decidable (Alone s a) :=
  inferInstanceAs (Decidable ((∀ _ ∈ _, _) ∧ (∀ _ ∈ _, _)))

@[simp]
theorem entry_castWaking {w : Option Thread} {a : LightningCastClient.Act} :
    (a.waking w).entry = a.entry := by
  cases a <;> rfl

@[simp]
theorem returns_castWaking {w : Option Thread} {a : LightningCastClient.Act} :
    (a.waking w).returns = a.returns := by
  cases a <;> rfl

@[simp]
theorem entry_linkWaking {w : Option Thread} {b : SnapcastComm.Act} : (b.waking w).entry = b.entry := by
  cases b <;> rfl

variable {s s' : State} {a : Act}

theorem Act.exists_waking (a : Act) : ∃ w, a.waking w = a := by
  cases a
  case cast a   => exact a.exists_waking.imp fun _ h => congrArg Act.cast h
  case link b   => exact b.exists_waking.imp fun _ h => congrArg Act.link h
  case call a b => exact b.exists_waking.imp fun _ h => congrArg (Act.call a) h

-- A call into `SnapcastComm` finishes no command of `LightningCastClient`.
theorem not_finishes_of_entry {s : LightningCastClient.State} {a : LightningCastClient.Act}
    (h : a.entry ≠ none) : ¬a.finishes s := by
  cases a <;> first | exact absurd rfl h | exact Bool.false_ne_true

theorem wakesAll_iff (hr : machine.Reachable s) (i : s.AllWoken) (h : step s a = some s') :
    WakesAll s a ↔ Alone s a := by
  have hcast : s.cast.Blocked := LightningCastClient.blocked (castSimulation.reachable hr)
  have hlink : s.link.Blocked := SnapcastComm.blocked (linkSimulation.reachable hr)
  cases a
  case cast a =>
    obtain ⟨hg, cast, hc, rfl⟩ := step_cast.mp h
    have hw : WakesAll s (.cast a) ↔ LightningCastClient.WakesAll s.cast a := by
      constructor
      case mp =>
        intro hw w cast hc
        exact (hw w { s with cast } (step_cast.mpr ⟨by simpa using hg, cast, hc, rfl⟩)).cast
      case mpr =>
        intro hw w s' h
        obtain ⟨_, cast, hc, rfl⟩ := step_cast.mp h
        exact ⟨hw w cast hc, i.link⟩
    rw [hw, LightningCastClient.wakesAll_iff hcast i.cast hc]
    simp [Alone, Act.castPart, Act.linkPart]
  case link b =>
    obtain ⟨hg, link, hl, rfl⟩ := step_link.mp h
    have hw : WakesAll s (.link b) ↔ SnapcastComm.WakesAll s.link b := by
      constructor
      case mp =>
        intro hw w link hl
        exact (hw w { s with link } (step_link.mpr ⟨by simpa using hg, link, hl, rfl⟩)).link
      case mpr =>
        intro hw w s' h
        obtain ⟨_, link, hl, rfl⟩ := step_link.mp h
        exact ⟨i.cast, hw w link hl⟩
    rw [hw, SnapcastComm.wakesAll_iff hlink i.link hl]
    simp [Alone, Act.castPart, Act.linkPart]
  case call a b =>
    obtain ⟨hg, cast, hc, link, hl, rfl⟩ := step_call.mp h
    have hf := not_finishes_of_entry (s := s.cast) hg.left
    have hw : WakesAll s (.call a b) ↔ SnapcastComm.WakesAll s.link b := by
      constructor
      case mp =>
        intro hw w link hl
        exact (hw w { cast, link } (step_call.mpr ⟨by simpa using hg, cast, hc, link, hl, rfl⟩)).link
      case mpr =>
        intro hw w s' h
        obtain ⟨_, cast, hc, link, hl, rfl⟩ := step_call.mp h
        exact ⟨i.cast.step_silent hcast hf hc, hw w link hl⟩
    rw [hw, SnapcastComm.wakesAll_iff hlink i.link hl]
    simp [Alone, Act.castPart, Act.linkPart, LightningCastClient.Alone, hf]

-- In a run, no notification is lost whichever threads the notifications wake, if and only if each
-- notification is issued to at most one thread which waits for it.
theorem no_lost_wakeup_iff {as : List Act} (he : machine.exec machine.init as = some s) :
    (machine.Always State.AllWoken as ∧ machine.Meets WakesAll as) ↔ machine.Meets Alone as := by
  refine machine.always_and_meets_iff he ⟨?_, ?_, ?_⟩ (fun {s a s'} hw h => ?_) wakesAll_iff
  · exact ⟨by simp [machine], by simp [machine]⟩
  · exact ⟨by simp [machine], by simp [machine]⟩
  · simp [machine]
  · obtain ⟨w, ha⟩ := a.exists_waking
    exact hw w s' (ha.symm ▸ h)

set_option maxRecDepth 4000 in
theorem hangUp_no_lost_wakeup : machine.Always State.AllWoken hangUp ∧ machine.Meets WakesAll hangUp :=
  have ⟨_, he, _⟩ := machine.exec_of_any hangUp (fun _ => true) (by decide)
  (no_lost_wakeup_iff he).mpr (by decide)

-- The player has hung up without an answer: the client thread waits in `LockWait` beside the handler,
-- which is idle. The main thread exits, and posts `CLOSE`.
def exitBesideLockWait : List Act :=
  hangUpUnanswered ++
  [.cast .exitCall, .cast (.getIsOpen main), .call (.doStop main) (.doStop main), .link (.refuse main .STOP),
   .link (.close main (some client))]

-- The one notification for `ready` wakes the client thread. No thread has woken up by itself.
set_option maxRecDepth 4000 in
theorem exitBesideLockWait_lost : ∃ s, machine.exec machine.init exitBesideLockWait = some s ∧
    s.link.comm.ready ∧ snapcast ∈ s.link.comm.cond ∧ s.link.comm.cmd = .CLOSE ∧
    (∀ t, .link (.spurious t) ∉ exitBesideLockWait) ∧ ¬s.AllWoken := by
  have ⟨s, he, hs⟩ := machine.exec_of_any exitBesideLockWait
    (fun s => s.link.comm.ready ∧ snapcast ∈ s.link.comm.cond ∧ s.link.comm.cmd = .CLOSE) (by decide)
  have ⟨hr, hm, hc⟩ := of_decide_eq_true hs
  refine ⟨s, he, hr, hm, hc, ?_, fun i => i.link.mailbox.ready hr hm⟩
  intro t
  simp [exitBesideLockWait, hangUpUnanswered, waiting, beforePlay, LightningCastClient.session,
    SnapcastComm.play]

end Device
