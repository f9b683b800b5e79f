import LightningCast.SnapcastComm.Theorems.Connection
import LightningCast.SnapcastComm.Theorems.Deadlock
import LightningCast.SnapcastComm.Theorems.Wakeups

namespace SnapcastComm

open Mailbox (Wakes)

theorem HandlerPc.ofTurn_eq_returned : {t : Mailbox.Turn} → (ofTurn t = .returned ↔ t = .exit)
  | .doOpen | .wait | .exit => by simp [ofTurn]

-- `handle` finds `EXIT` in the slot, and returns.
def Act.takesExit (s : State) : Act → Bool
  | .handle _ => s.comm.cmd = .EXIT
  | .resume _ => s.comm.ready ∧ s.comm.cmd = .EXIT
  | _         => false

def Act.exits : Act → Bool
  | .exit _ => true
  | _       => false

def Act.loops : Act → Bool
  | .loop => true
  | _     => false

-- A thread at this place, with `handle` gone, does not get to a command which it would post. `pending` can
-- still release one thread from `LockWait`, which goes on to `Close` unless its `START` has succeeded.
def State.Spares (s : State) : Call → Prop
  | .closeWait               => True
  | .lockWait r | .blocked r => s.comm.pending → r.cmd = .START ∧ s.comm.sendStartResult
  | .result _                => s.comm.sendStartResult
  | .openCmd | .openWait | .reset | .write _ | .close => False

instance (s : State) : (c : Call) → Decidable (s.Spares c)
  | .closeWait => inferInstanceAs (Decidable True)
  | .lockWait r | .blocked r =>
    inferInstanceAs (Decidable (s.comm.pending → r.cmd = .START ∧ s.comm.sendStartResult))
  | .result _ => inferInstanceAs (Decidable (s.comm.sendStartResult = true))
  | .openCmd | .openWait | .reset | .write _ | .close => inferInstanceAs (Decidable False)

-- No call begins after `handle` has returned, and when it returns, no thread is on its way to a command,
-- and at most one is blocked in `Close`.
def Timely (s : State) (a : Act) : Prop :=
  (a.begins ≠ none → s.handler ≠ .returned) ∧
  (a.takesExit s → s.comm.condSync.card ≤ 1 ∧ ∀ t, ∀ c ∈ s.call t, s.Spares c)

instance (s : State) (a : Act) : Decidable (Timely s a) :=
  inferInstanceAs (Decidable ((_ → _) ∧ (_ → _ ∧ ∀ _, ∀ _ ∈ _, _)))

-- The handler does not pass the test of its loop towards a quiet `select`.
def Sees (s : State) (a : Act) : Prop :=
  a.loops → s.comm.cmd = .NONE → s.comm.wakeFd ∨ s.comm.serverFd.Readable

instance (s : State) (a : Act) : Decidable (Sees s a) :=
  inferInstanceAs (Decidable (_ → _ → _))

namespace State

-- When `handle` has returned, every thread in a call has been told that its command is finished, or posts
-- no other.
def StrandsNobody (s : State) : Prop :=
  s.handler = .returned → ∀ t c, s.call t = some c →
    s.Spares c ∧ t ∉ s.comm.condSync ∧ (c = .closeWait → s.comm.Finished)

-- `EXIT` is in the slot, or has been taken from it.
def Exiting (s : State) : Prop :=
  s.comm.cmd = .EXIT ∨ s.handler = .returned

variable {s s' : State} {a : Act}

theorem turn_exiting {r : Mailbox Thread × Mailbox.Turn} (h : Mailbox.Handles s.comm.toMailbox r.1 r.2)
    (he : (s.turn r).Exiting) : s.comm.cmd = .EXIT :=
  h.exiting (he.imp_right HandlerPc.ofTurn_eq_returned.mp)

-- Only `Exit` leads to `EXIT`.
theorem exiting_step (h : SnapcastComm.step s a = some s') (he : s'.Exiting) : s.Exiting ∨ a.exits := by
  cases a <;> simp only [SnapcastComm.step, Option.ite_none_right_eq_some, Option.some.injEq] at h <;>
    obtain ⟨hg, rfl⟩ := h
  case exit w   => exact .inr rfl
  case handle w => exact .inl <| .inl <| turn_exiting (Mailbox.handle_handles ..) he
  case resume w => exact .inl <| .inl <| turn_exiting (Mailbox.resume_handles ..) he
  case loop | checkWake => split at he <;> simp_all [Exiting]
  all_goals simp_all [Exiting, openCmd, close, lockFinishCmd, setResult]

-- The step at which `handle` returns.
theorem takesExit_step (h : SnapcastComm.step s a = some s') (ht : a.takesExit s) :
    s.handler ≠ .returned ∧ s'.handler = .returned ∧ s'.call = s.call ∧ s'.comm.Finished ∧
      s'.comm.pending = s.comm.pending ∧ s'.comm.sendStartResult = s.comm.sendStartResult ∧
      ∃ w, Wakes s.comm.condSync w ∧ s'.comm.condSync = Mailbox.woken s.comm.condSync w := by
  cases a <;> simp only [Act.takesExit, decide_eq_true_eq, Bool.false_eq_true] at ht <;>
    simp only [SnapcastComm.step, Option.ite_none_right_eq_some, Option.some.injEq] at h <;>
    obtain ⟨hg, rfl⟩ := h
  case handle w =>
    obtain ⟨ht', hf, hw⟩ := Mailbox.handle_exits ht hg.right
    exact ⟨by simp [hg], HandlerPc.ofTurn_eq_returned.mpr ht', rfl, hf, rfl, rfl, hw⟩
  case resume w =>
    obtain ⟨ht', hf, hw⟩ := Mailbox.resume_exits ht.left ht.right hg.right.right
    exact ⟨by simp [hg], HandlerPc.ofTurn_eq_returned.mpr ht', rfl, hf, rfl, rfl, hw⟩

theorem returned_of_step (h : SnapcastComm.step s a = some s') (hd : s'.handler = .returned) :
    s.handler = .returned ∨ a.takesExit s := by
  cases a <;> simp only [SnapcastComm.step, Option.ite_none_right_eq_some, Option.some.injEq] at h <;>
    obtain ⟨hg, rfl⟩ := h
  case handle w =>
    exact .inr <| decide_eq_true <| Mailbox.handle_exit_iff.mp <| HandlerPc.ofTurn_eq_returned.mp hd
  case resume w =>
    exact .inr <| decide_eq_true <| Mailbox.resume_exit_iff.mp <| HandlerPc.ofTurn_eq_returned.mp hd
  case loop | checkWake => split at hd <;> simp_all
  all_goals simp_all

theorem Spares.mono {c : Call} (h : s.Spares c) (hp : s'.comm.pending → s.comm.pending)
    (hr : s'.comm.sendStartResult = s.comm.sendStartResult) : s'.Spares c := by
  cases c <;> simp only [Spares, hr] at h ⊢
  case lockWait | blocked => exact fun hp' => h (hp hp')
  case result => exact h

-- A thread in `LockWait` after `handle` has returned.
theorem TestsPending.spared {t : Thread} {r : Request} (h : s.TestsPending t r)
    (i : ∀ t c, s.call t = some c →
      s.Spares c ∧ t ∉ s.comm.condSync ∧ (c = .closeWait → s.comm.Finished)) :
    (s.comm.pending → r.cmd = .START ∧ s.comm.sendStartResult) ∧ t ∉ s.comm.condSync := by
  rcases h with h | ⟨h, _⟩
  all_goals exact ⟨(i t _ h).left, (i t _ h).right.left⟩

-- After `handle` has returned, the threads which are still in a call do not post, and nobody else calls.
theorem StrandsNobody.step (i : s.StrandsNobody) (hd : s.handler = .returned) (hb : a.begins = none)
    (hx : ¬a.exits) (h : SnapcastComm.step s a = some s') : s'.StrandsNobody := by
  rintro - t c hc
  replace i := i hd
  cases a <;> simp only [SnapcastComm.step, Option.ite_none_right_eq_some, Option.some.injEq] at h <;>
    obtain ⟨hg, rfl⟩ := h
  case doPlay | doPause | doStop => cases hb
  case exit => exact absurd rfl hx
  case openCmd | close | refuse | send | cut => exact (i _ _ hg.left).left.elim
  case reset  => exact (i _ _ hg).left.elim
  case opened => exact (i _ _ hg.left.left).left.elim
  case rewait =>
    rcases hg.left with ht | ht
    · exact (i _ _ ht.left).left.elim
    · exact absurd ((i _ _ ht.left).right.right rfl).left hg.right
  case closed =>
    simp only [done_call, Function.update_apply] at hc
    split at hc
    case isTrue => cases hc
    case isFalse => exact i t c hc
  case block u r =>
    simp only [goto_call, Function.update_apply] at hc
    split at hc
    case isFalse => exact i t c hc
    case isTrue ht =>
      cases hc
      exact ⟨fun hp => absurd hp hg.right, ht ▸ (hg.left.spared i).right, by simp⟩
  -- A thread which is released has had its `START` answered.
  case consume u r =>
    obtain ⟨hr, hn⟩ := hg.left.spared i
    replace hr := hr hg.right
    simp only [consumed_call, Function.update_apply] at hc
    split at hc
    case isFalse =>
      obtain ⟨hs, hi⟩ := i t c hc
      exact ⟨hs.mono (by simp) rfl, hi⟩
    case isTrue ht =>
      simp only [Call.after, hr.left, Option.some.injEq] at hc
      cases hc
      exact ⟨hr.right, ht ▸ hn, by simp⟩
  case started u r =>
    have hr : s.comm.sendStartResult := (i _ _ hg).left
    simp only [startedWith_call, hr, if_true, Function.update_apply] at hc
    split at hc
    case isTrue => cases hc
    case isFalse => exact i t c hc
  case spurious =>
    obtain ⟨hs, hn, hf⟩ := i t c hc
    exact ⟨hs.mono id rfl, fun hm => hn (Finset.mem_of_mem_erase hm), hf⟩
  all_goals first | exact i t c hc | simp [hd] at hg

end State

theorem strandsNobody_iff {s s' : State} {a : Act} (b : s.Blocked) (i : s.StrandsNobody)
    (hx : a.exits → s.handler ≠ .returned) (h : step s a = some s') : s'.StrandsNobody ↔ Timely s a := by
  by_cases ht : a.takesExit s
  case neg =>
    by_cases hd : s.handler = .returned
    case neg =>
      refine iff_of_true (fun hd' => ?_) ⟨fun _ => hd, fun h => absurd h ht⟩
      exact absurd (State.returned_of_step h hd') (not_or.mpr ⟨hd, ht⟩)
    case pos =>
      by_cases hb : a.begins = none
      case pos => exact iff_of_true (i.step hd hb (hx · hd) h) ⟨fun h => absurd hb h, fun h => absurd h ht⟩
      case neg =>
        -- Each call begins on its way to a command.
        refine iff_of_false (fun j => ?_) fun hc => hc.left hb hd
        cases a <;> simp only [Act.begins, not_true] at hb <;>
          simp only [step, Option.ite_none_right_eq_some, Option.some.injEq] at h <;>
          obtain ⟨hg, rfl⟩ := h
        case doPlay t             => exact (j hd t .openCmd (by simp)).left
        case doPause t | doStop t => exact (j hd t (.write .STOP) (by simp)).left
  case pos =>
    obtain ⟨hn, hd, hcall, hf, hp, hr, w, hw, hs⟩ := State.takesExit_step h ht
    constructor
    case mp =>
      refine fun j => ⟨fun _ => hn, fun _ => ⟨?_, fun t c hc => ?_⟩⟩
      · rw [← Mailbox.woken_eq_empty hw, ← hs]
        refine Finset.eq_empty_of_forall_notMem fun t hm => ?_
        rcases b.sync t (Mailbox.woken_subset (hs ▸ hm)) with hc | hc
        all_goals exact (j hd t _ (hcall ▸ hc)).right.left hm
      · exact (j hd t c (hcall ▸ hc)).left.mono (hp ▸ id) hr.symm
    case mpr =>
      intro hc _ t c ht'
      obtain ⟨hw', hs'⟩ := hc.right ht
      rw [hcall] at ht'
      refine ⟨(hs' t c ht').mono (hp ▸ id) hr, ?_, fun _ => hf⟩
      simp [hs, (Mailbox.woken_eq_empty hw).mpr hw']

theorem blind_of_exits {s s' : State} {a : Act} (he : a.exits) (h : step s a = some s') :
    s'.Blind ↔ s.Blind := by
  cases a <;> simp only [Act.exits, Bool.false_eq_true] at he
  case exit w =>
    simp only [step, Option.ite_none_right_eq_some, Option.some.injEq] at h
    obtain ⟨_, rfl⟩ := h
    rfl

-- Only the test of the loop leads to a quiet `select`.
theorem blind_iff {s s' : State} {a : Act} (hb : ¬s.Blind) (h : step s a = some s') :
    ¬s'.Blind ↔ Sees s a := by
  cases a <;> simp only [step, Option.ite_none_right_eq_some, Option.some.injEq] at h <;>
    obtain ⟨hg, rfl⟩ := h
  case loop =>
    by_cases hc : s.comm.cmd = .NONE
    case pos => simp [Sees, Act.loops, State.Blind, hc, or_iff_not_imp_left]
    case neg => simp [Sees, Act.loops, State.Blind, hc]
  all_goals
    refine iff_of_true (fun hb' => ?_) (by simp [Sees, Act.loops])
  case handle | resume => exact HandlerPc.ofTurn_ne_select _ hb'.left
  case checkWake => split at hb' <;> simp [State.Blind] at hb'
  case doRead => simp [State.Blind] at hb'
  case openCmd | exit => exact hb hb'
  case close => simp [State.Blind, close] at hb'
  case answer | babble | hangUp => simp [State.Blind, PlayerFd.Readable, PlayerConn.Readable] at hb'
  case send => simp_all [State.Blind, PlayerFd.Readable]
  case cut  => exact hb (by simpa [State.Blind] using hb')
  all_goals simp_all [State.Blind]

end SnapcastComm
