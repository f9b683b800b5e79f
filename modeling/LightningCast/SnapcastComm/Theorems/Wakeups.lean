import LightningCast.Library.Wakeups
import LightningCast.SnapcastComm.Basic

namespace SnapcastComm

open Mailbox (Wakes Blocks)
open Thread

namespace State

-- Where the blocked threads are.
structure Blocked (s : State) : Prop where
  handler : snapcast ∈ s.comm.cond → s.handler = .wait
  caller  : s.call snapcast = none
  sync    : s.comm.CallersWait (fun c => c = some .openWait ∨ c = some .closeWait) s.call

variable {s s' : State} {a : Act}

theorem Blocked.turn (i : s.Blocked) (hn : snapcast ∉ s.comm.cond) {r : Mailbox Thread × Mailbox.Turn}
    (h : Blocks snapcast s.comm.toMailbox r) : (s.turn r).Blocked where
  handler hm := by simp [State.turn, (h.handler hm).resolve_left hn, HandlerPc.ofTurn]
  caller     := i.caller
  sync       := i.sync.mono rfl h.condSync

-- Nobody blocks, and the handler moves only if it is not blocked.
theorem Blocked.same (i : s.Blocked) (hcall : s'.call = s.call) (hc : s'.comm.cond ⊆ s.comm.cond)
    (hs : s'.comm.condSync ⊆ s.comm.condSync) (hh : s'.handler = s.handler ∨ s.handler ≠ .wait) :
    s'.Blocked where
  handler hm := (hh.resolve_right (not_not.mpr (i.handler (hc hm)))).trans (i.handler (hc hm))
  caller     := hcall ▸ i.caller
  sync       := i.sync.mono hcall hs

-- A caller which is not blocked moves on. It may block in `Open`, `Close` or `LockWait`.
theorem Blocked.goto (i : s.Blocked) {t : Thread} {c : Option Call} (hn : t ∉ s.comm.condSync)
    (ht : t ≠ snapcast) (hcall : s'.call = Function.update s.call t c) (hh : s'.handler = s.handler)
    (hc : s'.comm.cond ⊆ insert t s.comm.cond)
    (hs : s'.comm.condSync ⊆ s.comm.condSync ∨
      s'.comm.condSync ⊆ insert t s.comm.condSync ∧ (c = some .openWait ∨ c = some .closeWait)) :
    s'.Blocked where
  handler hm := by
    rw [hh]
    rcases Finset.mem_insert.mp (hc hm) with h | h
    · exact absurd h.symm ht
    · exact i.handler h
  caller     := by rw [hcall, Function.update_of_ne (Ne.symm ht), i.caller]
  sync       := i.sync.goto hn hcall hs

theorem Blocked.not_handler (i : s.Blocked) {t : Thread} {c : Call} (hc : s.call t = some c) :
    t ≠ snapcast := by
  rintro rfl
  cases hc.symm.trans i.caller

theorem Blocked.pending (i : s.Blocked) {t : Thread} {r : Request} (h : s.TestsPending t r) :
    t ∉ s.comm.condSync ∧ t ≠ snapcast := by
  rcases h with h | ⟨h, _⟩
  all_goals exact ⟨i.sync.free h (by simp), i.not_handler h⟩

theorem Blocked.step (i : s.Blocked) (h : SnapcastComm.step s a = some s') : s'.Blocked := by
  cases a <;> simp only [SnapcastComm.step, Option.ite_none_right_eq_some, Option.some.injEq] at h <;>
    obtain ⟨hg, rfl⟩ := h
  -- the handler
  case handle w =>
    exact i.turn (fun hm => by simpa [hg.left] using i.handler hm) Mailbox.handle_blocks
  case resume w => exact i.turn hg.right.left Mailbox.resume_blocks
  case finish w =>
    exact i.same rfl subset_rfl Mailbox.woken_subset (.inr (by simp [hg.left]))
  case notify wake w =>
    exact i.same rfl Mailbox.woken_subset subset_rfl (.inr (by simp [hg.left]))
  case doRead wake k =>
    exact i.same (by simp) (by simp) (by simp) (.inr (by simp [hg.left]))
  case loop | checkWake | connect | teardown | socket =>
    exact i.same rfl subset_rfl subset_rfl (.inr (by simp [hg]))
  case selectError | readWake | parse | lockSignal | scanned =>
    exact i.same rfl subset_rfl subset_rfl (.inr (by simp [hg]))
  case select => exact i.same rfl subset_rfl subset_rfl (.inr (by simp [hg.left]))
  -- the player, and wake-ups without a notification
  case answer | babble | hangUp => exact i.same rfl subset_rfl subset_rfl (.inl rfl)
  case spurious t => exact i.same rfl (Finset.erase_subset ..) (Finset.erase_subset ..) (.inl rfl)
  -- the callers
  case exit w => exact i.same rfl Mailbox.woken_subset subset_rfl (.inl rfl)
  case openCmd t w =>
    exact i.goto (i.sync.free hg.left (by simp)) (i.not_handler hg.left) rfl rfl
      (Mailbox.woken_subset.trans (Finset.subset_insert ..)) (.inr ⟨subset_rfl, .inl rfl⟩)
  case close t w =>
    exact i.goto (i.sync.free hg.left (by simp)) (i.not_handler hg.left) rfl rfl
      (Mailbox.woken_subset.trans (Finset.subset_insert ..)) (.inr ⟨subset_rfl, .inr rfl⟩)
  case rewait t =>
    have ⟨hn, hc⟩ : t ∉ s.comm.condSync ∧ (s.call t = some .openWait ∨ s.call t = some .closeWait) := by
      rcases hg.left with h | h
      · exact ⟨h.right, .inl h.left⟩
      · exact ⟨h.right, .inr h.left⟩
    have ht : t ≠ snapcast := hc.elim i.not_handler i.not_handler
    exact i.goto hn ht (Function.update_eq_self t s.call).symm rfl (Finset.subset_insert ..)
      (.inr ⟨subset_rfl, hc⟩)
  case opened t | closed t =>
    exact i.goto hg.left.right (i.not_handler hg.left.left) rfl rfl (Finset.subset_insert ..)
      (.inl subset_rfl)
  case doPlay t | doPause t =>
    exact i.goto (i.sync.free hg.right (by simp)) (by simp [hg.left]) rfl rfl (Finset.subset_insert ..)
      (.inl subset_rfl)
  case doStop t =>
    exact i.goto (i.sync.free hg.right (by simp)) hg.left rfl rfl (Finset.subset_insert ..)
      (.inl subset_rfl)
  case reset t | started t r =>
    exact i.goto (i.sync.free hg (by simp)) (i.not_handler hg) rfl rfl (Finset.subset_insert ..)
      (.inl subset_rfl)
  case refuse t c | send t c k | cut t c part =>
    exact i.goto (i.sync.free hg.left (by simp)) (i.not_handler hg.left) rfl rfl
      (Finset.subset_insert ..) (.inl subset_rfl)
  case block t r =>
    have ⟨hn, ht⟩ := i.pending hg.left
    exact i.goto hn ht rfl rfl subset_rfl (.inl subset_rfl)
  case consume t r =>
    have ⟨hn, ht⟩ := i.pending hg.left
    exact i.goto hn ht rfl rfl (Finset.subset_insert ..) (.inl subset_rfl)

end State

-- No thread is blocked while its predicate holds and the notification for it has been issued.
structure State.AllWoken (s : State) : Prop where
  mailbox : s.comm.toMailbox.AllWoken snapcast
  pending : s.comm.pending → (∀ wake, s.handler ≠ .notify wake) → ∀ t ∈ s.comm.cond, t = snapcast

-- The action with another choice of the thread which its notification wakes.
def Act.waking (w : Option Thread) : Act → Act
  | .openCmd t _     => .openCmd t w
  | .close t _       => .close t w
  | .exit _          => .exit w
  | .handle _        => .handle w
  | .resume _        => .resume w
  | .finish _        => .finish w
  | .notify wake _   => .notify wake w
  | a                => a

-- Whichever thread is woken, none is left behind.
def WakesAll (s : State) (a : Act) : Prop :=
  ∀ w s', step s (a.waking w) = some s' → s'.AllWoken

def Act.posts : Act → Bool
  | .openCmd .. | .close .. | .exit _ => true
  | _                                 => false

def Act.notifies : Act → Bool
  | .notify .. => true
  | _          => false

-- The action finishes the call of a command.
def Act.finishes (s : State) : Act → Bool
  | .finish _ => true
  | .handle _ => s.comm.Finishes
  | .resume _ => s.comm.ready ∧ s.comm.Finishes
  | _         => false

-- A notification is issued to at most one thread which waits for it.
def Alone (s : State) (a : Act) : Prop :=
  (a.posts → snapcast ∈ s.comm.cond → s.comm.cond.card ≤ 1) ∧
  (a.notifies → s.comm.pending → s.comm.cond.card ≤ 1) ∧
  (a.finishes s → s.comm.condSync.card ≤ 1)

instance (s : State) (a : Act) : Decidable (Alone s a) :=
  inferInstanceAs (Decidable (_ ∧ _ ∧ _))

variable {s s' : State} {a : Act}

theorem Act.exists_waking (a : Act) : ∃ w, a.waking w = a := by
  cases a
  case openCmd t w | close t w | exit w | handle w | resume w | finish w | notify _ w => exact ⟨w, rfl⟩
  all_goals exact ⟨none, rfl⟩

-- The steps which notify nobody.
theorem State.AllWoken.same (i : s.AllWoken) (hm : s'.comm.toMailbox.AllWoken snapcast)
    (hp : s'.comm.pending → s.comm.pending) (hc : s'.comm.cond ⊆ insert snapcast s.comm.cond)
    (hh : (∀ wake, s'.handler ≠ .notify wake) → ∀ wake, s.handler ≠ .notify wake) : s'.AllWoken where
  mailbox := hm
  pending h hn t ht := by
    rcases Finset.mem_insert.mp (hc ht) with ht | ht
    · exact ht
    · exact i.pending (hp h) (hh hn) t ht

theorem wakesAll_iff_of {f : Option Thread → State} {P : Option Thread → Prop}
    (h : ∀ w s', step s (a.waking w) = some s' ↔ P w ∧ f w = s') :
    WakesAll s a ↔ ∀ w, P w → (f w).AllWoken := by
  simp [WakesAll, h]

-- A region of the mailbox which notifies, and leaves the rest to `AllWoken.same`.
theorem wakesAll_iff_mailbox {f : Option Thread → State} {P : Option Thread → Prop}
    (i : s.AllWoken) (h : ∀ w s', step s (a.waking w) = some s' ↔ P w ∧ f w = s')
    (hf : ∀ w, (f w).comm.pending = s.comm.pending ∧ (f w).comm.cond ⊆ insert snapcast s.comm.cond ∧
      ((∀ wake, (f w).handler ≠ .notify wake) → ∀ wake, s.handler ≠ .notify wake)) :
    WakesAll s a ↔ ∀ w, P w → (f w).comm.toMailbox.AllWoken snapcast := by
  rw [wakesAll_iff_of h]
  refine forall₂_congr fun w _ => ⟨fun j => j.mailbox, fun hm => ?_⟩
  obtain ⟨hp, hc, hh⟩ := hf w
  exact i.same hm (fun h => hp ▸ h) hc hh

theorem wakesAll_post {f : Option Thread → State} {P : Prop} (i : s.AllWoken) {c : Mailbox.Cmd}
    {t : Option Thread} (h : ∀ w s', step s (a.waking w) = some s' ↔ (P ∧ Wakes s.comm.cond w) ∧ f w = s')
    (hP : P)
    (hm : ∀ w, (f w).comm.toMailbox =
      t.elim (s.comm.toMailbox.post c w) ((s.comm.toMailbox.post c w).await ·))
    (hp : ∀ w, (f w).comm.pending = s.comm.pending) (hh : ∀ w, (f w).handler = s.handler) :
    WakesAll s a ↔ (snapcast ∈ s.comm.cond → s.comm.cond.card ≤ 1) := by
  have hc : ∀ w, (f w).comm.cond ⊆ insert snapcast s.comm.cond := by
    intro w
    rw [hm w]
    cases t <;> exact Mailbox.woken_subset.trans (Finset.subset_insert ..)
  rw [wakesAll_iff_mailbox i h fun w => ⟨hp w, hc w, by simp [hh w]⟩, ← Mailbox.allWoken_post_iff (c := c)]
  simp only [hP, true_and, hm]
  refine forall₂_congr fun w _ => ?_
  cases t
  case none   => rfl
  case some t => exact ⟨fun j => ⟨j.ready, by simp⟩, fun j => j.await (by simp)⟩

-- A step which notifies nobody leaves nobody behind.
theorem State.AllWoken.step_silent (b : s.Blocked) (i : s.AllWoken) (hp : ¬a.posts) (hn : ¬a.notifies)
    (hf : ¬a.finishes s) (h : SnapcastComm.step s a = some s') : s'.AllWoken := by
  cases a <;> simp only [SnapcastComm.step, Option.ite_none_right_eq_some, Option.some.injEq] at h <;>
    obtain ⟨hg, rfl⟩ := h
  case openCmd | close | exit => exact absurd rfl hp
  case notify => exact absurd rfl hn
  case finish => exact absurd rfl hf
  case handle w =>
    have hm := i.mailbox.handle_iff.mpr (fun h => absurd h (by simpa [Act.finishes] using hf)) w hg.right
    exact i.same hm id Mailbox.handle_blocks.cond (by simp [hg.left])
  case resume w =>
    have hm := i.mailbox.resume_iff.mpr (fun hr h => absurd h (by simpa [Act.finishes, hr] using hf)) w
      hg.right.right
    exact i.same hm id Mailbox.resume_blocks.cond (by simp [hg.left])
  case rewait t => exact i.same (i.mailbox.await hg.right) id (Finset.subset_insert ..) id
  case spurious t =>
    exact i.same i.mailbox.spurious id ((Finset.erase_subset ..).trans (Finset.subset_insert ..)) id
  -- A thread blocks in `LockWait` only while `pending` is false.
  case block t r =>
    have ⟨_, ht⟩ := b.pending hg.left
    refine ⟨⟨fun hr hm => ?_, i.mailbox.readySync⟩, fun hp => absurd hp hg.right⟩
    rcases Finset.mem_insert.mp hm with h | h
    · exact ht h.symm
    · exact i.mailbox.ready hr h
  case consume t r => exact ⟨⟨i.mailbox.ready, i.mailbox.readySync⟩, fun hp => by simp at hp⟩
  -- `LockSignal` is about to notify.
  case lockSignal r wake => exact ⟨⟨i.mailbox.ready, i.mailbox.readySync⟩, fun _ hn => absurd rfl (hn wake)⟩
  case doRead wake k =>
    exact i.same (by simpa using i.mailbox) (by simp) (by simp) (by simp [hg.left])
  case loop | checkWake =>
    exact i.same ⟨i.mailbox.ready, i.mailbox.readySync⟩ id (Finset.subset_insert ..) (by simp [hg])
  case socket | connect | teardown | select | selectError | readWake | parse | scanned =>
    exact i.same ⟨i.mailbox.ready, i.mailbox.readySync⟩ id (Finset.subset_insert ..) (by simp [hg])
  all_goals exact i.same ⟨i.mailbox.ready, i.mailbox.readySync⟩ id (Finset.subset_insert ..) id

-- `notify_one` of the condition which has become true leaves nobody behind if at most one thread waits.
theorem wakesAll_notify (b : s.Blocked) (i : s.AllWoken) {wake : Bool} {w : Option Thread}
    (hg : s.handler = .notify wake) :
    WakesAll s (.notify wake w) ↔ (s.comm.pending → s.comm.cond.card ≤ 1) := by
  have hn : snapcast ∉ s.comm.cond := fun hm => by simpa [hg] using b.handler hm
  have hw : ∀ w, Mailbox.woken s.comm.cond w = ∅ ↔ ∀ t ∈ Mailbox.woken s.comm.cond w, t = snapcast := by
    intro w
    refine ⟨fun he => by simp [he], fun ht => Finset.eq_empty_of_forall_notMem fun t hm => ?_⟩
    exact hn (Mailbox.woken_subset (ht t hm ▸ hm))
  rw [wakesAll_iff_of (f := fun w => { s with
    comm    := { s.comm with cond := Mailbox.woken s.comm.cond w }
    handler := .scan wake false }) (P := fun w => Wakes s.comm.cond w) (by simp [Act.waking, step, hg])]
  rw [← Mailbox.woken_eq_empty_iff]
  simp only [hw]
  constructor
  case mp  => exact fun j hp w hwk => (j w hwk).pending hp (by simp)
  case mpr =>
    intro j w hwk
    refine ⟨⟨fun _ hm => hn (Mailbox.woken_subset hm), i.mailbox.readySync⟩, fun hp _ => j hp w hwk⟩

theorem wakesAll_iff (b : s.Blocked) (i : s.AllWoken) (h : step s a = some s') :
    WakesAll s a ↔ Alone s a := by
  cases a <;> have hg := h <;> simp only [step, Option.ite_none_right_eq_some] at hg <;>
    replace hg := hg.left
  case openCmd t w =>
    rw [wakesAll_post i (c := .OPEN) (t := some t) (P := s.call t = some .openCmd)
      (f := fun w => { s.goto t .openWait with comm := s.comm.openCmd t w })
      (by simp [Act.waking, step]) hg.left (by simp [openCmd]) (by simp [openCmd]) (by simp)]
    simp [Alone, Act.posts, Act.notifies, Act.finishes]
  case close t w =>
    rw [wakesAll_post i (c := .CLOSE) (t := some t) (P := s.call t = some .close)
      (f := fun w => { s.goto t .closeWait with comm := s.comm.close t w })
      (by simp [Act.waking, step]) hg.left (by simp [close]) (by simp [close]) (by simp)]
    simp [Alone, Act.posts, Act.notifies, Act.finishes]
  case exit w =>
    rw [wakesAll_post i (c := .EXIT) (t := none) (P := True) (f := fun w => { s with comm := s.comm.exit w })
      (by simp [Act.waking, step]) trivial (by simp [exit]) (by simp [exit]) (by simp)]
    simp [Alone, Act.posts, Act.notifies, Act.finishes]
  case finish w =>
    rw [wakesAll_iff_mailbox i (f := fun w => { s with comm := s.comm.lockFinishCmd w, handler := .loop })
      (P := fun w => Wakes s.comm.condSync w) (by simp [Act.waking, step, hg.left])
      (fun w => ⟨rfl, Finset.subset_insert .., by simp [hg.left]⟩)]
    refine .trans i.mailbox.finishCmd_iff ?_
    simp [Alone, Act.posts, Act.notifies, Act.finishes]
  case handle w =>
    rw [wakesAll_iff_mailbox i (f := fun w => s.turn (s.comm.toMailbox.handle snapcast w))
      (P := fun w => s.comm.HandleWakes w) (by simp [Act.waking, step, hg.left])
      (fun w => ⟨rfl, Mailbox.handle_blocks.cond, by simp [hg.left]⟩)]
    refine .trans i.mailbox.handle_iff ?_
    simp [Alone, Act.posts, Act.notifies, Act.finishes]
  case resume w =>
    rw [wakesAll_iff_mailbox i (f := fun w => s.turn (s.comm.toMailbox.resume snapcast w))
      (P := fun w => s.comm.ResumeWakes w) (by simp [Act.waking, step, hg.left, hg.right.left])
      (fun w => ⟨rfl, Mailbox.resume_blocks.cond, by simp [hg.left]⟩)]
    refine .trans i.mailbox.resume_iff ?_
    simp [Alone, Act.posts, Act.notifies, Act.finishes]
  case notify wake w =>
    rw [wakesAll_notify b i hg.left]
    simp [Alone, Act.posts, Act.notifies, Act.finishes]
  all_goals
    refine iff_of_true (fun w s' h => ?_) (by simp [Alone, Act.posts, Act.notifies, Act.finishes])
    simp only [Act.waking] at h
    exact i.step_silent b (by simp [Act.posts]) (by simp [Act.notifies]) (by simp [Act.finishes]) h

theorem blocked {s : State} (h : machine.Reachable s) : s.Blocked :=
  h.invariant ⟨by simp [machine], by simp [machine], by simp [machine, Mailbox.CallersWait]⟩ State.Blocked.step

end SnapcastComm
