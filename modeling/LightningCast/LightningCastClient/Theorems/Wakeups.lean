import LightningCast.Library.Wakeups
import LightningCast.LightningCastClient.Basic

namespace LightningCastClient

open Mailbox (Cmd Wakes Blocks)

namespace State

-- Only the server thread calls `Open`, and the main thread is in `Exit`.
def Placed (s : State) : Prop :=
  ∀ t c, s.call t = some c → t = .server ∨ t = .main ∧ s.main = .exiting

-- Where the blocked threads are.
structure Blocked (s : State) : Prop where
  cond : ∀ t ∈ s.cast.cond, t = .client
  sync : s.cast.CallersWait (fun c => c = some .wait ∨ c = some .closeWait) s.call

variable {s s' : State} {a : Act}

theorem Placed.step (i : s.Placed) (h : LightningCastClient.step s a = some s') : s'.Placed := by
  intro t c
  replace i := i t
  cases a <;> simp only [LightningCastClient.step, Option.ite_none_right_eq_some, Option.some.injEq] at h <;>
    obtain ⟨hg, rfl⟩ := h
  case socket | resolve | connect => split <;> exact i c
  all_goals
    simp only [goto_call, done_call, turn_call, goto_main, done_main, turn_main, Function.update_apply]
    grind [TestsReady]

theorem Blocked.turn (i : s.Blocked) {r : Mailbox Thread × Mailbox.Turn}
    (h : Blocks .client s.cast.toMailbox r) : (s.turn r).Blocked where
  cond t ht := (Finset.mem_insert.mp (h.cond ht)).elim id (i.cond t)
  sync      := i.sync.mono rfl h.condSync

theorem Blocked.same (i : s.Blocked) (hcall : s'.call = s.call) (hc : s'.cast.cond ⊆ s.cast.cond)
    (hs : s'.cast.condSync ⊆ s.cast.condSync) : s'.Blocked where
  cond t ht := i.cond t (hc ht)
  sync      := i.sync.mono hcall hs

-- A caller which is not blocked moves on. It may block in `Open` or `Close`.
theorem Blocked.goto (i : s.Blocked) {t : Thread} {c : Option Call} (hn : t ∉ s.cast.condSync)
    (hcall : s'.call = Function.update s.call t c) (hc : s'.cast.cond ⊆ s.cast.cond)
    (hs : s'.cast.condSync ⊆ s.cast.condSync ∨
      s'.cast.condSync ⊆ insert t s.cast.condSync ∧ (c = some .wait ∨ c = some .closeWait)) : s'.Blocked where
  cond u hu := i.cond u (hc hu)
  sync      := i.sync.goto hn hcall hs

theorem Blocked.step (p : s.Placed) (i : s.Blocked) (h : LightningCastClient.step s a = some s') :
    s'.Blocked := by
  cases a <;> simp only [LightningCastClient.step, Option.ite_none_right_eq_some, Option.some.injEq] at h <;>
    obtain ⟨hg, rfl⟩ := h
  -- the handler
  case handle w => exact i.turn Mailbox.handle_blocks
  case resume w => exact i.turn Mailbox.resume_blocks
  case finish w | failFinish w => exact i.same rfl subset_rfl Mailbox.woken_subset
  case spurious t => exact i.same rfl (Finset.erase_subset ..) (Finset.erase_subset ..)
  case socket ok | resolve ok | connect ok ip => cases ok <;> exact i.same rfl subset_rfl subset_rfl
  -- the callers
  case openCall ip =>
    exact i.goto (i.sync.free hg.left (by simp)) rfl subset_rfl (.inl subset_rfl)
  case exitCall =>
    have hn : s.call .main = none := by
      by_contra hc
      obtain ⟨c, hc⟩ := Option.ne_none_iff_exists'.mp hc
      simpa [hg] using p .main c hc
    exact i.goto (i.sync.free hn (by simp)) rfl subset_rfl (.inl subset_rfl)
  case getIsOpen t | doStop t | stopped t =>
    exact i.goto (i.sync.free hg (by simp)) rfl subset_rfl (.inl subset_rfl)
  case close t w =>
    exact i.goto (i.sync.free hg.left (by simp)) rfl Mailbox.woken_subset (.inr ⟨subset_rfl, .inr rfl⟩)
  case openCmd w =>
    exact i.goto (i.sync.free hg.left (by simp)) rfl Mailbox.woken_subset (.inr ⟨subset_rfl, .inl rfl⟩)
  case exit w =>
    exact i.goto (i.sync.free hg.left (by simp)) rfl Mailbox.woken_subset (.inl subset_rfl)
  case rewait t =>
    have ⟨hn, hc⟩ : t ∉ s.cast.condSync ∧ (s.call t = some .wait ∨ s.call t = some .closeWait) := by
      rcases hg.left with h | h
      · exact ⟨h.right, .inl h.left⟩
      · exact ⟨h.right, .inr h.left⟩
    exact i.goto hn (Function.update_eq_self t s.call).symm subset_rfl (.inr ⟨subset_rfl, hc⟩)
  case closed t => exact i.goto hg.left.right rfl subset_rfl (.inl subset_rfl)
  case opened   => exact i.goto hg.left.right rfl subset_rfl (.inl subset_rfl)
  all_goals exact i.same rfl subset_rfl subset_rfl

end State

-- No thread is blocked while its predicate holds and the notification for it has been issued.
def State.AllWoken (s : State) : Prop :=
  s.cast.toMailbox.AllWoken .client

-- The action with another choice of the thread which its notification wakes.
def Act.waking (w : Option Thread) : Act → Act
  | .openCmd _    => .openCmd w
  | .close t _    => .close t w
  | .exit _       => .exit w
  | .handle _     => .handle w
  | .resume _     => .resume w
  | .finish _     => .finish w
  | .failFinish _ => .failFinish w
  | a             => a

-- Whichever thread is woken, none is left behind.
def WakesAll (s : State) (a : Act) : Prop :=
  ∀ w s', step s (a.waking w) = some s' → s'.AllWoken

-- The action finishes the call of a command.
def Act.finishes (s : State) : Act → Bool
  | .finish _ | .failFinish _ => true
  | .handle _                 => s.cast.Finishes
  | .resume _                 => s.cast.ready ∧ s.cast.Finishes
  | _                         => false

-- A notification is issued to at most one thread which waits for it. On `cond` only the handler waits.
def Alone (s : State) (a : Act) : Prop :=
  a.finishes s → s.cast.condSync.card ≤ 1

instance (s : State) (a : Act) : Decidable (Alone s a) :=
  inferInstanceAs (Decidable (_ → _))

variable {s s' : State} {a : Act}

theorem Act.exists_waking (a : Act) : ∃ w, a.waking w = a := by
  cases a
  case openCmd w | close t w | exit w | handle w | resume w | finish w | failFinish w => exact ⟨w, rfl⟩
  all_goals exact ⟨none, rfl⟩

-- A command is posted to the handler, or to nobody.
theorem State.Blocked.post (b : s.Blocked) {c : Cmd} {w : Option Thread} (hw : Wakes s.cast.cond w) :
    (s.cast.toMailbox.post c w).AllWoken .client := by
  refine Mailbox.allWoken_post_iff.mpr (fun _ => ?_) w hw
  exact Finset.card_le_one.mpr fun t ht u hu => (b.cond t ht).trans (b.cond u hu).symm

-- A step which finishes no command leaves nobody behind.
theorem State.AllWoken.step_silent (b : s.Blocked) (i : s.AllWoken) (hf : ¬a.finishes s)
    (h : LightningCastClient.step s a = some s') : s'.AllWoken := by
  cases a <;> simp only [LightningCastClient.step, Option.ite_none_right_eq_some, Option.some.injEq] at h <;>
    obtain ⟨hg, rfl⟩ := h
  case finish | failFinish => exact absurd rfl hf
  case openCmd w | close t w => exact (b.post hg.right).await (by simp [Mailbox.post])
  case exit w => exact b.post hg.right
  case handle w =>
    have hm := Mailbox.AllWoken.handle_iff i
    exact hm.mpr (fun h => absurd h (by simpa [Act.finishes] using hf)) w hg.right
  case resume w =>
    have hm := Mailbox.AllWoken.resume_iff i
    exact hm.mpr (fun hr h => absurd h (by simpa [Act.finishes, hr] using hf)) w hg.right.right
  case rewait t   => exact Mailbox.AllWoken.await i hg.right
  case spurious t => exact Mailbox.AllWoken.spurious i
  case socket ok | resolve ok | connect ok ip => cases ok <;> exact i
  all_goals exact i

theorem wakesAll_iff (b : s.Blocked) (i : s.AllWoken) (h : step s a = some s') :
    WakesAll s a ↔ Alone s a := by
  cases a
  case finish w | failFinish w =>
    simp only [step, Option.ite_none_right_eq_some] at h
    have hf := Mailbox.AllWoken.finishCmd_iff i
    simpa [WakesAll, State.AllWoken, Act.waking, step, h.left.left, lockFinishCmd, Alone,
      Act.finishes] using hf
  case handle w =>
    simp only [step, Option.ite_none_right_eq_some] at h
    have hm := Mailbox.AllWoken.handle_iff i
    simpa [WakesAll, State.AllWoken, Act.waking, step, h.left.left, State.turn, Alone,
      Act.finishes] using hm
  case resume w =>
    simp only [step, Option.ite_none_right_eq_some] at h
    have hm := Mailbox.AllWoken.resume_iff i
    simpa [WakesAll, State.AllWoken, Act.waking, step, h.left.left, h.left.right.left, State.turn, Alone,
      Act.finishes] using hm
  all_goals
    refine iff_of_true (fun w s' h => ?_) (by simp [Alone, Act.finishes])
    simp only [Act.waking] at h
    exact i.step_silent b (by simp [Act.finishes]) h

theorem placed {s : State} (h : machine.Reachable s) : s.Placed :=
  h.invariant (by simp [State.Placed, machine]) State.Placed.step

theorem blocked {s : State} (h : machine.Reachable s) : s.Blocked := by
  have hi := h.invariant (P := fun s => s.Placed ∧ s.Blocked)
    ⟨by simp [State.Placed, machine], by simp [machine], by simp [machine, Mailbox.CallersWait]⟩
    fun i h => ⟨i.left.step h, i.right.step i.left h⟩
  exact hi.right

end LightningCastClient
