import LightningCast.SnapcastComm.Theorems.Connection

namespace SnapcastComm

open Mailbox (Handles Turn)

-- How many calls of `Open` have been posted, how many had been when a thread last posted its `Close`, and
-- the number of the one which the handler has last begun to serve.
structure Posts where
  opens   : Nat          := 0
  closeAt : Thread → Nat := fun _ => 0
  served  : Nat          := 0

namespace Posts

def serve (g : Posts) : Turn → Posts
  | .doOpen       => { g with served := g.opens }
  | .wait | .exit => g

def note (s : State) (a : Act) (g : Posts) : Posts :=
  match a with
  | .openCmd ..  => { g with opens := g.opens + 1 }
  | .close t _   => { g with closeAt := Function.update g.closeAt t g.opens }
  | .handle w    => g.serve (s.comm.toMailbox.handle .snapcast w).2
  | .resume w    => g.serve (s.comm.toMailbox.resume .snapcast w).2
  | _            => g

end Posts

-- When a `Close` can return, a connection to the player has been opened for an `Open` which was posted
-- after it.
def State.KeepsPromise (s : State) (g : Posts) : Prop :=
  ∀ t k, s.TestsReady t .closeWait → s.comm.Finished → s.comm.serverFd = .conn k → g.closeAt t < g.served

def Act.closes : Act → Bool
  | .close .. => true
  | _         => false

-- `Close` is not posted while the handler serves an `Open`.
def ClosesAside (s : State) (a : Act) : Prop :=
  a.closes → s.handler.phase ≠ .serving

instance (s : State) (a : Act) : Decidable (ClosesAside s a) :=
  inferInstanceAs (Decidable (_ → _))

-- While a thread waits in `Close`, an `Open` in the slot or in service was posted after it, and a session
-- which was not is about to end.
structure State.Promised (s : State) (g : Posts) : Prop where
  posted  : ∀ t, g.closeAt t ≤ g.opens
  slot    : ∀ t, s.call t = some .closeWait → s.comm.cmd = .OPEN → g.closeAt t < g.opens
  serving : ∀ t, s.call t = some .closeWait → s.handler.phase = .serving → g.closeAt t < g.served
  session : ∀ t, s.call t = some .closeWait → s.handler.phase = .session →
    s.comm.cmd ≠ .NONE ∨ g.closeAt t < g.served

namespace State

variable {s s' : State} {a : Act} {g : Posts}

theorem Promised.keepsPromise (i : s.Promised g) (hr : machine.Reachable s) : s.KeepsPromise g := by
  rintro t k ⟨ht, _⟩ ⟨_, hc⟩ hk
  cases hp : s.handler.phase
  case outside => simp [serverFd_eq_none hr hp] at hk
  case serving => exact i.serving t ht hp
  case session => exact (i.session t ht hp).resolve_left (absurd hc)

-- Neither the slot nor the phase changes, and nobody begins to wait.
theorem Promised.same (i : s.Promised g) (hcall : ∀ t, s'.call t = some .closeWait → s.call t = some .closeWait)
    (hcmd : s'.comm.cmd = s.comm.cmd) (hp : s'.handler.phase = s.handler.phase) : s'.Promised g where
  posted       := i.posted
  slot t h     := hcmd ▸ i.slot t (hcall t h)
  serving t h  := hp ▸ i.serving t (hcall t h)
  session t h  := by rw [hcmd, hp]; exact i.session t (hcall t h)

-- Outside `do_open` only the slot matters.
theorem Promised.outside (i : s.Promised g) (hcall : s'.call = s.call) (hp : s'.handler.phase = .outside)
    (hcmd : s'.comm.cmd = .OPEN → s.comm.cmd = .OPEN) : s'.Promised g where
  posted         := i.posted
  slot t h hc    := i.slot t (hcall ▸ h) (hcmd hc)
  serving _ _ hs := by simp [hp] at hs
  session _ _ hs := by simp [hp] at hs

theorem Promised.turn (i : s.Promised g) {r : Mailbox Thread × Turn}
    (h : Handles s.comm.toMailbox r.1 r.2) : (s.turn r).Promised (g.serve r.2) := by
  obtain ⟨m, turn⟩ := r
  cases h
  case doOpen hc _ _ =>
    constructor
    case posted  => exact i.posted
    case slot    => exact fun t ht _ => i.slot t ht hc
    case serving => exact fun t ht _ => i.slot t ht hc
    case session => exact fun _ _ hs => by cases hs
  case close _ hc _ => exact i.outside rfl rfl fun h => by cases hc.symm.trans h
  case wait hc _    => exact i.outside rfl rfl fun h => hc.symm.trans h
  case exit _ hc _  => exact i.outside rfl rfl fun h => by cases hc.symm.trans h

-- A thread moves on, and not into a wait for `CLOSE`.
theorem closeWait_of_update {t u : Thread} {c : Option Call} (hc : c ≠ some .closeWait)
    (h : Function.update s.call t c u = some .closeWait) : s.call u = some .closeWait := by
  rw [Function.update_apply] at h
  split at h
  · exact absurd h hc
  · exact h

theorem Promised.step (i : s.Promised g) (hc : ClosesAside s a) (h : SnapcastComm.step s a = some s') :
    s'.Promised (Posts.note s a g) := by
  cases a <;> simp only [SnapcastComm.step, Option.ite_none_right_eq_some, Option.some.injEq] at h <;>
    obtain ⟨hg, rfl⟩ := h <;> simp only [Posts.note]
  case openCmd t w =>
    constructor
    case posted  => exact fun u => (i.posted u).trans (Nat.le_succ _)
    case slot    => exact fun u _ _ => Nat.lt_succ_of_le (i.posted u)
    case serving => exact fun u hu => i.serving u (closeWait_of_update (c := some .openWait) (by simp) hu)
    case session => exact fun _ _ _ => .inl (by simp [SnapcastComm.openCmd])
  case close t w =>
    constructor
    case posted =>
      intro u
      simp only [Function.update_apply]
      split
      · exact le_refl _
      · exact i.posted u
    case slot    => exact fun _ _ h => by cases h
    case serving => exact fun _ _ hs => absurd hs (hc rfl)
    case session => exact fun _ _ _ => .inl (by simp [SnapcastComm.close])
  case exit w =>
    constructor
    case posted  => exact i.posted
    case slot    => exact fun _ _ h => by cases h
    case serving => exact i.serving
    case session => exact fun _ _ _ => .inl (by simp [SnapcastComm.exit])
  case handle w => exact i.turn (Mailbox.handle_handles ..)
  case resume w => exact i.turn (Mailbox.resume_handles ..)
  case finish w =>
    constructor
    case posted  => exact i.posted
    case slot    => exact fun _ _ h => by cases h
    case serving => exact fun _ _ h => by cases h
    case session => exact fun t ht _ => .inr <| i.serving t ht (by rw [hg.left]; rfl)
  case teardown => exact i.outside rfl rfl id
  case socket | connect =>
    exact i.same (fun _ => id) rfl (by simp [hg, HandlerPc.phase])
  case doRead wake k =>
    exact i.same (by simp) (by simp) (by rw [read_phase, hg.left]; rfl)
  case loop | checkWake => split <;> exact i.same (fun _ => id) rfl (by simp [hg, HandlerPc.phase])
  case consume t r =>
    refine i.same (fun _ => closeWait_of_update ?_) rfl rfl
    unfold Call.after
    split <;> simp
  case started t r =>
    refine i.same (fun _ => closeWait_of_update ?_) rfl rfl
    split <;> simp
  case rewait | answer | babble | hangUp | spurious => exact i.same (fun _ => id) rfl rfl
  case select | selectError | readWake | parse | lockSignal | notify | scanned =>
    exact i.same (fun _ => id) rfl (by simp [hg, HandlerPc.phase])
  all_goals exact i.same (fun _ => closeWait_of_update (by simp)) rfl rfl

end State

-- The machine with its posts.
def posting : Machine (State × Posts) Act :=
  machine.observe {} Posts.note

theorem promised {as : List Act} {s : State × Posts} (hc : posting.Meets (fun s => ClosesAside s.1) as)
    (he : posting.exec posting.init as = some s) : s.1.Promised s.2 := by
  refine hc.invariant he (P := fun s => s.1.Promised s.2) ?_ ?_
  · constructor <;> simp [posting, machine, Machine.observe]
  · intro s a s' _ i hc h
    obtain ⟨h, hn⟩ := Machine.step_observe.mp h
    exact hn ▸ i.step hc h

-- In a run in which every `Close` is posted aside from `do_open`, every `Close` keeps its promise.
theorem close_keeps {as : List Act} {s : State × Posts} (hc : posting.Meets (fun s => ClosesAside s.1) as)
    (he : posting.exec posting.init as = some s) : s.1.KeepsPromise s.2 :=
  (promised hc he).keepsPromise ⟨as, Machine.exec_observe.mpr ⟨s.2, he⟩⟩

end SnapcastComm
