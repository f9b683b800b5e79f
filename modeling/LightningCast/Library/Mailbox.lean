import LightningCast.Library.Machine
import Mathlib.Data.Finset.Insert
import Mathlib.Data.Finset.Erase

-- A one-slot command mailbox between any number of threads and one handler thread, guarded by one
-- mutex, with one condition variable for each direction. A condition variable is the set of threads
-- which are blocked on it.

inductive Mailbox.Cmd
  | NONE
  | OPEN
  | CLOSE
  | EXIT
deriving DecidableEq

structure Mailbox (T : Type) where
  cmd       : Mailbox.Cmd := .NONE
  ready     : Bool        := false
  readySync : Bool        := false
  cond      : Finset T    := ∅
  condSync  : Finset T    := ∅

namespace Mailbox

variable {T : Type} [DecidableEq T]

-- The threads which a `notify_one` on the blocked threads `ws` can wake: any one of them, and none
-- only if none is blocked.
def Wakes (ws : Finset T) : Option T → Prop
  | none   => ws = ∅
  | some t => t ∈ ws

instance (ws : Finset T) : (w : Option T) → Decidable (Wakes ws w)
  | none   => inferInstanceAs (Decidable (ws = ∅))
  | some t => inferInstanceAs (Decidable (t ∈ ws))

def woken (ws : Finset T) : Option T → Finset T
  | none   => ws
  | some t => ws.erase t

-- The region of a thread which posts `c`, up to the point where it starts to wait for the handler or
-- releases the mutex. The notification wakes `w`.
def post (c : Cmd) (w : Option T) (m : Mailbox T) : Mailbox T :=
  { m with cmd := c, ready := true, readySync := false, cond := woken m.cond w }

-- Thread `t` blocks until the handler has finished.
def await (t : T) (m : Mailbox T) : Mailbox T :=
  { m with condSync := insert t m.condSync }

-- Thread `t` wakes up without a notification.
def spurious (t : T) (m : Mailbox T) : Mailbox T :=
  { m with cond := m.cond.erase t, condSync := m.condSync.erase t }

-- A poster which has been woken leaves its loop.
def Finished (m : Mailbox T) : Prop :=
  m.readySync ∧ m.cmd = .NONE

instance (m : Mailbox T) : Decidable m.Finished :=
  inferInstanceAs (Decidable (_ ∧ _))

def finishCmd (w : Option T) (m : Mailbox T) : Mailbox T :=
  { m with cmd := .NONE, readySync := true, condSync := woken m.condSync w }

-- Where the handler's region ends: with the mutex released to serve an `OPEN`, blocked, or for good.
inductive Turn
  | doOpen
  | wait
  | exit
deriving DecidableEq

-- In an empty mailbox a set `ready` flag is consumed by the handler's wait without blocking, and the
-- next turn of its loop blocks.
def sleep (h : T) (m : Mailbox T) : Mailbox T :=
  { m with ready := false, cond := insert h m.cond }

-- The region of the handler `h` from the top of its loop. It loops on after `CLOSE`, and so goes on to
-- block with the mailbox empty.
def handle (h : T) (w : Option T) (m : Mailbox T) : Mailbox T × Turn :=
  match m.cmd with
  | .OPEN  => (m, .doOpen)
  | .CLOSE => ((m.finishCmd w).sleep h, .wait)
  | .NONE  => (m.sleep h, .wait)
  | .EXIT  => (m.finishCmd w, .exit)

-- The region of the handler `h` from the point where it has been woken.
def resume (h : T) (w : Option T) (m : Mailbox T) : Mailbox T × Turn :=
  if m.ready
  then { m with ready := false }.handle h w
  else ({ m with cond := insert h m.cond }, .wait)

-- The threads which the handler's region can wake.
def HandleWakes (m : Mailbox T) (w : Option T) : Prop :=
  if m.cmd = .CLOSE ∨ m.cmd = .EXIT then Wakes m.condSync w else w = none

instance (m : Mailbox T) (w : Option T) : Decidable (m.HandleWakes w) :=
  inferInstanceAs (Decidable (if m.cmd = .CLOSE ∨ m.cmd = .EXIT then Wakes m.condSync w else w = none))

def ResumeWakes (m : Mailbox T) (w : Option T) : Prop :=
  if m.ready then m.HandleWakes w else w = none

instance (m : Mailbox T) (w : Option T) : Decidable (m.ResumeWakes w) :=
  inferInstanceAs (Decidable (if m.ready then m.HandleWakes w else w = none))

section

variable (c : Cmd) (w : Option T) (t : T) (m : Mailbox T)

@[simp] theorem post_cmd : (m.post c w).cmd = c := rfl
@[simp] theorem post_readySync : (m.post c w).readySync = false := rfl
@[simp] theorem await_cmd : (m.await t).cmd = m.cmd := rfl
@[simp] theorem await_readySync : (m.await t).readySync = m.readySync := rfl
@[simp] theorem spurious_cmd : (m.spurious t).cmd = m.cmd := rfl
@[simp] theorem spurious_readySync : (m.spurious t).readySync = m.readySync := rfl
@[simp] theorem finishCmd_cmd : (m.finishCmd w).cmd = .NONE := rfl
@[simp] theorem finishCmd_readySync : (m.finishCmd w).readySync = true := rfl
@[simp] theorem sleep_cmd : (m.sleep t).cmd = m.cmd := rfl
@[simp] theorem sleep_readySync : (m.sleep t).readySync = m.readySync := rfl

end

-- What a region of the handler can do to the slot: take an `OPEN`, which stays in the slot, clear a
-- `CLOSE` or an `EXIT`, or nothing.
inductive Handles (m m' : Mailbox T) : Turn → Prop
  | doOpen : m.cmd = .OPEN → m'.cmd = .OPEN → m'.readySync = m.readySync → Handles m m' .doOpen
  | close  : m.cmd = .CLOSE → m'.cmd = .NONE → m'.readySync = true → Handles m m' .wait
  | wait   : m'.cmd = m.cmd → m'.readySync = m.readySync → Handles m m' .wait
  | exit   : m.cmd = .EXIT → m'.cmd = .NONE → m'.readySync = true → Handles m m' .exit

theorem handle_handles (h : T) (w : Option T) (m : Mailbox T) :
    Handles m (m.handle h w).1 (m.handle h w).2 := by
  cases hc : m.cmd <;> simp only [handle, hc]
  case NONE  => exact .wait (by simp [hc]) (by simp)
  case OPEN  => exact .doOpen hc hc rfl
  case CLOSE => exact .close hc rfl rfl
  case EXIT  => exact .exit hc rfl rfl

theorem resume_handles (h : T) (w : Option T) (m : Mailbox T) :
    Handles m (m.resume h w).1 (m.resume h w).2 := by
  cases hr : m.ready <;> simp only [resume, hr, Bool.false_eq_true, if_true, if_false]
  case false => exact .wait rfl rfl
  case true =>
    have hh := handle_handles h w { m with ready := false }
    generalize Mailbox.handle h w _ = r at hh ⊢
    obtain ⟨m', turn⟩ := r
    cases hh
    case doOpen h₁ h₂ h₃ => exact .doOpen h₁ h₂ h₃
    case close h₁ h₂ h₃  => exact .close h₁ h₂ h₃
    case wait h₁ h₂      => exact .wait h₁ h₂
    case exit h₁ h₂ h₃   => exact .exit h₁ h₂ h₃

omit [DecidableEq T] in
-- A region of the handler leads to `EXIT` only from `EXIT`.
theorem Handles.exiting {m m' : Mailbox T} {turn : Turn} (h : Handles m m' turn)
    (he : m'.cmd = .EXIT ∨ turn = .exit) : m.cmd = .EXIT := by
  cases h
  case exit hc _ _ => exact hc
  all_goals simp_all

-- The handler leaves exactly if it finds `EXIT`.
theorem handle_exit_iff {h : T} {w : Option T} {m : Mailbox T} :
    (m.handle h w).2 = .exit ↔ m.cmd = .EXIT := by
  cases hc : m.cmd <;> simp [handle, hc]

theorem resume_exit_iff {h : T} {w : Option T} {m : Mailbox T} :
    (m.resume h w).2 = .exit ↔ m.ready ∧ m.cmd = .EXIT := by
  cases hr : m.ready <;> simp [resume, hr, handle_exit_iff]

end Mailbox
