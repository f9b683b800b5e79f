import LightningCast.Library.Machine
import LightningCast.LightningCastClient.Parse

open Json (Lib)

namespace LightningCastClient

-- A time in nanoseconds.
def Timespec.ns (t : Timespec) : Int :=
  t.sec * 1000000000 + t.nsec

-- `diff_in_us`. The `double` is taken to be exact, its conversion to a `uint64_t` truncates.
def diffInUs (t₁ t₂ : Timespec) : Nat :=
  let diff : Timespec :=
    if t₂.nsec - t₁.nsec < 0
    then { sec := t₂.sec - t₁.sec - 1, nsec := t₂.nsec - t₁.nsec + 1000000000 }
    else { sec := t₂.sec - t₁.sec, nsec := t₂.nsec - t₁.nsec }
  (diff.ns.tdiv 1000).toNat

def checkCastServerAlive (aliveTime now : Timespec) : Bool :=
  let checkDiffTimeMs := diffInUs aliveTime now / 1000
  ¬checkDiffTimeMs > 5000

-- The loop of `do_open` with its clock. The messages and what is sent take no time, so that time passes
-- only in `select`.
namespace SessionLoop

-- How the loop ends: by `checkCastServerAlive`, because `doParse` has returned false, or because of an
-- exception.
inductive Ending
  | notAlive
  | rejected
  | threw
deriving DecidableEq

-- `now` is when the last `select` returned, and `sent` when the last `NOTIFY_ALIVE` was sent. Both are
-- the beginning of the session at first.
structure State where
  session : Session
  now     : Timespec
  sent    : Timespec
  ended   : Option Ending := none

-- An iteration, by what `select` reports and when it returns.
inductive Act
  | timeout (now : Timespec)
  | message (now : Timespec) (started : Bool) (payload : Bytes)

def Act.now : Act → Timespec
  | .timeout now | .message now .. => now

def alives (s : Session) : Nat :=
  s.requests.count .sendAlive

-- `doRead` of a message.
def State.read (s : State) (env : Env) (payload : Bytes) : State :=
  let (result, session) := (doParse env payload).run.run s.session
  { session
    now   := env.now
    sent  := if alives s.session < alives session then env.now else s.sent
    ended :=
      match result with
      | .ok true  => none
      | .ok false => some .rejected
      | .error _  => some .threw }

-- `select` returns after 500 ms, or earlier if there is a message.
def step (lib : Lib) (s : State) : Act → Option State
  | .timeout now =>
    if s.ended = none ∧ now.ns = s.now.ns + 500000000
    then some {
      session := s.session.request .sendAlive
      now
      sent    := now
      ended   := if checkCastServerAlive s.session.aliveTime now then none else some .notAlive }
    else none
  | .message now started payload =>
    if s.ended = none ∧ s.now.ns ≤ now.ns ∧ now.ns ≤ s.now.ns + 500000000
    then some (s.read { toLib := lib, now, started } payload) else none

-- The loop of a session which begins at the time `start`.
def machine (lib : Lib) (session : Session) (start : Timespec) : Machine State Act where
  init := { session := { session with aliveTime := start }, now := start, sent := start }
  step := step lib

end SessionLoop

end LightningCastClient
