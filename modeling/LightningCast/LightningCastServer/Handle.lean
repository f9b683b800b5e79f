import LightningCast.Library.Machine
import LightningCast.Frame.Basic
import Mathlib.Data.Finset.Basic

open Stream (Read)

namespace LightningCastServer

-- `FD_SETSIZE`
def fdSetSize : Nat := 1024

-- The loop of `handle`.
namespace Handle

-- The descriptors which are open from the beginning.
structure Config where
  listener : Nat
  wakeFd   : Nat
  ne       : listener ≠ wakeFd

-- Where the loop is: before or in `select`, at the test of `i` in the `for` loop, in one of its branches,
-- or left.
inductive Pc
  | select
  | sweep (i : Nat)
  | accept (i : Nat)
  | read (i : Nat)
  | returned
deriving DecidableEq

-- Connections are numbered in the order in which they are accepted. `conn fd` is the latest one with the
-- descriptor `fd`, `closed` are the connections of which the descriptor has been closed, and `reported` are
-- the open ones whose descriptors the last `select` has reported.
structure State where
  master   : Finset Nat
  fdmax    : Nat
  readFds  : Finset Nat         := ∅
  pc       : Pc                 := .select
  conn     : Nat → Option Nat   := fun _ => none
  accepted : Nat                := 0
  closed   : List Nat           := []
  reported : Nat → Option Nat   := fun _ => none

inductive Act
  | select (ready : Finset Nat)
  | scan
  | accept (fd : Option Nat)
  | doRead (rs : List (Read UInt8)) (parsed : Bool)

namespace State

-- `fd` is the descriptor of the connection `c`, which is open.
def Open (s : State) (fd c : Nat) : Prop :=
  s.conn fd = some c ∧ c ∉ s.closed

instance (s : State) (fd c : Nat) : Decidable (s.Open fd c) :=
  inferInstanceAs (Decidable (_ ∧ _))

-- `accept` can return `fd`.
def Fresh (s : State) (cfg : Config) (fd : Nat) : Prop :=
  fd ≠ cfg.listener ∧ fd ≠ cfg.wakeFd ∧ (∀ c ∈ s.conn fd, c ∈ s.closed) ∧ fd < fdSetSize

instance (s : State) (cfg : Config) (fd : Nat) : Decidable (s.Fresh cfg fd) :=
  inferInstanceAs (Decidable (_ ∧ _))

def select (s : State) (ready : Finset Nat) : State :=
  { s with
    readFds  := ready
    reported := fun fd => if fd ∈ ready ∧ ∃ c ∈ s.conn fd, c ∉ s.closed then s.conn fd else none
    pc       := .sweep 0 }

-- The test of the `for` loop, and `FD_ISSET` with the choice of a branch.
def scan (s : State) (cfg : Config) (i : Nat) : State :=
  if s.fdmax < i
  then { s with pc := .select }
  else if i ∉ s.readFds
  then { s with pc := .sweep (i + 1) }
  else if i = cfg.listener
  then { s with pc := .accept i }
  else if i = cfg.wakeFd
  then { s with pc := .returned }
  else { s with pc := .read i }

def accept (s : State) (i fd : Nat) : State :=
  { s with
    master   := insert fd s.master
    fdmax    := if fd > s.fdmax then fd else s.fdmax
    conn     := Function.update s.conn fd (some s.accepted)
    accepted := s.accepted + 1
    pc       := .sweep (i + 1) }

-- `shutdown`, `close` and `FD_CLR`
def close (s : State) (i : Nat) : State :=
  { s with
    master := s.master.erase i
    closed := s.closed ++ (s.conn i).toList
    pc     := .sweep (i + 1) }

end State

variable (cfg : Config)

-- `doRead` returns what `doParse` returns, if it gets there. While it waits for more, the loop stands still.
def step (s : State) : Act → Option State
  | .select ready => if s.pc = .select ∧ ready ⊆ s.master then some (s.select ready) else none
  | .scan =>
    match s.pc with
    | .sweep i => some (s.scan cfg i)
    | _        => none
  | .accept fd =>
    match s.pc, fd with
    | .accept i, none    => some { s with pc := .sweep (i + 1) }
    | .accept i, some fd => if s.Fresh cfg fd then some (s.accept i fd) else none
    | _, _               => none
  | .doRead rs parsed =>
    match s.pc, doRead rs with
    | .read i, .parse _ _ => some (if parsed then { s with pc := .sweep (i + 1) } else s.close i)
    | .read i, .fail      => some (s.close i)
    | _, _                => none

def machine : Machine State Act where
  init := { master := {cfg.listener, cfg.wakeFd}, fdmax := max cfg.listener cfg.wakeFd }
  step := step cfg

end Handle

end LightningCastServer
