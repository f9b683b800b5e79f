import LightningCast.Library.Machine
import LightningCast.Library.Stream
import LightningCast.Common
import Mathlib.Algebra.Group.Nat.Defs
import Mathlib.Logic.Function.Basic

open Stream (Read)

-- The bytes in memory of `htonl(n)`, for a `uint32_t` which is made from `n`.
def htonl (n : Nat) : Bytes :=
  [.ofNat (n / 2 ^ 24), .ofNat (n / 2 ^ 16), .ofNat (n / 2 ^ 8), .ofNat n]

-- `ntohl` of a `uint32_t` whose bytes in memory are given.
def ntohl : Bytes → Nat
  | [a, b, c, d] => a.toNat * 2 ^ 24 + b.toNat * 2 ^ 16 + c.toNat * 2 ^ 8 + d.toNat
  | _            => 0

theorem ntohl_htonl {n : Nat} (h : n < 2 ^ 32) : ntohl (htonl n) = n := by
  simp only [ntohl, htonl, UInt8.toNat_ofNat']
  omega

theorem htonl_ntohl {bs : Bytes} (h : bs.length = 4) : htonl (ntohl bs) = bs := by
  match bs with
  | [a, b, c, d] =>
    have := a.toNat_lt
    have := b.toNat_lt
    have := c.toNat_lt
    have := d.toNat_lt
    simp only [htonl, ntohl, List.cons.injEq, and_true, ← UInt8.toNat_inj, UInt8.toNat_ofNat']
    omega

theorem ntohl_lt : (bs : Bytes) → ntohl bs < 2 ^ 32 := by
  intro bs
  unfold ntohl
  split
  case h_1 a b c d =>
    have := a.toNat_lt
    have := b.toNat_lt
    have := c.toNat_lt
    have := d.toNat_lt
    omega
  case h_2 => decide

@[simp]
theorem htonl_length (n : Nat) : (htonl n).length = 4 := rfl

-- `lightningCast_header`, in host byte order.
structure Header where
  key      : Nat
  dataSize : Nat
deriving DecidableEq

namespace Header

-- `LIGHTNINGCAST_COMM_HEADER_KEY`
def commKey : Nat := 0x9876

-- `sizeof(lightningCast_header)`
def size : Nat := 8

def bytes (h : Header) : Bytes :=
  htonl h.key ++ htonl h.dataSize

-- The header at the beginning of a buffer.
def ofBytes (bs : Bytes) : Header where
  key      := ntohl (bs.take 4)
  dataSize := ntohl ((bs.drop 4).take 4)

@[simp]
theorem bytes_length (h : Header) : h.bytes.length = size := rfl

theorem dataSize_ofBytes_lt (bs : Bytes) : (ofBytes bs).dataSize < 2 ^ 32 :=
  ntohl_lt _

theorem ofBytes_take (bs : Bytes) : ofBytes (bs.take size) = ofBytes bs := by
  simp [ofBytes, size, List.take_take, List.drop_take]

theorem ofBytes_append {h : Header} {bs : Bytes} (hk : h.key < 2 ^ 32) (hs : h.dataSize < 2 ^ 32) :
    ofBytes (h.bytes ++ bs) = h := by
  simp only [ofBytes, bytes, List.append_assoc, List.take_left' (htonl_length _),
    List.drop_left' (htonl_length _), ntohl_htonl hk, ntohl_htonl hs]

theorem bytes_ofBytes {bs : Bytes} (h : bs.length = size) : (ofBytes bs).bytes = bs := by
  unfold size at h
  simp only [ofBytes, bytes]
  rw [htonl_ntohl (by simp [h]), htonl_ntohl (by simp [h]),
    List.take_of_length_le (l := bs.drop 4) (by simp [h]), List.take_append_drop]

end Header

-- The bytes which `processSend` writes for `str`.
def frame (str : Bytes) : Bytes :=
  Header.bytes { key := Header.commKey, dataSize := str.length } ++ str

theorem frame_ne_nil (str : Bytes) : frame str ≠ [] := by
  simp [frame, Header.bytes, htonl]

-- How a `doRead` ends: in `doParse` with a payload, with false before that, or not before more is read.
inductive DoRead
  | parse (payload : Bytes) (rest : List (Read UInt8))
  | fail
  | starved
deriving DecidableEq

-- `doRead` up to `doParse`, which is the same in all three classes.
def doRead (rs : List (Read UInt8)) : DoRead :=
  match Stream.fill Header.size [] rs with
  | .failed _  => .fail
  | .starved   => .starved
  | .full hi rs =>
    let hi := Header.ofBytes hi
    if hi.key ≠ Header.commKey
    then .fail
    else
      match Stream.fill hi.dataSize [] rs with
      | .failed _    => .fail
      | .starved     => .starved
      | .full buf rs => .parse buf rs

-- What the `read`s of a `doRead` return.
def doReadReads (rs : List (Read UInt8)) : List (Read UInt8) :=
  Stream.reads Header.size rs ++
    match Stream.fill Header.size [] rs with
    | .failed _ | .starved => []
    | .full hi rs          =>
      let hi := Header.ofBytes hi
      if hi.key ≠ Header.commKey then [] else Stream.reads hi.dataSize rs

-- What up to `n` successive calls of `doRead` hand to `doParse`, as long as they get there, and what is
-- still to be read.
def doReads : Nat → List (Read UInt8) → List Bytes × List (Read UInt8)
  | 0, rs     => ([], rs)
  | n + 1, rs =>
    match doRead rs with
    | .parse payload rest => (payload :: (doReads n rest).1, (doReads n rest).2)
    | .fail | .starved    => ([], [])

-- `processSend` on one connection, by threads which take turns under `server_mutex`.
namespace ProcessSend

-- What a `write` can do: accept some of what it is offered, or fail, with `EAGAIN` or otherwise.
inductive Write
  | accept (n : Nat)
  | again
  | fail
deriving DecidableEq

-- The call which holds the mutex: `left` is what it has not written.
structure Current (T : Type) where
  thread : T
  str    : Bytes
  left   : Bytes
  ne     : left ≠ []

-- A call which has returned: whether its frame was written whole, and what it returned in `SnapcastComm`.
structure Returned where
  str      : Bytes
  complete : Bool
  result   : Bool
deriving DecidableEq

structure State (T : Type) where
  closed   : Bool               := false
  waiting  : T → Option Bytes   := fun _ => none
  current  : Option (Current T) := none
  sent     : List Bytes         := []
  out      : Bytes              := []
  returned : List Returned      := []

inductive Act (T : Type)
  | call (t : T) (str : Bytes)
  | lock (t : T)
  | write (w : Write)
  | close

section

variable {T : Type} [DecidableEq T]

-- The loop is left, by its condition or by `break`, when `left` has not been written.
def State.leave (s : State T) (c : Current T) (left : Bytes) : State T :=
  { s with
    current  := none
    returned := s.returned ++ [{ str := c.str, complete := left = [], result := true }] }

-- A call of `processSend` has taken the mutex.
def State.begin (s : State T) (t : T) (str : Bytes) : State T :=
  if s.closed
  then { s with
    waiting  := Function.update s.waiting t none
    returned := s.returned ++ [{ str, complete := false, result := false }] }
  else { s with
    waiting := Function.update s.waiting t none
    current := some { thread := t, str, left := frame str, ne := frame_ne_nil str }
    sent    := s.sent ++ [str] }

-- One turn of the loop.
def State.write (s : State T) (c : Current T) : Write → Option (State T)
  | .again    => some s
  | .fail     => some (s.leave c c.left)
  | .accept 0 => some (s.leave c c.left)
  | .accept n =>
    if n ≤ c.left.length
    then
      let s' := { s with out := s.out ++ c.left.take n }
      if h : c.left.drop n = []
      then some (s'.leave c [])
      else some { s' with current := some { c with left := c.left.drop n, ne := h } }
    else none

def step (s : State T) : Act T → Option (State T)
  | .call t str =>
    if s.waiting t = none ∧ s.current.all (·.thread ≠ t)
    then some { s with waiting := Function.update s.waiting t (some str) } else none
  | .lock t => if s.current.isNone then (s.waiting t).map (s.begin t) else none
  | .write w => s.current.bind (s.write · w)
  | .close => if s.current.isNone then some { s with closed := true } else none

def machine : Machine (State T) (Act T) where
  init := {}
  step := step

end

end ProcessSend
