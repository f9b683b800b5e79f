import LightningCast.Library.Throwing
import LightningCast.Frame.Basic
import LightningCast.Json.Basic
import LightningCast.SnapcastComm.Basic

open Json (Value Lib)

namespace SnapcastComm

-- A range of offsets in `buf`.
structure Range where
  off : Nat
  len : Nat
deriving DecidableEq

-- What a call of `doParse` has done: the ranges of `buf` which it has read, the texts which it has handed
-- to the JSON reader, what is stored in `send_start_result` and how often it has called `LockSignal`.
structure Parsing where
  reads           : List Range := []
  texts           : List Bytes := []
  sendStartResult : Bool
  signals         : Nat        := 0

abbrev ParseM := Throwing Exception Parsing

-- A copy of `n` bytes from `buf + off`.
def copy (buf : Nat → UInt8) (off n : Nat) : ParseM Bytes := do
  modify fun s => { s with reads := s.reads ++ [{ off, len := n }] }
  return (List.range' off n).map buf

-- `std::string((const char *)buf + off, n)` for an `int`: a negative one is converted to a `size_t`
-- which is larger than the `max_size` of a string.
def stringOf (buf : Nat → UInt8) (off : Nat) (n : Int32) : ParseM Bytes :=
  if n.toInt < 0 then throw .lengthError else copy buf off n.toInt.toNat

def PlayerCmd.ofInt (n : Int32) : Option PlayerCmd :=
  match n.toInt with
  | 1 => some .START
  | 2 => some .STOP
  | _ => none

def lockSignal : ParseM Unit :=
  modify fun s => { s with signals := s.signals + 1 }

-- `doParse` from the call of the JSON reader.
def parseReceipt (lib : Lib) (oneData : Bytes) : ParseM Bool := do
  let some root ← lib.parse oneData | return false
  let (cmd, root) ← root.resolveReference "Cmd"
  match PlayerCmd.ofInt (← cmd.asInt) with
  | some .START =>
    let (result, _) ← root.resolveReference "Result"
    let result ← result.asInt
    modify ({ · with sendStartResult := result.toInt = 1 })
    lockSignal
    return true
  | some .STOP =>
    lockSignal
    return true
  | none => return false

-- `buf` is the memory from the beginning of the payload on. The length of the payload is not used.
def doParse (lib : Lib) (buf : Nat → UInt8) (_length : Nat) : ParseM Bool := do
  let hi := Header.ofBytes (← copy buf 0 Header.size)
  if hi.key ≠ Header.commKey then return false
  let oneSize := Int32.ofNat hi.dataSize
  let oneData ← stringOf buf Header.size oneSize
  modify fun s => { s with texts := s.texts ++ [oneData] }
  parseReceipt lib oneData

end SnapcastComm
