import Mathlib.Data.Fintype.Defs
import Mathlib.Data.Finset.Insert

-- A `std::string` and a buffer of `uint8_t` are both sequences of bytes.
abbrev Bytes := List UInt8

-- A string literal of the source.
def ascii (s : String) : Bytes :=
  s.toList.map fun c => .ofNat c.toNat

namespace Bytes

-- `std::string::find`
def find (pat : Bytes) : Bytes → Option Nat
  | []      => if pat = [] then some 0 else none
  | b :: bs => if pat <+: b :: bs then some 0 else (find pat bs).map (· + 1)

-- `std::string::replace`
def replace (s : Bytes) (pos n : Nat) (t : Bytes) : Bytes :=
  s.take pos ++ t ++ s.drop (pos + n)

theorem find_of_prefix {pat s : Bytes} (h : pat <+: s) : find pat s = some 0 := by
  cases s
  case nil       => simp [find, List.prefix_nil.mp h]
  case cons b bs => simp [find, h]

-- What has been found is there.
theorem find_some {pat s : Bytes} {pos : Nat} (h : find pat s = some pos) :
    ∃ a b, s = a ++ pat ++ b ∧ a.length = pos := by
  induction s generalizing pos
  case nil =>
    simp only [find, Option.ite_none_right_eq_some, Option.some.injEq] at h
    exact ⟨[], [], by simp [h.left], h.right⟩
  case cons c cs hi =>
    unfold find at h
    split at h
    case isTrue hp =>
      cases h
      obtain ⟨b, hb⟩ := hp
      exact ⟨[], b, hb.symm, rfl⟩
    case isFalse =>
      obtain ⟨pos, hf, rfl⟩ := Option.map_eq_some_iff.mp h
      obtain ⟨a, b, rfl, rfl⟩ := hi hf
      exact ⟨c :: a, b, rfl, rfl⟩

theorem find_eq_none_iff {pat s : Bytes} : find pat s = none ↔ ¬pat <:+: s := by
  induction s
  case nil => simp [find]
  case cons b bs hi =>
    rw [List.infix_cons_iff, not_or, ← hi, find]
    split <;> simp [*]

theorem replace_append (a b c t : Bytes) : replace (a ++ b ++ c) a.length b.length t = a ++ t ++ c := by
  simp [replace, ← List.drop_drop]

end Bytes

-- What the code can throw, with its text: `Json::LogicError`, `Json::RuntimeError` and
-- `std::length_error`.
inductive Exception
  | logicError (what : String)
  | runtimeError (what : String)
  | lengthError
deriving DecidableEq

-- The threads of the program which use the two mailboxes. `client` and `snapcast` are the threads which
-- run `LightningCastClient::handle` and `SnapcastComm::handle`, `server` runs
-- `LightningCastServer::handle`.
inductive Thread
  | main
  | server
  | client
  | snapcast
deriving DecidableEq

instance : Fintype Thread where
  elems    := {.main, .server, .client, .snapcast}
  complete := fun t => by cases t <;> decide
