import LightningCast.Json.Theorems.Reader
import LightningCast.Json.Theorems.Escape

namespace Json

open Reader (parse stackLimit)

namespace Value

-- The value for which the text stands that is written for `v`: an integer has no type there, and a string
-- consists of characters.
def asWritten : Value → Value
  | null      => null
  | int n     => ofInteger n.toInt
  | uint n    => ofInteger n.toNat
  | real d    => real d
  | string s  => string (reread s)
  | bool b    => bool b
  | array vs  => array (vs.map asWritten)
  | object ms => object (ms.map fun m => (reread m.1, asWritten m.2))
termination_by v => sizeOf v
decreasing_by
  · exact sizeOf_lt_array ‹_›
  · exact sizeOf_lt_object ‹_›

-- What is written of the value can be read: its strings are not too long then, and its numbers are numbers.
inductive Writable (decodeDouble : Bytes → Option Double) (doubleToString : Double → Bytes) : Value → Prop
  | null : Writable decodeDouble doubleToString null
  | bool {b : Bool} : Writable decodeDouble doubleToString (bool b)
  | int {n : Int64} : Writable decodeDouble doubleToString (int n)
  | uint {n : UInt64} : Writable decodeDouble doubleToString (uint n)
  | real {d : Double} : Number decodeDouble (doubleToString d) (real d) →
    Writable decodeDouble doubleToString (real d)
  | string {s : Bytes} : (reread s).length ≤ 2 ^ 31 - 6 → Writable decodeDouble doubleToString (string s)
  | array {vs : List Value} : (∀ v ∈ vs, Writable decodeDouble doubleToString v) →
    Writable decodeDouble doubleToString (array vs)
  | object {ms : List (Bytes × Value)} : (∀ m ∈ ms, (reread m.1).length < 2 ^ 30) →
    (∀ m ∈ ms, Writable decodeDouble doubleToString m.2) → Writable decodeDouble doubleToString (object ms)

theorem nested_asWritten (n : Nat) (v : Value) : Nested n v.asWritten ↔ Nested n v := by
  induction n generalizing v
  case zero      => exact Iff.rfl
  case succ n hi =>
    have ho (i : Int) : Nested (n + 1) (ofInteger i) := by
      rw [ofInteger]
      split <;> exact trivial
    cases v
    case int | uint     => simp only [asWritten, ho, Nested]
    case array | object => simp only [asWritten, Nested, List.forall_mem_map, hi]
    all_goals simp only [asWritten, Nested]

theorem nested_sizeOf (v : Value) : Nested (sizeOf v) v := by
  have hn (n : Nat) (v : Value) (hv : sizeOf v ≤ n) : Nested n v := by
    induction n generalizing v
    case zero =>
      cases v
      all_goals simp at hv
    case succ n hi =>
      cases v
      case array vs  => exact fun v hm => hi v (Nat.le_of_lt_succ ((sizeOf_lt_array hm).trans_le hv))
      case object ms => exact fun m hm => hi m.2 (Nat.le_of_lt_succ ((sizeOf_lt_object hm).trans_le hv))
      all_goals exact trivial
  exact hn _ v (le_refl _)

end Value

section

variable {decodeDouble : Bytes → Option Double} {doubleToString : Double → Bytes} {text : Value → Bytes → Prop}
  {v : Value} {n : Nat} {t : Bytes}

theorem elements_intercalate {vs : List Value} {value : Value → Value} {w : Value → Bytes}
    (ht : ∀ v' ∈ v :: vs, text (value v') (w v')) :
    Elements text ((v :: vs).map value) ([0x2C].intercalate ((v :: vs).map w)) := by
  have hw (v : Value) : [] ++ w v ++ [] = w v := List.append_nil _
  induction vs generalizing v
  case nil =>
    rw [List.map_singleton, List.map_singleton, List.intercalate_singleton, ← hw]
    exact .last spaces_nil (ht v (List.mem_cons_self ..)) spaces_nil
  case cons v' vs hi =>
    obtain ⟨hv, ht⟩ := List.forall_mem_cons.mp ht
    have hi := hi ht
    simp only [List.map_cons] at hi ⊢
    rw [List.intercalate_cons_cons, ← hw v]
    exact .cons spaces_nil hv spaces_nil hi

theorem members_intercalate {m : Bytes × Value} {ms : List (Bytes × Value)} {member : Bytes × Value → Bytes × Value}
    {w : Bytes × Value → Bytes} (hm : ∀ m' ∈ m :: ms, Member text (member m') (w m')) :
    Members text ((m :: ms).map member) ([0x2C].intercalate ((m :: ms).map w)) := by
  induction ms generalizing m
  case nil =>
    rw [List.map_singleton, List.map_singleton, List.intercalate_singleton]
    exact .last (hm m (List.mem_cons_self ..))
  case cons m' ms hi =>
    obtain ⟨hm, hms⟩ := List.forall_mem_cons.mp hm
    have hi := hi hms
    simp only [List.map_cons] at hi ⊢
    rw [List.intercalate_cons_cons]
    exact .cons hm hi

theorem member_write {name t : Bytes} (hl : (reread name).length < 2 ^ 30) (ht : text v t) :
    Member text (reread name, v) (FastWriter.valueToQuotedStringN name ++ 0x3A :: t) := by
  have hq := quoted_valueToQuotedStringN name
  have hm := Member.mk hl spaces_nil hq spaces_nil spaces_nil ht spaces_nil
  rw [List.nil_append, List.append_nil, List.append_nil, List.append_nil, List.append_assoc] at hm
  exact hm

theorem text_writeValue (hv : v.Writable decodeDouble doubleToString) (hn : v.Nested n) :
    Text decodeDouble n v.asWritten (FastWriter.writeValue doubleToString v) := by
  induction n generalizing v
  case zero      => exact hn.elim
  case succ n hi =>
    cases hv
    all_goals rw [Value.asWritten, FastWriter.writeValue]
    case null      => exact .null
    case int m     => exact .number (number_valueToString m)
    case uint m    => exact .number (number_uintToString m.toNat_lt)
    case real hd   => exact .number hd
    case string hl => exact .string hl (quoted_valueToQuotedStringN _)
    case bool b =>
      cases b
      case false => exact .false
      case true  => exact .true
    case array vs hvs =>
      cases vs
      case nil       => exact .emptyArray spaces_nil
      case cons v vs => exact .array (elements_intercalate fun v hm => hi (hvs v hm) (hn v hm))
    case object ms hl hms =>
      cases ms
      case nil       => exact .emptyObject spaces_nil
      case cons m ms =>
        exact .object (members_intercalate fun m hm => member_write (hl m hm) (hi (hms m hm) (hn m hm)))

theorem document_write (hv : v.Writable decodeDouble doubleToString) :
    Document decodeDouble v.asWritten (FastWriter.write doubleToString v) :=
  ⟨[], _, _, _, spaces_nil, text_writeValue hv v.nested_sizeOf, ends_newline, rfl⟩

theorem parse_write_of_nested (hv : v.Writable decodeDouble doubleToString) (hn : v.Nested stackLimit) :
    parse decodeDouble (FastWriter.write doubleToString v) = .ok (some v.asWritten.stored) :=
  (document_write hv).parse_of_nested ((v.nested_asWritten _).mpr hn)

theorem parse_write_of_deep (hv : v.Writable decodeDouble doubleToString) (hn : ¬v.Nested stackLimit) :
    parse decodeDouble (FastWriter.write doubleToString v) =
      .error (.runtimeError "Exceeded stackLimit in readValue().") :=
  (document_write hv).parse_of_deep (mt (v.nested_asWritten _).mp hn)

-- A value which has been written is read again, unless it is nested too deeply.
theorem parse_write (hv : v.Writable decodeDouble doubleToString) :
    parse decodeDouble (FastWriter.write doubleToString v) =
      if v.Nested stackLimit
      then .ok (some v.asWritten.stored)
      else .error (.runtimeError "Exceeded stackLimit in readValue().") := by
  split
  case isTrue hn  => exact parse_write_of_nested hv hn
  case isFalse hn => exact parse_write_of_deep hv hn

-- The first byte of the string is no character.
theorem parse_write_array : parse (fun _ => none) (FastWriter.write (fun _ => [])
    (.array [.int (-1), .string [0xFF, 0x41]])) = .ok (some (.array [.int (-1), .string [0xEF, 0xBF, 0xBD, 0x41]])) := by
  have hr : reread [0xFF, 0x41] = [0xEF, 0xBF, 0xBD, 0x41] := by decide +kernel
  have hv : (Value.array [.int (-1), .string [0xFF, 0x41]]).Writable (fun _ => none) (fun _ => []) :=
    .array (by simp [Value.Writable.int, Value.Writable.string, hr])
  have h := parse_write hv
  rw [if_pos (by decide)] at h
  simpa [Value.asWritten, Value.stored, Value.ofInteger, hr] using h

end

end Json
