import LightningCast.Library.Throwing
import LightningCast.Json.Basic

namespace Json.Value

-- The casts succeed on the values which `isConvertibleTo` accepts, and only on these.
theorem asInt_ok_iff {v : Value} {n : Int32} :
    v.asInt = .ok n ↔ v.isConvertibleTo .intValue ∧ v.toInt = n := by
  cases v <;> simp [asInt, isConvertibleTo, isInt, toInt, Except.ite_eq_ok_iff]
  case real d => exact fun _ hd _ => hd

theorem asString_ok_iff {lib : Lib} {v : Value} {s : Bytes} :
    v.asString lib = .ok s ↔ v.isConvertibleTo .stringValue ∧ v.toBytes lib = s := by
  cases v <;> simp [asString, isConvertibleTo, toBytes]

theorem get_ok_iff {v w : Value} {key : String} :
    v.get key = .ok w ↔ v.isConvertibleTo .objectValue ∧ v.member key = w := by
  cases v <;> simp [get, find, member, isConvertibleTo, Except.map]

theorem resolveReference_ok_iff {v : Value} {key : String} {r : Value × Value} :
    v.resolveReference key = .ok r ↔
      v.isConvertibleTo .objectValue ∧ r = (v.member key, v.touch key) := by
  cases v
  case object ms => cases h : ms.lookup (ascii key) <;>
    simp [resolveReference, isConvertibleTo, member, touch, h, eq_comm]
  all_goals simp [resolveReference, isConvertibleTo, member, touch, eq_comm]

theorem getInt_ok_iff {v : Value} {key : String} {n : Int32} : v.getInt key = .ok n ↔
    v.isConvertibleTo .objectValue ∧ (v.member key).isConvertibleTo .intValue ∧
      (v.member key).toInt = n := by
  simp only [getInt, Except.bind_eq_ok_iff, get_ok_iff, asInt_ok_iff, and_assoc, exists_and_left,
    exists_eq_left']

theorem getString_ok_iff {lib : Lib} {v : Value} {key : String} {s : Bytes} :
    v.getString lib key = .ok s ↔ v.isConvertibleTo .objectValue ∧
      (v.member key).isConvertibleTo .stringValue ∧ (v.member key).toBytes lib = s := by
  simp only [getString, Except.bind_eq_ok_iff, get_ok_iff, asString_ok_iff, and_assoc, exists_and_left,
    exists_eq_left']

-- A `resolveReference` changes no member.
theorem member_touch {v : Value} (h : v.isConvertibleTo .objectValue) (key key' : String) :
    (v.touch key).member key' = v.member key' := by
  cases v <;> try cases h
  case null =>
    simp only [touch, member, List.lookup_cons, List.lookup_nil]
    split <;> rfl
  case object ms =>
    simp only [touch]
    split
    case isTrue => rfl
    case isFalse hk =>
      simp only [member, List.lookup_append, List.lookup_cons, List.lookup_nil]
      cases hm : ms.lookup (ascii key') <;> simp
      split <;> rfl

@[simp]
theorem touch_isConvertibleTo (v : Value) (key : String) :
    (v.touch key).isConvertibleTo .objectValue := by
  cases v <;> simp only [touch]
  case object => split <;> rfl
  all_goals rfl

end Json.Value
