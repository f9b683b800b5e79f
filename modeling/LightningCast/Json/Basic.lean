import LightningCast.Common
import Mathlib.Algebra.Group.Int.Defs

namespace Json

-- A `double`: a finite one is given by the number it represents.
inductive Double
  | finite (q : Rat)
  | inf (negative : Bool)
  | nan

namespace Double

def inRange (min max : Int) : Double → Bool
  | finite q => min ≤ q ∧ q ≤ max
  | inf _    => false
  | nan      => false

def isIntegral : Double → Bool
  | finite q => q.den = 1
  | inf _    => true
  | nan      => false

-- The integral part, to which a cast rounds.
def trunc : Double → Int
  | finite q => q.num.tdiv q.den
  | inf _    => 0
  | nan      => 0

end Double

-- `Json::Value`. An object is the list of its members. `setMember` keeps them in the order of their names, on which
-- the functions of this module do not depend.
inductive Value
  | null
  | int (n : Int64)
  | uint (n : UInt64)
  | real (d : Double)
  | string (s : Bytes)
  | bool (b : Bool)
  | array (vs : List Value)
  | object (ms : List (Bytes × Value))

-- The types to which the program converts values.
inductive ValueType
  | intValue
  | stringValue
  | objectValue
deriving DecidableEq

-- What the program calls of jsoncpp, as parameters: `parse` is `Reader::parse`, which can throw, and `doubleToString`
-- is `valueToString` of a `double`. `jsoncpp` instantiates them with the reader of this project.
structure Lib where
  parse          : Bytes → Except Exception (Option Value)
  doubleToString : Double → Bytes

namespace Value

def minInt : Int := -2 ^ 31
def maxInt : Int := 2 ^ 31 - 1

def isInt : Value → Bool
  | int n  => minInt ≤ n.toInt ∧ n.toInt ≤ maxInt
  | uint n => n.toNat ≤ maxInt
  | real d => d.inRange minInt maxInt && d.isIntegral
  | _      => false

def isConvertibleTo : Value → ValueType → Bool
  | real d, .intValue       => (real d).isInt || d.inRange minInt maxInt
  | bool _, .intValue       => true
  | null, .intValue         => true
  | v, .intValue            => v.isInt
  | int _, .stringValue     => true
  | uint _, .stringValue    => true
  | real _, .stringValue    => true
  | bool _, .stringValue    => true
  | string _, .stringValue  => true
  | null, .stringValue      => true
  | _, .stringValue         => false
  | object _, .objectValue  => true
  | null, .objectValue      => true
  | _, .objectValue         => false

def asInt : Value → Except Exception Int32
  | int n  =>
    if (int n).isInt then .ok n.toInt32 else .error (.logicError "LargestInt out of Int range")
  | uint n =>
    if (uint n).isInt
    then .ok (.ofNat n.toNat)
    else .error (.logicError "LargestUInt out of Int range")
  | real d =>
    if d.inRange minInt maxInt
    then .ok (.ofInt d.trunc)
    else .error (.logicError "double out of Int range")
  | null   => .ok 0
  | bool b => .ok (if b then 1 else 0)
  | _      => .error (.logicError "Value is not convertible to Int.")

def asString (lib : Lib) : Value → Except Exception Bytes
  | null     => .ok []
  | string s => .ok s
  | bool b   => .ok (ascii (if b then "true" else "false"))
  | int n    => .ok (ascii (toString n.toInt))
  | uint n   => .ok (ascii (toString n.toNat))
  | real d   => .ok (lib.doubleToString d)
  | _        => .error (.logicError "Type is not convertible to string")

def find (key : Bytes) : Value → Except Exception (Option Value)
  | null      => .ok none
  | object ms => .ok (ms.lookup key)
  | _         => .error (.logicError
      "in Json::Value::find(begin, end): requires objectValue or nullValue")

-- `operator[]` of a `const Value`.
def get (key : String) (v : Value) : Except Exception Value :=
  (v.find (ascii key)).map (·.getD null)

-- `operator[]` of a `Value`: the member, and the value after the call.
def resolveReference (key : String) : Value → Except Exception (Value × Value)
  | null      => .ok (null, object [(ascii key, null)])
  | object ms =>
    match ms.lookup (ascii key) with
    | some v => .ok (v, object ms)
    | none   => .ok (null, object (ms ++ [(ascii key, null)]))
  | _         => .error (.logicError
      "in Json::Value::resolveReference(key, end): requires objectValue")

-- `root[key].asInt()`
def getInt (key : String) (root : Value) : Except Exception Int32 :=
  root.get key >>= asInt

-- `root[key].asString()`
def getString (lib : Lib) (key : String) (root : Value) : Except Exception Bytes :=
  root.get key >>= asString lib

-- What the fields of a message mean: a missing one is null, and every value which can be converted to a
-- type has one value of that type. The values for the others are arbitrary.
section

def member (key : String) : Value → Value
  | object ms => (ms.lookup (ascii key)).getD null
  | _         => null

def toInt : Value → Int32
  | int n  => n.toInt32
  | uint n => .ofNat n.toNat
  | real d => .ofInt d.trunc
  | bool b => if b then 1 else 0
  | _      => 0

def toBytes (lib : Lib) : Value → Bytes
  | string s => s
  | bool b   => ascii (if b then "true" else "false")
  | int n    => ascii (toString n.toInt)
  | uint n   => ascii (toString n.toNat)
  | real d   => lib.doubleToString d
  | _        => []

-- The value after a `resolveReference` of `key`.
def touch (key : String) : Value → Value
  | object ms => if (ms.lookup (ascii key)).isSome then object ms else object (ms ++ [(ascii key, null)])
  | _         => object [(ascii key, null)]

end

end Value

end Json
