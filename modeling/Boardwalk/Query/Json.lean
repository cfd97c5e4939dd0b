import Mathlib.Algebra.Group.Int.Defs
import Mathlib.Algebra.Group.Nat.Defs
import Mathlib.Data.Int.Notation
import Mathlib.Data.List.Basic
import Mathlib.Tactic.Common

/-!
# JSON values and the numbers in them

`serde_json::Value` as the query evaluator and the event bus see it.  An object is the list of its
members; a key is looked up by its first occurrence, so that a repeated key has no effect.

A number is stored as the source stores it, an unsigned or a negative integer or an `f64`, and is
compared as an `f64`.  A finite `F64` is a significand times a power of two; `-0` is the zero, which
no comparison tells apart.
-/

namespace Boardwalk

/-- An `f64`. -/
inductive F64 where
  | nan
  | infinity (negative : Bool)
  /-- The value `significand * 2 ^ exponent`. -/
  | finite (significand exponent : ℤ)
  deriving Repr, DecidableEq

namespace F64

/-- The exponent of the last place of `n / d` in the format: `53` bits, but not below
`2 ^ -1074`. -/
def lastPlace (n d : ℕ) : ℤ :=
  let e := (Nat.log2 n : ℤ) - Nat.log2 d - 52
  -- the estimate is one too large when the quotient has fewer bits than its logarithms suggest
  let e := if n * 2 ^ (-e).toNat < 2 ^ 52 * d * 2 ^ e.toNat then e - 1 else e
  max e (-1074)

/-- Rounds `n / d` to the nearest multiple of `2 ^ e`, ties to even. -/
def roundAt (n d : ℕ) (e : ℤ) : ℕ :=
  let n := n * 2 ^ (-e).toNat
  let d := d * 2 ^ e.toNat
  let q := n / d
  let r := n % d
  if d < 2 * r ∨ d = 2 * r ∧ q % 2 = 1 then q + 1 else q

/-- The `f64` nearest to `± n / d`; infinity from `2 ^ 1024` on. -/
def ofRatio (negative : Bool) (n d : ℕ) : F64 :=
  if n = 0 then finite 0 0
  else
    let e := lastPlace n d
    let m := roundAt n d e
    if 2 ^ 1024 ≤ m * 2 ^ e.toNat then infinity negative
    else finite (if negative then -(m : ℤ) else m) e

/-- An integer as an `f64` (the `as` cast). -/
def ofInt (z : ℤ) : F64 := ofRatio (decide (z < 0)) z.natAbs 1

/-- `x < y`, false when either is not a number. -/
def lt : F64 → F64 → Bool
  | nan, _ | _, nan => false
  | infinity s, infinity t => s && !t
  | infinity s, finite _ _ => s
  | finite _ _, infinity t => !t
  | finite m e, finite n f =>
    decide (m * 2 ^ (e - min e f).toNat < n * 2 ^ (f - min e f).toNat)

/-- `x == y`, false when either is not a number. -/
def eq : F64 → F64 → Bool
  | nan, _ | _, nan => false
  | infinity s, infinity t => s == t
  | infinity _, finite _ _ | finite _ _, infinity _ => false
  | finite m e, finite n f =>
    decide (m * 2 ^ (e - min e f).toNat = n * 2 ^ (f - min e f).toNat)

/-- `x <= y`. -/
def le (x y : F64) : Bool := x.lt y || x.eq y

end F64

/-- `serde_json::Number`. -/
inductive Number where
  | posInt (n : UInt64)
  /-- Less than zero. -/
  | negInt (n : Int64)
  | float (x : F64)
  deriving Repr, DecidableEq

namespace Number

/-- `Number::as_f64`; it gives a value for every number. -/
def asF64 : Number → Option F64
  | posInt n => some (.ofInt n.toNat)
  | negInt n => some (.ofInt n.toInt)
  | float x => some x

/-- `Number::as_u64`. -/
def asU64 : Number → Option UInt64
  | posInt n => some n
  | _ => none

/-- `Number::as_i64`. -/
def asI64 : Number → Option ℤ
  | posInt n => if n.toNat < 2 ^ 63 then some n.toNat else none
  | negInt n => some n.toInt
  | float _ => none

end Number

inductive Json where
  | null
  | bool (b : Bool)
  | number (n : Number)
  | string (s : String)
  | array (items : List Json)
  | object (members : List (String × Json))
  deriving Repr

namespace Json

/-- The value of a key. -/
def lookupKey (members : List (String × Json)) (key : String) : Option Json :=
  (members.find? fun m => m.1 == key).map (·.2)

/-- `Value::get` with a key: only an object has one. -/
def get (v : Json) (key : String) : Option Json :=
  match v with
  | object members => lookupKey members key
  | _ => none

/-- `Value::as_str`. -/
def asStr : Json → Option String
  | string s => some s
  | _ => none

/-- `Value::as_u64`. -/
def asU64 : Json → Option UInt64
  | number n => n.asU64
  | _ => none

/-- `Value::as_i64`. -/
def asI64 : Json → Option ℤ
  | number n => n.asI64
  | _ => none

/-! ### Fields -/

def u64 (n : UInt64) : Json := .number (.posInt n)

/-- A member that is left out when it is `None`. -/
def member {α : Type} (key : String) (f : α → Json) : Option α → List (String × Json)
  | none => []
  | some x => [(key, f x)]

@[simp]
theorem member_some {α : Type} (key : String) (f : α → Json) (x : α) :
    member key f (some x) = [(key, f x)] := rfl

end Json

end Boardwalk
