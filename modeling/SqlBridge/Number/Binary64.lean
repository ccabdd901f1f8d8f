/-
Numbers in IEEE 754 binary64, decoded from their bits.
-/
namespace SqlBridge

/-- What 64 bits stand for; a finite number is `m * 2 ^ q` with a sign. -/
inductive Binary64 where
  | notANumber
  | infinite (negative : Bool)
  /-- `narrow` if the next smaller number is half as far away as the next greater one. -/
  | finite (negative : Bool) (m : Nat) (q : Int) (narrow : Bool)
deriving DecidableEq, Repr

namespace Binary64

def ofBits (bits : UInt64) : Binary64 :=
  let negative := bits >>> 63 == 1
  let exponent := ((bits >>> 52) &&& 0x7FF).toNat
  let fraction := (bits &&& 0xFFFFFFFFFFFFF).toNat
  if exponent = 0x7FF then
    if fraction = 0 then .infinite negative else .notANumber
  else if exponent = 0 then .finite negative fraction (-1074) false
  else .finite negative (Nat.pow 2 52 + fraction) (exponent - 1075) (fraction == 0 && exponent > 1)

/-- The integer nearest to a number on the side of zero, kept within 64 bits. -/
def toInt64 : Binary64 → Int64
  | .notANumber => 0
  | .infinite negative => if negative then Int64.minValue else Int64.maxValue
  | .finite negative m q _ =>
    let magnitude : Nat := m * Nat.pow 2 q.toNat / Nat.pow 2 (-q).toNat
    let value : Int := if negative then -magnitude else magnitude
    if value < Int64.minValue.toInt then Int64.minValue
    else if Int64.maxValue.toInt < value then Int64.maxValue
    else Int64.ofInt value

def isFinite : Binary64 → Bool
  | .finite .. => true
  | _ => false

end Binary64

end SqlBridge
