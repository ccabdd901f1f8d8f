/-
The shortest decimal of a binary64 number.

The reals that round to a number form an interval, with its ends if the significand is even.
`shortest` is the decimal with the fewest digits in that interval; of two, the nearer one, and of
two at the same distance the greater one.  It is found by exact arithmetic: for one digit, two
digits and so on, the two decimals around the number are tried.

`display` writes it without an exponent.
-/
import SqlBridge.Number.Binary64

namespace SqlBridge

/-- The decimal `digits * 10 ^ exponent`. -/
structure Decimal where
  digits : Nat
  exponent : Int
deriving DecidableEq, Repr

namespace Decimal

/-- Compares a decimal with a fraction. -/
def compareTo (decimal : Decimal) (numerator denominator : Nat) : Ordering :=
  compare (decimal.digits * Nat.pow 10 decimal.exponent.toNat * denominator)
    (numerator * Nat.pow 10 (-decimal.exponent).toNat)

/-- The digits of a number in base ten. -/
def digitChars (n : Nat) : List Char := Nat.toDigits 10 n

/-- The least `k` for which a positive fraction is below `10 ^ k`. -/
def scale (numerator denominator : Nat) : Int :=
  if denominator ≤ numerator then (digitChars (numerator / denominator)).length
  else
    let zeros := (digitChars (denominator / numerator)).length
    if numerator * Nat.pow 10 (zeros - 1) = denominator then 2 - (zeros : Int)
    else 1 - (zeros : Int)

/-- The greatest multiple of `10 ^ exponent` that a fraction reaches. -/
def floor (numerator denominator : Nat) (exponent : Int) : Decimal :=
  ⟨numerator * Nat.pow 10 (-exponent).toNat / (denominator * Nat.pow 10 exponent.toNat), exponent⟩

/-- Whether a decimal lies between `low / denominator` and `high / denominator`. -/
def within (low high denominator : Nat) (closed : Bool) (decimal : Decimal) : Bool :=
  let below := decimal.compareTo low denominator
  let above := decimal.compareTo high denominator
  (below == .gt || (closed && below == .eq)) && (above == .lt || (closed && above == .eq))

/-- The multiple of `10 ^ exponent` nearest to a fraction among those that pass a test. -/
def nearest? (numerator denominator : Nat) (exponent : Int) (test : Decimal → Bool) :
    Option Decimal :=
  let lower := floor numerator denominator exponent
  let upper : Decimal := ⟨lower.digits + 1, exponent⟩
  match test lower, test upper with
  | true, true =>
    let middle : Decimal := ⟨2 * lower.digits + 1, exponent⟩
    some (if middle.compareTo (2 * numerator) denominator == .gt then lower else upper)
  | true, false => some lower
  | false, true => some upper
  | false, false => none

/-- The shortest decimal that rounds to `m * 2 ^ q`, for `m` above zero.  Seventeen digits always
suffice. -/
def shortest (m : Nat) (q : Int) (narrow : Bool) : Decimal :=
  let unit := Nat.pow 2 q.toNat
  let denominator := 4 * Nat.pow 2 (-q).toNat
  let numerator := 4 * m * unit
  let low := (4 * m - if narrow then 1 else 2) * unit
  let high := (4 * m + 2) * unit
  let test := within low high denominator (m % 2 == 0)
  let k := scale numerator denominator
  let grids := (List.range 17).map fun (n : Nat) => k - (n + 1)
  (grids.findSome? fun exponent => nearest? numerator denominator exponent test).getD
    (floor numerator denominator (k - 17))

/-- A decimal without an exponent, and without zeros at the end of a fraction. -/
def positional (decimal : Decimal) : String :=
  let digits := digitChars decimal.digits
  if 0 ≤ decimal.exponent then
    String.ofList (digits ++ List.replicate decimal.exponent.toNat '0')
  else
    let places := (-decimal.exponent).toNat
    let padded := List.replicate (places + 1 - digits.length) '0' ++ digits
    let whole := padded.take (padded.length - places)
    let fraction := padded.drop (padded.length - places)
    let kept := (fraction.reverse.dropWhile (· == '0')).reverse
    String.ofList (if kept.isEmpty then whole else whole ++ '.' :: kept)

end Decimal

namespace Binary64

/-- The text of a number: its shortest decimal, never with an exponent. -/
def display : Binary64 → String
  | .notANumber => "NaN"
  | .infinite negative => if negative then "-inf" else "inf"
  | .finite negative m q narrow =>
    let magnitude := if m = 0 then "0" else (Decimal.shortest m q narrow).positional
    if negative then "-" ++ magnitude else magnitude

end Binary64

end SqlBridge
