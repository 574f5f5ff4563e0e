import QueryDesk.Text.Basic

/-!
# Binary floating-point numbers

A settings file may hold numbers with a fraction or an exponent. They are kept
as the nearest number of the 64-bit binary format, represented exactly: a
natural mantissa times a power of two, counted from the smallest positive number
of the format. All arithmetic on them is arithmetic of natural numbers: a sum or
a quotient is found exactly and rounded once.

## Main definitions

* `Binary64`: A number of the format, an infinity or not a number.
* `Binary64.units`: The magnitude as a multiple of the smallest positive number.
* `Binary64.ofDecimal`: The number nearest to a decimal one, the even neighbour
  of two that are equally near.
* `Binary64.same`: Equality of numbers, where the two zeros are one.
* `Binary64.truncate`: The integer part.
* `Binary64.add`, `Binary64.sub`, `Binary64.divNat`: Arithmetic.
* `Binary64.below`: The order of numbers.
-/

namespace QueryDesk

/-- A number of the 64-bit binary format. The magnitude of a finite one is
    `mantissa * 2 ^ shift` times the smallest positive number. -/
inductive Binary64
  | nan
  | infinity (negative : Bool)
  | finite (negative : Bool) (mantissa shift : Nat)
  deriving DecidableEq, Repr

namespace Binary64

/-- The smallest positive number is this power of one half. -/
def unitPlaces : Nat := 1074

/-- The smallest positive number is one divided by this. -/
def unitParts : Nat := 1 <<< unitPlaces

/-- A power of ten. -/
def tenTo (exponent : Nat) : Nat := Nat.pow 10 exponent

/-- The largest shift of a finite number. -/
def maxShift : Nat := 2045

/-- The quotient rounded to the nearest integer, to the even one of two. -/
def roundDiv (num den : Nat) : Nat :=
  let q := num / den
  let r := num % den
  if den < 2 * r || (2 * r == den && q % 2 == 1) then q + 1 else q

/-- The number nearest to a ratio of natural numbers. -/
def ofRatio (negative : Bool) (num den : Nat) : Binary64 :=
  let scaled := num * unitParts
  let shift := Nat.log2 (scaled / den) + 1 - 53
  let mantissa := roundDiv scaled (den <<< shift)
  -- Rounding up can reach the next power of two, which has one digit more.
  let carried := mantissa == 1 <<< 53
  let mantissa := if carried then 1 <<< 52 else mantissa
  let shift := if carried then shift + 1 else shift
  if maxShift < shift then .infinity negative else .finite negative mantissa shift

/-- The number nearest to `digits * 10 ^ exponent`. -/
def ofDecimal (negative : Bool) (digits : Nat) (exponent : Int) : Binary64 :=
  let magnitude := exponent + (Nat.toDigits 10 digits).length
  -- Far outside the format the result is known without computing the power.
  if digits = 0 || magnitude < -400 then .finite negative 0 0
  else if 400 < magnitude then .infinity negative
  else
    match exponent with
    | .ofNat e => ofRatio negative (digits * tenTo e) 1
    | .negSucc e => ofRatio negative digits (tenTo (e + 1))

/-- The magnitude of a finite number as a multiple of the smallest positive
    one. -/
def units (mantissa shift : Nat) : Nat :=
  mantissa <<< shift

/-- The number is one of the two zeros. -/
def isZero : Binary64 → Bool
  | .finite _ mantissa _ => mantissa == 0
  | _ => false

/-- Equality of numbers: nothing equals what is not a number, and the two zeros
    are equal. -/
def same : Binary64 → Binary64 → Bool
  | .infinity s, .infinity s' => s == s'
  | .finite s m e, .finite s' m' e' =>
      units m e == units m' e' && (s == s' || m == 0)
  | _, _ => false

/-- Equality with an integer. -/
def sameInt : Binary64 → Int → Bool
  | .finite negative m e, n =>
      units m e == n.natAbs * unitParts && (m == 0 || negative == decide (n < 0))
  | _, _ => false

/-- The integer part of a finite number, its fraction cut off towards zero. -/
def truncate (negative : Bool) (mantissa shift : Nat) : Int :=
  let n : Int := (units mantissa shift / unitParts : Nat)
  if negative then -n else n

/-- A finite number as a multiple of the smallest positive one. -/
def signedUnits (negative : Bool) (mantissa shift : Nat) : Int :=
  if negative then -(units mantissa shift : Int) else units mantissa shift

/-- The number nearest to a ratio of an integer and a natural number. -/
def ofIntRatio (num : Int) (den : Nat) : Binary64 :=
  ofRatio (decide (num < 0)) num.natAbs den

/-- The number with the other sign. -/
def neg : Binary64 → Binary64
  | .nan => .nan
  | .infinity negative => .infinity !negative
  | .finite negative mantissa shift => .finite (!negative) mantissa shift

/-- The sum, rounded to the nearest number. Infinities of both signs have
    none, and only two zeros below zero add up to such a zero. -/
def add : Binary64 → Binary64 → Binary64
  | .nan, _ => .nan
  | _, .nan => .nan
  | .infinity s, .infinity s' => if s = s' then .infinity s else .nan
  | .infinity s, .finite _ _ _ => .infinity s
  | .finite _ _ _, .infinity s => .infinity s
  | .finite s m e, .finite s' m' e' =>
      if m = 0 ∧ m' = 0 then .finite (s && s') 0 0
      else ofIntRatio (signedUnits s m e + signedUnits s' m' e') unitParts

/-- The difference, rounded to the nearest number. -/
def sub (x y : Binary64) : Binary64 :=
  x.add y.neg

/-- The quotient by a natural number that is not zero, rounded to the nearest
    number. -/
def divNat (x : Binary64) (n : Nat) : Binary64 :=
  match x with
  | .finite negative m e => ofRatio negative (units m e) (unitParts * n)
  | other => other

/-- The first number is less than the second. What is not a number is neither
    less nor more than any. -/
def below : Binary64 → Binary64 → Bool
  | .infinity s, .infinity s' => s && !s'
  | .infinity s, .finite _ _ _ => s
  | .finite _ _ _, .infinity s => !s
  | .finite s m e, .finite s' m' e' => decide (signedUnits s m e < signedUnits s' m' e')
  | _, _ => false

end Binary64

end QueryDesk
