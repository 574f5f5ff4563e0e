import QueryDesk.Number.Binary64

/-!
# Shortest decimal text

A number is written with the fewest decimal digits that are read back as the
same number, and of two such decimals with the nearer one. For each count of
digits the only candidates are the two neighbours of the number on the grid of
decimals with that many digits, because the decimals that are read back as the
number form an interval around it.

The digits are written positionally when the point falls within or near them,
and with a power of ten otherwise.

## Main definitions

* `Binary64.shortest`: The fewest digits that read back, and the place of the
  point.
* `Binary64.text`: The number as it is written.
-/

namespace QueryDesk

namespace Binary64

/-- The decimal exponent of a positive ratio: the least power of ten above it.
    The search goes down from `top`. -/
def decimalTop (num den : Nat) : Nat → Int → Int
  | 0, k => k
  | fuel + 1, k =>
      let below :=
        match k - 1 with
        | .ofNat e => decide (num < den * tenTo e)
        | .negSucc e => decide (num * tenTo (e + 1) < den)
      if below then decimalTop num den fuel (k - 1) else k

/-- The integer part of a ratio divided by a power of ten, and twice what the
    division leaves, as a ratio to the divisor. -/
def gridFloor (num den : Nat) (grid : Int) : Nat × Nat × Nat :=
  match grid with
  | .ofNat e => (num / (den * tenTo e), 2 * (num % (den * tenTo e)), den * tenTo e)
  | .negSucc e => (num * tenTo (e + 1) / den, 2 * (num * tenTo (e + 1) % den), den)

/-- The decimal with at most `count` digits that reads back, if there is one:
    its digits as a number, and the power of ten they are multiplied by. -/
def decimalWith? (mantissa shift : Nat) (top : Int) (count : Nat) : Option (Nat × Int) :=
  let grid := top - count
  let (low, twiceRest, whole) := gridFloor (units mantissa shift) unitParts grid
  let readsBack := fun digits => ofDecimal false digits grid == .finite false mantissa shift
  -- The upper neighbour is the nearer one, or equally near with an even digit.
  let upper := whole < twiceRest || (twiceRest == whole && low % 2 == 1)
  if readsBack low && !(upper && readsBack (low + 1)) then some (low, grid)
  else if readsBack (low + 1) then some (low + 1, grid)
  else none

/-- The shortest decimal that reads back, tried from one digit to seventeen. -/
def shortestFrom (mantissa shift : Nat) (top : Int) : Nat → Nat → Nat × Int
  | 0, count => (gridFloor (units mantissa shift) unitParts (top - count)).1 |> (·, top - count)
  | fuel + 1, count =>
      match decimalWith? mantissa shift top count with
      | some found => found
      | none => shortestFrom mantissa shift top fuel (count + 1)

/-- The fewest digits of a positive number that read back, without zeros at
    their end, and how many of them stand before the point. -/
def shortest (mantissa shift : Nat) : Text × Int :=
  let top := decimalTop (units mantissa shift) unitParts 700 310
  let (digits, grid) := shortestFrom mantissa shift top 17 1
  let written := Nat.toDigits 10 digits
  let kept := (written.reverse.dropWhile (· == '0')).reverse
  (kept, grid + written.length)

/-- The digits with a point or a power of ten: positional when the point stands
    from three places before the digits to sixteen places after their start. -/
def place (digits : Text) (point : Int) : Text :=
  if -4 < point ∧ point ≤ 16 then
    if point ≤ 0 then "0." ++ List.replicate (-point).toNat '0' ++ digits
    else
      let whole := digits.take point.toNat
      let fraction := digits.drop point.toNat
      whole ++ List.replicate (point.toNat - digits.length) '0' ++ "."
        ++ (if fraction.isEmpty then ['0'] else fraction)
  else
    let fraction := digits.drop 1
    let power := Nat.toDigits 10 (point - 1).natAbs
    digits.take 1 ++ (if fraction.isEmpty then [] else '.' :: fraction) ++ "e"
      ++ (if point - 1 < 0 then ['-'] else ['+'])
      ++ (if power.length < 2 then '0' :: power else power)

/-- The number as it is written; `nan` and `inf` are the words of the reader. -/
def text (nan inf : Text) : Binary64 → Text
  | .nan => nan
  | .infinity negative => if negative then '-' :: inf else inf
  | .finite negative mantissa shift =>
      let magnitude : Text :=
        if mantissa = 0 then "0.0"
        else
          let (digits, point) := shortest mantissa shift
          place digits point
      if negative then '-' :: magnitude else magnitude

end Binary64

end QueryDesk
