/-! Numbers of double precision in exact arithmetic: reading a decimal rounds to the nearest, ties
to the even one, and writing gives the fewest digits that read back. -/

namespace SolidityServer

/-- A finite number is `mantissa * 2 ^ exponent`. -/
inductive Double where
  | nan
  | infinite (negative : Bool)
  | finite (negative : Bool) (mantissa : Nat) (exponent : Int)
deriving Repr, DecidableEq, Inhabited

namespace Double

def leastExponent : Int := -1074

def greatestExponent : Int := 971

/-- The mantissa of a number that is not too small for it has 53 bits. -/
def mantissaLimit : Nat := Nat.pow 2 53

def leastMantissa : Nat := Nat.pow 2 52

def zero (negative : Bool) : Double := .finite negative 0 leastExponent

/-- The larger power goes to the numerator or to the denominator, whichever keeps both whole. -/
def scale (base : Nat) (num den : Nat) (power : Int) : Nat × Nat :=
  if 0 ≤ power then (num * Nat.pow base power.toNat, den)
  else (num, den * Nat.pow base (-power).toNat)

/-- The whole number nearest to `num / den`, the even one of two. -/
def roundEven (num den : Nat) : Nat :=
  let q := num / den
  let twice := 2 * (num % den)
  if twice < den then q
  else if den < twice then q + 1
  else if q % 2 == 0 then q else q + 1

/-- The double nearest to `num / den`. -/
def ofRatio (negative : Bool) (num den : Nat) : Double :=
  if num == 0 then zero negative
  else
    let guess : Int := (Nat.log2 num : Int) - (Nat.log2 den : Int) - 53
    let exponentFor (e : Int) : Nat :=
      let (n, d) := scale 2 num den (-e)
      n / d
    let guess := if mantissaLimit ≤ exponentFor guess then guess + 1 else guess
    let exponent := max guess leastExponent
    let (n, d) := scale 2 num den (-exponent)
    let mantissa := roundEven n d
    let (mantissa, exponent) :=
      if mantissa == mantissaLimit then (leastMantissa, exponent + 1) else (mantissa, exponent)
    if greatestExponent < exponent then .infinite negative else .finite negative mantissa exponent

def digitCount (n : Nat) : Nat := (Nat.toDigits 10 n).length

/-- The double nearest to `digits * 10 ^ power`. Powers far outside the range are not computed. -/
def ofDecimal (negative : Bool) (digits : Nat) (power : Int) : Double :=
  let magnitude : Int := digitCount digits + power
  if digits == 0 || magnitude < -330 then zero negative
  else if 310 < magnitude then .infinite negative
  else
    let (num, den) := scale 10 digits 1 power
    ofRatio negative num den

/-- The number without its fraction. -/
def truncate (negative : Bool) (mantissa : Nat) (exponent : Int) : Int :=
  let (num, den) := scale 2 mantissa 1 exponent
  let whole : Int := (num / den : Nat)
  if negative then -whole else whole

/-- Whether the double is the whole number `n`. -/
def equals (d : Double) (n : Int) : Bool :=
  match d with
  | .finite negative mantissa exponent =>
    let (num, den) := scale 2 mantissa 1 exponent
    num % den == 0 && truncate negative mantissa exponent == n
  | _ => false

def isZero : Double → Bool
  | .finite _ mantissa _ => mantissa == 0
  | _ => false

/-- Decimals `d * 10 ^ k` that read back as `mantissa * 2 ^ exponent`, next to it on the grid of
`10 ^ k`, the nearer one first. -/
def gridNeighbours (mantissa : Nat) (exponent k : Int) : List Nat :=
  let low :=
    if mantissa == leastMantissa && leastExponent < exponent then 4 * mantissa - 1
    else 4 * mantissa - 2
  let high := 4 * mantissa + 2
  let quarter := exponent - 2
  let measure (x : Nat) : Nat := (scale 10 (scale 2 x 1 quarter).1 1 (-k)).1
  let unit : Nat := (scale 10 (scale 2 1 1 (-quarter)).1 1 k).1
  let below := measure (4 * mantissa) / unit
  let inside (d : Nat) : Bool :=
    let point := d * unit
    0 < d && if mantissa % 2 == 0 then measure low ≤ point && point ≤ measure high
      else measure low < point && point < measure high
  let nearerAbove : Bool :=
    2 * measure (4 * mantissa) > (2 * below + 1) * unit
      || (2 * measure (4 * mantissa) == (2 * below + 1) * unit && below % 2 == 1)
  let candidates := if nearerAbove then [below + 1, below] else [below, below + 1]
  candidates.filter inside

/-- Try ever finer grids. -/
def searchGrid (mantissa : Nat) (exponent : Int) : Nat → Int → Nat × Int
  | 0, k => (0, k)
  | n + 1, k =>
    match gridNeighbours mantissa exponent k with
    | d :: _ => (d, k)
    | [] => searchGrid mantissa exponent n (k - 1)

/-- The decimal with the fewest digits that reads back, as digits and power of ten. -/
def shortest (mantissa : Nat) (exponent : Int) : Nat × Int :=
  let bits : Int := (Nat.log2 mantissa : Int) + exponent
  searchGrid mantissa exponent 24 (Int.fdiv (bits * 30103) 100000 + 2)

/-- Decimals are written out for powers of ten from -4 up to 15 and keep a point; others have an
exponent of two digits at least. -/
def textOf (digits : List Char) (power : Int) : List Char :=
  let point : Int := digits.length + power
  if -4 < point && point ≤ 16 then
    if point ≤ 0 then "0.".toList ++ List.replicate (-point).toNat '0' ++ digits
    else if digits.length ≤ point.toNat then
      digits ++ List.replicate (point.toNat - digits.length) '0' ++ ".0".toList
    else digits.take point.toNat ++ ['.'] ++ digits.drop point.toNat
  else
    let exponent := point - 1
    let size := Nat.toDigits 10 exponent.natAbs
    let fraction := match digits.drop 1 with
      | [] => []
      | rest => '.' :: rest
    digits.take 1 ++ fraction ++ ['e', if exponent < 0 then '-' else '+']
      ++ List.replicate (2 - size.length) '0' ++ size

def toText : Double → String
  | .nan => "nan"
  | .infinite negative => if negative then "-inf" else "inf"
  | .finite negative mantissa exponent =>
    let sign := if negative then ['-'] else []
    if mantissa == 0 then String.ofList (sign ++ "0.0".toList)
    else
      let (digits, power) := shortest mantissa exponent
      String.ofList (sign ++ textOf (Nat.toDigits 10 digits) power)

end Double

end SolidityServer
