import SolidityServer.Json.Double

/-! Doubles written with a given number of digits. The exact value is rounded, a tie to the even
digit. -/

namespace SolidityServer.Double

/-- A magnitude as a ratio of whole numbers. -/
def ratio (mantissa : Nat) (exponent : Int) : Nat × Nat := scale 2 mantissa 1 exponent

/-- The power of ten of the leading digit of a ratio, zero for zero. -/
def leadingPower (num den : Nat) : Int :=
  if num == 0 then 0
  else
    let guess : Int := digitCount num - digitCount den
    let (n, d) := scale 10 num den (-guess)
    if n < d then guess - 1 else guess

/-- Digits with a point before the last `places`; `point` keeps it even if there are none. -/
def pointed (point : Bool) (places n : Nat) : List Char :=
  let digits := Nat.toDigits 10 n
  let digits := List.replicate (places + 1 - digits.length) '0' ++ digits
  let whole := digits.take (digits.length - places)
  let fraction := digits.drop (digits.length - places)
  if fraction.isEmpty && !point then whole else whole ++ '.' :: fraction

/-- Without the zeros at the end of a fraction, and without the point if nothing else is left of it.
-/
def dropZeros (cs : List Char) : List Char :=
  if cs.contains '.' then
    match cs.reverse.dropWhile (· == '0') with
    | '.' :: rest => rest.reverse
    | rest => rest.reverse
  else cs

def fixed (point : Bool) (places num den : Nat) : List Char :=
  let (n, d) := scale 10 num den places
  pointed point places (roundEven n d)

/-- The leading digits of a ratio, `places` of them after the first, and the power of ten of the
first. -/
def leading (places num den : Nat) : Nat × Int :=
  let power := leadingPower num den
  let (n, d) := scale 10 num den (places - power)
  let digits := roundEven n d
  if digits == Nat.pow 10 (places + 1) then (Nat.pow 10 places, power + 1) else (digits, power)

/-- An exponent has a sign and two digits at least. -/
def exponentText (power : Int) : List Char :=
  let size := Nat.toDigits 10 power.natAbs
  ['e', if power < 0 then '-' else '+'] ++ List.replicate (2 - size.length) '0' ++ size

def scientific (point : Bool) (places num den : Nat) : List Char :=
  let (digits, power) := leading places num den
  pointed point places digits ++ exponentText power

/-- The shorter of the two forms with as many digits. Zeros at the end are dropped unless the point
is kept. -/
def general (point : Bool) (digits num den : Nat) : List Char :=
  let digits := max digits 1
  let (_, power) := leading (digits - 1) num den
  if -4 ≤ power && power < digits then
    let text := fixed point (digits - 1 - power).toNat num den
    if point then text else dropZeros text
  else
    let (n, power) := leading (digits - 1) num den
    let text := pointed point (digits - 1) n
    (if point then text else dropZeros text) ++ exponentText power

end SolidityServer.Double
