/-!
# Shortest decimals

A binary floating-point number is written with the fewest digits that read back as the same number;
of two such decimals the nearer is taken, and of two equally near ones the even.  Small and moderate
exponents are written positionally, others with an exponent.

## Main definitions

* `Binary` — a positive number `mantissa * 2 ^ exponent`, and the numbers that round to it.
* `Decimal`, `Binary.shortest` — the digits of its shortest decimal.
* `showFloat` — the text of any number.
* `exactInt?` — the integer that a number is.
-/

namespace StarlarkLint.Text

/-- A positive finite number: `mantissa * 2 ^ exponent`. -/
structure Binary where
  /-- The integer factor. -/
  mantissa : Nat
  /-- The power of two. -/
  exponent : Int
  /-- Whether the gap to the next smaller number is half the gap to the next larger one. -/
  narrowBelow : Bool
  deriving DecidableEq, Repr

/-- A decimal `0.d₁d₂… * 10 ^ point`. -/
structure Decimal where
  /-- The digits, the first of them not zero. -/
  digits : List Char
  /-- The place of the decimal point, counted from the first digit. -/
  point : Int
  deriving DecidableEq, Repr

namespace Binary

/-- A quarter of the unit of the mantissa, as numerator and denominator. -/
def quarter (b : Binary) : Nat × Nat :=
  if 2 ≤ b.exponent then (Nat.pow 2 (b.exponent - 2).toNat, 1)
  else (1, Nat.pow 2 (2 - b.exponent).toNat)

/-- The number times `10 ^ scale`, with the ends of the interval that rounds to it, as numerators
over one denominator. -/
def scaled (b : Binary) (scale : Int) : (Nat × Nat × Nat) × Nat :=
  let (unit, denominator) := b.quarter
  let (up, down) :=
    if 0 ≤ scale then (Nat.pow 10 scale.toNat, 1) else (1, Nat.pow 10 (-scale).toNat)
  let at_ (quarters : Nat) : Nat := quarters * unit * up
  ((at_ (4 * b.mantissa - if b.narrowBelow then 1 else 2), at_ (4 * b.mantissa),
    at_ (4 * b.mantissa + 2)), denominator * down)

/-- The least power of ten above the number, as an exponent. -/
def point (b : Binary) : Int :=
  let above (e : Int) : Bool :=
    let ((_, value, _), denominator) := b.scaled (-e)
    value < denominator
  (((List.range 700).map fun (n : Nat) => (n : Int) - 340).find? above).getD 0

/-- The decimal with the given number of digits that lies in the interval, the nearer one if there
are two. -/
def withDigits? (b : Binary) (count : Nat) : Option Nat :=
  let ((low, value, high), denominator) := b.scaled ((count : Int) - b.point)
  let closed := b.mantissa % 2 == 0
  -- a number that lies halfway rounds to the even mantissa, so that only then the ends count
  let inside (d : Nat) : Bool :=
    let x := d * denominator
    if closed then low ≤ x ∧ x ≤ high else low < x ∧ x < high
  let down := value / denominator
  let up := down + 1
  let downGap := value - down * denominator
  let upGap := up * denominator - value
  let preferDown := downGap < upGap ∨ downGap = upGap ∧ down % 2 = 0
  match inside down, inside up with
  | true, true => some (if preferDown then down else up)
  | true, false => some down
  | false, true => some up
  | false, false => none

/-- The digits of a number without the zeros behind the last other digit. -/
def significant (n : Nat) : List Char :=
  ((Nat.toDigits 10 n).reverse.dropWhile (· = '0')).reverse

/-- The shortest decimal that reads back as the number. -/
def shortest (b : Binary) : Decimal :=
  match (List.range 17).findSome? fun n => (b.withDigits? (n + 1)).map ((n + 1, ·)) with
  | some (count, n) =>
    -- rounding up may have led to the next power of ten
    let carried : Int := (Nat.toDigits 10 n).length - count
    ⟨significant n, b.point + carried⟩
  | none => ⟨['0'], 1⟩

end Binary

namespace Decimal

/-- Zeros. -/
def zeros (n : Nat) : List Char := List.replicate n '0'

/-- The decimal with its point written in place. -/
def positional (d : Decimal) : List Char :=
  if d.point ≤ 0 then '0' :: '.' :: zeros (-d.point).toNat ++ d.digits
  else
    let whole := d.point.toNat
    if d.digits.length ≤ whole then d.digits ++ zeros (whole - d.digits.length) ++ ['.', '0']
    else d.digits.take whole ++ '.' :: d.digits.drop whole

/-- The decimal with an exponent, of at least two digits. -/
def scientific (d : Decimal) : List Char :=
  let exponent := d.point - 1
  let sign := if exponent < 0 then '-' else '+'
  let size := Nat.toDigits 10 exponent.natAbs
  let head := match d.digits with
    | [] => []
    | [c] => [c]
    | c :: cs => c :: '.' :: cs
  head ++ 'e' :: sign :: zeros (2 - size.length) ++ size

/-- The decimal as it is written: positionally from one ten-thousandth up to ten to the
sixteenth. -/
def text (d : Decimal) : List Char :=
  if -4 < d.point ∧ d.point ≤ 16 then d.positional else d.scientific

end Decimal

/-- The positive finite number with the given bits. -/
def Binary.ofBits (bits : Nat) : Binary :=
  let fraction : Nat := bits % Nat.pow 2 52
  let power : Nat := bits / Nat.pow 2 52 % Nat.pow 2 11
  if power = 0 then ⟨fraction, -1074, false⟩
  else ⟨fraction + Nat.pow 2 52, (power : Int) - 1075, fraction = 0 ∧ 1 < power⟩

/-- The integer that a number is, if it is one. -/
def exactInt? (x : Float) : Option Int :=
  let bits := x.toBits.toNat
  let magnitude := bits % Nat.pow 2 63
  if 0x7ff0000000000000 ≤ magnitude then none
  else
    let b := Binary.ofBits magnitude
    let sign (n : Nat) : Int := if bits / Nat.pow 2 63 = 1 then -n else n
    if 0 ≤ b.exponent then some (sign (b.mantissa * Nat.pow 2 b.exponent.toNat))
    else
      let unit := Nat.pow 2 (-b.exponent).toNat
      if b.mantissa % unit = 0 then some (sign (b.mantissa / unit)) else none

/-- The text of a number. -/
def showFloat (x : Float) : String :=
  let bits := x.toBits.toNat
  let magnitude := bits % Nat.pow 2 63
  let sign := if bits / Nat.pow 2 63 = 1 then "-" else ""
  if 0x7ff0000000000000 < magnitude then "nan"
  else if magnitude = 0x7ff0000000000000 then sign ++ "inf"
  else if magnitude = 0 then sign ++ "0.0"
  else sign ++ String.ofList (Binary.ofBits magnitude).shortest.text

end StarlarkLint.Text
