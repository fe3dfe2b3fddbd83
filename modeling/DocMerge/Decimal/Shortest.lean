/-!
# Decimals and binary floating point

Reading a decimal as the nearest double, and writing a double with the fewest digits that read back
as the same double. A finite double is a whole number of steps of `10 ^ -1076`, and so are the ends
of the interval of numbers that are rounded to it; the search for digits is exact on that grid.
-/

namespace DocMerge.Decimal

/-- The double nearest to `mantissa * 10 ^ exponent`. Beyond the range of doubles the answer is
infinity or zero. -/
def toFloat (negative : Bool) (mantissa : Nat) (exponent : Int) : Float :=
  let size := (Nat.repr mantissa).length + exponent
  let magnitude : Float :=
    if mantissa = 0 || size < -400 then 0.0
    else if size > 400 then 1.0 / 0.0
    else Float.ofScientific mantissa (exponent < 0) exponent.natAbs
  if negative then -magnitude else magnitude

/-- A finite positive double as `mantissa * 2 ^ exponent`. -/
structure Binary where
  mantissa : Nat
  exponent : Int
  deriving Repr

def Binary.ofBits (bits : Nat) : Binary :=
  let fraction := bits % Nat.pow 2 52
  let biased : Nat := bits / Nat.pow 2 52 % Nat.pow 2 11
  if biased = 0 then ⟨fraction, -1074⟩ else ⟨fraction + Nat.pow 2 52, (biased : Int) - 1075⟩

/-- `count * 2 ^ exponent` in steps of `10 ^ -1076`, for exponents from -1076 on. -/
def steps (count : Nat) (exponent : Int) : Nat :=
  count * Nat.pow 2 (exponent + 1076).toNat * Nat.pow 5 1076

def Binary.value (b : Binary) : Nat := steps b.mantissa b.exponent

/-- The ends of the interval of numbers that are rounded to the double. Below a power of two the
neighbour is half as far away. -/
def Binary.interval (b : Binary) : Nat × Nat :=
  let below := if b.mantissa = Nat.pow 2 52 && b.exponent > -1074 then 1 else 2
  (steps (4 * b.mantissa - below) (b.exponent - 2), steps (4 * b.mantissa + 2) (b.exponent - 2))

/-- Whether a number of the grid is rounded to the double; the ends are when the mantissa is
even. -/
def Binary.holds (b : Binary) (n : Nat) : Bool :=
  let (low, high) := b.interval
  if b.mantissa % 2 = 0 then low ≤ n && n ≤ high else low < n && n < high

structure Digits where
  digits : Nat
  exponent : Int
  deriving Repr

/-- The multiple of `10 ^ place` that is nearest to the double, if one of its two neighbours there
is rounded to it. -/
def Binary.nearestAt? (b : Binary) (place : Nat) : Option Nat :=
  let unit := Nat.pow 10 place
  let below := b.value / unit
  let rest := b.value % unit
  let nearer := if 2 * rest < unit || (2 * rest = unit && below % 2 = 0) then below else below + 1
  let farther := if nearer = below then below + 1 else below
  if b.holds (nearer * unit) then some nearer
  else if b.holds (farther * unit) then some farther
  else none

def Binary.shortestFrom (b : Binary) : Nat → Digits
  | 0 => ⟨b.value, -1076⟩
  | place + 1 =>
    match b.nearestAt? place with
    | some digits => ⟨digits, (place : Int) - 1076⟩
    | none => b.shortestFrom place

def Binary.shortest (b : Binary) : Digits := b.shortestFrom ((Nat.repr b.value).length + 1)

/-- Moves zeros at the end of the digits into the power of ten. -/
def Digits.reduce : Nat → Digits → Digits
  | 0, d => d
  | fuel + 1, d =>
    if d.digits ≠ 0 && d.digits % 10 = 0 then Digits.reduce fuel
      ⟨d.digits / 10, d.exponent + 1⟩ else d

end DocMerge.Decimal
