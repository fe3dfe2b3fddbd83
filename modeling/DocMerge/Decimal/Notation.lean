import DocMerge.Decimal.Shortest

/-!
# The text of a number

A double is written with the fewest digits that read back. Numbers from `10 ^ -4` up to, but not
including, `10 ^ 16` are written positionally and always with a point; others have one digit before
the point and an exponent of at least two digits.
-/

namespace DocMerge.Decimal

def zeros (n : Nat) : String := String.ofList (List.replicate n '0')

/-- Positional notation of digits whose point stands behind `whole` of them. -/
def positional (digits : String) (whole : Int) : String :=
  if whole ≤ 0 then "0." ++ zeros whole.natAbs ++ digits
  else if whole.toNat < digits.length then
    (digits.take whole.toNat).toString ++ "." ++ (digits.drop whole.toNat).toString
  else digits ++ zeros (whole.toNat - digits.length) ++ ".0"

def twoDigits (n : Nat) : String := if n < 10 then "0" ++ Nat.repr n else Nat.repr n

def scientific (digits : String) (power : Int) : String :=
  let rest := (digits.drop 1).toString
  (digits.take 1).toString ++ (if rest.isEmpty then "" else "." ++ rest) ++
    (if power < 0 then "e-" else "e+") ++ twoDigits power.natAbs

def Digits.render (d : Digits) : String :=
  let digits := Nat.repr d.digits
  let whole : Int := digits.length + d.exponent
  if -4 < whole && whole ≤ 16 then positional digits whole else scientific digits (whole - 1)

def render (x : Float) : String :=
  let bits := x.toBits.toNat
  let negative := bits / Nat.pow 2 63 = 1
  if bits / Nat.pow 2 52 % Nat.pow 2 11 = 2047 then
    if bits % Nat.pow 2 52 ≠ 0 then "nan" else if negative then "-inf" else "inf"
  else
    let magnitude := Binary.ofBits (bits % Nat.pow 2 63)
    let text :=
      if magnitude.mantissa = 0 then "0.0" else (Digits.reduce 400 magnitude.shortest).render
    if negative then "-" ++ text else text

end DocMerge.Decimal
