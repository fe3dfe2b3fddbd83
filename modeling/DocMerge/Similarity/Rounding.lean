/-!
# Numbers of double precision

A score is computed with numbers of 53 significant bits: a quotient and a product are rounded to the
nearest such number and, of two that are equally near, to the one whose last bit is zero. Counts of
characters are exact, and scores lie between zero and a hundred, where no exponent is out of range.
-/

namespace DocMerge.Similarity

/-- The nearest whole number; of two that are equally near, the even one. -/
def nearestEven (x : Rat) : Int :=
  let below := x.floor
  let rest := x - below
  if rest < 1 / 2 ∨ (rest = 1 / 2 ∧ below % 2 = 0) then below else below + 1

def exponent (x : Rat) : Int :=
  let e : Int := x.num.natAbs.log2 - x.den.log2
  if x < 2 ^ e then e - 1 else e

def lastBit (x : Rat) : Rat := 2 ^ (exponent x - 52)

def rounded (x : Rat) : Rat :=
  if x = 0 then 0 else nearestEven (x / lastBit x) * lastBit x

end DocMerge.Similarity

namespace DocMerge

abbrev Score := Rat

/-- The binary form of a score: the exponent behind a sign of zero, then all bits but the first. -/
def Score.toBits (score : Score) : UInt64 :=
  if score = 0 then 0
  else
    let e := Similarity.exponent score
    ((e + 1023).toNat <<< 52 + (score / 2 ^ (e - 52)).floor.toNat - 1 <<< 52).toUInt64

end DocMerge
