/-!
# Binary floating point numbers as exact fractions

A double stands for a sign and `mantissa * 2 ^ exponent`, or for an infinity or no number at all.
Reading a double apart and rounding a fraction to the nearest double work on its 64 bits, so both
are exact arithmetic on natural numbers.
-/

namespace SqlFront.Decimal

/-- What the bits of a double stand for. -/
inductive Binary where
  /-- No number. -/
  | nan
  /-- An infinity. -/
  | infinite (negative : Bool)
  /-- The number `mantissa * 2 ^ exponent`, or its opposite. `narrowBelow` says that the next
      smaller double is half as far away as the next larger one. -/
  | finite (negative : Bool) (mantissa : Nat) (exponent : Int) (narrowBelow : Bool)
  deriving DecidableEq, Repr

/-- A power of two. -/
def twoTo (n : Nat) : Nat := Nat.pow 2 n

/-- A power of ten. -/
def tenTo (n : Nat) : Nat := Nat.pow 10 n

/-- The weight of the sign bit. -/
def signBit : Nat := twoTo 63

/-- The weight of the lowest exponent bit, one more than the greatest fraction field. -/
def exponentBit : Nat := twoTo 52

/-- The bits of positive infinity: every exponent bit and nothing else. -/
def infinityBits : Nat := 2047 * exponentBit

/-- The bits of the one undefined number that reading produces. -/
def nanBits : Nat := infinityBits + twoTo 51

/-- Read 64 bits apart into sign, exponent field and fraction field. -/
def Binary.ofBits (bits : Nat) : Binary :=
  let negative := bits / signBit % 2 == 1
  let field : Nat := bits / exponentBit % 2048
  let fraction : Nat := bits % exponentBit
  if field = 2047 then
    if fraction = 0 then .infinite negative else .nan
  else if field = 0 then .finite negative fraction (-1074) false
  else .finite negative (exponentBit + fraction) ((field : Int) - 1075) (fraction == 0 && 1 < field)

/-- What a double stands for. -/
def Binary.ofFloat (x : Float) : Binary :=
  Binary.ofBits x.toBits.toNat

/-- The quotient rounded to the nearest whole number, a half to the even neighbour. -/
def divNearestEven (num den : Nat) : Nat :=
  let q := num / den
  let r := num % den
  if 2 * r < den then q
  else if den < 2 * r then q + 1
  else if q % 2 = 0 then q else q + 1

/-- The exponent `e` with `2 ^ e ≤ num / den < 2 ^ (e + 1)`, for a positive fraction. -/
def floorLog2 (num den : Nat) : Int :=
  let e : Int := (num.log2 : Int) - den.log2
  if num * twoTo (-e).toNat < den * twoTo e.toNat then e - 1 else e

/-- The bits of the double nearest to a fraction, a half to the even neighbour; from half a step
    above the largest double on, positive infinity. -/
def nearestBits (num den : Nat) : Nat :=
  if num = 0 then 0
  else
    let exponent := max (floorLog2 num den - 52) (-1074)
    let mantissa := divNearestEven (num * twoTo (-exponent).toNat) (den * twoTo exponent.toNat)
    let bits :=
      if mantissa < exponentBit then mantissa
      else (exponent + 1075).toNat * exponentBit + (mantissa - exponentBit)
    min bits infinityBits

/-- The double with the given sign and the bits of its magnitude. -/
def floatOfBits (negative : Bool) (bits : Nat) : Float :=
  Float.ofBits (UInt64.ofNat (if negative then signBit + bits else bits))

/-- Rounding to the nearest stays within half a unit. -/
theorem divNearestEven_close (num : Nat) {den : Nat} (h : 0 < den) :
    2 * num ≤ 2 * (divNearestEven num den * den) + den ∧
      2 * (divNearestEven num den * den) ≤ 2 * num + den := by
  have hdiv := Nat.div_add_mod num den
  have hlt := Nat.mod_lt num h
  have hmul : den * (num / den) = num / den * den := Nat.mul_comm _ _
  simp only [divNearestEven]
  split
  · omega
  · split
    · rw [Nat.add_mul]; omega
    · split
      · omega
      · rw [Nat.add_mul]; omega

end SqlFront.Decimal
