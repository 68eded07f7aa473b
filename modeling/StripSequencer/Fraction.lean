/-!
# `StripSequencer.Fraction` — fractions rounded to 53 binary digits

Parts of a time unit are computed with 53 significant binary digits: after each operation the result is
replaced by the nearest fraction with a numerator of at most 53 digits over, or times, a power of two,
and of two that are equally near by the one with the even numerator.
-/

namespace StripSequencer

/-- A fraction that is not negative. -/
structure Fraction where
  numerator : Nat
  denominator : Nat := 1
deriving DecidableEq, Repr

namespace Fraction

/-- The number of significant digits. -/
def precision : Nat := 53

/-- `n / d` rounded to a whole number, a half to the even neighbour. -/
def roundDiv (n d : Nat) : Nat :=
  let quotient := n / d
  let twice := 2 * (n % d)
  if twice < d then quotient
  else if d < twice then quotient + 1
  else if quotient % 2 = 0 then quotient else quotient + 1

/-- The fraction times `2 ^ k`. -/
def scale (k : Int) (f : Fraction) : Fraction :=
  if 0 ≤ k then { f with numerator := f.numerator <<< k.toNat }
  else { f with denominator := f.denominator <<< (-k).toNat }

/-- The exponent by which a fraction has to be scaled to lie between `2 ^ 52` and `2 ^ 53`. -/
def shift (f : Fraction) : Int :=
  let guess : Int := (precision - 1 : Nat) - ((Nat.log2 f.numerator : Int) - Nat.log2 f.denominator)
  let scaled := f.scale guess
  if scaled.numerator < scaled.denominator <<< (precision - 1) then guess + 1 else guess

/-- The nearest fraction with 53 significant digits. -/
def rounded (f : Fraction) : Fraction :=
  if f.numerator = 0 then ⟨0, 1⟩
  else
    let scaled := f.scale f.shift
    (⟨roundDiv scaled.numerator scaled.denominator, 1⟩ : Fraction).scale (-f.shift)

/-- A whole number, rounded. -/
def ofNat (n : Nat) : Fraction := (⟨n, 1⟩ : Fraction).rounded

/-- The product of two fractions, rounded. -/
def mul (a b : Fraction) : Fraction :=
  (⟨a.numerator * b.numerator, a.denominator * b.denominator⟩ : Fraction).rounded

/-- The quotient of two fractions, rounded. -/
def div (a b : Fraction) : Fraction :=
  (⟨a.numerator * b.denominator, a.denominator * b.numerator⟩ : Fraction).rounded

/-- The whole part of a fraction. -/
def floor (f : Fraction) : Nat := f.numerator / f.denominator

end Fraction

end StripSequencer
