import PageMarkup.Text.Digits

/-!
# Double precision

Numbers with 53 binary digits. A quotient is rounded to the nearest such number, halves to even.
Decimals are read with a few such roundings: the digits that fit a machine word are rounded, and so
is the power of ten that they are multiplied with or divided by. `shortest` finds the fewest digits
that are closer to a number than to any other.
-/

namespace PageMarkup

/-- A quotient as a whole number, halves to even. -/
def roundDiv (num den : Nat) : Nat :=
  let twice := 2 * (num % den)
  if twice < den ∨ (twice = den ∧ num / den % 2 = 0) then num / den else num / den + 1

/-- `significand * 2 ^ exponent`. -/
structure Double where
  significand : Nat
  exponent : Int
  deriving DecidableEq, Repr

namespace Double

def zero : Double := ⟨0, -1074⟩

def ofRatio (num den : Nat) : Double :=
  let low : Int := max (-1074) ((num.log2 : Int) - den.log2 - 53)
  let units (e : Int) : Nat × Nat := (num * Nat.pow 2 (-e).toNat, den * Nat.pow 2 e.toNat)
  let exponent := if Nat.pow 2 53 ≤ (units low).1 / (units low).2 then low + 1 else low
  let significand := roundDiv (units exponent).1 (units exponent).2
  if num = 0 then zero
  else if significand = Nat.pow 2 53 then ⟨Nat.pow 2 52, exponent + 1⟩
  else ⟨significand, exponent⟩

def num (d : Double) : Nat :=
  d.significand * Nat.pow 2 d.exponent.toNat

def den (d : Double) : Nat :=
  Nat.pow 2 (-d.exponent).toNat

def isFinite (d : Double) : Bool :=
  d.exponent ≤ 971

def mul (a b : Double) : Double :=
  ofRatio (a.num * b.num) (a.den * b.den)

def div (a b : Double) : Double :=
  ofRatio (a.num * b.den) (a.den * b.num)

/-! ## Reading -/

def greatestPower : Nat := 308

def powerOfTen (k : Nat) : Double :=
  ofRatio (Nat.pow 10 k) 1

/-- Divides by a power of ten, in steps if the power is out of range. -/
def shrink (d : Double) (k : Nat) : Double :=
  if k ≤ greatestPower then d.div (powerOfTen k)
  else if d.significand = 0 then d
  else shrink (d.div (powerOfTen greatestPower)) (k - greatestPower)
termination_by k
decreasing_by simp only [greatestPower] at *; omega

def grow? (d : Double) (k : Nat) : Option Double :=
  if d.significand = 0 then some d
  else if k ≤ greatestPower then some (d.mul (powerOfTen k)) |>.filter isFinite
  else none

/-- Continues a number with digits as long as it fits a word, and gives the digits left over. -/
def absorb (n : Nat) : Text → Nat × Text
  | [] => (n, [])
  | c :: cs =>
    let next := n * 10 + (c.toNat - '0'.toNat)
    if next < Nat.pow 2 64 then absorb next cs else (n, c :: cs)

def ofDecimal? (whole fraction : Text) (exponent : Int) : Option Double :=
  let (n, skipped) := absorb 0 whole
  let (n, ignored) := absorb n fraction
  let power := exponent + skipped.length - (fraction.length - ignored.length : Nat)
  let d := ofRatio n 1
  if 0 ≤ power then d.grow? power.toNat else some (d.shrink (-power).toNat)

/-! ## Writing -/

def leading (num den : Nat) : Int :=
  let e : Int := (Nat.toDigits 10 num).length - (Nat.toDigits 10 den).length
  if den * Nat.pow 10 e.toNat ≤ num * Nat.pow 10 (-e).toNat then e else e - 1

/-- The nearest multiple of a power of ten to the number among those that read back as it. -/
def multiple? (d : Double) (power : Int) : Option Nat :=
  let n := d.num * Nat.pow 10 (-power).toNat
  let m := d.den * Nat.pow 10 power.toNat
  let readsBack (k : Nat) : Bool := ofRatio (k * Nat.pow 10 power.toNat) (Nat.pow 10 (-power).toNat) = d
  match readsBack (n / m), readsBack (n / m + 1) with
  | true, true => some (roundDiv n m)
  | true, false => some (n / m)
  | false, true => some (n / m + 1)
  | false, false => none

def exact (d : Double) : Nat × Int :=
  if 0 ≤ d.exponent then (d.num, 0) else (d.significand * Nat.pow 5 (-d.exponent).toNat, d.exponent)

/-- The fewest digits that read back as the number, as a whole number and a power of ten. -/
def shortest (d : Double) : Nat × Int :=
  let top := leading d.num d.den
  let found := (List.range 17).findSome? fun (count : Nat) =>
    (d.multiple? (top - count)).map (·, top - count)
  if d.significand = 0 then (0, 0) else found.getD d.exact

end Double

end PageMarkup
