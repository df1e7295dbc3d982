import PageMarkup.Json.Double

/-!
# Decimal numbers

Numbers with a fraction or an exponent, or with too many digits for a machine word. They have double
precision and are written with the fewest digits that tell them apart.
-/

namespace PageMarkup

structure Decimal where
  negative : Bool
  /-- A whole number without zeros at either end, to be multiplied by a power of ten. -/
  digits : Text
  exponent : Int
  deriving DecidableEq, Repr

namespace Decimal

def ofDouble (negative : Bool) (d : Double) : Decimal :=
  let (n, power) := d.shortest
  let digits := (Nat.toDigits 10 n).dropWhile (· = '0')
  let kept := (digits.reverse.dropWhile (· = '0')).reverse
  ⟨negative, kept, power + (digits.length - kept.length : Nat)⟩

def read? (negative : Bool) (whole fraction : Text) (exponent : Int) : Option Decimal :=
  (Double.ofDecimal? whole fraction exponent).map (ofDouble negative)

def zeros (count : Int) : Text :=
  List.replicate count.toNat '0'

def exponentText (e : Int) : Text :=
  'e' :: (if 0 ≤ e then '+' else '-') :: Nat.toDigits 10 e.natAbs

/-- Positional with at most sixteen digits before the point or four zeros behind it, else with one
digit before the point and an exponent. -/
def toText (d : Decimal) : String :=
  let sign := if d.negative then ['-'] else []
  let point := d.digits.length + d.exponent
  let written := match d.digits with
    | [] => ['0', '.', '0']
    | first :: rest =>
      if 0 ≤ d.exponent ∧ point ≤ 16 then d.digits ++ zeros d.exponent ++ ['.', '0']
      else if 0 < point ∧ point ≤ 16 then
        d.digits.take point.toNat ++ ['.'] ++ d.digits.drop point.toNat
      else if -5 < point ∧ point ≤ 0 then ['0', '.'] ++ zeros (-point) ++ d.digits
      else first :: (if rest.isEmpty then [] else '.' :: rest) ++ exponentText (point - 1)
  String.ofList (sign ++ written)

end Decimal

end PageMarkup
