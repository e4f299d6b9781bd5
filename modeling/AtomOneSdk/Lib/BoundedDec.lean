import AtomOneSdk.Lib.Decimal

/-!
Contract: decimals of bounded size, whose arithmetic panics on overflow.

Owns: decimals whose integer part fits into 256 bits, their sum, difference, product and quotient as
partial functions (nothing is returned where the code panics), and when each of them
returns.

Does **not** own: rounding; it is that of the unbounded decimals.
-/

namespace AtomOneSdk.Lib

/-- The first number of units out of range: the greatest decimal is the greatest integer of
256 bits. -/
def decLimit : Nat := (2 ^ 256 - 1) * 10 ^ 18 + 1

@[ext]
structure BoundedDec where
  units : Int
  fits : units.natAbs < decLimit
deriving DecidableEq

namespace BoundedDec

/-- The decimal of a number of units, if it fits. -/
def ofUnits? (units : Int) : Option BoundedDec :=
  if fits : units.natAbs < decLimit then some ⟨units, fits⟩ else none

def zero : BoundedDec := ⟨0, by decide⟩

def one : BoundedDec := ⟨Dec.one, by decide⟩

def half : BoundedDec := ⟨500000000000000000, by decide⟩

def percent : BoundedDec := ⟨10000000000000000, by decide⟩

def add (left right : BoundedDec) : Option BoundedDec := ofUnits? (left.units + right.units)

def sub (left right : BoundedDec) : Option BoundedDec := ofUnits? (left.units - right.units)

def mul (left right : BoundedDec) : Option BoundedDec := ofUnits? (Dec.mul left.units right.units)

/-- Division by zero panics too. -/
def quo (left right : BoundedDec) : Option BoundedDec :=
  if right.units = 0 then none else ofUnits? (Dec.quo left.units right.units)

def ofInt? (value : Int) : Option BoundedDec := ofUnits? (Dec.ofInt value)

def neg (value : BoundedDec) : BoundedDec := ⟨-value.units, by
  rw [Int.natAbs_neg]
  exact value.fits⟩

theorem ofUnits?_eq_some {units : Int} {value : BoundedDec} :
    ofUnits? units = some value ↔ value.units = units := by
  unfold ofUnits?
  constructor
  · intro found
    split_ifs at found
    cases found
    rfl
  · intro same
    have fits : units.natAbs < decLimit := by
      rw [← same]
      exact value.fits
    rw [dif_pos fits]
    congr 1
    cases value
    cases same
    rfl

theorem exists_ofUnits? {units : Int} (fits : units.natAbs < decLimit) :
    ∃ value, ofUnits? units = some value ∧ value.units = units :=
  ⟨⟨units, fits⟩, dif_pos fits, rfl⟩

theorem units_add {left right sum : BoundedDec} (added : left.add right = some sum) :
    sum.units = left.units + right.units := ofUnits?_eq_some.mp added

theorem units_mul {left right product : BoundedDec} (multiplied : left.mul right = some product) :
    product.units = Dec.mul left.units right.units := ofUnits?_eq_some.mp multiplied

end BoundedDec

end AtomOneSdk.Lib
