import Mathlib.Data.List.Lex
import Mathlib.Tactic

/-!
Contract: strings over an ordered alphabet in the order of a key-value store.

Owns: how the order of strings behaves under equally long first parts, and numbers as
decimal digits of a fixed width.

Does **not** own: any particular key.
-/

namespace AtomOneSdk.Lib

open List

/-- Bytes have a zero. -/
instance byteNeZero : NeZero 256 := ⟨by decide⟩

instance byteStringLawfulBEq : LawfulBEq (List (Fin 256)) := inferInstance

section Strings

variable {α : Type} [LinearOrder α]

/-- Strings with first parts of one length are compared by these and then by the rest. -/
theorem append_lt_append_iff : ∀ {first second : List α} (left right : List α),
    first.length = second.length →
    (first ++ left < second ++ right ↔ first < second ∨ first = second ∧ left < right) := by
  intro first
  induction first with
  | nil =>
    intro second left right sameLength
    have empty : second = [] := length_eq_zero_iff.mp sameLength.symm
    rw [empty]
    constructor
    · exact fun before => .inr ⟨rfl, before⟩
    · intro before
      rcases before with impossible | ⟨_, before⟩
      · exact absurd impossible (lt_irrefl _)
      · exact before
  | cons head first rest =>
    intro second left right sameLength
    cases second with
    | nil => cases sameLength
    | cons head' second =>
      have shorter : first.length = second.length := Nat.succ.inj sameLength
      rw [cons_append, cons_append, cons_lt_cons_iff, cons_lt_cons_iff,
        rest left right shorter]
      constructor
      · intro before
        rcases before with before | ⟨same, before | ⟨sameRest, before⟩⟩
        · exact .inl (.inl before)
        · exact .inl (.inr ⟨same, before⟩)
        · exact .inr ⟨by rw [same, sameRest], before⟩
      · intro before
        rcases before with (before | ⟨same, before⟩) | ⟨same, before⟩
        · exact .inl before
        · exact .inr ⟨same, .inl before⟩
        · cases same
          exact .inr ⟨rfl, .inr ⟨rfl, before⟩⟩

end Strings

/-! ## Numbers -/

/-- Numbers are compared by their quotients and then by their remainders. -/
theorem lt_iff_div_mod (unit : Nat) {n m : Nat} :
    n < m ↔ n / unit < m / unit ∨ n / unit = m / unit ∧ n % unit < m % unit := by
  have first := Nat.div_add_mod n unit
  have second := Nat.div_add_mod m unit
  constructor
  · intro below
    rcases (Nat.div_le_div_right below.le).lt_or_eq with less | same
    · exact .inl less
    · rw [same] at first
      exact .inr ⟨same, by omega⟩
  · rintro (less | ⟨same, less⟩)
    · by_contra above
      exact absurd (Nat.div_le_div_right (not_lt.mp above)) (not_le.mpr less)
    · rw [same] at first
      omega

/-- The decimal digits of a number in ASCII, with leading zeros up to a width. -/
def paddedDecimal : Nat → Nat → List (Fin 256)
  | 0, _ => []
  | width + 1, n =>
    Fin.ofNat 256 (48 + n / 10 ^ width % 10) :: paddedDecimal width (n % 10 ^ width)

@[simp] theorem length_paddedDecimal (width : Nat) :
    ∀ n, (paddedDecimal width n).length = width := by
  induction width with
  | zero =>
    intro n
    rfl
  | succ width rest =>
    intro n
    rw [paddedDecimal, length_cons, rest]

/-- Texts that start with numbers of one width are compared by these and then by the rest. -/
theorem paddedDecimal_append_lt_iff (width : Nat) : ∀ {n m : Nat} (left right : List (Fin 256)),
    n < 10 ^ width → m < 10 ^ width →
    (paddedDecimal width n ++ left < paddedDecimal width m ++ right
      ↔ n < m ∨ n = m ∧ left < right) := by
  induction width with
  | zero =>
    intro n m left right nFits mFits
    have nZero : n = 0 := by omega
    have mZero : m = 0 := by omega
    simp [paddedDecimal, nZero, mZero]
  | succ width rest =>
    intro n m left right nFits mFits
    have positive : 0 < 10 ^ width := Nat.pow_pos (by decide)
    have digit : ∀ {k : Nat}, k < 10 ^ (width + 1) → k / 10 ^ width < 10 := by
      intro k fits
      rw [Nat.div_lt_iff_lt_mul positive, Nat.mul_comm]
      exact fits
    have nDigit := digit nFits
    have mDigit := digit mFits
    have same : n = m ↔ n / 10 ^ width = m / 10 ^ width ∧ n % 10 ^ width = m % 10 ^ width := by
      constructor
      · rintro rfl
        exact ⟨rfl, rfl⟩
      · rintro ⟨quotients, remainders⟩
        rw [← Nat.div_add_mod n (10 ^ width), quotients, remainders, Nat.div_add_mod]
    rw [paddedDecimal, paddedDecimal, cons_append, cons_append, cons_lt_cons_iff,
      rest left right (Nat.mod_lt _ positive) (Nat.mod_lt _ positive), Fin.lt_def, Fin.ext_iff,
      @lt_iff_div_mod (10 ^ width) n m, same]
    simp only [Fin.ofNat]
    generalize n / 10 ^ width = high at *
    generalize m / 10 ^ width = high' at *
    have order : (48 + high % 10) % 256 < (48 + high' % 10) % 256 ↔ high < high' := by omega
    have equal : (48 + high % 10) % 256 = (48 + high' % 10) % 256 ↔ high = high' := by omega
    rw [order, equal]
    tauto

end AtomOneSdk.Lib
