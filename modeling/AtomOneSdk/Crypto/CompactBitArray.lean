import Mathlib.Tactic

/-!
Contract: the compact bit array of multisignatures.

Owns: its size, reading a bit, the byte-wise count of the bits before an index,
and that this count is the number of bits that read true.

Does **not** own: the encodings of a bit array.
-/

namespace AtomOneSdk.Crypto

open List

abbrev Byte := BitVec 8

/-- Run-time panics of the code below. -/
inductive Panic where
  | indexOutOfRange
  | nilDereference
  | notImplemented
deriving DecidableEq, Repr

/-- Bits from the most significant one of each byte on; the last byte is full if
`extraBitsStored` is zero. -/
structure CompactBitArray where
  extraBitsStored : Nat
  elems : List Byte
deriving DecidableEq, Repr

/-- `1 << uint8(7 - i % 8)`. -/
def bitMask (i : Nat) : Byte := 1#8 <<< (7 - i % 8)

/-- `bits.OnesCount8`. -/
def onesCount8 (byte : Byte) : Nat := (List.range 8).countP byte.getLsbD

namespace CompactBitArray

def count (bA : CompactBitArray) : Int :=
  if bA.extraBitsStored = 0 then bA.elems.length * 8
  else ((bA.elems.length : Int) - 1) * 8 + bA.extraBitsStored

def getIndex (bA : CompactBitArray) (i : Int) : Except Panic Bool :=
  if i < 0 ∨ bA.count ≤ i then .ok false
  else
    match bA.elems[i.toNat >>> 3]? with
    | none => .error .indexOutOfRange
    | some byte => .ok (decide (0 < byte &&& bitMask i.toNat))

/-- Whether the bit at an index reads true. -/
def isSet (bA : CompactBitArray) (i : Nat) : Bool := decide (bA.getIndex i = .ok true)

/-- The loop over the bytes from number `elem` on. -/
def onesBefore (index : Int) : Nat → List Byte → Nat → Nat
  | _, [], onesCount => onesCount
  | elem, byte :: rest, onesCount =>
    if index ≤ (elem : Int) * 8 + 7 then
      onesCount + onesCount8 (byte >>> (7 - index.tmod 8 + 1).toNat)
    else onesBefore index (elem + 1) rest (onesCount + onesCount8 byte)

def numTrueBitsBefore (bA : CompactBitArray) (index : Int) : Nat :=
  onesBefore (if bA.count < index then bA.count else index) 0 bA.elems 0

/-! ## Bits as a list -/

/-- The bits of a byte, the most significant one first. -/
def byteBits (byte : Byte) : List Bool :=
  [byte.getLsbD 7, byte.getLsbD 6, byte.getLsbD 5, byte.getLsbD 4, byte.getLsbD 3, byte.getLsbD 2,
    byte.getLsbD 1, byte.getLsbD 0]

def bits (bA : CompactBitArray) : List Bool := bA.elems.flatMap byteBits

@[simp] theorem length_byteBits (byte : Byte) : (byteBits byte).length = 8 := rfl

theorem byteBits_getElem? (byte : Byte) {r : Nat} (small : r < 8) :
    (byteBits byte)[r]? = some (byte.getLsbD (7 - r)) := by
  interval_cases r <;> rfl

/-- A bit of the list is the bit of its byte. -/
theorem flatMap_byteBits_getElem? (elems : List Byte) : ∀ i : Nat,
    (elems.flatMap byteBits)[i]? = (elems[i >>> 3]?).map fun byte => byte.getLsbD (7 - i % 8) := by
  induction elems with
  | nil =>
    intro i
    rfl
  | cons byte elems rest =>
    intro i
    rw [flatMap_cons]
    have shifted : i >>> 3 = i / 8 := Nat.shiftRight_eq_div_pow i 3
    by_cases here : i < 8
    · have first : i / 8 = 0 := by omega
      have same : i % 8 = i := by omega
      rw [getElem?_append_left (by rw [length_byteBits]; exact here),
        byteBits_getElem? byte here, shifted, first, same]
      rfl
    · obtain ⟨k, isK⟩ : ∃ k, i = k + 8 := ⟨i - 8, by omega⟩
      have shiftedK : k >>> 3 = k / 8 := Nat.shiftRight_eq_div_pow k 3
      have next : i / 8 = k / 8 + 1 := by omega
      have same : i % 8 = k % 8 := by omega
      rw [getElem?_append_right (by rw [length_byteBits]; omega), length_byteBits, shifted,
        next, same, isK, Nat.add_sub_cancel, rest k, shiftedK, getElem?_cons_succ]

theorem masked_iff (byte : Byte) (i : Nat) :
    decide (0 < byte &&& bitMask i) = byte.getLsbD (7 - i % 8) := by
  have isPow : bitMask i = BitVec.twoPow 8 (7 - i % 8) := rfl
  rw [isPow, BitVec.and_twoPow]
  cases bit : byte.getLsbD (7 - i % 8) with
  | false => simp
  | true =>
    have small : 7 - i % 8 < 8 := by omega
    generalize 7 - i % 8 = k at small
    interval_cases k <;> decide

theorem onesCount8_eq (byte : Byte) : onesCount8 byte = (byteBits byte).count true := by
  unfold onesCount8 byteBits
  simp only [List.range, List.range.loop, countP_cons, countP_nil, count_cons,
    count_nil, beq_true]
  omega

/-- Shifting a byte to the right leaves its first bits. -/
theorem onesCount8_shifted (byte : Byte) {r : Nat} (small : r < 8) :
    onesCount8 (byte >>> (8 - r)) = ((byteBits byte).take r).count true := by
  unfold onesCount8 byteBits
  interval_cases r <;>
    simp only [List.range, List.range.loop, countP_cons, countP_nil, count_cons,
      count_nil, beq_true, BitVec.getLsbD_ushiftRight, take_succ_cons, take_zero] <;>
    simp <;> omega

/-! ## Reading -/

section Fits

variable {bA : CompactBitArray}

/-- There is a stored bit for every index. -/
def Fits (bA : CompactBitArray) : Prop := bA.count ≤ bA.elems.length * 8

/-- Fewer than eight extra bits fit, whatever the bytes are. -/
theorem fits_of_extra (extra : bA.extraBitsStored < 8) : bA.Fits := by
  unfold Fits count
  split_ifs <;> omega

theorem getIndex_outside {i : Int} (outside : i < 0 ∨ bA.count ≤ i) : bA.getIndex i = .ok false :=
  if_pos outside

/-- A bit inside the array is read from the list of bits. -/
theorem getIndex_inside (fits : bA.Fits) {i : Nat} (inside : (i : Int) < bA.count) :
    ∃ bit, bA.bits[i]? = some bit ∧ bA.getIndex i = .ok bit := by
  unfold Fits at fits
  have stored : i >>> 3 < bA.elems.length := by
    rw [Nat.shiftRight_eq_div_pow]
    omega
  refine ⟨(bA.elems[i >>> 3]).getLsbD (7 - i % 8), ?_, ?_⟩
  · rw [bits, flatMap_byteBits_getElem?, getElem?_eq_getElem stored]
    rfl
  · rw [getIndex, if_neg (by omega), Int.toNat_natCast, getElem?_eq_getElem stored]
    exact congrArg Except.ok (masked_iff _ i)

theorem getIndex_total (fits : bA.Fits) (i : Int) : ∃ bit, bA.getIndex i = .ok bit := by
  by_cases outside : i < 0 ∨ bA.count ≤ i
  · exact ⟨false, getIndex_outside outside⟩
  · obtain ⟨n, rfl⟩ : ∃ n : Nat, i = n := ⟨i.toNat, by omega⟩
    obtain ⟨bit, _, isBit⟩ := getIndex_inside fits (by omega : (n : Int) < bA.count)
    exact ⟨bit, isBit⟩

/-- An array whose bits can all be read has a stored bit for each of them. -/
theorem fits_of_readable (readable : ∀ i : Nat, (i : Int) < bA.count →
    ∃ bit, bA.getIndex i = .ok bit) : bA.Fits := by
  by_contra unfit
  unfold Fits at unfit
  obtain ⟨bit, isBit⟩ := readable (bA.elems.length * 8) (by push_cast; omega)
  have beyond : bA.elems.length ≤ (bA.elems.length * 8) >>> 3 := by
    rw [Nat.shiftRight_eq_div_pow]
    omega
  rw [getIndex, if_neg (by omega), Int.toNat_natCast, getElem?_eq_none beyond] at isBit
  cases isBit

/-! ## Counting -/

theorem onesBefore_of_negative {index : Int} (negative : index < 0) (elems : List Byte) :
    onesBefore index 0 elems 0 = 0 := by
  cases elems with
  | nil => rfl
  | cons byte rest =>
    have mirrored : 0 ≤ (-index).tmod 8 := Int.tmod_nonneg 8 (by omega)
    rw [Int.neg_tmod] at mirrored
    have wide : 8 ≤ (7 - index.tmod 8 + 1).toNat := by omega
    have cleared : byte >>> (7 - index.tmod 8 + 1).toNat = 0#8 :=
      BitVec.ushiftRight_eq_zero wide
    rw [onesBefore, if_pos (by omega), cleared]
    rfl

/-- The loop counts the bits of the bytes it still has to visit. -/
theorem onesBefore_eq (index : Nat) (elems : List Byte) : ∀ (elem onesCount : Nat),
    elem * 8 ≤ index → index ≤ (elem + elems.length) * 8 →
    onesBefore index elem elems onesCount
      = onesCount + ((elems.flatMap byteBits).take (index - elem * 8)).count true := by
  induction elems with
  | nil =>
    intro elem onesCount _ _
    rw [flatMap_nil, take_nil]
    rfl
  | cons byte elems rest =>
    intro elem onesCount low high
    rw [length_cons] at high
    rw [onesBefore, flatMap_cons]
    by_cases last : (index : Int) ≤ (elem : Int) * 8 + 7
    · have remainder : index - elem * 8 = index % 8 := by omega
      have shift : (7 - (index : Int).tmod 8 + 1).toNat = 8 - index % 8 := by
        rw [Int.tmod_eq_emod_of_nonneg (by omega)]
        omega
      rw [if_pos last, shift, remainder, onesCount8_shifted byte (by omega),
        take_append_of_le_length (by rw [length_byteBits]; omega)]
    · have whole : index - elem * 8 = 8 + (index - (elem + 1) * 8) := by omega
      have all : (byteBits byte).take (8 + (index - (elem + 1) * 8)) = byteBits byte :=
        take_of_length_le (by rw [length_byteBits]; omega)
      rw [if_neg last, rest (elem + 1) _ (by omega) (by omega), whole, onesCount8_eq,
        take_append, length_byteBits, all, Nat.add_sub_cancel_left, count_append,
        Nat.add_assoc]

theorem countP_range_getElem? (values : List Bool) (n : Nat) :
    (List.range n).countP (fun i => decide (values[i]? = some true))
      = (values.take n).count true := by
  induction n with
  | zero => rfl
  | succ n counted =>
    rw [range_succ, countP_append, counted, take_add_one, count_append]
    congr 1
    cases bit : values[n]? with
    | none => simp [bit]
    | some value => cases value <;> simp [bit]

theorem isSet_inside (fits : bA.Fits) {i : Nat} (inside : (i : Int) < bA.count) :
    bA.isSet i = decide (bA.bits[i]? = some true) := by
  obtain ⟨bit, stored, isBit⟩ := getIndex_inside fits inside
  rw [isSet, stored, isBit]
  cases bit <;> rfl

theorem isSet_outside {i : Nat} (outside : bA.count ≤ i) : bA.isSet i = false := by
  rw [isSet, getIndex_outside (.inr outside)]
  rfl

/-- Up to the size of the array the loop counts the bits that read true. -/
theorem onesBefore_eq_countP (fits : bA.Fits) {n : Nat} (inside : (n : Int) ≤ bA.count) :
    onesBefore n 0 bA.elems 0 = (List.range n).countP bA.isSet := by
  have stored : n ≤ bA.elems.length * 8 := by
    unfold Fits at fits
    omega
  have reads : (List.range n).countP bA.isSet
      = (List.range n).countP fun i => decide (bA.bits[i]? = some true) := by
    apply countP_congr
    intro i member
    rw [isSet_inside fits (by have := mem_range.mp member; omega)]
  rw [onesBefore_eq n bA.elems 0 0 (by omega) (by omega), reads, countP_range_getElem?]
  simp [bits]

/-- The byte-wise count is the number of indices before the given one that read true. -/
theorem numTrueBitsBefore_eq (fits : bA.Fits) (index : Int) :
    bA.numTrueBitsBefore index = (List.range index.toNat).countP bA.isSet := by
  unfold numTrueBitsBefore
  by_cases beyond : bA.count < index
  · rw [if_pos beyond]
    by_cases none_ : bA.count < 0
    · -- an array that claims extra bits and has no byte
      rw [onesBefore_of_negative none_, eq_comm, countP_eq_zero]
      intro i _
      rw [isSet_outside (by omega)]
      exact Bool.false_ne_true
    · obtain ⟨n, isN⟩ : ∃ n : Nat, bA.count = n := ⟨bA.count.toNat, by omega⟩
      obtain ⟨more, isIndex⟩ : ∃ more, index.toNat = n + more := ⟨index.toNat - n, by omega⟩
      have laterFalse : ((List.range more).map (n + ·)).countP bA.isSet = 0 := by
        rw [countP_eq_zero]
        intro i member
        obtain ⟨k, _, rfl⟩ := mem_map.mp member
        rw [isSet_outside (by push_cast; omega)]
        exact Bool.false_ne_true
      rw [isN, onesBefore_eq_countP fits isN.ge, isIndex, range_add, countP_append,
        laterFalse, Nat.add_zero]
  · rw [if_neg beyond]
    by_cases negative : index < 0
    · have nothing : index.toNat = 0 := by omega
      rw [onesBefore_of_negative negative, nothing]
      rfl
    · obtain ⟨n, rfl⟩ : ∃ n : Nat, index = n := ⟨index.toNat, by omega⟩
      rw [onesBefore_eq_countP fits (by omega), Int.toNat_natCast]

end Fits

/-- Junk behind the last bit is not counted. -/
example : numTrueBitsBefore ⟨3, [0b10111111#8]⟩ 8 = 2 := by decide

end CompactBitArray

end AtomOneSdk.Crypto
