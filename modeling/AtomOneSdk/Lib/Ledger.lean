import AtomOneSdk.Lib.Store

/-!
Contract: stores of amounts in which a zero amount is not stored.

Owns: reading an amount, writing it, adding to it, posting a list of changes, and how a
posted list changes each amount, the total over a class of keys, and positivity.

Does **not** own: what keys and amounts stand for.
-/

namespace AtomOneSdk.Lib.Ledger

open Store

section Net

variable {K : Type} (member : K → Prop) [DecidablePred member]

/-- What a list of changes adds to the keys of a class. -/
def net (changes : List (K × Int)) : Int :=
  (changes.map fun change => if member change.1 then change.2 else 0).sum

@[simp] theorem net_nil : net member [] = 0 := rfl

@[simp] theorem net_cons (change : K × Int) (rest : List (K × Int)) :
    net member (change :: rest) = (if member change.1 then change.2 else 0) + net member rest := by
  simp [net]

@[simp] theorem net_append (changes further : List (K × Int)) :
    net member (changes ++ further) = net member changes + net member further := by
  simp [net]

end Net

variable {K : Type} [LinearOrder K]

/-- The amount under a key, zero when nothing is stored. -/
def amountAt (ledger : Store K Int) (key : K) : Int :=
  (ledger.get? key).getD 0

/-- Write an amount; zero removes the key. -/
def write (ledger : Store K Int) (key : K) (amount : Int) : Store K Int :=
  if amount = 0 then ledger.delete key else ledger.set key amount

def adjust (ledger : Store K Int) (key : K) (change : Int) : Store K Int :=
  write ledger key (amountAt ledger key + change)

def post (ledger : Store K Int) (changes : List (K × Int)) : Store K Int :=
  changes.foldl (fun current change => adjust current change.1 change.2) ledger

/-- The amounts under the keys of a class. -/
def total (member : K → Prop) [DecidablePred member] (ledger : Store K Int) : Int :=
  ledger.sum fun key amount => if member key then amount else 0

/-- What a list of changes adds to one key. -/
def netAt (changes : List (K × Int)) (key : K) : Int :=
  net (fun other => key = other) changes

def Positive (ledger : Store K Int) : Prop :=
  ∀ key amount, ledger.get? key = some amount → 0 < amount

/-! ## Amounts -/

theorem amountAt_write (ledger : Store K Int) (key other : K) (amount : Int) :
    amountAt (write ledger key amount) other
      = if other = key then amount else amountAt ledger other := by
  unfold write
  split_ifs with zero same same
  · rw [amountAt, get?_delete, if_pos same, zero]
    rfl
  · rw [amountAt, get?_delete, if_neg same]
    rfl
  · rw [amountAt, get?_set, if_pos same]
    rfl
  · rw [amountAt, get?_set, if_neg same]
    rfl

theorem amountAt_adjust (ledger : Store K Int) (key other : K) (change : Int) :
    amountAt (adjust ledger key change) other
      = amountAt ledger other + if other = key then change else 0 := by
  rw [adjust, amountAt_write]
  split_ifs with same
  · rw [same]
  · rw [add_zero]

@[simp] theorem netAt_nil (key : K) : netAt [] key = 0 := rfl

@[simp] theorem netAt_cons (change : K × Int) (rest : List (K × Int)) (key : K) :
    netAt (change :: rest) key = (if key = change.1 then change.2 else 0) + netAt rest key :=
  net_cons _ change rest

@[simp] theorem netAt_append (changes further : List (K × Int)) (key : K) :
    netAt (changes ++ further) key = netAt changes key + netAt further key :=
  net_append _ changes further

theorem post_append (ledger : Store K Int) (changes further : List (K × Int)) :
    post ledger (changes ++ further) = post (post ledger changes) further :=
  List.foldl_append

theorem amountAt_post (ledger : Store K Int) (changes : List (K × Int)) (key : K) :
    amountAt (post ledger changes) key
      = amountAt ledger key + netAt changes key := by
  induction changes generalizing ledger with
  | nil => simp [post, netAt]
  | cons change rest ih =>
    show amountAt (post (adjust ledger change.1 change.2) rest) key = _
    rw [ih, amountAt_adjust, netAt_cons, add_assoc]

/-! ## Totals -/

section Total

variable (member : K → Prop) [DecidablePred member]

theorem termAt_eq (ledger : Store K Int) (key : K) :
    ledger.termAt (fun key amount => if member key then amount else 0) key
      = if member key then amountAt ledger key else 0 := by
  unfold amountAt
  cases found : ledger.get? key with
  | none =>
    rw [termAt_of_none found]
    exact (ite_self 0).symm
  | some amount => rw [termAt_of_some found, Option.getD_some]

theorem total_write (ledger : Store K Int) (key : K) (amount : Int) :
    total member (write ledger key amount)
      = total member ledger + if member key then amount - amountAt ledger key else 0 := by
  unfold write total
  split_ifs with zero inside inside
  · rw [sum_delete, termAt_eq, if_pos inside, zero]
    omega
  · rw [sum_delete, termAt_eq, if_neg inside]
    omega
  · rw [sum_set, termAt_eq, if_pos inside, if_pos inside]
    omega
  · rw [sum_set, termAt_eq, if_neg inside, if_neg inside]
    omega

theorem total_adjust (ledger : Store K Int) (key : K) (change : Int) :
    total member (adjust ledger key change)
      = total member ledger + if member key then change else 0 := by
  rw [adjust, total_write]
  split_ifs <;> omega

theorem total_post (ledger : Store K Int) (changes : List (K × Int)) :
    total member (post ledger changes) = total member ledger + net member changes := by
  induction changes generalizing ledger with
  | nil => simp [post]
  | cons change rest ih =>
    show total member (post (adjust ledger change.1 change.2) rest) = _
    rw [ih, total_adjust, net_cons, add_assoc]

end Total

/-! ## Positivity -/

variable {ledger : Store K Int} (positive : Positive ledger)

include positive

theorem Positive.amountAt_nonneg (key : K) : 0 ≤ amountAt ledger key := by
  unfold amountAt
  cases found : ledger.get? key with
  | none => exact le_refl 0
  | some amount => exact (positive key amount found).le

theorem Positive.write (key : K) {amount : Int} (nonneg : 0 ≤ amount) :
    Positive (write ledger key amount) := by
  intro other found stored
  unfold Ledger.write at stored
  split_ifs at stored with zero
  · exact positive other found (get?_delete_some stored).2
  · rcases get?_set_cases stored with here | elsewhere
    · rw [here.2]
      exact lt_of_le_of_ne nonneg (Ne.symm zero)
    · exact positive other found elsewhere.2

theorem Positive.adjust {key : K} {change : Int} (covered : 0 ≤ amountAt ledger key + change) :
    Positive (adjust ledger key change) :=
  positive.write key covered

theorem Positive.post {changes : List (K × Int)} (nonneg : ∀ change ∈ changes, 0 ≤ change.2) :
    Positive (post ledger changes) := by
  induction changes generalizing ledger with
  | nil => exact positive
  | cons change rest ih =>
    obtain ⟨head, tail⟩ := List.forall_mem_cons.mp nonneg
    have before := positive.amountAt_nonneg change.1
    exact ih (positive.adjust (by omega)) tail

end AtomOneSdk.Lib.Ledger
