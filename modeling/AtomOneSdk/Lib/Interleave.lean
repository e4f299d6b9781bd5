import Mathlib.Algebra.Order.BigOperators.Group.List
import Mathlib.Algebra.Order.Ring.Nat

/-!
Contract: interleavings of queues.

Owns: the orders of all items that keep the order of each queue, and that taking an item leaves
fewer.

Does **not** own: how the next queue is chosen.
-/

namespace AtomOneSdk.Lib

open Function

variable {I A : Type} [DecidableEq I]

/-- Some order of the items of all queues that keeps the order of each. -/
inductive Interleaves : (I → List A) → List A → Prop
  | nil {queues : I → List A} (nothing : ∀ i, queues i = []) : Interleaves queues []
  | cons {queues : I → List A} {i : I} {item : A} {rest items : List A}
    (front : queues i = item :: rest) (later : Interleaves (update queues i rest) items) :
    Interleaves queues (item :: items)

variable {queues : I → List A} {i : I} {item : A} {rest : List A} {all : List I}

/-- The number of items in the queues of a list. -/
def leftIn (all : List I) (queues : I → List A) : Nat :=
  (all.map fun i => (queues i).length).sum

theorem leftIn_take_lt {left : List I} (front : queues i = item :: rest) (member : i ∈ all)
    (fewer : left.Sublist all) : leftIn left (update queues i rest) < leftIn all queues := by
  calc leftIn left (update queues i rest) ≤ leftIn all (update queues i rest) :=
        (fewer.map _).sum_le_sum fun _ _ => Nat.zero_le _
    _ < leftIn all queues := by
      apply List.sum_lt_sum
      · intro other _
        rw [update_apply]
        split_ifs with here
        · simp [here, front]
        · exact le_refl _
      · exact ⟨i, member, by simp [front]⟩

end AtomOneSdk.Lib
