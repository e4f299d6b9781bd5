import AtomOneSdk.Mempool.Properties

/-!
Contract: the indices of the priority mempool stay in step.

Owns: `CountTx` and `IsEmpty`, and that after every run of `Insert`, `Remove` and `Select` the
priority index, the scores, the sender indices and the counts describe the transactions held.

Does **not** own: the operations and the agreement they keep.
-/

namespace AtomOneSdk.Mempool

open Lib Lib.Action Store

variable {C Tx : Type} [LinearOrder C]

/-! ## Size -/

def Pool.countTx (mp : Pool C Tx) : Nat := mp.priorityIndex.entries.length

/-- What `IsEmpty` finds. -/
inductive NotEmpty (C : Type) where
  | priorityIndex
  | priorityCounts (priority : C) (count : Int)
  | senderIndex (sender : Sender)
deriving DecidableEq, Repr

def Pool.isEmpty (mp : Pool C Tx) : Except (NotEmpty C) Unit :=
  if mp.priorityIndex.entries.length ≠ 0 then .error .priorityIndex
  else
    match mp.priorityCounts.entries.find? fun entry => entry.2 ≠ 0 with
    | some (priority, count) => .error (.priorityCounts priority count)
    | none =>
      match mp.senderIndices.entries.find? fun entry => entry.2.entries.length ≠ 0 with
      | some (sender, _) => .error (.senderIndex sender)
      | none => .ok ()

/-! ## The structures describe what is held -/

/-- One node and one score for every transaction held, under the same priority and weight; the
sender indices list its nonces; the counts and the size are those of what is held. -/
structure InStep (held : Held Tx) (mp : Pool C Tx) : Prop where
  nodes : ∀ key tx, mp.priorityIndex.get? key = some tx ↔
    held.get? key.place = some tx ∧ mp.scores.get? key.place = some key.score
  scores : ∀ place, mp.scores.get? place = none ↔ held.get? place = none
  senders : ∀ place : Place,
    held.get? place = ((mp.senderIndex place.fst).get? place.snd).map Prod.snd
  counts : ∀ priority, mp.count priority = held.sum fun place _ =>
    if (mp.scores.get? place).map Score.priority = some priority then 1 else 0
  size : mp.countTx = held.entries.length

section Steps

variable {cfg : Config C Tx} {held : Held Tx} {mp : Pool C Tx}

/-- Nodes and transactions held correspond by sender and nonce. -/
theorem AgreesBy.countTx {below : C → C → Prop} (agrees : AgreesBy below cfg held mp) :
    mp.countTx = held.entries.length := by
  have apart : (mp.priorityIndex.entries.map fun entry => entry.1.place).Nodup := by
    apply List.pairwise_map.mpr
    apply List.Pairwise.imp_of_mem _ mp.priorityIndex.sorted
    intro first second isFirst isSecond ordered place
    rw [agrees.node_unique isFirst isSecond place] at ordered
    exact lt_irrefl _ ordered
  have same : ∀ place, place ∈ (mp.priorityIndex.entries.map fun entry => entry.1.place)
      ↔ place ∈ held.keys := by
    intro place
    rw [mem_keys, Option.isSome_iff_exists]
    constructor
    · intro member
      obtain ⟨entry, isEntry, rfl⟩ := List.mem_map.mp member
      exact ⟨entry.2, ((agrees.indexed entry.1 entry.2).mp (mem_entries.mp isEntry)).1⟩
    · intro present
      obtain ⟨tx, present⟩ := present
      obtain ⟨score, scored⟩ := agrees.score_of_held present
      let key : TxMeta C := ⟨place.snd, score.priority, place.fst, score.weight⟩
      have indexed := (agrees.indexed key tx).mpr ⟨present, scored⟩
      exact List.mem_map.mpr ⟨(key, tx), mem_entries.mpr indexed, rfl⟩
  have permuted := (List.perm_ext_iff_of_nodup apart held.keys_nodup).mpr same
  simpa [Pool.countTx, Store.keys] using permuted.length_eq

theorem AgreesBy.inStep {below : C → C → Prop} (agrees : AgreesBy below cfg held mp)
    (counted : Counted mp) : InStep held mp where
  nodes := agrees.indexed
  scores := agrees.scored
  senders := agrees.listed
  counts := by
    intro priority
    rw [counted priority]
    apply sum_eq_of_termAt
    intro place
    cases scored : mp.scores.get? place with
    | none =>
      rw [termAt_of_none scored, termAt_of_none ((agrees.scored place).mp scored)]
    | some score =>
      cases present : held.get? place with
      | none => rw [(agrees.scored place).mpr present] at scored; cases scored
      | some tx =>
        rw [termAt_of_some scored, termAt_of_some present, scored, ofPriority]
        simp
  size := agrees.countTx

theorem InStep.isEmpty {mp : Pool C Tx} (inStep : InStep (∅ : Held Tx) mp) :
    mp.isEmpty = .ok () := by
  have noNode : ¬ mp.priorityIndex.entries.length ≠ 0 := not_not.mpr inStep.size
  have noCount : (mp.priorityCounts.entries.find? fun entry => entry.2 ≠ 0) = none := by
    rw [List.find?_eq_none]
    intro entry member
    have counted := inStep.counts entry.1
    rw [Pool.count, mem_entries.mp member] at counted
    simpa using counted
  have noSender : (mp.senderIndices.entries.find? fun entry => entry.2.entries.length ≠ 0)
      = none := by
    rw [List.find?_eq_none]
    intro entry member
    have nothing : ∀ nonce, entry.2.get? nonce = none := by
      intro nonce
      have listed := inStep.senders ⟨entry.1, nonce⟩
      rw [Pool.senderIndex, mem_entries.mp member] at listed
      exact Option.map_eq_none_iff.mp listed.symm
    have empty : entry.2 = ∅ := ext nothing
    rw [empty]
    exact Bool.false_ne_true
  rw [Pool.isEmpty, if_neg noNode, noCount, noSender]

variable [Inhabited C]

/-- Whatever the priorities, an operation keeps the indices in agreement. -/
theorem Op.apply_inStep (agrees : AgreesBy (fun _ _ => True) cfg held mp) (op : Op C Tx) :
    AgreesAfter (fun _ _ => True) cfg (op.record cfg mp held) mp (op.apply cfg mp) := by
  apply Op.apply_spec agrees (fun _ => trivial)
  cases op with
  | insert priority tx => exact fun _ _ _ _ => trivial
  | remove tx => trivial
  | select => trivial

theorem runOps_inStep :
    ∀ (ops : List (Op C Tx)) (mp : Pool C Tx) (held : Held Tx),
      AgreesBy (fun _ _ => True) cfg held mp → Counted mp →
      AgreesBy (fun _ _ => True) cfg (runOps cfg ops mp held).2 (runOps cfg ops mp held).1
        ∧ Counted (runOps cfg ops mp held).1
  | [], _, _, agrees, counted => ⟨agrees, counted⟩
  | op :: rest, _, _, agrees, counted => by
    obtain ⟨agreesNext, counts⟩ := op.apply_inStep agrees
    exact runOps_inStep rest _ _ agreesNext (counts counted)

end Steps

/-- After every run of insertions, removals and selections the structures describe what is held,
a transaction held can be removed from all of them, and an emptied pool is found empty. -/
theorem indices_stay_in_step [Inhabited C] (cfg : Config C Tx) (ops : List (Op C Tx)) :
    let mp := (runOps cfg ops ⟨∅, ∅, ∅, ∅⟩ ∅).1
    let held := (runOps cfg ops ⟨∅, ∅, ∅, ∅⟩ ∅).2
    InStep held mp
      ∧ (∀ tx place, placeOf cfg tx = some place → held.get? place ≠ none →
          ∃ next, remove cfg tx mp = .ok () next ∧ InStep (held.delete place) next)
      ∧ (held = ∅ → mp.isEmpty = .ok ()) := by
  intro mp held
  obtain ⟨agrees, counted⟩ : AgreesBy (fun _ _ => True) cfg held mp ∧ Counted mp :=
    runOps_inStep ops _ _ (agrees_empty cfg) fun _ => rfl
  have inStep : InStep held mp := agrees.inStep counted
  refine ⟨inStep, ?_, ?_⟩
  · intro tx place signed present
    have spec := remove_spec agrees tx
    rw [heldAfterRemove, signed] at spec
    cases ran : remove cfg tx mp with
    | ok value next =>
      obtain ⟨agreesNext, counts⟩ := spec.of_ok ran
      exact ⟨next, rfl, agreesNext.inStep (counts counted)⟩
    | error fault next => exact absurd ((spec.of_error ran).1 place rfl) present
  · intro nothing
    rw [nothing] at inStep
    exact inStep.isEmpty

end AtomOneSdk.Mempool
