import AtomOneSdk.Lib.Action
import AtomOneSdk.Lib.Bytes
import AtomOneSdk.Lib.Store

/-!
Contract: the `PriorityNonceMempool` of `types/mempool`.

Owns: the priority index, the sender indices, scores and counts, insertion with
replacement, removal, the reordering of priority ties, and the iterator.

Does **not** own: the extraction of signers, which is a parameter, and the lock. A skip
list is a sorted map that keeps the stored key when an equal key is set again. An element
of a list is represented by the rest of the list that starts at it, so `Next` is the
tail; `senderElement` is found through its sender and nonce.
-/

namespace AtomOneSdk.Mempool

open Lib Lib.Action

/-! ## Keys -/

abbrev Sender := List (Fin 256)

/-- Transaction metadata used in the indices. -/
structure TxMeta (C : Type) where
  nonce : Nat
  priority : C
  sender : Sender
  weight : C
deriving DecidableEq, Repr

section Order

variable {C : Type}

/-- Priority, then weight, then sender, then nonce, the highest first. -/
def TxMeta.rank (key : TxMeta C) : (Pair C (Pair C (Pair Sender Nat)))ᵒᵈ :=
  OrderDual.toDual ⟨key.priority, ⟨key.weight, ⟨key.sender, key.nonce⟩⟩⟩

theorem TxMeta.rank_injective : Function.Injective (TxMeta.rank : TxMeta C → _) := by
  intro first second same
  cases first
  cases second
  simp only [TxMeta.rank, OrderDual.toDual_inj, Pair.mk.injEq] at same
  obtain ⟨priority, weight, sender, nonce⟩ := same
  rw [priority, weight, sender, nonce]

/-- `skiplistComparable`. -/
instance [LinearOrder C] : LinearOrder (TxMeta C) :=
  LinearOrder.lift' TxMeta.rank TxMeta.rank_injective

end Order

/-! ## Pool -/

/-- What `scores` keeps of a transaction. -/
structure Score (C : Type) where
  priority : C
  weight : C
deriving DecidableEq, Repr

/-- Transactions of one sender by nonce, with the key they are stored under. -/
abbrev SenderIndex (C Tx : Type) := Store Nat (TxMeta C × Tx)

structure Pool (C Tx : Type) [LinearOrder C] where
  priorityIndex : Store (TxMeta C) Tx
  priorityCounts : Store C Int
  senderIndices : Store Sender (SenderIndex C Tx)
  scores : Store (Pair Sender Nat) (Score C)

/-- First signature of a transaction. -/
structure SignerData where
  signer : Sender
  sequence : Nat
deriving DecidableEq, Repr

structure Config (C Tx : Type) where
  minValue : C
  txReplacement : Option (C → C → Tx → Tx → Bool)
  maxTx : Int
  getSigners : Tx → Except String (List SignerData)

inductive MempoolError where
  | maxCapacity
  | signers (reason : String)
  | noSigner
  | replacementRule
  | txNotFound
  | senderNotFound
  /-- A skip list has no element for a key that is dereferenced. -/
  | nilElement
deriving DecidableEq, Repr

abbrev PoolM (C Tx : Type) [LinearOrder C] (α : Type) := Action MempoolError (Pool C Tx) α

section Pool

variable {C Tx : Type} [LinearOrder C] [Inhabited C]

/-- `Set` of a skip list ordered by nonce: an equal key keeps the stored key. -/
def SenderIndex.setTx (index : SenderIndex C Tx) (key : TxMeta C) (tx : Tx) : SenderIndex C Tx :=
  match index.get? key.nonce with
  | some (stored, _) => index.set key.nonce (stored, tx)
  | none => index.set key.nonce (key, tx)

def Pool.count (mp : Pool C Tx) (priority : C) : Int :=
  (mp.priorityCounts.get? priority).getD 0

def Pool.senderIndex (mp : Pool C Tx) (sender : Sender) : SenderIndex C Tx :=
  (mp.senderIndices.get? sender).getD ∅

/-- `scores[...].weight`; the zero value when there is no score. -/
def Pool.weight (mp : Pool C Tx) (sender : Sender) (nonce : Nat) : C :=
  ((mp.scores.get? ⟨sender, nonce⟩).map (·.weight)).getD default

def addCount (priority : C) (change : Int) : PoolM C Tx Unit :=
  modify fun mp =>
    { mp with priorityCounts := mp.priorityCounts.set priority (mp.count priority + change) }

def firstSigner (cfg : Config C Tx) (tx : Tx) : PoolM C Tx SignerData :=
  match cfg.getSigners tx with
  | .error reason => fail (.signers reason)
  | .ok [] => fail .noSigner
  | .ok (sig :: _) => pure sig

/-- The removal of the old key of a transaction that is inserted again. -/
def replaceOld (cfg : Config C Tx) (sender : Sender) (nonce : Nat) (priority : C) (tx : Tx)
    (oldScore : Score C) : PoolM C Tx Unit := do
  match cfg.txReplacement with
  | none => pure ()
  | some rule =>
    let stored ← getOrCrash (((← get).senderIndex sender).get? nonce) .nilElement
    failIf (rule oldScore.priority priority stored.2 tx = false) .replacementRule
  modify fun mp =>
    { mp with
        priorityIndex :=
          mp.priorityIndex.delete ⟨nonce, oldScore.priority, sender, oldScore.weight⟩ }
  addCount oldScore.priority (-1)

/-- Insertion of a transaction whose priority is given by its context. -/
def insert (cfg : Config C Tx) (priority : C) (tx : Tx) : PoolM C Tx Unit := do
  failIf (0 < cfg.maxTx ∧ cfg.maxTx ≤ (← get).priorityIndex.entries.length) .maxCapacity
  whenever (0 ≤ cfg.maxTx) do
    let sig ← firstSigner cfg tx
    let sender := sig.signer
    let nonce := sig.sequence
    -- initialize the sender index if it is not found
    modify fun mp =>
      { mp with senderIndices := mp.senderIndices.set sender (mp.senderIndex sender) }
    match (← get).scores.get? ⟨sender, nonce⟩ with
    | some oldScore => replaceOld cfg sender nonce priority tx oldScore
    | none => pure ()
    addCount priority 1
    let key : TxMeta C := ⟨nonce, priority, sender, default⟩
    modify fun mp =>
      { mp with
          senderIndices := mp.senderIndices.set sender ((mp.senderIndex sender).setTx key tx)
          scores := mp.scores.set ⟨sender, nonce⟩ ⟨priority, default⟩
          priorityIndex := mp.priorityIndex.set key tx }

def remove (cfg : Config C Tx) (tx : Tx) : PoolM C Tx Unit := do
  let sig ← firstSigner cfg tx
  let sender := sig.signer
  let nonce := sig.sequence
  let score ← getOrFail ((← get).scores.get? ⟨sender, nonce⟩) .txNotFound
  let senderTxs ← getOrFail ((← get).senderIndices.get? sender) .senderNotFound
  modify fun mp =>
    { mp with
        priorityIndex := mp.priorityIndex.delete ⟨nonce, score.priority, sender, score.weight⟩
        senderIndices := mp.senderIndices.set sender (senderTxs.delete nonce)
        scores := mp.scores.delete ⟨sender, nonce⟩ }
  addCount score.priority (-1)

/-! ## Priority ties -/

/-- The loop of `senderWeight` behind its first element. -/
def laterWeight (weight : C) : List (Nat × TxMeta C × Tx) → C
  | [] => weight
  | (_, key, _) :: rest => laterWeight (if key.priority = weight then weight else key.priority) rest

/-- `senderWeight` from the element of a nonce on. -/
def senderWeight (cfg : Config C Tx) (cursor : List (Nat × TxMeta C × Tx)) : C :=
  match cursor with
  | [] => cfg.minValue
  | (_, key, _) :: rest => laterWeight key.priority rest

/-- The sender's elements from a nonce on. -/
def Pool.senderElement (mp : Pool C Tx) (sender : Sender) (nonce : Nat) :
    List (Nat × TxMeta C × Tx) :=
  (mp.senderIndex sender).entries.dropWhile fun entry => entry.1 ≠ nonce

structure ReorderKey (C Tx : Type) where
  deleteKey : TxMeta C
  insertKey : TxMeta C
  tx : Tx

def Pool.reordering (cfg : Config C Tx) (mp : Pool C Tx) : List (ReorderKey C Tx) :=
  (mp.priorityIndex.entries.filter fun entry => 1 < mp.count entry.1.priority).map fun entry =>
    { deleteKey := entry.1
      insertKey :=
        { entry.1 with weight := senderWeight cfg (mp.senderElement entry.1.sender entry.1.nonce) }
      tx := entry.2 }

def Pool.reorder (mp : Pool C Tx) (k : ReorderKey C Tx) : Pool C Tx :=
  { mp with
      priorityIndex := (mp.priorityIndex.delete k.deleteKey).set k.insertKey k.tx
      scores := (mp.scores.delete ⟨k.deleteKey.sender, k.deleteKey.nonce⟩).set
        ⟨k.insertKey.sender, k.insertKey.nonce⟩ ⟨k.insertKey.priority, k.insertKey.weight⟩ }

def Pool.reorderPriorityTies (cfg : Config C Tx) (mp : Pool C Tx) : Pool C Tx :=
  (mp.reordering cfg).foldl Pool.reorder mp

/-! ## Iteration -/

structure Iterator (C Tx : Type) where
  /-- The current node of the priority index and those behind it. -/
  priorityNode : List (TxMeta C × Tx)
  /-- For every sender, the last element returned and those behind it. -/
  senderCursors : Store Sender (List (Nat × TxMeta C × Tx))
  sender : Sender

/-- The elements of a sender that were not returned yet. -/
def Pool.ahead (mp : Pool C Tx) (cursors : Store Sender (List (Nat × TxMeta C × Tx)))
    (sender : Sender) : List (Nat × TxMeta C × Tx) :=
  match cursors.get? sender with
  | none => (mp.senderIndex sender).entries
  | some cursor => cursor.tail

/-- The sender's next transaction comes after the next node. -/
def Pool.outranked (cfg : Config C Tx) (mp : Pool C Tx) (key : TxMeta C)
    (behind : List (TxMeta C × Tx)) : Bool :=
  match behind with
  | [] => key.priority < cfg.minValue
  | next :: _ =>
    key.priority < next.1.priority
      || (key.priority = next.1.priority && mp.weight key.sender key.nonce < next.1.weight)

/-- `Next` at a node, and `iteratePriority` when the node has nothing to return. -/
def Pool.next (cfg : Config C Tx) (mp : Pool C Tx)
    (cursors : Store Sender (List (Nat × TxMeta C × Tx))) :
    List (TxMeta C × Tx) → Option (Iterator C Tx)
  | [] => none
  | node :: behind =>
    match mp.ahead cursors node.1.sender with
    | [] => mp.next cfg cursors behind
    | (nonce, key, tx) :: later =>
      if mp.outranked cfg key behind then mp.next cfg cursors behind
      else some
        { priorityNode := node :: behind
          senderCursors := cursors.set node.1.sender ((nonce, key, tx) :: later)
          sender := node.1.sender }

/-- `Next` of an iterator. -/
def Pool.nextOf (cfg : Config C Tx) (mp : Pool C Tx) (i : Iterator C Tx) :
    Option (Iterator C Tx) :=
  mp.next cfg i.senderCursors i.priorityNode

/-- `Tx` of an iterator. -/
def Iterator.tx (i : Iterator C Tx) : Option Tx :=
  ((i.senderCursors.get? i.sender).bind List.head?).map fun element => element.2.2

/-- The pool after the reordering of ties, and the iterator at its first transaction. -/
def Pool.select (cfg : Config C Tx) (mp : Pool C Tx) : Pool C Tx × Option (Iterator C Tx) :=
  if mp.priorityIndex.entries.isEmpty then (mp, none)
  else
    let reordered := mp.reorderPriorityTies cfg
    (reordered, reordered.next cfg ∅ reordered.priorityIndex.entries)

/-- Call `Tx` and `Next` until the iterator is nil; `none` when the fuel runs out or a
transaction cannot be read. -/
def Pool.drain (cfg : Config C Tx) (mp : Pool C Tx) :
    Nat → Option (Iterator C Tx) → Option (List Tx)
  | _, none => some []
  | 0, some _ => none
  | fuel + 1, some i => do
    let tx ← i.tx
    let rest ← mp.drain cfg fuel (mp.nextOf cfg i)
    pure (tx :: rest)

end Pool

/-! ## Operations of a run -/

inductive Op (C Tx : Type) where
  | insert (priority : C) (tx : Tx)
  | remove (tx : Tx)
  | select

variable {C Tx : Type} [LinearOrder C] [Inhabited C]

def Op.exec (cfg : Config C Tx) : Op C Tx → PoolM C Tx Unit
  | .insert priority tx => Mempool.insert cfg priority tx
  | .remove tx => Mempool.remove cfg tx
  | .select => modify fun mp => (mp.select cfg).1

/-- The pool an operation leaves; errors do not undo writes. -/
def Op.apply (cfg : Config C Tx) (op : Op C Tx) (mp : Pool C Tx) : Pool C Tx :=
  match op.exec cfg mp with
  | .ok _ next => next
  | .error _ next => next

end AtomOneSdk.Mempool
