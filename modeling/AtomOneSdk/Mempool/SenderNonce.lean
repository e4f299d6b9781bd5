import AtomOneSdk.Lib.Interleave
import AtomOneSdk.Mempool.Indices

/-!
Contract: the `SenderNonceMempool` of `types/mempool`, and `NextSenderTx` of both mempools.

Owns: insertion and removal, the next transaction of a sender, the iteration over random
senders, and what these return after every run.

Does **not** own: the source of random numbers; a draw is any number, reduced as `Intn` does.
-/

namespace AtomOneSdk.Mempool

open Lib Lib.Action Store Function List

variable {C Tx : Type}

/-! ## Next transaction of a sender -/

section Next

variable {V : Type}

/-- The value at the front of a sender's skip list. The front of an empty list is nil. -/
def frontValue (senders : Store Sender (Store Nat V)) (sender : Sender) :
    Except MempoolError (Option V) :=
  match (senders.get? sender).map Store.values with
  | none => .ok none
  | some [] => .error .nilElement
  | some (value :: _) => .ok (some value)

variable [LinearOrder C]

def Pool.nextSenderTx (mp : Pool C Tx) (sender : Sender) : Except MempoolError (Option Tx) :=
  (frontValue mp.senderIndices sender).map (Option.map Prod.snd)

/-- An index that was created and emptied has no front. -/
theorem AgreesBy.nextSenderTx {below : C → C → Prop} {cfg : Config C Tx} {held : Held Tx}
    {mp : Pool C Tx} (agrees : AgreesBy below cfg held mp) (sender : Sender) :
    mp.nextSenderTx sender
      = if heldBy held sender = [] ∧ (mp.senderIndices.get? sender).isSome
        then .error .nilElement else .ok (heldBy held sender).head? := by
  rw [← agrees.txs_of_sender sender, Pool.nextSenderTx, frontValue, Pool.senderIndex]
  cases mp.senderIndices.get? sender with
  | none => rfl
  | some index =>
    obtain ⟨entries, sorted⟩ := index
    cases entries <;> rfl

end Next

/-! ## Sender indices -/

section Indexed

variable [LinearOrder C] {below : C → C → Prop} {cfg : Config C Tx} {held : Held Tx}
  {mp : Pool C Tx} {sender : Sender}

theorem heldBy_ne_nil_iff :
    heldBy held sender ≠ [] ↔ ∃ nonce tx, held.get? ⟨sender, nonce⟩ = some tx := by
  constructor
  · intro holds
    obtain ⟨tx, member⟩ := exists_mem_of_ne_nil _ holds
    obtain ⟨⟨⟨other, nonce⟩, tx'⟩, kept, -⟩ := mem_map.mp member
    obtain ⟨isHeld, isSender⟩ := mem_filter.mp kept
    cases of_decide_eq_true isSender
    exact ⟨nonce, tx', mem_entries.mp isHeld⟩
  · rintro ⟨nonce, tx, found⟩
    apply ne_nil_of_mem
    exact mem_map.mpr ⟨_, mem_filter.mpr ⟨mem_entries.mpr found, decide_eq_true rfl⟩, rfl⟩

def Pool.Indexes (mp : Pool C Tx) (sender : Sender) : Prop :=
  (mp.senderIndices.get? sender).isSome

theorem isSome_get?_set {V : Type} (store : Store Sender V) (key other : Sender) (value : V) :
    ((store.set key value).get? other).isSome ↔ (store.get? other).isSome ∨ other = key := by
  rw [get?_set]
  split_ifs with same <;> simp [same]

theorem AgreesBy.indexes_of_held (agrees : AgreesBy below cfg held mp)
    (holds : heldBy held sender ≠ []) : mp.Indexes sender := by
  obtain ⟨nonce, tx, found⟩ := heldBy_ne_nil_iff.mp holds
  rw [agrees.listed, Pool.senderIndex] at found
  unfold Pool.Indexes
  cases index : mp.senderIndices.get? sender with
  | none => rw [index] at found; cases found
  | some index => rfl

theorem reorderPriorityTies_indices (cfg : Config C Tx) (mp : Pool C Tx) :
    (mp.reorderPriorityTies cfg).senderIndices = mp.senderIndices := by
  refine List.foldlRecOn (motive := fun (next : Pool C Tx) =>
    next.senderIndices = mp.senderIndices) _ _ rfl ?_
  intro next same k _
  exact same

variable [Inhabited C]

/-- An insertion that fails behind the creation of an index fails at a transaction that is held,
whose sender had one. -/
theorem insert_indexes (agrees : AgreesBy below cfg held mp) (priority : C) (tx : Tx) :
    Post (Mempool.insert cfg priority tx) mp
      (fun _ next => ∀ sender, next.Indexes sender
        ↔ mp.Indexes sender ∨ 0 ≤ cfg.maxTx ∧ ∃ nonce, placeOf cfg tx = some ⟨sender, nonce⟩)
      (fun _ next => ∀ sender, next.Indexes sender ↔ mp.Indexes sender) := by
  simp only [Mempool.insert, post_bind, post_get, post_failIf, post_whenever]
  refine ⟨fun _ _ => trivial, fun _ => ⟨fun accepts => ?_, fun refuses sender => by simp [refuses]⟩⟩
  apply post_firstSigner
  · intro sig signed
    have created : ∀ sender, ((mp.senderIndices.set sig.signer (mp.senderIndex sig.signer)).get?
        sender).isSome ↔ mp.Indexes sender ∨ sender = sig.signer :=
      fun sender => isSome_get?_set _ _ _ _
    have names : ∀ sender, (0 ≤ cfg.maxTx ∧ ∃ nonce, placeOf cfg tx = some ⟨sender, nonce⟩)
        ↔ sender = sig.signer := by
      intro sender
      simp [signed, accepts, eq_comm]
    simp only [post_modify, names]
    cases scored : mp.scores.get? ⟨sig.signer, sig.sequence⟩ with
    | none =>
      simp only [post_bind, addCount, post_modify, Pool.Indexes, isSome_get?_set]
      exact fun sender => by simp
    | some oldScore =>
      have had : mp.Indexes sig.signer := by
        apply agrees.indexes_of_held
        rw [heldBy_ne_nil_iff]
        refine ⟨sig.sequence, Option.ne_none_iff_exists'.mp fun missing => ?_⟩
        rw [(agrees.scored _).mpr missing] at scored
        cases scored
      simp only [post_bind]
      apply (replaceOld_spec _ _ _ _ _).mono
      · rintro _ next ⟨-, -, indices, -⟩
        simp only [addCount, post_modify, Pool.Indexes, isSome_get?_set, indices]
        exact fun sender => by simp
      · intro _ next unchanged sender
        rw [unchanged]
        refine (created sender).trans (or_iff_left_of_imp ?_)
        rintro rfl
        exact had
  · exact fun _ _ _ => Iff.rfl

omit [Inhabited C] in
theorem remove_indexes (tx : Tx) :
    Post (Mempool.remove cfg tx) mp
      (fun _ next => ∀ sender, next.Indexes sender ↔ mp.Indexes sender)
      (fun _ next => ∀ sender, next.Indexes sender ↔ mp.Indexes sender) := by
  simp only [Mempool.remove, post_bind]
  apply post_firstSigner
  · intro sig _
    simp only [post_rules, addCount]
    intro score _ senderTxs found sender
    refine (isSome_get?_set _ _ _ _).trans (or_iff_left_of_imp ?_)
    rintro rfl
    rw [found]
    rfl
  · exact fun _ _ _ => Iff.rfl

/-- An index is there after an operation if it was there before, or something of the sender is
held now. -/
theorem Op.apply_indexes (agrees : AgreesBy (fun _ _ => True) cfg held mp) (op : Op C Tx) :
    (op.apply cfg mp).Indexes sender
      ↔ mp.Indexes sender ∨ heldBy (op.record cfg mp held) sender ≠ [] := by
  have holds : heldBy (op.record cfg mp held) sender ≠ [] → (op.apply cfg mp).Indexes sender :=
    (op.apply_inStep agrees).1.indexes_of_held
  suffices steps : (mp.Indexes sender → (op.apply cfg mp).Indexes sender)
      ∧ ((op.apply cfg mp).Indexes sender →
        mp.Indexes sender ∨ heldBy (op.record cfg mp held) sender ≠ []) from
    ⟨steps.2, fun either => either.elim steps.1 holds⟩
  unfold Op.record Op.apply
  cases op with
  | insert priority tx =>
    have spec : Post (Op.exec cfg (.insert priority tx)) mp _ _ := insert_indexes agrees priority tx
    cases ran : Op.exec cfg (.insert priority tx) mp with
    | error fault next =>
      have unchanged := spec.of_error ran sender
      exact ⟨unchanged.mpr, fun after => .inl (unchanged.mp after)⟩
    | ok value next =>
      have after := spec.of_ok ran sender
      refine ⟨fun before => after.mpr (.inl before), fun now => (after.mp now).imp_right ?_⟩
      rintro ⟨accepts, nonce, signed⟩
      refine heldBy_ne_nil_iff.mpr ⟨nonce, tx, ?_⟩
      show (heldAfterInsert cfg tx held).get? _ = _
      rw [heldAfterInsert, signed]
      dsimp only
      rw [if_pos accepts, get?_set_self]
  | remove tx =>
    have spec : Post (Op.exec cfg (.remove tx)) mp _ _ := remove_indexes tx
    cases ran : Op.exec cfg (.remove tx) mp with
    | error fault next =>
      exact ⟨(spec.of_error ran sender).mpr, fun now => .inl ((spec.of_error ran sender).mp now)⟩
    | ok value next =>
      exact ⟨(spec.of_ok ran sender).mpr, fun now => .inl ((spec.of_ok ran sender).mp now)⟩
  | select =>
    have unchanged : (mp.select cfg).1.senderIndices = mp.senderIndices := by
      unfold Pool.select
      split_ifs
      · rfl
      · exact reorderPriorityTies_indices cfg mp
    have same : (mp.select cfg).1.Indexes sender ↔ mp.Indexes sender := by
      rw [Pool.Indexes, unchanged]
      rfl
    exact ⟨same.mpr, fun now => .inl (same.mp now)⟩

/-- Indices stay: a sender has one after a run exactly if something of the sender was held at
some point of it. -/
theorem runOps_indexes :
    ∀ (ops : List (Op C Tx)) (mp : Pool C Tx) (held : Held Tx),
      AgreesBy (fun _ _ => True) cfg held mp →
      ((runOps cfg ops mp held).1.Indexes sender ↔ mp.Indexes sender
        ∨ ∃ earlier, earlier <+: ops ∧ heldBy (runOps cfg earlier mp held).2 sender ≠ [])
  | [], mp, held, agrees => by
    refine ⟨.inl, fun either => either.elim id ?_⟩
    rintro ⟨earlier, start, holds⟩
    rw [prefix_nil.mp start] at holds
    exact agrees.indexes_of_held holds
  | op :: rest, mp, held, agrees => by
    rw [runOps, runOps_indexes rest _ _ (op.apply_inStep agrees).1, op.apply_indexes agrees,
      or_assoc]
    refine or_congr_right' fun unknown => ⟨?_, ?_⟩
    · rintro (holds | ⟨earlier, start, holds⟩)
      · exact ⟨[op], ⟨rest, rfl⟩, holds⟩
      · exact ⟨op :: earlier, cons_prefix_cons.mpr ⟨rfl, start⟩, holds⟩
    · rintro ⟨earlier, start, holds⟩
      cases earlier with
      | nil => exact absurd (agrees.indexes_of_held holds) unknown
      | cons first earlier =>
        obtain ⟨rfl, later⟩ := cons_prefix_cons.mp start
        exact .inr ⟨earlier, later, holds⟩

end Indexed

/-! ## Insertion and removal -/

structure SenderNonceMempool (Tx : Type) where
  senders : Store Sender (Store Nat Tx)
  existingTx : Store Place Unit

namespace SenderNonceMempool

def nextSenderTx (snm : SenderNonceMempool Tx) (sender : Sender) :
    Except MempoolError (Option Tx) :=
  frontValue snm.senders sender

def senderTxs (snm : SenderNonceMempool Tx) (sender : Sender) : Store Nat Tx :=
  (snm.senders.get? sender).getD ∅

def insert (cfg : Config C Tx) (tx : Tx) (snm : SenderNonceMempool Tx) :
    Except MempoolError (SenderNonceMempool Tx) :=
  if 0 < cfg.maxTx ∧ cfg.maxTx ≤ snm.existingTx.entries.length then .error .maxCapacity
  else if cfg.maxTx < 0 then .ok snm
  else
    match cfg.getSigners tx with
    | .error reason => .error (.signers reason)
    | .ok [] => .error .noSigner
    | .ok (sig :: _) => .ok
      { senders := snm.senders.set sig.signer ((snm.senderTxs sig.signer).set sig.sequence tx)
        existingTx := snm.existingTx.set ⟨sig.signer, sig.sequence⟩ () }

def remove (cfg : Config C Tx) (tx : Tx) (snm : SenderNonceMempool Tx) :
    Except MempoolError (SenderNonceMempool Tx) :=
  match cfg.getSigners tx with
  | .error reason => .error (.signers reason)
  | .ok [] => .error .noSigner
  | .ok (sig :: _) =>
    match snm.senders.get? sig.signer with
    | none => .error .txNotFound
    | some senderTxs =>
      match senderTxs.get? sig.sequence with
      | none => .error .txNotFound
      | some _ => .ok
        { senders :=
            if (senderTxs.delete sig.sequence).entries = [] then snm.senders.delete sig.signer
            else snm.senders.set sig.signer (senderTxs.delete sig.sequence)
          existingTx := snm.existingTx.delete ⟨sig.signer, sig.sequence⟩ }

/-- A sender has a list exactly if transactions of it are held, which are then listed. -/
def Lists (snm : SenderNonceMempool Tx) (held : Held Tx) : Prop :=
  ∀ sender, snm.senders.get? sender
    = if (heldStore held sender).entries = [] then none else some (heldStore held sender)

variable {cfg : Config C Tx} {tx : Tx} {snm next : SenderNonceMempool Tx} {held : Held Tx}

theorem Lists.senderTxs (lists : snm.Lists held) (sender : Sender) :
    snm.senderTxs sender = heldStore held sender := by
  rw [SenderNonceMempool.senderTxs, lists sender]
  obtain ⟨entries, sorted⟩ := heldStore held sender
  cases entries <;> rfl

/-- The list of one sender is written, or dropped with its last transaction. -/
theorem Lists.write (lists : snm.Lists held) {sender : Sender} {txs : Store Nat Tx}
    {held' : Held Tx} (senders : next.senders
      = if txs.entries = [] then snm.senders.delete sender else snm.senders.set sender txs)
    (listed : ∀ place : Place, held'.get? place = if place.fst = sender then txs.get? place.snd
      else (heldStore held place.fst).get? place.snd) : next.Lists held' := by
  intro other
  have isHeld : heldStore held' other = if other = sender then txs else heldStore held other := by
    apply Store.ext
    intro nonce
    rw [get?_heldStore, listed]
    split_ifs <;> rfl
  rw [isHeld, senders]
  by_cases here : other = sender
  · rw [if_pos here, here]
    split_ifs
    · exact get?_delete_self
    · exact get?_set_self
  · rw [if_neg here, ← lists other]
    split_ifs
    · exact get?_delete_of_ne here
    · exact get?_set_of_ne here

theorem Lists.insert (lists : snm.Lists held) (ran : snm.insert cfg tx = .ok next) :
    next.Lists (heldAfterInsert cfg tx held) := by
  unfold SenderNonceMempool.insert at ran
  unfold heldAfterInsert placeOf
  split_ifs at ran with full off
  · cases ran
    split
    · rw [if_neg (by omega)]
      exact lists
    · exact lists
  · split at ran
    · cases ran
    · cases ran
    next sig rest signed =>
      cases ran
      rw [signed]
      dsimp only
      rw [if_pos (by omega)]
      refine lists.write (if_neg fun empty => ?_).symm fun place => ?_
      · have stored := @get?_set_self _ _ _ (snm.senderTxs sig.signer) sig.sequence tx
        rw [← mem_entries, empty] at stored
        cases stored
      · obtain ⟨sender, nonce⟩ := place
        simp only [get?_set, Pair.mk.injEq, ite_and, lists.senderTxs, get?_heldStore]
        split_ifs with here <;> simp [here]

theorem Lists.remove (lists : snm.Lists held) (ran : snm.remove cfg tx = .ok next) :
    next.Lists (heldAfterRemove cfg tx held) := by
  unfold SenderNonceMempool.remove at ran
  unfold heldAfterRemove placeOf
  split at ran
  · cases ran
  · cases ran
  next sig rest signed =>
    rw [signed]
    split at ran
    · cases ran
    next senderTxs found =>
      split at ran
      · cases ran
      · cases ran
        refine lists.write rfl fun place => ?_
        have isList := lists.senderTxs sig.signer
        rw [SenderNonceMempool.senderTxs, found, Option.getD_some] at isList
        obtain ⟨sender, nonce⟩ := place
        simp only [get?_delete, Pair.mk.injEq, ite_and, isList, get?_heldStore]
        split_ifs with here <;> simp [here]

theorem Lists.get?_values (lists : snm.Lists held) (sender : Sender) :
    (snm.senders.get? sender).map Store.values
      = if heldBy held sender = [] then none else some (heldBy held sender) := by
  have same : heldBy held sender = (heldStore held sender).values := by
    simp [heldBy, heldStore, Store.values, comp_def]
  rw [lists sender, same]
  obtain ⟨entries, sorted⟩ := heldStore held sender
  cases entries <;> rfl

theorem Lists.nextSenderTx (lists : snm.Lists held) (sender : Sender) :
    snm.nextSenderTx sender = .ok (heldBy held sender).head? := by
  rw [SenderNonceMempool.nextSenderTx, frontValue, lists.get?_values]
  cases heldBy held sender <;> rfl

end SenderNonceMempool

/-! ## Runs -/

inductive SenderNonceOp (Tx : Type) where
  | insert (tx : Tx)
  | remove (tx : Tx)

/-- The pool and what it holds after a call that succeeds. -/
def SenderNonceOp.call (cfg : Config C Tx) (state : SenderNonceMempool Tx × Held Tx) :
    SenderNonceOp Tx → Except MempoolError (SenderNonceMempool Tx × Held Tx)
  | .insert tx => (state.1.insert cfg tx).map (·, heldAfterInsert cfg tx state.2)
  | .remove tx => (state.1.remove cfg tx).map (·, heldAfterRemove cfg tx state.2)

def runSenderNonce (cfg : Config C Tx) (ops : List (SenderNonceOp Tx)) :
    SenderNonceMempool Tx × Held Tx :=
  ops.foldl (fun state op => (op.call cfg state).toOption.getD state) (⟨∅, ∅⟩, ∅)

theorem runSenderNonce_lists (cfg : Config C Tx) (ops : List (SenderNonceOp Tx)) :
    (runSenderNonce cfg ops).1.Lists (runSenderNonce cfg ops).2 := by
  refine List.foldlRecOn (motive := fun (state : SenderNonceMempool Tx × Held Tx) =>
    state.1.Lists state.2) ops _ ?_ ?_
  · exact fun _ => rfl
  · intro state lists op _
    cases op with
    | insert tx =>
      rw [SenderNonceOp.call]
      cases ran : state.1.insert cfg tx with
      | error reason => exact lists
      | ok next => exact lists.insert ran
    | remove tx =>
      rw [SenderNonceOp.call]
      cases ran : state.1.remove cfg tx with
      | error reason => exact lists
      | ok next => exact lists.remove ran

/-- In both mempools `NextSenderTx` returns the sender's transaction with the smallest nonce.
If there is none, the sender-nonce mempool returns nil; the priority mempool does so exactly if
it never held one. -/
theorem next_sender_tx_is_lowest_iff [LinearOrder C] [Inhabited C] (cfg : Config C Tx)
    (ops : List (Op C Tx)) (senderOps : List (SenderNonceOp Tx)) (sender : Sender) :
    let (mp, held) := runOps cfg ops ⟨∅, ∅, ∅, ∅⟩ ∅
    let (snm, senderHeld) := runSenderNonce cfg senderOps
    (mp.nextSenderTx sender = .ok (heldBy held sender).head?
        ↔ heldBy held sender ≠ [] ∨ ∀ earlier, earlier <+: ops →
          heldBy (runOps cfg earlier ⟨∅, ∅, ∅, ∅⟩ ∅).2 sender = [])
      ∧ snm.nextSenderTx sender = .ok (heldBy senderHeld sender).head? := by
  constructor
  · have agrees := (runOps_inStep ops _ _ (agrees_empty cfg) fun _ => rfl).1
    have indexed : (runOps cfg ops ⟨∅, ∅, ∅, ∅⟩ ∅).1.Indexes sender ↔ _ :=
      runOps_indexes ops _ _ (agrees_empty cfg)
    rw [or_iff_right (show ¬ Pool.Indexes ⟨∅, ∅, ∅, ∅⟩ sender from nofun)] at indexed
    rw [agrees.nextSenderTx sender]
    by_cases holds : heldBy (runOps cfg ops ⟨∅, ∅, ∅, ∅⟩ ∅).2 sender = []
    · rw [or_iff_right (not_not.mpr holds)]
      split_ifs with emptied
      · refine iff_of_false (fun same => nomatch same) fun never => ?_
        obtain ⟨earlier, start, held⟩ := indexed.mp emptied.2
        exact held (never earlier start)
      · refine iff_of_true rfl fun earlier start => not_not.mp fun held => ?_
        exact emptied ⟨holds, indexed.mpr ⟨earlier, start, held⟩⟩
    · rw [if_neg fun emptied => holds emptied.1]
      exact iff_of_true rfl (.inl holds)
  · exact (runSenderNonce_lists cfg senderOps).nextSenderTx sender

/-- The only transaction of a sender is removed again. -/
theorem next_sender_tx_panics_on_emptied_index :
    (runOps sampleConfig [.insert 5 ⟨1, 1, 0⟩, .remove ⟨1, 1, 0⟩] ⟨∅, ∅, ∅, ∅⟩ ∅).1.nextSenderTx
        [1] = .error .nilElement := by
  decide +kernel

/-! ## Iteration -/

namespace SenderNonceMempool

/-- A cursor is the rest of the sender's list that starts at it; `rnd` are the draws to come. -/
structure Iterator (Tx : Type) where
  senders : List Sender
  senderCursors : Sender → Option (List Tx)
  rnd : Nat → Nat

/-- The iterator that `doSelect` calls `Next` on. -/
def doSelect (snm : SenderNonceMempool Tx) (rnd : Nat → Nat) : Iterator Tx where
  senders := snm.senders.keys
  senderCursors sender := (snm.senders.get? sender).map Store.values
  rnd := rnd

namespace Iterator

/-- The loop of `Next`, which has a round for each sender at most. -/
def nextIn : Nat → Iterator Tx → Except MempoolError (Option (Tx × Iterator Tx))
  | 0, _ => .ok none
  | rounds + 1, i =>
    let senderIndex := i.rnd 0 % i.senders.length
    let drawn := { i with rnd := fun draw => i.rnd (draw + 1) }
    match i.senders[senderIndex]? with
    | none => .ok none
    | some sender =>
      match i.senderCursors sender with
      | none => nextIn rounds { drawn with senders := i.senders.eraseIdx senderIndex }
      | some [] => .error .nilElement
      | some [tx] => .ok (some (tx, { drawn with senders := i.senders.eraseIdx senderIndex }))
      | some (tx :: later) => .ok (some (tx,
          { drawn with senderCursors := update i.senderCursors sender (some later) }))

def next (i : Iterator Tx) : Except MempoolError (Option (Tx × Iterator Tx)) :=
  i.nextIn i.senders.length

/-- Following `Next` to the end returns these transactions. -/
inductive Follows : Iterator Tx → List Tx → Prop
  | done {i : Iterator Tx} (stops : i.next = .ok none) : Follows i []
  | step {i j : Iterator Tx} {tx : Tx} {txs : List Tx}
    (next : i.next = .ok (some (tx, j))) (later : Follows j txs) : Follows i (tx :: txs)

/-- The senders left are those with transactions left, and their cursors are there. -/
structure Ready (queues : Sender → List Tx) (i : Iterator Tx) : Prop where
  once : i.senders.Nodup
  waiting : ∀ sender, sender ∈ i.senders ↔ queues sender ≠ []
  cursor : ∀ sender ∈ i.senders, i.senderCursors sender = some (queues sender)

variable {queues : Sender → List Tx} {i : Iterator Tx}

theorem Ready.done (ready : Ready queues i) (nothing : ∀ sender, queues sender = []) :
    Follows i [] := by
  have empty : i.senders = [] := by
    apply eq_nil_iff_forall_not_mem.mpr
    intro sender member
    exact (ready.waiting sender).mp member (nothing sender)
  apply Follows.done
  rw [next, empty]
  rfl

/-- A draw of a sender returns its first transaction, and brings no sender back. -/
theorem Ready.step (ready : Ready queues i) {sender : Sender} {tx : Tx} {rest : List Tx}
    (front : queues sender = tx :: rest) :
    ∃ j, Ready (update queues sender rest) j ∧ j.senders <+ i.senders
      ∧ ∀ rnd : Nat → Nat, i.senders[rnd 0 % i.senders.length]? = some sender →
          { i with rnd := rnd }.next
            = .ok (some (tx, { j with rnd := fun draw => rnd (draw + 1) })) := by
  have member : sender ∈ i.senders := (ready.waiting sender).mpr (by simp [front])
  have cursor := ready.cursor sender member
  rw [front] at cursor
  obtain ⟨rounds, length⟩ : ∃ rounds, i.senders.length = rounds + 1 :=
    Nat.exists_eq_succ_of_ne_zero (length_pos_of_mem member).ne'
  cases rest with
  | nil =>
    refine ⟨{ i with senders := i.senders.erase sender },
      ⟨ready.once.erase sender, ?_, ?_⟩, erase_sublist, ?_⟩
    · intro other
      rw [ready.once.mem_erase_iff, ready.waiting, update_apply]
      split_ifs with here <;> simp [here]
    · intro other inErased
      obtain ⟨different, inSenders⟩ := ready.once.mem_erase_iff.mp inErased
      rw [update_of_ne different]
      exact ready.cursor other inSenders
    · intro rnd drawn
      obtain ⟨bound, isSender⟩ := List.getElem?_eq_some_iff.mp drawn
      have erased := ready.once.erase_getElem _ bound
      rw [isSender] at erased
      rw [next, length, nextIn]
      simp only [drawn, cursor, erased]
  | cons second later =>
    refine ⟨{ i with senderCursors := update i.senderCursors sender (some (second :: later)) },
      ⟨ready.once, ?_, ?_⟩, .refl _, ?_⟩
    · intro other
      rw [ready.waiting, update_apply]
      split_ifs with here <;> simp [here, front]
    · intro other inSenders
      show update i.senderCursors sender _ other = some (update queues sender _ other)
      rw [update_apply, update_apply]
      split_ifs
      · rfl
      · exact ready.cursor other inSenders
    · intro rnd drawn
      rw [next, length, nextIn]
      simp only [drawn, cursor]

/-- Every sequence of draws interleaves the queues. -/
theorem Ready.interleaves (ready : Ready queues i) :
    ∃ txs, Follows i txs ∧ Interleaves queues txs := by
  induction left : leftIn i.senders queues using Nat.strong_induction_on generalizing queues i with
  | _ left ih =>
    by_cases nothing : ∀ sender, queues sender = []
    · exact ⟨[], ready.done nothing, .nil nothing⟩
    · obtain ⟨someone, waits⟩ := not_forall.mp nothing
      have positive := length_pos_of_mem ((ready.waiting someone).mpr waits)
      obtain ⟨sender, drawn⟩ : ∃ sender, i.senders[i.rnd 0 % i.senders.length]? = some sender :=
        ⟨_, getElem?_eq_getElem (Nat.mod_lt (i.rnd 0) positive)⟩
      have member := mem_of_getElem? drawn
      obtain ⟨tx, rest, front⟩ := exists_cons_of_ne_nil ((ready.waiting sender).mp member)
      obtain ⟨j, ready', fewer, steps⟩ := ready.step front
      obtain ⟨txs, follows, interleaves⟩ := ih _ (left ▸ leftIn_take_lt front member fewer)
        (i := { j with rnd := fun draw => i.rnd (draw + 1) }) { ready' with } rfl
      exact ⟨tx :: txs, .step (steps i.rnd drawn) follows, .cons front interleaves⟩

/-- Every interleaving of the queues is drawn. -/
theorem Ready.drawn {txs : List Tx} (interleaves : Interleaves queues txs) :
    ∀ {i : Iterator Tx}, Ready queues i → ∃ rnd, Follows { i with rnd := rnd } txs := by
  induction interleaves with
  | nil nothing =>
    intro i ready
    exact ⟨fun _ => 0, Ready.done { ready with } nothing⟩
  | @cons queues sender tx rest txs front _ ih =>
    intro i ready
    obtain ⟨j, ready', _, steps⟩ := ready.step front
    obtain ⟨rnd, follows⟩ := ih ready'
    obtain ⟨index, drawn⟩ := getElem?_of_mem ((ready.waiting sender).mpr (by simp [front]))
    -- the first draw is the sender's index
    refine ⟨fun draw => draw.casesOn index rnd, .step (steps _ ?_) follows⟩
    show i.senders[index % i.senders.length]? = _
    rw [Nat.mod_eq_of_lt (List.getElem?_eq_some_iff.mp drawn).1, drawn]

end Iterator

end SenderNonceMempool

open SenderNonceMempool.Iterator in
/-- From `Select` to the end, every sequence of draws interleaves the senders' transactions in
nonce order, each of those held once, and every interleaving is drawn by some sequence. -/
theorem iteration_interleaves_senders (cfg : Config C Tx) (ops : List (SenderNonceOp Tx)) :
    let (snm, held) := runSenderNonce cfg ops
    (∀ rnd, ∃ txs, Follows (snm.doSelect rnd) txs ∧ Interleaves (heldBy held) txs)
      ∧ ∀ txs, Interleaves (heldBy held) txs → ∃ rnd, Follows (snm.doSelect rnd) txs := by
  have values := (runSenderNonce_lists cfg ops).get?_values
  have waiting : ∀ sender, sender ∈ (runSenderNonce cfg ops).1.senders.keys
      ↔ heldBy (runSenderNonce cfg ops).2 sender ≠ [] := by
    intro sender
    rw [Store.mem_keys, ← Option.isSome_map, values]
    split_ifs with empty <;> simp [empty]
  have ready : ∀ rnd, Ready (heldBy (runSenderNonce cfg ops).2)
      ((runSenderNonce cfg ops).1.doSelect rnd) := by
    refine fun rnd => ⟨Store.keys_nodup _, waiting, fun sender member => ?_⟩
    exact (values sender).trans (if_neg ((waiting sender).mp member))
  exact ⟨fun rnd => (ready rnd).interleaves, fun txs given => Ready.drawn given (ready fun _ => 0)⟩

end AtomOneSdk.Mempool
