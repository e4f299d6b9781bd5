import AtomOneSdk.Mempool.Iteration

/-!
Contract: the indices of a pool agree with the transactions it holds.

Owns: the agreement of the two indices and the scores with the transactions held, the
exactness of the counts, and that every operation keeps them; the keys of the sender indices
bound the scores unless an operation raises the priority of a held transaction.

Does **not** own: what an iteration over the indices returns.
-/

namespace AtomOneSdk.Mempool

open Lib Lib.Action Store List

variable {C Tx : Type} [LinearOrder C]

abbrev Place := Pair Sender Nat

/-- The transactions held: for each sender and nonce the last one inserted and not
removed. -/
abbrev Held (Tx : Type) := Store Place Tx

def TxMeta.place (key : TxMeta C) : Place := ⟨key.sender, key.nonce⟩

def TxMeta.score (key : TxMeta C) : Score C := ⟨key.priority, key.weight⟩

omit [LinearOrder C] in
theorem TxMeta.eq_of_place {first second : TxMeta C} (place : first.place = second.place)
    (score : first.score = second.score) : first = second := by
  obtain ⟨nonce, priority, sender, weight⟩ := first
  obtain ⟨nonce', priority', sender', weight'⟩ := second
  cases place
  cases score
  rfl

/-! ## The priority index -/

section Index

variable {index : Store (TxMeta C) Tx} {scores : Store Place (Score C)} {held : Held Tx}

/-- The priority index has one node for every transaction held, under its score. -/
def Indexed (index : Store (TxMeta C) Tx) (scores : Store Place (Score C)) (held : Held Tx) :
    Prop :=
  ∀ key tx, index.get? key = some tx ↔
    held.get? key.place = some tx ∧ scores.get? key.place = some key.score

/-- The same for the other places, and no node for this one. -/
def IndexedApart (place : Place) (index : Store (TxMeta C) Tx) (scores : Store Place (Score C))
    (held : Held Tx) : Prop :=
  ∀ key tx, index.get? key = some tx ↔
    key.place ≠ place ∧ held.get? key.place = some tx ∧ scores.get? key.place = some key.score

theorem Indexed.clear (indexed : Indexed index scores held) {place : Place} {score : Score C}
    (scored : scores.get? place = some score) :
    IndexedApart place
      (index.delete ⟨place.snd, score.priority, place.fst, score.weight⟩) scores held := by
  intro key tx
  rw [get?_delete]
  split_ifs with same
  · rw [same]
    exact ⟨fun impossible => (nomatch impossible), fun apart => absurd rfl apart.1⟩
  · rw [indexed key tx]
    refine ⟨fun found => ⟨fun samePlace => ?_, found⟩, fun apart => apart.2⟩
    have sameScore : key.score = score := by
      have := found.2
      rw [samePlace, scored] at this
      exact (Option.some.inj this).symm
    exact same (TxMeta.eq_of_place samePlace sameScore)

theorem Indexed.apart_of_none (indexed : Indexed index scores held) {place : Place}
    (unscored : scores.get? place = none) : IndexedApart place index scores held := by
  intro key tx
  rw [indexed key tx]
  refine ⟨fun found => ⟨fun samePlace => ?_, found⟩, fun apart => apart.2⟩
  rw [samePlace, unscored] at found
  exact nomatch found.2

theorem IndexedApart.put {key : TxMeta C} (apart : IndexedApart key.place index scores held)
    (tx : Tx) :
    Indexed (index.set key tx) (scores.set key.place key.score) (held.set key.place tx) := by
  intro other found
  by_cases samePlace : other.place = key.place
  · rw [samePlace, get?_set_self, get?_set_self, get?_set]
    split_ifs with same
    · rw [same]
      exact ⟨fun equal => ⟨equal, rfl⟩, fun both => both.1⟩
    · rw [apart other found]
      refine ⟨fun both => absurd samePlace both.1, fun both => ?_⟩
      exact absurd (TxMeta.eq_of_place samePlace (Option.some.inj both.2).symm) same
  · have differ : other ≠ key := fun same => samePlace (by rw [same])
    rw [get?_set_of_ne differ, get?_set_of_ne samePlace,
      get?_set_of_ne samePlace, apart other found]
    exact ⟨fun both => both.2, fun both => ⟨samePlace, both⟩⟩

theorem IndexedApart.drop {place : Place} (apart : IndexedApart place index scores held) :
    Indexed index (scores.delete place) (held.delete place) := by
  intro key tx
  rw [apart key tx]
  by_cases samePlace : key.place = place
  · rw [samePlace, get?_delete_self]
    exact ⟨fun both => absurd rfl both.1, fun both => nomatch both.1⟩
  · rw [get?_delete_of_ne samePlace, get?_delete_of_ne samePlace]
    exact ⟨fun both => both.2, fun both => ⟨samePlace, both⟩⟩

end Index

/-! ## Agreement of a pool with what it holds -/

section Agreement

/-- Sender and nonce of a transaction: those of its first signature. -/
def placeOf (cfg : Config C Tx) (tx : Tx) : Option Place :=
  match cfg.getSigners tx with
  | .ok (sig :: _) => some ⟨sig.signer, sig.sequence⟩
  | _ => none

omit [LinearOrder C] in
theorem senderOf_of_placeOf {cfg : Config C Tx} {tx : Tx} {place : Place}
    (signed : placeOf cfg tx = some place) : senderOf cfg tx = some place.fst := by
  cases read : cfg.getSigners tx with
  | error reason =>
    simp only [placeOf, read] at signed
    cases signed
  | ok signers =>
    cases signers with
    | nil =>
      simp only [placeOf, read] at signed
      cases signed
    | cons sig rest =>
      simp only [placeOf, read] at signed
      simp only [senderOf, read]
      exact congrArg (Option.map Pair.fst) signed

/-- An element is stored under its own place, and the priorities of its score and of its key
are related. -/
structure Keyed (below : C → C → Prop) (scores : Store Place (Score C)) (place : Place)
    (key : TxMeta C) : Prop where
  own : key.place = place
  priority : ∀ score, scores.get? place = some score → below score.priority key.priority

structure AgreesBy (below : C → C → Prop) (cfg : Config C Tx) (held : Held Tx) (mp : Pool C Tx) :
    Prop where
  indexed : Indexed mp.priorityIndex mp.scores held
  scored : ∀ place, mp.scores.get? place = none ↔ held.get? place = none
  listed : ∀ place : Place,
    held.get? place = ((mp.senderIndex place.fst).get? place.snd).map Prod.snd
  keyed : ∀ (place : Place) (key : TxMeta C) (tx : Tx),
    (mp.senderIndex place.fst).get? place.snd = some (key, tx) → Keyed below mp.scores place key
  signed : ∀ place tx, held.get? place = some tx → placeOf cfg tx = some place

/-- Scores are not above keys: no transaction was put in place of one with a lower priority. -/
abbrev Agrees (cfg : Config C Tx) (held : Held Tx) (mp : Pool C Tx) : Prop :=
  AgreesBy (· ≤ ·) cfg held mp

variable {below : C → C → Prop} {cfg : Config C Tx} {held : Held Tx} {mp : Pool C Tx}

theorem agrees_empty (cfg : Config C Tx) : AgreesBy below cfg ∅ (⟨∅, ∅, ∅, ∅⟩ : Pool C Tx) where
  indexed := fun _ _ => ⟨fun impossible => (nomatch impossible), fun both => nomatch both.1⟩
  scored := fun _ => ⟨fun _ => rfl, fun _ => rfl⟩
  listed := fun _ => rfl
  keyed := fun _ _ _ impossible => nomatch impossible
  signed := fun _ _ impossible => nomatch impossible

variable (agrees : AgreesBy below cfg held mp)

include agrees

theorem AgreesBy.of_same {other : Pool C Tx}
    (priorityIndex : other.priorityIndex = mp.priorityIndex) (scores : other.scores = mp.scores)
    (senders : ∀ sender, other.senderIndex sender = mp.senderIndex sender) :
    AgreesBy below cfg held other where
  indexed := by
    rw [priorityIndex, scores]
    exact agrees.indexed
  scored := by
    rw [scores]
    exact agrees.scored
  listed := by
    intro place
    rw [senders]
    exact agrees.listed place
  keyed := by
    intro place key tx
    rw [senders, scores]
    exact agrees.keyed place key tx
  signed := agrees.signed

theorem AgreesBy.score_of_held {place : Place} {tx : Tx} (present : held.get? place = some tx) :
    ∃ score, mp.scores.get? place = some score := by
  cases scored : mp.scores.get? place with
  | none => rw [(agrees.scored place).mp scored] at present; cases present
  | some score => exact ⟨score, rfl⟩

theorem AgreesBy.element_of_held {place : Place} {tx : Tx} (present : held.get? place = some tx) :
    ∃ key, (mp.senderIndex place.fst).get? place.snd = some (key, tx) := by
  rw [agrees.listed place] at present
  obtain ⟨⟨key, tx'⟩, found, same⟩ := Option.map_eq_some_iff.mp present
  cases same
  exact ⟨key, found⟩

/-- A transaction is put at a place: in the index under its key, in the sender's index under
a key with no lower priority. -/
theorem AgreesBy.put {base : Store (TxMeta C) Tx} {key stored : TxMeta C} {tx : Tx}
    (apart : IndexedApart key.place base mp.scores held) (signed : placeOf cfg tx = some key.place)
    (own : stored.place = key.place) (least : below key.priority stored.priority) {next : Pool C Tx}
    (index : next.priorityIndex = base.set key tx)
    (scores : next.scores = mp.scores.set key.place key.score)
    (elements : ∀ place : Place, (next.senderIndex place.fst).get? place.snd
      = if place = key.place then some (stored, tx)
        else (mp.senderIndex place.fst).get? place.snd) :
    AgreesBy below cfg (held.set key.place tx) next where
  indexed := by
    rw [index, scores]
    exact apart.put tx
  scored := by
    intro place
    rw [scores, get?_set, get?_set]
    split_ifs
    · exact ⟨fun impossible => (nomatch impossible), fun impossible => (nomatch impossible)⟩
    · exact agrees.scored place
  listed := by
    intro place
    rw [elements, get?_set]
    split_ifs
    · rfl
    · exact agrees.listed place
  keyed := by
    intro place key' tx' found
    rw [elements] at found
    rw [scores]
    split_ifs at found with same
    · cases found
      refine ⟨own.trans same.symm, fun score scored => ?_⟩
      rw [same, get?_set_self] at scored
      cases scored
      exact least
    · obtain ⟨own', priority⟩ := agrees.keyed place key' tx' found
      refine ⟨own', fun score scored => priority score ?_⟩
      rwa [get?_set_of_ne same] at scored
  signed := by
    intro place tx' present
    rcases get?_set_cases present with here | elsewhere
    · rw [here.1, here.2]
      exact signed
    · exact agrees.signed place tx' elsewhere.2

theorem AgreesBy.drop {place : Place} {next : Pool C Tx}
    (apart : IndexedApart place next.priorityIndex mp.scores held)
    (scores : next.scores = mp.scores.delete place)
    (elements : ∀ other : Place, (next.senderIndex other.fst).get? other.snd
      = if other = place then none else (mp.senderIndex other.fst).get? other.snd) :
    AgreesBy below cfg (held.delete place) next where
  indexed := by
    rw [scores]
    exact apart.drop
  scored := by
    intro other
    rw [scores, get?_delete, get?_delete]
    split_ifs
    · exact ⟨fun _ => rfl, fun _ => rfl⟩
    · exact agrees.scored other
  listed := by
    intro other
    rw [elements, get?_delete]
    split_ifs
    · rfl
    · exact agrees.listed other
  keyed := by
    intro other key tx found
    rw [elements] at found
    rw [scores]
    split_ifs at found with same
    obtain ⟨own, priority⟩ := agrees.keyed other key tx found
    refine ⟨own, fun score scored => priority score ?_⟩
    rwa [get?_delete_of_ne same] at scored
  signed := fun other tx present => agrees.signed other tx (get?_delete_some present).2

omit agrees

/-- The key an element is stored under after `Set`. -/
def storedKey (index : SenderIndex C Tx) (key : TxMeta C) : TxMeta C :=
  ((index.get? key.nonce).map Prod.fst).getD key

omit [LinearOrder C] in
theorem setTx_eq (index : SenderIndex C Tx) (key : TxMeta C) (tx : Tx) :
    index.setTx key tx = index.set key.nonce (storedKey index key, tx) := by
  unfold SenderIndex.setTx storedKey
  cases index.get? key.nonce with
  | none => rfl
  | some found => rfl

theorem post_firstSigner {holds : SignerData → Pool C Tx → Prop}
    {stops : Fault MempoolError → Pool C Tx → Prop} {tx : Tx}
    (signed : ∀ sig : SignerData, placeOf cfg tx = some ⟨sig.signer, sig.sequence⟩ → holds sig mp)
    (unsigned : placeOf cfg tx = none → ∀ fault, stops fault mp) :
    Post (firstSigner cfg tx) mp holds stops := by
  unfold firstSigner
  unfold placeOf at signed unsigned
  split
  next read => exact unsigned (by rw [read]) _
  next read => exact unsigned (by rw [read]) _
  next sig rest read =>
    apply signed
    rw [read]

theorem element_of_indices {indices : Store Sender (SenderIndex C Tx)} {next : Pool C Tx}
    {sender : Sender} {index : SenderIndex C Tx}
    (senders : ∀ other, (indices.get? other).getD ∅ = mp.senderIndex other)
    (written : next.senderIndices = indices.set sender index) (other : Sender) :
    next.senderIndex other = if other = sender then index else mp.senderIndex other := by
  unfold Pool.senderIndex
  rw [written, get?_set]
  split_ifs
  · rfl
  · exact senders other

/-- The elements after a sender's index is replaced by one that differs at a nonce. -/
theorem element_of_written {indices : Store Sender (SenderIndex C Tx)} {next : Pool C Tx}
    {sender : Sender} {nonce : Nat} {index : SenderIndex C Tx} {found : Option (TxMeta C × Tx)}
    (senders : ∀ other, (indices.get? other).getD ∅ = mp.senderIndex other)
    (written : next.senderIndices = indices.set sender index) (changed : ∀ other, index.get? other
      = if other = nonce then found else (mp.senderIndex sender).get? other) (place : Place) :
    (next.senderIndex place.fst).get? place.snd
      = if place = ⟨sender, nonce⟩ then found
        else (mp.senderIndex place.fst).get? place.snd := by
  rw [element_of_indices senders written]
  obtain ⟨placeSender, placeNonce⟩ := place
  by_cases sameSender : placeSender = sender
  · rw [if_pos sameSender, changed]
    simp only [Pair.mk.injEq, sameSender, true_and]
  · rw [if_neg sameSender, if_neg fun same => sameSender (congrArg Pair.fst same)]

end Agreement

/-! ## Counts -/

section Counts

def ofPriority (priority : C) (_ : Place) (score : Score C) : Int :=
  if score.priority = priority then 1 else 0

def Counted (mp : Pool C Tx) : Prop :=
  ∀ priority, mp.count priority = mp.scores.sum (ofPriority priority)

variable {mp next : Pool C Tx}

theorem count_set (mp : Pool C Tx) (priority other : C) (change : Int) :
    ((mp.priorityCounts.set priority (mp.count priority + change)).get? other).getD 0
      = mp.count other + if priority = other then change else 0 := by
  rw [get?_set]
  by_cases same : other = priority
  · rw [if_pos same, if_pos same.symm, same]
    rfl
  · rw [if_neg same, if_neg (Ne.symm same), add_zero]
    rfl

/-- A score is written, and the counts move from the old priority to the new one. -/
theorem Counted.put (counted : Counted mp) {place : Place} {score : Score C}
    (scores : next.scores = mp.scores.set place score)
    (counts : ∀ priority, next.count priority = mp.count priority
      - mp.scores.termAt (ofPriority priority) place + ofPriority priority place score) :
    Counted next := by
  intro priority
  rw [counts, scores, Store.sum_set, counted priority]

theorem Counted.drop (counted : Counted mp) {place : Place}
    (scores : next.scores = mp.scores.delete place) (counts : ∀ priority, next.count priority
      = mp.count priority - mp.scores.termAt (ofPriority priority) place) : Counted next := by
  intro priority
  rw [counts, scores, sum_delete, counted priority]

/-- A pool after a step, in agreement; exact counts stay exact. -/
abbrev AgreesAfter (below : C → C → Prop) (cfg : Config C Tx) (held : Held Tx)
    (mp next : Pool C Tx) : Prop :=
  AgreesBy below cfg held next ∧ (Counted mp → Counted next)

end Counts

/-! ## The operations -/

section Operations

variable {below : C → C → Prop} {cfg : Config C Tx} {held : Held Tx} {mp : Pool C Tx}

/-- The sender and nonce are free or their transaction was inserted with no lower
priority. -/
def NotRaised (cfg : Config C Tx) (mp : Pool C Tx) (priority : C) (tx : Tx) : Prop :=
  ∀ place ∈ placeOf cfg tx, ∀ element ∈ (mp.senderIndex place.fst).get? place.snd,
    priority ≤ element.1.priority

instance (cfg : Config C Tx) (mp : Pool C Tx) (priority : C) (tx : Tx) :
    Decidable (NotRaised cfg mp priority tx) :=
  inferInstanceAs (Decidable (∀ place ∈ placeOf cfg tx,
    ∀ element ∈ (mp.senderIndex place.fst).get? place.snd, priority ≤ element.1.priority))

def heldAfterInsert (cfg : Config C Tx) (tx : Tx) (held : Held Tx) : Held Tx :=
  match placeOf cfg tx with
  | some place => if 0 ≤ cfg.maxTx then held.set place tx else held
  | none => held

/-- The last step of an insertion, once the index has no node of the place. -/
theorem AgreesBy.enter (agrees : AgreesBy below cfg held mp) {base : Store (TxMeta C) Tx}
    {indices : Store Sender (SenderIndex C Tx)} {key : TxMeta C} {tx : Tx}
    (apart : IndexedApart key.place base mp.scores held)
    (senders : ∀ sender, (indices.get? sender).getD ∅ = mp.senderIndex sender)
    (signed : placeOf cfg tx = some key.place) (refl : ∀ priority, below priority priority)
    (related : ∀ place ∈ placeOf cfg tx,
      ∀ element ∈ (mp.senderIndex place.fst).get? place.snd, below key.priority element.1.priority)
    {next : Pool C Tx} (index : next.priorityIndex = base.set key tx)
    (scores : next.scores = mp.scores.set key.place key.score) (written : next.senderIndices
      = indices.set key.sender (((indices.get? key.sender).getD ∅).setTx key tx)) :
    AgreesBy below cfg (held.set key.place tx) next := by
  have kept : (storedKey (mp.senderIndex key.sender) key).place = key.place
      ∧ below key.priority (storedKey (mp.senderIndex key.sender) key).priority := by
    unfold storedKey
    cases found : (mp.senderIndex key.sender).get? key.nonce with
    | none => exact ⟨rfl, refl _⟩
    | some element =>
      exact ⟨(agrees.keyed key.place element.1 element.2 found).own,
        related key.place signed element found⟩
  apply agrees.put apart signed kept.1 kept.2 index scores
  apply element_of_written senders written
  intro nonce
  rw [setTx_eq, senders, get?_set]

theorem replaceOld_spec (sender : Sender) (nonce : Nat) (priority : C) (tx : Tx)
    (oldScore : Score C) :
    Post (replaceOld cfg sender nonce priority tx oldScore) mp
      (fun _ next =>
        next.priorityIndex
            = mp.priorityIndex.delete ⟨nonce, oldScore.priority, sender, oldScore.weight⟩
          ∧ next.scores = mp.scores ∧ next.senderIndices = mp.senderIndices
          ∧ ∀ other, next.count other
              = mp.count other + if oldScore.priority = other then -1 else 0)
      (fun _ next => next = mp) := by
  have counts := fun other => count_set mp oldScore.priority other (-1)
  unfold replaceOld
  cases cfg.txReplacement with
  | none =>
    simp only [addCount, post_rules]
    exact counts
  | some rule =>
    simp only [addCount, post_rules]
    exact fun _ _ _ => counts

theorem senderIndex_created (mp : Pool C Tx) (sender other : Sender) :
    ((mp.senderIndices.set sender (mp.senderIndex sender)).get? other).getD ∅
      = mp.senderIndex other := by
  rw [get?_set]
  split_ifs with same
  · rw [same]
    rfl
  · rfl

def heldAfterRemove (cfg : Config C Tx) (tx : Tx) (held : Held Tx) : Held Tx :=
  match placeOf cfg tx with
  | some place => held.delete place
  | none => held

theorem remove_spec (agrees : AgreesBy below cfg held mp) (tx : Tx) :
    Post (Mempool.remove cfg tx) mp
      (fun _ => AgreesAfter below cfg (heldAfterRemove cfg tx held) mp)
      (fun _ next => (∀ place ∈ placeOf cfg tx, held.get? place = none)
        ∧ AgreesAfter below cfg held mp next) := by
  have same : AgreesAfter below cfg held mp mp := ⟨agrees, id⟩
  simp only [Mempool.remove, post_bind]
  apply post_firstSigner
  · intro sig signed
    have after : heldAfterRemove cfg tx held = held.delete ⟨sig.signer, sig.sequence⟩ := by
      rw [heldAfterRemove, signed]
    simp only [post_rules, addCount, after, signed, Option.mem_some, forall_eq']
    refine ⟨fun score scored => ⟨fun senderTxs found => ⟨?_, fun counted => ?_⟩, fun missing => ?_⟩,
      fun unscored => ⟨(agrees.scored _).mp unscored, same⟩⟩
    · have apart := agrees.indexed.clear scored
      refine agrees.drop apart rfl (element_of_written (fun _ => rfl) rfl fun nonce => ?_)
      rw [get?_delete, Pool.senderIndex, found]
      rfl
    · refine counted.drop rfl fun priority => (count_set mp score.priority priority (-1)).trans ?_
      rw [termAt_of_some scored, ofPriority]
      split_ifs <;> rfl
    · refine ⟨(agrees.listed _).trans ?_, same⟩
      rw [Pool.senderIndex, missing]
      rfl
  · intro unsigned _
    rw [unsigned]
    exact ⟨fun place impossible => (Option.not_mem_none place impossible).elim, same⟩

/-- What a reordering of one node needs: the node is there. -/
structure Reorders (mp : Pool C Tx) (k : ReorderKey C Tx) : Prop where
  found : mp.priorityIndex.get? k.deleteKey = some k.tx
  weighed : k.insertKey = { k.deleteKey with weight := k.insertKey.weight }

theorem reorder_spec (agrees : AgreesBy below cfg held mp) {k : ReorderKey C Tx}
    (reorders : Reorders mp k) : AgreesAfter below cfg held mp (mp.reorder k) := by
  obtain ⟨present, scored⟩ := (agrees.indexed k.deleteKey k.tx).mp reorders.found
  have place : k.insertKey.place = k.deleteKey.place := by rw [reorders.weighed]; rfl
  have priority : k.insertKey.priority = k.deleteKey.priority := by rw [reorders.weighed]
  obtain ⟨stored, element⟩ := agrees.element_of_held present
  have keyed := agrees.keyed k.deleteKey.place stored k.tx element
  have apart : IndexedApart k.insertKey.place (mp.priorityIndex.delete k.deleteKey) mp.scores
      held := by
    rw [place]
    exact agrees.indexed.clear scored
  rw [← place] at present
  rw [← set_eq_self present]
  have scores : (mp.reorder k).scores = mp.scores.set k.insertKey.place k.insertKey.score := by
    show (mp.scores.delete k.deleteKey.place).set k.insertKey.place k.insertKey.score = _
    rw [place, set_delete]
  constructor
  · apply agrees.put apart (agrees.signed _ _ present) (keyed.own.trans place.symm)
    · rw [priority]
      exact keyed.priority _ scored
    · rfl
    · exact scores
    · intro other
      split_ifs with same
      · rw [same, place]
        exact element
      · rfl
  · intro counted
    apply counted.put scores
    intro other
    rw [place, termAt_of_some scored]
    show mp.count other = _
    simp only [ofPriority, TxMeta.score, priority]
    exact (sub_add_cancel _ _).symm

theorem Reorders.of_apart {k later : ReorderKey C Tx}
    (place : k.insertKey.place = k.deleteKey.place)
    (apart : k.deleteKey.place ≠ later.deleteKey.place) (reorders : Reorders mp later) :
    Reorders (mp.reorder k) later where
  found := by
    have notInserted : later.deleteKey ≠ k.insertKey :=
      fun same => apart (by rw [same, place])
    have notDeleted : later.deleteKey ≠ k.deleteKey := fun same => apart (by rw [same])
    show ((mp.priorityIndex.delete k.deleteKey).set k.insertKey k.tx).get? later.deleteKey = _
    rw [get?_set_of_ne notInserted, get?_delete_of_ne notDeleted]
    exact reorders.found
  weighed := reorders.weighed

theorem reorders_spec :
    ∀ (ks : List (ReorderKey C Tx)) (mp : Pool C Tx), AgreesBy below cfg held mp →
      (∀ k ∈ ks, Reorders mp k) →
      ks.Pairwise (fun k later => k.deleteKey.place ≠ later.deleteKey.place) →
      AgreesAfter below cfg held mp (ks.foldl Pool.reorder mp)
  | [], _, agrees, _, _ => ⟨agrees, id⟩
  | k :: rest, mp, agrees, reorders, apart => by
    obtain ⟨fromLater, apartRest⟩ := pairwise_cons.mp apart
    have here := reorders k mem_cons_self
    have place : k.insertKey.place = k.deleteKey.place := by rw [here.weighed]; rfl
    obtain ⟨agreesNext, counts⟩ := reorder_spec agrees here
    have reordersRest : ∀ later ∈ rest, Reorders (mp.reorder k) later := fun later member =>
      (reorders later (mem_cons_of_mem k member)).of_apart place (fromLater later member)
    obtain ⟨agreesLast, countsRest⟩ := reorders_spec rest _ agreesNext reordersRest apartRest
    exact ⟨agreesLast, fun counted => countsRest (counts counted)⟩

theorem AgreesBy.node_unique (agrees : AgreesBy below cfg held mp) {first second : TxMeta C × Tx}
    (isFirst : first ∈ mp.priorityIndex.entries) (isSecond : second ∈ mp.priorityIndex.entries)
    (place : first.1.place = second.1.place) : first.1 = second.1 := by
  have firstScored := ((agrees.indexed first.1 first.2).mp (mem_entries.mp isFirst)).2
  have secondScored := ((agrees.indexed second.1 second.2).mp (mem_entries.mp isSecond)).2
  rw [place, secondScored] at firstScored
  exact TxMeta.eq_of_place place (Option.some.inj firstScored).symm

theorem reorderPriorityTies_spec (agrees : AgreesBy below cfg held mp) :
    AgreesAfter below cfg held mp (mp.reorderPriorityTies cfg) := by
  apply reorders_spec _ mp agrees
  · intro k member
    obtain ⟨entry, kept, rfl⟩ := mem_map.mp member
    exact ⟨mem_entries.mp (mem_filter.mp kept).1, rfl⟩
  · unfold Pool.reordering
    rw [pairwise_map]
    apply Pairwise.imp_of_mem _ (mp.priorityIndex.sorted.filter _)
    intro first second isFirst isSecond ordered samePlace
    have same := agrees.node_unique (mem_filter.mp isFirst).1
      (mem_filter.mp isSecond).1 samePlace
    rw [same] at ordered
    exact lt_irrefl _ ordered

variable [Inhabited C]

theorem insert_spec (agrees : AgreesBy below cfg held mp) {priority : C} {tx : Tx}
    (refl : ∀ priority, below priority priority) (related : ∀ place ∈ placeOf cfg tx,
      ∀ element ∈ (mp.senderIndex place.fst).get? place.snd, below priority element.1.priority) :
    Post (Mempool.insert cfg priority tx) mp
      (fun _ => AgreesAfter below cfg (heldAfterInsert cfg tx held) mp)
      (fun _ => AgreesAfter below cfg held mp) := by
  have same : AgreesAfter below cfg held mp mp := ⟨agrees, id⟩
  simp only [Mempool.insert, post_bind, post_get, post_failIf, post_whenever]
  refine ⟨fun _ => same, fun _ => ⟨fun accepts => ?_, fun refuses => ?_⟩⟩
  · apply post_firstSigner
    · intro sig signed
      simp only [post_modify]
      -- the key the transaction is inserted under
      generalize isKey : (⟨sig.sequence, priority, sig.signer, default⟩ : TxMeta C) = key
      have place : (⟨sig.signer, sig.sequence⟩ : Place) = key.place := by rw [← isKey]; rfl
      have score : (⟨priority, default⟩ : Score C) = key.score := by rw [← isKey]; rfl
      have sender : sig.signer = key.sender := by rw [← isKey]
      have nonce : sig.sequence = key.nonce := by rw [← isKey]
      have named : key.priority = priority := by rw [← isKey]
      rw [place] at signed ⊢
      rw [score, sender, nonce]
      rw [← named] at related
      have senders := senderIndex_created mp key.sender
      have after : heldAfterInsert cfg tx held = held.set key.place tx := by
        rw [heldAfterInsert, signed]
        exact if_pos accepts
      rw [after]
      cases scored : mp.scores.get? key.place with
      | none =>
        simp only [post_bind, addCount, post_modify]
        refine ⟨agrees.enter (agrees.indexed.apart_of_none scored) senders signed refl related
          rfl rfl rfl, fun counted => counted.put rfl fun other => ?_⟩
        rw [termAt_of_none scored, sub_zero, ← score]
        exact count_set mp priority other 1
      | some oldScore =>
        simp only [post_bind]
        apply (replaceOld_spec _ _ _ _ _).mono
        · intro _ next replaced
          obtain ⟨index, scores, indices, counts⟩ := replaced
          have written := congrArg (fun base => Store.set base key.place key.score) scores
          simp only [addCount, post_modify]
          refine ⟨?_, fun counted => counted.put written fun other => ?_⟩
          · apply agrees.enter (agrees.indexed.clear scored) senders signed refl related
            · exact congrArg (fun base => Store.set base key tx) index
            · exact written
            · show next.senderIndices.set key.sender
                (((next.senderIndices.get? key.sender).getD ∅).setTx key tx) = _
              rw [indices]
          · rw [termAt_of_some scored, ← score]
            refine (count_set next priority other 1).trans ?_
            rw [counts]
            simp only [ofPriority]
            show mp.count other + _ + _ = mp.count other - _ + _
            split_ifs <;> rfl
        · intro _ next unchanged
          rw [unchanged]
          exact ⟨agrees.of_same rfl rfl senders, id⟩
    · exact fun _ _ => same
  · have after : heldAfterInsert cfg tx held = held := by
      rw [heldAfterInsert]
      cases placeOf cfg tx with
      | none => rfl
      | some place => exact if_neg refuses
    rw [after]
    exact same

theorem select_spec (agrees : AgreesBy below cfg held mp) :
    AgreesAfter below cfg held mp (mp.select cfg).1 := by
  unfold Pool.select
  split_ifs
  · exact ⟨agrees, id⟩
  · exact reorderPriorityTies_spec agrees

end Operations

end AtomOneSdk.Mempool
