import AtomOneSdk.Mempool.Agreement

/-!
Contract: the mempool returns what it holds.

Owns: that an iteration over indices that agree with the transactions held returns each of
them once and in nonce order, this for `Select` after every run that raises no priority,
and the run that raises one.

Does **not** own: the iteration over an unchanged pool and the agreement of the indices.
-/

namespace AtomOneSdk.Mempool

open Lib Lib.Action Store List

variable {C Tx : Type} [LinearOrder C]

/-! ## An iteration returns what is held -/

section Complete

variable {below : C → C → Prop} {cfg : Config C Tx} {held : Held Tx} {mp : Pool C Tx}

/-- The transactions held of a sender, by nonce. -/
def heldBy (held : Held Tx) (sender : Sender) : List Tx :=
  (held.entries.filter fun entry => entry.1.fst = sender).map Prod.snd

/-- The transactions of one sender as a store by nonce. -/
def heldStore (held : Held Tx) (sender : Sender) : Store Nat Tx where
  entries := (held.entries.filter fun entry => entry.1.fst = sender).map
    fun entry => (entry.1.snd, entry.2)
  sorted := by
    rw [pairwise_map]
    apply Pairwise.imp_of_mem _ (held.sorted.filter _)
    intro first second isFirst isSecond ordered
    have sameSender : first.1.fst = second.1.fst := by
      rw [of_decide_eq_true (mem_filter.mp isFirst).2,
        of_decide_eq_true (mem_filter.mp isSecond).2]
    have lexed : toLex (first.1.fst, first.1.snd) < toLex (second.1.fst, second.1.snd) := ordered
    rw [Prod.Lex.toLex_lt_toLex] at lexed
    rcases lexed with lower | tie
    · exact absurd sameSender lower.ne
    · exact tie.2

theorem get?_heldStore (held : Held Tx) (sender : Sender) (nonce : Nat) :
    (heldStore held sender).get? nonce = held.get? ⟨sender, nonce⟩ := by
  apply Option.ext
  intro tx
  rw [← mem_entries, ← mem_entries]
  constructor
  · intro member
    obtain ⟨⟨place, tx'⟩, kept, same⟩ := mem_map.mp member
    obtain ⟨isHeld, isSender⟩ := mem_filter.mp kept
    cases same
    rw [← of_decide_eq_true isSender]
    exact isHeld
  · intro member
    apply mem_map.mpr
    exact ⟨_, mem_filter.mpr ⟨member, decide_eq_true rfl⟩, rfl⟩

def SenderIndex.txs (index : SenderIndex C Tx) : Store Nat Tx where
  entries := index.entries.map fun element => (element.1, element.2.2)
  sorted := by
    rw [pairwise_map]
    exact index.sorted

omit [LinearOrder C] in
theorem SenderIndex.get?_txs (index : SenderIndex C Tx) (nonce : Nat) :
    index.txs.get? nonce = (index.get? nonce).map Prod.snd := by
  apply Option.ext
  intro tx
  rw [← mem_entries, Option.map_eq_some_iff]
  constructor
  · intro member
    obtain ⟨⟨nonce', key, tx'⟩, found, same⟩ := mem_map.mp member
    cases same
    exact ⟨(key, tx'), mem_entries.mp found, rfl⟩
  · intro found
    obtain ⟨⟨key, tx'⟩, found, same⟩ := found
    cases same
    exact mem_map.mpr ⟨(nonce, key, tx'), mem_entries.mpr found, rfl⟩

theorem AgreesBy.txs_of_sender (agrees : AgreesBy below cfg held mp) (sender : Sender) :
    ((mp.senderIndex sender).entries.map fun element => element.2.2) = heldBy held sender := by
  have same : (mp.senderIndex sender).txs = heldStore held sender := by
    apply ext
    intro nonce
    rw [SenderIndex.get?_txs, get?_heldStore]
    exact (agrees.listed ⟨sender, nonce⟩).symm
  have values := congrArg (fun store => store.entries.map Prod.snd) same
  simpa [SenderIndex.txs, heldStore, heldBy, Function.comp_def] using values

theorem AgreesBy.owned (agrees : Agrees cfg held mp) : Owned cfg mp := by
  intro sender element member
  have listed := agrees.listed ⟨sender, element.1⟩
  rw [mem_entries.mp member] at listed
  exact senderOf_of_placeOf (agrees.signed _ _ listed)

omit [LinearOrder C] in
/-- Lists with the same transactions of every sender are permutations of each other. -/
theorem perm_of_senders {first second : List Tx}
    (same : ∀ sender, ofSender cfg sender first = ofSender cfg sender second)
    (firstSigned : ∀ tx ∈ first, senderOf cfg tx ≠ none)
    (secondSigned : ∀ tx ∈ second, senderOf cfg tx ≠ none) : first.Perm second := by
  classical
  rw [perm_iff_count]
  intro tx
  cases signed : senderOf cfg tx with
  | none =>
    rw [count_eq_zero.mpr fun member => firstSigned tx member signed,
      count_eq_zero.mpr fun member => secondSigned tx member signed]
  | some sender =>
    have counted := congrArg (List.count tx) (same sender)
    unfold ofSender at counted
    rwa [count_filter (by simpa using signed), count_filter (by simpa using signed)]
      at counted

theorem AgreesBy.ofSender_values (agrees : Agrees cfg held mp) (sender : Sender) :
    ofSender cfg sender held.values = heldBy held sender := by
  unfold ofSender heldBy Store.values
  rw [filter_map]
  congr 1
  apply filter_congr
  intro entry member
  have signed := senderOf_of_placeOf (agrees.signed entry.1 entry.2 (mem_entries.mp member))
  simp only [Function.comp_apply, signed, Option.some.injEq]

variable [Inhabited C]

theorem AgreesBy.linked (agrees : Agrees cfg held mp)
    (least : ∀ priority, cfg.minValue ≤ priority) :
    Linked cfg mp where
  least := least
  keyed := by
    intro sender element member
    have keyed := agrees.keyed ⟨sender, element.1⟩ element.2.1 element.2.2
      (mem_entries.mp member)
    exact congrArg Pair.fst keyed.own
  node := by
    intro sender element member
    have found := mem_entries.mp member
    have listed := agrees.listed ⟨sender, element.1⟩
    rw [found] at listed
    have keyed := agrees.keyed ⟨sender, element.1⟩ element.2.1 element.2.2 found
    have isSender : element.2.1.sender = sender := congrArg Pair.fst keyed.own
    have isNonce : element.2.1.nonce = element.1 := congrArg Pair.snd keyed.own
    obtain ⟨score, scored⟩ := agrees.score_of_held listed
    refine ⟨(⟨element.1, score.priority, sender, score.weight⟩, element.2.2), ?_, ?_⟩
    · exact mem_entries.mpr ((agrees.indexed _ _).mpr ⟨listed, scored⟩)
    · refine ⟨isSender.symm, keyed.priority score scored, ?_⟩
      rw [isSender, isNonce, Pool.weight, scored]
      rfl

/-- As many calls as there are transactions are enough. -/
theorem drain_of_length {fuel : Nat} :
    ∀ {i : Option (Iterator C Tx)} {txs : List Tx}, mp.drain cfg fuel i = some txs →
      ∀ calls ≥ txs.length, mp.drain cfg calls i = some txs := by
  induction fuel with
  | zero =>
    intro i txs drained calls _
    cases i with
    | none => cases calls <;> exact drained
    | some i => cases drained
  | succ fuel ih =>
    intro i txs drained calls enough
    cases i with
    | none => cases calls <;> exact drained
    | some i =>
      rw [Pool.drain, Option.bind_eq_bind, Option.bind_eq_some_iff] at drained
      obtain ⟨tx, read, drained⟩ := drained
      rw [Option.bind_eq_bind, Option.bind_eq_some_iff] at drained
      obtain ⟨rest, drained, same⟩ := drained
      cases same
      obtain ⟨less, rfl⟩ : ∃ less, calls = less + 1 :=
        ⟨calls - 1, by rw [length_cons] at enough; omega⟩
      rw [Pool.drain, read]
      simp only [Option.bind_eq_bind, Option.bind_some]
      rw [ih drained less (by rw [length_cons] at enough; omega)]
      rfl

theorem AgreesBy.iterates (agrees : Agrees cfg held mp)
    (least : ∀ priority, cfg.minValue ≤ priority) :
    ∃ txs, (∀ calls ≥ held.entries.length,
        mp.drain cfg calls (mp.next cfg ∅ mp.priorityIndex.entries) = some txs)
      ∧ txs.Perm held.values ∧ ∀ sender, ofSender cfg sender txs = heldBy held sender := by
  obtain ⟨txs, drained, complete, signed⟩ :=
    drain_from_start (agrees.linked least) agrees.owned
  have bySender : ∀ sender, ofSender cfg sender txs = heldBy held sender :=
    fun sender => (complete sender).trans (agrees.txs_of_sender sender)
  have perm : txs.Perm held.values := by
    apply perm_of_senders (fun sender => ?_) signed
    · intro tx member
      obtain ⟨entry, isHeld, rfl⟩ := mem_map.mp member
      rw [senderOf_of_placeOf (agrees.signed entry.1 entry.2 (mem_entries.mp isHeld))]
      exact Option.some_ne_none _
    · rw [bySender, agrees.ofSender_values]
  refine ⟨txs, fun calls enough => ?_, perm, bySender⟩
  apply drain_of_length (drained _ (le_refl _))
  rw [perm.length_eq, Store.values, length_map]
  exact enough

theorem select_eq (cfg : Config C Tx) (mp : Pool C Tx) :
    (mp.select cfg).2 = (mp.select cfg).1.next cfg ∅ (mp.select cfg).1.priorityIndex.entries := by
  unfold Pool.select
  split_ifs with empty
  · rw [List.isEmpty_iff.mp empty]
    rfl
  · rfl

end Complete

/-! ## Runs -/

section Runs

variable [Inhabited C]

def Op.record (cfg : Config C Tx) (op : Op C Tx) (mp : Pool C Tx) (held : Held Tx) : Held Tx :=
  match op, op.exec cfg mp with
  | .insert _ tx, .ok _ _ => heldAfterInsert cfg tx held
  | .remove tx, .ok _ _ => heldAfterRemove cfg tx held
  | _, _ => held

/-- The relation of keys and scores is kept when the operation inserts. -/
def Op.Related (below : C → C → Prop) (cfg : Config C Tx) (mp : Pool C Tx) : Op C Tx → Prop
  | .insert priority tx => ∀ place ∈ placeOf cfg tx,
    ∀ element ∈ (mp.senderIndex place.fst).get? place.snd, below priority element.1.priority
  | _ => True

/-- An operation does not raise the priority of a transaction that is held. -/
def Op.Calm (cfg : Config C Tx) (mp : Pool C Tx) : Op C Tx → Prop
  | .insert priority tx => NotRaised cfg mp priority tx
  | .remove _ => True
  | .select => True

instance (cfg : Config C Tx) (mp : Pool C Tx) (op : Op C Tx) : Decidable (op.Calm cfg mp) :=
  match op with
  | .insert priority tx => inferInstanceAs (Decidable (NotRaised cfg mp priority tx))
  | .remove _ => .isTrue trivial
  | .select => .isTrue trivial

/-- The pool and what it holds after a run. -/
def runOps (cfg : Config C Tx) : List (Op C Tx) → Pool C Tx → Held Tx → Pool C Tx × Held Tx
  | [], mp, held => (mp, held)
  | op :: rest, mp, held => runOps cfg rest (op.apply cfg mp) (op.record cfg mp held)

def CalmRun (cfg : Config C Tx) : List (Op C Tx) → Pool C Tx → Prop
  | [], _ => True
  | op :: rest, mp => op.Calm cfg mp ∧ CalmRun cfg rest (op.apply cfg mp)

def decideCalmRun (cfg : Config C Tx) :
    ∀ (ops : List (Op C Tx)) (mp : Pool C Tx), Decidable (CalmRun cfg ops mp)
  | [], _ => .isTrue trivial
  | op :: rest, mp =>
    @instDecidableAnd _ _ inferInstance (decideCalmRun cfg rest (op.apply cfg mp))

instance (cfg : Config C Tx) (ops : List (Op C Tx)) (mp : Pool C Tx) :
    Decidable (CalmRun cfg ops mp) :=
  decideCalmRun cfg ops mp

variable {below : C → C → Prop} {cfg : Config C Tx}

theorem Op.apply_spec {op : Op C Tx} {mp : Pool C Tx} {held : Held Tx}
    (agrees : AgreesBy below cfg held mp) (refl : ∀ priority, below priority priority)
    (related : op.Related below cfg mp) :
    AgreesAfter below cfg (op.record cfg mp held) mp (op.apply cfg mp) := by
  unfold Op.record Op.apply
  cases op with
  | insert priority tx =>
    have spec : Post (Op.exec cfg (.insert priority tx)) mp _ _ := insert_spec agrees refl related
    cases ran : Op.exec cfg (.insert priority tx) mp with
    | ok value next => exact spec.of_ok ran
    | error fault next => exact spec.of_error ran
  | remove tx =>
    have spec : Post (Op.exec cfg (.remove tx)) mp _ _ := remove_spec agrees tx
    cases ran : Op.exec cfg (.remove tx) mp with
    | ok value next => exact spec.of_ok ran
    | error fault next => exact (spec.of_error ran).2
  | select => exact select_spec agrees

theorem runOps_agrees :
    ∀ (ops : List (Op C Tx)) (mp : Pool C Tx) (held : Held Tx), Agrees cfg held mp →
      CalmRun cfg ops mp → Agrees cfg (runOps cfg ops mp held).2 (runOps cfg ops mp held).1
  | [], _, _, agrees, _ => agrees
  | op :: rest, mp, _, agrees, calm => by
    have related : op.Related (· ≤ ·) cfg mp := by cases op <;> exact calm.1
    exact runOps_agrees rest _ _ (Op.apply_spec agrees le_refl related).1 calm.2

/-- Iterating from `Select` to the end returns each transaction held once, those of each
sender in nonce order. -/
def ReturnsHeld (cfg : Config C Tx) (mp : Pool C Tx) (held : Held Tx) : Prop :=
  ∃ txs,
    (∀ calls ≥ held.entries.length,
      (mp.select cfg).1.drain cfg calls (mp.select cfg).2 = some txs)
    ∧ txs.Perm held.values
    ∧ ∀ sender, ofSender cfg sender txs = heldBy held sender

theorem iteration_returns_held_txs (least : ∀ priority, cfg.minValue ≤ priority)
    (ops : List (Op C Tx)) (calm : CalmRun cfg ops ⟨∅, ∅, ∅, ∅⟩) :
    ReturnsHeld cfg (runOps cfg ops ⟨∅, ∅, ∅, ∅⟩ ∅).1 (runOps cfg ops ⟨∅, ∅, ∅, ∅⟩ ∅).2 := by
  have agrees := select_spec (runOps_agrees ops _ _ (agrees_empty cfg) calm)
  have iterates := agrees.1.iterates least
  rw [← select_eq] at iterates
  exact iterates

end Runs

/-! ## Raised priorities -/

/-- A transaction with one signature. -/
structure SampleTx where
  sender : Nat
  nonce : Nat
  label : Nat
deriving DecidableEq, Repr

def sampleConfig : Config Nat SampleTx where
  minValue := 0
  txReplacement := none
  maxTx := 0
  getSigners := fun tx => .ok [⟨[Fin.ofNat 256 tx.sender], tx.nonce⟩]

/-- The transactions an iteration after a run returns, and those held. -/
def sampleOutcome (ops : List (Op Nat SampleTx)) : Option (List SampleTx) × List SampleTx :=
  let (mp, held) := runOps sampleConfig ops ⟨∅, ∅, ∅, ∅⟩ ∅
  let (selected, first) := mp.select sampleConfig
  (selected.drain sampleConfig 10 first, held.values)

/-- The first sender's transaction is replaced by one with a lower priority. -/
def loweredOps : List (Op Nat SampleTx) :=
  [.insert 20 ⟨1, 1, 0⟩, .insert 5 ⟨1, 1, 1⟩, .insert 10 ⟨2, 1, 2⟩, .select, .insert 3 ⟨1, 2, 3⟩,
    .remove ⟨2, 1, 2⟩, .insert 10 ⟨2, 1, 4⟩]

theorem lowered_priority_is_returned :
    ReturnsHeld sampleConfig (runOps sampleConfig loweredOps ⟨∅, ∅, ∅, ∅⟩ ∅).1
      (runOps sampleConfig loweredOps ⟨∅, ∅, ∅, ∅⟩ ∅).2 :=
  iteration_returns_held_txs Nat.zero_le loweredOps (by decide +kernel)

/-- The first sender's transaction is replaced by one with a higher priority. -/
def raisedOps : List (Op Nat SampleTx) :=
  [.insert 5 ⟨1, 1, 0⟩, .insert 20 ⟨1, 1, 1⟩, .insert 10 ⟨2, 1, 2⟩]

/-- It is held, and the iteration never returns it. -/
theorem raised_priority_is_lost :
    sampleOutcome raisedOps = (some [⟨2, 1, 2⟩], [⟨1, 1, 1⟩, ⟨2, 1, 2⟩])
      ∧ ¬ ReturnsHeld sampleConfig (runOps sampleConfig raisedOps ⟨∅, ∅, ∅, ∅⟩ ∅).1
        (runOps sampleConfig raisedOps ⟨∅, ∅, ∅, ∅⟩ ∅).2 := by
  have outcome : sampleOutcome raisedOps = (some [⟨2, 1, 2⟩], [⟨1, 1, 1⟩, ⟨2, 1, 2⟩]) := by
    decide +kernel
  refine ⟨outcome, fun returns => ?_⟩
  obtain ⟨txs, drained, perm, _⟩ := returns
  have few : (runOps sampleConfig raisedOps ⟨∅, ∅, ∅, ∅⟩ ∅).2.entries.length ≤ 10 := by
    decide +kernel
  have returned := (drained 10 few).symm.trans (congrArg Prod.fst outcome)
  have held : (runOps sampleConfig raisedOps ⟨∅, ∅, ∅, ∅⟩ ∅).2.values.length = 2 := by
    decide +kernel
  have length := perm.length_eq
  rw [Option.some.inj returned, held] at length
  exact absurd length (by decide)

end AtomOneSdk.Mempool
