import AtomOneSdk.Staking.MsgServer

/-!
Contract: the bonded and not-bonded pools and the records they back.

Owns: the amounts the two pools have to cover (tokens of bonded validators on one
side, tokens of the other validators and unbonding balances on the other), the
backing invariant `PoolsOK` with an `owed` amount per pool for tokens that are on
their way, the well-formedness of unbonding delegations and redelegations, and
the effect of every kind of write on them.

Does **not** own: the keeper functions that perform these writes.
-/

namespace AtomOneSdk.Staking

open Lib Store List

/-! ## What the pools have to cover -/

/-- Tokens of the validators that are bonded, or of those that are not. -/
def heldTokens (vals : Store Address Validator) (isBonded : Bool) : Int :=
  vals.sum fun _ v => if v.isBonded = isBonded then v.tokens else 0

def entriesBalance (entries : List UnbondingDelegationEntry) : Int :=
  (entries.map UnbondingDelegationEntry.balance).sum

def unbondingBalance (ubds : Store (Pair Address Address) UnbondingDelegation) : Int :=
  ubds.sum fun _ ubd => entriesBalance ubd.entries

/-- Bond-denomination balance of the bonded and of the not-bonded pool. -/
def poolBalance (s : StakingState) (isBonded : Bool) : Int :=
  balanceOf (if isBonded then s.bondedPool else s.notBondedPool) s.params.bondDenom

/-- Each pool holds what it covers, plus the tokens owed by an unfinished operation. -/
def PoolsOK (owed balance : Bool → Int) (vals : Store Address Validator)
    (ubds : Store (Pair Address Address) UnbondingDelegation) : Prop :=
  ∀ isBonded, balance isBonded
    = heldTokens vals isBonded + (if isBonded then 0 else unbondingBalance ubds) + owed isBonded

/-! ## Unbonding delegations and redelegations -/

/-- Records are filed under their addresses and no entry holds less than nothing or
more than it started with. -/
structure UnbondingsOK (ubds : Store (Pair Address Address) UnbondingDelegation) : Prop where
  filed : ∀ {key ubd}, ubds.get? key = some ubd →
    ubd.delegatorAddress = key.fst ∧ ubd.validatorAddress = key.snd
  entries : ∀ {key ubd}, ubds.get? key = some ubd → ∀ entry ∈ ubd.entries,
    0 ≤ entry.balance ∧ entry.balance ≤ entry.initialBalance

abbrev Bounded (entries : List UnbondingDelegationEntry) : Prop :=
  ∀ entry ∈ entries, 0 ≤ entry.balance ∧ entry.balance ≤ entry.initialBalance

/-- Records are filed under their addresses, lead to another validator and moved a
non-negative amount. -/
structure RedelegationsOK
    (reds : Store (Pair Address (Pair Address Address)) Redelegation) : Prop where
  filed : ∀ {key red}, reds.get? key = some red →
    red.delegatorAddress = key.fst ∧ red.validatorSrcAddress = key.snd.fst
      ∧ red.validatorDstAddress = key.snd.snd
  apart : ∀ {key red}, reds.get? key = some red → key.snd.fst ≠ key.snd.snd
  entries : ∀ {key red}, reds.get? key = some red → ∀ entry ∈ red.entries,
    0 ≤ entry.initialBalance ∧ 0 ≤ entry.sharesDst

section Held

variable {vals : Store Address Validator}

theorem heldTokens_set {addr : Address} {v v' : Validator} (stored : vals.get? addr = some v) :
    heldTokens (vals.set addr v')
      = shift (shift (heldTokens vals) v.isBonded (-v.tokens)) v'.isBonded v'.tokens := by
  funext isBonded
  unfold heldTokens shift
  rw [Store.sum_set, termAt_of_some stored]
  simp only [eq_comm (b := isBonded)]
  split_ifs <;> omega

theorem heldTokens_create {addr : Address} {v : Validator} (absent : vals.get? addr = none) :
    heldTokens (vals.set addr v) = shift (heldTokens vals) v.isBonded v.tokens := by
  funext isBonded
  unfold heldTokens shift
  rw [Store.sum_set, termAt_of_none absent]
  simp only [eq_comm (b := isBonded)]
  split_ifs <;> omega

theorem heldTokens_delete {addr : Address} {v : Validator} (stored : vals.get? addr = some v) :
    heldTokens (vals.delete addr) = shift (heldTokens vals) v.isBonded (-v.tokens) := by
  funext isBonded
  unfold heldTokens shift
  rw [sum_delete, termAt_of_some stored]
  simp only [eq_comm (b := isBonded)]
  split_ifs <;> omega

theorem heldTokens_nonneg
    (nonneg : ∀ {addr v}, vals.get? addr = some v → 0 ≤ v.tokens) (isBonded : Bool) :
    0 ≤ heldTokens vals isBonded := by
  refine Store.sum_nonneg ?_
  intro addr v stored
  split_ifs
  · exact nonneg stored
  · exact le_rfl

end Held

/-! ## Writes to unbonding delegations -/

section Unbondings

variable {ubds : Store (Pair Address Address) UnbondingDelegation}

/-- The balance filed under a key, zero when nothing is. -/
def balanceAt (ubds : Store (Pair Address Address) UnbondingDelegation)
    (key : Pair Address Address) : Int :=
  ((ubds.get? key).map fun ubd => entriesBalance ubd.entries).getD 0

theorem balanceAt_eq_termAt (key : Pair Address Address) :
    balanceAt ubds key = ubds.termAt (fun _ ubd => entriesBalance ubd.entries) key := by
  unfold balanceAt Store.termAt
  cases ubds.get? key <;> rfl

theorem unbondingBalance_set (key : Pair Address Address) (ubd : UnbondingDelegation) :
    unbondingBalance (ubds.set key ubd)
      = unbondingBalance ubds - balanceAt ubds key + entriesBalance ubd.entries := by
  rw [unbondingBalance, Store.sum_set, balanceAt_eq_termAt]
  rfl

/-- Writing back or removing an unbonding delegation, as `storeUnbondingDelegation` does. -/
theorem unbondingBalance_store (key : Pair Address Address) (ubd : UnbondingDelegation) :
    unbondingBalance (if ubd.entries = [] then ubds.delete key else ubds.set key ubd)
      = unbondingBalance ubds - balanceAt ubds key + entriesBalance ubd.entries := by
  split_ifs with empty
  · rw [unbondingBalance, sum_delete, balanceAt_eq_termAt, empty]
    simp [unbondingBalance, entriesBalance]
  · exact unbondingBalance_set key ubd

namespace UnbondingsOK

theorem entriesBalance_nonneg {entries : List UnbondingDelegationEntry}
    (nonneg : ∀ entry ∈ entries, 0 ≤ entry.balance) : 0 ≤ entriesBalance entries := by
  refine List.sum_nonneg ?_
  intro balance member
  obtain ⟨entry, inEntries, rfl⟩ := mem_map.mp member
  exact nonneg entry inEntries

theorem unbondingBalance_nonneg (ok : UnbondingsOK ubds) : 0 ≤ unbondingBalance ubds := by
  refine Store.sum_nonneg ?_
  intro key ubd found
  exact entriesBalance_nonneg fun entry member => (ok.entries found entry member).1

theorem set (ok : UnbondingsOK ubds) {ubd : UnbondingDelegation} (bounds : Bounded ubd.entries) :
    UnbondingsOK (ubds.set ⟨ubd.delegatorAddress, ubd.validatorAddress⟩ ubd) where
  filed := forall_set ok.filed ⟨rfl, rfl⟩
  entries := forall_set ok.entries bounds

theorem store (ok : UnbondingsOK ubds) {ubd : UnbondingDelegation} (bounds : Bounded ubd.entries) :
    UnbondingsOK
      (if ubd.entries = [] then ubds.delete ⟨ubd.delegatorAddress, ubd.validatorAddress⟩
        else ubds.set ⟨ubd.delegatorAddress, ubd.validatorAddress⟩ ubd) := by
  split_ifs with empty
  · exact
      { filed := fun present => ok.filed (get?_delete_some present).2
        entries := fun present => ok.entries (get?_delete_some present).2 }
  · exact ok.set bounds

end UnbondingsOK

/-! ### Entry operations -/

theorem mergeEntry_spec {creationHeight : Int} {minTime : Time} {balance : Int}
    (nonneg : 0 ≤ balance) :
    ∀ {entries merged : List UnbondingDelegationEntry},
      mergeEntry creationHeight minTime balance entries = some merged →
      Bounded entries →
      entriesBalance merged = entriesBalance entries + balance
        ∧ Bounded merged
  | [], merged, found, _ => by cases found
  | head :: tail, merged, found, bounds => by
    have headBounds := bounds head mem_cons_self
    have tailBounds := fun entry member => bounds entry (mem_cons_of_mem head member)
    rw [mergeEntry] at found
    split_ifs at found with here
    · cases found
      refine ⟨?_, ?_⟩
      · simp only [entriesBalance, map_cons, sum_cons]
        omega
      · intro entry member
        rcases mem_cons.mp member with rfl | inTail
        · simp only
          omega
        · exact tailBounds entry inTail
    · obtain ⟨rest, foundRest, rfl⟩ := Option.map_eq_some_iff.mp found
      obtain ⟨total, restBounds⟩ := mergeEntry_spec nonneg foundRest tailBounds
      refine ⟨?_, ?_⟩
      · simp only [entriesBalance, map_cons, sum_cons] at total ⊢
        omega
      · intro entry member
        rcases mem_cons.mp member with rfl | inTail
        · exact headBounds
        · exact restBounds entry inTail

/-- Adding an entry adds its balance and keeps the bounds of all entries. -/
theorem addEntry_spec {ubd : UnbondingDelegation} {creationHeight : Int} {minTime : Time}
    {balance : Int} {id : Nat} (nonneg : 0 ≤ balance) (bounds : Bounded ubd.entries) :
    (ubd.addEntry creationHeight minTime balance id).1.delegatorAddress = ubd.delegatorAddress
      ∧ (ubd.addEntry creationHeight minTime balance id).1.validatorAddress = ubd.validatorAddress
      ∧ entriesBalance (ubd.addEntry creationHeight minTime balance id).1.entries
          = entriesBalance ubd.entries + balance
      ∧ ∀ entry ∈ (ubd.addEntry creationHeight minTime balance id).1.entries,
          0 ≤ entry.balance ∧ entry.balance ≤ entry.initialBalance := by
  unfold UnbondingDelegation.addEntry
  cases merge : mergeEntry creationHeight minTime balance ubd.entries with
  | some merged =>
    obtain ⟨total, mergedBounds⟩ := mergeEntry_spec nonneg merge bounds
    exact ⟨rfl, rfl, total, mergedBounds⟩
  | none =>
    refine ⟨rfl, rfl, ?_, ?_⟩
    · simp [entriesBalance, newUnbondingDelegationEntry]
    · intro entry member
      rcases mem_append.mp member with old | new
      · exact bounds entry old
      · rw [mem_singleton.mp new]
        exact ⟨nonneg, le_rfl⟩

/-! ### Slashed entries -/

theorem slashAmountOf_nonneg {slashFactor initialBalance : Int} (factor : 0 ≤ slashFactor)
    (nonneg : 0 ≤ initialBalance) : 0 ≤ slashAmountOf slashFactor initialBalance :=
  Int.tdiv_nonneg (mul_nonneg factor nonneg) Dec.one_pos.le

section Slashed

variable {infractionHeight slashFactor : Int} {now : Time}

theorem unbondingSlash_bounds {entry : UnbondingDelegationEntry} (factor : 0 ≤ slashFactor)
    (bounds : 0 ≤ entry.balance ∧ entry.balance ≤ entry.initialBalance) :
    0 ≤ unbondingSlash infractionHeight slashFactor now entry
      ∧ unbondingSlash infractionHeight slashFactor now entry ≤ entry.balance := by
  have amountNonneg := slashAmountOf_nonneg factor (bounds.1.trans bounds.2)
  unfold unbondingSlash
  split_ifs
  · exact ⟨le_min amountNonneg bounds.1, min_le_right _ _⟩
  · exact ⟨le_rfl, bounds.1⟩

theorem slashedEntries_balance :
    ∀ entries : List UnbondingDelegationEntry,
      entriesBalance (slashedEntries infractionHeight slashFactor now entries)
        = entriesBalance entries
          - (entries.map (unbondingSlash infractionHeight slashFactor now)).sum
  | [] => rfl
  | head :: tail => by
    have rest := slashedEntries_balance tail
    simp only [slashedEntries, entriesBalance, map_cons, sum_cons] at rest ⊢
    omega

theorem slashedEntries_bounds {entries : List UnbondingDelegationEntry}
    (factor : 0 ≤ slashFactor) (bounds : Bounded entries) :
    ∀ entry ∈ slashedEntries infractionHeight slashFactor now entries,
      0 ≤ entry.balance ∧ entry.balance ≤ entry.initialBalance := by
  intro slashed member
  obtain ⟨entry, inEntries, rfl⟩ := mem_map.mp member
  have entryBounds := bounds entry inEntries
  have slashBounds := @unbondingSlash_bounds infractionHeight slashFactor now entry factor
    entryBounds
  simp only
  omega

theorem slashSum_nonneg {entries : List UnbondingDelegationEntry} (factor : 0 ≤ slashFactor)
    (bounds : Bounded entries) :
    0 ≤ (entries.map (unbondingSlash infractionHeight slashFactor now)).sum := by
  refine List.sum_nonneg ?_
  intro taken member
  obtain ⟨entry, inEntries, rfl⟩ := mem_map.mp member
  exact (unbondingSlash_bounds factor (bounds entry inEntries)).1

/-- What the entries that can be slashed hold. -/
def slashableBalance (infractionHeight : Int) (now : Time)
    (entries : List UnbondingDelegationEntry) : Int :=
  (entries.map fun entry => if entry.slashable infractionHeight now then entry.balance else 0).sum

theorem slashableBalance_nonneg {entries : List UnbondingDelegationEntry}
    (bounds : Bounded entries) :
    0 ≤ slashableBalance infractionHeight now entries := by
  refine List.sum_nonneg ?_
  intro held member
  obtain ⟨entry, inEntries, rfl⟩ := mem_map.mp member
  split_ifs
  · exact (bounds entry inEntries).1
  · exact le_rfl

/-- Taking from entries in order takes what they hold, up to the amount; what was taken leaves
the entries. -/
theorem slashInOrder_spec {entries : List UnbondingDelegationEntry} {slashAmount : Int}
    (nonneg : 0 ≤ slashAmount) (bounds : Bounded entries) :
    (slashInOrder infractionHeight now slashAmount entries).2
        = (slashAmount - min slashAmount (slashableBalance infractionHeight now entries),
            min slashAmount (slashableBalance infractionHeight now entries))
      ∧ entriesBalance (slashInOrder infractionHeight now slashAmount entries).1
        = entriesBalance entries
          - min slashAmount (slashableBalance infractionHeight now entries)
      ∧ ∀ entry ∈ (slashInOrder infractionHeight now slashAmount entries).1,
          0 ≤ entry.balance ∧ entry.balance ≤ entry.initialBalance := by
  induction entries generalizing slashAmount with
  | nil => simp [slashInOrder, entriesBalance, slashableBalance, nonneg]
  | cons head tail ih =>
    have headBounds := bounds head mem_cons_self
    have tailBounds := fun entry member => bounds entry (mem_cons_of_mem head member)
    have tailNonneg : 0 ≤ slashableBalance infractionHeight now tail :=
      slashableBalance_nonneg tailBounds
    have held : slashableBalance infractionHeight now (head :: tail)
        = (if head.slashable infractionHeight now then head.balance else 0)
          + slashableBalance infractionHeight now tail := by
      rw [slashableBalance, map_cons, sum_cons]
      rfl
    rw [slashInOrder, held]
    dsimp only
    split_ifs with slashed isSlashable isSlashable
    · obtain ⟨taken, total, restBounds⟩ :=
        @ih (slashAmount - min slashAmount head.balance) (by omega) tailBounds
      rw [taken]
      refine ⟨Prod.ext (by dsimp only; omega) (by dsimp only; omega), ?_, ?_⟩
      · simp only [entriesBalance, map_cons, sum_cons] at total ⊢
        omega
      · intro entry member
        rcases mem_cons.mp member with rfl | inTail
        · dsimp only
          omega
        · exact restBounds entry inTail
    · exact absurd slashed.2 isSlashable
    all_goals
      -- the entry is passed over: it cannot be slashed, or there is nothing to take
      obtain ⟨taken, total, restBounds⟩ := ih nonneg tailBounds
      rw [taken]
      refine ⟨Prod.ext (by dsimp only; grind) (by dsimp only; grind), ?_, ?_⟩
      · simp only [entriesBalance, map_cons, sum_cons] at total ⊢
        grind
      · intro entry member
        rcases mem_cons.mp member with rfl | inTail
        · exact headBounds
        · exact restBounds entry inTail

end Slashed

/-! ### Cancelled entries -/

theorem splitAtHeight_eq {creationHeight : Int} :
    ∀ {entries before after : List UnbondingDelegationEntry} {entry : UnbondingDelegationEntry},
      splitAtHeight creationHeight entries = some (before, entry, after) →
      entries = before ++ entry :: after
  | [], _, _, _, found => by cases found
  | head :: tail, before, after, entry, found => by
    rw [splitAtHeight] at found
    split_ifs at found with here
    · cases found
      rfl
    · obtain ⟨⟨first, middle, last⟩, foundTail, same⟩ := Option.map_eq_some_iff.mp found
      cases same
      rw [splitAtHeight_eq foundTail]
      rfl

/-- Cancelling a part of an entry takes that part out of the balance. -/
theorem cancelled_spec {before after : List UnbondingDelegationEntry}
    {entry : UnbondingDelegationEntry} {amount : Int} (available : amount ≤ entry.balance)
    (bounds : ∀ e ∈ before ++ entry :: after, 0 ≤ e.balance ∧ e.balance ≤ e.initialBalance) :
    entriesBalance (before ++ reducedEntry entry amount ++ after)
        = entriesBalance (before ++ entry :: after) - amount
      ∧ ∀ e ∈ before ++ reducedEntry entry amount ++ after,
          0 ≤ e.balance ∧ e.balance ≤ e.initialBalance := by
  have entryBounds := bounds entry (by simp)
  unfold reducedEntry
  split_ifs with used
  · refine ⟨?_, ?_⟩
    · simp only [entriesBalance, map_append, sum_append, map_cons, sum_cons,
        append_nil]
      omega
    · intro e member
      apply bounds e
      simp only [append_nil, mem_append] at member
      simp only [mem_append, mem_cons]
      tauto
  · refine ⟨?_, ?_⟩
    · simp only [entriesBalance, map_append, sum_append, map_cons, sum_cons,
        map_nil, sum_nil]
      omega
    · intro e member
      simp only [mem_append, mem_singleton] at member
      rcases member with (inBefore | rfl) | inAfter
      · exact bounds e (by simp [inBefore])
      · dsimp only
        omega
      · exact bounds e (by simp [inAfter])

/-! ### Completed entries -/

/-- Completed and kept entries together hold what the entries held. -/
theorem entriesBalance_partition (done : UnbondingDelegationEntry → Bool) :
    ∀ entries : List UnbondingDelegationEntry,
      entriesBalance (entries.filter done) + entriesBalance (entries.filter fun e => ¬ done e)
        = entriesBalance entries
  | [] => rfl
  | head :: tail => by
    have rest := entriesBalance_partition done tail
    by_cases finished : done head = true
    · simp only [entriesBalance, filter_cons, finished, if_true, not_true_eq_false,
        decide_false, Bool.false_eq_true, if_false, map_cons, sum_cons] at rest ⊢
      omega
    · simp only [entriesBalance, filter_cons, finished, not_false_eq_true, decide_true,
        if_true, Bool.false_eq_true, if_false, map_cons, sum_cons] at rest ⊢
      omega

end Unbondings

/-! ## Writes to redelegations -/

namespace RedelegationsOK

variable {reds : Store (Pair Address (Pair Address Address)) Redelegation}

theorem set (ok : RedelegationsOK reds) {red : Redelegation}
    (elsewhere : red.validatorSrcAddress ≠ red.validatorDstAddress)
    (bounds : ∀ entry ∈ red.entries, 0 ≤ entry.initialBalance ∧ 0 ≤ entry.sharesDst) :
    RedelegationsOK
      (reds.set ⟨red.delegatorAddress, ⟨red.validatorSrcAddress, red.validatorDstAddress⟩⟩
        red) where
  filed := forall_set ok.filed ⟨rfl, rfl, rfl⟩
  apart := forall_set ok.apart elsewhere
  entries := forall_set ok.entries bounds

theorem store (ok : RedelegationsOK reds) {red : Redelegation}
    (elsewhere : red.validatorSrcAddress ≠ red.validatorDstAddress)
    (bounds : ∀ entry ∈ red.entries, 0 ≤ entry.initialBalance ∧ 0 ≤ entry.sharesDst) :
    RedelegationsOK
      (if red.entries = [] then
        reds.delete ⟨red.delegatorAddress, ⟨red.validatorSrcAddress, red.validatorDstAddress⟩⟩
      else
        reds.set ⟨red.delegatorAddress, ⟨red.validatorSrcAddress, red.validatorDstAddress⟩⟩
          red) := by
  split_ifs with empty
  · exact
      { filed := fun present => ok.filed (get?_delete_some present).2
        apart := fun present => ok.apart (get?_delete_some present).2
        entries := fun present => ok.entries (get?_delete_some present).2 }
  · exact ok.set elsewhere bounds

end RedelegationsOK

/-! ## Backing -/

namespace PoolsOK

variable {owed balance : Bool → Int} {vals : Store Address Validator}
  {ubds : Store (Pair Address Address) UnbondingDelegation}

variable (ok : PoolsOK owed balance vals ubds)

include ok

/-- A write to a validator owes its old tokens to the pool of its old status and
takes its new tokens from the pool of its new status. -/
theorem setValidator {addr : Address} {v v' : Validator} (stored : vals.get? addr = some v) :
    PoolsOK (shift (shift owed v.isBonded v.tokens) v'.isBonded (-v'.tokens)) balance
      (vals.set addr v') ubds := by
  intro isBonded
  rw [heldTokens_set stored, ok isBonded]
  simp only [shift]
  split_ifs <;> omega

theorem setValidator_same {addr : Address} {v v' : Validator} (stored : vals.get? addr = some v)
    (sameBonded : v'.isBonded = v.isBonded) :
    PoolsOK (shift owed v.isBonded (v.tokens - v'.tokens)) balance (vals.set addr v') ubds := by
  have moved := @setValidator _ _ _ _ ok addr v v' stored
  rwa [sameBonded, shift_shift, ← sub_eq_add_neg] at moved

theorem createValidator {addr : Address} {v : Validator}
    (absent : vals.get? addr = none) (noTokens : v.tokens = 0) :
    PoolsOK owed balance (vals.set addr v) ubds := by
  intro isBonded
  rw [heldTokens_create absent, noTokens, shift_zero, ok isBonded]

theorem removeValidator {addr : Address} {v : Validator}
    (stored : vals.get? addr = some v) (noTokens : v.tokens = 0) :
    PoolsOK owed balance (vals.delete addr) ubds := by
  intro isBonded
  rw [heldTokens_delete stored, noTokens, neg_zero, shift_zero, ok isBonded]

/-- Coins put into or taken out of a pool are owed by it. -/
theorem transfer (isBonded : Bool) (amount : Int) :
    PoolsOK (shift owed isBonded amount) (shift balance isBonded amount) vals ubds := by
  intro other
  simp only [shift]
  rw [ok other]
  omega

/-- A change of the unbonding balance is owed by the not-bonded pool. -/
theorem setUnbonding
    {ubds' : Store (Pair Address Address) UnbondingDelegation} {amount : Int}
    (change : unbondingBalance ubds' = unbondingBalance ubds + amount) :
    PoolsOK (shift owed false (-amount)) balance vals ubds' := by
  intro isBonded
  cases isBonded
  · rw [shift_self, ok false, change]
    simp only [Bool.false_eq_true, if_false]
    omega
  · rw [shift_of_ne _ _ (by decide), ok true]
    simp

theorem owed_le (unbondings : UnbondingsOK ubds)
    (nonneg : ∀ {addr v}, vals.get? addr = some v → 0 ≤ v.tokens) (isBonded : Bool) :
    owed isBonded ≤ balance isBonded := by
  have heldNonneg := heldTokens_nonneg nonneg isBonded
  have unbondingNonneg := unbondings.unbondingBalance_nonneg
  have backed := ok isBonded
  split_ifs at backed <;> omega

end PoolsOK

/-! ## Balances after pool writes -/

theorem balanceOf_set (pool : Store Denom Int) (denom : Denom) (amount : Int) :
    balanceOf (pool.set denom amount) denom = amount := by
  simp [balanceOf]

/-- The state after coins are added to the pool of a status. -/
def StakingState.addedTo (s : StakingState) (amount : Int) : Bool → StakingState
  | true => { s with bondedPool := addPool s.bondedPool ⟨s.params.bondDenom, amount⟩ }
  | false => { s with notBondedPool := addPool s.notBondedPool ⟨s.params.bondDenom, amount⟩ }

theorem poolBalance_addedTo (s : StakingState) (amount : Int) (isBonded : Bool) :
    poolBalance (s.addedTo amount isBonded) = shift (poolBalance s) isBonded amount := by
  funext other
  by_cases here : other = isBonded
  · rw [here, shift_self]
    cases isBonded
    · exact balanceOf_set _ _ _
    · exact balanceOf_set _ _ _
  · rw [shift_of_ne _ _ here]
    cases other <;> cases isBonded <;> first | rfl | exact absurd rfl here

theorem subPool_eq_some {pool pool' : Store Denom Int} {coin : Coin}
    (taken : subPool pool coin = some pool') :
    coin.amount ≤ balanceOf pool coin.denom
      ∧ pool' = addPool pool ⟨coin.denom, -coin.amount⟩ := by
  unfold subPool at taken
  split_ifs at taken with short
  exact ⟨not_lt.mp short, (Option.some.inj taken).symm⟩

theorem subPool_isSome {pool : Store Denom Int} {coin : Coin}
    (enough : coin.amount ≤ balanceOf pool coin.denom) : subPool pool coin ≠ none := by
  unfold subPool
  rw [if_neg (not_lt.mpr enough)]
  exact Option.some_ne_none _

end AtomOneSdk.Staking
