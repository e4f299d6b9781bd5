import AtomOneSdk.Staking.DelegationSpec

/-!
Contract: specifications of undelegation, redelegation and their completion.

Owns: that `Undelegate`, `CompleteUnbonding`, `BeginRedelegation`,
`CompleteRedelegation` and the cancellation of an unbonding keep the staking
invariant and every external invariant that meets the hook contract.

Does **not** own: slashing.
-/

namespace AtomOneSdk.Staking

open Lib Lib.Action List

/-- A state in which no delegation is changing: the invariant with what is owed, the
external invariant, and what was left alone since `s`. -/
structure Kept {φ σ : Type} (K : Keepers φ σ) (P : Phases σ) (tracked : Prop)
    (owed : Bool → Int) (s : StakingState) (world' : World σ) : Prop where
  inv : Inv K.consAddress tracked (fun _ => 0) owed world'.staking
  idle : P.idle world'.staking world'.ext
  frame : Frame s world'.staking

abbrev KeptBy {φ σ α : Type} (K : Keepers φ σ) (P : Phases σ) (tracked : Prop)
    (allowed : Fault φ → Prop) (action : StakingM φ σ α) (world : World σ) : Prop :=
  Post action world (fun _ world' => Kept K P tracked (fun _ => 0) world.staking world')
    (fun fault _ => FaultOK tracked allowed fault)

section Specs

variable {φ σ : Type} {K : Keepers φ σ} {P : Phases σ} {allowed : Fault φ → Prop}
  {tracked : Prop} {owed : Bool → Int} {world : World σ}

/-! ## Unbonding entries -/

theorem Inv.writeUnbondings {consAddress : PubKey → Address} {pending : Address → Int}
    {s : StakingState} (inv : Inv consAddress tracked pending owed s)
    {ubds : Store (Pair Address Address) UnbondingDelegation} {amount : Int}
    (ok : UnbondingsOK ubds)
    (change : unbondingBalance ubds = unbondingBalance s.unbondingDelegations + amount) :
    Inv consAddress tracked pending (shift owed false (-amount))
      { s with unbondingDelegations := ubds } :=
  { inv with
    unbondings := ok
    pools := fun tracks => (inv.pools tracks).setUnbonding change }

theorem addUnbondingEntry_spec {s : StakingState} (ok : UnbondingsOK s.unbondingDelegations)
    {delAddr valAddr : Address} {creationHeight : Int} {minTime : Time} {balance : Int} {id : Nat}
    (nonneg : 0 ≤ balance) :
    let added := (s.addUnbondingEntry delAddr valAddr creationHeight minTime balance id).1
    added.delegatorAddress = delAddr ∧ added.validatorAddress = valAddr
      ∧ entriesBalance added.entries
          = balanceAt s.unbondingDelegations ⟨delAddr, valAddr⟩ + balance
      ∧ Bounded added.entries := by
  unfold StakingState.addUnbondingEntry balanceAt
  cases found : s.unbondingDelegations.get? ⟨delAddr, valAddr⟩ with
  | some ubd =>
    obtain ⟨delegator, validator⟩ := ok.filed found
    obtain ⟨sameDelegator, sameValidator, total, bounds⟩ :=
      @addEntry_spec ubd creationHeight minTime balance id nonneg (ok.entries found)
    exact ⟨sameDelegator.trans delegator, sameValidator.trans validator, total, bounds⟩
  | none =>
    refine ⟨rfl, rfl, ?_, ?_⟩
    · simp [entriesBalance, newUnbondingDelegationEntry]
    · intro entry member
      rw [mem_singleton.mp member]
      exact ⟨nonneg, le_rfl⟩

theorem setUnbondingDelegationEntry_spec (contract : HookContract K P allowed)
    {delAddr valAddr : Address} {creationHeight : Int} {minTime : Time} {balance : Int}
    (inv : Inv K.consAddress tracked (fun _ => 0) owed world.staking)
    (idle : P.idle world.staking world.ext) (nonneg : 0 ≤ balance) :
    Post (setUnbondingDelegationEntry K delAddr valAddr creationHeight minTime balance) world
      (fun _ world' => Kept K P tracked (shift owed false (-balance)) world.staking world')
      (StopsOK tracked allowed) := by
  simp only [setUnbondingDelegationEntry, staking_rules]
  set s := world.staking.incrementUnbondingId with sDef
  set added := s.addUnbondingEntry delAddr valAddr creationHeight minTime balance s.unbondingId
    with addedDef
  obtain ⟨delegator, validator, total, bounds⟩ :=
    @addUnbondingEntry_spec s inv.unbondings delAddr valAddr creationHeight minTime balance
      s.unbondingId nonneg
  rw [← addedDef] at delegator validator total bounds
  have change : unbondingBalance (s.unbondingDelegations.set
      ⟨added.1.delegatorAddress, added.1.validatorAddress⟩ added.1)
        = unbondingBalance s.unbondingDelegations + balance := by
    rw [unbondingBalance_set, total, delegator, validator]
    omega
  have written : Inv K.consAddress tracked (fun _ => 0) (shift owed false (-balance))
      (s.setUnbondingDelegation added.1) :=
    { (inv.writeUnbondings (inv.unbondings.set bounds) change) with }
  have frame : Frame world.staking (s.setUnbondingDelegation added.1) :=
    Frame.of_same rfl rfl
  have idleWritten : P.idle (s.setUnbondingDelegation added.1) world.ext :=
    contract.idle_stable (s := world.staking) ⟨rfl, rfl, rfl, rfl⟩ idle
  refine ⟨fun _ => ?_, fun _ => ⟨written, idleWritten, frame⟩⟩
  have idleNoted : P.idle ((s.setUnbondingDelegation added.1).setByUnbondingId
      (.unbondingDelegation added.1.delegatorAddress added.1.validatorAddress) s.unbondingId)
      world.ext :=
    contract.idle_stable (s := world.staking) ⟨rfl, rfl, rfl, rfl⟩ idle
  have invNoted : Inv K.consAddress tracked (fun _ => 0) (shift owed false (-balance))
      ((s.setUnbondingDelegation added.1).setByUnbondingId
        (.unbondingDelegation added.1.delegatorAddress added.1.validatorAddress) s.unbondingId) :=
    { written with }
  refine (ignoreError_external_spec
    (contract.unbondingInitiated invNoted.shares idleNoted)).imp ?_
  rintro _ world' ⟨sameStaking, idle'⟩
  refine ⟨sameStaking ▸ invNoted, sameStaking ▸ idle', ?_⟩
  rw [sameStaking]
  exact frame.trans (Frame.of_same rfl rfl)

theorem undelegate_spec (contract : HookContract K P allowed) {delAddr valAddr : Address}
    {shares : Int} (settled : Settled K.consAddress tracked world.staking)
    (idle : P.idle world.staking world.ext) (positive : 0 < shares) :
    KeptBy K P tracked allowed (undelegate K delAddr valAddr shares) world := by
  simp only [undelegate, getValidator, staking_rules, FaultIn]
  intro v stored _
  refine (unbond_spec contract settled idle stored positive fun _ _ => trivial).imp ?_
  rintro paid unbonding ⟨_, paidNonneg, invUnbonded, idleUnbonded, frameUnbonded⟩
  -- the payout ends up in the not-bonded pool, whatever the status of the validator
  have moved : Post (whenever v.isBonded (bondedTokensToNotBonded K paid)) unbonding
      (fun _ world' => Kept K P tracked (shift (fun _ => 0) false paid) world.staking world')
      (StopsOK tracked allowed) := by
    rw [post_whenever]
    refine ⟨fun bonded => ?_, fun notBonded => ?_⟩
    · rw [bonded] at invUnbonded
      have enough : tracked → paid ≤ poolBalance unbonding.staking true := by
        intro tracks
        have funds := invUnbonded.owed_le true tracks
        rwa [shift_self, zero_add] at funds
      refine (moveFrom_spec true contract.transferIdle invUnbonded idleUnbonded
        enough).imp ?_
      rintro _ world' ⟨samePools, invMoved, idleMoved⟩
      rw [shift_shift, add_neg_cancel, shift_zero] at invMoved
      exact ⟨invMoved, idleMoved, frameUnbonded.toFrame.trans samePools.frame⟩
    · have isFalse : v.isBonded = false := by simpa using notBonded
      rw [isFalse] at invUnbonded
      exact ⟨invUnbonded, idleUnbonded, frameUnbonded.toFrame⟩
  refine post_whenever.mp (moved.imp ?_)
  rintro _ moving ⟨invMoved, idleMoved, frameMoved⟩
  refine (setUnbondingDelegationEntry_spec contract invMoved idleMoved paidNonneg).imp ?_
  rintro ubd entering ⟨invEntered, idleEntered, frameEntered⟩
  rw [shift_shift, add_neg_cancel, shift_zero] at invEntered
  refine ⟨{ invEntered with }, ?_, ?_⟩
  · exact contract.idle_stable (s := entering.staking) ⟨rfl, rfl, rfl, rfl⟩ idleEntered
  · exact (frameMoved.trans frameEntered).trans (Frame.of_same rfl rfl)

/-! ## Completion -/

/-- The not-bonded pool holds the unbonding balances and what it is owed. -/
theorem Inv.unbonding_le {consAddress : PubKey → Address} {pending : Address → Int}
    {s : StakingState} (inv : Inv consAddress tracked pending owed s) (tracks : tracked) :
    unbondingBalance s.unbondingDelegations + owed false ≤ poolBalance s false := by
  have backed := inv.pools tracks false
  have heldNonneg := heldTokens_nonneg inv.shares.tokensNonneg false
  simp only [Bool.false_eq_true, if_false] at backed
  omega

theorem payUnbondingEntry_spec (contract : HookContract K P allowed) {delAddr : Address}
    {entry : UnbondingDelegationEntry}
    (inv : Inv K.consAddress tracked (fun _ => 0) owed world.staking)
    (idle : P.idle world.staking world.ext) (enough : tracked →
      entry.balance ≤ unbondingBalance world.staking.unbondingDelegations + owed false) :
    Post (payUnbondingEntry K delAddr entry) world
      (fun _ world' => Kept K P tracked (shift owed false (-entry.balance)) world.staking world'
        ∧ world'.staking.unbondingDelegations = world.staking.unbondingDelegations)
      (StopsOK tracked allowed) := by
  simp only [payUnbondingEntry, staking_rules]
  set s := world.staking.deleteUnbondingIndex entry.unbondingId with sDef
  have invIndex : Inv K.consAddress tracked (fun _ => 0) owed (⟨s, world.ext⟩ : World σ).staking :=
    { inv with }
  have idleIndex : P.idle s world.ext :=
    contract.idle_stable (s := world.staking) ⟨rfl, rfl, rfl, rfl⟩ idle
  have frameIndex : Frame world.staking s := Frame.of_same rfl rfl
  refine ⟨fun _ => ?_, fun nothing => ?_⟩
  · simp only [newCoinCheck, post_crashIf]
    refine ⟨fun _ => trivial, fun _ => ?_⟩
    refine (subFrom_spec false invIndex fun tracks =>
      (enough tracks).trans (invIndex.unbonding_le tracks)).imp ?_
    rintro _ paying ⟨sameExt, samePools, invPaid⟩
    have idlePaid : P.idle paying.staking paying.ext := by
      rw [sameExt]
      exact contract.idle_stable samePools.sameStake idleIndex
    refine (external_spec (contract.undelegateCoins idlePaid)).imp ?_
    rintro _ world' ⟨sameStaking, idle'⟩
    rw [sameStaking]
    refine ⟨⟨sameStaking ▸ invPaid, sameStaking ▸ idle', ?_⟩, ?_⟩
    · rw [sameStaking]
      exact frameIndex.trans samePools.frame
    · obtain ⟨_, _, same⟩ := samePools
      rw [same]
      rfl
  · have zero : entry.balance = 0 := not_not.mp nothing
    rw [zero, neg_zero, shift_zero]
    exact ⟨⟨invIndex, idleIndex, frameIndex⟩, rfl⟩

/-- All entries of a list are paid: their sum leaves the pool, the records stay. -/
theorem payUnbondingEntries_spec (contract : HookContract K P allowed) {delAddr : Address} :
    ∀ {entries : List UnbondingDelegationEntry} {owed : Bool → Int} {world : World σ},
      (∀ entry ∈ entries, 0 ≤ entry.balance) →
      Inv K.consAddress tracked (fun _ => 0) owed world.staking →
      P.idle world.staking world.ext →
      (tracked → entriesBalance entries
        ≤ unbondingBalance world.staking.unbondingDelegations + owed false) →
      Post (forEach (payUnbondingEntry K delAddr) entries) world
        (fun _ world' =>
          Kept K P tracked (shift owed false (-entriesBalance entries)) world.staking world'
            ∧ world'.staking.unbondingDelegations = world.staking.unbondingDelegations)
        (StopsOK tracked allowed)
  | [], owed, world, _, inv, idle, _ => by
    simp only [forEach, post_pure, entriesBalance, map_nil, sum_nil, neg_zero,
      shift_zero, and_true]
    exact ⟨inv, idle, Frame.refl _⟩
  | entry :: rest, owed, world, nonneg, inv, idle, enough => by
    have restNonneg := fun e member => nonneg e (mem_cons_of_mem entry member)
    have restTotal := UnbondingsOK.entriesBalance_nonneg restNonneg
    have total : entriesBalance (entry :: rest) = entry.balance + entriesBalance rest := rfl
    have enoughHere : tracked → entry.balance
        ≤ unbondingBalance world.staking.unbondingDelegations + owed false := by
      intro tracks
      have all := enough tracks
      omega
    rw [forEach, post_bind]
    refine (payUnbondingEntry_spec contract inv idle enoughHere).imp ?_
    rintro _ paying ⟨⟨invPaid, idlePaid, framePaid⟩, samePaid⟩
    have enoughRest : tracked → entriesBalance rest
        ≤ unbondingBalance paying.staking.unbondingDelegations
          + shift owed false (-entry.balance) false := by
      intro tracks
      have all := enough tracks
      rw [samePaid, shift_self]
      omega
    refine (payUnbondingEntries_spec contract restNonneg invPaid idlePaid enoughRest).imp ?_
    rintro _ world' ⟨⟨invRest, idleRest, frameRest⟩, sameRest⟩
    rw [shift_shift, ← neg_add, ← total] at invRest
    exact ⟨⟨invRest, idleRest, framePaid.trans frameRest⟩, sameRest.trans samePaid⟩

theorem entriesBalance_le_unbondingBalance
    {ubds : Store (Pair Address Address) UnbondingDelegation} (ok : UnbondingsOK ubds)
    {key : Pair Address Address} {ubd : UnbondingDelegation} (found : ubds.get? key = some ubd) :
    entriesBalance ubd.entries ≤ unbondingBalance ubds :=
  Store.le_sum found fun _ _ stored =>
    UnbondingsOK.entriesBalance_nonneg fun entry member => (ok.entries stored entry member).1

theorem completeUnbonding_spec (contract : HookContract K P allowed) {delAddr valAddr : Address}
    (settled : Settled K.consAddress tracked world.staking)
    (idle : P.idle world.staking world.ext) :
    KeptBy K P tracked allowed (completeUnbonding K delAddr valAddr) world := by
  simp only [completeUnbonding, staking_rules, FaultIn]
  intro ubd found
  obtain ⟨delegator, validator⟩ := settled.unbondings.filed found
  simp only at delegator validator
  have bounds := settled.unbondings.entries found
  set done : UnbondingDelegationEntry → Bool := fun entry =>
    entry.isMature world.staking.blockTime ∧ ¬ entry.onHold
  have parts := entriesBalance_partition done ubd.entries
  have keptNonneg : 0 ≤ entriesBalance (ubd.entries.filter fun entry => ¬ done entry) :=
    UnbondingsOK.entriesBalance_nonneg fun entry member =>
      (bounds entry (mem_filter.mp member).1).1
  have filed : balanceAt world.staking.unbondingDelegations ⟨delAddr, valAddr⟩
      = entriesBalance ubd.entries := by
    simp [balanceAt, found]
  have enough : tracked → entriesBalance (ubd.entries.filter done)
      ≤ unbondingBalance world.staking.unbondingDelegations + 0 := by
    intro _
    have all := entriesBalance_le_unbondingBalance settled.unbondings found
    omega
  have nonneg : ∀ entry ∈ ubd.entries.filter done, 0 ≤ entry.balance := fun entry member =>
    (bounds entry (mem_filter.mp member).1).1
  refine (payUnbondingEntries_spec contract nonneg settled idle enough).imp ?_
  rintro _ paying ⟨⟨invPaid, idlePaid, framePaid⟩, samePaid⟩
  -- the record gives up exactly what was paid
  have written := @Inv.writeUnbondings _ _ _ _ _ invPaid _
    (-entriesBalance (ubd.entries.filter done))
    (@UnbondingsOK.store _ invPaid.unbondings
      { ubd with entries := ubd.entries.filter fun entry => ¬ done entry }
      fun entry member => bounds entry (mem_filter.mp member).1)
    (by
      rw [unbondingBalance_store, samePaid]
      simp only [delegator, validator, filed]
      omega)
  rw [neg_neg, shift_shift, neg_add_cancel, shift_zero] at written
  refine ⟨{ written with }, ?_, ?_⟩
  · exact contract.idle_stable (s := paying.staking) ⟨rfl, rfl, rfl, rfl⟩ idlePaid
  · exact framePaid.trans (Frame.of_same rfl rfl)

/-! ## Redelegation -/

theorem addRedelegationEntry_spec {s : StakingState} (ok : RedelegationsOK s.redelegations)
    {delAddr valSrcAddr valDstAddr : Address} {creationHeight : Int} {minTime : Time}
    {balance sharesDst : Int} {id : Nat} (nonneg : 0 ≤ balance) (sharesNonneg : 0 ≤ sharesDst) :
    let added := s.addRedelegationEntry delAddr valSrcAddr valDstAddr creationHeight minTime balance
      sharesDst id
    added.delegatorAddress = delAddr ∧ added.validatorSrcAddress = valSrcAddr
      ∧ added.validatorDstAddress = valDstAddr
      ∧ ∀ entry ∈ added.entries, 0 ≤ entry.initialBalance ∧ 0 ≤ entry.sharesDst := by
  unfold StakingState.addRedelegationEntry
  cases found : s.redelegations.get? ⟨delAddr, ⟨valSrcAddr, valDstAddr⟩⟩ with
  | some red =>
    obtain ⟨delegator, source, destination⟩ := ok.filed found
    refine ⟨delegator, source, destination, ?_⟩
    intro entry member
    rcases mem_append.mp member with old | new
    · exact ok.entries found entry old
    · rw [mem_singleton.mp new]
      exact ⟨nonneg, sharesNonneg⟩
  | none =>
    refine ⟨rfl, rfl, rfl, ?_⟩
    intro entry member
    rw [mem_singleton.mp member]
    exact ⟨nonneg, sharesNonneg⟩

theorem setRedelegationEntry_spec (contract : HookContract K P allowed)
    {delAddr valSrcAddr valDstAddr : Address} {creationHeight : Int} {minTime : Time}
    {balance sharesDst : Int} (settled : Settled K.consAddress tracked world.staking)
    (idle : P.idle world.staking world.ext) (apart : valSrcAddr ≠ valDstAddr)
    (nonneg : 0 ≤ balance) (sharesNonneg : 0 ≤ sharesDst) :
    KeptBy K P tracked allowed
      (setRedelegationEntry K delAddr valSrcAddr valDstAddr creationHeight minTime balance
        sharesDst) world := by
  simp only [setRedelegationEntry, staking_rules]
  set s := world.staking.incrementUnbondingId
  set red := s.addRedelegationEntry delAddr valSrcAddr valDstAddr creationHeight minTime balance
    sharesDst s.unbondingId with redDef
  obtain ⟨delegator, source, destination, bounds⟩ :=
    @addRedelegationEntry_spec s settled.redelegations delAddr valSrcAddr valDstAddr creationHeight
      minTime balance sharesDst s.unbondingId nonneg sharesNonneg
  rw [← redDef] at delegator source destination bounds
  have elsewhere : red.validatorSrcAddress ≠ red.validatorDstAddress := by
    rw [source, destination]
    exact apart
  set s' := (s.setRedelegation red).setByUnbondingId
    (.redelegation red.delegatorAddress red.validatorSrcAddress red.validatorDstAddress)
    s.unbondingId
  have written : Settled K.consAddress tracked s' :=
    { settled with redelegations := settled.redelegations.set elsewhere bounds }
  have idleWritten : P.idle s' world.ext :=
    contract.idle_stable (s := world.staking) ⟨rfl, rfl, rfl, rfl⟩ idle
  refine (ignoreError_external_spec
    (contract.unbondingInitiated written.shares idleWritten)).imp ?_
  rintro _ world' ⟨sameStaking, idle'⟩
  refine ⟨sameStaking ▸ written, sameStaking ▸ idle', ?_⟩
  rw [sameStaking]
  exact Frame.of_same rfl rfl

theorem getBeginInfo_spec {valSrcAddr : Address} :
    Passes tracked allowed (getBeginInfo valSrcAddr) world := by
  simp only [Passes, getBeginInfo, getValidator, staking_rules, FaultIn]
  intro v _
  cases v.status <;> simp

variable (contract : HookContract K P allowed)
  (settled : Settled K.consAddress tracked world.staking) (idle : P.idle world.staking world.ext)

include contract settled idle

theorem beginRedelegation_spec {delAddr valSrcAddr valDstAddr : Address} {shares : Int}
    (positive : 0 < shares) :
    KeptBy K P tracked allowed
      (beginRedelegation K delAddr valSrcAddr valDstAddr shares) world := by
  simp only [beginRedelegation, staking_rules, FaultIn]
  intro apart dst dstStored src srcStored _ _
  refine (unbond_spec contract settled idle srcStored positive fun _ _ => trivial).imp ?_
  rintro paid unbonding ⟨_, paidNonneg, invUnbonded, idleUnbonded, frameUnbonded⟩
  intro notZero
  have paidPos : 0 < paid := by omega
  have dstKey := settled.shares.validatorKey dstStored
  -- the destination is another validator, so its record has not changed
  have dstAfter : unbonding.staking.validators.get? dst.operatorAddress = some dst := by
    rw [dstKey, frameUnbonded.others (Ne.symm apart)]
    exact dstStored
  have funded : tracked → false = false →
      paid ≤ poolBalance unbonding.staking (decide (src.status = .bonded)) := by
    intro tracks _
    have funds := invUnbonded.owed_le src.isBonded tracks
    rwa [shift_self, zero_add] at funds
  refine (delegate_spec contract invUnbonded idleUnbonded dstAfter paidPos funded).imp ?_
  rintro issued delegating ⟨issuedPos, invDelegated, idleDelegated, frameDelegated⟩
  have settledDelegated : Settled K.consAddress tracked delegating.staking := by
    have nothing : spent (shift (fun _ => 0) src.isBonded paid) src.status paid false
        = fun _ => 0 := by
      simp only [spent, Validator.isBonded, Bool.false_eq_true, if_false]
      rw [shift_shift, add_neg_cancel, shift_zero]
    rwa [nothing] at invDelegated
  have frame := frameUnbonded.toFrame.trans frameDelegated.toFrame
  refine getBeginInfo_spec.imp ?_
  rintro info _ rfl
  cases info with
  | none => exact ⟨settledDelegated, idleDelegated, frame⟩
  | some begun =>
    simp only [staking_rules]
    refine (setRedelegationEntry_spec contract settledDelegated idleDelegated apart paidNonneg
      issuedPos.le).imp ?_
    rintro red entering ⟨invEntered, idleEntered, frameEntered⟩
    refine ⟨{ invEntered with }, ?_, ?_⟩
    · exact contract.idle_stable (s := entering.staking) ⟨rfl, rfl, rfl, rfl⟩ idleEntered
    · exact (frame.trans frameEntered).trans (Frame.of_same rfl rfl)

theorem completeRedelegation_spec {delAddr valSrcAddr valDstAddr : Address} :
    KeptBy K P tracked allowed (completeRedelegation delAddr valSrcAddr valDstAddr) world := by
  simp only [completeRedelegation, staking_rules, FaultIn]
  intro red found
  obtain ⟨_, source, destination⟩ := settled.redelegations.filed found
  have elsewhere : red.validatorSrcAddress ≠ red.validatorDstAddress := by
    rw [source, destination]
    exact settled.redelegations.apart found
  have bounds := settled.redelegations.entries found
  refine (post_forEach (fun _ state => Kept K P tracked (fun _ => 0) world.staking state) ?_ _ world
    ⟨settled, idle, Frame.refl _⟩).imp ?_
  · rintro entry _ state ⟨inv, idleState, frame⟩
    rw [post_modifyStaking]
    refine ⟨{ inv with }, ?_, frame.trans (Frame.of_same rfl rfl)⟩
    exact contract.idle_stable (s := state.staking) ⟨rfl, rfl, rfl, rfl⟩ idleState
  · rintro _ state ⟨inv, idleState, frame⟩
    have stored := @RedelegationsOK.store _ inv.redelegations
      { red with entries := red.entries.filter fun entry =>
          ¬ decide (entry.isMature world.staking.blockTime ∧ ¬ entry.onHold) }
      elsewhere fun entry member => bounds entry (mem_filter.mp member).1
    refine ⟨{ inv with redelegations := stored }, ?_,
      frame.trans (Frame.of_same rfl rfl)⟩
    exact contract.idle_stable (s := state.staking) ⟨rfl, rfl, rfl, rfl⟩ idleState

/-! ## Requested amounts and cancellation -/

omit contract settled idle

/-- A positive amount is worth a positive number of shares. -/
theorem validateUnbondAmount_spec {delAddr valAddr : Address} {amount : Int}
    (inv : Inv K.consAddress tracked (fun _ => 0) owed world.staking) (positive : 0 < amount) :
    Post (validateUnbondAmount delAddr valAddr amount : StakingM φ σ Int) world
      (fun shares world' => world' = world ∧ 0 < shares) (StopsOK tracked allowed) := by
  simp only [validateUnbondAmount, getValidator, staking_rules, FaultIn]
  intro v stored d found shares worth _ _ _
  have heldPos := inv.shares.positive found
  have nonneg := inv.shares.tokensNonneg stored
  have covered := inv.shares.covered stored
  have notEmpty : v.tokens ≠ 0 := by
    intro empty
    simp [Validator.sharesFromTokens, empty] at worth
  have issues : v.issuedShares amount = some shares := by
    rw [Validator.issuedShares, if_neg (by omega)]
    exact worth
  have atLeast := Validator.le_issuedShares nonneg covered positive issues
  split_ifs
  · exact heldPos
  · omega

theorem cancelUnbondingDelegation_spec (contract : HookContract K P allowed)
    {msg : MsgCancelUnbondingDelegation} (settled : Settled K.consAddress tracked world.staking)
    (idle : P.idle world.staking world.ext) :
    KeptBy K P tracked allowed (cancelUnbondingDelegation K msg) world := by
  simp only [cancelUnbondingDelegation, checkAmount, checkBondDenom, getValidator, staking_rules,
    FaultIn]
  rintro positive _ _ v stored _ _ ubd found ⟨before, entry, after⟩ split
  dsimp only
  intro available _
  have amountPos : 0 < msg.amount.amount := not_not.mp positive
  have sameKey := settled.shares.validatorKey stored
  obtain ⟨delegator, validator⟩ := settled.unbondings.filed found
  simp only at delegator validator
  have splits := splitAtHeight_eq split
  have bounds := settled.unbondings.entries found
  rw [splits] at bounds
  obtain ⟨total, cancelledBounds⟩ := cancelled_spec (not_lt.mp available) bounds
  have filed : balanceAt world.staking.unbondingDelegations
      ⟨msg.delegatorAddress, msg.validatorAddress⟩ = entriesBalance (before ++ entry :: after) := by
    simp [balanceAt, found, splits]
  -- the cancelled amount is in the not-bonded pool as long as the entry is on record
  have funded : tracked → false = false →
      msg.amount.amount ≤ poolBalance world.staking (decide (BondStatus.unbonding = .bonded)) := by
    intro tracks _
    have inPool := settled.unbonding_le tracks
    have inRecord := entriesBalance_le_unbondingBalance settled.unbondings found
    have rest := UnbondingsOK.entriesBalance_nonneg fun e member => (cancelledBounds e member).1
    rw [splits] at inRecord
    simp only [reduceCtorEq, decide_false]
    omega
  rw [← sameKey] at stored
  refine (delegate_spec contract settled idle stored amountPos funded).imp ?_
  rintro issued delegating ⟨_, invDelegated, idleDelegated, frameDelegated⟩
  have written := @Inv.writeUnbondings _ _ _ _ _ invDelegated _ (-msg.amount.amount)
    (@UnbondingsOK.store _ invDelegated.unbondings
      { ubd with entries := before ++ reducedEntry entry msg.amount.amount ++ after }
      cancelledBounds)
    (by
      rw [unbondingBalance_store, frameDelegated.unbondings]
      simp only [delegator, validator, filed, total]
      omega)
  have nothing : shift (spent (fun _ => 0) .unbonding msg.amount.amount false) false
      (- -msg.amount.amount) = fun _ => 0 := by
    simp only [spent, Bool.false_eq_true, if_false, reduceCtorEq, decide_false, neg_neg]
    rw [shift_shift, neg_add_cancel, shift_zero]
  rw [nothing] at written
  refine ⟨{ written with }, ?_, ?_⟩
  · exact contract.idle_stable (s := delegating.staking) ⟨rfl, rfl, rfl, rfl⟩ idleDelegated
  · exact frameDelegated.toFrame.trans (Frame.of_same rfl rfl)

end Specs

end AtomOneSdk.Staking
