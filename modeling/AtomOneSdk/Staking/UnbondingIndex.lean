import AtomOneSdk.Staking.ConsKeys
import AtomOneSdk.Staking.Pools
import AtomOneSdk.Staking.UnbondingIds

/-!
Contract: the keeper functions that write records with unbonding ids.

Owns: for every keeper function that writes a validator, an unbonding delegation or a
redelegation, what it does to the ids the records list and to the index of ids.

Does **not** own: runs of the keeper.
-/

namespace AtomOneSdk.Staking

open Lib Lib.Action List

section Keeper

variable {φ σ : Type} (K : Keepers φ σ) {world : World σ}

/-! ## Stored validators -/

/-- The stored record of a validator lists the ids this value lists. -/
def Listed (s : StakingState) (v : Validator) : Prop :=
  (idView s).validators v.operatorAddress = some (validatorIds v)

abbrev SameIds (world after : World σ) : Prop := idView after.staking = idView world.staking

abbrev SameIdsKept {α : Type} (action : StakingM φ σ α) (world : World σ) : Prop :=
  Ensures action world fun _ => SameIds world

theorem SameIdsKept.ids {α : Type} {action : StakingM φ σ α} (kept : SameIdsKept action world)
    (ok : (idView world.staking).IdsOK) : IdsKept action world :=
  kept.imp fun _ _ same => same ▸ ok

variable {s : StakingState} {addr delAddr valSrcAddr valDstAddr operator : Address}
  {ubd : UnbondingDelegation} {red : Redelegation}
  {record : Option (Address × BondStatus × List Nat)}

theorem listed_of_get? (shaped : (idView s).Shaped) {v : Validator}
    (stored : s.validators.get? addr = some v) :
    v.operatorAddress = addr ∧ Listed s v := by
  have isRecord : (idView s).validators addr = some (validatorIds v) := by
    simp only [idView, stored, Option.map_some]
  have isOperator : v.operatorAddress = addr := shaped.operator isRecord
  refine ⟨isOperator, ?_⟩
  rw [Listed, isOperator]
  exact isRecord

theorem Listed.congr {s' : StakingState} {v : Validator} (listed : Listed s v)
    (same : idView s' = idView s) : Listed s' v := by
  rw [Listed, same]
  exact listed

/-- A listed validator written with the same ids changes nothing in the view. -/
theorem Listed.setValidator {s : StakingState} {v v' : Validator} (listed : Listed s v)
    (same : validatorIds v' = validatorIds v) : idView (s.setValidator v') = idView s := by
  have sameOperator : v'.operatorAddress = v.operatorAddress := congrArg Prod.fst same
  rw [idView_setValidator, same, sameOperator, IdView.setValidator, ← listed,
    Function.update_eq_self]

variable {v : Validator}

variable (listed : Listed world.staking v)

include listed

theorem addValidatorTokensAndShares_ids (tokensToAdd : Int) :
    SameIdsKept
      (addValidatorTokensAndShares v tokensToAdd : StakingM φ σ (Validator × Int)) world := by
  simp only [addValidatorTokensAndShares, staking_rules]
  intro added isAdded
  obtain ⟨issued, _, rfl⟩ := Option.map_eq_some_iff.mp isAdded
  exact listed.setValidator rfl

theorem removeValidatorTokensAndShares_ids (sharesToRemove : Int) :
    Ensures (removeValidatorTokensAndShares v sharesToRemove : StakingM φ σ (Validator × Int)) world
      fun removed after => SameIds world after ∧ validatorIds removed.1 = validatorIds v := by
  simp only [removeValidatorTokensAndShares, staking_rules]
  exact fun _ _ => ⟨listed.setValidator rfl, rfl⟩

theorem removeValidatorTokens_ids (tokensToRemove : Int) :
    SameIdsKept (removeValidatorTokens v tokensToRemove : StakingM φ σ Validator) world := by
  simp only [removeValidatorTokens, staking_rules]
  exact fun _ _ => listed.setValidator rfl

theorem jailValidator_ids :
    SameIdsKept (jailValidator v : StakingM φ σ Unit) world := by
  simp only [jailValidator, staking_rules]
  exact fun _ => listed.setValidator rfl

theorem unjailValidator_ids :
    SameIdsKept (unjailValidator v : StakingM φ σ Unit) world := by
  simp only [unjailValidator, staking_rules]
  exact fun _ => listed.setValidator rfl

theorem updateToNewPubkey_ids (oldPubKey newPubKey : PubKey) (fee : Coin) :
    SameIdsKept (updateToNewPubkey K v oldPubKey newPubKey fee) world := by
  simp only [updateToNewPubkey, staking_rules]
  exact quiet_external.post (listed.setValidator rfl) fun _ _ same => same

omit listed

/-- Removal takes away an unbonded validator, or nothing. -/
def Removed (addr : Address) (before after : IdView) : Prop :=
  after = before ∨ after = before.setValidator addr none
    ∧ ∃ operator ids, before.validators addr = some (operator, .unbonded, ids)

theorem removeValidator_stored_ids {address : Address} {validator : Validator}
    (stored : world.staking.validators.get? address = some validator) :
    Ensures (removeValidator K address) world fun _ after =>
      idView after.staking = (idView world.staking).setValidator address none
        ∧ validator.status = .unbonded := by
  simp only [removeValidator, staking_rules, stored]
  intro isUnbonded _
  have quiet := quiet_recover
    (@quiet_external _ _ _ fun s => K.afterValidatorRemoved s
      (K.consAddress validator.consensusPubkey) validator.operatorAddress)
    (quiet_modify (f := fun s => s.note (.removalHookFailed validator.operatorAddress))
      fun _ => rfl)
  apply quiet.post (idView_deleteValidator _ _ _ _)
  intro _ after same
  exact ⟨same, by simpa [Validator.isUnbonded] using isUnbonded⟩

theorem removeValidator_ids (address : Address) :
    Ensures (removeValidator K address) world
      fun _ after => Removed address (idView world.staking) (idView after.staking) := by
  cases stored : world.staking.validators.get? address with
  | none =>
    rw [removeValidator, Ensures, post_bind, post_stakingState, stored]
    exact .inl rfl
  | some validator =>
    apply (removeValidator_stored_ids K stored).imp
    intro _ after isRemoved
    refine .inr ⟨isRemoved.1, validator.operatorAddress, validator.unbondingIds, ?_⟩
    simp only [idView, stored, Option.map_some, validatorIds, isRemoved.2]

/-- An unbonded validator lists no ids, so its removal leaves none behind. -/
theorem Removed.idsOK {before after : IdView} (removed : Removed addr before after)
    (ok : before.IdsOK) : after.IdsOK := by
  rcases removed with same | ⟨isRemoved, operator, ids, isRecord⟩
  · rw [same]
    exact ok
  · rw [isRemoved]
    have nothing : ids = [] := ok.shaped.unbonded isRecord rfl
    apply ok.setValidator
    · simp [IdView.idsOf, isRecord, nothing]
    · simp

theorem Removed.other {addr other : Address} {before after : IdView}
    (removed : Removed addr before after) (apart : other ≠ addr) :
    after.validators other = before.validators other := by
  rcases removed with same | ⟨isRemoved, _⟩
  · rw [same]
  · rw [isRemoved]
    exact Function.update_of_ne apart _ _

/-! ## Delegations -/

theorem delegate_ids (listed : Listed world.staking v) (delAddr : Address) (bondAmt : Int)
    (tokenSrc : BondStatus) (subtractAccount : Bool) :
    SameIdsKept (delegate K delAddr bondAmt tokenSrc v subtractAccount) world := by
  rw [SameIdsKept, delegate]
  apply quiet_failIf.bind rfl
  intro _ checked same
  apply quiet_openDelegation.bind same
  intro delegation opened same
  apply quiet_fundDelegation.bind same
  intro _ funded same
  apply (addValidatorTokensAndShares_ids (listed.congr same) bondAmt).bind
  intro added grown sameGrown
  simp only [staking_rules]
  exact quiet_external.post (sameGrown.trans same) fun _ _ same => same

theorem jailBelowMinimum_ids (shaped : (idView world.staking).Shaped)
    (listed : Listed world.staking v) (delegation : Delegation) :
    Ensures (jailBelowMinimum delegation v : StakingM φ σ Validator) world
      fun found after => SameIds world after ∧ Listed after.staking found
        ∧ found.operatorAddress = v.operatorAddress := by
  simp only [jailBelowMinimum, post_ite, post_rules]
  refine ⟨fun _ _ => ⟨fun _ => ?_, fun _ => listed⟩, fun _ => listed⟩
  apply (jailValidator_ids listed).imp
  intro _ jailed same
  simp only [mustGetValidator, staking_rules]
  intro found stored
  obtain ⟨isOperator, isListed⟩ := listed_of_get? (same ▸ shaped) stored
  exact ⟨same, isListed, isOperator⟩

variable (ok : (idView world.staking).IdsOK)

include ok in
theorem unbond_ids (delAddr valAddr : Address) (shares : Int) :
    Ensures (unbond K delAddr valAddr shares) world
      fun _ after => Removed valAddr (idView world.staking) (idView after.staking) := by
  rw [unbond, Ensures, post_bind, post_stakingState]
  apply quiet_getOrFail.bind rfl
  intro delegation opened same
  apply quiet_external.bind same
  intro _ told same
  apply quiet_failIf.bind same
  intro _ checked same
  have shaped : (idView checked.staking).Shaped := same ▸ ok.shaped
  simp only [getValidator, staking_rules]
  intro found stored
  obtain ⟨isOperator, listed⟩ := listed_of_get? shaped stored
  apply (jailBelowMinimum_ids shaped listed _).imp
  intro validator jailed isJailed
  obtain ⟨sameJailed, isListed, sameOperator⟩ := isJailed
  apply quiet_storeReducedDelegation.post rfl
  intro _ reduced sameReduced
  apply (removeValidatorTokensAndShares_ids (isListed.congr sameReduced) shares).imp
  intro removed shrunk isShrunk
  have sameShrunk : SameIds world shrunk :=
    isShrunk.1.trans (sameReduced.trans (sameJailed.trans same))
  refine ⟨fun _ => ?_, fun _ => .inl sameShrunk⟩
  apply (removeValidator_ids K validator.operatorAddress).imp
  intro _ after isRemoved
  rw [sameShrunk, sameOperator, isOperator] at isRemoved
  exact isRemoved

/-! ## Unbonding delegations -/

theorem mergeEntry_ids {creationHeight : Int} {minTime : Time} {balance : Int} :
    ∀ {entries merged : List UnbondingDelegationEntry},
      mergeEntry creationHeight minTime balance entries = some merged →
      merged.map UnbondingDelegationEntry.unbondingId
        = entries.map UnbondingDelegationEntry.unbondingId
  | [], merged, found => by cases found
  | head :: tail, merged, found => by
    rw [mergeEntry] at found
    split_ifs at found with here
    · cases found
      rfl
    · obtain ⟨rest, foundRest, rfl⟩ := Option.map_eq_some_iff.mp found
      rw [map_cons, map_cons, mergeEntry_ids foundRest]

/-- A new entry carries the id it is made with; a merged one keeps the id it had. -/
theorem addUnbondingEntry_ids (shaped : (idView s).Shaped) (delAddr valAddr : Address)
    (creationHeight : Int) (minTime : Time) (balance : Int) (id : Nat) :
    let added := s.addUnbondingEntry delAddr valAddr creationHeight minTime balance id
    let listedIds := (idView s).idsOf (.unbondingDelegation delAddr valAddr)
    (added.2 = true ∧ unbondingIds added.1 = (delAddr, valAddr, listedIds ++ [id]))
      ∨ (added.2 = false
        ∧ (idView s).unbonding ⟨delAddr, valAddr⟩ = some (unbondingIds added.1)
        ∧ added.1.delegatorAddress = delAddr ∧ added.1.validatorAddress = valAddr) := by
  intro added listedIds
  cases stored : s.unbondingDelegations.get? ⟨delAddr, valAddr⟩ with
  | none =>
    left
    simp [added, listedIds, StakingState.addUnbondingEntry, stored, unbondingIds, IdView.idsOf,
      idView, newUnbondingDelegationEntry]
  | some ubd =>
    have isRecord : (idView s).unbonding ⟨delAddr, valAddr⟩ = some (unbondingIds ubd) := by
      simp only [idView, stored, Option.map_some]
    obtain ⟨isDelegator, isValidator⟩ := Pair.mk.inj (shaped.unbonding isRecord)
    have isDelegator : ubd.delegatorAddress = delAddr := isDelegator.symm
    have isValidator : ubd.validatorAddress = valAddr := isValidator.symm
    cases merge : mergeEntry creationHeight minTime balance ubd.entries with
    | none =>
      left
      simp [added, listedIds, StakingState.addUnbondingEntry, stored,
        UnbondingDelegation.addEntry, merge, unbondingIds, IdView.idsOf, isRecord,
        newUnbondingDelegationEntry, isDelegator, isValidator]
    | some merged =>
      right
      simp [added, StakingState.addUnbondingEntry, stored, UnbondingDelegation.addEntry,
        merge, unbondingIds, isRecord, mergeEntry_ids merge, isDelegator, isValidator]

include ok in
theorem setUnbondingDelegationEntry_ids (delAddr valAddr : Address) (creationHeight : Int)
    (minTime : Time) (balance : Int) :
    IdsKept
      (setUnbondingDelegationEntry K delAddr valAddr creationHeight minTime balance) world := by
  simp only [setUnbondingDelegationEntry, staking_rules]
  -- only the counter has moved when the entry is made
  have skipped : (idView world.staking.incrementUnbondingId).IdsOK := ok.skip
  have cases_ := addUnbondingEntry_ids skipped.shaped delAddr valAddr creationHeight minTime balance
    world.staking.incrementUnbondingId.unbondingId
  dsimp only at cases_
  generalize world.staking.incrementUnbondingId.addUnbondingEntry delAddr valAddr creationHeight
    minTime balance world.staking.incrementUnbondingId.unbondingId = added at cases_ ⊢
  constructor
  · intro isNew
    rcases cases_ with ⟨_, isAdded⟩ | ⟨isOld, _⟩
    · apply (quiet_ignoreError quiet_external).post rfl
      intro _ after same
      have isDelegator : added.1.delegatorAddress = delAddr := congrArg Prod.fst isAdded
      have isValidator : added.1.validatorAddress = valAddr :=
        congrArg (fun ids => ids.2.1) isAdded
      have written := idView_setUnbondingDelegation world.staking.incrementUnbondingId added.1
      rw [isAdded, isDelegator, isValidator] at written
      rw [same, idView_setByUnbondingId, written, isDelegator, isValidator]
      exact ok.addUnbonding delAddr valAddr
    · rw [isOld] at isNew
      cases isNew
  · intro isOld
    rcases cases_ with ⟨isNew, _⟩ | ⟨_, isRecord, isDelegator, isValidator⟩
    · exact absurd isNew isOld
    · rw [idView_setUnbondingDelegation, isDelegator, isValidator, ← isRecord,
        IdView.setUnbonding, Function.update_eq_self]
      exact skipped

include ok in
theorem undelegate_ids (delAddr valAddr : Address) (sharesAmount : Int) :
    IdsKept (undelegate K delAddr valAddr sharesAmount) world := by
  rw [IdsKept, undelegate]
  apply quiet_getValidator.bind rfl
  intro validator looked same
  rw [Ensures, post_bind, post_stakingState]
  apply quiet_failIf.bind same
  intro _ checked same
  rw [← same] at ok
  apply (unbond_ids K ok delAddr valAddr sharesAmount).bind
  intro returnAmount unbonded isRemoved
  apply (quiet_whenever quiet_bondedTokensToNotBonded).bind rfl
  intro _ moved sameMoved
  have okMoved : (idView moved.staking).IdsOK := sameMoved ▸ isRemoved.idsOK ok
  simp only [staking_rules]
  exact setUnbondingDelegationEntry_ids K okMoved delAddr valAddr _ _ returnAmount

/-- An action that takes one id out of the index. -/
def Unindexes (action : StakingM φ σ Unit) (id : Nat) : Prop :=
  ∀ world, Ensures action world fun _ after => idView after.staking
    = { idView world.staking with index := world.staking.unbondingIndex.delete id }

/-- A loop over entries takes the ids of all of them out of the index. -/
theorem forEach_unindexes {α : Type} {body : α → StakingM φ σ Unit} {number : α → Nat}
    (each : ∀ entry, Unindexes (body entry) (number entry)) (entries : List α) :
    Ensures (forEach body entries) world
      fun _ after => idView after.staking = { idView world.staking with
        index := (entries.map number).foldl Store.delete world.staking.unbondingIndex } := by
  induction entries generalizing world with
  | nil => exact rfl
  | cons entry rest ih =>
    rw [forEach]
    apply (each entry world).bind
    intro _ mid isMid
    apply ih.imp
    intro _ after isAfter
    have isIndex : mid.staking.unbondingIndex
        = world.staking.unbondingIndex.delete (number entry) := congrArg IdView.index isMid
    rw [isAfter, isMid, isIndex]
    rfl

theorem payUnbondingEntry_unindexes (delAddr : Address) (entry : UnbondingDelegationEntry) :
    Unindexes (payUnbondingEntry K delAddr entry) entry.unbondingId := by
  intro world
  rw [payUnbondingEntry, Ensures, post_bind, post_modifyStaking]
  refine (quiet_whenever ?_).post rfl fun _ _ same => same
  exact quiet_bind quiet_crashIf fun _ => quiet_bind quiet_subNotBondedPool fun _ =>
    quiet_external

theorem unbonding_of_get? (shaped : (idView s).Shaped) {valAddr : Address}
    (stored : s.unbondingDelegations.get? ⟨delAddr, valAddr⟩ = some ubd) :
    ubd.delegatorAddress = delAddr ∧ ubd.validatorAddress = valAddr
      ∧ (idView s).unbonding ⟨delAddr, valAddr⟩ = some (unbondingIds ubd) := by
  have isRecord : (idView s).unbonding ⟨delAddr, valAddr⟩ = some (unbondingIds ubd) := by
    simp only [idView, stored, Option.map_some]
  obtain ⟨isDelegator, isValidator⟩ := Pair.mk.inj (shaped.unbonding isRecord)
  exact ⟨isDelegator.symm, isValidator.symm, isRecord⟩

include ok in
theorem completeUnbonding_ids (delAddr valAddr : Address) :
    IdsKept (completeUnbonding K delAddr valAddr) world := by
  simp only [completeUnbonding, staking_rules]
  intro ubd stored
  obtain ⟨isDelegator, isValidator, isRecord⟩ := unbonding_of_get? ok.shaped stored
  apply (forEach_unindexes (payUnbondingEntry_unindexes K _) _).imp
  intro _ paid isPaid
  rw [idView_storeUnbondingDelegation, isPaid, isDelegator, isValidator]
  have isListed : (idView world.staking).idsOf (.unbondingDelegation delAddr valAddr)
      = ubd.entries.map UnbondingDelegationEntry.unbondingId := by
    simp [IdView.idsOf, isRecord, unbondingIds]
  apply ok.dropUnbonding isListed
  · split_ifs with noneLeft
    · exact (congrArg (List.map UnbondingDelegationEntry.unbondingId) noneLeft).symm
    · rfl
  · intro record isLeft
    split_ifs at isLeft
    · cases isLeft
    · cases isLeft
      exact ⟨rfl, rfl⟩

/-! ## Redelegations -/

theorem redelegation_of_get? (shaped : (idView s).Shaped)
    (stored : s.redelegations.get? ⟨delAddr, ⟨valSrcAddr, valDstAddr⟩⟩ = some red) :
    red.delegatorAddress = delAddr ∧ red.validatorSrcAddress = valSrcAddr
      ∧ red.validatorDstAddress = valDstAddr ∧ valSrcAddr ≠ valDstAddr
      ∧ (idView s).redelegations ⟨delAddr, ⟨valSrcAddr, valDstAddr⟩⟩
        = some (redelegationIds red) := by
  have isRecord : (idView s).redelegations ⟨delAddr, ⟨valSrcAddr, valDstAddr⟩⟩
      = some (redelegationIds red) := by
    simp only [idView, stored, Option.map_some]
  obtain ⟨isKey, apart⟩ := shaped.redelegation isRecord
  obtain ⟨isDelegator, isPair⟩ := Pair.mk.inj isKey
  obtain ⟨isSource, isDestination⟩ := Pair.mk.inj isPair
  refine ⟨isDelegator.symm, isSource.symm, isDestination.symm, ?_, isRecord⟩
  rw [isSource, isDestination]
  exact apart

theorem addRedelegationEntry_ids (shaped : (idView s).Shaped)
    (delAddr valSrcAddr valDstAddr : Address) (creationHeight : Int) (minTime : Time)
    (balance sharesDst : Int) (id : Nat) :
    redelegationIds (s.addRedelegationEntry delAddr valSrcAddr valDstAddr creationHeight minTime
        balance sharesDst id)
      = (delAddr, valSrcAddr, valDstAddr,
        (idView s).idsOf (.redelegation delAddr valSrcAddr valDstAddr) ++ [id]) := by
  cases stored : s.redelegations.get? ⟨delAddr, ⟨valSrcAddr, valDstAddr⟩⟩ with
  | none =>
    simp [StakingState.addRedelegationEntry, stored, redelegationIds, IdView.idsOf, idView,
      newRedelegationEntry]
  | some red =>
    obtain ⟨isDelegator, isSource, isDestination, _, isRecord⟩ :=
      redelegation_of_get? shaped stored
    simp [StakingState.addRedelegationEntry, stored, Redelegation.addEntry, redelegationIds,
      IdView.idsOf, isRecord, newRedelegationEntry, isDelegator, isSource, isDestination]

include ok in
theorem setRedelegationEntry_ids (apart : valSrcAddr ≠ valDstAddr) (creationHeight : Int)
    (minTime : Time) (balance sharesDst : Int) :
    IdsKept (setRedelegationEntry K delAddr valSrcAddr valDstAddr creationHeight minTime balance
        sharesDst) world := by
  simp only [setRedelegationEntry, staking_rules]
  have skipped : (idView world.staking.incrementUnbondingId).IdsOK := ok.skip
  have isAdded := addRedelegationEntry_ids skipped.shaped delAddr valSrcAddr valDstAddr
    creationHeight minTime balance sharesDst world.staking.incrementUnbondingId.unbondingId
  generalize world.staking.incrementUnbondingId.addRedelegationEntry delAddr valSrcAddr valDstAddr
    creationHeight minTime balance sharesDst world.staking.incrementUnbondingId.unbondingId
    = red at isAdded ⊢
  have isDelegator : red.delegatorAddress = delAddr := congrArg Prod.fst isAdded
  have isSource : red.validatorSrcAddress = valSrcAddr := congrArg (fun ids => ids.2.1) isAdded
  have isDestination : red.validatorDstAddress = valDstAddr :=
    congrArg (fun ids => ids.2.2.1) isAdded
  apply (quiet_ignoreError quiet_external).post rfl
  intro _ after same
  rw [same, idView_setByUnbondingId, idView_setRedelegation, isAdded, isDelegator, isSource,
    isDestination]
  exact ok.addRedelegation apart

include ok in
theorem beginRedelegation_ids (delAddr valSrcAddr valDstAddr : Address) (sharesAmount : Int) :
    IdsKept (beginRedelegation K delAddr valSrcAddr valDstAddr sharesAmount) world := by
  simp only [beginRedelegation, staking_rules]
  intro apart dstValidator storedDst srcValidator storedSrc _ _
  apply (unbond_ids K ok delAddr valSrcAddr sharesAmount).imp
  intro returnAmount unbonded isRemoved _
  have okUnbonded := isRemoved.idsOK ok
  -- the destination is another validator, so its record is still the one read before
  obtain ⟨isOperator, listed⟩ := listed_of_get? ok.shaped storedDst
  have stillListed : Listed unbonded.staking dstValidator := by
    rw [Listed, isRemoved.other (by rw [isOperator]; exact Ne.symm apart)]
    exact listed
  apply (delegate_ids K stillListed delAddr returnAmount srcValidator.status false).imp
  intro sharesCreated delegated sameDelegated
  apply quiet_getBeginInfo.post sameDelegated
  intro info read sameRead
  have okRead : (idView read.staking).IdsOK := sameRead ▸ okUnbonded
  cases info with
  | none => exact okRead
  | some found =>
    simp only [staking_rules]
    exact setRedelegationEntry_ids K okRead apart _ _ _ _

include ok in
theorem completeRedelegation_ids (delAddr valSrcAddr valDstAddr : Address) :
    IdsKept (completeRedelegation delAddr valSrcAddr valDstAddr : StakingM φ σ Unit) world := by
  simp only [completeRedelegation, staking_rules]
  intro red stored
  obtain ⟨isDelegator, isSource, isDestination, apart, isRecord⟩ :=
    redelegation_of_get? ok.shaped stored
  have each : ∀ entry : RedelegationEntry, Unindexes
      (modifyStaking (·.deleteUnbondingIndex entry.unbondingId) : StakingM φ σ Unit)
      entry.unbondingId := fun _ _ => rfl
  apply (forEach_unindexes each _).imp
  intro _ unindexed isUnindexed
  rw [idView_storeRedelegation, isUnindexed, isDelegator, isSource,
    isDestination]
  have isListed : (idView world.staking).idsOf (.redelegation delAddr valSrcAddr valDstAddr)
      = red.entries.map RedelegationEntry.unbondingId := by
    simp [IdView.idsOf, isRecord, redelegationIds]
  apply ok.dropRedelegation apart isListed
  · split_ifs with noneLeft
    · exact (congrArg (List.map RedelegationEntry.unbondingId) noneLeft).symm
    · rfl
  · intro record isLeft
    split_ifs at isLeft
    · cases isLeft
    · cases isLeft
      exact ⟨rfl, rfl, rfl⟩

/-! ## Slashing -/

theorem slashInOrder_ids (infractionHeight : Int) (now : Time) (slashAmount : Int)
    (entries : List UnbondingDelegationEntry) :
    (slashInOrder infractionHeight now slashAmount entries).1.map
        UnbondingDelegationEntry.unbondingId
      = entries.map UnbondingDelegationEntry.unbondingId := by
  induction entries generalizing slashAmount with
  | nil => rfl
  | cons entry rest ih =>
    rw [slashInOrder]
    dsimp only
    split_ifs
    · rw [map_cons, map_cons, ih]
    · rw [map_cons, map_cons, ih]

/-- An unbonding delegation written with the ids of the stored one. -/
theorem idView_rewritten
    (isRecord : (idView s).unbonding ⟨ubd.delegatorAddress, ubd.validatorAddress⟩
      = some (unbondingIds ubd)) {entries : List UnbondingDelegationEntry}
    (sameIds : entries.map UnbondingDelegationEntry.unbondingId
      = ubd.entries.map UnbondingDelegationEntry.unbondingId) :
    idView (s.setUnbondingDelegation { ubd with entries := entries }) = idView s := by
  have same : unbondingIds { ubd with entries := entries } = unbondingIds ubd := by
    simp only [unbondingIds, sameIds]
  rw [idView_setUnbondingDelegation, same, ← isRecord, IdView.setUnbonding,
    Function.update_eq_self]

theorem slashUnbondingDelegation_ids
    (isRecord : (idView world.staking).unbonding ⟨ubd.delegatorAddress, ubd.validatorAddress⟩
      = some (unbondingIds ubd)) (infractionHeight slashFactor : Int) :
    SameIdsKept
      (slashUnbondingDelegation ubd infractionHeight slashFactor : StakingM φ σ Int) world := by
  simp only [slashUnbondingDelegation, staking_rules]
  constructor
  · intro _
    refine quiet_burnNotBondedTokens.post (idView_rewritten isRecord ?_) fun _ _ same => same
    rw [slashedEntries, map_map]
    rfl
  · intro _
    exact quiet_burnNotBondedTokens.post rfl fun _ _ same => same

theorem slashFollowingUnbonding_ids (shaped : (idView world.staking).Shaped) (red : Redelegation)
    (infractionHeight slashAmount : Int) :
    SameIdsKept (slashFollowingUnbonding red infractionHeight slashAmount :
      StakingM φ σ (Int × Int)) world := by
  rw [SameIdsKept, Ensures, slashFollowingUnbonding, post_bind, post_stakingState]
  cases stored : world.staking.unbondingDelegations.get?
      ⟨red.delegatorAddress, red.validatorDstAddress⟩ with
  | none => exact rfl
  | some ubd =>
    obtain ⟨isDelegator, isValidator, isRecord⟩ := unbonding_of_get? shaped stored
    rw [← isDelegator, ← isValidator] at isRecord
    simp only [staking_rules]
    exact fun _ => idView_rewritten isRecord (slashInOrder_ids _ _ _ _)

include ok in
theorem slashMovedDelegation_ids (red : Redelegation)
    (acc : RedelegationSlash) (sharesToUnbond : Int) :
    Ensures (slashMovedDelegation K red acc sharesToUnbond) world fun _ after =>
      Removed red.validatorDstAddress (idView world.staking) (idView after.staking) := by
  rw [slashMovedDelegation, Ensures, post_bind, post_stakingState]
  cases world.staking.delegations.get? ⟨red.delegatorAddress, red.validatorDstAddress⟩ with
  | none => exact .inl rfl
  | some delegation =>
    simp only [post_bind]
    apply (unbond_ids K ok red.delegatorAddress red.validatorDstAddress _).imp
    intro tokensToBurn unbonded isRemoved
    apply quiet_getValidator.post rfl
    intro dstValidator after same
    rw [post_pure, same]
    exact isRemoved

/-- Slashing a redelegation keeps the ids in order, and every other validator as it is. -/
def SlashKeeps (operator : Address) (record : Option (Address × BondStatus × List Nat))
    (world : World σ) : Prop :=
  (idView world.staking).IdsOK ∧ (idView world.staking).validators operator = record

theorem slashRedelegationEntry_ids (kept : SlashKeeps operator record world)
    (apart : operator ≠ red.validatorDstAddress) (infractionHeight slashFactor : Int)
    (acc : RedelegationSlash) (entry : RedelegationEntry) :
    Ensures (slashRedelegationEntry K red infractionHeight slashFactor acc entry) world
      fun _ => SlashKeeps operator record := by
  rw [slashRedelegationEntry, Ensures, post_bind, post_stakingState, post_ite]
  refine ⟨fun _ => kept, fun _ => ?_⟩
  apply (slashFollowingUnbonding_ids kept.1.shaped red infractionHeight _).bind
  intro following slashed same
  rw [SlashKeeps, ← same] at kept
  rw [post_ite]
  refine ⟨fun _ => kept, fun _ => ?_⟩
  apply (slashMovedDelegation_ids K kept.1 red _ _).imp
  intro _ after isRemoved
  exact ⟨isRemoved.idsOK kept.1, (isRemoved.other apart).trans kept.2⟩

theorem slashRedelegation_ids (kept : SlashKeeps operator record world)
    (apart : operator ≠ red.validatorDstAddress) (infractionHeight slashFactor : Int) :
    Ensures (slashRedelegation K red infractionHeight slashFactor) world
      fun _ => SlashKeeps operator record := by
  rw [slashRedelegation]
  have loop : Ensures (foldOver (slashRedelegationEntry K red infractionHeight slashFactor)
      red.entries ⟨0, 0, 0⟩) world fun _ => SlashKeeps operator record := by
    refine post_foldOver (fun _ _ current => SlashKeeps operator record current) ?_ _ _ world kept
    intro entry _ acc current keptCurrent
    exact slashRedelegationEntry_ids K keptCurrent apart infractionHeight slashFactor acc entry
  apply loop.bind
  intro totals slashed keptSlashed
  apply quiet_burnBondedTokens.bind rfl
  intro _ burned same
  apply quiet_burnNotBondedTokens.bind same
  intro _ after same
  rw [Ensures, post_pure, SlashKeeps, same]
  exact keptSlashed

include ok in
theorem slashPastStake_ids (operator : Address) (infractionHeight slashFactor slashAmount : Int) :
    Ensures (slashPastStake K operator infractionHeight slashFactor slashAmount) world
      fun _ => SlashKeeps operator ((idView world.staking).validators operator) := by
  rw [slashPastStake, Ensures, post_bind, post_stakingState]
  -- the unbonding delegations were read before the loop; their ids do not change in it
  apply (post_foldOver (fun remaining _ current => SameIds world current
    ∧ ∀ ubd ∈ remaining, (idView world.staking).unbonding
      ⟨ubd.delegatorAddress, ubd.validatorAddress⟩ = some (unbondingIds ubd)) ?_ _ slashAmount world
    ⟨rfl, ?_⟩).bind
  · intro afterUnbonding slashed isSlashed
    obtain ⟨same, _⟩ := isSlashed
    rw [post_bind, post_stakingState]
    have start : SlashKeeps operator ((idView world.staking).validators operator) slashed := by
      rw [SlashKeeps, same]
      exact ⟨ok, rfl⟩
    apply (post_foldOver (fun remaining _ current => SlashKeeps operator
      ((idView world.staking).validators operator) current
        ∧ ∀ red ∈ remaining, operator ≠ red.validatorDstAddress) ?_ _ afterUnbonding slashed
      ⟨start, ?_⟩).imp
    · exact fun _ _ kept => kept.1
    · intro red rest acc current kept
      apply (slashRedelegation_ids K kept.1 (kept.2 red mem_cons_self) _ _).bind
      intro _ after keptAfter
      exact ⟨keptAfter, fun other member => kept.2 other (mem_cons_of_mem red member)⟩
    · intro red member
      obtain ⟨key, isKey, stored⟩ := mem_filterMap.mp member
      have isOperator : key.fst = operator := by simpa using (mem_filter.mp isKey).2
      obtain ⟨_, _, isDestination, apart, _⟩ := redelegation_of_get? start.1.shaped stored
      rw [isDestination, ← isOperator]
      exact apart
  · intro ubd rest acc current isCurrent
    obtain ⟨same, records⟩ := isCurrent
    have isRecord := records ubd mem_cons_self
    rw [← same] at isRecord
    apply (slashUnbondingDelegation_ids isRecord _ _).bind
    intro _ after sameAfter
    exact ⟨sameAfter.trans same,
      fun other member => records other (mem_cons_of_mem ubd member)⟩
  · intro ubd member
    obtain ⟨key, _, stored⟩ := mem_filterMap.mp member
    obtain ⟨isDelegator, isValidator, isRecord⟩ := unbonding_of_get? ok.shaped stored
    rw [isDelegator, isValidator]
    exact isRecord

theorem slashValidatorTokens_ids (listed : Listed world.staking v) (tokensToBurn : Int) :
    SameIdsKept (slashValidatorTokens K v tokensToBurn) world := by
  rw [SameIdsKept, slashValidatorTokens]
  apply (quiet_whenever (quiet_ignoreError quiet_external)).bind rfl
  intro _ told same
  apply (removeValidatorTokens_ids (listed.congr same) tokensToBurn).bind
  intro reduced removed sameRemoved
  exact (quiet_ite quiet_burnBondedTokens quiet_burnNotBondedTokens).post
    (sameRemoved.trans same) fun _ _ same => same

include ok in
theorem slash_ids (consAddr : Address) (infractionHeight power slashFactor : Int) :
    IdsKept (slash K consAddr infractionHeight power slashFactor) world := by
  simp only [slash, staking_rules]
  intro _
  cases found : getValidatorByConsAddr world.staking consAddr with
  | none => exact ok
  | some validator =>
    obtain ⟨operator, stored⟩ := getValidatorByConsAddr_stored found
    obtain ⟨_, listed⟩ := listed_of_get? ok.shaped stored
    simp only [post_rules]
    intro _
    apply (quiet_ignoreError quiet_external).post rfl
    intro _ told sameTold _
    have okTold : (idView told.staking).IdsOK := sameTold ▸ ok
    have listedTold : Listed told.staking validator := listed.congr sameTold
    have past : Ensures
        (if infractionHeight < world.staking.blockHeight then
          slashPastStake K validator.operatorAddress infractionHeight slashFactor
            (Dec.truncateInt (Dec.mul (Dec.ofInt (tokensFromConsensusPower power)) slashFactor))
        else pure
          (Dec.truncateInt (Dec.mul (Dec.ofInt (tokensFromConsensusPower power)) slashFactor)))
        told fun _ => SlashKeeps validator.operatorAddress (some (validatorIds validator)) := by
      rw [Ensures, post_ite]
      refine ⟨fun _ => ?_, fun _ => ⟨okTold, listedTold⟩⟩
      have spec := slashPastStake_ids K okTold validator.operatorAddress infractionHeight
        slashFactor
        (Dec.truncateInt (Dec.mul (Dec.ofInt (tokensFromConsensusPower power)) slashFactor))
      rw [show (idView told.staking).validators validator.operatorAddress
        = some (validatorIds validator) from listedTold] at spec
      exact spec
    apply past.imp
    intro remaining slashed kept
    refine ⟨fun _ => ?_, fun _ => kept.1⟩
    exact (slashValidatorTokens_ids K (show Listed slashed.staking validator from kept.2) _).ids
      kept.1

theorem mustGetValidatorByConsAddr_ids (shaped : (idView world.staking).Shaped)
    (consAddr : Address) :
    Ensures (mustGetValidatorByConsAddr consAddr : StakingM φ σ Validator) world
      fun found after => after = world ∧ Listed world.staking found := by
  simp only [mustGetValidatorByConsAddr, staking_rules]
  intro validator found
  obtain ⟨operator, stored⟩ := getValidatorByConsAddr_stored found
  exact (listed_of_get? shaped stored).2

include ok in
theorem jail_ids (consAddr : Address) :
    IdsKept (jail consAddr : StakingM φ σ Unit) world := by
  apply (mustGetValidatorByConsAddr_ids ok.shaped consAddr).bind
  intro validator looked isFound
  obtain ⟨rfl, listed⟩ := isFound
  exact (jailValidator_ids listed).ids ok

include ok in
theorem unjail_ids (consAddr : Address) :
    IdsKept (unjail consAddr : StakingM φ σ Unit) world := by
  apply (mustGetValidatorByConsAddr_ids ok.shaped consAddr).bind
  intro validator looked isFound
  obtain ⟨rfl, listed⟩ := isFound
  exact (unjailValidator_ids listed).ids ok

end Keeper

end AtomOneSdk.Staking
