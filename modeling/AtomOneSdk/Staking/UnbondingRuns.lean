import AtomOneSdk.Staking.Properties
import AtomOneSdk.Staking.UnbondingIndex

/-!
Contract: unbonding ids index the pending unbondings.

Owns: what the transitions of validators, the messages and the end of a block do to unbonding
ids; and runs, in which every index entry leads to the record that lists its id.

Does **not** own: what unbondings are worth.
-/

namespace AtomOneSdk.Staking

open Lib Lib.Action

section Keeper

variable {φ σ : Type} (K : Keepers φ σ) {world : World σ} {v : Validator}

/-! ## Transitions of validators -/

theorem Listed.ids {s : StakingState} (listed : Listed s v) :
    (idView s).idsOf (.validatorUnbonding v.operatorAddress) = v.unbondingIds := by
  have isRecord : (idView s).validators v.operatorAddress = some (validatorIds v) := listed
  rw [IdView.idsOf, isRecord]
  rfl

variable (ok : (idView world.staking).IdsOK)

include ok

theorem bondValidator_ids (listed : Listed world.staking v) :
    IdsKept (bondValidator K v) world := by
  simp only [bondValidator, staking_rules]
  apply quiet_external.post rfl
  intro _ after same
  rw [same]
  have written := idView_setValidator (world.staking.deleteValidatorByPowerIndex v)
    (v.updateStatus .bonded)
  have okWritten : ((idView world.staking).setValidator v.operatorAddress
      (some (validatorIds (v.updateStatus .bonded)))).IdsOK := by
    apply ok.setValidator
    · rw [listed.ids]
      rfl
    · intro record isRecord
      cases isRecord
      exact ⟨rfl, fun isUnbonded => by cases isUnbonded⟩
  exact written ▸ okWritten

omit ok in
/-- The record of a validator that starts to unbond, under the id just given out. -/
theorem idView_beginUnbondingRecord (s : StakingState) (v : Validator) :
    let begun := (s.deleteValidatorByPowerIndex v).incrementUnbondingId
    idView (begun.setValidator (beginUnbondingRecord begun v))
      = { (idView s).setValidator v.operatorAddress (some (v.operatorAddress, .unbonding,
          v.unbondingIds ++ [(idView s).last + 1])) with last := (idView s).last + 1 } :=
  idView_setValidator (s.deleteValidatorByPowerIndex v).incrementUnbondingId _

theorem beginUnbondingValidator_ids (listed : Listed world.staking v) :
    IdsKept (beginUnbondingValidator K v) world := by
  simp only [beginUnbondingValidator, staking_rules]
  intro _
  apply quiet_external.post rfl
  intro _ told sameTold
  apply quiet_external.post rfl
  intro _ after sameAfter
  rw [sameAfter, idView_setByUnbondingId, sameTold]
  have okBegun := @IdView.IdsOK.beginUnbonding (idView world.staking) v.operatorAddress ok
    .unbonding (by simp)
  rw [listed.ids] at okBegun
  have isView := idView_beginUnbondingRecord world.staking v
  exact Eq.mpr (congrArg (fun view : IdView => IdView.IdsOK { view with
    index := view.index.set view.last (.validatorUnbonding v.operatorAddress) }) isView) okBegun

theorem enterBonded_ids (listed : Listed world.staking v) :
    IdsKept (enterBonded K v) world := by
  unfold enterBonded
  split
  · simp only [unbondedToBonded, post_rules]
    exact fun _ => bondValidator_ids K ok listed
  · simp only [unbondingToBonded, post_rules]
    exact fun _ => bondValidator_ids K ok listed
  · exact ok

omit ok in
theorem bondedSetLoop_ids (rotating : List Address) :
    ∀ (remaining : Nat) (addresses : List Address) (acc : ApplyAcc) (world : World σ),
      (idView world.staking).IdsOK →
      IdsKept (bondedSetLoop K rotating remaining addresses acc) world
  | 0, _, _, _, ok => ok
  | _ + 1, [], _, _, ok => ok
  | remaining + 1, addr :: rest, acc, world, ok => by
    simp only [bondedSetLoop, staking_rules, post_ite]
    intro validator stored _
    refine ⟨fun _ => ok, fun _ => ?_⟩
    apply (enterBonded_ids K ok (listed_of_get? ok.shaped stored).2).imp
    intro entered bonded okBonded
    apply quiet_recordPower.post rfl
    intro next recorded same
    exact bondedSetLoop_ids rotating remaining rest next recorded (same ▸ okBonded)

theorem unbondNoLongerBonded_ids (acc : ApplyAcc) (addr : Address) :
    IdsKept (unbondNoLongerBonded K acc addr) world := by
  simp only [unbondNoLongerBonded, staking_rules, bondedToUnbonding]
  intro validator stored _
  exact beginUnbondingValidator_ids K ok (listed_of_get? ok.shaped stored).2

theorem applyRotation_ids (acc : ApplyAcc) (history : ConsPubKeyRotationHistory) :
    IdsKept (applyRotation K acc history) world := by
  simp only [applyRotation, staking_rules, getValidator, post_ite]
  intro validator stored
  refine ⟨fun _ => ok, fun _ => ?_⟩
  exact (updateToNewPubkey_ids K (listed_of_get? ok.shaped stored).2 _ _ _).ids ok

theorem applyAndReturnValidatorSetUpdates_ids :
    IdsKept (applyAndReturnValidatorSetUpdates K) world := by
  rw [IdsKept, Ensures, applyAndReturnValidatorSetUpdates, post_bind, post_stakingState]
  apply (bondedSetLoop_ids K _ _ _ _ world ok).bind
  intro bonded entered okEntered
  apply (post_foldOver (fun _ _ current => (idView current.staking).IdsOK) ?_ _ bonded entered
    okEntered).bind
  · intro unbonded left okLeft
    apply (post_foldOver (fun _ _ current => (idView current.staking).IdsOK) ?_ _ unbonded left
      okLeft).bind
    · intro final rotated okRotated
      rw [post_bind, post_modifyStaking]
      apply quiet_settlePools.bind rfl
      intro _ settled same
      have okSettled : (idView settled.staking).IdsOK := same ▸ okRotated
      simp only [staking_rules]
      exact ⟨fun _ => okSettled, fun _ => okSettled⟩
    · intro history _ acc current okCurrent
      exact applyRotation_ids K okCurrent acc history
  · intro addr _ acc current okCurrent
    exact unbondNoLongerBonded_ids K okCurrent acc addr

/-- A validator whose unbonding is over gives up its ids, removed or not. -/
theorem unbondMatureValidator_ids (addr : Address) :
    IdsKept (unbondMatureValidator K addr) world := by
  simp only [unbondMatureValidator, staking_rules, unbondingToUnbonded, completeUnbondingValidator,
    post_ite]
  intro val stored _
  refine ⟨fun _ => ?_, fun _ => ok⟩
  have listed := (listed_of_get? ok.shaped stored).2
  have isView : idView ((val.unbondingIds.foldl StakingState.deleteUnbondingIndex
        world.staking).setValidator (val.updateStatus .unbonded))
      = { (idView world.staking).setValidator val.operatorAddress
          (some (validatorIds (val.updateStatus .unbonded))) with
        index := ((idView world.staking).idsOf (.validatorUnbonding val.operatorAddress)).foldl
          Store.delete (idView world.staking).index } := by
    rw [idView_setValidator, idView_foldl_deleteUnbondingIndex, listed.ids]
    rfl
  refine fun _ => ⟨fun _ => ?_, fun _ => ?_⟩
  · -- the record that is removed is the unbonded one just written
    apply (removeValidator_stored_ids K Store.get?_set_self).imp
    intro _ after isRemoved
    have isLast := isRemoved.1
    dsimp only at isLast
    rw [isView] at isLast
    have isLast := isLast.trans (IdView.setValidator_setValidator val.operatorAddress _ none _)
    show (idView after.staking).IdsOK
    rw [isLast]
    apply ok.endUnbonding
    simp
  · have isLast := idView_setValidator ((val.unbondingIds.foldl StakingState.deleteUnbondingIndex
      world.staking).setValidator (val.updateStatus .unbonded))
      { val.updateStatus .unbonded with unbondingIds := [] }
    rw [isView] at isLast
    have isLast := isLast.trans (IdView.setValidator_setValidator val.operatorAddress _ _ _)
    refine Eq.mpr (congrArg IdView.IdsOK isLast) (ok.endUnbonding ?_)
    intro record isRecord
    cases isRecord
    exact ⟨rfl, rfl⟩

theorem unbondAllMatureValidators_ids :
    IdsKept (unbondAllMatureValidators K) world := by
  rw [IdsKept, Ensures, unbondAllMatureValidators, post_bind, post_stakingState]
  refine post_forEach (fun _ current => (idView current.staking).IdsOK) ?_ _ world ok
  intro addr _ current okCurrent
  exact unbondMatureValidator_ids K okCurrent addr

/-! ## Messages -/

theorem createValidator_ids (msg : MsgCreateValidator) :
    IdsKept (createValidator K msg) world := by
  rw [IdsKept, createValidator]
  apply quiet_validate.bind rfl
  intro _ valid same
  apply quiet_checkCommissionRange.bind same
  intro _ ranged same
  rw [Ensures, post_bind, post_stakingState, post_bind, post_failIf]
  refine ⟨fun _ => trivial, fun isAbsent => ?_⟩
  have absent : ranged.staking.validators.get? msg.validatorAddress = none := by
    simpa using isAbsent
  have okRanged : (idView ranged.staking).IdsOK := same ▸ ok
  apply quiet_checkConsKeyAlreadyUsed.bind rfl
  intro _ unused same
  apply quiet_checkBondDenom.bind same
  intro _ denominated same
  apply quiet_failIfSome.bind same
  intro _ described same
  apply quiet_checkPubKeyType.bind same
  intro _ checked same
  simp only [post_bind, post_modifyStaking]
  apply quiet_external.post rfl
  intro _ told sameTold
  have isView : idView told.staking = (idView ranged.staking).setValidator msg.validatorAddress
      (some (msg.validatorAddress, .unbonded, [])) := by
    rw [sameTold, ← same]
    exact idView_setValidator checked.staking (createdValidator msg ranged.staking.blockTime)
  have okTold : (idView told.staking).IdsOK := by
    rw [isView]
    apply okRanged.setValidator
    · simp [IdView.idsOf, idView, absent]
    · intro record isRecord
      cases isRecord
      exact ⟨rfl, fun _ => rfl⟩
  have listed : Listed told.staking (createdValidator msg ranged.staking.blockTime) := by
    rw [Listed, isView]
    exact Function.update_self _ _ _
  exact (delegate_ids K listed _ _ _ _).ids okTold

omit ok in
theorem quiet_editedCommission {valAddr : Address} {rate : Option Int} :
    Quiet (editedCommission K v valAddr rate) := by
  cases rate with
  | none => exact quiet_pure
  | some newRate =>
    refine quiet_bind ?_ fun _ => quiet_bind quiet_external fun _ => quiet_pure
    refine quiet_read fun s => ?_
    cases v.commission.validateNewRate newRate s.blockTime with
    | some reason => exact quiet_fail
    | none => exact quiet_bind quiet_failIf fun _ => quiet_pure

omit ok in
theorem quiet_editedMinSelfDelegation {minimum : Option Int} :
    Quiet (editedMinSelfDelegation v minimum : StakingM φ σ Int) := by
  cases minimum with
  | none => exact quiet_pure
  | some newMinimum =>
    exact quiet_bind quiet_failIf fun _ => quiet_bind quiet_failIf fun _ =>
      quiet_pure

omit ok in
theorem quiet_optionalRange {rate : Option Int} :
    Quiet (match rate with
      | some rate => checkCommissionRange rate
      | none => pure () : StakingM φ σ Unit) := by
  cases rate with
  | none => exact quiet_pure
  | some rate => exact quiet_checkCommissionRange

theorem editValidator_ids (msg : MsgEditValidator) :
    IdsKept (editValidator K msg) world := by
  rw [IdsKept, editValidator]
  apply quiet_failIf.bind rfl
  intro _ named same
  apply quiet_failIf.bind same
  intro _ bounded same
  apply quiet_optionalRange.bind same
  intro _ ranged same
  simp only [getValidator, staking_rules]
  intro validator stored
  have okRanged : (idView ranged.staking).IdsOK := same ▸ ok
  have listed := (listed_of_get? okRanged.shaped stored).2
  apply quiet_failIfSome.post rfl
  intro _ described same
  apply (quiet_editedCommission K).post same
  intro commission priced same
  apply quiet_editedMinSelfDelegation.post same
  intro minimum bounded same
  have written : idView (bounded.staking.setValidator { validator with
      description := validator.description.updateDescription msg.description
      commission := commission
      minSelfDelegation := minimum }) = idView bounded.staking :=
    (listed.congr same).setValidator rfl
  rw [written, same]
  exact okRanged

theorem msgDelegate_ids (msg : MsgDelegate) :
    IdsKept (msgDelegate K msg) world := by
  rw [IdsKept, msgDelegate]
  apply quiet_checkAmount.bind rfl
  intro _ checked same
  rw [← same] at ok
  simp only [getValidator, staking_rules]
  intro validator stored
  have listed := (listed_of_get? ok.shaped stored).2
  apply quiet_checkBondDenom.post rfl
  intro _ denominated same
  exact (delegate_ids K (listed.congr same) _ _ _ _).ids (same ▸ ok)

theorem msgBeginRedelegate_ids (msg : MsgBeginRedelegate) :
    IdsKept (msgBeginRedelegate K msg) world := by
  rw [IdsKept, msgBeginRedelegate]
  apply quiet_checkAmount.bind rfl
  intro _ checked same
  apply quiet_validateUnbondAmount.bind same
  intro shares converted same
  apply quiet_checkBondDenom.bind same
  intro _ denominated same
  exact beginRedelegation_ids K (same ▸ ok) _ _ _ _

theorem msgUndelegate_ids (msg : MsgUndelegate) :
    IdsKept (msgUndelegate K msg) world := by
  rw [IdsKept, msgUndelegate]
  apply quiet_checkAmount.bind rfl
  intro _ checked same
  apply quiet_validateUnbondAmount.bind same
  intro shares converted same
  apply quiet_checkBondDenom.bind same
  intro _ denominated same
  rw [← same] at ok
  apply (undelegate_ids K ok _ _ shares).bind
  intro undelegated left okLeft
  exact quiet_crashIf.ids okLeft

def cancelledEntry (s : StakingState) (msg : MsgCancelUnbondingDelegation) :
    Option UnbondingDelegationEntry := do
  let ubd ← s.unbondingDelegations.get? ⟨msg.delegatorAddress, msg.validatorAddress⟩
  let (_, entry, _) ← splitAtHeight msg.creationHeight ubd.entries
  pure entry

/-- A cancellation that leaves a part of the entry leaves its id. -/
theorem cancelUnbondingDelegation_ids (msg : MsgCancelUnbondingDelegation)
    (inPart : ∀ entry ∈ cancelledEntry world.staking msg, entry.balance ≠ msg.amount.amount) :
    IdsKept (cancelUnbondingDelegation K msg) world := by
  simp only [cancelUnbondingDelegation, checkAmount, checkBondDenom, getValidator, staking_rules]
  intro _ _ _ validator stored _ _ ubd storedUbd found isFound _ _
  have listed := (listed_of_get? ok.shaped stored).2
  obtain ⟨before, entry, after⟩ := found
  apply (delegate_ids K listed _ _ _ _).imp
  intro _ delegated same
  have isCancelled : entry ∈ cancelledEntry world.staking msg := by
    simp [cancelledEntry, storedUbd, isFound]
  have left : entry.balance - msg.amount.amount ≠ 0 := sub_ne_zero.mpr (inPart entry isCancelled)
  obtain ⟨isDelegator, isValidator, isRecord⟩ := unbonding_of_get? ok.shaped storedUbd
  have sameIds : (before ++ reducedEntry entry msg.amount.amount ++ after).map
        UnbondingDelegationEntry.unbondingId
      = ubd.entries.map UnbondingDelegationEntry.unbondingId := by
    rw [splitAtHeight_eq isFound, reducedEntry, if_neg left]
    simp
  have someLeft : before ++ reducedEntry entry msg.amount.amount ++ after ≠ [] := by
    rw [reducedEntry, if_neg left]
    simp
  have isIds : unbondingIds
      { ubd with entries := before ++ reducedEntry entry msg.amount.amount ++ after }
      = unbondingIds ubd := by
    simp only [unbondingIds, sameIds]
  rw [idView_storeUnbondingDelegation, if_neg someLeft, isIds, isDelegator, isValidator, same,
    ← isRecord, IdView.setUnbonding, Function.update_eq_self]
  exact ok

theorem updateValidatorCommissionsForNewRange_ids (minRate maxRate : Int) :
    SameIdsKept (updateValidatorCommissionsForNewRange minRate maxRate : StakingM φ σ Unit)
      world := by
  rw [SameIdsKept, Ensures, updateValidatorCommissionsForNewRange, post_bind, post_stakingState]
  -- the records were read before the loop; none of them changes its ids in it
  apply (post_forEach (fun remaining current => SameIds world current
    ∧ ∀ v ∈ remaining, Listed world.staking v) ?_ _ world ⟨rfl, ?_⟩).imp
  · exact fun _ _ kept => kept.1
  · intro v rest current kept
    have listed := (kept.2 v List.mem_cons_self).congr kept.1
    have written : idView (current.staking.setValidator (clampCommission minRate maxRate v))
        = idView current.staking := listed.setValidator rfl
    exact ⟨written.trans kept.1,
      fun other member => kept.2 other (List.mem_cons_of_mem v member)⟩
  · intro v member
    obtain ⟨entry, isEntry, rfl⟩ := List.mem_map.mp member
    exact (listed_of_get? ok.shaped (Store.mem_entries.mp isEntry)).2

theorem updateParams_ids (params : Params) :
    IdsKept (updateParams params : StakingM φ σ Unit) world := by
  rw [IdsKept, updateParams]
  apply quiet_failIfSome.bind rfl
  intro _ valid same
  rw [Ensures, post_bind, post_modifyStaking]
  have okChanged : (idView ({ valid with
      staking := { valid.staking with params := params } } : World σ).staking).IdsOK := same ▸ ok
  exact (updateValidatorCommissionsForNewRange_ids okChanged _ _).ids okChanged

/-! ## Steps -/

/-- An operation as the chain runs it: one that fails changes nothing, except that a
completion that fails at the end of a block is skipped and keeps what it wrote. -/
def Op.perform (op : Op) (world : World σ) : World σ :=
  match op with
  | .completeUnbonding delegator validator =>
    transact (ignoreError (Staking.completeUnbonding K delegator validator)) world
  | op => transact (op.exec K) world

/-- The pool of unbonding tokens holds, and the bank pays, the balances of entries one after
the other. -/
def paysOut (delAddr : Address) : List UnbondingDelegationEntry → World σ → Bool
  | [], _ => true
  | entry :: rest, world =>
    let s := world.staking.deleteUnbondingIndex entry.unbondingId
    let coin : Coin := ⟨s.params.bondDenom, entry.balance⟩
    if entry.balance = 0 then paysOut delAddr rest ⟨s, world.ext⟩
    else if entry.balance < 0 then false
    else
      match subPool s.notBondedPool coin with
      | none => false
      | some pool =>
        match K.undelegateCoins { s with notBondedPool := pool } delAddr coin world.ext with
        | .ok _ paid => paysOut delAddr rest ⟨{ s with notBondedPool := pool }, paid⟩
        | .error _ _ => false

/-- The operation cancels no unbonding entry in full, and the mature entries of an unbonding
delegation that it completes can be paid. -/
def Op.KeepsIds (world : World σ) : Op → Prop
  | .cancelUnbondingDelegation msg =>
    ∀ entry ∈ cancelledEntry world.staking msg, entry.balance ≠ msg.amount.amount
  | .completeUnbonding delegator validator =>
    ∀ ubd ∈ world.staking.unbondingDelegations.get? ⟨delegator, validator⟩,
      paysOut K ubd.delegatorAddress (ubd.entries.filter fun entry =>
        entry.isMature world.staking.blockTime ∧ ¬ entry.onHold) world = true
  | _ => True

instance (world : World σ) : (op : Op) → Decidable (op.KeepsIds K world)
  | .cancelUnbondingDelegation msg => inferInstanceAs (Decidable
    (∀ entry ∈ cancelledEntry world.staking msg, entry.balance ≠ msg.amount.amount))
  | .completeUnbonding delegator validator => inferInstanceAs (Decidable
    (∀ ubd ∈ world.staking.unbondingDelegations.get? ⟨delegator, validator⟩, _ = true))
  | .createValidator _ | .editValidator _ | .delegate _ | .beginRedelegate _ | .undelegate _
  | .rotateConsPubKey _ | .updateParams _ | .slash .. | .jail _ | .unjail _
  | .completeRedelegation .. | .applyAndReturnValidatorSetUpdates | .unbondAllMatureValidators
  | .purgeAllMaturedConsKeyRotatedKeys | .beginBlock .. => isTrue trivial

theorem Op.exec_ids (op : Op) (keeps : op.KeepsIds K world) :
    IdsKept (op.exec K) world := by
  cases op with
  | createValidator msg => exact createValidator_ids K ok msg
  | editValidator msg => exact editValidator_ids K ok msg
  | delegate msg => exact msgDelegate_ids K ok msg
  | beginRedelegate msg => exact msgBeginRedelegate_ids K ok msg
  | undelegate msg => exact msgUndelegate_ids K ok msg
  | cancelUnbondingDelegation msg => exact cancelUnbondingDelegation_ids K ok msg keeps
  | rotateConsPubKey msg => exact quiet_rotateConsPubKey.ids ok
  | updateParams params => exact updateParams_ids ok params
  | slash consAddr infractionHeight power slashFactor =>
    exact post_bind.mpr (slash_ids K ok consAddr infractionHeight power slashFactor)
  | jail consAddr => exact jail_ids ok consAddr
  | unjail consAddr => exact unjail_ids ok consAddr
  | completeUnbonding delegator validator => exact completeUnbonding_ids K ok delegator validator
  | completeRedelegation delegator source destination =>
    exact completeRedelegation_ids ok delegator source destination
  | applyAndReturnValidatorSetUpdates =>
    exact post_bind.mpr (applyAndReturnValidatorSetUpdates_ids K ok)
  | unbondAllMatureValidators => exact unbondAllMatureValidators_ids K ok
  | purgeAllMaturedConsKeyRotatedKeys =>
    exact quiet_stakingState.bind rfl fun _ _ same =>
      quiet_purgeAllMaturedConsKeyRotatedKeys.ids (same ▸ ok)
  | beginBlock height time => exact quiet_beginBlock.ids ok

omit ok in
theorem payUnbondingEntries_returns {delAddr : Address} (entries : List UnbondingDelegationEntry) :
    ∀ {world : World σ}, paysOut K delAddr entries world = true →
      Post (forEach (payUnbondingEntry K delAddr) entries) world (fun _ _ => True)
        (fun _ _ => False) := by
  induction entries with
  | nil => exact fun _ => trivial
  | cons entry rest ih =>
    intro world pays
    simp only [paysOut] at pays
    simp only [forEach, payUnbondingEntry, newCoinCheck, subNotBondedPool, staking_rules]
    split_ifs at pays with nothing negative
    · exact ⟨fun some_ => absurd nothing some_, fun _ => ih pays⟩
    · split at pays
      · cases pays
      next pool isPool =>
        split at pays
        next value paid ran =>
          refine ⟨fun _ => ⟨negative, fun _ => ⟨fun found isFound => ?_, fun missing => ?_⟩⟩,
            absurd nothing⟩
          · obtain rfl : pool = found := Option.some.inj (isPool.symm.trans isFound)
            rw [post_external, Post, ran]
            exact ih pays
          · cases isPool.symm.trans missing
        next => cases pays

/-- A completion that pays out, or finds nothing to complete, keeps the ids in order. -/
theorem completeUnbonding_skipped_ids (delegator validator : Address)
    (keeps : (Op.completeUnbonding delegator validator).KeepsIds K world) :
    IdsKept (ignoreError (completeUnbonding K delegator validator)) world := by
  rw [IdsKept, Ensures, post_ignoreError]
  cases stored : world.staking.unbondingDelegations.get? ⟨delegator, validator⟩ with
  | none =>
    simp only [completeUnbonding, staking_rules, stored]
    exact ⟨by simp, fun _ => ok⟩
  | some ubd =>
    have returns : Post (completeUnbonding K delegator validator) world (fun _ _ => True)
        (fun _ _ => False) := by
      simp only [completeUnbonding, staking_rules, stored]
      refine ⟨fun found isFound => ?_, by simp⟩
      obtain rfl := Option.some.inj isFound
      exact payUnbondingEntries_returns K _ (keeps ubd stored)
    obtain ⟨_, next, ran, _⟩ := returns.returns
    have okNext := (completeUnbonding_ids K ok delegator validator).of_ok ran
    rw [Post, ran]
    exact okNext

theorem Op.perform_ids (op : Op) (keeps : op.KeepsIds K world) :
    (idView (op.perform K world).staking).IdsOK := by
  have transacted : ∀ {action : StakingM φ σ Unit}, IdsKept action world →
      (idView (transact action world).staking).IdsOK := by
    intro action post
    exact @transact_of_post _ _ _ action world (fun after => (idView after.staking).IdsOK) _ ok post
  have other := transacted (op.exec_ids K ok keeps)
  cases op with
  | completeUnbonding delegator validator =>
    exact transacted (completeUnbonding_skipped_ids K ok delegator validator keeps)
  | _ => exact other

/-! ## Runs -/

omit ok

/-- The worlds that runs reach in which every operation keeps the ids in order. -/
inductive IdsReachable (start : World σ) : World σ → Prop
  | start : IdsReachable start start
  | step {world : World σ} (op : Op) (reached : IdsReachable start world)
    (keeps : op.KeepsIds K world) : IdsReachable start (op.perform K world)

theorem idsOK_empty (params : Params) (blockHeight : Int) (blockTime : Time) :
    (idView (StakingState.empty params blockHeight blockTime)).IdsOK := by
  have nothing : ∀ op,
      (idView (StakingState.empty params blockHeight blockTime)).idsOf op = [] := by
    intro op
    cases op <;> rfl
  refine ⟨⟨?_, ?_, ?_⟩, ⟨nofun, nofun, nofun, nofun⟩⟩
  · intro id op
    rw [nothing]
    exact ⟨nofun, nofun⟩
  · intro op
    rw [nothing]
    exact List.nodup_nil
  · intro op id member
    rw [nothing] at member
    cases member

theorem IdsReachable.idsOK {params : Params} {blockHeight : Int} {blockTime : Time} {ext : σ}
    (reached : IdsReachable K ⟨StakingState.empty params blockHeight blockTime, ext⟩ world) :
    (idView world.staking).IdsOK := by
  induction reached with
  | start => exact idsOK_empty params blockHeight blockTime
  | step op _ keeps ih => exact op.perform_ids K ih keeps

end Keeper

/-- The ids a record of the store lists. -/
def StakingState.pendingIds (s : StakingState) : UnbondingOp → List Nat
  | .unbondingDelegation delegator validator =>
    match s.unbondingDelegations.get? ⟨delegator, validator⟩ with
    | some ubd => ubd.entries.map UnbondingDelegationEntry.unbondingId
    | none => []
  | .redelegation delegator source destination =>
    match s.redelegations.get? ⟨delegator, ⟨source, destination⟩⟩ with
    | some red => red.entries.map RedelegationEntry.unbondingId
    | none => []
  | .validatorUnbonding validator =>
    match s.validators.get? validator with
    | some v => v.unbondingIds
    | none => []

theorem idsOf_idView (s : StakingState) : (idView s).idsOf = s.pendingIds := by
  funext op
  cases op with
  | unbondingDelegation delegator validator =>
    cases stored : s.unbondingDelegations.get? ⟨delegator, validator⟩ with
    | none => simp [IdView.idsOf, StakingState.pendingIds, idView, stored]
    | some ubd => simp [IdView.idsOf, StakingState.pendingIds, idView, stored, unbondingIds]
  | redelegation delegator source destination =>
    cases stored : s.redelegations.get? ⟨delegator, ⟨source, destination⟩⟩ with
    | none => simp [IdView.idsOf, StakingState.pendingIds, idView, stored]
    | some red => simp [IdView.idsOf, StakingState.pendingIds, idView, stored, redelegationIds]
  | validatorUnbonding validator =>
    cases stored : s.validators.get? validator with
    | none => simp [IdView.idsOf, StakingState.pendingIds, idView, stored]
    | some v => simp [IdView.idsOf, StakingState.pendingIds, idView, stored, validatorIds]

section Runs

variable {φ σ : Type} (K : Keepers φ σ)

/-- In every run that cancels no entry in full and pays out what it completes, the index leads
from an id exactly to the record that lists it, and no id is listed twice. -/
theorem unbonding_ids_index_pending (params : Params) (blockHeight : Int) (blockTime : Time)
    (ext : σ) {world : World σ}
    (reached : IdsReachable K ⟨StakingState.empty params blockHeight blockTime, ext⟩ world) :
    (∀ id op, world.staking.unbondingIndex.get? id = some op ↔ id ∈ world.staking.pendingIds op)
      ∧ (∀ id first second, id ∈ world.staking.pendingIds first →
          id ∈ world.staking.pendingIds second → first = second)
      ∧ ∀ op, (world.staking.pendingIds op).Nodup := by
  have numbered := (reached.idsOK K).numbered
  rw [idsOf_idView] at numbered
  exact ⟨numbered.indexed, fun _ _ _ inFirst inSecond => numbered.indexed.unique inFirst inSecond,
    numbered.distinct⟩

end Runs

/-- The operator takes one token out, at height 1. -/
def sampleUndelegation : List Op :=
  sampleOps ++ [.undelegate ⟨[1], [1], ⟨[117], 1000000⟩⟩]

/-- A cancellation of some of the token that is unbonding. -/
def sampleCancellation (amount : Int) : Op :=
  .cancelUnbondingDelegation ⟨[1], [1], ⟨[117], amount⟩, 1⟩

/-- The world after operations from the empty state. -/
def sampleAfter (ops : List Op) : World Unit :=
  ops.foldl (fun world op => op.perform (Keepers.accepting PubKey.bytes) world)
    ⟨StakingState.empty sampleParams 1 0, ()⟩

/-- A cancellation in full leaves the id of the entry in the index, and no record lists it. -/
theorem cancelled_id_stays_indexed :
    let s := (sampleAfter (sampleUndelegation ++ [sampleCancellation 1000000])).staking
    s.unbondingIndex.get? 1 = some (.unbondingDelegation [1] [1])
      ∧ s.pendingIds (.unbondingDelegation [1] [1]) = []
      ∧ s.unbondingDelegations.get? ⟨[1], [1]⟩ = none := by
  decide +kernel

/-- A cancellation in part leaves both the entry and its id. -/
theorem partly_cancelled_id_stays_listed :
    let s := (sampleAfter (sampleUndelegation ++ [sampleCancellation 400000])).staking
    s.unbondingIndex.get? 1 = some (.unbondingDelegation [1] [1])
      ∧ 1 ∈ s.pendingIds (.unbondingDelegation [1] [1]) := by
  intro s
  have isIndexed : s.unbondingIndex.get? 1 = some (.unbondingDelegation [1] [1]) := by
    decide +kernel
  have empty : IdsReachable (Keepers.accepting PubKey.bytes)
      (⟨StakingState.empty sampleParams 1 0, ()⟩ : World Unit) (sampleAfter []) := .start
  have created := empty.step (sampleOps.get ⟨0, by decide⟩) (by decide +kernel)
  have updated := created.step .applyAndReturnValidatorSetUpdates (by decide +kernel)
  have undelegated := updated.step (.undelegate ⟨[1], [1], ⟨[117], 1000000⟩⟩) (by decide +kernel)
  have cancelled := undelegated.step (sampleCancellation 400000) (by decide +kernel)
  have spec := unbonding_ids_index_pending (Keepers.accepting PubKey.bytes) sampleParams 1 0 ()
    cancelled
  exact ⟨isIndexed, (spec.1 1 (.unbondingDelegation [1] [1])).mp isIndexed⟩

end AtomOneSdk.Staking
