import AtomOneSdk.Staking.UnbondingSpec
import AtomOneSdk.Staking.ValidatorSet

/-!
Contract: specification of `ApplyAndReturnValidatorSetUpdates`.

Owns: that the three loops keep the staking invariant and every external invariant
that meets the hook contract, that the pools are settled by one transfer, that last
powers are exact afterwards, and that the returned updates turn the set CometBFT
holds into the bonded validators under their current keys.

Does **not** own: runs of blocks.
-/

namespace AtomOneSdk.Staking

open Lib Lib.Action Store List

section Specs

variable {φ σ : Type} {K : Keepers φ σ} {P : Phases σ} {allowed : Fault φ → Prop}
  {tracked : Prop} {owed : Bool → Int} {world : World σ}

/-! ## Changes of status -/

variable {s s₀ : StakingState} {addr : Address} {v : Validator} {moved power : Int}
  {rotating : List Address} {set : CometSet} {acc : ApplyAcc} {rotation : ConsPubKeyRotationHistory}

/-- A record with a new status is filed anew; its tokens change pools on paper. -/
theorem Core.restatus {consAddress : PubKey → Address} {pending : Address → Int}
    (core : Core consAddress tracked pending owed s) (v' : Validator)
    (stored : s.validators.get? addr = some v) (newKey : v'.operatorAddress = addr)
    (samePubkey : v'.consensusPubkey = v.consensusPubkey) (sameTokens : v'.tokens = v.tokens)
    (sameShares : v'.delegatorShares = v.delegatorShares) :
    Core consAddress tracked pending
      (shift (shift owed v.isBonded v.tokens) v'.isBonded (-v.tokens)) (s.reindexed v v') := by
  have oldKey := core.shares.validatorKey stored
  subst newKey
  exact
    { shares := core.shares.setValidator_same stored rfl sameTokens sameShares
      index := core.index.reindex stored oldKey rfl
      cons := core.cons.setValidator_same stored samePubkey
      unbondings := core.unbondings
      redelegations := core.redelegations
      pools := by
        intro tracks
        have moved :=
          @PoolsOK.setValidator _ _ _ _ (core.pools tracks) v'.operatorAddress v v' stored
        rwa [sameTokens] at moved }

theorem SameStake.reindexed (v' : Validator)
    (stored : s.validators.get? addr = some v) (newKey : v'.operatorAddress = addr)
    (sameTokens : v'.tokens = v.tokens) (sameShares : v'.delegatorShares = v.delegatorShares) :
    SameStake s (s.reindexed v v') :=
  ⟨stakeAt_setValidator_same stored newKey sameTokens sameShares, rfl, rfl, rfl⟩

variable (contract : HookContract K P allowed)
  (core : Core K.consAddress tracked (fun _ => 0) owed world.staking)
  (idle : P.idle world.staking world.ext)
  (stored : world.staking.validators.get? v.operatorAddress = some v)

include contract core idle stored

theorem bondValidator_spec :
    Post (bondValidator K v) world
      (fun bonded world' => bonded = v.updateStatus .bonded
        ∧ world'.staking = (world.staking.reindexed v bonded).deleteValidatorQueue bonded
        ∧ P.idle world'.staking world'.ext) (StopsOK tracked allowed) := by
  simp only [bondValidator, staking_rules]
  set s' := (world.staking.reindexed v (v.updateStatus .bonded)).deleteValidatorQueue
    (v.updateStatus .bonded) with s'Def
  have shares : SharesSettled s' :=
    (core.restatus (v.updateStatus .bonded) stored rfl rfl rfl rfl).shares
  have same : SameStake world.staking s' :=
    ⟨(SameStake.reindexed (v.updateStatus .bonded) stored rfl rfl rfl).stakes, rfl, rfl, rfl⟩
  refine (external_spec (contract.bonded shares (contract.idle_stable same idle))).imp ?_
  rintro _ world' ⟨sameStaking, idle'⟩
  exact ⟨sameStaking, sameStaking ▸ idle'⟩

theorem beginUnbondingValidator_spec :
    Post (beginUnbondingValidator K v) world
      (fun unbonding world' => ∃ id : Nat,
        unbonding = beginUnbondingRecord world.staking.incrementUnbondingId v
          ∧ world'.staking = ((world.staking.incrementUnbondingId.reindexed v
              unbonding).insertUnbondingValidatorQueue unbonding).setByUnbondingId
                (.validatorUnbonding unbonding.operatorAddress) id
          ∧ P.idle world'.staking world'.ext) (StopsOK tracked allowed) := by
  simp only [beginUnbondingValidator, staking_rules, FaultIn]
  intro _
  set unbonding := beginUnbondingRecord world.staking.incrementUnbondingId v with unbondingDef
  set s' := (world.staking.incrementUnbondingId.reindexed v
    unbonding).insertUnbondingValidatorQueue unbonding with s'Def
  have shares : SharesSettled s' :=
    (core.restatus unbonding stored rfl rfl rfl rfl).shares
  have same : SameStake world.staking s' :=
    ⟨(SameStake.reindexed unbonding stored rfl rfl rfl).stakes, rfl, rfl, rfl⟩
  refine (external_spec
    (contract.beginUnbonding shares (contract.idle_stable same idle))).imp ?_
  rintro _ notified ⟨sameStaking, idleNotified⟩
  set s'' := s'.setByUnbondingId (.validatorUnbonding unbonding.operatorAddress)
    world.staking.incrementUnbondingId.unbondingId with s''Def
  have idleFiled : P.idle s'' notified.ext :=
    contract.idle_stable (s := s') ⟨rfl, rfl, rfl, rfl⟩ idleNotified
  have keeps : Keeps allowed (K.afterUnbondingInitiated s''
      world.staking.incrementUnbondingId.unbondingId) notified.ext (P.idle s'') :=
    (contract.unbondingInitiated (s := s'') shares idleFiled).mono (fun _ _ kept => kept)
      (fun _ _ stopped => stopped.1)
  rw [sameStaking]
  refine (external_spec keeps).imp ?_
  rintro _ world' ⟨sameStaking', idle'⟩
  exact ⟨_, rfl, sameStaking', sameStaking' ▸ idle'⟩

/-! ## Loop invariants -/

omit contract core idle stored

/-- What the update of the validator set leaves alone. -/
structure ApplyFrame (s s' : StakingState) : Prop where
  params : s'.params = s.params
  height : s'.blockHeight = s.blockHeight
  time : s'.blockTime = s.blockTime
  rotations : s'.blockRotationHistory = s.blockRotationHistory
  total : s'.lastTotalPower = s.lastTotalPower

theorem ApplyFrame.refl (s : StakingState) : ApplyFrame s s := ⟨rfl, rfl, rfl, rfl, rfl⟩

theorem ApplyFrame.trans {s s' s'' : StakingState} (first : ApplyFrame s s')
    (second : ApplyFrame s' s'') : ApplyFrame s s'' :=
  ⟨second.params.trans first.params, second.height.trans first.height,
    second.time.trans first.time, second.rotations.trans first.rotations,
    second.total.trans first.total⟩

/-- Tokens that have changed pools on paper only. -/
def ApplyAcc.toMove (acc : ApplyAcc) (isBonded : Bool) : Int :=
  if isBonded then acc.amtFromBondedToNotBonded - acc.amtFromNotBondedToBonded
  else acc.amtFromNotBondedToBonded - acc.amtFromBondedToNotBonded

/-- Either no last power has changed, or an update is listed or will be: a bonded
validator with a rotation gets its update from the rotation loop. -/
def Announced (last last₀ : Store Address Int) (updates : List ValidatorUpdate)
    (rotating : List Address) (vals : Store Address Validator) : Prop :=
  last = last₀ ∨ updates ≠ [] ∨ ∃ addr ∈ rotating, ∃ v, vals.get? addr = some v ∧ v.status = .bonded

/-- State of the first two loops, started in `s₀`. -/
structure ApplyInv (K : Keepers φ σ) (P : Phases σ) (tracked : Prop) (set : CometSet)
    (rotating rest : List Address) (s₀ : StakingState) (remaining : Store Address Int)
    (acc : ApplyAcc) (world : World σ) : Prop where
  core : Core K.consAddress tracked (fun _ => 0) acc.toMove world.staking
  idle : P.idle world.staking world.ext
  loop : LoopOK set rotating rest remaining acc.totalPower acc.updates world.staking.validators
    world.staking.lastValidatorPower
  frame : ApplyFrame s₀ world.staking
  view : keyView world.staking = keyView s₀
  announced : Announced world.staking.lastValidatorPower s₀.lastValidatorPower acc.updates rotating
    world.staking.validators

theorem keyView_set (v' : Validator) (stored : s.validators.get? addr = some v)
    (samePubkey : v'.consensusPubkey = v.consensusPubkey) {s' : StakingState}
    (validators : s'.validators = s.validators.set addr v')
    (byCons : s'.validatorByConsAddr = s.validatorByConsAddr)
    (oldToNew : s'.oldToNewConsAddr = s.oldToNewConsAddr)
    (identifier : s'.consAddrToIdentifier = s.consAddrToIdentifier) :
    keyView s' = keyView s := by
  unfold keyView
  rw [validators, byCons, oldToNew, identifier]
  congr 1
  funext other
  rw [get?_set]
  split_ifs with here
  · rw [here, stored, Option.map_some, Option.map_some, samePubkey]
  · rfl

/-! ## Validators that enter -/

/-- A validator is bonded, with its tokens still to be moved. -/
structure Entered (K : Keepers φ σ) (P : Phases σ) (tracked : Prop) (owed : Bool → Int)
    (v : Validator) (moved : Int) (world world' : World σ) : Prop where
  core : Core K.consAddress tracked (fun _ => 0) (shift (shift owed false moved) true (-moved))
    world'.staking
  idle : P.idle world'.staking world'.ext
  validators : world'.staking.validators
    = world.staking.validators.set v.operatorAddress (v.updateStatus .bonded)
  lastPower : world'.staking.lastValidatorPower = world.staking.lastValidatorPower
  frame : ApplyFrame world.staking world'.staking
  view : keyView world'.staking = keyView world.staking

theorem enterBonded_spec (contract : HookContract K P allowed)
    (core : Core K.consAddress tracked (fun _ => 0) owed world.staking)
    (idle : P.idle world.staking world.ext)
    (stored : world.staking.validators.get? v.operatorAddress = some v) :
    Post (enterBonded K v) world
      (fun entered world' => entered.1 = v.updateStatus .bonded
        ∧ Entered K P tracked owed v entered.2 world world') (StopsOK tracked allowed) := by
  have entering : v.isBonded = false → Post (bondValidator K v) world
      (fun bonded world' => bonded = v.updateStatus .bonded
        ∧ Entered K P tracked owed v bonded.tokens world world') (StopsOK tracked allowed) := by
    intro notBonded
    refine (bondValidator_spec contract core idle stored).imp ?_
    rintro bonded world' ⟨rfl, sameStaking, idle'⟩
    have moved := core.restatus (v.updateStatus .bonded) stored rfl rfl rfl rfl
    rw [notBonded] at moved
    refine ⟨rfl, ?_, idle', ?_, ?_, ?_, ?_⟩
    · rw [sameStaking]
      exact { moved with }
    all_goals rw [sameStaking]
    · rfl
    · rfl
    · exact ⟨rfl, rfl, rfl, rfl, rfl⟩
    · exact keyView_set (v.updateStatus .bonded) stored rfl rfl rfl rfl rfl
  unfold enterBonded
  cases status : v.status with
  | unbonded =>
    simp only [unbondedToBonded, post_rules, FaultIn]
    exact fun _ => entering (by simp [Validator.isBonded, status])
  | unbonding =>
    simp only [unbondingToBonded, post_rules, FaultIn]
    exact fun _ => entering (by simp [Validator.isBonded, status])
  | bonded =>
    have unchanged : v.updateStatus .bonded = v := by
      rw [Validator.updateStatus, ← status]
    rw [post_pure, unchanged]
    refine ⟨rfl, ?_, idle, ?_, rfl, ApplyFrame.refl _, rfl⟩
    · simp only [neg_zero, shift_zero]
      exact core
    · rw [unchanged, set_eq_self stored]

theorem ApplyAcc.toMove_enter (acc acc' : ApplyAcc)
    (same : acc'.amtFromBondedToNotBonded = acc.amtFromBondedToNotBonded)
    (grown : acc'.amtFromNotBondedToBonded = acc.amtFromNotBondedToBonded + moved) :
    acc'.toMove = shift (shift acc.toMove false moved) true (-moved) := by
  funext isBonded
  cases isBonded <;> simp [ApplyAcc.toMove, shift, same, grown] <;> omega

theorem ApplyAcc.toMove_leave (acc acc' : ApplyAcc)
    (grown : acc'.amtFromBondedToNotBonded = acc.amtFromBondedToNotBonded + moved)
    (same : acc'.amtFromNotBondedToBonded = acc.amtFromNotBondedToBonded) :
    acc'.toMove = shift (shift acc.toMove true moved) false (-moved) := by
  funext isBonded
  cases isBonded <;> simp [ApplyAcc.toMove, shift, same, grown] <;> omega

theorem potentialConsensusPower_nonneg (nonneg : 0 ≤ v.tokens) :
    0 ≤ v.potentialConsensusPower :=
  Int.tdiv_nonneg nonneg (by decide)

theorem Announced.enter {last last₀ : Store Address Int} {updates : List ValidatorUpdate}
    {vals : Store Address Validator} {v' : Validator} {update : ValidatorUpdate} {changed : Prop}
    [Decidable changed] (announced : Announced last last₀ updates rotating vals)
    (isBonded : v'.status = .bonded) :
    Announced (if changed then last.set addr power else last) last₀
      (if changed ∧ addr ∉ rotating then updates ++ [update] else updates) rotating
      (vals.set addr v') := by
  by_cases appended : changed ∧ addr ∉ rotating
  · refine .inr (.inl ?_)
    simp [appended]
  rw [if_neg appended]
  by_cases rotates : changed
  · have inRotation : addr ∈ rotating := by
      by_contra steady
      exact appended ⟨rotates, steady⟩
    exact .inr (.inr ⟨addr, inRotation, v', get?_set_self, isBonded⟩)
  rw [if_neg rotates]
  refine announced.imp_right (Or.imp_right ?_)
  rintro ⟨other, member, w, present, status⟩
  by_cases here : other = addr
  · exact ⟨addr, here ▸ member, v', get?_set_self, isBonded⟩
  · exact ⟨other, member, w, by rw [get?_set_of_ne here, present], status⟩

variable (contract : HookContract K P allowed)

include contract

/-- One round of the first loop, after the validator is bonded. -/
theorem ApplyInv.enter {rest : List Address} {middle : World σ}
    (inv : ApplyInv K P tracked set rotating (v.operatorAddress :: rest) s₀ acc.last acc world)
    (once : v.operatorAddress ∉ rest)
    (stored : world.staking.validators.get? v.operatorAddress = some v)
    (free : v.jailed = false) (power : 0 < v.potentialConsensusPower)
    (entered : Entered K P tracked acc.toMove v moved world middle) :
    Post (recordPower rotating acc v.operatorAddress (v.updateStatus .bonded) moved) middle
      (fun acc' world' => ApplyInv K P tracked set rotating rest s₀ acc'.last acc' world'
        ∧ world'.staking.validators
            = world.staking.validators.set v.operatorAddress (v.updateStatus .bonded))
      (StopsOK tracked allowed) := by
  obtain ⟨core, idle, validators, lastPower, frame, view⟩ := entered
  have samePower : (v.updateStatus .bonded).consensusPower = v.potentialConsensusPower := rfl
  have entered := @LoopOK.enter _ _ _ _ _ _ _ _ _ v (v.updateStatus .bonded) inv.loop
    inv.core.cons.keysApart once stored rfl rfl free (samePower ▸ power)
  have announced := @Announced.enter v.operatorAddress (v.updateStatus .bonded).consensusPower
    _ _ _ _ _ (v.updateStatus .bonded) (v.updateStatus .bonded).abciValidatorUpdate
    (acc.last.get? v.operatorAddress ≠ some (v.updateStatus .bonded).consensusPower) _
    inv.announced rfl
  rw [← validators, ← lastPower] at entered announced
  have frame' := inv.frame.trans frame
  have view' := view.trans inv.view
  have core' : ∀ (acc' : ApplyAcc) (last : Store Address Int),
      acc'.amtFromBondedToNotBonded = acc.amtFromBondedToNotBonded →
      acc'.amtFromNotBondedToBonded = acc.amtFromNotBondedToBonded + moved →
      Core K.consAddress tracked (fun _ => 0) acc'.toMove
        { middle.staking with lastValidatorPower := last } := by
    intro acc' last same grown
    rw [ApplyAcc.toMove_enter acc acc' same grown]
    exact { core with }
  simp only [recordPower, staking_rules]
  refine ⟨fun changed => ⟨?_, validators⟩, fun unchanged => ⟨?_, validators⟩⟩
  · rw [if_pos changed] at entered announced
    exact
      { core := core' _ _ rfl rfl
        idle := contract.idle_stable (s := middle.staking) ⟨rfl, rfl, rfl, rfl⟩ idle
        loop := entered
        frame := frame'.trans ⟨rfl, rfl, rfl, rfl, rfl⟩
        view := view'
        announced := announced }
  · rw [if_neg unchanged] at entered announced
    exact
      { core := core' _ middle.staking.lastValidatorPower rfl rfl
        idle := idle
        loop := entered
        frame := frame'
        view := view'
        announced := announced }

/-- The loop over the power index. Validators still ahead are stored and out of
jail, so the loop never meets a jailed one. -/
theorem bondedSetLoop_spec :
    ∀ (count : Nat) (rest : List Address) {acc : ApplyAcc} {world : World σ}, rest.Nodup →
      (∀ addr ∈ rest, ∃ v, world.staking.validators.get? addr = some v ∧ v.jailed = false) →
      ApplyInv K P tracked set rotating rest s₀ acc.last acc world →
      Post (bondedSetLoop K rotating count rest acc) world
        (fun acc' world' => ApplyInv K P tracked set rotating [] s₀ acc'.last acc' world')
        (StopsOK tracked allowed)
  | 0, rest, acc, world, _, _, inv => by
    simp only [bondedSetLoop, post_pure]
    exact { inv with loop := inv.loop.stop }
  | count + 1, [], acc, world, _, _, inv => by
    simp only [bondedSetLoop, post_pure]
    exact inv
  | count + 1, addr :: rest, acc, world, distinct, free, inv => by
    obtain ⟨v, stored, notJailed⟩ := free addr mem_cons_self
    have operator := inv.core.shares.validatorKey stored
    have notAgain := (nodup_cons.mp distinct).1
    simp only [bondedSetLoop, staking_rules, stored, post_ite]
    refine ⟨?_, fun missing => by cases missing⟩
    intro found same
    obtain rfl := Option.some.inj same
    refine ⟨fun jailed => ?_, fun _ => ⟨fun _ => { inv with loop := inv.loop.stop }, ?_⟩⟩
    · rw [notJailed] at jailed
      cases jailed
    intro hasPower
    subst operator
    have nonneg := potentialConsensusPower_nonneg (inv.core.shares.tokensNonneg stored)
    have power : 0 < v.potentialConsensusPower := by omega
    refine (enterBonded_spec contract inv.core inv.idle stored).imp ?_
    rintro ⟨_, moved⟩ middle ⟨rfl, entered⟩
    refine (inv.enter contract notAgain stored notJailed power entered).imp ?_
    rintro acc' world' ⟨inv', validators'⟩
    refine bondedSetLoop_spec count rest (nodup_cons.mp distinct).2 ?_ inv'
    intro other member
    have different : other ≠ v.operatorAddress := fun same => notAgain (same ▸ member)
    rw [validators', get?_set_of_ne different]
    exact free other (mem_cons_of_mem _ member)

/-! ## Validators that leave -/

theorem unbondNoLongerBonded_spec {remaining : Store Address Int}
    (inv : ApplyInv K P tracked set rotating [] s₀ remaining acc world)
    (unmet : remaining.get? addr = some power) :
    Post (unbondNoLongerBonded K acc addr) world
      (fun acc' world' =>
        ApplyInv K P tracked set rotating [] s₀ (remaining.delete addr) acc' world')
      (StopsOK tracked allowed) := by
  simp only [unbondNoLongerBonded, bondedToUnbonding, staking_rules, FaultIn]
  intro v stored bonded
  have isBonded : v.isBonded = true := not_not.mp bonded
  have operator := inv.core.shares.validatorKey stored
  subst operator
  refine (beginUnbondingValidator_spec contract inv.core inv.idle stored).imp ?_
  rintro unbonding middle ⟨id, rfl, sameStaking, idle⟩
  set unbonding := beginUnbondingRecord world.staking.incrementUnbondingId v with unbondingDef
  have moved := inv.core.restatus unbonding stored rfl rfl rfl rfl
  have left := @LoopOK.leave _ _ _ _ _ _ _ _ _ v unbonding inv.loop inv.core.cons.keysApart unmet
    stored rfl (by simp [unbondingDef, beginUnbondingRecord])
  have view : keyView middle.staking = keyView world.staking := by
    rw [sameStaking]
    exact keyView_set unbonding stored rfl rfl rfl rfl rfl
  have frame : ApplyFrame world.staking middle.staking := by
    rw [sameStaking]
    exact ⟨rfl, rfl, rfl, rfl, rfl⟩
  have core' : ∀ acc' : ApplyAcc,
      acc'.amtFromBondedToNotBonded = acc.amtFromBondedToNotBonded + v.tokens →
      acc'.amtFromNotBondedToBonded = acc.amtFromNotBondedToBonded →
      Core K.consAddress tracked (fun _ => 0) acc'.toMove
        (middle.staking.deleteLastValidatorPower unbonding.operatorAddress) := by
    intro acc' grown same
    rw [ApplyAcc.toMove_leave acc acc' grown same, sameStaking]
    rw [isBonded] at moved
    exact { moved with }
  exact
    { core := by apply core' <;> rfl
      idle := contract.idle_stable (s := middle.staking) ⟨rfl, rfl, rfl, rfl⟩ idle
      loop := by
        rw [sameStaking]
        exact left
      frame := (inv.frame.trans frame).trans ⟨rfl, rfl, rfl, rfl, rfl⟩
      view := view.trans inv.view
      announced := .inr (.inl (by simp)) }

/-- After the second loop nobody of the previous set is left unmet. -/
theorem unbondAllNoLongerBonded_spec :
    ∀ (keys : List Address) {remaining : Store Address Int} {acc : ApplyAcc} {world : World σ},
      keys.Nodup → (∀ addr, addr ∈ keys ↔ ∃ power, remaining.get? addr = some power) →
      ApplyInv K P tracked set rotating [] s₀ remaining acc world →
      Post (foldOver (unbondNoLongerBonded K) keys acc) world
        (fun acc' world' => ∃ remaining' : Store Address Int,
          (∀ addr, remaining'.get? addr = none)
            ∧ ApplyInv K P tracked set rotating [] s₀ remaining' acc' world')
        (StopsOK tracked allowed)
  | [], remaining, acc, world, _, listed, inv => by
    rw [foldOver, post_pure]
    refine ⟨remaining, ?_, inv⟩
    intro addr
    cases found : remaining.get? addr with
    | none => rfl
    | some power => exact absurd ((listed addr).mpr ⟨power, found⟩) not_mem_nil
  | head :: tail, remaining, acc, world, distinct, listed, inv => by
    obtain ⟨power, unmet⟩ := (listed head).mp mem_cons_self
    have notAgain := (nodup_cons.mp distinct).1
    rw [foldOver, post_bind]
    refine (unbondNoLongerBonded_spec contract inv unmet).imp ?_
    intro acc' world' inv'
    refine unbondAllNoLongerBonded_spec tail (nodup_cons.mp distinct).2 ?_ inv'
    intro addr
    rw [get?_delete]
    split_ifs with here
    · subst here
      simp [notAgain]
    · rw [← listed addr, mem_cons]
      simp [here]

/-! ## Rotations -/

/-- State of the rotation loop, started in `s₀`; `done` are the rotations applied. -/
structure RotateInv (K : Keepers φ σ) (P : Phases σ) (tracked : Prop) (set : CometSet)
    (done rest : List ConsPubKeyRotationHistory) (s₀ : StakingState) (acc : ApplyAcc)
    (world : World σ) : Prop where
  core : Core K.consAddress tracked (fun _ => 0) acc.toMove world.staking
  idle : P.idle world.staking world.ext
  rotate : RotateOK set rest acc.updates world.staking.validators world.staking.lastValidatorPower
  unused : ∀ rotation ∈ rest,
    world.staking.validatorByConsAddr.get? (K.consAddress rotation.newConsPubkey) = none
  apart : (rest.map fun rotation => K.consAddress rotation.newConsPubkey).Nodup
  total : (world.staking.lastValidatorPower.sum fun _ power => power) = acc.totalPower
  frame : ApplyFrame s₀ world.staking
  view : keyView world.staking = done.foldl (KeyView.rotate K.consAddress) (keyView s₀)
  announced : Announced world.staking.lastValidatorPower s₀.lastValidatorPower acc.updates
    (rest.map ConsPubKeyRotationHistory.operatorAddress) world.staking.validators

/-- The state after a validator has moved to a new key. -/
def StakingState.rekeyed (consAddress : PubKey → Address) (s : StakingState) (v : Validator)
    (oldKey newKey : PubKey) : StakingState :=
  let moved := (((({ s with
      validatorByConsAddr := s.validatorByConsAddr.delete (consAddress v.consensusPubkey) } :
        StakingState).deleteValidatorByPowerIndex v).setValidator
          { v with consensusPubkey := newKey }).setValidatorByConsAddr (consAddress newKey)
            v.operatorAddress).setValidatorByPowerIndex { v with consensusPubkey := newKey }
  setConsAddrToValidatorIdentifierMap
    { moved with
        oldToNewConsAddr := moved.oldToNewConsAddr.set (consAddress oldKey) (consAddress newKey) }
    (consAddress oldKey) (consAddress newKey)

omit contract in
theorem Core.rekeyed {consAddress : PubKey → Address} {oldKey newKey : PubKey}
    (core : Core consAddress tracked (fun _ => 0) owed s)
    (stored : s.validators.get? v.operatorAddress = some v)
    (unused : s.validatorByConsAddr.get? (consAddress newKey) = none) :
    Core consAddress tracked (fun _ => 0) owed (s.rekeyed consAddress v oldKey newKey) where
  shares := core.shares.setValidator_same stored rfl rfl rfl
  index := core.index.reindex stored rfl rfl
  cons := @ConsOK.rekey _ _ _ core.cons _ v { v with consensusPubkey := newKey } stored unused
  unbondings := core.unbondings
  redelegations := core.redelegations
  pools := by
    intro tracks
    have moved := @PoolsOK.setValidator_same _ _ _ _ (core.pools tracks) v.operatorAddress v
      { v with consensusPubkey := newKey } stored rfl
    rwa [sub_self, shift_zero] at moved

theorem updateToNewPubkey_spec (core : Core K.consAddress tracked (fun _ => 0) owed world.staking)
    (idle : P.idle world.staking world.ext)
    (stored : world.staking.validators.get? v.operatorAddress = some v)
    (operator : rotation.operatorAddress = v.operatorAddress)
    (oldKey : v.consensusPubkey = rotation.oldConsPubkey)
    (unused : world.staking.validatorByConsAddr.get? (K.consAddress rotation.newConsPubkey)
      = none) :
    Post (updateToNewPubkey K v rotation.oldConsPubkey rotation.newConsPubkey rotation.fee) world
      (fun _ world' => Core K.consAddress tracked (fun _ => 0) owed world'.staking
        ∧ P.idle world'.staking world'.ext
        ∧ world'.staking.validators = world.staking.validators.set v.operatorAddress
            { v with consensusPubkey := rotation.newConsPubkey }
        ∧ world'.staking.lastValidatorPower = world.staking.lastValidatorPower
        ∧ ApplyFrame world.staking world'.staking
        ∧ keyView world'.staking = (keyView world.staking).rotate K.consAddress rotation)
      (StopsOK tracked allowed) := by
  simp only [updateToNewPubkey, staking_rules]
  set s' := world.staking.rekeyed K.consAddress v rotation.oldConsPubkey rotation.newConsPubkey
    with s'Def
  have core' : Core K.consAddress tracked (fun _ => 0) owed s' := core.rekeyed stored unused
  have same : SameStake world.staking s' :=
    ⟨stakeAt_setValidator_same stored rfl rfl rfl, rfl, rfl, rfl⟩
  have view : keyView s' = (keyView world.staking).rotate K.consAddress rotation := by
    have keys : (keyView s').keys
        = ((keyView world.staking).rotate K.consAddress rotation).keys := by
      funext other
      show ((world.staking.validators.set v.operatorAddress
        { v with consensusPubkey := rotation.newConsPubkey }).get? other).map _ = _
      rw [get?_set]
      by_cases here : other = v.operatorAddress
      · simp [KeyView.rotate, here, operator]
      · simp [KeyView.rotate, here, operator, keyView]
    have byCons : (keyView s').byCons
        = ((keyView world.staking).rotate K.consAddress rotation).byCons := by
      show (world.staking.validatorByConsAddr.delete (K.consAddress v.consensusPubkey)).set
        (K.consAddress rotation.newConsPubkey) v.operatorAddress = _
      rw [oldKey, ← operator]
      rfl
    calc keyView s' = ⟨(keyView s').keys, (keyView s').byCons, _, _⟩ := rfl
      _ = (keyView world.staking).rotate K.consAddress rotation := by
          rw [keys, byCons]
          rfl
  refine (external_spec (contract.keyUpdate core'.shares (contract.idle_stable same idle))).imp ?_
  rintro _ world' ⟨sameStaking, idle'⟩
  refine ⟨sameStaking ▸ core', sameStaking ▸ idle', ?_⟩
  rw [sameStaking]
  exact ⟨rfl, rfl, ⟨rfl, rfl, rfl, rfl, rfl⟩, view⟩

theorem applyRotation_spec {done rest : List ConsPubKeyRotationHistory}
    (inv : RotateInv K P tracked set done (rotation :: rest) s₀ acc world) :
    Post (applyRotation K acc rotation) world
      (fun acc' world' => RotateInv K P tracked set done rest s₀ acc' world'
        ∨ RotateInv K P tracked set (done ++ [rotation]) rest s₀ acc' world')
      (StopsOK tracked allowed) := by
  simp only [applyRotation, getValidator, staking_rules, post_ite, FaultIn]
  refine fun v stored => ⟨fun skipped => .inl ?_, fun rotates => ?_⟩
  · -- a bonded validator is out of jail here, so a skipped one has left the set
    have notBonded : v.status ≠ .bonded := by
      intro isBonded
      obtain ⟨power, onRecord⟩ := inv.rotate.recorded stored isBonded
      obtain ⟨w, storedW, _, _, free⟩ := inv.rotate.powers onRecord
      obtain rfl := some_unique storedW stored
      rw [free] at skipped
      simp [isBonded] at skipped
    refine
      { inv with
        rotate := inv.rotate.skip stored notBonded
        unused := fun other member => inv.unused other (mem_cons_of_mem rotation member)
        apart := (nodup_cons.mp inv.apart).2
        announced := ?_ }
    refine inv.announced.imp_right (Or.imp_right ?_)
    rintro ⟨addr, member, w, present, status⟩
    rcases mem_cons.mp member with here | later
    · subst here
      rw [some_unique present stored] at status
      exact absurd status notBonded
    · exact ⟨addr, later, w, present, status⟩
  · rw [not_or] at rotates
    have isBonded : v.status = .bonded := not_not.mp rotates.2
    have operator := inv.core.shares.validatorKey stored
    obtain ⟨w, storedW, oldKey, _⟩ := inv.rotate.waiting rotation mem_cons_self
    obtain rfl := some_unique storedW stored
    have unusedHere := inv.unused rotation mem_cons_self
    have storedOperator : world.staking.validators.get? w.operatorAddress = some w := by
      rw [operator]
      exact stored
    have rotated := @RotateOK.rotate _ _ _ _ _ _ inv.rotate inv.core.cons.keysApart w
      { w with consensusPubkey := rotation.newConsPubkey } stored isBonded rfl rfl rfl rfl
    refine (updateToNewPubkey_spec contract inv.core inv.idle storedOperator operator.symm oldKey
      unusedHere).imp ?_
    rintro _ world' ⟨core, idle, validators, lastPower, frame, view⟩
    have byCons : world'.staking.validatorByConsAddr
        = (world.staking.validatorByConsAddr.delete (K.consAddress rotation.oldConsPubkey)).set
            (K.consAddress rotation.newConsPubkey) rotation.operatorAddress :=
      congrArg KeyView.byCons view
    rw [← operator] at rotated
    refine .inr
      { core := core
        idle := idle
        rotate := by rw [validators, lastPower]; exact rotated
        unused := ?_
        apart := (nodup_cons.mp inv.apart).2
        total := by rw [lastPower]; exact inv.total
        frame := inv.frame.trans frame
        view := by rw [view, inv.view, foldl_append]; rfl
        announced := .inr (.inl (by simp)) }
    intro other member
    have differs : K.consAddress other.newConsPubkey ≠ K.consAddress rotation.newConsPubkey := by
      intro same
      exact (nodup_cons.mp inv.apart).1 (mem_map.mpr ⟨other, member, same⟩)
    rw [byCons, get?_set_of_ne differs, get?_delete]
    split_ifs
    · rfl
    · exact inv.unused other (mem_cons_of_mem rotation member)

theorem applyRotations_spec :
    ∀ (rest : List ConsPubKeyRotationHistory) {done : List ConsPubKeyRotationHistory}
      {acc : ApplyAcc} {world : World σ},
      RotateInv K P tracked set done rest s₀ acc world →
      Post (foldOver (applyRotation K) rest acc) world
        (fun acc' world' => ∃ applied : List ConsPubKeyRotationHistory, applied.Sublist rest
          ∧ RotateInv K P tracked set (done ++ applied) [] s₀ acc' world') (StopsOK tracked allowed)
  | [], done, acc, world, inv => by
    rw [foldOver, post_pure]
    exact ⟨[], Sublist.refl _, by rwa [append_nil]⟩
  | rotation :: rest, done, acc, world, inv => by
    rw [foldOver, post_bind]
    refine (applyRotation_spec contract inv).imp ?_
    rintro acc' world' (skipped | rotated)
    · refine (applyRotations_spec rest skipped).imp ?_
      rintro acc'' world'' ⟨applied, sublist, inv''⟩
      exact ⟨applied, sublist.cons rotation, inv''⟩
    · refine (applyRotations_spec rest rotated).imp ?_
      rintro acc'' world'' ⟨applied, sublist, inv''⟩
      rw [append_assoc] at inv''
      exact ⟨rotation :: applied, sublist.cons_cons rotation, inv''⟩

/-! ## The whole update -/

theorem settlePools_spec (core : Core K.consAddress tracked (fun _ => 0) acc.toMove world.staking)
    (idle : P.idle world.staking world.ext) :
    Post (settlePools K acc) world
      (fun _ world' => SameButPools world.staking world'.staking
        ∧ Core K.consAddress tracked (fun _ => 0) (fun _ => 0) world'.staking
        ∧ P.idle world'.staking world'.ext) (StopsOK tracked allowed) := by
  have settled : ∀ isBonded, shift (shift acc.toMove isBonded (-acc.toMove isBonded)) (!isBonded)
      (acc.toMove isBonded) = fun _ => 0 := by
    intro isBonded
    funext other
    cases isBonded <;> cases other <;> simp [shift, ApplyAcc.toMove]
  have moves := fun isBonded => moveFrom_core isBonded contract.transferIdle core idle
    fun tracks => core.owed_le isBonded tracks
  simp only [settled] at moves
  simp only [settlePools, post_ite, post_pure]
  refine ⟨fun _ => moves false, fun _ => ⟨fun _ => moves true, fun _ => ?_⟩⟩
  refine ⟨SameButPools.refl _, ?_, idle⟩
  convert core using 1
  funext isBonded
  cases isBonded <;> simp [ApplyAcc.toMove] <;> omega

omit contract

theorem pendingRotation_deleteBlock (addr : Address) :
    pendingRotation (deleteBlockConsPubKeyRotationHistory s) addr = none := by
  show (List.foldl Store.delete _ _).get? (⟨s.blockHeight, addr⟩ : Pair Int Address) = none
  rw [get?_foldl_delete]
  split_ifs with deleted
  · rfl
  · cases found : s.blockRotationHistory.get? ⟨s.blockHeight, addr⟩ with
    | none => rfl
    | some rotation =>
      have listed : (⟨s.blockHeight, addr⟩ : Pair Int Address) ∈ s.blockRotationHistory.keys :=
        Store.mem_keys.mpr (by rw [found]; rfl)
      refine absurd (mem_filter.mpr ⟨listed, ?_⟩) deleted
      simp

/-- What the update of the validator set ends with, from the state `s` and the set
CometBFT held. -/
structure Updated (K : Keepers φ σ) (P : Phases σ) (tracked : Prop) (set : CometSet)
    (s : StakingState) (updates : List ValidatorUpdate) (world' : World σ) : Prop where
  settled : Settled K.consAddress tracked world'.staking
  idle : P.idle world'.staking world'.ext
  acceptable : Acceptable set updates
  tracks : Tracks (applyUpdates set updates) world'.staking.validators
    world'.staking.lastValidatorPower
  powers : ∀ {addr power}, world'.staking.lastValidatorPower.get? addr = some power →
    ∃ v, world'.staking.validators.get? addr = some v ∧ v.status = .bonded
      ∧ power = v.consensusPower
  returned : world'.staking.validatorUpdates = updates
  params : world'.staking.params = s.params
  height : world'.staking.blockHeight = s.blockHeight
  time : world'.staking.blockTime = s.blockTime
  rotations : world'.staking.blockRotationHistory
    = (deleteBlockConsPubKeyRotationHistory s).blockRotationHistory
  view : ∃ applied : List ConsPubKeyRotationHistory,
    applied.Sublist (getBlockConsPubKeyRotationHistory s)
      ∧ keyView world'.staking = applied.foldl (KeyView.rotate K.consAddress) (keyView s)

theorem exists_of_keyView {s' : StakingState} (view : keyView s' = keyView s)
    (stored : s.validators.get? addr = some v) :
    ∃ v', s'.validators.get? addr = some v' ∧ v'.consensusPubkey = v.consensusPubkey := by
  have keys : (s'.validators.get? addr).map Validator.consensusPubkey
      = (s.validators.get? addr).map Validator.consensusPubkey :=
    congrFun (congrArg KeyView.keys view) addr
  rw [stored, Option.map_some] at keys
  exact Option.map_eq_some_iff.mp keys

theorem RotateInv.start {remaining : Store Address Int} (rotations : RotationsOK K.consAddress s₀)
    (inv : ApplyInv K P tracked set
      ((getBlockConsPubKeyRotationHistory s₀).map ConsPubKeyRotationHistory.operatorAddress) [] s₀
      remaining acc world)
    (met : ∀ addr, remaining.get? addr = none) :
    RotateInv K P tracked set [] (getBlockConsPubKeyRotationHistory s₀) s₀ acc world := by
  have byCons : world.staking.validatorByConsAddr = s₀.validatorByConsAddr :=
    congrArg KeyView.byCons inv.view
  have unused : ∀ rotation ∈ getBlockConsPubKeyRotationHistory s₀,
      world.staking.validatorByConsAddr.get? (K.consAddress rotation.newConsPubkey) = none := by
    intro rotation member
    rw [byCons]
    exact rotations.unused (rotations.mem_block.mp member)
  have holds : ∀ rotation ∈ getBlockConsPubKeyRotationHistory s₀, ∃ v,
      world.staking.validators.get? rotation.operatorAddress = some v
        ∧ v.consensusPubkey = rotation.oldConsPubkey := by
    intro rotation member
    obtain ⟨v, stored, _, key⟩ := rotations.holder (rotations.mem_block.mp member)
    obtain ⟨v', stored', same⟩ := exists_of_keyView inv.view stored
    exact ⟨v', stored', same.trans key⟩
  have unheld : ∀ rotation ∈ getBlockConsPubKeyRotationHistory s₀, ∀ {addr v},
      world.staking.validators.get? addr = some v →
      v.consensusPubkey ≠ rotation.newConsPubkey := by
    intro rotation member addr v stored same
    have resolves := inv.core.cons.resolves stored
    rw [same, unused rotation member] at resolves
    cases resolves
  have emptySum : (remaining.sum fun _ power => power) = 0 := by
    refine Store.sum_eq_zero ?_
    intro addr power found
    rw [met addr] at found
    cases found
  exact
    { core := inv.core
      idle := inv.idle
      rotate := RotateOK.start inv.loop met holds unheld rotations.operators_nodup
        rotations.newKeys_nodup
      unused := unused
      apart := rotations.newAddresses_nodup
      total := by
        have totals := inv.loop.total_eq
        rw [emptySum, zero_add] at totals
        exact totals
      frame := inv.frame
      view := inv.view
      announced := inv.announced }

theorem applyAndReturnValidatorSetUpdates_spec (contract : HookContract K P allowed)
    (settled : Settled K.consAddress tracked world.staking) (idle : P.idle world.staking world.ext)
    (rotations : RotationsOK K.consAddress world.staking)
    (tracks : Tracks set world.staking.validators world.staking.lastValidatorPower) :
    Post (applyAndReturnValidatorSetUpdates K) world
      (fun updates => Updated K P tracked set world.staking updates) (StopsOK tracked allowed) := by
  set histories := getBlockConsPubKeyRotationHistory world.staking with historiesDef
  set rotating := histories.map ConsPubKeyRotationHistory.operatorAddress with rotatingDef
  have holders : ∀ rotation ∈ histories, ∃ v,
      world.staking.validators.get? rotation.operatorAddress = some v ∧ v.isBonded = true
        ∧ v.consensusPubkey = rotation.oldConsPubkey := fun rotation member =>
    rotations.holder (rotations.mem_block.mp member)
  have bondedRotating : ∀ addr ∈ rotating, ∃ v,
      world.staking.validators.get? addr = some v ∧ v.status = .bonded := by
    intro addr member
    obtain ⟨rotation, inBlock, rfl⟩ := mem_map.mp member
    obtain ⟨v, stored, isBonded, _⟩ := holders rotation inBlock
    exact ⟨v, stored, by simpa [Validator.isBonded] using isBonded⟩
  have start : ApplyInv K P tracked set rotating world.staking.validatorsByPowerIndex.values.reverse
      world.staking world.staking.lastValidatorPower
      ⟨world.staking.lastValidatorPower, [], 0, 0, 0⟩ world :=
    { core := by
        have nothing : (⟨world.staking.lastValidatorPower, [], 0, 0, 0⟩ : ApplyAcc).toMove
            = fun _ => 0 := by
          funext isBonded
          cases isBonded <;> rfl
        rw [nothing]
        exact settled.toCore
      idle := idle
      loop := LoopOK.start settled.last tracks bondedRotating
      frame := ApplyFrame.refl _
      view := rfl
      announced := .inl rfl }
  have free : ∀ addr ∈ world.staking.validatorsByPowerIndex.values.reverse,
      ∃ v, world.staking.validators.get? addr = some v ∧ v.jailed = false := by
    intro addr member
    obtain ⟨v, stored, _, notJailed⟩ := settled.index.mem_values (mem_reverse.mp member)
    exact ⟨v, stored, notJailed⟩
  simp only [applyAndReturnValidatorSetUpdates, post_bind, post_stakingState]
  refine (bondedSetLoop_spec contract _ _ (nodup_reverse.mpr settled.index.values_nodup) free
    start).imp ?_
  intro bondedAcc bonding invBonded
  refine (unbondAllNoLongerBonded_spec contract bondedAcc.last.keys bondedAcc.last.keys_nodup
    (fun addr => Store.mem_keys.trans Option.isSome_iff_exists) invBonded).imp ?_
  rintro leftAcc leaving ⟨remaining, met, invLeft⟩
  refine (applyRotations_spec contract histories
    (RotateInv.start rotations invLeft met)).imp ?_
  rintro finalAcc rotated ⟨applied, sublist, inv⟩
  simp only [post_modifyStaking]
  set s₃ := deleteBlockConsPubKeyRotationHistory rotated.staking with s₃Def
  have core₃ : Core K.consAddress tracked (fun _ => 0) finalAcc.toMove
      (⟨s₃, rotated.ext⟩ : World σ).staking := { inv.core with }
  have idle₃ : P.idle s₃ rotated.ext :=
    contract.idle_stable (s := rotated.staking) ⟨rfl, rfl, rfl, rfl⟩ inv.idle
  have rotations₃ : s₃.blockRotationHistory
      = (deleteBlockConsPubKeyRotationHistory world.staking).blockRotationHistory := by
    simp only [s₃Def, deleteBlockConsPubKeyRotationHistory, inv.frame.rotations, inv.frame.height]
  refine (settlePools_spec contract core₃ idle₃).imp ?_
  rintro _ ⟨settling, ext⟩ ⟨⟨bondedPool, notBondedPool, same⟩, core, idle'⟩
  obtain rfl : settling = _ := same
  -- without an update no last power has changed, so the recorded total is still right
  have total : ∀ total, (finalAcc.updates ≠ [] → total = finalAcc.totalPower) →
      (finalAcc.updates = [] → total = rotated.staking.lastTotalPower) →
      LastOK rotated.staking.validators rotated.staking.lastValidatorPower total := by
    intro total some_ none_
    refine ⟨?_, inv.rotate.recorded, inv.rotate.powerPos, ?_⟩
    · intro addr power found
      obtain ⟨v, stored, isBonded, _⟩ := inv.rotate.powers found
      exact ⟨v, stored, isBonded⟩
    · show total = rotated.staking.lastValidatorPower.sum fun _ power => power
      by_cases quiet : finalAcc.updates = []
      · rcases inv.announced with unchanged | listed | ⟨_, member, _⟩
        · rw [none_ quiet, unchanged, ← settled.last.total_eq]
          exact inv.frame.total
        · exact absurd quiet listed
        · exact absurd member not_mem_nil
      · rw [some_ quiet, inv.total]
  have finish : ∀ total, LastOK rotated.staking.validators rotated.staking.lastValidatorPower
      total → Updated K P tracked set world.staking finalAcc.updates
        ⟨{ s₃ with
            bondedPool := bondedPool, notBondedPool := notBondedPool
            lastTotalPower := total, validatorUpdates := finalAcc.updates }, ext⟩ := by
    intro total last
    exact
      { settled := { core with last := last }
        idle := by
          apply contract.idle_stable _ idle'
          exact ⟨rfl, rfl, rfl, rfl⟩
        acceptable := inv.rotate.toAcceptable
        tracks := inv.rotate.finish
        powers := by
          intro addr power found
          obtain ⟨v, stored, isBonded, exact', _⟩ := inv.rotate.powers found
          exact ⟨v, stored, isBonded, exact'⟩
        returned := rfl
        params := inv.frame.params
        height := inv.frame.height
        time := inv.frame.time
        rotations := rotations₃
        view := ⟨applied, sublist, inv.view⟩ }
  simp only [post_whenever, post_modifyStaking, post_pure]
  refine ⟨fun listed => ?_, fun quiet => ?_⟩
  · exact finish _ (total _ (fun _ => rfl) fun empty => absurd empty listed)
  · exact finish rotated.staking.lastTotalPower
      (total _ (fun listed => absurd listed quiet) fun _ => rfl)

end Specs

end AtomOneSdk.Staking
