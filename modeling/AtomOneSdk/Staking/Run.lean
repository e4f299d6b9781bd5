import AtomOneSdk.Staking.RunSpec

/-!
Contract: runs of staking operations.

Owns: the operations that move the header, the parameters, the announced rotations
or the set of validators; the step of a run with the set CometBFT holds and the keys
each validator has held; and the properties that hold in every state of every run.

Does **not** own: operations of other modules. A run is over any hooks that meet a
`HookContract`.
-/

namespace AtomOneSdk.Staking

open Lib Lib.Action Store

section Specs

variable {φ σ : Type} {K : Keepers φ σ} {P : Phases σ} {allowed : Fault φ → Prop}
  {tracked : Prop} {world : World σ} {denom : Denom} {set : CometSet}
  {log : Address → List PubKey}

/-! ## Announced rotations -/

/-- No rotation is announced for a height that was not reached yet. -/
theorem RotationsOK.none_ahead {consAddress : PubKey → Address} {s : StakingState}
    (ok : RotationsOK consAddress s) {height : Int} (ahead : s.blockHeight < height)
    (addr : Address) : s.blockRotationHistory.get? ⟨height, addr⟩ = none := by
  cases found : s.blockRotationHistory.get? ⟨height, addr⟩ with
  | none => rfl
  | some rotation =>
    have filed := (ok.filed found).2
    dsimp only at filed
    omega

theorem RotationsOK.of_nothing {consAddress : PubKey → Address} {s : StakingState}
    (filed : ∀ {key rotation}, s.blockRotationHistory.get? key = some rotation →
      rotation.operatorAddress = key.snd ∧ key.fst ≤ s.blockHeight)
    (nothing : ∀ addr, pendingRotation s addr = none) : RotationsOK consAddress s := by
  have impossible : ∀ {addr rotation}, pendingRotation s addr ≠ some rotation := by
    intro addr rotation announced
    rw [nothing] at announced
    cases announced
  exact ⟨filed, fun announced => absurd announced impossible,
    fun announced => absurd announced impossible, fun announced => absurd announced impossible⟩

theorem RotationsOK.advance {consAddress : PubKey → Address} {s : StakingState}
    (ok : RotationsOK consAddress s) {height : Int} {time : Time} (ahead : s.blockHeight < height) :
    RotationsOK consAddress { s with blockHeight := height, blockTime := time } := by
  apply RotationsOK.of_nothing
  · intro key rotation found
    obtain ⟨operator, reached⟩ := ok.filed found
    exact ⟨operator, le_of_lt (lt_of_le_of_lt reached ahead)⟩
  · exact ok.none_ahead ahead

/-! ## New keys -/

/-- An address that resolves to nobody has no holder. -/
theorem ConsOK.unused_of_unresolved {consAddress : PubKey → Address} {s : StakingState}
    (ok : ConsOK consAddress s.validators s.validatorByConsAddr) {addr : Address}
    (unresolved : getValidatorByConsAddr s addr = none) :
    s.validatorByConsAddr.get? addr = none := by
  cases holder : s.validatorByConsAddr.get? addr with
  | none => rfl
  | some operator =>
    obtain ⟨v, stored, _⟩ := ok.held holder
    have resolved : getValidatorByConsAddr s addr = some v := by
      simp [getValidatorByConsAddr, consAddrBudget, walkConsAddr, holder, stored]
    rw [resolved] at unresolved
    cases unresolved

/-- What the check of a new key establishes. -/
structure KeyFree (consAddress : PubKey → Address) (s : StakingState) (pk : PubKey) : Prop where
  unidentified : s.consAddrToIdentifier.get? (consAddress pk) = none
  unannounced : ∀ rotation ∈ getBlockConsPubKeyRotationHistory s,
    consAddress rotation.newConsPubkey ≠ consAddress pk
  unresolved : getValidatorByConsAddr s (consAddress pk) = none

theorem checkConsKeyAlreadyUsed_spec {pk : PubKey} :
    Post (checkConsKeyAlreadyUsed K pk) world
      (fun _ world' => world' = world ∧ KeyFree K.consAddress world.staking pk)
      (StopsOK tracked allowed) := by
  simp only [checkConsKeyAlreadyUsed, staking_rules, FaultIn]
  intro unidentified unannounced unresolved
  constructor
  · simpa using unidentified
  · intro rotation member same
    exact unannounced ⟨rotation, member, same⟩
  · simpa using unresolved

theorem checkPubKeyType_spec {pk : PubKey} :
    Passes tracked allowed (checkPubKeyType K pk) world := by
  unfold checkPubKeyType
  cases K.pubKeyTypes with
  | none => exact rfl
  | some types =>
    simp only [Passes, post_rules, FaultIn]

/-! ## Creating a validator -/

/-- The state in which the hook of a creation runs. -/
def StakingState.withCreated (s : StakingState) (consAddr : Address) (v : Validator) :
    StakingState :=
  ((s.setValidator v).setValidatorByConsAddr consAddr
    v.operatorAddress).setNewValidatorByPowerIndex v

section Creation

variable {v : Validator}

theorem Settled.withCreated {consAddress : PubKey → Address} {s : StakingState}
    (settled : Settled consAddress tracked s) (absent : s.validators.get? v.operatorAddress = none)
    (unused : s.validatorByConsAddr.get? (consAddress v.consensusPubkey) = none)
    (noTokens : v.tokens = 0) (noShares : v.delegatorShares = 0) (free : v.jailed = false)
    (unbonded : v.status = .unbonded) :
    Settled consAddress tracked (s.withCreated (consAddress v.consensusPubkey) v) where
  shares := settled.shares.createValidator absent rfl noTokens noShares rfl
  index := settled.index.createValidator absent rfl free
  cons := settled.cons.createValidator absent unused
  unbondings := settled.unbondings
  redelegations := settled.redelegations
  pools := fun tracks => (settled.pools tracks).createValidator absent noTokens
  last := by
    apply settled.last.setValidator_notBonded
    · intro w stored
      rw [absent] at stored
      cases stored
    · rw [unbonded]
      decide

/-- A validator that is not stored has no recorded power. -/
theorem LastOK.none_of_absent {vals : Store Address Validator} {last : Store Address Int}
    {total : Int} (ok : LastOK vals last total) {addr : Address}
    (absent : vals.get? addr = none) : last.get? addr = none := by
  cases recorded : last.get? addr with
  | none => rfl
  | some power =>
    obtain ⟨w, stored, _⟩ := ok.bonded recorded
    rw [absent] at stored
    cases stored

theorem Tracks.withCreated {vals : Store Address Validator} {last : Store Address Int}
    (tracks : Tracks set vals last) {addr : Address} (noPower : last.get? addr = none)
    (absent : vals.get? addr = none)
    (unheld : ∀ {other w}, vals.get? other = some w → w.consensusPubkey ≠ v.consensusPubkey) :
    Tracks set (vals.set addr v) last where
  stored := by
    intro other w present
    rcases get?_set_cases present with ⟨here, new⟩ | ⟨_, old⟩
    · rw [here, new, noPower, Option.getD_none]
      exact tracks.absent unheld
    · exact tracks.stored old
  absent := by
    intro key nobody
    apply tracks.absent
    intro other w stored
    apply @nobody other w
    rwa [get?_set_of_ne (ne_of_absent stored absent)]

theorem RotationsOK.withCreated {consAddress : PubKey → Address} {s : StakingState}
    (ok : RotationsOK consAddress s) (absent : s.validators.get? v.operatorAddress = none)
    (unannounced : ∀ rotation ∈ getBlockConsPubKeyRotationHistory s,
      consAddress rotation.newConsPubkey ≠ consAddress v.consensusPubkey) :
    RotationsOK consAddress (s.withCreated (consAddress v.consensusPubkey) v) where
  filed := ok.filed
  holder := by
    intro addr rotation announced
    obtain ⟨w, stored, bonded, key⟩ := ok.holder announced
    have apart := ne_of_absent stored absent
    exact ⟨w, (get?_set_of_ne apart).trans stored, bonded, key⟩
  unused := by
    intro addr rotation announced
    have sameOperator : rotation.operatorAddress = addr := (ok.filed announced).1
    have member := ok.mem_block.mpr (sameOperator.symm ▸ announced)
    exact (get?_set_of_ne (unannounced rotation member)).trans (ok.unused announced)
  apart := ok.apart

theorem Ready.withCreated (ready : Ready K P tracked denom set log world)
    (absent : world.staking.validators.get? v.operatorAddress = none)
    (free : KeyFree K.consAddress world.staking v.consensusPubkey) (noTokens : v.tokens = 0)
    (noShares : v.delegatorShares = 0) (unjailed : v.jailed = false)
    (unbonded : v.status = .unbonded) {e : σ}
    (idle : P.idle (world.staking.withCreated (K.consAddress v.consensusPubkey) v) e) :
    Ready K P tracked denom set (Function.update log v.operatorAddress [v.consensusPubkey])
      ⟨world.staking.withCreated (K.consAddress v.consensusPubkey) v, e⟩ := by
  have unused := ready.settled.cons.unused_of_unresolved free.unresolved
  exact
    { settled := Settled.withCreated ready.settled absent unused noTokens noShares unjailed unbonded
      idle := idle
      bondDenom := ready.bondDenom
      rotations := ready.rotations.withCreated absent free.unannounced
      tracks := by
        apply ready.tracks.withCreated (ready.settled.last.none_of_absent absent) absent
        intro other w stored same
        have held := ready.settled.cons.resolves stored
        rw [same, unused] at held
        cases held
      logged := by
        apply ready.logged.create
        · simp [keyView, absent]
        · exact fun stored => ready.logged.not_mem_of_unresolved free.unresolved stored
        · exact free.unidentified
        · exact free.unannounced
        · funext other
          by_cases here : other = v.operatorAddress
          · subst here
            simp [keyView, StakingState.withCreated, StakingState.setValidator,
              StakingState.setValidatorByConsAddr, StakingState.setNewValidatorByPowerIndex]
          · simp [keyView, StakingState.withCreated, StakingState.setValidator,
              StakingState.setValidatorByConsAddr, StakingState.setNewValidatorByPowerIndex,
              get?_set, here]
        · rfl
        · rfl
        · rfl }

end Creation

theorem msgCreateValidator_validate_spec {msg : MsgCreateValidator} :
    Post (msg.validate : StakingM φ σ Unit) world
      (fun _ world' => world' = world ∧ 0 < msg.value.amount) (StopsOK tracked allowed) := by
  simp only [MsgCreateValidator.validate, checkAmount, post_rules, not_not, FaultIn]
  intro positive _
  refine Post.imp (failIfSome_spec ?_) ?_
  · intro reason found
    unfold CommissionRates.validate at found
    split_ifs at found <;> cases found <;> trivial
  intro _ _ same
  exact fun _ _ => ⟨same, positive⟩

theorem setConsKeyQueue_same (s : StakingState) (ts : Time) (valAddr : Address) :
    ∃ queue, setConsKeyQueue s ts valAddr = { s with rotationQueue := queue } := ⟨_, rfl⟩

/-! ## Operations on a ready state -/

variable (contract : HookContract K P allowed) (ready : Ready K P tracked denom set log world)

include contract ready

theorem Ready.withParams {params : Params} (sameDenom : tracked → params.bondDenom = denom) :
    Ready K P tracked denom set log ⟨{ world.staking with params := params }, world.ext⟩ where
  settled :=
    { ready.settled with
      pools := by
        intro tracks
        have same : poolBalance { world.staking with params := params }
            = poolBalance world.staking := by
          funext isBonded
          simp only [poolBalance, sameDenom tracks, ready.bondDenom tracks]
        rw [same]
        exact ready.settled.pools tracks }
  idle := by
    apply contract.idle_stable _ ready.idle
    exact ⟨rfl, rfl, rfl, rfl⟩
  bondDenom := sameDenom
  rotations := ⟨ready.rotations.filed, ready.rotations.holder, ready.rotations.unused,
    ready.rotations.apart⟩
  tracks := ready.tracks
  logged := ready.logged

theorem updateParams_spec {params : Params} (sameDenom : tracked → params.bondDenom = denom) :
    Post (updateParams params) world
      (fun _ world' => Ready K P tracked denom set log world'
        ∧ Frame { world.staking with params := params } world'.staking)
      (StopsOK tracked allowed) := by
  rw [updateParams]
  refine Post.check (failIfText_spec ?_) fun _ => ?_
  · exact fun _ => trivial
  simp only [staking_rules]
  have set := ready.withParams contract sameDenom
  apply (updateValidatorCommissionsForNewRange_spec contract set.settled set.idle).imp
  intro _ world' kept
  exact ⟨set.kept kept, kept.frame⟩

theorem beginBlock_spec {height : Int} {time : Time} :
    Post (beginBlock height time : StakingM φ σ Unit) world
      (fun _ world' => Ready K P tracked denom set log world'
        ∧ world'.staking.validators = world.staking.validators) (StopsOK tracked allowed) := by
  simp only [beginBlock, staking_rules, not_not, FaultIn]
  intro advances
  have rotations := @RotationsOK.advance _ _ ready.rotations _ time advances.1
  exact
    { settled := { ready.settled with }
      idle := contract.advance ready.settled.shares rfl rfl advances.1 rfl ready.idle
      bondDenom := ready.bondDenom
      rotations := rotations
      tracks := ready.tracks
      logged := by
        apply ready.logged.forget
        intro rotation member
        have announced := rotations.mem_block.mp member
        have nothing := ready.rotations.none_ahead advances.1 rotation.operatorAddress
        exact absurd (nothing.symm.trans announced) (by simp) }

theorem createValidator_spec {msg : MsgCreateValidator} :
    Post (createValidator K msg) world
      (fun _ world' =>
        Ready K P tracked denom set (Function.update log msg.validatorAddress [msg.pubkey]) world'
        ∧ world.staking.validators.get? msg.validatorAddress = none
        ∧ KeyFree K.consAddress world.staking msg.pubkey
        ∧ Frame (world.staking.withCreated (K.consAddress msg.pubkey)
            (createdValidator msg world.staking.blockTime)) world'.staking)
      (StopsOK tracked allowed) := by
  unfold createValidator
  refine msgCreateValidator_validate_spec.bind ?_
  rintro _ _ ⟨same, positive⟩
  rw [same]
  refine checkCommissionRange_spec.check fun _ => ?_
  rw [post_bind, post_stakingState, post_bind, post_failIf]
  refine ⟨fun _ => trivial, fun present => ?_⟩
  have absent : world.staking.validators.get? msg.validatorAddress = none := by simpa using present
  refine checkConsKeyAlreadyUsed_spec.bind ?_
  rintro _ _ ⟨same, free⟩
  rw [same]
  rw [post_bind, checkBondDenom, post_bind, post_stakingState, post_failIf]
  refine ⟨fun _ => trivial, fun _ => ?_⟩
  refine Post.check (failIfText_spec ?_) fun _ => ?_
  · exact fun _ => trivial
  refine checkPubKeyType_spec.check fun _ => ?_
  simp only [staking_rules]
  set v := createdValidator msg world.staking.blockTime with vDef
  -- the record exists, without stake, before the hook and the first delegation
  have settledCreated := Settled.withCreated (v := v) ready.settled absent
    (ready.settled.cons.unused_of_unresolved free.unresolved) rfl rfl rfl rfl
  have changed : Changed world.staking
      (world.staking.withCreated (K.consAddress msg.pubkey) v) msg.validatorAddress
      (some (0, 0)) world.staking.delegations := by
    refine ⟨?_, rfl, rfl, rfl⟩
    funext other
    exact stakeAt_set (s := world.staking) (v := v) rfl other
  have noStake : stakeAt world.staking msg.validatorAddress = none := by simp [stakeAt, absent]
  refine Post.imp (external_spec (contract.created ready.settled.shares settledCreated.shares
    noStake changed ready.idle)) ?_
  rintro _ created ⟨sameStaking, idleCreated⟩
  obtain ⟨staking, ext⟩ := created
  dsimp only at sameStaking idleCreated
  subst sameStaking
  have readyCreated := ready.withCreated (v := v) absent free rfl rfl rfl rfl idleCreated
  have stored : (world.staking.withCreated (K.consAddress msg.pubkey) v).validators.get?
      v.operatorAddress = some v := get?_set_self
  refine Post.imp (delegate_spec contract readyCreated.settled readyCreated.idle stored positive
    (fun _ bad => by cases bad)) ?_
  rintro issued world' ⟨_, inv, idle, frame⟩
  exact ⟨readyCreated.kept ⟨inv, idle, frame.toFrame⟩, absent, free, frame.toFrame⟩

theorem Ready.announce {v : Validator} {valAddr : Address} {rotation : ConsPubKeyRotationHistory}
    (stored : world.staking.validators.get? valAddr = some v) (bonded : v.isBonded = true)
    (current : v.consensusPubkey = rotation.oldConsPubkey)
    (operator : rotation.operatorAddress = valAddr)
    (free : KeyFree K.consAddress world.staking rotation.newConsPubkey) {s' : StakingState}
    (announced : s'.blockRotationHistory = world.staking.blockRotationHistory.set
      ⟨world.staking.blockHeight, valAddr⟩ rotation)
    (height : s'.blockHeight = world.staking.blockHeight)
    (params : s'.params = world.staking.params) (sameStake : SameStake world.staking s')
    (settled : Settled K.consAddress tracked s') (view : keyView s' = keyView world.staking)
    (validators : s'.validators = world.staking.validators)
    (last : s'.lastValidatorPower = world.staking.lastValidatorPower) :
    Ready K P tracked denom set log ⟨s', world.ext⟩ := by
  have pendingCases : ∀ {addr found}, pendingRotation s' addr = some found →
      (addr = valAddr ∧ found = rotation)
        ∨ (addr ≠ valAddr ∧ pendingRotation world.staking addr = some found) := by
    intro addr found pending
    unfold pendingRotation at pending
    rw [announced, height] at pending
    rcases get?_set_cases pending with ⟨here, new⟩ | ⟨apart, old⟩
    · exact .inl ⟨congrArg Pair.snd here, new⟩
    · exact .inr ⟨fun here => apart (by rw [here]), old⟩
  have byCons : s'.validatorByConsAddr = world.staking.validatorByConsAddr :=
    congrArg KeyView.byCons view
  have memOld : ∀ {addr found}, pendingRotation world.staking addr = some found →
      found ∈ getBlockConsPubKeyRotationHistory world.staking := by
    intro addr found pending
    have sameOperator := (ready.rotations.filed pending).1
    exact ready.rotations.mem_block.mpr (sameOperator.symm ▸ pending)
  have rotations : RotationsOK K.consAddress s' := by
    constructor
    · intro key found present
      rw [announced] at present
      rw [height]
      rcases get?_set_cases present with ⟨here, new⟩ | ⟨_, old⟩
      · rw [here, new]
        exact ⟨operator, le_refl _⟩
      · exact ready.rotations.filed old
    · intro addr found pending
      rw [validators]
      rcases pendingCases pending with ⟨here, new⟩ | ⟨_, old⟩
      · rw [here, new]
        exact ⟨v, stored, bonded, current⟩
      · exact ready.rotations.holder old
    · intro addr found pending
      rw [byCons]
      rcases pendingCases pending with ⟨_, new⟩ | ⟨_, old⟩
      · rw [new]
        exact ready.settled.cons.unused_of_unresolved free.unresolved
      · exact ready.rotations.unused old
    · intro left right found found' pendingLeft pendingRight same
      rcases pendingCases pendingLeft with ⟨hereLeft, newLeft⟩ | ⟨_, oldLeft⟩
      · rcases pendingCases pendingRight with ⟨hereRight, _⟩ | ⟨_, oldRight⟩
        · rw [hereLeft, hereRight]
        · rw [newLeft] at same
          exact absurd same.symm (free.unannounced _ (memOld oldRight))
      · rcases pendingCases pendingRight with ⟨_, newRight⟩ | ⟨_, oldRight⟩
        · rw [newRight] at same
          exact absurd same (free.unannounced _ (memOld oldLeft))
        · exact ready.rotations.apart oldLeft oldRight same
  exact
    { settled := settled
      idle := contract.idle_stable sameStake ready.idle
      bondDenom := fun tracks => by rw [params]; exact ready.bondDenom tracks
      rotations := rotations
      tracks := by
        rw [validators, last]
        exact ready.tracks
      logged := by
        rw [view]
        refine { ready.logged with fresh := ?_ }
        intro found member other key held
        rcases pendingCases (rotations.mem_block.mp member) with ⟨_, new⟩ | ⟨_, old⟩
        · rw [new]
          exact ready.logged.not_mem_of_unresolved free.unresolved held
        · exact ready.logged.fresh found (memOld old) held }

theorem rotateConsPubKey_spec {msg : MsgRotateConsPubKey} :
    Post (rotateConsPubKey K msg) world
      (fun _ world' => Ready K P tracked denom set log world'
        ∧ KeyFree K.consAddress world.staking msg.newPubkey
        ∧ world'.staking.validators = world.staking.validators) (StopsOK tracked allowed) := by
  unfold rotateConsPubKey
  refine checkPubKeyType_spec.check fun _ => ?_
  refine checkConsKeyAlreadyUsed_spec.bind ?_
  rintro _ _ ⟨same, free⟩
  rw [same]
  simp only [getValidator, exceedsMaxRotations, setConsPubKeyRotationHistory, staking_rules,
    FaultIn]
  intro v stored status _
  have bonded : v.isBonded = true := by simpa [Validator.isBonded] using status
  refine Post.imp (external_spec (contract.keyRotation ready.settled.shares ready.idle)) ?_
  rintro _ told ⟨sameTold, idleTold⟩
  rw [← sameTold] at idleTold
  refine Post.imp (external_spec (contract.fundCommunityPool idleTold)) ?_
  rintro _ paid ⟨samePaid, idlePaid⟩
  have same : paid.staking = world.staking := samePaid.trans sameTold
  rw [same]
  refine fun _ => ⟨?_, free, ?_⟩
  · have readyPaid : Ready K P tracked denom set log ⟨world.staking, paid.ext⟩ :=
      { ready with idle := by rw [← sameTold]; exact idlePaid }
    obtain ⟨queue, queued⟩ := setConsKeyQueue_same
      { world.staking with
          rotationHistory := world.staking.rotationHistory.set
            ⟨msg.validatorAddress, world.staking.blockHeight⟩
            ⟨msg.validatorAddress, v.consensusPubkey, msg.newPubkey, world.staking.blockHeight,
              told.staking.params.keyRotationFee⟩
          blockRotationHistory := world.staking.blockRotationHistory.set
            ⟨world.staking.blockHeight, msg.validatorAddress⟩
            ⟨msg.validatorAddress, v.consensusPubkey, msg.newPubkey, world.staking.blockHeight,
              told.staking.params.keyRotationFee⟩
          rotationIndex := world.staking.rotationIndex.set
            ⟨msg.validatorAddress,
              world.staking.blockTime + world.staking.params.unbondingTime⟩ () }
      (world.staking.blockTime + world.staking.params.unbondingTime) msg.validatorAddress
    rw [queued]
    exact readyPaid.announce contract stored bonded rfl rfl free rfl rfl rfl ⟨rfl, rfl, rfl, rfl⟩
      { ready.settled with } rfl rfl rfl
  · rfl

/-! ## The end of a block -/

omit contract

theorem Ready.updated {updates : List ValidatorUpdate} {world' : World σ}
    (updated : Updated K P tracked set world.staking updates world') :
    Ready K P tracked denom (applyUpdates set updates)
      (observeKeys log world.staking world'.staking) world' := by
  have holders : ∀ rotation ∈ getBlockConsPubKeyRotationHistory world.staking,
      (keyView world.staking).keys rotation.operatorAddress = some rotation.oldConsPubkey := by
    intro rotation member
    obtain ⟨v, stored, _, key⟩ := ready.rotations.holder (ready.rotations.mem_block.mp member)
    exact Option.map_eq_some_iff.mpr ⟨v, stored, key⟩
  have nothing : ∀ addr, pendingRotation world'.staking addr = none := by
    intro addr
    unfold pendingRotation
    rw [updated.rotations, updated.height]
    exact pendingRotation_deleteBlock addr
  have rotations : RotationsOK K.consAddress world'.staking := by
    apply RotationsOK.of_nothing _ nothing
    intro key rotation found
    rw [updated.rotations] at found
    rw [updated.height]
    unfold deleteBlockConsPubKeyRotationHistory at found
    dsimp only at found
    rw [get?_foldl_delete] at found
    split_ifs at found
    exact ready.rotations.filed found
  obtain ⟨applied, sublist, view⟩ := updated.view
  have rotated := ready.logged.rotateAll sublist holders ready.rotations.operators_nodup
    ready.rotations.newAddresses_nodup
  rw [← view] at rotated
  exact
    { settled := updated.settled
      idle := updated.idle
      bondDenom := fun tracks => by rw [updated.params]; exact ready.bondDenom tracks
      rotations := rotations
      tracks := updated.tracks
      logged := by
        have empty : getBlockConsPubKeyRotationHistory world'.staking ⊆ [] := by
          intro rotation member
          have announced := rotations.mem_block.mp member
          rw [nothing] at announced
          cases announced
        apply Logged.congr (rotated.forget empty)
        -- what is observed at a validator is what the rotations did to it
        intro operator key current
        obtain ⟨v', present, rfl⟩ := Option.map_eq_some_iff.mp current
        have once : (applied.map ConsPubKeyRotationHistory.operatorAddress).Nodup :=
          (sublist.map _).nodup ready.rotations.operators_nodup
        rcases @rotateAll_cases K.consAddress applied once operator log
          (keyView world.staking) with ⟨rotation, member, here, grown, keys⟩ | ⟨same, keys⟩
        · obtain ⟨v, stored, _, oldKey⟩ :=
            ready.rotations.holder (ready.rotations.mem_block.mp (sublist.subset member))
          rw [here] at stored
          rw [← view, current] at keys
          have newKey : v'.consensusPubkey = rotation.newConsPubkey := Option.some.inj keys
          have changes : v'.consensusPubkey ≠ v.consensusPubkey := by
            intro same
            have unused := ready.rotations.unused
              (ready.rotations.mem_block.mp (sublist.subset member))
            rw [← newKey, same, ready.settled.cons.resolves stored] at unused
            cases unused
          rw [grown, ← newKey]
          simp [observeKeys, stored, present, changes]
        · rw [← view, current] at keys
          obtain ⟨v, stored, key⟩ := Option.map_eq_some_iff.mp keys.symm
          rw [same]
          exact observeKeys_same stored present key.symm }

/-! ## Observed keys of the other operations -/

omit ready in
theorem Ready.observed {s : StakingState} {log' : Address → List PubKey}
    (ready : Ready K P tracked denom set log' world)
    (agree : ∀ {operator v}, world.staking.validators.get? operator = some v →
      observeKeys log s world.staking operator = log' operator) :
    Ready K P tracked denom set (observeKeys log s world.staking) world :=
  { ready with
    logged := by
      apply ready.logged.congr
      intro operator key current
      obtain ⟨v, stored, _⟩ := Option.map_eq_some_iff.mp current
      exact agree stored }

theorem Ready.observed_same {s : StakingState}
    (kept : ∀ {operator v'}, world.staking.validators.get? operator = some v' →
      ∃ v, s.validators.get? operator = some v ∧ v'.consensusPubkey = v.consensusPubkey) :
    Ready K P tracked denom set (observeKeys log s world.staking) world := by
  apply ready.observed
  intro operator v' present
  obtain ⟨v, stored, key⟩ := kept present
  exact observeKeys_same stored present key

theorem Ready.observed_kept {world' : World σ}
    (kept : Kept K P tracked (fun _ => 0) world.staking world') :
    Ready K P tracked denom set (observeKeys log world.staking world'.staking) world' := by
  apply (ready.kept kept).observed_same
  intro operator v' present
  obtain ⟨v, stored, key, _⟩ := kept.frame.kept present
  exact ⟨v, stored, key⟩

theorem Ready.post_observed {α : Type} {action : StakingM φ σ α}
    (spec : KeptBy K P tracked allowed action world) :
    Post action world (fun _ world' => Ready K P tracked denom set
      (observeKeys log world.staking world'.staking) world') (StopsOK tracked allowed) :=
  spec.imp fun _ _ kept => ready.observed_kept kept

end Specs

/-! ## Steps -/

/-- Operations that leave the bond denomination as it is. -/
def Op.keepsBondDenom (denom : Denom) : Op → Prop
  | .updateParams params => params.bondDenom = denom
  | _ => True

instance (denom : Denom) (op : Op) : Decidable (op.keepsBondDenom denom) := by
  cases op <;> unfold Op.keepsBondDenom <;> infer_instance

/-- The set CometBFT holds after an operation that succeeded. -/
def Op.nextSet (set : CometSet) (after : StakingState) : Op → CometSet
  | .applyAndReturnValidatorSetUpdates => applyUpdates set after.validatorUpdates
  | _ => set

/-- A state of a run: the world, the set CometBFT holds and the consensus keys each
stored validator has held since it was created. -/
structure Run (σ : Type) where
  world : World σ
  comet : CometSet
  keys : Address → List PubKey

/-- An operation that fails changes nothing. -/
def Run.step {φ σ : Type} (K : Keepers φ σ) (run : Run σ) (op : Op) : Run σ :=
  match op.exec K run.world with
  | .ok _ after =>
    ⟨after, op.nextSet run.comet after.staking,
      observeKeys run.keys run.world.staking after.staking⟩
  | .error _ _ => run

section Steps

variable {φ σ : Type} {K : Keepers φ σ} {P : Phases σ} {allowed : Fault φ → Prop}
  {tracked : Prop} {world : World σ} {denom : Denom} {set : CometSet}
  {log : Address → List PubKey}

/-- Every operation leads from a ready state to a ready state. -/
theorem Op.exec_spec (contract : HookContract K P allowed) (op : Op)
    (sameDenom : tracked → op.keepsBondDenom denom)
    (ready : Ready K P tracked denom set log world) :
    Post (op.exec K) world
      (fun _ world' => Ready K P tracked denom (op.nextSet set world'.staking)
        (observeKeys log world.staking world'.staking) world') (StopsOK tracked allowed) := by
  have settled := ready.settled
  have idle := ready.idle
  cases op with
  | createValidator msg =>
    apply (createValidator_spec contract ready).imp
    rintro _ world' ⟨created, absent, _, frame⟩
    apply created.observed
    intro operator v' present
    obtain ⟨v, stored, key, _⟩ := frame.kept present
    by_cases here : operator = msg.validatorAddress
    · subst here
      have created : v = createdValidator msg world.staking.blockTime :=
        Option.some.inj (stored.symm.trans get?_set_self)
      have newKey : v'.consensusPubkey = msg.pubkey := by
        rw [key, created]
        rfl
      simp [observeKeys, absent, present, newKey]
    · rw [Function.update_of_ne here]
      exact observeKeys_same ((get?_set_of_ne here).symm.trans stored) present key
  | editValidator msg =>
    exact ready.post_observed (editValidator_spec contract settled idle)
  | delegate msg =>
    exact ready.post_observed (msgDelegate_spec contract settled idle)
  | beginRedelegate msg =>
    exact ready.post_observed (msgBeginRedelegate_spec contract settled idle)
  | undelegate msg =>
    exact ready.post_observed (msgUndelegate_spec contract settled idle)
  | cancelUnbondingDelegation msg =>
    exact ready.post_observed (cancelUnbondingDelegation_spec contract settled idle)
  | rotateConsPubKey msg =>
    apply (rotateConsPubKey_spec contract ready).imp
    rintro _ world' ⟨announced, _, same⟩
    apply announced.observed_same
    intro operator v' present
    rw [same] at present
    exact ⟨v', present, rfl⟩
  | updateParams params =>
    apply (updateParams_spec contract ready sameDenom).imp
    rintro _ world' ⟨changed, frame⟩
    apply changed.observed_same
    intro operator v' present
    obtain ⟨v, stored, key, _⟩ := frame.kept present
    exact ⟨v, stored, key⟩
  | slash consAddr infractionHeight power slashFactor =>
    rw [Op.exec, post_bind]
    exact ready.post_observed (slash_spec contract settled idle fun _ _ => trivial)
  | jail consAddr =>
    exact ready.post_observed (jail_spec contract settled idle)
  | unjail consAddr =>
    exact ready.post_observed (unjail_spec contract settled idle)
  | completeUnbonding delegator validator =>
    exact ready.post_observed (completeUnbonding_spec contract settled idle)
  | completeRedelegation delegator source destination =>
    exact ready.post_observed (completeRedelegation_spec contract settled idle)
  | applyAndReturnValidatorSetUpdates =>
    rw [Op.exec, post_bind]
    apply (applyAndReturnValidatorSetUpdates_spec contract settled idle ready.rotations
      ready.tracks).imp
    intro updates world' updated
    show Ready K P tracked denom (applyUpdates set world'.staking.validatorUpdates) _ world'
    rw [updated.returned]
    exact ready.updated updated
  | unbondAllMatureValidators =>
    exact ready.post_observed (unbondAllMatureValidators_spec contract settled idle)
  | purgeAllMaturedConsKeyRotatedKeys =>
    rw [Op.exec, post_bind, post_stakingState]
    exact ready.post_observed (purgeAllMaturedConsKeyRotatedKeys_spec contract settled idle)
  | beginBlock height time =>
    apply (beginBlock_spec contract ready).imp
    rintro _ world' ⟨advanced, same⟩
    apply advanced.observed_same
    intro operator v' present
    rw [same] at present
    exact ⟨v', present, rfl⟩

abbrev Run.Ready (K : Keepers φ σ) (P : Phases σ) (tracked : Prop) (denom : Denom)
    (run : Run σ) : Prop :=
  Staking.Ready K P tracked denom run.comet run.keys run.world

theorem Run.Ready.step (contract : HookContract K P allowed) {run : Run σ}
    (ready : run.Ready K P tracked denom) {op : Op}
    (sameDenom : tracked → op.keepsBondDenom denom) : (run.step K op).Ready K P tracked denom := by
  have post := Op.exec_spec contract op sameDenom ready
  unfold Run.step
  cases ran : op.exec K run.world with
  | ok value after => exact post.of_ok ran
  | error fault after => exact ready

theorem Run.Ready.steps (contract : HookContract K P allowed) {ops : List Op} {run : Run σ}
    (ready : run.Ready K P tracked denom)
    (sameDenom : tracked → ∀ op ∈ ops, op.keepsBondDenom denom) :
    (ops.foldl (Run.step K) run).Ready K P tracked denom := by
  induction ops generalizing run with
  | nil => exact ready
  | cons op rest ih =>
    apply ih
    · exact ready.step contract fun tracks => sameDenom tracks op List.mem_cons_self
    · exact fun tracks other member => sameDenom tracks other (List.mem_cons_of_mem op member)

end Steps

end AtomOneSdk.Staking
