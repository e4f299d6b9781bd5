import AtomOneSdk.Staking.KeyHistory
import AtomOneSdk.Staking.SlashSpec
import AtomOneSdk.Staking.UpdateSpec

/-!
Contract: every staking operation keeps the state ready for the next one.

Owns: the specifications of the message handlers and of the end of validator
unbonding, the invariant `Ready` between operations together with the set CometBFT
holds and the keys each validator has held, and its preservation by every operation.

Does **not** own: the keeper functions below the messages.
-/

namespace AtomOneSdk.Staking

open Lib Lib.Action List

/-! ## What the frame keeps -/

section Framed

variable {consAddress : PubKey → Address} {s s' : StakingState}

/-- A bonded validator stays stored and bonded, with its key. -/
theorem Frame.bonded_kept (frame : Frame s s') {addr : Address} {v : Validator}
    (stored : s.validators.get? addr = some v) (bonded : v.isBonded = true) :
    ∃ v', s'.validators.get? addr = some v' ∧ v'.isBonded = true
      ∧ v'.consensusPubkey = v.consensusPubkey := by
  cases present : s'.validators.get? addr with
  | none =>
    rw [frame.gone stored present] at bonded
    cases bonded
  | some v' =>
    obtain ⟨w, found, key, status⟩ := frame.kept present
    have same : w = v := some_unique found stored
    rw [same] at key status
    exact ⟨v', rfl, status.trans bonded, key⟩

theorem Frame.pendingRotation (frame : Frame s s') (addr : Address) :
    pendingRotation s' addr = pendingRotation s addr := by
  unfold Staking.pendingRotation
  rw [frame.rotations, frame.height]

theorem Frame.blockRotations (frame : Frame s s') :
    getBlockConsPubKeyRotationHistory s' = getBlockConsPubKeyRotationHistory s := by
  unfold getBlockConsPubKeyRotationHistory
  rw [frame.rotations, frame.height]

theorem Frame.unused_kept (frame : Frame s s')
    (before : ConsOK consAddress s.validators s.validatorByConsAddr)
    (after : ConsOK consAddress s'.validators s'.validatorByConsAddr) {consAddr : Address}
    (unused : s.validatorByConsAddr.get? consAddr = none) :
    s'.validatorByConsAddr.get? consAddr = none := by
  cases holder : s'.validatorByConsAddr.get? consAddr with
  | none => rfl
  | some operator =>
    obtain ⟨v', present, rfl⟩ := after.held holder
    obtain ⟨v, stored, key, _⟩ := frame.kept present
    rw [key, before.resolves stored] at unused
    cases unused

theorem RotationsOK.framed (ok : RotationsOK consAddress s) (frame : Frame s s')
    (before : ConsOK consAddress s.validators s.validatorByConsAddr)
    (after : ConsOK consAddress s'.validators s'.validatorByConsAddr) :
    RotationsOK consAddress s' where
  filed := by
    intro key rotation found
    rw [frame.rotations] at found
    rw [frame.height]
    exact ok.filed found
  holder := by
    intro addr rotation announced
    rw [frame.pendingRotation] at announced
    obtain ⟨v, stored, bonded, key⟩ := ok.holder announced
    obtain ⟨v', present, stillBonded, sameKey⟩ := frame.bonded_kept stored bonded
    exact ⟨v', present, stillBonded, sameKey.trans key⟩
  unused := by
    intro addr rotation announced
    rw [frame.pendingRotation] at announced
    exact frame.unused_kept before after (ok.unused announced)
  apart := by
    intro left right rotation rotation' first second
    rw [frame.pendingRotation] at first second
    exact ok.apart first second

theorem Tracks.framed {set : CometSet} (tracks : Tracks set s.validators s.lastValidatorPower)
    (last : LastOK s.validators s.lastValidatorPower s.lastTotalPower) (frame : Frame s s') :
    Tracks set s'.validators s'.lastValidatorPower where
  stored := by
    intro addr v' present
    obtain ⟨v, stored, key, _⟩ := frame.kept present
    rw [key, frame.lastPower]
    exact tracks.stored stored
  absent := by
    intro key nobody
    by_cases before : ∃ addr v, s.validators.get? addr = some v ∧ v.consensusPubkey = key
    · -- the holder is gone, so it was not bonded and had no power
      obtain ⟨addr, v, stored, rfl⟩ := before
      rw [tracks.stored stored]
      cases recorded : s.lastValidatorPower.get? addr with
      | none => rfl
      | some power =>
        obtain ⟨w, found, bonded⟩ := last.bonded recorded
        have same : w = v := some_unique found stored
        have isBonded : v.isBonded = true := by simp [Validator.isBonded, ← same, bonded]
        obtain ⟨v', present, _, sameKey⟩ := frame.bonded_kept stored isBonded
        exact absurd sameKey (nobody present)
    · apply tracks.absent
      intro addr v stored holds
      exact before ⟨addr, v, stored, holds⟩

theorem Logged.framed {log : Address → List PubKey}
    (ok : Logged consAddress log (keyView s) (getBlockConsPubKeyRotationHistory s))
    (frame : Frame s s') (after : ConsOK consAddress s'.validators s'.validatorByConsAddr) :
    Logged consAddress log (keyView s') (getBlockConsPubKeyRotationHistory s') := by
  rw [frame.blockRotations]
  apply ok.shrink
  · intro operator key current
    obtain ⟨v', present, rfl⟩ := Option.map_eq_some_iff.mp current
    obtain ⟨v, stored, key, _⟩ := frame.kept present
    rw [key]
    exact Option.map_eq_some_iff.mpr ⟨v, stored, rfl⟩
  · intro operator key current
    obtain ⟨v', present, rfl⟩ := Option.map_eq_some_iff.mp current
    exact after.resolves present
  · intro addr operator held
    obtain ⟨v', present, here⟩ := after.held held
    exact ⟨v'.consensusPubkey, Option.map_eq_some_iff.mpr ⟨v', present, rfl⟩, here⟩
  · exact frame.oldToNew
  · exact frame.identifier

end Framed

/-! ## Ready for the next operation -/

/-- Between operations: the staking invariant, the invariant of the other modules,
the announced rotations, the set CometBFT holds and the keys held so far. -/
structure Ready {φ σ : Type} (K : Keepers φ σ) (P : Phases σ) (tracked : Prop) (denom : Denom)
    (set : CometSet) (log : Address → List PubKey) (world : World σ) : Prop where
  settled : Settled K.consAddress tracked world.staking
  idle : P.idle world.staking world.ext
  bondDenom : tracked → world.staking.params.bondDenom = denom
  rotations : RotationsOK K.consAddress world.staking
  tracks : Tracks set world.staking.validators world.staking.lastValidatorPower
  logged : Logged K.consAddress log (keyView world.staking)
    (getBlockConsPubKeyRotationHistory world.staking)

section Specs

variable {φ σ : Type} {K : Keepers φ σ} {P : Phases σ} {allowed : Fault φ → Prop}
  {tracked : Prop} {world : World σ} {denom : Denom} {set : CometSet}
  {log : Address → List PubKey}

theorem Ready.kept (ready : Ready K P tracked denom set log world) {world' : World σ}
    (kept : Kept K P tracked (fun _ => 0) world.staking world') :
    Ready K P tracked denom set log world' where
  settled := kept.inv
  idle := kept.idle
  bondDenom := fun tracks => by rw [kept.frame.params]; exact ready.bondDenom tracks
  rotations := ready.rotations.framed kept.frame ready.settled.cons kept.inv.cons
  tracks := ready.tracks.framed ready.settled.last kept.frame
  logged := ready.logged.framed kept.frame kept.inv.cons

/-! ## Operations inside the frame -/

theorem mustGetValidatorByConsAddr_spec {consAddr : Address}
    (settled : Settled K.consAddress tracked world.staking) :
    Post (mustGetValidatorByConsAddr consAddr : StakingM φ σ Validator) world
      (fun v world' => world' = world ∧ world.staking.validators.get? v.operatorAddress = some v)
      (StopsOK tracked allowed) := by
  simp only [mustGetValidatorByConsAddr, staking_rules, FaultIn]
  intro v found
  obtain ⟨operator, stored⟩ := getValidatorByConsAddr_stored found
  rw [settled.shares.validatorKey stored]
  exact stored

theorem failIfSome_spec {reason : Option (Reason φ)}
    (fine : ∀ found, reason = some found → FaultOK tracked allowed (.error found)) :
    Passes tracked allowed (failIfSome reason) world := by
  cases reason with
  | none => exact rfl
  | some found => exact fine found rfl

/-- An optional text becomes an ordinary error of the keeper. -/
theorem failIfText_spec {text : Option String} {wrap : String → Reason φ}
    (fine : ∀ found, FaultOK tracked allowed (.error (wrap found))) :
    Passes tracked allowed (failIfSome (text.map wrap)) world := by
  apply failIfSome_spec
  intro found present
  obtain ⟨words, _, rfl⟩ := Option.map_eq_some_iff.mp present
  exact fine words

theorem checkCommissionRange_spec {rate : Int} :
    Passes tracked allowed (checkCommissionRange rate) world := by
  simp only [Passes, checkCommissionRange, staking_rules, FaultIn]

theorem optionalRange_spec (rate : Option Int) :
    Passes tracked allowed (match rate with
      | some rate => checkCommissionRange rate
      | none => pure ()) world := by
  cases rate with
  | none => exact rfl
  | some rate => exact checkCommissionRange_spec

theorem validateNewRate_fine {c : Commission} {newRate : Int} {now : Time} {reason : Reason φ}
    (found : c.validateNewRate newRate now = some reason) :
    FaultOK tracked allowed (.error reason) := by
  unfold Commission.validateNewRate at found
  split_ifs at found <;> cases found <;> trivial

theorem editedMinSelfDelegation_spec {v : Validator} {minimum : Option Int} :
    Passes tracked allowed (editedMinSelfDelegation v minimum) world := by
  cases minimum with
  | none => exact rfl
  | some newMinimum =>
    simp only [Passes, editedMinSelfDelegation, post_rules, FaultIn]

/-- Writes to queues and indexes of which no invariant speaks. -/
theorem Kept.of_same (contract : HookContract K P allowed) {s : StakingState}
    (kept : Kept K P tracked (fun _ => 0) s world) {s' : StakingState}
    (settled : Settled K.consAddress tracked world.staking → Settled K.consAddress tracked s')
    (sameStake : SameStake world.staking s') (frame : Frame world.staking s') :
    Kept K P tracked (fun _ => 0) s ⟨s', world.ext⟩ where
  inv := settled kept.inv
  idle := contract.idle_stable sameStake kept.idle
  frame := kept.frame.trans frame

section Messages

variable (contract : HookContract K P allowed)
  (settled : Settled K.consAddress tracked world.staking) (idle : P.idle world.staking world.ext)

include settled idle in
theorem Kept.refl :
    Kept K P tracked (fun _ => 0) world.staking world :=
  ⟨settled, idle, Frame.refl _⟩

include contract settled idle

/-- Rewriting a record without touching its stake, key, bonding or jailing. -/
theorem Kept.rewrite {addr : Address} {v v' : Validator}
    (stored : world.staking.validators.get? addr = some v) (newKey : v'.operatorAddress = addr)
    (samePubkey : v'.consensusPubkey = v.consensusPubkey) (sameBonded : v'.isBonded = v.isBonded)
    (sameTokens : v'.tokens = v.tokens) (sameShares : v'.delegatorShares = v.delegatorShares)
    (sameJail : v'.jailed = v.jailed) :
    Kept K P tracked (fun _ => 0) world.staking ⟨world.staking.setValidator v', world.ext⟩ where
  inv :=
    settled.setValidator_same stored newKey samePubkey sameBonded sameTokens sameShares sameJail
  idle := by
    apply contract.idle_stable _ idle
    exact ⟨stakeAt_setValidator_same stored newKey sameTokens sameShares, rfl, rfl, rfl⟩
  frame := by
    subst newKey
    exact Frame.of_set stored rfl samePubkey sameBonded rfl

/-- Rewriting whether a validator is jailed, with the power index. -/
theorem Kept.rejail {v : Validator} {jailed : Bool} {index : Store PowerKey Address}
    (stored : world.staking.validators.get? v.operatorAddress = some v)
    (ok : IndexOK (world.staking.validators.set v.operatorAddress { v with jailed := jailed })
      index) :
    Kept K P tracked (fun _ => 0) world.staking
      ⟨{ world.staking.setValidator { v with jailed := jailed } with
          validatorsByPowerIndex := index }, world.ext⟩ where
  inv := settled.rejail stored ok
  idle := by
    apply contract.idle_stable _ idle
    exact ⟨stakeAt_setValidator_same stored rfl rfl rfl, rfl, rfl, rfl⟩
  frame := Frame.of_set stored rfl rfl rfl rfl

theorem jail_spec {consAddr : Address} : KeptBy K P tracked allowed (jail consAddr) world := by
  simp only [jail, post_bind]
  apply (mustGetValidatorByConsAddr_spec settled).imp
  rintro v _ ⟨same, stored⟩
  subst same
  simp only [jailValidator, staking_rules, FaultIn]
  exact fun _ =>
    Kept.rejail contract settled idle stored (settled.index.jail stored rfl rfl rfl rfl)

theorem unjail_spec {consAddr : Address} :
    KeptBy K P tracked allowed (unjail consAddr) world := by
  simp only [unjail, post_bind]
  apply (mustGetValidatorByConsAddr_spec settled).imp
  rintro v _ ⟨same, stored⟩
  subst same
  simp only [unjailValidator, staking_rules, FaultIn]
  exact fun _ =>
    Kept.rejail contract settled idle stored (settled.index.unjail stored rfl rfl rfl rfl)

theorem msgDelegate_spec {msg : MsgDelegate} :
    KeptBy K P tracked allowed (msgDelegate K msg) world := by
  simp only [msgDelegate, checkAmount, checkBondDenom, getValidator, staking_rules, not_not,
    FaultIn]
  intro positive v stored _
  rw [← settled.shares.validatorKey stored] at stored
  apply (delegate_spec contract settled idle stored positive (fun _ bad => by cases bad)).imp
  rintro issued world' ⟨_, inv, idleAfter, frame⟩
  exact ⟨inv, idleAfter, frame.toFrame⟩

theorem msgUndelegate_spec {msg : MsgUndelegate} :
    KeptBy K P tracked allowed (msgUndelegate K msg) world := by
  simp only [msgUndelegate, checkAmount, checkBondDenom, newCoinCheck, staking_rules, not_not,
    FaultIn]
  intro positive
  apply (validateUnbondAmount_spec settled positive).imp
  rintro shares _ ⟨same, sharesPos⟩
  subst same
  intro _
  apply (undelegate_spec contract settled idle sharesPos).imp
  exact fun _ world' kept _ => kept

theorem msgBeginRedelegate_spec {msg : MsgBeginRedelegate} :
    KeptBy K P tracked allowed (msgBeginRedelegate K msg) world := by
  simp only [msgBeginRedelegate, checkAmount, checkBondDenom, staking_rules, not_not, FaultIn]
  intro positive
  apply (validateUnbondAmount_spec settled positive).imp
  rintro shares _ ⟨same, sharesPos⟩
  subst same
  exact fun _ => beginRedelegation_spec contract settled idle sharesPos

theorem editedCommission_spec {v : Validator} {valAddr : Address} {rate : Option Int} :
    Post (editedCommission K v valAddr rate) world
      (fun _ world' => world'.staking = world.staking ∧ P.idle world'.staking world'.ext)
      (StopsOK tracked allowed) := by
  cases rate with
  | none => exact ⟨rfl, idle⟩
  | some newRate =>
    simp only [editedCommission, updateValidatorCommission, staking_rules]
    cases checked : (v.commission.validateNewRate newRate world.staking.blockTime :
        Option (Reason φ)) with
    | some reason => exact validateNewRate_fine checked
    | none =>
      simp only [post_rules, post_external, FaultIn]
      intro _
      apply (contract.modified settled.shares idle).mono
      · exact fun _ next kept => kept
      · rintro fault next ⟨fine, _⟩
        exact faultIn_hook fine

theorem editValidator_spec {msg : MsgEditValidator} :
    KeptBy K P tracked allowed (editValidator K msg) world := by
  simp only [editValidator, getValidator, staking_rules, FaultIn]
  intro _ _
  apply (optionalRange_spec msg.commissionRate).imp
  intro _ _ same
  subst same
  intro v stored
  refine Post.imp (failIfText_spec ?_) ?_
  · exact fun _ => trivial
  intro _ _ same
  subst same
  apply (editedCommission_spec contract settled idle).imp
  rintro commission edited ⟨sameStaking, idleEdited⟩
  apply editedMinSelfDelegation_spec.imp
  intro minimum _ same
  subst same
  rw [← sameStaking] at settled stored ⊢
  have sameKey := settled.shares.validatorKey stored
  exact Kept.rewrite contract settled idleEdited stored sameKey rfl rfl rfl rfl rfl

end Messages

/-! ## End of validator unbonding -/

theorem get?_deleteUnbondingIndexes (ids : List Nat) (s : StakingState) :
    ∃ index, ids.foldl StakingState.deleteUnbondingIndex s
      = { s with unbondingIndex := index } := by
  induction ids generalizing s with
  | nil => exact ⟨s.unbondingIndex, rfl⟩
  | cons id rest ih =>
    obtain ⟨index, same⟩ := ih (s.deleteUnbondingIndex id)
    exact ⟨index, same⟩

variable (contract : HookContract K P allowed)

include contract

/-- The last step of a validator's unbonding: without shares it is removed. -/
theorem retireValidator_spec {addr : Address} {v : Validator} {s : StakingState}
    (kept : Kept K P tracked (fun _ => 0) s world)
    (stored : world.staking.validators.get? addr = some v) (unbonding : v.isUnbonding = true) :
    Post (do
        let unbonded ← (completeUnbondingValidator v : StakingM φ σ Validator)
        if unbonded.delegatorShares = 0 then do
          removeValidator K unbonded.operatorAddress
          modifyStaking (·.deleteValidatorQueue unbonded)
        else do
          let cleared := { unbonded with unbondingIds := [] }
          modifyStaking (·.setValidator cleared)
          modifyStaking (·.deleteValidatorQueue cleared)) world
      (fun _ world' => Kept K P tracked (fun _ => 0) s world') (StopsOK tracked allowed) := by
  have isUnbonding : v.status = .unbonding := by simpa [Validator.isUnbonding] using unbonding
  have sameKey := kept.inv.shares.validatorKey stored
  have sameBonded : (v.updateStatus .unbonded).isBonded = v.isBonded := by
    simp [Validator.isBonded, Validator.updateStatus, isUnbonding]
  have retired : Kept K P tracked (fun _ => 0) world.staking
      ⟨world.staking.setValidator (v.updateStatus .unbonded), world.ext⟩ :=
    Kept.rewrite contract kept.inv kept.idle stored sameKey rfl sameBonded rfl rfl rfl
  have storedAfter : (world.staking.setValidator (v.updateStatus .unbonded)).validators.get?
      v.operatorAddress = some (v.updateStatus .unbonded) := Store.get?_set_self
  simp only [completeUnbondingValidator, staking_rules, post_ite]
  constructor
  · intro noShares
    apply (removeValidator_spec contract retired.inv retired.idle storedAfter noShares rfl).imp
    rintro _ removed ⟨inv, idle, frame, _⟩
    have keptRemoved : Kept K P tracked (fun _ => 0) s removed :=
      ⟨inv, idle, (kept.frame.trans retired.frame).trans frame.toFrame⟩
    exact keptRemoved.of_same contract (fun settled => { settled with }) ⟨rfl, rfl, rfl, rfl⟩
      (Frame.of_same rfl rfl)
  · intro _
    have cleared : Kept K P tracked (fun _ => 0)
        (world.staking.setValidator (v.updateStatus .unbonded))
        ⟨(world.staking.setValidator (v.updateStatus .unbonded)).setValidator
          { v.updateStatus .unbonded with unbondingIds := [] }, world.ext⟩ :=
      Kept.rewrite contract retired.inv retired.idle storedAfter rfl rfl rfl rfl rfl rfl
    have keptCleared : Kept K P tracked (fun _ => 0) s _ :=
      ⟨cleared.inv, cleared.idle, (kept.frame.trans retired.frame).trans cleared.frame⟩
    exact keptCleared.of_same contract (fun settled => { settled with }) ⟨rfl, rfl, rfl, rfl⟩
      (Frame.of_same rfl rfl)

theorem unbondMatureValidator_spec {addr : Address} {s : StakingState}
    (kept : Kept K P tracked (fun _ => 0) s world) :
    Post (unbondMatureValidator K addr) world
      (fun _ world' => Kept K P tracked (fun _ => 0) s world') (StopsOK tracked allowed) := by
  simp only [unbondMatureValidator, unbondingToUnbonded]
  rw [post_bind, post_stakingState, post_bind, post_getOrFail]
  refine ⟨fun v stored => ?_, fun _ => trivial⟩
  rw [post_bind, post_failIf]
  refine ⟨fun _ => trivial, fun unbonding => ?_⟩
  rw [post_whenever]
  refine ⟨fun _ => ?_, fun _ => kept⟩
  rw [post_bind, post_modifyStaking]
  obtain ⟨index, deleted⟩ := get?_deleteUnbondingIndexes v.unbondingIds world.staking
  rw [deleted]
  have keptIndex : Kept K P tracked (fun _ => 0) s
      ⟨{ world.staking with unbondingIndex := index }, world.ext⟩ :=
    kept.of_same contract (fun settled => { settled with }) ⟨rfl, rfl, rfl, rfl⟩
      (Frame.of_same rfl rfl)
  have isUnbonding : v.isUnbonding = true := by simpa using unbonding
  have retire := retireValidator_spec contract keptIndex stored isUnbonding
  rw [post_bind, post_bind, post_failIf]
  refine ⟨fun _ => trivial, fun _ => ?_⟩
  rwa [post_bind] at retire

theorem unbondAllMatureValidators_spec (settled : Settled K.consAddress tracked world.staking)
    (idle : P.idle world.staking world.ext) :
    KeptBy K P tracked allowed (unbondAllMatureValidators K) world := by
  simp only [unbondAllMatureValidators, staking_rules]
  apply post_forEach (fun _ world' => Kept K P tracked (fun _ => 0) world.staking world')
  · intro addr _ world' kept
    exact unbondMatureValidator_spec contract kept
  · exact Kept.refl settled idle

/-! ## Rotation index and parameters -/

theorem deleteConsKeyIndexKey_spec {valAddr : Address} {ts : Time} {s : StakingState}
    (kept : Kept K P tracked (fun _ => 0) s world) :
    Post (deleteConsKeyIndexKey valAddr ts : StakingM φ σ Unit) world
      (fun _ world' => Kept K P tracked (fun _ => 0) s world') (StopsOK tracked allowed) := by
  simp only [deleteConsKeyIndexKey, staking_rules]
  apply post_forEach (fun _ world' => Kept K P tracked (fun _ => 0) s world')
  · intro key _ world' keptHere
    simp only [staking_rules, FaultIn]
    refine fun _ => ⟨fun _ => ?_, fun _ => keptHere⟩
    exact keptHere.of_same contract (fun settled => { settled with }) ⟨rfl, rfl, rfl, rfl⟩
      (Frame.of_same rfl rfl)
  · exact kept

theorem purgeAllMaturedConsKeyRotatedKeys_spec {ts : Time}
    (settled : Settled K.consAddress tracked world.staking)
    (idle : P.idle world.staking world.ext) :
    KeptBy K P tracked allowed
      (purgeAllMaturedConsKeyRotatedKeys ts : StakingM φ σ Unit) world := by
  simp only [purgeAllMaturedConsKeyRotatedKeys, staking_rules]
  apply post_forEach (fun _ world' => Kept K P tracked (fun _ => 0) world.staking world')
  · intro addr _ world' kept
    exact deleteConsKeyIndexKey_spec contract kept
  · exact (Kept.refl settled idle).of_same contract (fun settled => { settled with })
      ⟨rfl, rfl, rfl, rfl⟩ (Frame.of_same rfl rfl)

omit contract

/-- The records a loop over all validators still has to rewrite are as they were. -/
structure Unwritten (rest : List Validator) (vals : Store Address Validator) : Prop where
  stored : ∀ v ∈ rest, vals.get? v.operatorAddress = some v
  once : (rest.map Validator.operatorAddress).Nodup

theorem Unwritten.start {consAddress : PubKey → Address} {s : StakingState}
    (settled : Settled consAddress tracked s) : Unwritten s.validators.values s.validators where
  stored := by
    intro v member
    obtain ⟨⟨addr, w⟩, entry, rfl⟩ := mem_map.mp member
    have present := Store.mem_entries.mp entry
    rw [settled.shares.validatorKey present]
    exact present
  once := by
    have keys : s.validators.values.map Validator.operatorAddress = s.validators.keys := by
      unfold Store.values Store.keys
      rw [map_map]
      apply map_congr_left
      intro entry member
      exact settled.shares.validatorKey (Store.mem_entries.mp member)
    rw [keys]
    exact s.validators.keys_nodup

theorem Unwritten.write {v v' : Validator} {rest : List Validator}
    {vals : Store Address Validator} (ok : Unwritten (v :: rest) vals)
    (sameKey : v'.operatorAddress = v.operatorAddress) :
    Unwritten rest (vals.set v'.operatorAddress v') where
  stored := by
    intro w member
    have apart : w.operatorAddress ≠ v'.operatorAddress := by
      intro same
      exact (nodup_cons.mp ok.once).1 (mem_map.mpr ⟨w, member, same.trans sameKey⟩)
    rw [Store.get?_set_of_ne apart]
    exact ok.stored w (mem_cons_of_mem v member)
  once := (nodup_cons.mp ok.once).2

theorem updateValidatorCommissionsForNewRange_spec (contract : HookContract K P allowed)
    {minRate maxRate : Int} (settled : Settled K.consAddress tracked world.staking)
    (idle : P.idle world.staking world.ext) :
    KeptBy K P tracked allowed
      (updateValidatorCommissionsForNewRange minRate maxRate : StakingM φ σ Unit) world := by
  simp only [updateValidatorCommissionsForNewRange, staking_rules]
  have start : Kept K P tracked (fun _ => 0) world.staking world
      ∧ Unwritten world.staking.validators.values world.staking.validators :=
    ⟨Kept.refl settled idle, Unwritten.start settled⟩
  apply Post.imp (post_forEach
    (fun rest world' => Kept K P tracked (fun _ => 0) world.staking world'
      ∧ Unwritten rest world'.staking.validators) ?_ _ _ start)
  · exact fun _ _ done => done.1
  · rintro v rest world' ⟨kept, unwritten⟩
    have stored := unwritten.stored v mem_cons_self
    have written : Kept K P tracked (fun _ => 0) world'.staking
        ⟨world'.staking.setValidator (clampCommission minRate maxRate v), world'.ext⟩ :=
      Kept.rewrite contract kept.inv kept.idle stored rfl rfl rfl rfl rfl rfl
    rw [post_modifyStaking]
    exact ⟨⟨written.inv, written.idle, kept.frame.trans written.frame⟩, unwritten.write rfl⟩

end Specs

end AtomOneSdk.Staking
