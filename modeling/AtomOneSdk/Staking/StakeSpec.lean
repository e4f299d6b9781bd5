import AtomOneSdk.Staking.Contract

/-!
Contract: what the writes and pool transfers of the staking keeper do to its
invariant.

Owns: for each record write, the invariant afterwards with what is pending and
owed, the change of stakes it means to other modules and what it leaves alone;
for each transfer, burn, token and share update, one specification.

Does **not** own: the functions that call hooks.
-/

namespace AtomOneSdk.Staking

open Lib Lib.Action

/-! ## Record writes -/

/-- The state after a validator record is replaced and filed anew. -/
def StakingState.reindexed (s : StakingState) (v v' : Validator) : StakingState :=
  ((s.deleteValidatorByPowerIndex v).setValidator v').setValidatorByPowerIndex v'

section Writes

variable {consAddress : PubKey → Address} {tracked : Prop} {pending : Address → Int}
  {owed : Bool → Int} {s : StakingState} {v v' : Validator} {addr : Address}

theorem Inv.reindexed (inv : Inv consAddress tracked pending owed s)
    (stored : s.validators.get? addr = some v) (newKey : v'.operatorAddress = addr)
    (samePubkey : v'.consensusPubkey = v.consensusPubkey) (sameStatus : v'.status = v.status)
    (nonneg : 0 ≤ v'.tokens) (covers : v'.tokens ≤ v'.delegatorShares) :
    Inv consAddress tracked (shift pending addr (v'.delegatorShares - v.delegatorShares))
      (shift owed v.isBonded (v.tokens - v'.tokens)) (s.reindexed v v') := by
  have oldKey := inv.shares.validatorKey stored
  have sameBonded : v'.isBonded = v.isBonded := by simp [Validator.isBonded, sameStatus]
  subst newKey
  exact
    { shares := inv.shares.setValidator stored rfl nonneg covers
      index := inv.index.reindex stored oldKey rfl
      last := inv.last.setValidator stored sameBonded
      cons := inv.cons.setValidator_same stored samePubkey
      unbondings := inv.unbondings
      redelegations := inv.redelegations
      pools := fun tracks => (inv.pools tracks).setValidator_same stored sameBonded }

theorem stakeAt_reindexed (newKey : v'.operatorAddress = addr) :
    stakeAt (s.reindexed v v')
      = Function.update (stakeAt s) addr (some (v'.tokens, v'.delegatorShares)) := by
  funext other
  subst newKey
  exact stakeAt_set rfl other

theorem get?_reindexed_self (newKey : v'.operatorAddress = addr) :
    (s.reindexed v v').validators.get? addr = some v' := by
  subst newKey
  exact Store.get?_set_self

def StakingState.fixed (s : StakingState) :=
  (s.params, s.blockHeight, s.blockTime, s.oldToNewConsAddr, s.consAddrToIdentifier,
    s.blockRotationHistory, s.lastValidatorPower)

theorem Frame.of_same {s s' : StakingState} (validators : s'.validators = s.validators)
    (fixed : s'.fixed = s.fixed) : Frame s s' := by
  simp only [StakingState.fixed, Prod.mk.injEq] at fixed
  obtain ⟨params, height, time, oldToNew, identifier, rotations, lastPower⟩ := fixed
  refine ⟨params, height, time, oldToNew, identifier, rotations, lastPower, ?_, ?_⟩
  · intro other w found
    rw [validators] at found
    exact ⟨w, found, rfl, rfl⟩
  · intro other w found absent
    rw [validators, found] at absent
    cases absent

/-- A write over a stored validator that keeps key and bonding, with other writes that
touch none of the fixed fields. -/
theorem Frame.of_set {s s' : StakingState} (stored : s.validators.get? addr = some v)
    (written : s'.validators = s.validators.set addr v')
    (samePubkey : v'.consensusPubkey = v.consensusPubkey) (sameBonded : v'.isBonded = v.isBonded)
    (fixed : s'.fixed = s.fixed) : Frame s s' := by
  have others : Frame s { s' with validators := s.validators } := Frame.of_same rfl fixed
  refine { others with kept := ?_, gone := ?_ }
  · intro other w found
    rw [written] at found
    rcases Store.get?_set_cases found with ⟨rfl, rfl⟩ | ⟨_, present⟩
    · exact ⟨v, stored, samePubkey, sameBonded⟩
    · exact ⟨w, present, rfl, rfl⟩
  · intro other w found absent
    rw [written, Store.get?_set] at absent
    split_ifs at absent
    rw [found] at absent
    cases absent

theorem Frame.reindexed (stored : s.validators.get? addr = some v)
    (newKey : v'.operatorAddress = addr) (samePubkey : v'.consensusPubkey = v.consensusPubkey)
    (sameStatus : v'.status = v.status) : Frame s (s.reindexed v v') := by
  have sameBonded : v'.isBonded = v.isBonded := by simp [Validator.isBonded, sameStatus]
  subst newKey
  exact Frame.of_set stored rfl samePubkey sameBonded rfl

/-- Writing a record that keeps tokens, shares, key, bonding and jailing. -/
theorem Inv.setValidator_same (inv : Inv consAddress tracked pending owed s)
    (stored : s.validators.get? addr = some v) (newKey : v'.operatorAddress = addr)
    (samePubkey : v'.consensusPubkey = v.consensusPubkey) (sameBonded : v'.isBonded = v.isBonded)
    (sameTokens : v'.tokens = v.tokens) (sameShares : v'.delegatorShares = v.delegatorShares)
    (sameJail : v'.jailed = v.jailed) :
    Inv consAddress tracked pending owed (s.setValidator v') := by
  have oldKey := inv.shares.validatorKey stored
  subst newKey
  exact
    { shares := inv.shares.setValidator_same stored rfl sameTokens sameShares
      index := inv.index.setValidator_same stored oldKey rfl sameTokens sameJail
      last := inv.last.setValidator stored sameBonded
      cons := inv.cons.setValidator_same stored samePubkey
      unbondings := inv.unbondings
      redelegations := inv.redelegations
      pools := by
        intro tracks
        have moved := (inv.pools tracks).setValidator_same stored sameBonded
        rwa [sameTokens, sub_self, shift_zero] at moved }

theorem stakeAt_setValidator_same (stored : s.validators.get? addr = some v)
    (newKey : v'.operatorAddress = addr) (sameTokens : v'.tokens = v.tokens)
    (sameShares : v'.delegatorShares = v.delegatorShares) :
    stakeAt (s.setValidator v') = stakeAt s := by
  funext other
  subst newKey
  rw [show stakeAt (s.setValidator v') other = _ from stakeAt_set rfl other]
  by_cases here : other = v'.operatorAddress
  · subst here
    simp [stakeAt, stored, sameTokens, sameShares]
  · simp [here]

/-- Rewriting whether a validator is jailed, with the power index. -/
theorem Inv.rejail (inv : Inv consAddress tracked pending owed s)
    (stored : s.validators.get? v.operatorAddress = some v) {jailed : Bool}
    {index : Store PowerKey Address}
    (ok : IndexOK (s.validators.set v.operatorAddress { v with jailed := jailed }) index) :
    Inv consAddress tracked pending owed
      { s.setValidator { v with jailed := jailed } with validatorsByPowerIndex := index } where
  shares := inv.shares.setValidator_same stored rfl rfl rfl
  index := ok
  last := inv.last.setValidator stored rfl
  cons := inv.cons.setValidator_same stored rfl
  unbondings := inv.unbondings
  redelegations := inv.redelegations
  pools := by
    intro tracks
    have moved := @PoolsOK.setValidator_same _ _ _ _ (inv.pools tracks) v.operatorAddress v
      { v with jailed := jailed } stored rfl
    rwa [sub_self, shift_zero] at moved

theorem Inv.deleteValidator (inv : Inv consAddress tracked pending owed s)
    (stored : s.validators.get? addr = some v) (unbonded : v.status = .unbonded)
    (noShares : v.delegatorShares = 0) (settled : pending addr = 0) :
    Inv consAddress tracked pending owed
      (s.deleteValidator addr (consAddress v.consensusPubkey) v) := by
  have oldKey := inv.shares.validatorKey stored
  have noTokens : v.tokens = 0 := by
    have nonneg := inv.shares.tokensNonneg stored
    have covered := inv.shares.covered stored
    omega
  exact
    { shares := inv.shares.removeValidator stored noShares settled
      index := inv.index.removeValidator stored oldKey
      last := inv.last.removeValidator stored (by simp [unbonded])
      cons := inv.cons.removeValidator stored
      unbondings := inv.unbondings
      redelegations := inv.redelegations
      pools := fun tracks => (inv.pools tracks).removeValidator stored noTokens }

theorem Frame.deleteValidator {consAddr : Address} (stored : s.validators.get? addr = some v)
    (unbonded : v.status = .unbonded) : Frame s (s.deleteValidator addr consAddr v) where
  params := rfl
  height := rfl
  time := rfl
  oldToNew := rfl
  identifier := rfl
  rotations := rfl
  lastPower := rfl
  kept := by
    intro other w found
    exact ⟨w, (Store.get?_delete_some found).2, rfl, rfl⟩
  gone := by
    intro other w found absent
    have absent' : (s.validators.delete addr).get? other = none := absent
    rw [Store.get?_delete] at absent'
    split_ifs at absent' with here
    · subst here
      have same : w = v := some_unique found stored
      simp [same, Validator.isBonded, unbonded]
    · rw [found] at absent'
      cases absent'

theorem stakeAt_deleteValidator {consAddr : Address} :
    stakeAt (s.deleteValidator addr consAddr v) = Function.update (stakeAt s) addr none := by
  funext other
  show ((s.validators.delete addr).get? other).map _ = _
  rw [Store.get?_delete]
  by_cases here : other = addr
  · simp [here]
  · simp [here, stakeAt]

theorem Inv.setDelegation (inv : Inv consAddress tracked pending owed s) {d : Delegation}
    (sharesPos : 0 < d.shares) (home : ∃ v, s.validators.get? d.validatorAddress = some v) :
    Inv consAddress tracked
      (shift pending d.validatorAddress
        (((s.delegations.get? ⟨d.delegatorAddress, d.validatorAddress⟩).map
          Delegation.shares).getD 0 - d.shares))
      owed (s.setDelegation d) :=
  { inv with shares := inv.shares.setDelegation rfl rfl sharesPos home }

theorem Inv.deleteDelegation (inv : Inv consAddress tracked pending owed s) {d : Delegation}
    {delAddr valAddr : Address} (stored : s.delegations.get? ⟨delAddr, valAddr⟩ = some d) :
    Inv consAddress tracked (shift pending valAddr d.shares) owed
      { s with delegations := s.delegations.delete ⟨delAddr, valAddr⟩ } :=
  { inv with shares := inv.shares.deleteDelegation stored }

theorem Core.addedTo (core : Core consAddress tracked pending owed s) (amount : Int)
    (isBonded : Bool) :
    Core consAddress tracked pending (shift owed isBonded amount) (s.addedTo amount isBonded) := by
  have pools : tracked → PoolsOK (shift owed isBonded amount)
      (poolBalance (s.addedTo amount isBonded)) s.validators s.unbondingDelegations := by
    intro tracks
    rw [poolBalance_addedTo]
    exact (core.pools tracks).transfer isBonded amount
  cases isBonded
  · exact { core with pools := pools }
  · exact { core with pools := pools }

end Writes

/-! ## Calls of other modules -/

section Calls

variable {φ σ : Type} {own : Fault (Reason φ) → Prop} {allowed : Fault φ → Prop} {tracked : Prop}
  {world : World σ} {call : StakingState → Action φ σ Unit} {after : σ → Prop}

theorem external_spec (keeps : Keeps allowed (call world.staking) world.ext after) :
    Post (external call) world
      (fun _ world' => world'.staking = world.staking ∧ after world'.ext)
      (StopsIn own tracked allowed) := by
  rw [post_external]
  exact keeps.mono (fun _ _ kept => ⟨rfl, kept⟩) (fun _ _ fine => faultIn_hook fine)

theorem ignoreError_external_spec
    (keeps : KeepsEvenOnError allowed (call world.staking) world.ext after) :
    Post (ignoreError (external call)) world
      (fun _ world' => world'.staking = world.staking ∧ after world'.ext)
      (StopsIn own tracked allowed) := by
  rw [post_ignoreError, post_external]
  refine keeps.mono (fun _ _ kept => ⟨rfl, kept⟩) ?_
  rintro (reason | reason) next ⟨fine, kept⟩
  · exact ⟨rfl, kept⟩
  · exact fine

end Calls

/-! ## Pools -/

def SameButPools (s s' : StakingState) : Prop :=
  ∃ bonded notBonded, s' = { s with bondedPool := bonded, notBondedPool := notBonded }

namespace SameButPools

variable {s s' s'' : StakingState}

theorem refl (s : StakingState) : SameButPools s s := ⟨s.bondedPool, s.notBondedPool, rfl⟩

theorem trans (first : SameButPools s s') (second : SameButPools s' s'') :
    SameButPools s s'' := by
  obtain ⟨_, _, rfl⟩ := first
  obtain ⟨bonded, notBonded, rfl⟩ := second
  exact ⟨bonded, notBonded, rfl⟩

theorem frame (same : SameButPools s s') : Frame s s' := by
  obtain ⟨_, _, rfl⟩ := same
  exact Frame.of_same rfl rfl

theorem sameStake (same : SameButPools s s') : SameStake s s' := by
  obtain ⟨_, _, rfl⟩ := same
  exact ⟨rfl, rfl, rfl, rfl⟩

end SameButPools

/-- A phase that transfers between the pools do not disturb. -/
structure TransferSafe {φ σ : Type} (K : Keepers φ σ) (allowed : Fault φ → Prop)
    (phase : StakingState → σ → Prop) : Prop where
  stable : ∀ {s s' e}, SameStake s s' → phase s e → phase s' e
  restrict : ∀ {s coin e}, phase s e → Keeps allowed (K.sendRestriction s coin) e (phase s)

section Pools

variable {φ σ : Type} {K : Keepers φ σ} {P : Phases σ} {allowed : Fault φ → Prop}
  {tracked : Prop} {pending : Address → Int} {owed : Bool → Int} {world : World σ}
  {phase : StakingState → σ → Prop} {amount : Int} {consAddress : PubKey → Address}
  {own : Fault (Reason φ) → Prop}

theorem HookContract.transferIdle (contract : HookContract K P allowed) :
    TransferSafe K allowed P.idle :=
  ⟨contract.idle_stable, contract.restrictIdle⟩

theorem HookContract.transferOpened (contract : HookContract K P allowed)
    (delAddr valAddr : Address) : TransferSafe K allowed (P.opened delAddr valAddr) :=
  ⟨contract.opened_stable, contract.restrictOpened⟩

theorem Core.owed_le {s : StakingState} (core : Core consAddress tracked pending owed s)
    (isBonded : Bool) (tracks : tracked) : owed isBonded ≤ poolBalance s isBonded :=
  (core.pools tracks).owed_le core.unbondings core.shares.tokensNonneg isBonded

theorem Inv.of_pools {s s' : StakingState} {owed' : Bool → Int}
    (inv : Inv consAddress tracked pending owed s) (same : SameButPools s s')
    (core : Core consAddress tracked pending owed' s') :
    Inv consAddress tracked pending owed' s' := by
  refine ⟨core, ?_⟩
  obtain ⟨_, _, rfl⟩ := same
  exact inv.last

/-- Taking coins out of the pool of a status. -/
def subFrom : Bool → Int → StakingM φ σ Unit
  | true, amount => subBondedPool amount
  | false, amount => subNotBondedPool amount

theorem subFrom_core (isBonded : Bool) (core : Core consAddress tracked pending owed world.staking)
    (enough : tracked → amount ≤ poolBalance world.staking isBonded) :
    Post (subFrom isBonded amount) world
      (fun _ world' => world'.ext = world.ext ∧ SameButPools world.staking world'.staking
        ∧ Core consAddress tracked pending (shift owed isBonded (-amount)) world'.staking)
      (StopsIn own tracked allowed) := by
  have taken := core.addedTo (-amount) isBonded
  cases isBonded
  all_goals
    simp only [subFrom, subBondedPool, subNotBondedPool, staking_rules]
    refine ⟨?_, ?_⟩
    · intro pool isPool
      obtain ⟨_, rfl⟩ := subPool_eq_some isPool
      exact ⟨⟨_, _, rfl⟩, taken⟩
    · intro short tracks
      exact @subPool_isSome _ ⟨world.staking.params.bondDenom, amount⟩ (enough tracks) short

theorem subFrom_spec (isBonded : Bool) (inv : Inv consAddress tracked pending owed world.staking)
    (enough : tracked → amount ≤ poolBalance world.staking isBonded) :
    Post (subFrom isBonded amount) world
      (fun _ world' => world'.ext = world.ext ∧ SameButPools world.staking world'.staking
        ∧ Inv consAddress tracked pending (shift owed isBonded (-amount)) world'.staking)
      (StopsIn own tracked allowed) := by
  refine (subFrom_core isBonded inv.toCore enough).imp ?_
  rintro _ world' ⟨sameExt, samePools, core⟩
  exact ⟨sameExt, samePools, inv.of_pools samePools core⟩

/-- The bank's send restriction leaves the phase and the staking state alone. -/
theorem restrictSend_spec (safe : TransferSafe K allowed phase)
    (current : phase world.staking world.ext) :
    Post (restrictSend K amount) world
      (fun _ world' => world'.staking = world.staking ∧ phase world'.staking world'.ext)
      (StopsOK tracked allowed) := by
  refine (external_spec (safe.restrict current)).imp ?_
  rintro _ world' ⟨same, kept⟩
  exact ⟨same, same ▸ kept⟩

/-- Moving tokens out of the pool of a status into the other one. -/
def moveFrom (K : Keepers φ σ) : Bool → Int → StakingM φ σ Unit
  | true, amount => bondedTokensToNotBonded K amount
  | false, amount => notBondedTokensToBonded K amount

theorem moveFrom_core (isBonded : Bool) (safe : TransferSafe K allowed phase)
    (core : Core consAddress tracked pending owed world.staking)
    (current : phase world.staking world.ext)
    (enough : tracked → amount ≤ poolBalance world.staking isBonded) :
    Post (moveFrom K isBonded amount) world
      (fun _ world' => SameButPools world.staking world'.staking
        ∧ Core consAddress tracked pending
          (shift (shift owed isBonded (-amount)) (!isBonded) amount)
            world'.staking
        ∧ phase world'.staking world'.ext) (StopsOK tracked allowed) := by
  have taken := @subFrom_core _ _ allowed _ _ _ world amount _ (fun _ => True) isBonded core enough
  cases isBonded
  all_goals
    simp only [moveFrom, bondedTokensToNotBonded, notBondedTokensToBonded, newCoinCheck, post_rules,
      FaultIn]
    refine fun _ => taken.imp ?_
    rintro _ middle ⟨sameExt, samePools, coreMiddle⟩
    have currentMiddle : phase middle.staking middle.ext := by
      rw [sameExt]
      exact safe.stable samePools.sameStake current
    refine (restrictSend_spec safe currentMiddle).imp ?_
    rintro _ last ⟨sameStaking, currentLast⟩
    have added := (sameStaking ▸ coreMiddle).addedTo amount
    simp only [addBondedPool, addNotBondedPool, post_modifyStaking]
    refine ⟨(sameStaking ▸ samePools).trans ⟨_, _, rfl⟩, added _, ?_⟩
    exact safe.stable (s := last.staking) ⟨rfl, rfl, rfl, rfl⟩ currentLast

theorem moveFrom_spec (isBonded : Bool) (safe : TransferSafe K allowed phase)
    (inv : Inv consAddress tracked pending owed world.staking)
    (current : phase world.staking world.ext)
    (enough : tracked → amount ≤ poolBalance world.staking isBonded) :
    Post (moveFrom K isBonded amount) world
      (fun _ world' => SameButPools world.staking world'.staking
        ∧ Inv consAddress tracked pending (shift (shift owed isBonded (-amount)) (!isBonded) amount)
            world'.staking
        ∧ phase world'.staking world'.ext) (StopsOK tracked allowed) := by
  refine (moveFrom_core isBonded safe inv.toCore current enough).imp ?_
  rintro _ world' ⟨samePools, core, kept⟩
  exact ⟨samePools, inv.of_pools samePools core, kept⟩

/-- Burning from the pool of a status. -/
def burnFrom : Bool → Int → StakingM φ σ Unit
  | true, amount => burnBondedTokens amount
  | false, amount => burnNotBondedTokens amount

theorem burnFrom_spec (isBonded : Bool) (inv : Inv consAddress tracked pending owed world.staking)
    (nonneg : 0 ≤ amount) (enough : tracked → amount ≤ owed isBonded) :
    Post (burnFrom isBonded amount) world
      (fun _ world' => world'.ext = world.ext ∧ SameButPools world.staking world'.staking
        ∧ Inv consAddress tracked pending (shift owed isBonded (-amount)) world'.staking)
      (StopsIn own tracked allowed) := by
  have burned := @subFrom_spec _ _ allowed _ _ _ world amount _ own isBonded inv
    fun tracks => (enough tracks).trans (inv.owed_le isBonded tracks)
  have unchanged : ¬ 0 < amount → world.ext = world.ext
      ∧ SameButPools world.staking world.staking
      ∧ Inv consAddress tracked pending (shift owed isBonded (-amount)) world.staking := by
    intro notPositive
    have nothing : amount = 0 := by omega
    rw [nothing, neg_zero, shift_zero]
    exact ⟨rfl, SameButPools.refl _, inv⟩
  cases isBonded
  · exact post_whenever.mpr ⟨fun _ => burned, unchanged⟩
  · exact post_whenever.mpr ⟨fun _ => burned, unchanged⟩

end Pools

end AtomOneSdk.Staking
