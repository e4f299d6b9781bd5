import AtomOneSdk.Staking.UnbondingSpec

/-!
Contract: specifications of slashing.

Owns: that slashing unbonding delegations, redelegations and a validator's own
tokens keeps the staking invariant and every external invariant that meets the
hook contract, with the burned tokens owed by the pools in between.

Does **not** own: who asks for a slash.
-/

namespace AtomOneSdk.Staking

open Lib Lib.Action List

section Specs

variable {φ σ : Type} {K : Keepers φ σ} {P : Phases σ} {allowed : Fault φ → Prop}
  {tracked : Prop} {owed : Bool → Int} {world : World σ} {own : Fault (Reason φ) → Prop}

/-! ## Unbonding delegations -/

def UnbondingDelegation.key (ubd : UnbondingDelegation) : Pair Address Address :=
  ⟨ubd.delegatorAddress, ubd.validatorAddress⟩

/-- Records read through the validator index are stored, each under its own key. -/
theorem getUnbondingDelegationsFromValidator_spec {s : StakingState}
    (ok : UnbondingsOK s.unbondingDelegations) (valAddr : Address) :
    (∀ ubd ∈ s.getUnbondingDelegationsFromValidator valAddr,
        s.unbondingDelegations.get? ubd.key = some ubd)
      ∧ (s.getUnbondingDelegationsFromValidator valAddr).Pairwise fun a b => a.key ≠ b.key := by
  have keyOf : ∀ {key : Pair Address Address} {ubd},
      s.unbondingDelegations.get? ⟨key.snd, key.fst⟩ = some ubd →
      ubd.key = ⟨key.snd, key.fst⟩ := by
    intro key ubd found
    obtain ⟨delegator, validator⟩ := ok.filed found
    rw [UnbondingDelegation.key, delegator, validator]
  unfold StakingState.getUnbondingDelegationsFromValidator
  refine ⟨?_, ?_⟩
  · intro ubd member
    obtain ⟨key, _, found⟩ := mem_filterMap.mp member
    rw [keyOf found]
    exact found
  · rw [pairwise_filterMap]
    refine (s.ubdByValIndex.keys_nodup.filter _).imp ?_
    intro key key' apart ubd found ubd' found' same
    rw [keyOf found, keyOf found'] at same
    apply apart
    cases key
    cases key'
    cases same
    rfl

variable {infractionHeight slashFactor slashAmount : Int} {red : Redelegation}
  {acc : RedelegationSlash}

/-- The staking invariant is kept, and of the records only this one may have changed. -/
abbrev KeptBut (K : Keepers φ σ) (P : Phases σ) (tracked : Prop) (owed : Bool → Int)
    (ubd : UnbondingDelegation) (world world' : World σ) : Prop :=
  Kept K P tracked owed world.staking world'
    ∧ (world'.staking.validators = world.staking.validators
      ∧ world'.staking.redelegations = world.staking.redelegations)
    ∧ ∀ key ≠ ubd.key, world'.staking.unbondingDelegations.get? key
        = world.staking.unbondingDelegations.get? key

theorem slashUnbondingDelegation_spec (contract : HookContract K P allowed)
    {ubd : UnbondingDelegation} (settled : Settled K.consAddress tracked world.staking)
    (idle : P.idle world.staking world.ext) (factor : 0 ≤ slashFactor)
    (stored : world.staking.unbondingDelegations.get? ubd.key = some ubd) :
    Post (slashUnbondingDelegation ubd infractionHeight slashFactor) world
      (fun _ => KeptBut K P tracked (fun _ => 0) ubd world) (StopsIn own tracked allowed) := by
  have bounds := settled.unbondings.entries stored
  set entries := slashedEntries infractionHeight slashFactor world.staking.blockTime ubd.entries
    with entriesDef
  set burned := (ubd.entries.map
    (unbondingSlash infractionHeight slashFactor world.staking.blockTime)).sum with burnedDef
  have burnedNonneg : 0 ≤ burned := slashSum_nonneg factor bounds
  have total : entriesBalance entries = entriesBalance ubd.entries - burned :=
    slashedEntries_balance ubd.entries
  have filed : balanceAt world.staking.unbondingDelegations ubd.key
      = entriesBalance ubd.entries := by
    simp [balanceAt, stored]
  -- after the write, what the entries lost is owed by the not-bonded pool
  have written : Post (whenever (entries ≠ ubd.entries)
      (modifyStaking (·.setUnbondingDelegation { ubd with entries := entries })) :
        StakingM φ σ Unit) world
      (fun _ => KeptBut K P tracked (shift (fun _ => 0) false burned) ubd world)
      (StopsIn own tracked allowed) := by
    rw [post_whenever, post_modifyStaking]
    refine ⟨fun _ => ?_, fun same => ?_⟩
    · have invWritten := @Inv.writeUnbondings _ _ _ _ _ settled _ (-burned)
        (@UnbondingsOK.set _ settled.unbondings { ubd with entries := entries }
          (slashedEntries_bounds factor bounds))
        (by
          rw [unbondingBalance_set]
          show _ - balanceAt world.staking.unbondingDelegations ubd.key + _ = _
          rw [filed]
          simp only [total]
          omega)
      rw [neg_neg] at invWritten
      refine ⟨⟨{ invWritten with }, ?_, Frame.of_same rfl rfl⟩, ⟨rfl, rfl⟩, ?_⟩
      · exact contract.idle_stable (s := world.staking) ⟨rfl, rfl, rfl, rfl⟩ idle
      · intro key apart
        exact Store.get?_set_of_ne apart
    · have unchanged : entries = ubd.entries := not_not.mp same
      have nothing : burned = 0 := by
        rw [unchanged] at total
        omega
      rw [nothing, shift_zero]
      exact ⟨⟨settled, idle, Frame.refl _⟩, ⟨rfl, rfl⟩, fun _ _ => rfl⟩
  simp only [slashUnbondingDelegation, post_bind, post_stakingState, post_pure]
  refine written.imp ?_
  rintro _ writing ⟨⟨invWritten, idleWritten, frameWritten⟩, sameRecords, others⟩
  have enough : tracked → burned ≤ shift (fun _ => 0) false burned false := by
    intro _
    simp
  refine (burnFrom_spec false invWritten burnedNonneg enough).imp ?_
  rintro _ world' ⟨sameExt, samePools, invBurned⟩
  rw [shift_shift, add_neg_cancel, shift_zero] at invBurned
  refine ⟨⟨invBurned, ?_, frameWritten.trans samePools.frame⟩, ?_, ?_⟩
  · rw [sameExt]
    exact contract.idle_stable samePools.sameStake idleWritten
  · obtain ⟨_, _, same⟩ := samePools
    rw [same]
    exact sameRecords
  · obtain ⟨_, _, same⟩ := samePools
    rw [same]
    exact others

/-! ## Redelegations -/

/-- Tokens a redelegation slash has still to burn, by pool. -/
def RedelegationSlash.toBurn (acc : RedelegationSlash) (isBonded : Bool) : Int :=
  if isBonded then acc.bondedBurnedAmount else acc.notBondedBurnedAmount

/-- What is taken for a redelegation from the unbonding entries that followed it. -/
def takenFromUnbonding (s : StakingState) (red : Redelegation)
    (infractionHeight slashAmount : Int) : Int :=
  min slashAmount (slashableBalance infractionHeight s.blockTime
    ((s.unbondingDelegations.get? ⟨red.delegatorAddress, red.validatorDstAddress⟩).elim []
      UnbondingDelegation.entries))

theorem slashFollowingUnbonding_spec (contract : HookContract K P allowed)
    (inv : Inv K.consAddress tracked (fun _ => 0) owed world.staking)
    (idle : P.idle world.staking world.ext) (nonneg : 0 ≤ slashAmount) :
    Post (slashFollowingUnbonding red infractionHeight slashAmount) world
      (fun following world' =>
        following
          = (slashAmount - takenFromUnbonding world.staking red infractionHeight slashAmount,
          takenFromUnbonding world.staking red infractionHeight slashAmount)
        ∧ 0 ≤ following.2
        ∧ Kept K P tracked (shift owed false following.2) world.staking world'
        ∧ world'.staking.validators = world.staking.validators
        ∧ world'.staking.delegations = world.staking.delegations
        ∧ balanceAt world'.staking.unbondingDelegations
            ⟨red.delegatorAddress, red.validatorDstAddress⟩
          = balanceAt world.staking.unbondingDelegations
            ⟨red.delegatorAddress, red.validatorDstAddress⟩ - following.2)
      (StopsIn own tracked allowed) := by
  simp only [slashFollowingUnbonding, takenFromUnbonding, staking_rules]
  cases found : world.staking.unbondingDelegations.get?
      ⟨red.delegatorAddress, red.validatorDstAddress⟩ with
  | none =>
    have nothing : min slashAmount
        (slashableBalance infractionHeight world.staking.blockTime []) = 0 := min_eq_right nonneg
    simp only [post_pure, Option.elim_none, nothing, sub_zero, shift_zero]
    exact ⟨trivial, le_rfl, ⟨inv, idle, Frame.refl _⟩, trivial, trivial, trivial⟩
  | some ubd =>
    obtain ⟨delegator, validator⟩ := inv.unbondings.filed found
    simp only at delegator validator
    have balances := inv.unbondings.entries found
    simp only [staking_rules, Option.elim_some]
    set slashed := slashInOrder infractionHeight world.staking.blockTime slashAmount ubd.entries
      with slashedDef
    obtain ⟨isTaken, total, bounds⟩ :=
      @slashInOrder_spec infractionHeight world.staking.blockTime ubd.entries slashAmount nonneg
        balances
    rw [← slashedDef] at isTaken total bounds
    have takenNonneg : 0 ≤ min slashAmount
        (slashableBalance infractionHeight world.staking.blockTime ubd.entries) :=
      le_min nonneg (slashableBalance_nonneg balances)
    rw [isTaken]
    have filed : balanceAt world.staking.unbondingDelegations
        ⟨red.delegatorAddress, red.validatorDstAddress⟩ = entriesBalance ubd.entries := by
      simp [balanceAt, found]
    refine ⟨fun _ => ⟨rfl, takenNonneg, ?_, rfl, rfl, ?_⟩, fun same => ⟨rfl, takenNonneg, ?_⟩⟩
    · have written := @Inv.writeUnbondings _ _ _ _ _ inv _ (-min slashAmount
          (slashableBalance infractionHeight world.staking.blockTime ubd.entries))
        (@UnbondingsOK.set _ inv.unbondings { ubd with entries := slashed.1 } bounds)
        (by
          rw [unbondingBalance_set]
          simp only [delegator, validator, filed, total]
          omega)
      rw [neg_neg] at written
      refine ⟨{ written with }, ?_, Frame.of_same rfl rfl⟩
      exact contract.idle_stable (s := world.staking) ⟨rfl, rfl, rfl, rfl⟩ idle
    · rw [filed, ← total, StakingState.setUnbondingDelegation, delegator, validator]
      simp [balanceAt]
    · have nothing : min slashAmount
          (slashableBalance infractionHeight world.staking.blockTime ubd.entries) = 0 := by
        rw [not_not.mp same] at total
        omega
      simp only [nothing, shift_zero, sub_zero]
      exact ⟨⟨inv, idle, Frame.refl _⟩, trivial⟩

/-- Only the record at one address may have changed, and it kept its status. -/
structure KeptElsewhere (s s' : StakingState) (addr : Address) : Prop where
  others : ∀ {other}, other ≠ addr → s'.validators.get? other = s.validators.get? other
  status : ∀ {v'}, s'.validators.get? addr = some v' →
    ∃ v, s.validators.get? addr = some v ∧ v'.status = v.status

namespace KeptElsewhere

variable {s s' s'' : StakingState} {addr : Address}

theorem of_same (same : s'.validators = s.validators) : KeptElsewhere s s' addr where
  others := fun _ => by rw [same]
  status := fun stored => ⟨_, same ▸ stored, rfl⟩

theorem trans (first : KeptElsewhere s s' addr) (second : KeptElsewhere s' s'' addr) :
    KeptElsewhere s s'' addr where
  others := fun apart => (second.others apart).trans (first.others apart)
  status := by
    intro v'' stored''
    obtain ⟨v', stored', status'⟩ := second.status stored''
    obtain ⟨v, stored, status⟩ := first.status stored'
    exact ⟨v, stored, status'.trans status⟩

theorem status_of_get? (kept : KeptElsewhere s s' addr) {other : Address} {v' : Validator}
    (stored' : s'.validators.get? other = some v') :
    ∃ v, s.validators.get? other = some v ∧ v'.status = v.status := by
  by_cases here : other = addr
  · subst here
    exact kept.status stored'
  · rw [kept.others here] at stored'
    exact ⟨v', stored', rfl⟩

end KeptElsewhere

/-- A validator without shares is removed while it is unbonded. -/
def StakingState.unbondedAt (s : StakingState) (addr : Address) : Prop :=
  ∃ v, s.validators.get? addr = some v ∧ v.status = .unbonded

/-- A slash of redelegated stake: what it has still to burn, and what it leaves alone. -/
abbrev Collects (K : Keepers φ σ) (P : Phases σ) (tracked : Prop) (red : Redelegation)
    (world : World σ) (acc : RedelegationSlash) (world' : World σ) : Prop :=
  (∀ isBonded, 0 ≤ acc.toBurn isBonded) ∧ Kept K P tracked acc.toBurn world.staking world'
    ∧ KeptElsewhere world.staking world'.staking red.validatorDstAddress

section Moved

variable (contract : HookContract K P allowed)
  (inv : Inv K.consAddress tracked (fun _ => 0) acc.toBurn world.staking)
  (idle : P.idle world.staking world.ext) (accNonneg : ∀ isBonded, 0 ≤ acc.toBurn isBonded)

include contract inv idle accNonneg

theorem slashMovedDelegation_spec {sharesToUnbond : Int} (positive : 0 < sharesToUnbond)
    (lost : world.staking.unbondedAt red.validatorDstAddress → ∀ fault, own fault) :
    Post (slashMovedDelegation K red acc sharesToUnbond) world
      (Collects K P tracked red world) (StopsIn own tracked allowed) := by
  simp only [slashMovedDelegation, staking_rules]
  cases found : world.staking.delegations.get?
      ⟨red.delegatorAddress, red.validatorDstAddress⟩ with
  | none =>
    simp only [post_pure]
    exact ⟨accNonneg, ⟨inv, idle, Frame.refl _⟩, .of_same rfl⟩
  | some d =>
    have heldPos := inv.shares.positive found
    obtain ⟨v, stored⟩ := inv.shares.home found
    simp only [getValidator, staking_rules]
    have bounds : 0 < (if d.shares < sharesToUnbond then d.shares else sharesToUnbond)
        ∧ (if d.shares < sharesToUnbond then d.shares else sharesToUnbond) ≤ d.shares := by
      split_ifs <;> omega
    refine (unbond_spec contract inv idle stored bounds.1 fun short =>
      absurd (short d found) (not_lt.mpr bounds.2)).imp ?_
    rintro paid unbonding ⟨_, paidNonneg, invUnbonded, idleUnbonded, frameUnbonded⟩
    refine ⟨fun dst dstStored => ?_, fun absent =>
      lost ⟨v, stored, frameUnbonded.removed stored absent⟩ _⟩
    -- the destination kept its status, so the payout is burned from the pool it is in
    obtain ⟨w, wStored, _, sameBonded⟩ := frameUnbonded.kept dstStored
    have same : w = v := some_unique wStored stored
    rw [same] at sameBonded
    have owedAfter : (if dst.isBonded
        then { acc with bondedBurnedAmount := acc.bondedBurnedAmount + paid }
        else { acc with notBondedBurnedAmount := acc.notBondedBurnedAmount + paid }).toBurn
          = shift acc.toBurn v.isBonded paid := by
      funext isBonded
      rw [sameBonded]
      cases v.isBonded <;> cases isBonded <;> simp [RedelegationSlash.toBurn, shift]
    rw [Collects, owedAfter]
    refine ⟨?_, ⟨invUnbonded, idleUnbonded, frameUnbonded.toFrame⟩, frameUnbonded.others,
      fun found => ⟨v, stored, frameUnbonded.status stored found⟩⟩
    intro isBonded
    have before := accNonneg isBonded
    unfold shift
    split_ifs <;> omega

theorem slashRedelegationEntry_spec {entry : RedelegationEntry} (factor : 0 ≤ slashFactor)
    (moved : 0 ≤ entry.initialBalance ∧ 0 ≤ entry.sharesDst)
    (lost : world.staking.unbondedAt red.validatorDstAddress → ∀ fault, own fault) :
    Post (slashRedelegationEntry K red infractionHeight slashFactor acc entry) world
      (Collects K P tracked red world) (StopsIn own tracked allowed) := by
  simp only [slashRedelegationEntry, staking_rules, post_ite]
  refine ⟨fun _ => ⟨accNonneg, ⟨inv, idle, Frame.refl _⟩, .of_same rfl⟩, fun _ => ?_⟩
  refine (slashFollowingUnbonding_spec contract inv idle
    (slashAmountOf_nonneg factor moved.1)).imp ?_
  rintro following middle ⟨_, takenNonneg, ⟨invTaken, idleTaken, frameTaken⟩, sameValidators, -⟩
  set counted : RedelegationSlash :=
    { acc with
        totalSlashAmount := acc.totalSlashAmount + slashAmountOf slashFactor entry.initialBalance
        notBondedBurnedAmount := acc.notBondedBurnedAmount + following.2 } with countedDef
  have owedAfter : shift acc.toBurn false following.2 = counted.toBurn := by
    funext isBonded
    cases isBonded <;> simp [RedelegationSlash.toBurn, shift, countedDef]
  rw [owedAfter] at invTaken
  have countedNonneg : ∀ isBonded, 0 ≤ counted.toBurn isBonded := by
    intro isBonded
    have before := accNonneg isBonded
    rw [← owedAfter, shift]
    split_ifs <;> omega
  have elsewhere : KeptElsewhere world.staking middle.staking red.validatorDstAddress :=
    .of_same sameValidators
  refine ⟨fun _ => ⟨countedNonneg, ⟨invTaken, idleTaken, frameTaken⟩, elsewhere⟩,
    fun remaining => ?_⟩
  have sharesNonneg : 0 ≤ Dec.mul slashFactor entry.sharesDst :=
    roundHalfEven_nonneg Dec.one_pos (mul_nonneg factor moved.2)
  have positive : 0 < Dec.mul slashFactor entry.sharesDst := by omega
  rw [StakingState.unbondedAt, ← sameValidators] at lost
  refine (slashMovedDelegation_spec contract invTaken idleTaken countedNonneg positive lost).imp ?_
  rintro acc' world' ⟨accNonneg', ⟨inv', idle', frame'⟩, elsewhere'⟩
  exact ⟨accNonneg', ⟨inv', idle', frameTaken.trans frame'⟩, elsewhere.trans elsewhere'⟩

end Moved

/-- The entries of a redelegation contribute in turn; other validators stay. -/
theorem slashRedelegation_spec (contract : HookContract K P allowed)
    (settled : Settled K.consAddress tracked world.staking) (idle : P.idle world.staking world.ext)
    (factor : 0 ≤ slashFactor)
    (moved : ∀ entry ∈ red.entries, 0 ≤ entry.initialBalance ∧ 0 ≤ entry.sharesDst)
    (lost : world.staking.unbondedAt red.validatorDstAddress → ∀ fault, own fault) :
    Post (slashRedelegation K red infractionHeight slashFactor) world
      (fun _ world' => Kept K P tracked (fun _ => 0) world.staking world'
        ∧ KeptElsewhere world.staking world'.staking red.validatorDstAddress)
      (StopsIn own tracked allowed) := by
  have start : (⟨0, 0, 0⟩ : RedelegationSlash).toBurn = fun _ => 0 := by
    funext isBonded
    cases isBonded <;> rfl
  simp only [slashRedelegation, post_rules]
  refine (post_foldOver
    (fun rest (acc : RedelegationSlash) state =>
      (∀ entry ∈ rest, 0 ≤ entry.initialBalance ∧ 0 ≤ entry.sharesDst)
      ∧ Collects K P tracked red world acc state)
    ?_ red.entries ⟨0, 0, 0⟩ world ?_).imp ?_
  · rintro entry rest acc state ⟨movedRest, accNonneg, ⟨inv, idleState, frame⟩, elsewhere⟩
    have lostNow : state.staking.unbondedAt red.validatorDstAddress → ∀ fault, own fault := by
      rintro ⟨v', stored', unbonded⟩
      obtain ⟨v, stored, status⟩ := elsewhere.status stored'
      exact lost ⟨v, stored, status ▸ unbonded⟩
    refine (slashRedelegationEntry_spec contract inv idleState accNonneg factor
      (movedRest entry mem_cons_self) lostNow).imp ?_
    rintro acc' state' ⟨accNonneg', ⟨inv', idle', frame'⟩, elsewhere'⟩
    exact ⟨fun e member => movedRest e (mem_cons_of_mem entry member), accNonneg',
      ⟨inv', idle', frame.trans frame'⟩, elsewhere.trans elsewhere'⟩
  · refine ⟨moved, fun isBonded => ?_, ⟨start ▸ settled, idle, Frame.refl _⟩, .of_same rfl⟩
    rw [start]
  · rintro totals state ⟨_, nonneg, ⟨inv, idleState, frame⟩, elsewhere⟩
    refine (burnFrom_spec true inv (nonneg true) fun _ => le_rfl).imp ?_
    rintro _ burning ⟨sameExt, samePools, invBurned⟩
    have left : shift totals.toBurn true (-totals.toBurn true) false = totals.toBurn false :=
      shift_of_ne _ _ (by decide)
    refine (burnFrom_spec false invBurned (nonneg false) fun _ => left.ge).imp ?_
    rintro _ world' ⟨sameExt', samePools', invBurned'⟩
    have nothing : shift (shift totals.toBurn true (-totals.toBurn true)) false
        (-totals.toBurn false) = fun _ => 0 := by
      funext isBonded
      cases isBonded <;> simp [RedelegationSlash.toBurn, shift]
    rw [nothing] at invBurned'
    have pools := samePools.trans samePools'
    refine ⟨⟨invBurned', ?_, frame.trans pools.frame⟩, ?_⟩
    · rw [sameExt', sameExt]
      exact contract.idle_stable pools.sameStake idleState
    · obtain ⟨_, _, same⟩ := pools
      exact elsewhere.trans (.of_same (by rw [same]))

/-! ## Slash -/

/-- A redelegation away from a validator leads to one that is unbonded. -/
def StakingState.redelegatesToUnbonded (s : StakingState) (operator : Address) : Prop :=
  ∃ key red, s.redelegations.get? key = some red ∧ red.validatorSrcAddress = operator
    ∧ s.unbondedAt red.validatorDstAddress

theorem getRedelegationsFromSrcValidator_spec {s : StakingState}
    (ok : RedelegationsOK s.redelegations) {valAddr : Address}
    (member : red ∈ s.getRedelegationsFromSrcValidator valAddr) :
    valAddr ≠ red.validatorDstAddress
      ∧ (∃ key, s.redelegations.get? key = some red ∧ red.validatorSrcAddress = valAddr)
      ∧ ∀ entry ∈ red.entries, 0 ≤ entry.initialBalance ∧ 0 ≤ entry.sharesDst := by
  obtain ⟨key, inKeys, found⟩ := mem_filterMap.mp member
  have fromHere : key.fst = valAddr := by simpa using (mem_filter.mp inKeys).2
  obtain ⟨_, source, destination⟩ := ok.filed found
  refine ⟨?_, ⟨_, found, source.trans fromHere⟩, ok.entries found⟩
  rw [destination, ← fromHere]
  exact ok.apart found

variable (contract : HookContract K P allowed)
  (settled : Settled K.consAddress tracked world.staking) (idle : P.idle world.staking world.ext)

include contract settled idle

/-- Unbonding delegations first, then redelegations; the validator itself is not
touched. -/
theorem slashPastStake_spec {operator : Address} (factor : 0 ≤ slashFactor)
    (lost : world.staking.redelegatesToUnbonded operator → ∀ fault, own fault) :
    Post (slashPastStake K operator infractionHeight slashFactor slashAmount) world
      (fun _ world' => Kept K P tracked (fun _ => 0) world.staking world'
        ∧ world'.staking.validators.get? operator = world.staking.validators.get? operator)
      (StopsIn own tracked allowed) := by
  obtain ⟨stored, apart⟩ := getUnbondingDelegationsFromValidator_spec settled.unbondings operator
  simp only [slashPastStake, staking_rules]
  refine (post_foldOver
    (fun rest (_ : Int) state =>
      (∀ ubd ∈ rest, state.staking.unbondingDelegations.get? ubd.key = some ubd)
      ∧ rest.Pairwise (fun a b => UnbondingDelegation.key a ≠ UnbondingDelegation.key b)
      ∧ Kept K P tracked (fun _ => 0) world.staking state
      ∧ state.staking.validators = world.staking.validators
      ∧ state.staking.redelegations = world.staking.redelegations)
    ?_ _ slashAmount world ⟨stored, apart, ⟨settled, idle, Frame.refl _⟩, rfl, rfl⟩).imp ?_
  · rintro ubd rest remaining state ⟨storedRest, apartRest, ⟨inv, idleState, frame⟩, sameVals,
      sameReds⟩
    have apartHead := pairwise_cons.mp apartRest
    simp only [post_rules]
    refine (slashUnbondingDelegation_spec contract inv idleState factor
      (storedRest ubd mem_cons_self)).imp ?_
    rintro _ state' ⟨⟨inv', idle', frame'⟩, ⟨sameVals', sameReds'⟩, others⟩
    refine ⟨?_, apartHead.2, ⟨inv', idle', frame.trans frame'⟩, sameVals'.trans sameVals,
      sameReds'.trans sameReds⟩
    intro other member
    rw [others other.key (apartHead.1 other member).symm]
    exact storedRest other (mem_cons_of_mem ubd member)
  · rintro afterUnbonding middle ⟨_, _, ⟨invMiddle, idleMiddle, frameMiddle⟩, sameMiddle,
      sameReds⟩
    refine (post_foldOver
      (fun rest (_ : Int) state =>
        (∀ red ∈ rest, red ∈ middle.staking.getRedelegationsFromSrcValidator operator)
        ∧ Kept K P tracked (fun _ => 0) world.staking state
        ∧ state.staking.validators.get? operator = world.staking.validators.get? operator
        ∧ ∀ {addr}, state.staking.unbondedAt addr → world.staking.unbondedAt addr)
      ?_ _ afterUnbonding middle
      ⟨fun _ member => member, ⟨invMiddle, idleMiddle, frameMiddle⟩, by rw [sameMiddle],
        fun unbonded => by rwa [StakingState.unbondedAt, sameMiddle] at unbonded⟩).imp ?_
    · rintro red rest remaining state ⟨fromList, ⟨inv, idleState, frame⟩, sameOperator, before⟩
      obtain ⟨apartDst, ⟨key, found, source⟩, moved⟩ := getRedelegationsFromSrcValidator_spec
        invMiddle.redelegations (fromList red mem_cons_self)
      rw [sameReds] at found
      simp only [post_rules]
      refine (slashRedelegation_spec contract inv idleState factor moved fun unbonded =>
        lost ⟨key, red, found, source, before unbonded⟩).imp ?_
      rintro _ state' ⟨⟨inv', idle', frame'⟩, elsewhere⟩
      refine ⟨fun other member => fromList other (mem_cons_of_mem red member),
        ⟨inv', idle', frame.trans frame'⟩, (elsewhere.others apartDst).trans sameOperator, ?_⟩
      rintro addr ⟨v', stored', unbonded⟩
      obtain ⟨v, stored, status⟩ := elsewhere.status_of_get? stored'
      exact before ⟨v, stored, status ▸ unbonded⟩
    · rintro _ state ⟨_, kept, sameOperator, _⟩
      exact ⟨kept, sameOperator⟩

theorem slashValidatorTokens_spec {v : Validator} {burned : Int}
    (stored : world.staking.validators.get? v.operatorAddress = some v) (positive : 0 < burned)
    (available : burned ≤ v.tokens) :
    Post (slashValidatorTokens K v burned) world
      (fun _ world' => Kept K P tracked (fun _ => 0) world.staking world')
      (StopsIn own tracked allowed) := by
  have covered := settled.shares.covered stored
  have tokensPos : 0 < v.tokens := by omega
  simp only [slashValidatorTokens, post_rules]
  refine ⟨fun _ => ?_, fun noTokens => absurd tokensPos noTokens⟩
  refine (ignoreError_external_spec
    (contract.slashed settled.shares stored positive available idle)).imp ?_
  rintro _ slashing ⟨sameStaking, idleAfter⟩
  rw [← sameStaking] at settled stored idleAfter
  refine (removeValidatorTokens_spec positive.le available).imp ?_
  rintro _ _ ⟨rfl, rfl⟩
  have invReduced := @Inv.reindexed _ _ _ _ _ v { v with tokens := v.tokens - burned } _ settled
    stored rfl rfl rfl (by simp only; omega) (by simp only; omega)
  simp only [sub_self, shift_zero, sub_sub_cancel] at invReduced
  have idleReduced := idleAfter _ invReduced.shares ⟨stakeAt_reindexed rfl, rfl, rfl, rfl⟩
  have frameReduced : Frame slashing.staking
      (slashing.staking.reindexed v { v with tokens := v.tokens - burned }) :=
    Frame.reindexed stored rfl rfl rfl
  rw [← sameStaking]
  have enough : tracked → burned ≤ shift (fun _ => 0) v.isBonded burned v.isBonded := by
    intro _
    simp
  -- the burn takes the tokens from the pool of the validator's status
  have finish : ∀ {burning : World σ}, burning.ext = slashing.ext →
      SameButPools (slashing.staking.reindexed v { v with tokens := v.tokens - burned })
        burning.staking →
      Inv K.consAddress tracked (fun _ => 0)
        (shift (shift (fun _ => 0) v.isBonded burned) v.isBonded (-burned)) burning.staking →
      Kept K P tracked (fun _ => 0) slashing.staking burning := by
    intro burning sameExt samePools invBurned
    rw [shift_shift, add_neg_cancel, shift_zero] at invBurned
    refine ⟨invBurned, ?_, frameReduced.trans samePools.frame⟩
    rw [sameExt]
    exact contract.idle_stable samePools.sameStake idleReduced
  rw [post_ite]
  refine ⟨fun isBonded => ?_, fun notBonded => ?_⟩
  · have bonded : v.isBonded = true := isBonded
    rw [bonded] at invReduced enough finish
    refine (burnFrom_spec true invReduced positive.le enough).imp ?_
    rintro _ world' ⟨sameExt, samePools, invBurned⟩
    exact finish sameExt samePools invBurned
  · have unbonded : v.isBonded = false := by simpa [Validator.isBonded] using notBonded
    rw [unbonded] at invReduced enough finish
    refine (burnFrom_spec false invReduced positive.le enough).imp ?_
    rintro _ world' ⟨sameExt, samePools, invBurned⟩
    exact finish sameExt samePools invBurned

theorem slash_spec {consAddr : Address} {power : Int}
    (refused : slashFactor < 0 ∨ world.staking.blockHeight < infractionHeight
      ∨ (∃ v, getValidatorByConsAddr world.staking consAddr = some v
        ∧ (v.isUnbonded ∨ world.staking.redelegatesToUnbonded v.operatorAddress)) →
      ∀ fault, own fault) :
    Post (slash K consAddr infractionHeight power slashFactor) world
      (fun _ world' => Kept K P tracked (fun _ => 0) world.staking world')
      (StopsIn own tracked allowed) := by
  simp only [slash, post_bind, post_failIf, post_stakingState]
  refine ⟨fun negative => refused (.inl negative) _, fun notNegative => ?_⟩
  have factor : 0 ≤ slashFactor := not_lt.mp notNegative
  cases found : getValidatorByConsAddr world.staking consAddr with
  | none =>
    simp only [post_pure]
    exact ⟨settled, idle, Frame.refl _⟩
  | some v =>
    obtain ⟨operator, stored⟩ := getValidatorByConsAddr_stored found
    have sameKey := settled.shares.validatorKey stored
    subst sameKey
    simp only [post_bind, post_failIf, post_pure]
    refine ⟨fun unbonded => refused (.inr (.inr ⟨v, found, .inl unbonded⟩)) _, fun _ => ?_⟩
    refine (ignoreError_external_spec (contract.modified settled.shares idle)).imp ?_
    rintro _ modifying ⟨sameStaking, idleModified⟩
    rw [← sameStaking] at settled stored found idleModified refused ⊢
    refine ⟨fun future => refused (.inr (.inl future)) _, fun _ => ?_⟩
    -- the slash of past stake leaves the record of the validator as it was read
    have past : Post (if infractionHeight < modifying.staking.blockHeight
        then slashPastStake K v.operatorAddress infractionHeight slashFactor
          (Dec.truncateInt (Dec.mul (Dec.ofInt (tokensFromConsensusPower power)) slashFactor))
        else pure (Dec.truncateInt
          (Dec.mul (Dec.ofInt (tokensFromConsensusPower power)) slashFactor))) modifying
        (fun _ world' => Kept K P tracked (fun _ => 0) modifying.staking world'
          ∧ world'.staking.validators.get? v.operatorAddress = some v)
        (StopsIn own tracked allowed) := by
      rw [post_ite]
      refine ⟨fun _ => ?_, fun _ => ⟨⟨settled, idleModified, Frame.refl _⟩, stored⟩⟩
      refine (slashPastStake_spec contract settled idleModified factor fun toUnbonded =>
        refused (.inr (.inr ⟨v, found, .inr toUnbonded⟩))).imp ?_
      rintro _ world' ⟨kept, sameOperator⟩
      exact ⟨kept, sameOperator.trans stored⟩
    refine past.imp ?_
    rintro remaining slashing ⟨⟨inv, idleSlashed, frame⟩, storedAfter⟩
    have nonneg := inv.shares.tokensNonneg storedAfter
    rw [post_whenever]
    refine ⟨fun notZero => ?_, fun _ => ⟨inv, idleSlashed, frame⟩⟩
    refine (slashValidatorTokens_spec contract inv idleSlashed storedAfter (by omega)
      (by omega)).imp ?_
    rintro _ world' ⟨inv', idle', frame'⟩
    exact ⟨inv', idle', frame.trans frame'⟩

end Specs

end AtomOneSdk.Staking
