import AtomOneSdk.Gov.KeeperSpec
import AtomOneSdk.Gov.MsgServer

/-!
Contract: gov's staking hooks keep the governor collections consistent.

Owns: the phases of the gov invariant while staking changes a delegation, one
specification for each hook, and the `HookContract` of the module.

Does **not** own: governor messages and runs.
-/

namespace AtomOneSdk.Gov

open Lib Lib.Action Store List
open Staking (Address StakingState Delegation Validator SharesOK PubKey KeyType Phases HookContract
  Keeps KeepsEvenOnError SharesIn SharesSettled)

/-- Gov may refuse what it is asked, but it never panics. -/
def NoPanic : Fault GovReason → Prop
  | .error _ => True
  | .panic _ => False

/-- Between operations every delegation is counted. A delegation announced as changing
is not, until it is announced as changed. -/
def govPhases : Phases GovState where
  idle := fun s g => GovOK s.delegations s.delegations g
  opened := fun delAddr valAddr s g =>
    GovOK (s.delegations.delete ⟨delAddr, valAddr⟩) s.delegations g
  reducing := fun _ _ s g => GovOK s.delegations s.delegations g

section Delegations

variable {s : StakingState} {pending : Address → Int} {g : GovState} {dels : Stakes}
  {delAddr valAddr : Address} {d : Delegation}

/-- An account that does not follow itself is no active governor. -/
theorem RegistryOK.inactive_of_not_self (ok : RegistryOK none g)
    (notSelf : g.governorOf delAddr ≠ some delAddr) : isActiveGovernor g delAddr = false := by
  cases active : isActiveGovernor g delAddr with
  | false => rfl
  | true => exact absurd (ok.self (by simp) active) notSelf

theorem beforeDelegationSharesModified_spec (ok : SharesIn pending s)
    (stored : s.delegations.get? ⟨delAddr, valAddr⟩ = some d) (idle : GovSettled s g) :
    Post (beforeDelegationSharesModified s delAddr valAddr) g
      (fun _ g' => GovOK (s.delegations.delete ⟨delAddr, valAddr⟩) s.delegations g')
      (fun _ _ => False) := by
  rw [beforeDelegationSharesModified, post_bind, post_get]
  cases followed : g.governorOf delAddr with
  | none =>
    refine ⟨idle.registry, idle.index, ?_⟩
    rw [governorShares_delete_unfollowed followed]
    exact idle.shares
  | some govAddr =>
    dsimp only
    rw [stored, post_bind, post_getOrCrash]
    constructor
    · intro found same
      cases same
      apply (decreaseGovernorShares_spec idle.shares (ok.positive stored)
        (shares_le_governorShares ok stored followed)).imp
      rintro _ g' ⟨same, index, tracked⟩
      refine ⟨same.registry idle.registry, idle.index.congr same.governors index, ?_⟩
      rw [same.governorOf, governorShares_delete stored followed]
      exact tracked
    · intro absent
      cases absent

/-- The delegation, now changed, is counted again; an active governor whose own
delegation changed is listed under the validator or becomes inactive. -/
theorem afterDelegationModified_spec (ok : SharesIn pending s) (settled : ∀ addr, 0 ≤ pending addr)
    (changed : s.delegations = dels.set ⟨delAddr, valAddr⟩ d)
    (opened : GovOK (dels.delete ⟨delAddr, valAddr⟩) dels g) :
    Post (afterDelegationModified s delAddr valAddr) g
      (fun _ => GovSettled s) (fun _ _ => False) := by
  have stored : s.delegations.get? ⟨delAddr, valAddr⟩ = some d := by
    rw [changed, get?_set_self]
  have rewritten : s.delegations
      = (dels.delete ⟨delAddr, valAddr⟩).set ⟨delAddr, valAddr⟩ d := by
    rw [changed, set_delete]
  rw [afterDelegationModified, post_bind, post_get]
  cases followed : g.governorOf delAddr with
  | none =>
    have inactive : isActiveGovernor g delAddr = false :=
      opened.registry.inactive_of_not_self (by simp [followed])
    refine ⟨opened.registry, ?_, ?_⟩
    · rw [changed]
      exact opened.index.set_inactive inactive
    · rw [rewritten, governorShares_set_unfollowed followed]
      exact opened.shares
  | some govAddr =>
    dsimp only
    rw [stored, post_bind, post_getOrFail]
    refine ⟨?_, fun absent => by cases absent⟩
    intro found same
    cases same
    have nonneg := governorShares_nonneg (dels.delete ⟨delAddr, valAddr⟩)
      (fun {key other} present => by
        obtain ⟨apart, old⟩ := get?_delete_some present
        apply @SharesOK.positive _ _ _ ok key
        rw [changed, get?_set_of_ne apart]
        exact old) g.governorOf govAddr valAddr
    have positive := ok.positive stored
    have nonzero : governorShares (dels.delete ⟨delAddr, valAddr⟩) g.governorOf govAddr valAddr
        + d.shares ≠ 0 := by omega
    rw [post_bind]
    apply (increaseGovernorShares_spec opened.shares nonzero).imp
    rintro _ mid ⟨same, index, tracked⟩
    have registryMid := same.registry opened.registry
    have trackedMid : Tracked (governorShares s.delegations mid.governorOf)
        mid.validatorSharesByGovernor := by
      rw [same.governorOf, rewritten,
        governorShares_set (get?_delete_self) followed]
      exact tracked
    have indexMid : ActiveIndexOK none dels mid := opened.index.congr same.governors index
    have inactiveDone : isActiveGovernor mid delAddr = false →
        GovSettled s mid := by
      intro inactive
      refine ⟨registryMid, ?_, trackedMid⟩
      rw [changed]
      exact indexMid.set_inactive inactive
    rw [post_whenever]
    constructor
    · intro self
      subst self
      rw [post_bind, post_getOrFail]
      constructor
      · intro governor present
        have address := opened.registry.governorKey present
        rw [post_whenever]
        constructor
        · intro active
          have isActive : isActiveGovernor mid delAddr = true := by
            rw [same.isActive]
            exact isActiveGovernor_iff.mpr ⟨governor, present, active⟩
          have selfMid : mid.governorOf governor.governorAddress
              = some governor.governorAddress := by
            rw [address, same.governorOf]
            exact followed
          rw [post_bind, post_crashIf]
          refine ⟨fun wrong => wrong address, fun _ => ?_⟩
          rw [post_bind]
          apply (validateGovernorMinSelfDelegationWithExclusions_spec ok settled
            fun _ => selfMid).imp
          intro meets last unchanged
          rw [unchanged, post_ite]
          constructor
          · intro _
            refine ⟨registryMid.congr rfl rfl rfl, ?_, trackedMid⟩
            rw [changed]
            exact indexMid.listEntry isActive
          · intro _
            have exempted : ActiveIndexOK (some delAddr) s.delegations mid := by
              rw [changed]
              exact indexMid.exempted
            apply (setGovernorInactive_spec ok registryMid exempted
              (fun addr same => by rw [address]; exact (Option.some.inj same).symm)
              trackedMid).imp
            exact fun _ _ done => done.1
        · intro notActive
          apply inactiveDone
          rw [same.isActive, isActiveGovernor, present]
          simpa using notActive
      · -- the governor followed exists
        intro absent
        obtain ⟨delegation, inStore, isGov⟩ := Option.map_eq_some_iff.mp followed
        obtain ⟨governor, present⟩ := opened.registry.target inStore
        rw [isGov, absent] at present
        cases present
    · intro notSelf
      apply inactiveDone
      apply registryMid.inactive_of_not_self
      rw [same.governorOf, followed]
      intro self
      exact notSelf (Option.some.inj self).symm

/-- An account's entry is removed before its delegation is, so its entries are
incomplete in between. -/
theorem ActiveIndexOK.unlisted (ok : ActiveIndexOK none dels g) :
    ActiveIndexOK (some delAddr) dels (g.removeIndexEntry valAddr delAddr) where
  staked := by
    intro val gov present
    obtain ⟨entry, stored⟩ := Option.isSome_iff_exists.mp present
    exact ok.staked (by rw [(get?_delete_some stored).2]; rfl)
  active := by
    intro val gov _ present
    obtain ⟨entry, stored⟩ := Option.isSome_iff_exists.mp present
    exact ok.active (by simp) (by rw [(get?_delete_some stored).2]; rfl)
  listed := by
    intro val gov notExempt active staked
    have apart : (⟨val, gov⟩ : Pair Address Address) ≠ ⟨valAddr, delAddr⟩ := by
      intro same
      cases same
      exact notExempt rfl
    have old := ok.listed (by simp) active staked
    rwa [show (g.removeIndexEntry valAddr delAddr).activeGovernorsByDelegatedValidator.get?
      ⟨val, gov⟩ = _ from get?_delete_of_ne apart]

/-- The hook runs while the delegation is still stored; afterwards the collections are
right for the state without it. -/
theorem beforeDelegationRemoved_spec (ok : SharesIn pending s) (settled : ∀ addr, 0 ≤ pending addr)
    (opened : GovOK (s.delegations.delete ⟨delAddr, valAddr⟩) s.delegations g) :
    Post (beforeDelegationRemoved s delAddr valAddr) g
      (fun _ g' => GovOK (s.delegations.delete ⟨delAddr, valAddr⟩)
        (s.delegations.delete ⟨delAddr, valAddr⟩) g') (fun _ _ => False) := by
  rw [beforeDelegationRemoved, post_bind, post_get]
  cases present : g.governors.get? delAddr with
  | none =>
    have inactive : isActiveGovernor g delAddr = false := by
      rw [isActiveGovernor, present]
      rfl
    exact ⟨opened.registry, opened.index.delete_inactive inactive, opened.shares⟩
  | some governor =>
    have address := opened.registry.governorKey present
    have registryMid : RegistryOK none (g.removeIndexEntry valAddr delAddr) :=
      opened.registry.congr rfl rfl rfl
    have done : GovOK (s.delegations.delete ⟨delAddr, valAddr⟩)
        (s.delegations.delete ⟨delAddr, valAddr⟩) (g.removeIndexEntry valAddr delAddr) :=
      ⟨registryMid, opened.index.unlistEntry, opened.shares⟩
    dsimp only
    rw [post_bind, post_modify, post_whenever]
    refine ⟨fun active => ?_, fun _ => done⟩
    have isActive : isActiveGovernor g delAddr = true :=
      isActiveGovernor_iff.mpr ⟨governor, present, active⟩
    have self := opened.registry.self (by simp) isActive
    rw [self, post_bind, post_getOrCrash]
    refine ⟨?_, fun absent => by cases absent⟩
    intro found same
    cases same
    rw [post_bind, post_crashIf]
    refine ⟨fun wrong => wrong address, fun _ => ?_⟩
    rw [post_bind]
    apply (validateGovernorMinSelfDelegationWithExclusions_spec ok settled
      (g := g.removeIndexEntry valAddr delAddr) fun _ => by rw [address]; exact self).imp
    intro meets last unchanged
    rw [unchanged, post_whenever]
    refine ⟨fun _ => ?_, fun _ => done⟩
    apply (setGovernorInactive_spec ok registryMid opened.index.unlisted
      (fun addr same => by rw [address]; exact (Option.some.inj same).symm)
      opened.shares).imp
    rintro _ g' ⟨after, inactive⟩
    rw [address] at inactive
    exact ⟨after.registry, after.index.delete_inactive inactive, after.shares⟩

end Delegations

/-! ## Slashes and validators that begin unbonding -/

section Walks

variable {s : StakingState} {g : GovState} {valAddr : Address}

/-- A walk over the active governors of a validator meets stored active governors with
a delegation to it, and changes nothing when the visit does not. It finds those the visit
decides for. -/
theorem collectGovernorsForValidator_spec {counted : Stakes}
    (idle : GovOK counted s.delegations g) {visit : Governor → GovM Bool}
    {decided : Governor → Bool → Prop}
    (visits : ∀ governor, g.governors.get? governor.governorAddress = some governor →
      governor.isActive = true →
      (s.delegations.get? ⟨governor.governorAddress, valAddr⟩).isSome →
      Post (visit governor) g (fun collected g' => g' = g ∧ decided governor collected)
        (fun _ _ => False)) :
    Post (collectGovernorsForValidator valAddr visit) g
      (fun found g' => g' = g ∧ (∀ governor ∈ found, decided governor true) ∧ ∀ governor,
        g.governors.get? governor.governorAddress = some governor → governor.isActive = true →
        (s.delegations.get? ⟨governor.governorAddress, valAddr⟩).isSome →
        governor ∈ found ∨ decided governor false)
      (fun _ _ => False) := by
  rw [collectGovernorsForValidator, post_bind, post_get]
  -- whoever is not found has been decided against or is still to be visited
  apply Post.imp (post_foldOver
    (fun rest found g' => g' = g
      ∧ (∀ key ∈ rest, key.fst = valAddr
        ∧ (g.activeGovernorsByDelegatedValidator.get? key).isSome)
      ∧ (∀ governor ∈ found, decided governor true)
      ∧ ∀ governor, g.governors.get? governor.governorAddress = some governor →
        governor.isActive = true →
        (s.delegations.get? ⟨governor.governorAddress, valAddr⟩).isSome →
        governor ∈ found ∨ decided governor false ∨ ⟨valAddr, governor.governorAddress⟩ ∈ rest)
      ?_ _ _ _ ⟨rfl, ?_, ?_, ?_⟩)
  · rintro found g' ⟨same, _, sound, complete⟩
    refine ⟨same, sound, ?_⟩
    intro governor present active staked
    rcases complete governor present active staked with isFound | against | impossible
    · exact .inl isFound
    · exact .inr against
    · cases impossible
  · rintro key rest found g' ⟨same, members, sound, complete⟩
    obtain ⟨isVal, listed⟩ := members key mem_cons_self
    have restMembers : ∀ other ∈ rest, other.fst = valAddr
        ∧ (g.activeGovernorsByDelegatedValidator.get? other).isSome :=
      fun other member => members other (mem_cons_of_mem key member)
    obtain ⟨governor, present, isActive⟩ :=
      isActiveGovernor_iff.mp (idle.index.active (by simp) listed)
    have address := idle.registry.governorKey present
    have staked : (s.delegations.get? ⟨governor.governorAddress, valAddr⟩).isSome := by
      rw [address, ← isVal]
      exact idle.index.staked listed
    rw [present, post_bind, post_getOrCrash]
    refine ⟨?_, fun absent => by cases absent⟩
    intro _ isGovernor
    cases isGovernor
    rw [post_ite]
    refine ⟨fun inactive => absurd isActive inactive, fun _ => ?_⟩
    rw [post_bind, same]
    apply (visits governor (by rw [address]; exact present) isActive staked).imp
    rintro collected mid ⟨sameMid, decision⟩
    refine ⟨sameMid, restMembers, ?_, ?_⟩
    · intro other member
      cases collected with
      | false => exact sound other member
      | true =>
        rcases mem_append.mp member with earlier | here
        · exact sound other earlier
        · rw [mem_singleton.mp here]
          exact decision
    · intro other otherPresent otherActive otherStaked
      rcases complete other otherPresent otherActive otherStaked with earlier | against | later
      · left
        split_ifs
        · exact mem_append_left _ earlier
        · exact earlier
      · exact .inr (.inl against)
      · rcases mem_cons.mp later with here | later
        · have isOther : other = governor := by
            rw [← here] at present
            exact some_unique otherPresent present
          rw [isOther]
          cases collected with
          | false => exact .inr (.inl decision)
          | true => exact .inl (mem_append_right _ (mem_singleton.mpr rfl))
        · exact .inr (.inr later)
  · intro key member
    obtain ⟨inKeys, isVal⟩ := mem_filter.mp member
    exact ⟨by simpa using isVal, Store.mem_keys.mp inKeys⟩
  · intro governor member
    cases member
  · intro governor present active staked
    right
    right
    apply mem_filter.mpr
    refine ⟨Store.mem_keys.mpr (idle.index.listed (by simp) ?_ staked), by simp⟩
    exact isActiveGovernor_iff.mpr ⟨governor, present, active⟩

theorem setGovernorsInactive_spec {pending : Address → Int} (ok : SharesIn pending s)
    (idle : GovSettled s g) (governors : List Governor) :
    Post (forEach (setGovernorInactive s) governors) g
      (fun _ => GovSettled s) (fun _ _ => False) := by
  apply post_forEach (fun _ => GovSettled s) _ governors g idle
  intro governor rest current held
  apply (setGovernorInactive_spec ok held.registry held.index (by simp) held.shares).imp
  exact fun _ _ done => done.1

/-- The check of a stored active governor only reads. -/
theorem GovOK.self_of_active {counted dels : Stakes} (idle : GovOK counted dels g)
    {governor : Governor} (present : g.governors.get? governor.governorAddress = some governor) :
    governor.isActive = true →
      g.governorOf governor.governorAddress = some governor.governorAddress :=
  fun active => idle.registry.self (by simp) (isActiveGovernor_iff.mpr ⟨governor, present, active⟩)

theorem beforeValidatorSlashed_spec {fraction : Int} (ok : SharesSettled s)
    (idle : GovSettled s g) :
    Post (beforeValidatorSlashed s valAddr fraction) g
      (fun _ => GovSettled s) (fun _ _ => False) := by
  rw [beforeValidatorSlashed]
  cases s.validators.get? valAddr with
  | none => exact idle
  | some validator =>
    dsimp only
    rw [post_whenever]
    refine ⟨fun _ => ?_, fun _ => idle⟩
    rw [post_bind]
    apply Post.imp (@collectGovernorsForValidator_spec _ _ _ _ idle _ (fun _ _ => True) ?_)
    · rintro governors last ⟨unchanged, _⟩
      rw [unchanged]
      exact setGovernorsInactive_spec ok idle governors
    · intro governor present _ staked
      obtain ⟨d, stored⟩ := Option.isSome_iff_exists.mp staked
      rw [belowMinimumAfterSlash, stored, post_bind, post_getOrCrash]
      refine ⟨fun _ _ => ?_, fun absent => by cases absent⟩
      rw [getGovernorBondedTokens, post_bind]
      apply (getGovernorBondedTokensWithExclusions_spec ok fun _ => le_refl 0).imp
      intro bonded mid sameMid
      rw [sameMid, post_bind]
      apply (validateWithTotalBonded_spec (idle.self_of_active present)).imp
      exact fun _ _ unchanged => ⟨unchanged, trivial⟩

theorem afterValidatorBeginUnbonding_spec
    (ok : SharesSettled s) (idle : GovSettled s g) :
    Post (afterValidatorBeginUnbonding s valAddr) g
      (fun _ => GovSettled s) (fun _ _ => False) := by
  rw [afterValidatorBeginUnbonding, post_bind]
  apply Post.imp (@collectGovernorsForValidator_spec _ _ _ _ idle _ (fun _ _ => True) ?_)
  · rintro governors last ⟨unchanged, _⟩
    rw [unchanged]
    exact setGovernorsInactive_spec ok idle governors
  · intro governor present _ _
    rw [validateGovernorMinSelfDelegation, post_bind]
    apply (validateGovernorMinSelfDelegationWithExclusions_spec ok (fun _ => le_refl 0)
      (idle.self_of_active present)).imp
    exact fun _ _ unchanged => ⟨unchanged, trivial⟩

end Walks

/-! ## The contract -/

section Contract

variable {consAddress : PubKey → Address} {pubKeyTypes : Option (List KeyType)}

/-- A hook that never faults keeps what it establishes. -/
theorem keeps_of_spec {call : GovM Unit} {g : GovState} {after : GovState → Prop}
    (spec : Post call g (fun _ g' => after g') (fun _ _ => False)) :
    Keeps NoPanic call g after :=
  spec.safe fun _ _ done => done

theorem keepsEvenOnError_of_spec {call : GovM Unit} {g : GovState} {after : GovState → Prop}
    (spec : Post call g (fun _ g' => after g') (fun _ _ => False)) :
    KeepsEvenOnError NoPanic call g after :=
  spec.safe fun _ _ done => done

theorem govPhases_idle_congr {s s' : StakingState} {g : GovState}
    (same : s'.delegations = s.delegations) (idle : govPhases.idle s g) : govPhases.idle s' g := by
  show GovOK s'.delegations s'.delegations g
  rw [same]
  exact idle

theorem govContract : HookContract (govKeepers consAddress pubKeyTypes) govPhases NoPanic where
  idle_stable := fun same idle => govPhases_idle_congr same.delegations idle
  opened_stable := by
    intro delAddr valAddr s s' g same opened
    show GovOK (s'.delegations.delete ⟨delAddr, valAddr⟩) s'.delegations g
    rw [same.delegations]
    exact opened
  advance := fun _ _ same _ _ idle => govPhases_idle_congr same idle
  created := fun _ _ _ changed idle => govPhases_idle_congr changed.delegations idle
  removed := fun _ _ _ changed idle => govPhases_idle_congr changed.delegations idle
  bonded := fun _ idle => idle
  beginUnbonding := fun ok idle => keeps_of_spec (afterValidatorBeginUnbonding_spec ok idle)
  modified := fun _ idle => idle
  unbondingInitiated := fun _ idle => idle
  keyRotation := fun _ idle => idle
  keyUpdate := fun _ idle => idle
  sharesModified := fun ok stored idle =>
    keeps_of_spec (beforeDelegationSharesModified_spec ok stored idle)
  delegationCreated := by
    intro s delAddr valAddr stake g _ _ absent idle
    show GovOK (s.delegations.delete ⟨delAddr, valAddr⟩) s.delegations g
    rw [delete_eq_self absent]
    exact idle
  grown := fun _ ok' _ _ _ _ changed opened =>
    keeps_of_spec (afterDelegationModified_spec ok' (fun _ => le_refl 0) changed.delegations opened)
  shrunk := by
    intro s s' delAddr valAddr g d shares _ ok' _ positive _ changed opened
    have settled : ∀ addr, 0 ≤ shift (fun _ => 0) valAddr shares addr := by
      intro addr
      by_cases here : addr = valAddr
      · rw [here, shift_self]
        omega
      · rw [shift_of_ne _ _ here]
    exact keeps_of_spec (afterDelegationModified_spec ok' settled changed.delegations opened)
  delegationRemoved := by
    intro s delAddr valAddr g d ok _ opened
    apply keeps_of_spec
    apply (beforeDelegationRemoved_spec ok (fun _ => le_refl 0) opened).imp
    intro _ g' done s' changed
    show GovOK s'.delegations s'.delegations g'
    rw [changed.delegations]
    exact done
  reduced := fun _ _ _ _ _ changed reducing => govPhases_idle_congr changed.delegations reducing
  slashed := by
    intro s valAddr g v burned ok _ _ _ idle
    apply keepsEvenOnError_of_spec
    apply (beforeValidatorSlashed_spec ok idle).imp
    exact fun _ _ done s' _ changed => govPhases_idle_congr changed.delegations done
  delegateCoins := fun opened => opened
  restrictOpened := fun opened => opened
  restrictIdle := fun idle => idle
  undelegateCoins := fun idle => idle
  fundCommunityPool := fun idle => idle

end Contract

end AtomOneSdk.Gov
