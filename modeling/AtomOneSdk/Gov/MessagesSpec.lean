import AtomOneSdk.Gov.HooksSpec

/-!
Contract: the governor messages keep the governor collections consistent.

Owns: one specification for each message: it refuses or leads to consistent
collections, and it never panics.

Does **not** own: runs.
-/

namespace AtomOneSdk.Gov

open Lib Lib.Action
open Staking (Address StakingState Delegation Validator SharesIn SharesSettled)

/-- The collections are consistent except that one account may be an active governor
that is not yet delegated to itself and listed. -/
structure GovExcept (exempt : Option Address) (dels : Stakes) (g : GovState) : Prop where
  registry : RegistryOK exempt g
  index : ActiveIndexOK exempt dels g
  shares : Tracked (governorShares dels g.governorOf) g.validatorSharesByGovernor

theorem GovOK.except {dels : Stakes} {g : GovState} (ok : GovOK dels dels g) :
    GovExcept none dels g := ⟨ok.registry, ok.index, ok.shares⟩

theorem GovExcept.ok {dels : Stakes} {g : GovState} (ok : GovExcept none dels g) :
    GovOK dels dels g := ⟨ok.registry, ok.index, ok.shares⟩

section Index

variable {s : StakingState} {pending : Address → Int} {exempt : Option Address}
  {g g' : GovState} {addr : Address}

/-- Once all delegations of an active governor are listed, it is no longer exempt. -/
theorem ActiveIndexOK.listAll (ok : SharesIn pending s)
    (index : ActiveIndexOK exempt s.delegations g)
    (exempted : ∀ other, exempt = some other → other = addr)
    (active : isActiveGovernor g addr = true) (governors : g'.governors = g.governors)
    (listed : g'.activeGovernorsByDelegatedValidator
      = (indexKeys (delegationsOf s addr) addr).foldl (fun index key => index.set key ())
          g.activeGovernorsByDelegatedValidator) :
    ActiveIndexOK none s.delegations g' := by
  have sameActive : isActiveGovernor g' = isActiveGovernor g := by
    funext other
    unfold isActiveGovernor
    rw [governors]
  have notExempt : ∀ {other}, other ≠ addr → some other ≠ exempt :=
    fun apart same => apart (exempted _ same.symm)
  constructor
  · intro valAddr govAddr present
    rw [listed, Store.get?_foldl_set] at present
    split_ifs at present with added
    · obtain ⟨here, staked⟩ := (mem_indexKeys ok).mp added
      rw [here]
      exact staked
    · exact index.staked present
  · intro valAddr govAddr _ present
    rw [sameActive]
    by_cases here : govAddr = addr
    · rw [here]
      exact active
    · rw [listed, Store.get?_foldl_set] at present
      split_ifs at present with added
      · exact absurd ((mem_indexKeys ok).mp added).1 here
      · exact index.active (notExempt here) present
  · intro valAddr govAddr _ activeGov staked
    rw [sameActive] at activeGov
    rw [listed, Store.get?_foldl_set]
    split_ifs with added
    · rfl
    · have apart : govAddr ≠ addr := by
        intro here
        apply added
        rw [here] at staked
        exact (mem_indexKeys ok).mpr ⟨here, staked⟩
      exact index.listed (notExempt apart) activeGov staked

/-- The entries of an account that is no active governor, or exempt, may go. -/
theorem ActiveIndexOK.unlistAll (ok : SharesIn pending s)
    (index : ActiveIndexOK exempt s.delegations g)
    (mayLeave : isActiveGovernor g addr = true → exempt = some addr)
    (governors : g'.governors = g.governors) (unlisted : g'.activeGovernorsByDelegatedValidator
      = (indexKeys (delegationsOf s addr) addr).foldl Store.delete
          g.activeGovernorsByDelegatedValidator) :
    ActiveIndexOK exempt s.delegations g' := by
  have sameActive : isActiveGovernor g' = isActiveGovernor g := by
    funext other
    unfold isActiveGovernor
    rw [governors]
  have kept : ∀ {key},
      (g'.activeGovernorsByDelegatedValidator.get? key).isSome →
      (g.activeGovernorsByDelegatedValidator.get? key).isSome := by
    intro key present
    rw [unlisted, Store.get?_foldl_delete] at present
    split_ifs at present
    · cases present
    · exact present
  constructor
  · exact fun present => index.staked (kept present)
  · intro valAddr govAddr notExempt present
    rw [sameActive]
    exact index.active notExempt (kept present)
  · intro valAddr govAddr notExempt active staked
    rw [sameActive] at active
    rw [unlisted, Store.get?_foldl_delete, if_neg]
    · exact index.listed notExempt active staked
    · intro deleted
      rw [((mem_indexKeys ok).mp deleted).1] at active notExempt
      exact notExempt (mayLeave active).symm

end Index

/-! ## Following a governor -/

section Following

variable {s : StakingState} {pending : Address → Int} {exempt : Option Address}
  {g : GovState} {delAddr govAddr : Address}

variable (ok : SharesIn pending s)
  (held : GovExcept exempt s.delegations g)

include ok held

theorem GovExcept.undelegate (followed : g.governorOf delAddr = some govAddr)
    (mayLeave : isActiveGovernor g delAddr = true → exempt = some delAddr) :
    Post (undelegateFromGovernor s delAddr) g
      (fun _ g' => GovExcept exempt s.delegations g' ∧ Undelegated s delAddr govAddr g g')
      (fun _ _ => False) := by
  apply (undelegateFromGovernor_spec ok held.shares followed).imp
  intro _ g' undelegated
  obtain ⟨delegation, stored, isGov⟩ := Option.map_eq_some_iff.mp followed
  have registry : RegistryOK exempt g' := by
    apply held.registry.deleteDelegation stored mayLeave undelegated.governors
      undelegated.delegations
    rw [isGov]
    exact undelegated.byGovernor
  refine ⟨⟨registry, ?_, undelegated.shares⟩, undelegated⟩
  have index := undelegated.index
  by_cases self : delAddr = govAddr
  · rw [if_pos self, ← self] at index
    exact held.index.unlistAll ok mayLeave undelegated.governors index
  · rw [if_neg self] at index
    exact held.index.congr undelegated.governors index

/-- A delegator that follows nobody follows an active governor. -/
theorem GovExcept.delegate (unfollowed : g.governorOf delAddr = none)
    (active : isActiveGovernor g govAddr = true)
    (selfOrNone : isActiveGovernor g delAddr = true → govAddr = delAddr)
    (exempted : ∀ other, exempt = some other → other = delAddr ∧ delAddr = govAddr) :
    Post (delegateToGovernor s delAddr govAddr) g
      (fun _ g' => GovSettled s g' ∧ isActiveGovernor g' govAddr = true)
      (fun _ _ => False) := by
  apply (delegateToGovernor_spec ok held.shares unfollowed).imp
  intro _ g' delegated
  have fresh : g.governanceDelegations.get? delAddr = none := by
    simpa [GovState.governorOf] using unfollowed
  have target : ∃ governor, g.governors.get? govAddr = some governor := by
    obtain ⟨governor, present, _⟩ := isActiveGovernor_iff.mp active
    exact ⟨governor, present⟩
  have exemptCases : exempt = none ∨ exempt = some delAddr := by
    cases exempt with
    | none => exact Or.inl rfl
    | some other => exact Or.inr (congrArg some (exempted other rfl).1)
  have registry : RegistryOK none g' :=
    held.registry.setDelegation fresh target selfOrNone exemptCases delegated.governors
      delegated.delegations delegated.byGovernor
  refine ⟨⟨registry, ?_, delegated.shares⟩, ?_⟩
  swap
  · unfold isActiveGovernor at active ⊢
    rw [delegated.governors]
    exact active
  have index := delegated.index
  by_cases self : delAddr = govAddr
  · rw [if_pos self, ← self] at index
    exact held.index.listAll ok (fun other same => (exempted other same).1)
      (self ▸ active) delegated.governors index
  · have notExempt : exempt = none := by
      cases exempt with
      | none => rfl
      | some other => exact absurd (exempted other rfl).2 self
    rw [if_neg self] at index
    rw [notExempt] at held
    exact held.index.congr delegated.governors index

theorem GovExcept.redelegate {current : Address} (followed : g.governorOf delAddr = some current)
    (active : isActiveGovernor g govAddr = true)
    (mayLeave : isActiveGovernor g delAddr = true → exempt = some delAddr)
    (exempted : ∀ other, exempt = some other → other = delAddr ∧ delAddr = govAddr) :
    Post (redelegateToGovernor s delAddr govAddr) g
      (fun _ g' => GovSettled s g' ∧ isActiveGovernor g' govAddr = true)
      (fun _ _ => False) := by
  rw [redelegateToGovernor, post_bind]
  apply (held.undelegate ok followed mayLeave).imp
  rintro _ mid ⟨heldMid, undelegated⟩
  have sameActive : isActiveGovernor mid = isActiveGovernor g := by
    funext other
    unfold isActiveGovernor
    rw [undelegated.governors]
  apply heldMid.delegate ok
  · simp [GovState.governorOf, undelegated.delegations]
  · rw [sameActive]
    exact active
  · intro activeDel
    rw [sameActive] at activeDel
    exact (exempted delAddr (mayLeave activeDel)).2.symm
  · exact exempted

end Following

/-! ## Messages -/

section Messages

variable {s : StakingState} {g : GovState}

theorem GovOK.setGovernor {dels : Stakes} (held : GovOK dels dels g) (governor : Governor) :
    GovExcept (some governor.governorAddress) dels (g.setGovernor governor) where
  registry := held.registry.setGovernor fun _ _ => rfl
  index := by
    have others : ∀ {other}, some other ≠ some governor.governorAddress →
        isActiveGovernor (g.setGovernor governor) other = isActiveGovernor g other := by
      intro other apart
      rw [isActiveGovernor_setGovernor, if_neg]
      exact fun same => apart (congrArg some same)
    constructor
    · exact held.index.staked
    · intro valAddr govAddr notExempt present
      rw [others notExempt]
      exact held.index.active (by simp) present
    · intro valAddr govAddr notExempt active staked
      rw [others notExempt] at active
      exact held.index.listed (by simp) active staked
  shares := held.shares

theorem GovOK.rewriteGovernor {dels : Stakes} (held : GovOK dels dels g)
    {addr : Address} {governor written : Governor} (present : g.governors.get? addr = some governor)
    (sameAddress : written.governorAddress = governor.governorAddress)
    (sameStatus : written.status = governor.status) :
    GovOK dels dels (g.setGovernor written) := by
  have address := held.registry.governorKey present
  have sameActive : isActiveGovernor (g.setGovernor written) = isActiveGovernor g := by
    funext other
    rw [isActiveGovernor_setGovernor, sameAddress, address]
    split_ifs with here
    · rw [here, isActiveGovernor, present]
      show written.isActive = governor.isActive
      rw [Governor.isActive, sameStatus, Governor.isActive]
    · rfl
  refine ⟨?_, ?_, held.shares⟩
  · apply held.registry.setGovernor
    intro active notSelf
    have wasActive : isActiveGovernor g addr = true := by
      rw [isActiveGovernor, present]
      rwa [Governor.isActive, sameStatus] at active
    rw [sameAddress, address] at notSelf
    exact absurd (held.registry.self (by simp) wasActive) notSelf
  · constructor
    · exact held.index.staked
    · rw [sameActive]
      exact held.index.active
    · rw [sameActive]
      exact held.index.listed

abbrev Settles (s : StakingState) (message : GovM Unit) (g : GovState) : Prop :=
  Post message g (fun _ => GovSettled s) (fun fault _ => NoPanic fault)

theorem validateDescription_spec {description : GovernorDescription} :
    Post (validateDescription description) g (fun _ g' => g' = g)
      (fun fault _ => NoPanic fault) := by
  unfold validateDescription
  cases description.ensureLength with
  | none => exact rfl
  | some text => exact trivial

variable (ok : SharesSettled s)
  (held : GovSettled s g)

include ok held

omit held in
theorem getGovernorBondedTokens_spec {addr : Address} :
    Post (getGovernorBondedTokens s addr) g (fun _ g' => g' = g)
      (fun fault _ => NoPanic fault) :=
  (getGovernorBondedTokensWithExclusions_spec ok fun _ => le_refl 0).safe fun _ _ same => same

omit held in
/-- A governor that has become active delegates to itself, wherever it delegated before. -/
theorem selfDelegation_spec {addr : Address} (open_ : GovExcept (some addr) s.delegations g)
    (active : isActiveGovernor g addr = true) :
    Post (if (g.governanceDelegations.get? addr).isNone then delegateToGovernor s addr addr
        else redelegateToGovernor s addr addr) g
      (fun _ g' => GovSettled s g' ∧ isActiveGovernor g' addr = true)
      (fun _ _ => False) := by
  have exempted : ∀ other, some addr = some other → other = addr ∧ addr = addr :=
    fun other same => ⟨(Option.some.inj same).symm, rfl⟩
  rw [post_ite]
  constructor
  · intro fresh
    have unfollowed : g.governorOf addr = none := by
      simpa [GovState.governorOf] using fresh
    exact open_.delegate ok unfollowed active (fun _ => rfl) exempted
  · intro stored
    obtain ⟨delegation, present⟩ := Option.ne_none_iff_exists'.mp
      (show g.governanceDelegations.get? addr ≠ none by simpa using stored)
    have followed : g.governorOf addr = some delegation.governorAddress := by
      simp [GovState.governorOf, present]
    exact open_.redelegate ok followed active (fun _ => rfl) exempted

theorem createGovernor_spec (msg : MsgCreateGovernor) :
    Settles s (createGovernor s msg) g := by
  rw [Settles, createGovernor]
  refine validateDescription_spec.check fun _ => ?_
  simp only [post_rules, NoPanic]
  intro _
  apply (getGovernorBondedTokens_spec ok).imp
  intro bonded _ same _
  rw [same]
  -- the new governor is active from here on, and not yet delegated to itself
  have open_ := held.setGovernor (newGovernor msg.address msg.description s.blockTime)
  have active : isActiveGovernor
      (g.setGovernor (newGovernor msg.address msg.description s.blockTime)) msg.address = true := by
    rw [isActiveGovernor_setGovernor]
    exact if_pos rfl
  exact (selfDelegation_spec ok open_ active).safe fun _ _ done => done.1

omit ok in
theorem editGovernor_spec (msg : MsgEditGovernor) :
    Settles s (editGovernor msg) g := by
  rw [Settles, editGovernor]
  refine validateDescription_spec.check fun _ => ?_
  simp only [post_rules, NoPanic]
  intro governor present
  cases (governor.description.updateDescription msg.description).ensureLength with
  | some text => exact trivial
  | none => exact held.rewriteGovernor present rfl rfl

omit held in
theorem selfDelegate_spec {addr : Address} (open_ : GovExcept (some addr) s.delegations g)
    (active : isActiveGovernor g addr = true) :
    Post (selfDelegate s addr) g
      (fun _ g' => RegistryOK none g' ∧ ActiveIndexOK (some addr) s.delegations g'
        ∧ Tracked (governorShares s.delegations g'.governorOf) g'.validatorSharesByGovernor
        ∧ isActiveGovernor g' addr = true)
      (fun _ _ => False) := by
  have weaken : ∀ (g' : GovState),
      GovSettled s g' ∧ isActiveGovernor g' addr = true →
      RegistryOK none g' ∧ ActiveIndexOK (some addr) s.delegations g'
        ∧ Tracked (governorShares s.delegations g'.governorOf) g'.validatorSharesByGovernor
        ∧ isActiveGovernor g' addr = true := by
    rintro g' ⟨done, activeAfter⟩
    exact ⟨done.registry, ⟨done.index.staked, fun _ => done.index.active (by simp),
      fun _ => done.index.listed (by simp)⟩, done.shares, activeAfter⟩
  have exempted : ∀ other, some addr = some other → other = addr ∧ addr = addr :=
    fun other same => ⟨(Option.some.inj same).symm, rfl⟩
  rw [selfDelegate, post_bind, post_get]
  cases followed : g.governorOf addr with
  | none =>
    apply (open_.delegate ok followed active (fun _ => rfl) exempted).imp
    exact fun _ => weaken
  | some current =>
    dsimp only
    rw [post_whenever]
    constructor
    · intro _
      apply (open_.redelegate ok followed active (fun _ => rfl) exempted).imp
      exact fun _ => weaken
    · -- already delegated to itself: nothing is left open
      intro self
      have isSelf : current = addr := by simpa using self
      refine ⟨⟨open_.registry.governorKey, open_.registry.delegationKey, open_.registry.mirror,
        open_.registry.target, ?_⟩, open_.index, open_.shares, active⟩
      intro other _ activeOther
      by_cases here : other = addr
      · rw [here, followed, isSelf]
      · exact open_.registry.self (fun same => here (Option.some.inj same)) activeOther

theorem updateGovernorStatus_spec (msg : MsgUpdateGovernorStatus) :
    Settles s (updateGovernorStatus s msg) g := by
  simp only [updateGovernorStatus, post_rules, NoPanic]
  intro governor present valid _ _
  have address := held.registry.governorKey present
  generalize writtenDef : ({ governor with
    status := msg.status, lastStatusChangeTime := s.blockTime } : Governor) = written
  have writtenAddress : written.governorAddress = msg.address := by
    rw [← writtenDef]
    exact address
  have open_ := held.setGovernor written
  rw [writtenAddress] at open_
  -- what happens once the status is written
  have afterwards : Post
      (if written.isActive then do
        selfDelegate s msg.address
        setActiveGovernorIndexEntries s msg.address
      else removeActiveGovernorIndexEntries s msg.address) (g.setGovernor written)
      (fun _ => GovSettled s) (fun fault _ => NoPanic fault) := by
    rw [post_ite]
    constructor
    · intro nowActive
      have active : isActiveGovernor (g.setGovernor written) msg.address = true := by
        rw [isActiveGovernor_setGovernor, writtenAddress, if_pos rfl]
        exact nowActive
      rw [post_bind]
      apply Post.mono (selfDelegate_spec ok open_ active)
      · rintro _ mid ⟨registry, index, shares, activeMid⟩
        rw [post_setActiveGovernorIndexEntries]
        refine ⟨registry.congr rfl rfl rfl, ?_, shares⟩
        exact index.listAll ok (fun other same => (Option.some.inj same).symm) activeMid rfl rfl
      · exact fun _ _ impossible => impossible.elim
    · intro notActive
      have inactive : written = { governor with
          status := .inactive, lastStatusChangeTime := s.blockTime } := by
        rw [← writtenDef] at notActive ⊢
        have status : msg.status = .inactive := by
          cases which : msg.status with
          | inactive => rfl
          | active => simp [Governor.isActive, which] at notActive
          | unspecified => simp [GovernorStatus.isValid, which] at valid
        rw [status]
      have set_ : Post (setGovernorInactive s governor) g _ _ :=
        setGovernorInactive_spec ok held.registry held.index (by simp) held.shares
      rw [setGovernorInactive, post_bind, post_modify, ← inactive, address] at set_
      exact set_.safe fun _ _ done => done.1
  constructor
  · intro _
    apply (getGovernorBondedTokens_spec ok).imp
    intro bonded _ same _
    rw [same]
    exact afterwards
  · exact fun _ => afterwards

theorem delegateGovernor_spec (msg : MsgDelegateGovernor) :
    Settles s (delegateGovernor s msg) g := by
  simp only [delegateGovernor, post_rules, NoPanic]
  intro notActive governor present isActive _
  have target : isActiveGovernor g msg.governorAddress = true :=
    isActiveGovernor_iff.mpr ⟨governor, present, by simpa using isActive⟩
  have noExempt : ∀ other, (none : Option Address) = some other →
      other = msg.delegatorAddress ∧ msg.delegatorAddress = msg.governorAddress := by simp
  rw [post_ite]
  constructor
  · intro stored
    obtain ⟨delegation, found⟩ := Option.isSome_iff_exists.mp stored
    have followed : g.governorOf msg.delegatorAddress = some delegation.governorAddress := by
      simp [GovState.governorOf, found]
    exact (held.except.redelegate ok followed target (fun active => absurd active notActive)
      noExempt).safe fun _ _ done => done.1
  · intro fresh
    have unfollowed : g.governorOf msg.delegatorAddress = none := by
      simpa [GovState.governorOf] using fresh
    exact (held.except.delegate ok unfollowed target (fun active => absurd active notActive)
      noExempt).safe fun _ _ done => done.1

omit ok in
theorem GovOK.deleteGovernor {govAddr : Address} (inactive : isActiveGovernor g govAddr = false)
    (unused : g.governanceDelegationsByGovernor.keys.filter (fun key => key.fst = govAddr) = []) :
    GovSettled s { g with governors := g.governors.delete govAddr } := by
  have sameActive : isActiveGovernor { g with governors := g.governors.delete govAddr }
      = isActiveGovernor g := by
    funext other
    by_cases here : other = govAddr
    · rw [here, inactive]
      simp [isActiveGovernor]
    · simp only [isActiveGovernor]
      rw [Store.get?_delete_of_ne here]
  refine ⟨held.registry.deleteGovernor ?_, ?_, held.shares⟩
  · intro delAddr delegation stored isGov
    have mirrored := held.registry.mirror.mpr ⟨stored, isGov⟩
    have listed : (⟨govAddr, delAddr⟩ : Pair Address Address)
        ∈ g.governanceDelegationsByGovernor.keys.filter (fun key => key.fst = govAddr) := by
      apply List.mem_filter.mpr
      exact ⟨Store.mem_keys.mpr (by rw [mirrored]; rfl), by simp⟩
    rw [unused] at listed
    cases listed
  · constructor
    · exact held.index.staked
    · rw [sameActive]
      exact held.index.active
    · rw [sameActive]
      exact held.index.listed

theorem undelegateGovernor_spec (msg : MsgUndelegateGovernor) :
    Settles s (undelegateGovernor s msg) g := by
  simp only [undelegateGovernor, post_rules, NoPanic]
  intro delegation stored
  have followed : g.governorOf msg.delegatorAddress = some delegation.governorAddress := by
    simp [GovState.governorOf, stored]
  constructor
  · -- an active governor is refused; it follows itself, so the check does not panic
    intro active
    have self := held.registry.self (by simp) active
    rw [followed] at self
    exact fun wrong => wrong (Option.some.inj self)
  · intro notActive
    apply Post.mono (held.except.undelegate ok followed fun active => absurd active notActive)
    · rintro _ mid ⟨heldMid, undelegated⟩
      obtain ⟨governor, present⟩ := held.registry.target stored
      have address := held.registry.governorKey present
      rw [undelegated.governors, present]
      refine ⟨fun _ isGovernor => ?_, fun absent => by cases absent⟩
      cases isGovernor
      refine ⟨?_, fun _ => heldMid.ok⟩
      rintro ⟨inactive, unused⟩
      rw [← undelegated.governors]
      apply heldMid.ok.deleteGovernor _ unused
      rw [isActiveGovernor, undelegated.governors, address, present]
      simpa using inactive
    · exact fun _ _ impossible => impossible.elim

/-- Every governor message keeps the collections consistent and never panics. -/
theorem Op.handle_spec (op : Op) :
    Settles s (op.handle s) g := by
  cases op with
  | staking op => exact held
  | createGovernor msg => exact createGovernor_spec ok held msg
  | editGovernor msg => exact editGovernor_spec held msg
  | updateGovernorStatus msg => exact updateGovernorStatus_spec ok held msg
  | delegateGovernor msg => exact delegateGovernor_spec ok held msg
  | undelegateGovernor msg => exact undelegateGovernor_spec ok held msg

end Messages

end AtomOneSdk.Gov
