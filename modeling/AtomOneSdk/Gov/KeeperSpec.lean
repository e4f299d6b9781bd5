import AtomOneSdk.Gov.Registry

/-!
Contract: what the gov keeper functions do to the governor collections.

Owns: one specification for each function of `keeper/delegation.go` and
`keeper/governor.go`: which collections it writes and how, and that it never panics
when the tracked shares are right.

Does **not** own: hooks and messages.
-/

namespace AtomOneSdk.Gov

open Lib Lib.Action
open Staking (Address StakingState Delegation Validator SharesIn)

/-- Nothing but tracked shares and the index changes. -/
structure SameRegistry (g g' : GovState) : Prop where
  params : g'.params = g.params
  governors : g'.governors = g.governors
  delegations : g'.governanceDelegations = g.governanceDelegations
  byGovernor : g'.governanceDelegationsByGovernor = g.governanceDelegationsByGovernor
  votes : g'.votes = g.votes

namespace SameRegistry

variable {g g' g'' : GovState}

theorem refl (g : GovState) : SameRegistry g g := ⟨rfl, rfl, rfl, rfl, rfl⟩

theorem trans (first : SameRegistry g g') (second : SameRegistry g' g'') : SameRegistry g g'' :=
  ⟨second.params.trans first.params, second.governors.trans first.governors,
    second.delegations.trans first.delegations, second.byGovernor.trans first.byGovernor,
    second.votes.trans first.votes⟩

theorem governorOf (same : SameRegistry g g') : g'.governorOf = g.governorOf := by
  funext delAddr
  unfold GovState.governorOf
  rw [same.delegations]

theorem isActive (same : SameRegistry g g') : isActiveGovernor g' = isActiveGovernor g := by
  funext addr
  unfold isActiveGovernor
  rw [same.governors]

theorem registry (same : SameRegistry g g') {exempt : Option Address}
    (ok : RegistryOK exempt g) : RegistryOK exempt g' :=
  ok.congr same.governors same.delegations same.byGovernor

end SameRegistry

/-! ## Shares of governors -/

section Shares

variable {expected : Address → Address → Int} {g : GovState} {govAddr valAddr : Address}
  {shares : Int}

theorem increaseGovernorShares_spec
    (ok : Tracked expected g.validatorSharesByGovernor)
    (nonzero : expected govAddr valAddr + shares ≠ 0) :
    Post (increaseGovernorShares govAddr valAddr shares) g
      (fun _ g' => SameRegistry g g'
        ∧ g'.activeGovernorsByDelegatedValidator = g.activeGovernorsByDelegatedValidator
        ∧ Tracked (bump expected govAddr valAddr shares) g'.validatorSharesByGovernor)
      (fun _ _ => False) := by
  unfold increaseGovernorShares
  rw [post_modify]
  refine ⟨⟨rfl, rfl, rfl, rfl, rfl⟩, rfl, ?_⟩
  have written := ok.set nonzero
  cases stored : g.validatorSharesByGovernor.get? ⟨govAddr, valAddr⟩ with
  | none =>
    have zero := ok.absent stored
    rw [zero, zero_add] at written
    exact written
  | some record =>
    obtain ⟨governor, validator⟩ := ok.filed stored
    dsimp only at governor validator
    obtain ⟨current, _⟩ := ok.exact stored
    have same : ({ record with shares := record.shares + shares } : GovernorValShares)
        = ⟨govAddr, valAddr, expected govAddr valAddr + shares⟩ := by
      rw [← current, ← governor, ← validator]
    dsimp only
    rw [same]
    exact written

theorem decreaseGovernorShares_spec
    (ok : Tracked expected g.validatorSharesByGovernor) (positive : 0 < shares)
    (enough : shares ≤ expected govAddr valAddr) :
    Post (decreaseGovernorShares govAddr valAddr shares) g
      (fun _ g' => SameRegistry g g'
        ∧ g'.activeGovernorsByDelegatedValidator = g.activeGovernorsByDelegatedValidator
        ∧ Tracked (bump expected govAddr valAddr (-shares)) g'.validatorSharesByGovernor)
      (fun _ _ => False) := by
  simp only [decreaseGovernorShares, post_rules]
  constructor
  · intro record stored
    obtain ⟨governor, validator⟩ := ok.filed stored
    dsimp only at governor validator
    obtain ⟨current, _⟩ := ok.exact stored
    refine ⟨fun negative => by omega, fun _ => ⟨⟨rfl, rfl, rfl, rfl, rfl⟩, ?_⟩⟩
    by_cases zero : record.shares - shares = 0
    · rw [if_pos zero]
      apply ok.delete
      omega
    · rw [if_neg zero]
      have same : ({ record with shares := record.shares - shares } : GovernorValShares)
          = ⟨govAddr, valAddr, expected govAddr valAddr + -shares⟩ := by
        rw [← current, ← governor, ← validator, sub_eq_add_neg]
      rw [same]
      apply ok.set
      omega
  · -- something is expected, so something is stored
    intro absent
    have zero := ok.absent absent
    omega

end Shares

/-! ## The loops over an account's delegations -/

/-- Keys of the index under which a governor with these delegations is listed. -/
def indexKeys (delegations : List Delegation) (govAddr : Address) : List (Pair Address Address) :=
  delegations.map fun d => ⟨d.validatorAddress, govAddr⟩

/-- What is expected when the shares of a list of delegations are added to a governor. -/
def withList (base : Address → Address → Int) (govAddr : Address) (delegations : List Delegation) :
    Address → Address → Int :=
  fun gov val => base gov val + if gov = govAddr then listShares delegations val else 0

theorem withList_nil (base : Address → Address → Int) (govAddr : Address) :
    withList base govAddr [] = base := by
  funext gov val
  simp [withList, listShares]

theorem withList_cons (base : Address → Address → Int) (govAddr : Address) (d : Delegation)
    (rest : List Delegation) :
    withList base govAddr (d :: rest)
      = bump (withList base govAddr rest) govAddr d.validatorAddress d.shares := by
  funext gov val
  simp only [withList, bump, listShares_cons]
  by_cases here : gov = govAddr
  · by_cases there : val = d.validatorAddress
    · simp [here, there]
      omega
    · have other : ¬ d.validatorAddress = val := fun same => there same.symm
      simp [here, there, other]
  · simp [here]

theorem bump_bump_neg (expected : Address → Address → Int) (govAddr valAddr : Address)
    (amount : Int) :
    bump (bump expected govAddr valAddr amount) govAddr valAddr (-amount) = expected := by
  funext gov val
  simp only [bump]
  split_ifs <;> omega

section Loops

variable {base : Address → Address → Int} {govAddr delAddr : Address}

variable (nonneg : ∀ gov val, 0 ≤ base gov val) (delegations : List Delegation)
  (positive : ∀ d ∈ delegations, 0 < d.shares)

include nonneg delegations positive

/-- All shares of a list of delegations leave a governor. -/
theorem decreaseLoop_spec {g : GovState}
    (ok : Tracked (withList base govAddr delegations) g.validatorSharesByGovernor) :
    Post (forEach (fun (d : Delegation) => do
        decreaseGovernorShares govAddr d.validatorAddress d.shares
        whenever (delAddr = govAddr) (modify (·.removeIndexEntry d.validatorAddress govAddr)))
        delegations) g
      (fun _ g' => SameRegistry g g' ∧ Tracked base g'.validatorSharesByGovernor
        ∧ g'.activeGovernorsByDelegatedValidator
          = if delAddr = govAddr then
              (indexKeys delegations govAddr).foldl Store.delete
                g.activeGovernorsByDelegatedValidator
            else g.activeGovernorsByDelegatedValidator)
      (fun _ _ => False) := by
  induction delegations generalizing g with
  | nil =>
    rw [withList_nil] at ok
    refine ⟨SameRegistry.refl g, ok, ?_⟩
    split_ifs <;> rfl
  | cons d rest ih =>
    have here := positive d List.mem_cons_self
    have restPositive : ∀ other ∈ rest, 0 < other.shares :=
      fun other member => positive other (List.mem_cons_of_mem d member)
    have enough : d.shares ≤ withList base govAddr (d :: rest) govAddr d.validatorAddress := by
      have restNonneg := listShares_nonneg restPositive d.validatorAddress
      have baseNonneg := nonneg govAddr d.validatorAddress
      simp only [withList, listShares_cons, if_true]
      omega
    rw [forEach, post_bind, post_bind]
    apply (decreaseGovernorShares_spec ok here enough).imp
    rintro _ mid ⟨sameMid, indexMid, okMid⟩
    rw [withList_cons, bump_bump_neg] at okMid
    rw [post_whenever]
    constructor
    · intro self
      rw [post_modify]
      apply (ih restPositive (g := mid.removeIndexEntry d.validatorAddress govAddr)
        okMid).imp
      rintro _ last ⟨sameLast, okLast, indexLast⟩
      refine ⟨sameMid.trans ⟨sameLast.params, sameLast.governors, sameLast.delegations,
        sameLast.byGovernor, sameLast.votes⟩, okLast, ?_⟩
      rw [indexLast, if_pos self, if_pos self, ← indexMid]
      rfl
    · intro notSelf
      apply (ih restPositive okMid).imp
      rintro _ last ⟨sameLast, okLast, indexLast⟩
      refine ⟨sameMid.trans sameLast, okLast, ?_⟩
      rw [indexLast, if_neg notSelf, if_neg notSelf, indexMid]

/-- All shares of a list of delegations go to a governor. -/
theorem increaseLoop_spec {g : GovState} (ok : Tracked base g.validatorSharesByGovernor) :
    Post (forEach (fun (d : Delegation) => do
        increaseGovernorShares govAddr d.validatorAddress d.shares
        whenever (delAddr = govAddr) (modify (·.setIndexEntry d.validatorAddress govAddr)))
        delegations) g
      (fun _ g' => SameRegistry g g'
        ∧ Tracked (withList base govAddr delegations) g'.validatorSharesByGovernor
        ∧ g'.activeGovernorsByDelegatedValidator
          = if delAddr = govAddr then
              (indexKeys delegations govAddr).foldl (fun index key => index.set key ())
                g.activeGovernorsByDelegatedValidator
            else g.activeGovernorsByDelegatedValidator)
      (fun _ _ => False) := by
  induction delegations generalizing g base with
  | nil =>
    rw [withList_nil]
    refine ⟨SameRegistry.refl g, ok, ?_⟩
    split_ifs <;> rfl
  | cons d rest ih =>
    have here := positive d List.mem_cons_self
    have restPositive : ∀ other ∈ rest, 0 < other.shares :=
      fun other member => positive other (List.mem_cons_of_mem d member)
    have baseNonneg := nonneg govAddr d.validatorAddress
    -- the shares added so far are part of the base of the rest
    have bumped : ∀ gov val, 0 ≤ bump base govAddr d.validatorAddress d.shares gov val := by
      intro gov val
      have before := nonneg gov val
      simp only [bump]
      split_ifs <;> omega
    have commuted : withList (bump base govAddr d.validatorAddress d.shares) govAddr rest
        = withList base govAddr (d :: rest) := by
      rw [withList_cons]
      funext gov val
      simp only [withList, bump]
      omega
    rw [forEach, post_bind, post_bind]
    apply (increaseGovernorShares_spec ok (by omega)).imp
    rintro _ mid ⟨sameMid, indexMid, okMid⟩
    rw [post_whenever]
    constructor
    · intro self
      rw [post_modify]
      apply (ih bumped restPositive
        (g := mid.setIndexEntry d.validatorAddress govAddr) okMid).imp
      rintro _ last ⟨sameLast, okLast, indexLast⟩
      rw [commuted] at okLast
      refine ⟨sameMid.trans ⟨sameLast.params, sameLast.governors, sameLast.delegations,
        sameLast.byGovernor, sameLast.votes⟩, okLast, ?_⟩
      rw [indexLast, if_pos self, if_pos self, ← indexMid]
      rfl
    · intro notSelf
      apply (ih bumped restPositive okMid).imp
      rintro _ last ⟨sameLast, okLast, indexLast⟩
      rw [commuted] at okLast
      refine ⟨sameMid.trans sameLast, okLast, ?_⟩
      rw [indexLast, if_neg notSelf, if_neg notSelf, indexMid]

end Loops

/-! ## Governance delegations -/

section Delegations

variable {s : StakingState} {pending : Address → Int} {g : GovState} {delAddr govAddr : Address}

variable (ok : SharesIn pending s)

include ok

variable {follows : Address → Option Address}

/-- The expected shares, split at a delegator that follows a governor. -/
theorem governorShares_followed (followed : follows delAddr = some govAddr) :
    governorShares s.delegations follows
      = withList (othersShares s.delegations follows delAddr) govAddr
          (delegationsOf s delAddr) := by
  funext gov val
  rw [governorShares_split ok follows delAddr, followed, withList]
  by_cases here : gov = govAddr
  · simp [here]
  · have other : ¬ some govAddr = some gov := fun same => here (Option.some.inj same).symm
    simp [here, other]

theorem governorShares_unfollowed (unfollowed : follows delAddr = none) :
    governorShares s.delegations follows = othersShares s.delegations follows delAddr := by
  funext gov val
  rw [governorShares_split ok follows delAddr, unfollowed]
  simp

/-- Where a delegator's delegations put its account into the index. -/
theorem mem_indexKeys
    {valAddr gov : Address} :
    (⟨valAddr, gov⟩ : Pair Address Address) ∈ indexKeys (delegationsOf s delAddr) govAddr
      ↔ gov = govAddr ∧ (s.delegations.get? ⟨delAddr, valAddr⟩).isSome := by
  unfold indexKeys
  constructor
  · intro member
    obtain ⟨d, inList, same⟩ := List.mem_map.mp member
    cases same
    exact ⟨rfl, by rw [(mem_delegationsOf ok).mp inList]; rfl⟩
  · rintro ⟨isGov, present⟩
    obtain ⟨d, stored⟩ := Option.isSome_iff_exists.mp present
    have validator : d.validatorAddress = valAddr := (ok.delegationKey stored).2
    apply List.mem_map.mpr
    refine ⟨d, (mem_delegationsOf ok).mpr (by rw [validator]; exact stored), ?_⟩
    rw [isGov, validator]

/-- After the delegation of a delegator has been undone. -/
structure Undelegated (s : StakingState) (delAddr govAddr : Address) (g g' : GovState) :
    Prop where
  params : g'.params = g.params
  governors : g'.governors = g.governors
  votes : g'.votes = g.votes
  delegations : g'.governanceDelegations = g.governanceDelegations.delete delAddr
  byGovernor : g'.governanceDelegationsByGovernor
    = g.governanceDelegationsByGovernor.delete ⟨govAddr, delAddr⟩
  shares : Tracked (governorShares s.delegations g'.governorOf) g'.validatorSharesByGovernor
  index : g'.activeGovernorsByDelegatedValidator
    = if delAddr = govAddr then
        (indexKeys (delegationsOf s delAddr) govAddr).foldl Store.delete
          g.activeGovernorsByDelegatedValidator
      else g.activeGovernorsByDelegatedValidator

theorem undelegateFromGovernor_spec
    (tracked : Tracked (governorShares s.delegations g.governorOf) g.validatorSharesByGovernor)
    (followed : g.governorOf delAddr = some govAddr) :
    Post (undelegateFromGovernor s delAddr) g
      (fun _ => Undelegated s delAddr govAddr g) (fun _ _ => False) := by
  obtain ⟨delegation, stored, isGov⟩ := Option.map_eq_some_iff.mp followed
  subst isGov
  simp only [undelegateFromGovernor, post_bind, post_get, post_getOrFail]
  constructor
  · intro found present
    have same : found = delegation := some_unique present stored
    subst same
    rw [governorShares_followed ok followed] at tracked
    apply (decreaseLoop_spec (othersShares_nonneg ok g.governorOf delAddr) _
      (delegationsOf_positive ok) tracked).imp
    rintro _ mid ⟨sameMid, trackedMid, indexMid⟩
    rw [post_modify]
    have storedMid : mid.governanceDelegations.get? delAddr = some found := by
      rw [sameMid.delegations]
      exact stored
    have removed : mid.removeGovernanceDelegation delAddr
        = { mid with
            governanceDelegations := mid.governanceDelegations.delete delAddr
            governanceDelegationsByGovernor := mid.governanceDelegationsByGovernor.delete
              ⟨found.governorAddress, delAddr⟩ } := by
      simp only [GovState.removeGovernanceDelegation, storedMid]
    rw [removed]
    refine ⟨sameMid.params, sameMid.governors, sameMid.votes, ?_, ?_, ?_, indexMid⟩
    · show mid.governanceDelegations.delete delAddr = _
      rw [sameMid.delegations]
    · show mid.governanceDelegationsByGovernor.delete _ = _
      rw [sameMid.byGovernor]
    · -- the delegator now follows nobody and the others follow whom they did
      have unfollowed : GovState.governorOf
          { mid with
            governanceDelegations := mid.governanceDelegations.delete delAddr
            governanceDelegationsByGovernor := mid.governanceDelegationsByGovernor.delete
              ⟨found.governorAddress, delAddr⟩ } delAddr = none := by
        simp [GovState.governorOf]
      rw [governorShares_unfollowed ok unfollowed]
      have agree : othersShares s.delegations (GovState.governorOf
          { mid with
            governanceDelegations := mid.governanceDelegations.delete delAddr
            governanceDelegationsByGovernor := mid.governanceDelegationsByGovernor.delete
              ⟨found.governorAddress, delAddr⟩ }) delAddr
          = othersShares s.delegations g.governorOf delAddr := by
        funext gov val
        apply othersShares_congr
        intro other apart
        simp only [GovState.governorOf]
        rw [Store.get?_delete_of_ne apart, sameMid.delegations]
      rw [agree]
      exact trackedMid
  · intro absent
    rw [stored] at absent
    cases absent

/-- After a delegator without governance delegation has got one. -/
structure Delegated (s : StakingState) (delAddr govAddr : Address) (g g' : GovState) :
    Prop where
  params : g'.params = g.params
  governors : g'.governors = g.governors
  votes : g'.votes = g.votes
  delegations : g'.governanceDelegations
    = g.governanceDelegations.set delAddr ⟨delAddr, govAddr⟩
  byGovernor : g'.governanceDelegationsByGovernor
    = g.governanceDelegationsByGovernor.set ⟨govAddr, delAddr⟩ ⟨delAddr, govAddr⟩
  shares : Tracked (governorShares s.delegations g'.governorOf) g'.validatorSharesByGovernor
  index : g'.activeGovernorsByDelegatedValidator
    = if delAddr = govAddr then
        (indexKeys (delegationsOf s delAddr) govAddr).foldl (fun index key => index.set key ())
          g.activeGovernorsByDelegatedValidator
      else g.activeGovernorsByDelegatedValidator

theorem delegateToGovernor_spec
    (tracked : Tracked (governorShares s.delegations g.governorOf) g.validatorSharesByGovernor)
    (unfollowed : g.governorOf delAddr = none) :
    Post (delegateToGovernor s delAddr govAddr) g
      (fun _ => Delegated s delAddr govAddr g) (fun _ _ => False) := by
  simp only [delegateToGovernor]
  rw [post_bind, post_modify]
  rw [governorShares_unfollowed ok unfollowed] at tracked
  have nonneg := othersShares_nonneg ok g.governorOf delAddr
  apply (increaseLoop_spec (g := g.setGovernanceDelegation ⟨delAddr, govAddr⟩) nonneg _
    (delegationsOf_positive ok) tracked).imp
  rintro _ last ⟨same, trackedLast, index⟩
  refine ⟨same.params, same.governors, same.votes, same.delegations, same.byGovernor, ?_, index⟩
  have followed : last.governorOf delAddr = some govAddr := by
    rw [same.governorOf]
    simp [GovState.governorOf, GovState.setGovernanceDelegation]
  rw [governorShares_followed ok followed]
  have agree : othersShares s.delegations last.governorOf delAddr
      = othersShares s.delegations g.governorOf delAddr := by
    funext gov val
    apply othersShares_congr
    intro other apart
    rw [same.governorOf]
    simp only [GovState.governorOf, GovState.setGovernanceDelegation]
    rw [Store.get?_set_of_ne apart]
  rw [agree]
  exact trackedLast

end Delegations

/-! ## The index of active governors -/

section Index

variable {s : StakingState} {g : GovState} {govAddr : Address}

theorem foldl_removeIndexEntry (delegations : List Delegation) :
    delegations.foldl (fun current d => current.removeIndexEntry d.validatorAddress govAddr) g
      = { g with
          activeGovernorsByDelegatedValidator :=
            (indexKeys delegations govAddr).foldl Store.delete
              g.activeGovernorsByDelegatedValidator } := by
  induction delegations generalizing g with
  | nil => rfl
  | cons d rest ih =>
    rw [List.foldl_cons, ih]
    rfl

theorem foldl_setIndexEntry (delegations : List Delegation) :
    delegations.foldl (fun current d => current.setIndexEntry d.validatorAddress govAddr) g
      = { g with
          activeGovernorsByDelegatedValidator :=
            (indexKeys delegations govAddr).foldl (fun index key => index.set key ())
              g.activeGovernorsByDelegatedValidator } := by
  induction delegations generalizing g with
  | nil => rfl
  | cons d rest ih =>
    rw [List.foldl_cons, ih]
    rfl

theorem post_setActiveGovernorIndexEntries {holds : Unit → GovState → Prop}
    {stops : Fault GovReason → GovState → Prop} :
    Post (setActiveGovernorIndexEntries s govAddr) g holds stops
      ↔ holds () { g with
          activeGovernorsByDelegatedValidator :=
            (indexKeys (delegationsOf s govAddr) govAddr).foldl (fun index key => index.set key ())
              g.activeGovernorsByDelegatedValidator } := by
  unfold setActiveGovernorIndexEntries
  rw [post_forEach_modify, foldl_setIndexEntry]

theorem post_removeActiveGovernorIndexEntries {holds : Unit → GovState → Prop}
    {stops : Fault GovReason → GovState → Prop} :
    Post (removeActiveGovernorIndexEntries s govAddr) g holds stops
      ↔ holds () { g with
          activeGovernorsByDelegatedValidator :=
            (indexKeys (delegationsOf s govAddr) govAddr).foldl Store.delete
              g.activeGovernorsByDelegatedValidator } := by
  unfold removeActiveGovernorIndexEntries
  rw [post_forEach_modify, foldl_removeIndexEntry]

end Index

/-! ## Bonded tokens and the minimum self-delegation -/

section Minimum

variable {s : StakingState} {pending : Address → Int} {g : GovState}

/-- Staking never lets a delegated validator run out of shares. -/
theorem delegated_validator (ok : SharesIn pending s)
    (settled : ∀ addr, 0 ≤ pending addr) {govAddr : Address} {d : Delegation}
    (member : d ∈ delegationsOf s govAddr) :
    ∃ v, s.validators.get? d.validatorAddress = some v ∧ v.delegatorShares ≠ 0 := by
  have stored := (mem_delegationsOf ok).mp member
  obtain ⟨v, home⟩ := ok.home stored
  have present : s.validators.get? d.validatorAddress = some v := home
  have counted : d.shares ≤ Staking.delegatedTo s.delegations d.validatorAddress :=
    ok.shares_le_delegatedTo stored
  have total := ok.total present
  have positive := ok.positive stored
  have pendingNonneg := settled d.validatorAddress
  exact ⟨v, present, by omega⟩

variable {excluded : List Address} {governor : Governor}

theorem getGovernorBondedTokensWithExclusions_spec
    (ok : SharesIn pending s) (settled : ∀ addr, 0 ≤ pending addr) {govAddr : Address} :
    Post (getGovernorBondedTokensWithExclusions s govAddr excluded) g
      (fun _ g' => g' = g) (fun _ _ => False) := by
  unfold getGovernorBondedTokensWithExclusions
  apply Post.imp (post_foldOver
    (fun rest _ g' => g' = g ∧ ∀ d ∈ rest, d ∈ delegationsOf s govAddr) ?_ _ _ _
    ⟨rfl, fun _ member => member⟩)
  · exact fun _ _ done => done.1
  · rintro d rest acc g' ⟨same, members⟩
    have restMembers : ∀ other ∈ rest, other ∈ delegationsOf s govAddr :=
      fun other member => members other (List.mem_cons_of_mem d member)
    rw [post_ite]
    constructor
    · exact fun _ => ⟨same, restMembers⟩
    · intro _
      obtain ⟨v, present, hasShares⟩ :=
        delegated_validator ok settled (members d List.mem_cons_self)
      simp only [post_rules]
      constructor
      · intro found stored
        have isV : found = v := some_unique stored present
        exact ⟨fun none => hasShares (isV ▸ none), fun _ => ⟨same, restMembers⟩⟩
      · intro absent
        rw [present] at absent
        cases absent

/-- The check of a governor that is delegated to itself only reads. -/
theorem validateWithTotalBonded_spec {totalBonded : Int} (self : governor.isActive = true →
      g.governorOf governor.governorAddress = some governor.governorAddress) :
    Post (validateGovernorMinSelfDelegationWithTotalBonded governor totalBonded) g
      (fun _ g' => g' = g) (fun _ _ => False) := by
  simp only [validateGovernorMinSelfDelegationWithTotalBonded, post_rules, post_ite]
  intro active wrong
  exact wrong (self (by simpa using active))

theorem validateGovernorMinSelfDelegationWithExclusions_spec
    (ok : SharesIn pending s) (settled : ∀ addr, 0 ≤ pending addr)
    (self : governor.isActive = true →
      g.governorOf governor.governorAddress = some governor.governorAddress) :
    Post (validateGovernorMinSelfDelegationWithExclusions s governor excluded) g
      (fun _ g' => g' = g) (fun _ _ => False) := by
  rw [validateGovernorMinSelfDelegationWithExclusions, post_ite]
  constructor
  · exact fun _ => rfl
  · intro _
    rw [post_bind]
    apply (getGovernorBondedTokensWithExclusions_spec ok settled).imp
    intro bonded _ same
    subst same
    exact validateWithTotalBonded_spec self

end Minimum

/-! ## Setting a governor inactive -/

theorem isActiveGovernor_setGovernor (g : GovState) (governor : Governor) (addr : Address) :
    isActiveGovernor (g.setGovernor governor) addr
      = if addr = governor.governorAddress then governor.isActive else isActiveGovernor g addr := by
  unfold isActiveGovernor GovState.setGovernor
  dsimp only
  rw [Store.get?_set]
  split_ifs <;> rfl

section Inactive

variable {s : StakingState} {pending : Address → Int} {g : GovState} {dels : Stakes}

/-- A governor becomes inactive and leaves the index, in which its own entries need
not have been complete. -/
theorem setGovernorInactive_spec (ok : SharesIn pending s)
    {governor : Governor} {exempt : Option Address} (registry : RegistryOK none g)
    (index : ActiveIndexOK exempt s.delegations g)
    (exempted : ∀ addr, exempt = some addr → addr = governor.governorAddress)
    (shares : Tracked (governorShares dels g.governorOf) g.validatorSharesByGovernor) :
    Post (setGovernorInactive s governor) g
      (fun _ g' => GovOK dels s.delegations g'
        ∧ isActiveGovernor g' governor.governorAddress = false)
      (fun _ _ => False) := by
  rw [setGovernorInactive, post_bind, post_modify, post_removeActiveGovernorIndexEntries]
  set inactive : Governor :=
    { governor with status := .inactive, lastStatusChangeTime := s.blockTime } with inactiveDef
  have registryAfter : RegistryOK none (g.setGovernor inactive) :=
    registry.setGovernor fun active => by cases active
  have leaves : ∀ {valAddr govAddr},
      (((indexKeys (delegationsOf s governor.governorAddress)
          governor.governorAddress).foldl Store.delete
        (g.setGovernor inactive).activeGovernorsByDelegatedValidator).get?
          ⟨valAddr, govAddr⟩).isSome →
      (g.activeGovernorsByDelegatedValidator.get? ⟨valAddr, govAddr⟩).isSome
        ∧ govAddr ≠ governor.governorAddress := by
    intro valAddr govAddr present
    rw [Store.get?_foldl_delete] at present
    split_ifs at present with deleted
    · cases present
    · refine ⟨present, fun here => deleted ?_⟩
      apply (mem_indexKeys ok).mpr
      refine ⟨here, ?_⟩
      rw [← here]
      exact index.staked present
  have notExempt : ∀ {govAddr}, govAddr ≠ governor.governorAddress → some govAddr ≠ exempt :=
    fun apart same => apart (exempted _ same.symm)
  refine ⟨⟨registryAfter.congr rfl rfl rfl, ?_, shares⟩, ?_⟩
  · constructor
    · intro valAddr govAddr present
      exact index.staked (leaves present).1
    · intro valAddr govAddr _ present
      obtain ⟨old, apart⟩ := leaves present
      show isActiveGovernor (g.setGovernor inactive) govAddr = true
      rw [isActiveGovernor_setGovernor, if_neg apart]
      exact index.active (notExempt apart) old
    · intro valAddr govAddr _ active staked
      have activeAfter : isActiveGovernor (g.setGovernor inactive) govAddr = true := active
      rw [isActiveGovernor_setGovernor] at activeAfter
      by_cases here : govAddr = governor.governorAddress
      · rw [if_pos here] at activeAfter
        cases activeAfter
      · rw [if_neg here] at activeAfter
        have old := index.listed (notExempt here) activeAfter staked
        dsimp only
        rw [Store.get?_foldl_delete, if_neg]
        · exact old
        · intro deleted
          exact here ((mem_indexKeys ok).mp deleted).1
  · show isActiveGovernor (g.setGovernor inactive) governor.governorAddress = false
    rw [isActiveGovernor_setGovernor, if_pos rfl]
    rfl

end Inactive

end AtomOneSdk.Gov
