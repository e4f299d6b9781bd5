import AtomOneSdk.Gov.Keeper
import AtomOneSdk.Staking.Accounting

/-!
Contract: the invariant of the governor collections.

Owns: the agreement of the two delegation collections, existence of the governors
delegated to, self-delegation of active governors, the index of active governors by
validator, and the shares tracked for each governor and validator as the sum over the
delegators that follow the governor; with how each kind of write changes them.

Does **not** own: keeper functions.
-/

namespace AtomOneSdk.Gov

open Lib Store
open Staking (Address StakingState Delegation Validator SharesIn)

abbrev Stakes := Store (Pair Address Address) Delegation

/-! ## Tracked shares -/

/-- Shares in a validator of all delegators that follow a governor. -/
def governorShares (dels : Stakes) (follows : Address → Option Address)
    (govAddr valAddr : Address) : Int :=
  dels.sum fun key d => if key.snd = valAddr ∧ follows key.fst = some govAddr then d.shares else 0

/-- The stored shares are the expected ones, and nothing is stored for zero. -/
structure Tracked (expected : Address → Address → Int)
    (stored : Store (Pair Address Address) GovernorValShares) : Prop where
  filed : ∀ {key record}, stored.get? key = some record →
    record.governorAddress = key.fst ∧ record.validatorAddress = key.snd
  exact : ∀ {govAddr valAddr record}, stored.get? ⟨govAddr, valAddr⟩ = some record →
    record.shares = expected govAddr valAddr ∧ record.shares ≠ 0
  absent : ∀ {govAddr valAddr}, stored.get? ⟨govAddr, valAddr⟩ = none →
    expected govAddr valAddr = 0

def bump (expected : Address → Address → Int) (govAddr valAddr : Address) (amount : Int) :
    Address → Address → Int :=
  fun gov val => expected gov val + if gov = govAddr ∧ val = valAddr then amount else 0

theorem bump_self (expected : Address → Address → Int) (govAddr valAddr : Address) (amount : Int) :
    bump expected govAddr valAddr amount govAddr valAddr = expected govAddr valAddr + amount := by
  simp [bump]

theorem bump_of_ne (expected : Address → Address → Int) {govAddr valAddr gov val : Address}
    (amount : Int) (apart : (⟨gov, val⟩ : Pair Address Address) ≠ ⟨govAddr, valAddr⟩) :
    bump expected govAddr valAddr amount gov val = expected gov val := by
  have different : ¬ (gov = govAddr ∧ val = valAddr) := by
    rintro ⟨sameGov, sameVal⟩
    exact apart (by rw [sameGov, sameVal])
  simp [bump, different]

namespace Tracked

variable {expected : Address → Address → Int}
  {stored : Store (Pair Address Address) GovernorValShares} {govAddr valAddr : Address}
  {amount : Int}

theorem set (ok : Tracked expected stored) (nonzero : expected govAddr valAddr + amount ≠ 0) :
    Tracked (bump expected govAddr valAddr amount)
      (stored.set ⟨govAddr, valAddr⟩
        ⟨govAddr, valAddr, expected govAddr valAddr + amount⟩) where
  filed := forall_set ok.filed ⟨rfl, rfl⟩
  exact := by
    intro gov val record found
    rcases get?_set_cases found with ⟨here, rfl⟩ | ⟨apart, old⟩
    · cases here
      exact ⟨(bump_self _ _ _ _).symm, nonzero⟩
    · rw [bump_of_ne _ _ apart]
      exact ok.exact old
  absent := by
    intro gov val none
    rw [get?_set] at none
    split_ifs at none with here
    rw [bump_of_ne _ _ here]
    exact ok.absent none

theorem delete (ok : Tracked expected stored) (zero : expected govAddr valAddr + amount = 0) :
    Tracked (bump expected govAddr valAddr amount) (stored.delete ⟨govAddr, valAddr⟩) where
  filed := fun found => ok.filed (get?_delete_some found).2
  exact := by
    intro gov val record found
    obtain ⟨apart, old⟩ := get?_delete_some found
    rw [bump_of_ne _ _ apart]
    exact ok.exact old
  absent := by
    intro gov val none
    by_cases here : (⟨gov, val⟩ : Pair Address Address) = ⟨govAddr, valAddr⟩
    · cases here
      rw [bump_self, zero]
    · rw [bump_of_ne _ _ here]
      rw [get?_delete_of_ne here] at none
      exact ok.absent none

end Tracked

/-! ## The shares of one delegator -/

/-- Shares in a validator among a list of delegations. -/
def listShares (delegations : List Delegation) (valAddr : Address) : Int :=
  (delegations.map fun d => if d.validatorAddress = valAddr then d.shares else 0).sum

theorem listShares_cons (d : Delegation) (rest : List Delegation) (valAddr : Address) :
    listShares (d :: rest) valAddr
      = (if d.validatorAddress = valAddr then d.shares else 0) + listShares rest valAddr := by
  simp [listShares]

theorem listShares_nonneg {delegations : List Delegation}
    (positive : ∀ d ∈ delegations, 0 < d.shares) (valAddr : Address) :
    0 ≤ listShares delegations valAddr := by
  apply List.sum_nonneg
  intro amount member
  obtain ⟨d, inList, rfl⟩ := List.mem_map.mp member
  split_ifs
  · exact le_of_lt (positive d inList)
  · exact le_refl 0

/-- Shares in a validator of the followers of a governor other than one delegator. -/
def othersShares (dels : Stakes) (follows : Address → Option Address)
    (delAddr govAddr valAddr : Address) : Int :=
  dels.sum fun key d =>
    if key.fst ≠ delAddr ∧ key.snd = valAddr ∧ follows key.fst = some govAddr then d.shares else 0

section Delegator

variable {s : StakingState} {pending : Address → Int}

theorem mem_delegationsOf (ok : SharesIn pending s) {delAddr : Address} {d : Delegation} :
    d ∈ delegationsOf s delAddr ↔ s.delegations.get? ⟨delAddr, d.validatorAddress⟩ = some d := by
  unfold delegationsOf
  constructor
  · intro member
    obtain ⟨⟨key, found⟩, inEntries, rfl⟩ := List.mem_map.mp member
    obtain ⟨entry, here⟩ := List.mem_filter.mp inEntries
    have stored := mem_entries.mp entry
    have validator : found.validatorAddress = key.snd := (ok.delegationKey stored).2
    have delegator : key.fst = delAddr := by simpa using here
    show s.delegations.get? ⟨delAddr, found.validatorAddress⟩ = some found
    rw [validator, ← delegator]
    exact stored
  · intro stored
    apply List.mem_map.mpr
    refine ⟨(⟨delAddr, d.validatorAddress⟩, d), ?_, rfl⟩
    exact List.mem_filter.mpr ⟨mem_entries.mpr stored, by simp⟩

theorem delegationsOf_positive (ok : SharesIn pending s)
    {delAddr : Address} : ∀ d ∈ delegationsOf s delAddr, 0 < d.shares := by
  intro d member
  exact ok.positive ((mem_delegationsOf ok).mp member)

/-- A sum over one delegator's delegations, as a sum over all delegations. -/
theorem sum_delegationsOf {M : Type} [AddCommMonoid M] (s : StakingState) (delAddr : Address)
    (f : Delegation → M) :
    ((delegationsOf s delAddr).map f).sum
      = s.delegations.sum fun key d => if key.fst = delAddr then f d else 0 := by
  have filtered := s.delegations.sum_filter_entries (fun key _ => decide (key.fst = delAddr))
    (fun _ d => f d)
  simp only [decide_eq_true_eq] at filtered
  rw [← filtered, delegationsOf, List.map_map]
  rfl

/-- The followers' shares are those of one delegator and those of the others. -/
theorem governorShares_split (ok : SharesIn pending s)
    (follows : Address → Option Address) (delAddr govAddr valAddr : Address) :
    governorShares s.delegations follows govAddr valAddr
      = othersShares s.delegations follows delAddr govAddr valAddr
        + if follows delAddr = some govAddr then listShares (delegationsOf s delAddr) valAddr
          else 0 := by
  have own : listShares (delegationsOf s delAddr) valAddr
      = s.delegations.sum fun key d =>
          if key.fst = delAddr then (if key.snd = valAddr then d.shares else 0) else 0 := by
    rw [listShares, sum_delegationsOf]
    apply sum_congr
    intro key d stored
    rw [(ok.delegationKey stored).2]
  unfold governorShares othersShares
  by_cases followed : follows delAddr = some govAddr
  · rw [if_pos followed, own, ← sum_add]
    apply sum_congr
    intro key d _
    by_cases here : key.fst = delAddr
    · simp [here, followed]
    · simp [here]
  · rw [if_neg followed, add_zero]
    apply sum_congr
    intro key d _
    by_cases here : key.fst = delAddr
    · simp [here, followed]
    · simp [here]

theorem othersShares_nonneg (ok : SharesIn pending s)
    (follows : Address → Option Address) (delAddr govAddr valAddr : Address) :
    0 ≤ othersShares s.delegations follows delAddr govAddr valAddr := by
  apply sum_nonneg
  intro key d stored
  split_ifs
  · exact le_of_lt (ok.positive stored)
  · exact le_refl 0

/-- The others do not notice whom a delegator follows. -/
theorem othersShares_congr {dels : Stakes} {follows follows' : Address → Option Address}
    {delAddr : Address} (same : ∀ other, other ≠ delAddr → follows' other = follows other)
    (govAddr valAddr : Address) :
    othersShares dels follows' delAddr govAddr valAddr
      = othersShares dels follows delAddr govAddr valAddr := by
  apply sum_congr
  intro key d _
  by_cases here : key.fst = delAddr
  · simp [here]
  · simp [here, same key.fst here]

/-- Without one stored delegation, its governor has its shares less. -/
theorem governorShares_delete {dels : Stakes} {follows : Address → Option Address}
    {delAddr valAddr : Address} {d : Delegation}
    (stored : dels.get? ⟨delAddr, valAddr⟩ = some d) {govAddr : Address}
    (followed : follows delAddr = some govAddr) :
    governorShares (dels.delete ⟨delAddr, valAddr⟩) follows
      = bump (governorShares dels follows) govAddr valAddr (-d.shares) := by
  funext gov val
  unfold governorShares bump
  rw [sum_delete, termAt_of_some stored]
  dsimp only
  rw [followed]
  by_cases here : gov = govAddr ∧ val = valAddr
  · obtain ⟨rfl, rfl⟩ := here
    simp
    omega
  · have other : ¬ (valAddr = val ∧ some govAddr = some gov) := by
      rintro ⟨sameVal, sameGov⟩
      exact here ⟨(Option.some.inj sameGov).symm, sameVal.symm⟩
    rw [if_neg here, if_neg other]
    omega

theorem governorShares_set {dels : Stakes} {follows : Address → Option Address}
    {delAddr valAddr : Address} {d : Delegation}
    (absent : dels.get? ⟨delAddr, valAddr⟩ = none) {govAddr : Address}
    (followed : follows delAddr = some govAddr) :
    governorShares (dels.set ⟨delAddr, valAddr⟩ d) follows
      = bump (governorShares dels follows) govAddr valAddr d.shares := by
  funext gov val
  unfold governorShares bump
  rw [sum_set, termAt_of_none absent]
  dsimp only
  rw [followed]
  by_cases here : gov = govAddr ∧ val = valAddr
  · obtain ⟨rfl, rfl⟩ := here
    simp
  · have other : ¬ (valAddr = val ∧ some govAddr = some gov) := by
      rintro ⟨sameVal, sameGov⟩
      exact here ⟨(Option.some.inj sameGov).symm, sameVal.symm⟩
    rw [if_neg here, if_neg other]
    omega

/-- A delegation of somebody who follows nobody does not count. -/
theorem governorShares_delete_unfollowed {dels : Stakes} {follows : Address → Option Address}
    {delAddr valAddr : Address} (unfollowed : follows delAddr = none) :
    governorShares (dels.delete ⟨delAddr, valAddr⟩) follows = governorShares dels follows := by
  funext gov val
  unfold governorShares
  rw [sum_delete]
  cases stored : dels.get? ⟨delAddr, valAddr⟩ with
  | none => rw [termAt_of_none stored, sub_zero]
  | some d => simp [termAt_of_some stored, unfollowed]

theorem governorShares_set_unfollowed {dels : Stakes} {follows : Address → Option Address}
    {delAddr valAddr : Address} {d : Delegation} (unfollowed : follows delAddr = none) :
    governorShares (dels.set ⟨delAddr, valAddr⟩ d) follows = governorShares dels follows := by
  rw [← @governorShares_delete_unfollowed (dels.set ⟨delAddr, valAddr⟩ d) follows delAddr valAddr
      unfollowed, delete_set, governorShares_delete_unfollowed unfollowed]

theorem governorShares_nonneg (dels : Stakes)
    (positive : ∀ {key d}, dels.get? key = some d → 0 < d.shares)
    (follows : Address → Option Address) (govAddr valAddr : Address) :
    0 ≤ governorShares dels follows govAddr valAddr := by
  apply sum_nonneg
  intro key d stored
  split_ifs
  · exact le_of_lt (positive stored)
  · exact le_refl 0

/-- A follower's delegation is part of what is tracked for its governor. -/
theorem shares_le_governorShares (ok : SharesIn pending s)
    {follows : Address → Option Address} {delAddr govAddr valAddr : Address} {d : Delegation}
    (stored : s.delegations.get? ⟨delAddr, valAddr⟩ = some d)
    (followed : follows delAddr = some govAddr) :
    d.shares ≤ governorShares s.delegations follows govAddr valAddr := by
  have counted := governorShares_delete stored followed
  have rest := governorShares_nonneg (s.delegations.delete ⟨delAddr, valAddr⟩)
    (fun found => ok.positive (get?_delete_some found).2) follows govAddr valAddr
  rw [counted, bump_self] at rest
  omega

end Delegator

/-! ## Governors and their delegations -/

theorem isActiveGovernor_iff {g : GovState} {addr : Address} :
    isActiveGovernor g addr = true
      ↔ ∃ governor, g.governors.get? addr = some governor ∧ governor.isActive = true := by
  unfold isActiveGovernor
  cases g.governors.get? addr <;> simp

/-- The governor collections are consistent; one account may be exempt from
self-delegation while a message is being executed. -/
structure RegistryOK (exempt : Option Address) (g : GovState) : Prop where
  governorKey : ∀ {addr governor}, g.governors.get? addr = some governor →
    governor.governorAddress = addr
  delegationKey : ∀ {delAddr delegation}, g.governanceDelegations.get? delAddr = some delegation →
    delegation.delegatorAddress = delAddr
  mirror : ∀ {govAddr delAddr delegation},
    g.governanceDelegationsByGovernor.get? ⟨govAddr, delAddr⟩ = some delegation
      ↔ g.governanceDelegations.get? delAddr = some delegation
        ∧ delegation.governorAddress = govAddr
  target : ∀ {delAddr delegation}, g.governanceDelegations.get? delAddr = some delegation →
    ∃ governor, g.governors.get? delegation.governorAddress = some governor
  self : ∀ {addr}, some addr ≠ exempt → isActiveGovernor g addr = true →
    g.governorOf addr = some addr

/-- The index lists the active governors under the validators their accounts delegate
to; of an exempt governor it lists nothing else. -/
structure ActiveIndexOK (exempt : Option Address) (dels : Stakes) (g : GovState) : Prop where
  staked : ∀ {valAddr govAddr},
    (g.activeGovernorsByDelegatedValidator.get? ⟨valAddr, govAddr⟩).isSome →
      (dels.get? ⟨govAddr, valAddr⟩).isSome
  active : ∀ {valAddr govAddr}, some govAddr ≠ exempt →
    (g.activeGovernorsByDelegatedValidator.get? ⟨valAddr, govAddr⟩).isSome →
      isActiveGovernor g govAddr = true
  listed : ∀ {valAddr govAddr}, some govAddr ≠ exempt → isActiveGovernor g govAddr = true →
    (dels.get? ⟨govAddr, valAddr⟩).isSome →
      (g.activeGovernorsByDelegatedValidator.get? ⟨valAddr, govAddr⟩).isSome

/-- The whole invariant. The tracked shares are those of `counted`, which lacks a
delegation while it is being changed. -/
structure GovOK (counted dels : Stakes) (g : GovState) : Prop where
  registry : RegistryOK none g
  index : ActiveIndexOK none dels g
  shares : Tracked (governorShares counted g.governorOf) g.validatorSharesByGovernor

/-- The invariant between changes of delegations. -/
abbrev GovSettled (s : StakingState) (g : GovState) : Prop := GovOK s.delegations s.delegations g

namespace RegistryOK

variable {exempt : Option Address} {g g' : GovState}

/-- The delegation of a delegator is the one to its governor. -/
theorem delegation_eq (ok : RegistryOK exempt g) {delAddr : Address}
    {delegation : GovernanceDelegation}
    (stored : g.governanceDelegations.get? delAddr = some delegation) :
    delegation = ⟨delAddr, delegation.governorAddress⟩ := by
  rw [← ok.delegationKey stored]

theorem congr (ok : RegistryOK exempt g) (governors : g'.governors = g.governors)
    (delegations : g'.governanceDelegations = g.governanceDelegations)
    (byGovernor : g'.governanceDelegationsByGovernor = g.governanceDelegationsByGovernor) :
    RegistryOK exempt g' := by
  constructor
  · rw [governors]
    exact ok.governorKey
  · rw [delegations]
    exact ok.delegationKey
  · rw [delegations, byGovernor]
    exact ok.mirror
  · rw [delegations, governors]
    exact ok.target
  · intro addr notExempt active
    unfold isActiveGovernor at active
    unfold GovState.governorOf
    rw [governors] at active
    rw [delegations]
    exact ok.self notExempt active

/-- Writing a governor: a new active one becomes exempt until it delegates to itself. -/
theorem setGovernor (ok : RegistryOK none g) {governor : Governor}
    (exempted : governor.isActive = true → g.governorOf governor.governorAddress
        ≠ some governor.governorAddress → exempt = some governor.governorAddress) :
    RegistryOK exempt (g.setGovernor governor) where
  governorKey := forall_set ok.governorKey rfl
  delegationKey := ok.delegationKey
  mirror := ok.mirror
  target := by
    intro delAddr delegation stored
    obtain ⟨old, present⟩ := ok.target stored
    by_cases here : delegation.governorAddress = governor.governorAddress
    · exact ⟨governor, by rw [here]; exact get?_set_self⟩
    · exact ⟨old, (get?_set_of_ne here).trans present⟩
  self := by
    intro addr notExempt active
    obtain ⟨found, present, isActive⟩ := isActiveGovernor_iff.mp active
    rcases get?_set_cases present with ⟨here, rfl⟩ | ⟨_, old⟩
    · by_contra wrong
      apply notExempt
      rw [here] at wrong ⊢
      exact (exempted isActive wrong).symm
    · apply ok.self (by simp)
      exact isActiveGovernor_iff.mpr ⟨found, old, isActive⟩

/-- A delegation of somebody who is not an active governor, or the self-delegation of
the exempt one. -/
theorem setDelegation (ok : RegistryOK exempt g) {delAddr govAddr : Address}
    (fresh : g.governanceDelegations.get? delAddr = none)
    (target : ∃ governor, g.governors.get? govAddr = some governor)
    (selfOrNone : isActiveGovernor g delAddr = true → govAddr = delAddr)
    (exempted : exempt = none ∨ exempt = some delAddr) (governors : g'.governors = g.governors)
    (delegations : g'.governanceDelegations
      = g.governanceDelegations.set delAddr ⟨delAddr, govAddr⟩)
    (byGovernor : g'.governanceDelegationsByGovernor
      = g.governanceDelegationsByGovernor.set ⟨govAddr, delAddr⟩ ⟨delAddr, govAddr⟩) :
    RegistryOK none g' where
  governorKey := by
    rw [governors]
    exact ok.governorKey
  delegationKey := by
    rw [delegations]
    exact forall_set ok.delegationKey (by rfl)
  mirror := by
    rw [delegations, byGovernor]
    intro gov del delegation
    by_cases here : del = delAddr
    · subst here
      rw [get?_set_self]
      constructor
      · intro present
        rcases get?_set_cases present with ⟨same, rfl⟩ | ⟨_, old⟩
        · cases same
          exact ⟨rfl, rfl⟩
        · rw [(ok.mirror.mp old).1] at fresh
          cases fresh
      · rintro ⟨same, isGov⟩
        cases same
        cases isGov
        exact get?_set_self
    · have apart : (⟨gov, del⟩ : Pair Address Address) ≠ ⟨govAddr, delAddr⟩ :=
        fun same => here (congrArg Pair.snd same)
      rw [get?_set_of_ne here, get?_set_of_ne apart]
      exact ok.mirror
  target := by
    rw [delegations, governors]
    exact forall_set ok.target target
  self := by
    intro addr _ active
    have activeBefore : isActiveGovernor g addr = true := by
      unfold isActiveGovernor at active ⊢
      rwa [governors] at active
    unfold GovState.governorOf
    rw [delegations]
    by_cases here : addr = delAddr
    · subst here
      rw [get?_set_self, selfOrNone activeBefore]
      rfl
    · rw [get?_set_of_ne here]
      apply ok.self _ activeBefore
      intro same
      rcases exempted with none | some
      · rw [none] at same
        cases same
      · rw [some] at same
        exact here (Option.some.inj same)

/-- Forgetting the delegation of somebody who is not an active governor, or of the
exempt one. -/
theorem deleteDelegation (ok : RegistryOK exempt g) {delAddr : Address}
    {delegation : GovernanceDelegation}
    (stored : g.governanceDelegations.get? delAddr = some delegation)
    (mayLeave : isActiveGovernor g delAddr = true → exempt = some delAddr)
    (governors : g'.governors = g.governors)
    (delegations : g'.governanceDelegations = g.governanceDelegations.delete delAddr)
    (byGovernor : g'.governanceDelegationsByGovernor
      = g.governanceDelegationsByGovernor.delete ⟨delegation.governorAddress, delAddr⟩) :
    RegistryOK exempt g' where
  governorKey := by
    rw [governors]
    exact ok.governorKey
  delegationKey := by
    rw [delegations]
    intro addr found present
    exact ok.delegationKey (get?_delete_some present).2
  mirror := by
    rw [delegations, byGovernor]
    intro gov del found
    by_cases here : del = delAddr
    · subst here
      rw [get?_delete_self]
      constructor
      · intro present
        obtain ⟨apart, old⟩ := get?_delete_some present
        obtain ⟨sameDelegation, isGov⟩ := ok.mirror.mp old
        rw [stored] at sameDelegation
        cases sameDelegation
        exact absurd (by rw [isGov]) apart
      · rintro ⟨impossible, _⟩
        cases impossible
    · have apart : (⟨gov, del⟩ : Pair Address Address) ≠ ⟨delegation.governorAddress, delAddr⟩ :=
        fun same => here (congrArg Pair.snd same)
      rw [get?_delete_of_ne here, get?_delete_of_ne apart]
      exact ok.mirror
  target := by
    rw [delegations, governors]
    intro addr found present
    exact ok.target (get?_delete_some present).2
  self := by
    intro addr notExempt active
    have activeBefore : isActiveGovernor g addr = true := by
      unfold isActiveGovernor at active ⊢
      rwa [governors] at active
    have apart : addr ≠ delAddr := by
      intro here
      subst here
      exact notExempt (mayLeave activeBefore).symm
    unfold GovState.governorOf
    rw [delegations, get?_delete_of_ne apart]
    exact ok.self notExempt activeBefore

theorem deleteGovernor (ok : RegistryOK none g) {govAddr : Address}
    (unused : ∀ {delAddr delegation}, g.governanceDelegations.get? delAddr = some delegation →
      delegation.governorAddress ≠ govAddr) :
    RegistryOK none { g with governors := g.governors.delete govAddr } where
  governorKey := fun present => ok.governorKey (get?_delete_some present).2
  delegationKey := ok.delegationKey
  mirror := ok.mirror
  target := by
    intro delAddr delegation stored
    obtain ⟨governor, present⟩ := ok.target stored
    exact ⟨governor, (get?_delete_of_ne (unused stored)).trans present⟩
  self := by
    intro addr notExempt active
    obtain ⟨governor, present, isActive⟩ := isActiveGovernor_iff.mp active
    have old := (get?_delete_some present).2
    exact ok.self notExempt (isActiveGovernor_iff.mpr ⟨governor, old, isActive⟩)

end RegistryOK

namespace ActiveIndexOK

variable {exempt : Option Address} {dels : Stakes} {g g' : GovState} {delAddr valAddr : Address}

theorem congr (ok : ActiveIndexOK exempt dels g) (governors : g'.governors = g.governors)
    (index : g'.activeGovernorsByDelegatedValidator = g.activeGovernorsByDelegatedValidator) :
    ActiveIndexOK exempt dels g' := by
  have active : isActiveGovernor g' = isActiveGovernor g := by
    funext addr
    unfold isActiveGovernor
    rw [governors]
  constructor
  · rw [index]
    exact ok.staked
  · rw [index, active]
    exact ok.active
  · rw [index, active]
    exact ok.listed

variable (ok : ActiveIndexOK none dels g)

include ok

/-- While an account's delegations change, its entries are left open. -/
theorem exempted {d : Delegation} :
    ActiveIndexOK (some delAddr) (dels.set ⟨delAddr, valAddr⟩ d) g where
  staked := by
    intro val gov present
    rw [get?_set]
    split_ifs
    · rfl
    · exact ok.staked present
  active := fun _ present => ok.active (by simp) present
  listed := by
    intro val gov notExempt active staked
    have apart : (⟨gov, val⟩ : Pair Address Address) ≠ ⟨delAddr, valAddr⟩ := by
      intro same
      exact notExempt (congrArg (fun key => some (Pair.fst key)) same)
    rw [get?_set_of_ne apart] at staked
    exact ok.listed (by simp) active staked

/-- The delegations of somebody who is not an active governor do not matter. -/
theorem set_inactive {d : Delegation} (inactive : isActiveGovernor g delAddr = false) :
    ActiveIndexOK none (dels.set ⟨delAddr, valAddr⟩ d) g where
  staked := ok.exempted.staked
  active := ok.active
  listed := by
    intro val gov _ active staked
    have apart : some gov ≠ some delAddr := by
      intro same
      rw [Option.some.inj same, inactive] at active
      cases active
    exact ok.exempted.listed apart active staked

theorem delete_inactive (inactive : isActiveGovernor g delAddr = false) :
    ActiveIndexOK none (dels.delete ⟨delAddr, valAddr⟩) g where
  staked := by
    intro val gov present
    have apart : (⟨gov, val⟩ : Pair Address Address) ≠ ⟨delAddr, valAddr⟩ := by
      intro same
      have active := ok.active (by simp) present
      rw [show gov = delAddr from congrArg Pair.fst same, inactive] at active
      cases active
    rw [get?_delete_of_ne apart]
    exact ok.staked present
  active := ok.active
  listed := by
    intro val gov notExempt active staked
    rw [get?_delete] at staked
    split_ifs at staked
    · cases staked
    · exact ok.listed notExempt active staked

theorem listEntry {d : Delegation} (isActive : isActiveGovernor g delAddr = true) :
    ActiveIndexOK none (dels.set ⟨delAddr, valAddr⟩ d) (g.setIndexEntry valAddr delAddr) where
  staked := by
    intro val gov present
    rw [get?_set]
    split_ifs with here
    · rfl
    · have apart : (⟨val, gov⟩ : Pair Address Address) ≠ ⟨valAddr, delAddr⟩ := by
        intro same
        cases same
        exact here rfl
      apply ok.staked
      rwa [show (g.setIndexEntry valAddr delAddr).activeGovernorsByDelegatedValidator.get?
        ⟨val, gov⟩ = _ from get?_set_of_ne apart] at present
  active := by
    intro val gov notExempt present
    by_cases here : (⟨val, gov⟩ : Pair Address Address) = ⟨valAddr, delAddr⟩
    · cases here
      exact isActive
    · apply ok.active notExempt
      rwa [show (g.setIndexEntry valAddr delAddr).activeGovernorsByDelegatedValidator.get?
        ⟨val, gov⟩ = _ from get?_set_of_ne here] at present
  listed := by
    intro val gov notExempt active staked
    show ((g.activeGovernorsByDelegatedValidator.set ⟨valAddr, delAddr⟩ ()).get? ⟨val, gov⟩).isSome
    rw [get?_set]
    split_ifs with here
    · rfl
    · apply ok.listed notExempt active
      have apart : (⟨gov, val⟩ : Pair Address Address) ≠ ⟨delAddr, valAddr⟩ := by
        intro same
        cases same
        exact here rfl
      rwa [get?_set_of_ne apart] at staked

/-- The entry of a delegation that goes away is removed. -/
theorem unlistEntry :
    ActiveIndexOK none (dels.delete ⟨delAddr, valAddr⟩) (g.removeIndexEntry valAddr delAddr) where
  staked := by
    intro val gov present
    obtain ⟨entry, stored⟩ := Option.isSome_iff_exists.mp present
    obtain ⟨apart, old⟩ := get?_delete_some stored
    have other : (⟨gov, val⟩ : Pair Address Address) ≠ ⟨delAddr, valAddr⟩ := by
      intro same
      cases same
      exact apart rfl
    rw [get?_delete_of_ne other]
    exact ok.staked (by rw [old]; rfl)
  active := by
    intro val gov notExempt present
    obtain ⟨entry, stored⟩ := Option.isSome_iff_exists.mp present
    exact ok.active notExempt (by rw [(get?_delete_some stored).2]; rfl)
  listed := by
    intro val gov notExempt active staked
    obtain ⟨d, stored⟩ := Option.isSome_iff_exists.mp staked
    obtain ⟨apart, old⟩ := get?_delete_some stored
    have other : (⟨val, gov⟩ : Pair Address Address) ≠ ⟨valAddr, delAddr⟩ := by
      intro same
      cases same
      exact apart rfl
    have listed := ok.listed notExempt active (show (dels.get? ⟨gov, val⟩).isSome by rw [old]; rfl)
    rwa [show (g.removeIndexEntry valAddr delAddr).activeGovernorsByDelegatedValidator.get?
      ⟨val, gov⟩ = _ from get?_delete_of_ne other]

end ActiveIndexOK

end AtomOneSdk.Gov
