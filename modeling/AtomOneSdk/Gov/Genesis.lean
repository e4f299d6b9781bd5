import AtomOneSdk.Gov.KeeperSpec

/-!
Contract: the governor part of `InitGenesis` and `ExportGenesis`, and what replaying the
delegations of an export rebuilds.

Owns: the exported governors and governance delegations, the two import loops, and the
invariant under which they rebuild the collections that are not exported.

Does **not** own: proposals, deposits, votes and the other exported collections; neither
loop reads them.
-/

namespace AtomOneSdk.Gov

open Lib Lib.Action
open Staking (Address StakingState Delegation Validator)

/-! ## Export and import -/

/-- The governor part of `v1.GenesisState`. -/
structure GovGenesis where
  params : GovParams
  governors : List Governor
  governanceDelegations : List GovernanceDelegation
deriving DecidableEq, Repr

/-- The delegations filed under a governor, in key order. -/
def delegationsToGovernor (g : GovState) (govAddr : Address) : List GovernanceDelegation :=
  (g.governanceDelegationsByGovernor.entries.filter fun entry => entry.1.fst = govAddr).map
    Prod.snd

def exportGenesis (g : GovState) : GovGenesis where
  params := g.params
  governors := g.governors.values
  governanceDelegations :=
    g.governors.values.flatMap fun governor => delegationsToGovernor g governor.governorAddress

/-- One round of the loop over governors; the accumulator is `activeGovernors`. Neither
keeper function it calls returns an error, so nothing is turned into a panic here. -/
def initGovernor (s : StakingState) (hasAccount : Address → Bool) (minSelfDelegation : Int)
    (activeGovernors : List Address) (governor : Governor) : GovM (List Address) := do
  let govAddr := governor.governorAddress
  crashIf (¬ hasAccount govAddr) (.message "account does not exist")
  modify (·.setGovernor governor)
  (if governor.isActive then do
    let bondedTokens ← getGovernorBondedTokens s govAddr
    crashIf (bondedTokens < minSelfDelegation) .insufficientGovernorDelegation
    delegateToGovernor s govAddr govAddr
    pure (govAddr :: activeGovernors)
  else pure activeGovernors)

/-- One round of the loop over governance delegations. -/
def initGovernanceDelegation (s : StakingState) (hasAccount : Address → Bool)
    (activeGovernors : List Address) (delegation : GovernanceDelegation) : GovM Unit :=
  let delAddr := delegation.delegatorAddress
  let govAddr := delegation.governorAddress
  -- already handled in the first loop
  whenever (¬ (delAddr = govAddr ∧ govAddr ∈ activeGovernors)) do
    crashIf (¬ hasAccount delAddr) (.message "account does not exist")
    let g ← get
    crashIf (g.governors.get? govAddr = none) (.message "error getting governor")
    crashIf (delAddr ∈ activeGovernors ∧ delAddr ≠ govAddr)
      (.message "account is an active governor and cannot delegate")
    delegateToGovernor s delAddr govAddr

/-- `hasAccount` is `GetAccount` of the account keeper. -/
def initGenesis (s : StakingState) (hasAccount : Address → Bool) (data : GovGenesis) :
    GovM Unit := do
  modify (fun g => { g with params := data.params })
  let activeGovernors ←
    foldOver (initGovernor s hasAccount data.params.minGovernorSelfDelegation) data.governors []
  forEach (initGovernanceDelegation s hasAccount activeGovernors) data.governanceDelegations

/-! ## What an export holds -/

section Export

variable {g : GovState}

variable (registry : RegistryOK none g)

include registry

theorem mem_values_governors {governor : Governor} :
    governor ∈ g.governors.values
      ↔ g.governors.get? governor.governorAddress = some governor := by
  unfold Store.values
  constructor
  · intro member
    obtain ⟨⟨addr, found⟩, entry, rfl⟩ := List.mem_map.mp member
    have stored := Store.mem_entries.mp entry
    rw [registry.governorKey stored]
    exact stored
  · intro stored
    exact List.mem_map.mpr ⟨(_, governor), Store.mem_entries.mpr stored, rfl⟩

theorem mem_delegationsToGovernor {govAddr : Address} {delegation : GovernanceDelegation} :
    delegation ∈ delegationsToGovernor g govAddr
      ↔ g.governanceDelegations.get? delegation.delegatorAddress = some delegation
        ∧ delegation.governorAddress = govAddr := by
  unfold delegationsToGovernor
  constructor
  · intro member
    obtain ⟨⟨⟨gov, del⟩, found⟩, inEntries, rfl⟩ := List.mem_map.mp member
    obtain ⟨entry, here⟩ := List.mem_filter.mp inEntries
    obtain ⟨stored, filed⟩ := registry.mirror.mp (Store.mem_entries.mp entry)
    have isGov : gov = govAddr := by simpa using here
    show g.governanceDelegations.get? found.delegatorAddress = some found ∧ _
    rw [registry.delegationKey stored]
    exact ⟨stored, filed.trans isGov⟩
  · rintro ⟨stored, filed⟩
    have mirrored := registry.mirror.mpr ⟨stored, filed⟩
    apply List.mem_map.mpr
    refine ⟨(⟨govAddr, delegation.delegatorAddress⟩, delegation), ?_, rfl⟩
    exact List.mem_filter.mpr ⟨Store.mem_entries.mpr mirrored, by simp⟩

/-- Every governance delegation is exported: its governor is registered. -/
theorem mem_exportGenesis {delegation : GovernanceDelegation} :
    delegation ∈ (exportGenesis g).governanceDelegations
      ↔ g.governanceDelegations.get? delegation.delegatorAddress = some delegation := by
  unfold exportGenesis
  constructor
  · intro member
    obtain ⟨governor, _, inGroup⟩ := List.mem_flatMap.mp member
    exact ((mem_delegationsToGovernor registry).mp inGroup).1
  · intro stored
    obtain ⟨governor, registered⟩ := registry.target stored
    have key := registry.governorKey registered
    apply List.mem_flatMap.mpr
    refine ⟨governor, (mem_values_governors registry).mpr (by rw [key]; exact registered), ?_⟩
    exact (mem_delegationsToGovernor registry).mpr ⟨stored, key.symm⟩

theorem governors_distinct :
    (g.governors.values.map Governor.governorAddress).Nodup := by
  have sameKeys : g.governors.values.map Governor.governorAddress = g.governors.keys := by
    unfold Store.values Store.keys
    rw [List.map_map]
    apply List.map_congr_left
    rintro ⟨addr, governor⟩ entry
    exact registry.governorKey (Store.mem_entries.mp entry)
  rw [sameKeys]
  exact g.governors.keys_nodup

theorem delegationsToGovernor_distinct (govAddr : Address) :
    ((delegationsToGovernor g govAddr).map GovernanceDelegation.delegatorAddress).Nodup := by
  unfold delegationsToGovernor
  rw [List.map_map]
  apply List.pairwise_map.mpr
  apply (g.governanceDelegationsByGovernor.entries_nodup.filter _).imp_of_mem
  rintro ⟨⟨gov, del⟩, first⟩ ⟨⟨gov', del'⟩, second⟩ inFirst inSecond apart same
  -- two entries of one governor with one delegator are one entry
  obtain ⟨entry, here⟩ := List.mem_filter.mp inFirst
  obtain ⟨entry', here'⟩ := List.mem_filter.mp inSecond
  have stored := (registry.mirror.mp (Store.mem_entries.mp entry)).1
  have stored' := (registry.mirror.mp (Store.mem_entries.mp entry')).1
  have sameDel : first.delegatorAddress = second.delegatorAddress := same
  rw [registry.delegationKey stored, registry.delegationKey stored'] at sameDel
  have isGov : gov = govAddr := by simpa using here
  have isGov' : gov' = govAddr := by simpa using here'
  subst sameDel
  rw [stored] at stored'
  apply apart
  rw [isGov, isGov', Option.some.inj stored']

theorem exported_delegators_distinct :
    ((exportGenesis g).governanceDelegations.map GovernanceDelegation.delegatorAddress).Nodup := by
  have spread : (exportGenesis g).governanceDelegations.map GovernanceDelegation.delegatorAddress
      = g.governors.values.flatMap fun governor =>
          (delegationsToGovernor g governor.governorAddress).map
            GovernanceDelegation.delegatorAddress := List.map_flatMap
  rw [spread]
  apply List.nodup_flatMap.mpr
  constructor
  · intro governor _
    exact delegationsToGovernor_distinct registry _
  · apply (List.pairwise_map.mp (governors_distinct registry)).imp
    intro first second apart delAddr inFirst inSecond
    -- one delegator does not follow two governors
    obtain ⟨delegation, inGroup, isDel⟩ := List.mem_map.mp inFirst
    obtain ⟨delegation', inGroup', isDel'⟩ := List.mem_map.mp inSecond
    obtain ⟨stored, filed⟩ := (mem_delegationsToGovernor registry).mp inGroup
    obtain ⟨stored', filed'⟩ := (mem_delegationsToGovernor registry).mp inGroup'
    rw [isDel] at stored
    rw [isDel', stored] at stored'
    rw [← Option.some.inj stored', filed] at filed'
    exact apart filed'

end Export

end AtomOneSdk.Gov
