import AtomOneSdk.Gov.MessagesSpec
import AtomOneSdk.Staking.Properties

/-!
Contract: what holds of governors in every run of staking and gov.

Owns: runs of staking operations and governor messages from the empty state, with
arbitrary modules registered before and after gov; the exact shares tracked for each
governor, the consistency of the governor collections, and that gov never panics.

Does **not** own: tallies.
-/

namespace AtomOneSdk.Gov

open Lib Lib.Action
open Staking (Address Time StakingState Delegation PubKey KeyType Keepers World Reason
  Denom CometSet Params Phases HookContract FaultOfModule FaultOK)

section System

variable {φ ρ : Type} (before after : Keepers φ ρ) (consAddress : PubKey → Address)
  (pubKeyTypes : Option (List KeyType))

/-- The gov invariant does not notice when other modules fail. -/
theorem systemContract :
    HookContract (systemKeepers before after consAddress pubKeyTypes) govPhases.ofModule
      (FaultOfModule NoPanic) := by
  apply HookContract.between govContract
  · exact fun _ _ changed idle => govPhases_idle_congr changed.delegations idle
  · exact fun _ idle => idle
  · exact fun _ _ changed idle => govPhases_idle_congr changed.delegations idle

/-- A state between two operations: staking is settled and gov consistent, whatever
CometBFT has been told and whichever keys were held. -/
def Ready (world : World (ρ × GovState)) : Prop :=
  ∃ (denom : Denom) (set : CometSet) (log : Address → List PubKey),
    Staking.Ready (systemKeepers before after consAddress pubKeyTypes) govPhases.ofModule False
      denom set log world

variable {before after consAddress pubKeyTypes}

/-- A message touches gov's part of the world only. -/
theorem message_spec {world : World (ρ × GovState)}
    (ready : Ready before after consAddress pubKeyTypes world) (op : Op) :
    Post (Staking.external fun s => Staking.onModule (op.handle s) :
        Staking.StakingM (φ ⊕ GovReason) (ρ × GovState) Unit) world
      (fun _ => Ready before after consAddress pubKeyTypes)
      (fun fault _ => FaultOK False (FaultOfModule NoPanic) fault) := by
  obtain ⟨denom, set, log, inner⟩ := ready
  rw [Staking.post_external, Staking.onModule, post_zoom]
  apply Post.mono (op.handle_spec inner.settled.shares inner.idle)
  · intro _ g' idle
    exact ⟨denom, set, log,
      { settled := inner.settled, idle := idle, bondDenom := inner.bondDenom,
        rotations := inner.rotations, tracks := inner.tracks, logged := inner.logged }⟩
  · intro fault _ fine
    exact Staking.faultIn_hook (Staking.faultOfModule_inr fine)

/-- Every operation leads from a ready state to a ready state, and gov does not panic. -/
theorem Op.exec_spec {world : World (ρ × GovState)}
    (ready : Ready before after consAddress pubKeyTypes world) (op : Op) :
    Post (op.exec before after consAddress pubKeyTypes) world
      (fun _ => Ready before after consAddress pubKeyTypes)
      (fun fault _ => FaultOK False (FaultOfModule NoPanic) fault) := by
  cases op with
  | staking op =>
    obtain ⟨denom, set, log, inner⟩ := ready
    apply (Staking.Op.exec_spec (systemContract before after consAddress pubKeyTypes) op
      (fun impossible => impossible.elim) inner).imp
    exact fun _ next held => ⟨denom, _, _, held⟩
  | createGovernor msg => exact message_spec ready (.createGovernor msg)
  | editGovernor msg => exact message_spec ready (.editGovernor msg)
  | updateGovernorStatus msg => exact message_spec ready (.updateGovernorStatus msg)
  | delegateGovernor msg => exact message_spec ready (.delegateGovernor msg)
  | undelegateGovernor msg => exact message_spec ready (.undelegateGovernor msg)

variable (before after consAddress pubKeyTypes) (params : Params) (blockHeight : Int)
  (blockTime : Time) (others : ρ) (govParams : GovParams)

/-- The world after a run from a state without validators and governors; an operation
that fails changes nothing. -/
def worldAfter (ops : List Op) : World (ρ × GovState) :=
  runAll (Op.exec before after consAddress pubKeyTypes) ops
    ⟨StakingState.empty params blockHeight blockTime, (others, GovState.empty govParams)⟩

theorem govOK_empty : GovOK ∅ ∅ (GovState.empty govParams) where
  registry := by
    constructor
    · intro addr governor present
      contradiction
    · intro delAddr delegation present
      contradiction
    · intro govAddr delAddr delegation
      constructor
      · intro present
        contradiction
      · rintro ⟨present, _⟩
        contradiction
    · intro delAddr delegation present
      contradiction
    · intro addr _ active
      contradiction
  index := by
    constructor
    · intro valAddr govAddr present
      contradiction
    · intro valAddr govAddr _ present
      contradiction
    · intro valAddr govAddr _ active
      contradiction
  shares := by
    constructor
    · intro key record present
      contradiction
    · intro govAddr valAddr record present
      contradiction
    · exact fun _ => rfl

theorem ready_worldAfter (ops : List Op) :
    Ready before after consAddress pubKeyTypes
      (worldAfter before after consAddress pubKeyTypes params blockHeight blockTime others
        govParams ops) := by
  apply runAll_invariant
  · intro op world ready
    exact (Op.exec_spec ready op).mono (fun _ _ held => held) fun _ _ _ => trivial
  · have start := @Staking.Run.ready_start _ _
      (systemKeepers before after consAddress pubKeyTypes) govPhases.ofModule False params
      blockHeight blockTime (others, GovState.empty govParams) (govOK_empty govParams)
    exact ⟨_, _, _, start⟩

/-- Gov does not panic in any operation after any run. -/
theorem no_gov_panic (ops : List Op) (op : Op) (reason : GovReason)
    (stopped : World (ρ × GovState)) :
    op.exec before after consAddress pubKeyTypes
        (worldAfter before after consAddress pubKeyTypes params blockHeight blockTime others
          govParams ops)
      ≠ .error (.panic (.hook (.inr reason))) stopped := by
  intro failed
  exact (Op.exec_spec (ready_worldAfter ..) op).of_error failed

/-! ## Shares of governors -/

/-- Between operations the shares stored for a governor and a validator are exactly
those its followers hold there, and nothing is stored for zero. -/
theorem governor_shares_are_followers_shares (ops : List Op) :
    let world := worldAfter before after consAddress pubKeyTypes params blockHeight blockTime others
      govParams ops
    let s := world.staking
    let g := world.ext.2
    (∀ govAddr valAddr,
      let total := s.delegations.sum fun key d =>
        if key.snd = valAddr ∧ g.governorOf key.fst = some govAddr then d.shares else 0
      g.validatorSharesByGovernor.get? ⟨govAddr, valAddr⟩
        = if total = 0 then none else some ⟨govAddr, valAddr, total⟩)
      ∧ ∀ (op : Op) (reason : GovReason) (stopped : World (ρ × GovState)),
          op.exec before after consAddress pubKeyTypes world
            ≠ .error (.panic (.hook (.inr reason))) stopped := by
  intro world s g
  obtain ⟨_, _, _, ready⟩ : Ready before after consAddress pubKeyTypes world := ready_worldAfter ..
  have tracked : Tracked (governorShares s.delegations g.governorOf) g.validatorSharesByGovernor :=
    ready.idle.shares
  constructor
  · intro govAddr valAddr total
    have expected : total = governorShares s.delegations g.governorOf govAddr valAddr := rfl
    cases stored : g.validatorSharesByGovernor.get? ⟨govAddr, valAddr⟩ with
    | none => rw [expected, if_pos (tracked.absent stored)]
    | some record =>
      obtain ⟨shares, nonzero⟩ := tracked.exact stored
      obtain ⟨governor, validator⟩ := tracked.filed stored
      rw [shares, ← expected] at nonzero
      rw [if_neg nonzero, expected, ← shares]
      cases record
      cases governor
      cases validator
      rfl
  · exact no_gov_panic _ _ _ _ _ _ _ _ _ ops

/-! ## Governors and their delegations -/

/-- Between operations the two collections of governance delegations mirror each other,
every delegation has its governor, every active governor is delegated to itself, and
the index lists exactly the active governors under the validators they delegate to. -/
theorem governor_registry_consistent (ops : List Op) :
    let world := worldAfter before after consAddress pubKeyTypes params blockHeight blockTime others
      govParams ops
    let s := world.staking
    let g := world.ext.2
    (∀ govAddr delAddr delegation,
      g.governanceDelegationsByGovernor.get? ⟨govAddr, delAddr⟩ = some delegation
        ↔ g.governanceDelegations.get? delAddr = some delegation
          ∧ delegation.governorAddress = govAddr)
      ∧ (∀ delAddr delegation, g.governanceDelegations.get? delAddr = some delegation →
          delegation.delegatorAddress = delAddr
            ∧ (g.governors.get? delegation.governorAddress).isSome)
      ∧ (∀ addr governor, g.governors.get? addr = some governor → governor.status = .active →
          g.governanceDelegations.get? addr = some ⟨addr, addr⟩)
      ∧ (∀ valAddr govAddr,
          (g.activeGovernorsByDelegatedValidator.get? ⟨valAddr, govAddr⟩).isSome
            ↔ isActiveGovernor g govAddr = true
              ∧ (s.delegations.get? ⟨govAddr, valAddr⟩).isSome)
      ∧ ∀ (op : Op) (reason : GovReason) (stopped : World (ρ × GovState)),
          op.exec before after consAddress pubKeyTypes world
            ≠ .error (.panic (.hook (.inr reason))) stopped := by
  intro world s g
  obtain ⟨_, _, _, ready⟩ : Ready before after consAddress pubKeyTypes world := ready_worldAfter ..
  have held : GovSettled s g := ready.idle
  refine ⟨?_, ?_, ?_, ?_, ?_⟩
  · exact fun _ _ _ => held.registry.mirror
  · intro delAddr delegation stored
    obtain ⟨governor, present⟩ := held.registry.target stored
    exact ⟨held.registry.delegationKey stored, by rw [present]; rfl⟩
  · intro addr governor present status
    have active : isActiveGovernor g addr = true :=
      isActiveGovernor_iff.mpr ⟨governor, present, by simp [Governor.isActive, status]⟩
    obtain ⟨delegation, stored, isGov⟩ :=
      Option.map_eq_some_iff.mp (held.registry.self (by simp) active)
    rw [stored, held.registry.delegation_eq stored, isGov]
  · intro valAddr govAddr
    constructor
    · intro listed
      exact ⟨held.index.active (by simp) listed, held.index.staked listed⟩
    · rintro ⟨active, staked⟩
      exact held.index.listed (by simp) active staked
  · exact no_gov_panic _ _ _ _ _ _ _ _ _ ops

end System

end AtomOneSdk.Gov
