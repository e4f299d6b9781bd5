import AtomOneSdk.Staking.Run

/-!
Contract: what holds in every run of the staking module, whatever the hooks do.

Owns: the empty start, and for every run from it the backing of the two pools, the
share accounting and the power index, the agreement of CometBFT's set with the
bonded set, and the resolution of every consensus key a validator has held.

Does **not** own: invariants of other modules; they instantiate `HookContract`.
-/

namespace AtomOneSdk.Staking

open Lib Lib.Action

/-! ## Where runs start -/

def Run.start {σ : Type} (params : Params) (blockHeight : Int) (blockTime : Time) (ext : σ) :
    Run σ :=
  ⟨⟨StakingState.empty params blockHeight blockTime, ext⟩, fun _ => 0, fun _ => []⟩

theorem settled_empty (consAddress : PubKey → Address) (tracked : Prop) (params : Params)
    (blockHeight : Int) (blockTime : Time) :
    Settled consAddress tracked (StakingState.empty params blockHeight blockTime) where
  shares := by constructor <;> intros <;> contradiction
  index := by constructor <;> intros <;> contradiction
  cons := by constructor <;> intros <;> contradiction
  unbondings := by constructor <;> intros <;> contradiction
  redelegations := by constructor <;> intros <;> contradiction
  pools := by
    intro _ isBonded
    cases isBonded <;> rfl
  last := by
    constructor
    · intro addr power found
      contradiction
    · intro addr v found
      contradiction
    · intro addr power found
      contradiction
    · rfl

theorem Run.ready_start {φ σ : Type} {K : Keepers φ σ} {P : Phases σ} {tracked : Prop}
    {params : Params} {blockHeight : Int} {blockTime : Time} {ext : σ}
    (idle : P.idle (StakingState.empty params blockHeight blockTime) ext) :
    (Run.start params blockHeight blockTime ext).Ready K P tracked params.bondDenom where
  settled := settled_empty _ _ _ _ _
  idle := idle
  bondDenom := fun _ => rfl
  rotations := by constructor <;> intros <;> contradiction
  tracks := by
    constructor
    · intro addr v found
      contradiction
    · intro key _
      rfl
  logged := by constructor <;> intros <;> contradiction

/-- Hooks and keepers that accept everything and keep no state. -/
def Keepers.accepting (consAddress : PubKey → Address) : Keepers Unit Unit where
  afterValidatorCreated := fun _ _ => pure ()
  beforeValidatorModified := fun _ _ => pure ()
  afterValidatorRemoved := fun _ _ _ => pure ()
  afterValidatorBonded := fun _ _ _ => pure ()
  afterValidatorBeginUnbonding := fun _ _ _ => pure ()
  beforeDelegationCreated := fun _ _ _ => pure ()
  beforeDelegationSharesModified := fun _ _ _ => pure ()
  beforeDelegationRemoved := fun _ _ _ => pure ()
  afterDelegationModified := fun _ _ _ => pure ()
  beforeValidatorSlashed := fun _ _ _ => pure ()
  afterUnbondingInitiated := fun _ _ => pure ()
  beforeConsensusPubKeyRotation := fun _ _ _ _ => pure ()
  afterConsensusPubKeyUpdate := fun _ _ _ _ => pure ()
  delegateCoins := fun _ _ _ => pure ()
  undelegateCoins := fun _ _ _ => pure ()
  sendRestriction := fun _ _ => pure ()
  fundCommunityPool := fun _ _ _ => pure ()
  consAddress := consAddress
  pubKeyTypes := none

def sampleParams : Params where
  unbondingTime := 1814400000000000
  maxValidators := 2
  maxEntries := 7
  bondDenom := [117]
  minCommissionRate := 0
  maxCommissionRate := Dec.one
  keyRotationFee := ⟨[117], 1000000⟩

/-- A validator is created with three tokens of power and joins the bonded set. -/
def sampleOps : List Op :=
  [ .createValidator
      { description := ⟨"node", "", "", "", ""⟩
        commission := ⟨0, Dec.one, Dec.one⟩
        minSelfDelegation := 1
        validatorAddress := [1]
        pubkey := ⟨.ed25519, [11]⟩
        value := ⟨[117], 3000000⟩ },
    .applyAndReturnValidatorSetUpdates ]

section Runs

variable {φ σ : Type} (K : Keepers φ σ) (params : Params) (blockHeight : Int) (blockTime : Time)
  (ext : σ)

/-- The state after a run from the empty state. -/
def Run.after (ops : List Op) : Run σ :=
  ops.foldl (Run.step K) (Run.start params blockHeight blockTime ext)

variable {K params blockHeight blockTime ext}

theorem Run.ready_after {tracked : Prop} {ops : List Op}
    (sameDenom : tracked → ∀ op ∈ ops, op.keepsBondDenom params.bondDenom) :
    (Run.after K params blockHeight blockTime ext ops).Ready K Phases.trivial tracked
      params.bondDenom := by
  have start : (Run.start params blockHeight blockTime ext).Ready K Phases.trivial tracked
      params.bondDenom := Run.ready_start trivial
  exact start.steps (HookContract.trivial K) sameDenom

/-! ## Pools -/

/-- The bonded pool holds the tokens of the bonded validators, the other pool those of the
others and what is unbonding. -/
def StakingState.PoolsBacked (s : StakingState) : Prop :=
  balanceOf s.bondedPool s.params.bondDenom
      = s.validators.sum (fun _ v => if v.status = .bonded then v.tokens else 0)
    ∧ balanceOf s.notBondedPool s.params.bondDenom
      = s.validators.sum (fun _ v => if v.status = .bonded then 0 else v.tokens)
        + s.unbondingDelegations.sum
            (fun _ ubd => (ubd.entries.map UnbondingDelegationEntry.balance).sum)

theorem Inv.poolsBacked {consAddress : PubKey → Address} {tracked : Prop} {s : StakingState}
    (settled : Settled consAddress tracked s) (tracks : tracked) : s.PoolsBacked := by
  have pools := settled.pools tracks
  constructor
  · have bonded := pools true
    simpa [poolBalance, heldTokens, Validator.isBonded] using bonded
  · have notBonded := pools false
    have flipped : heldTokens s.validators false
        = s.validators.sum (fun _ v => if v.status = .bonded then 0 else v.tokens) := by
      apply Store.sum_congr
      intro addr v _
      by_cases bonded : v.status = .bonded <;> simp [Validator.isBonded, bonded]
    rw [← flipped]
    simpa [poolBalance, unbondingBalance, entriesBalance] using notBonded

variable (K params blockHeight blockTime ext)

/-- The two pools hold exactly the tokens of the bonded validators, and those of the
others plus what is unbonding, in every state of a run; no operation lacks funds. -/
theorem pools_back_every_token (ops : List Op)
    (sameDenom : ∀ op ∈ ops, op.keepsBondDenom params.bondDenom) :
    let world := (Run.after K params blockHeight blockTime ext ops).world
    let s := world.staking
    balanceOf s.bondedPool s.params.bondDenom
        = s.validators.sum (fun _ v => if v.status = .bonded then v.tokens else 0)
      ∧ balanceOf s.notBondedPool s.params.bondDenom
        = s.validators.sum (fun _ v => if v.status = .bonded then 0 else v.tokens)
          + s.unbondingDelegations.sum
              (fun _ ubd => (ubd.entries.map UnbondingDelegationEntry.balance).sum)
      ∧ ∀ (op : Op) (stopped : World σ), op.keepsBondDenom params.bondDenom →
          op.exec K world ≠ .error (.error .insufficientFunds) stopped := by
  intro world s
  have ready : (Run.after K params blockHeight blockTime ext ops).Ready K Phases.trivial True
      params.bondDenom := Run.ready_after fun _ => sameDenom
  have backed : s.PoolsBacked := ready.settled.poolsBacked trivial
  refine ⟨backed.1, backed.2, ?_⟩
  intro op stopped keeps failed
  have post := Op.exec_spec (HookContract.trivial K) op (fun _ => keeps) ready
  exact post.of_error failed trivial

end Runs

/-- Creating a validator and bonding it puts its tokens into the bonded pool. -/
theorem pools_back_first_validator :
    let world := (Run.after (Keepers.accepting PubKey.bytes) sampleParams 1 0 () sampleOps).world
    balanceOf world.staking.bondedPool [117] = 3000000
      ∧ world.staking.validators.sum (fun _ v => if v.status = .bonded then v.tokens else 0)
          = 3000000 := by
  intro world
  have backed := pools_back_every_token (Keepers.accepting PubKey.bytes) sampleParams 1 0 ()
    sampleOps (by decide)
  have balance : balanceOf world.staking.bondedPool [117] = 3000000 := by decide +kernel
  have denom : world.staking.params.bondDenom = [117] := by decide +kernel
  refine ⟨balance, ?_⟩
  have bonded := backed.1
  rw [← balance, ← denom]
  exact bonded.symm

/-! ## Shares and powers -/

section Runs

variable {φ σ : Type} (K : Keepers φ σ)

/-- In every state of a run shares add up and are positive and the power index lists
exactly the validators that are not jailed; after an update of the validator set the
recorded powers are those of the bonded validators. -/
theorem shares_and_powers_consistent (params : Params) (blockHeight : Int) (blockTime : Time)
    (ext : σ) (ops : List Op) :
    let world := (Run.after K params blockHeight blockTime ext ops).world
    let s := world.staking
    (∀ addr v, s.validators.get? addr = some v →
        s.delegations.sum (fun key d => if key.snd = addr then d.shares else 0)
          = v.delegatorShares)
      ∧ (∀ key d, s.delegations.get? key = some d → 0 < d.shares)
      ∧ (∀ addr v, s.validators.get? addr = some v → ∀ key,
          s.validatorsByPowerIndex.get? key = some addr
            ↔ v.jailed = false ∧ key = powerIndexKey v)
      ∧ (∀ key addr, s.validatorsByPowerIndex.get? key = some addr →
          ∃ v, s.validators.get? addr = some v)
      ∧ (∀ (op : Op) (stopped : World σ),
          op.exec K world ≠ .error (.error .jailedInPowerStore) stopped)
      ∧ ∀ (updates : List ValidatorUpdate) (next : World σ),
          applyAndReturnValidatorSetUpdates K world = .ok updates next →
          (∀ addr power, next.staking.lastValidatorPower.get? addr = some power
              ↔ ∃ v, next.staking.validators.get? addr = some v ∧ v.status = .bonded
                  ∧ v.consensusPower = power)
            ∧ next.staking.lastTotalPower
                = next.staking.lastValidatorPower.sum (fun _ power => power) := by
  intro world s
  have ready : (Run.after K params blockHeight blockTime ext ops).Ready K Phases.trivial False
      params.bondDenom := Run.ready_after fun no => no.elim
  have settled := ready.settled
  refine ⟨?_, fun key d => settled.shares.positive, ?_, ?_, ?_, ?_⟩
  · intro addr v stored
    have total := settled.shares.total stored
    rw [add_zero] at total
    exact total
  · intro addr v stored key
    constructor
    · intro listed
      obtain ⟨w, found, _, free, keyed⟩ := settled.index.only listed
      have same : w = v := some_unique found stored
      rw [← same]
      exact ⟨free, keyed.symm⟩
    · rintro ⟨free, keyed⟩
      rw [keyed]
      exact settled.index.listed stored free
  · intro key addr listed
    obtain ⟨v, stored, _⟩ := settled.index.only listed
    exact ⟨v, stored⟩
  · intro op stopped failed
    have post := Op.exec_spec (HookContract.trivial K) op (fun no => no.elim) ready
    exact post.of_error failed
  · intro updates next applied
    have post := applyAndReturnValidatorSetUpdates_spec (HookContract.trivial K) settled ready.idle
      ready.rotations ready.tracks
    have updated := post.of_ok applied
    refine ⟨?_, updated.settled.last.total_eq⟩
    intro addr power
    constructor
    · intro recorded
      obtain ⟨v, stored, bonded, exact'⟩ := updated.powers recorded
      exact ⟨v, stored, bonded, exact'.symm⟩
    · rintro ⟨v, stored, bonded, isPower⟩
      obtain ⟨recordedPower, recorded⟩ := updated.settled.last.recorded stored bonded
      obtain ⟨w, found, _, exact'⟩ := updated.powers recorded
      have same : w = v := some_unique found stored
      rw [recorded, exact', same, isPower]

/-! ## CometBFT's set -/

/-- From any well-formed genesis, each list of updates is acceptable to CometBFT and
turns its set into exactly the bonded validators under their current keys and powers. -/
theorem updates_keep_comet_set {denom : Denom} (genesis : Run σ)
    (wellFormed : genesis.Ready K Phases.trivial False denom) (ops : List Op) :
    let run := ops.foldl (Run.step K) genesis
    ∀ (updates : List ValidatorUpdate) (next : World σ),
      applyAndReturnValidatorSetUpdates K run.world = .ok updates next →
      (updates.map ValidatorUpdate.pubKey).Nodup
        ∧ (∀ update ∈ updates, update.power = 0 → run.comet update.pubKey ≠ 0)
        ∧ (run.step K .applyAndReturnValidatorSetUpdates).comet = applyUpdates run.comet updates
        ∧ (∀ addr v, next.staking.validators.get? addr = some v → v.status = .bonded →
            applyUpdates run.comet updates v.consensusPubkey = v.consensusPower
              ∧ 0 < v.consensusPower)
        ∧ ∀ key, applyUpdates run.comet updates key ≠ 0 →
            ∃ addr v, next.staking.validators.get? addr = some v ∧ v.status = .bonded
              ∧ v.consensusPubkey = key := by
  intro run updates next applied
  have ready : run.Ready K Phases.trivial False denom :=
    wellFormed.steps (HookContract.trivial K) fun no => no.elim
  have post := applyAndReturnValidatorSetUpdates_spec (HookContract.trivial K) ready.settled
    ready.idle ready.rotations ready.tracks
  have updated := post.of_ok applied
  refine ⟨updated.acceptable.nodup, updated.acceptable.zero, ?_, ?_, ?_⟩
  · have ran : Op.exec K .applyAndReturnValidatorSetUpdates run.world = .ok () next := by
      show (applyAndReturnValidatorSetUpdates K >>= fun _ => pure ()) run.world = .ok () next
      simp only [bind, EStateM.bind, applied]
      rfl
    unfold Run.step
    rw [ran]
    show applyUpdates run.comet next.staking.validatorUpdates = _
    rw [updated.returned]
  · intro addr v stored bonded
    obtain ⟨power, recorded⟩ := updated.settled.last.recorded stored bonded
    obtain ⟨w, found, _, exact'⟩ := updated.powers recorded
    have same : w = v := some_unique found stored
    have positive := updated.settled.last.powerPos recorded
    rw [updated.tracks.stored stored, recorded, Option.getD_some, ← same, ← exact']
    exact ⟨rfl, positive⟩
  · intro key held
    by_contra nobody
    apply held
    by_cases present : ∃ addr v, next.staking.validators.get? addr = some v
        ∧ v.consensusPubkey = key
    · obtain ⟨addr, v, stored, rfl⟩ := present
      rw [updated.tracks.stored stored]
      cases recorded : next.staking.lastValidatorPower.get? addr with
      | none => rfl
      | some power =>
        obtain ⟨w, found, bonded⟩ := updated.settled.last.bonded recorded
        have same : w = v := some_unique found stored
        exact absurd ⟨addr, v, stored, same ▸ bonded, rfl⟩ nobody
    · apply updated.tracks.absent
      intro addr v stored isKey
      exact present ⟨addr, v, stored, isKey⟩

end Runs

/-- A genesis with one bonded validator, which then announces a new key. -/
def rotatingRun : Run Unit :=
  [Op.rotateConsPubKey ⟨[1], ⟨.ed25519, [12]⟩⟩].foldl (Run.step (Keepers.accepting PubKey.bytes))
    (Run.after (Keepers.accepting PubKey.bytes) sampleParams 1 0 () sampleOps)

/-- The old key leaves CometBFT's set and the new one enters with the same power. -/
theorem rotation_reaches_comet :
    ∃ next, applyAndReturnValidatorSetUpdates (Keepers.accepting PubKey.bytes) rotatingRun.world
        = .ok [⟨⟨.ed25519, [11]⟩, 0⟩, ⟨⟨.ed25519, [12]⟩, 3⟩] next
      ∧ rotatingRun.comet ⟨.ed25519, [11]⟩ ≠ 0 := by
  have returned : Action.value?
      (applyAndReturnValidatorSetUpdates (Keepers.accepting PubKey.bytes)) rotatingRun.world
        = some [⟨⟨.ed25519, [11]⟩, 0⟩, ⟨⟨.ed25519, [12]⟩, 3⟩] := by decide +kernel
  obtain ⟨next, applied⟩ := Action.ok_of_value? returned
  have wellFormed : (Run.after (Keepers.accepting PubKey.bytes) sampleParams 1 0 ()
      sampleOps).Ready (Keepers.accepting PubKey.bytes) Phases.trivial False
      sampleParams.bondDenom := Run.ready_after fun no => no.elim
  obtain ⟨_, present, _⟩ := updates_keep_comet_set _ _ wellFormed
    [Op.rotateConsPubKey ⟨[1], ⟨.ed25519, [12]⟩⟩] _ next applied
  exact ⟨next, applied, present ⟨⟨.ed25519, [11]⟩, 0⟩ List.mem_cons_self rfl⟩

section Runs

variable {φ σ : Type} (K : Keepers φ σ)

/-! ## Keys held so far -/

/-- Every key a stored validator has held leads to it, its identifier is its first key,
and nobody can register one of its keys while it is stored. -/
theorem held_keys_resolve (params : Params) (blockHeight : Int) (blockTime : Time) (ext : σ)
    (ops : List Op) :
    let run := Run.after K params blockHeight blockTime ext ops
    let s := run.world.staking
    (∀ operator v, s.validators.get? operator = some v →
        (run.keys operator).getLast? = some v.consensusPubkey
          ∧ (∀ key ∈ run.keys operator, getValidatorByConsAddr s (K.consAddress key) = some v)
          ∧ (∀ first later, run.keys operator = first :: later → later ≠ [] →
              validatorIdentifier s (K.consAddress v.consensusPubkey)
                = some (K.consAddress first))
          ∧ (∀ key ∈ run.keys operator, ∀ (msg : MsgCreateValidator) (next : World σ),
              msg.pubkey = key → createValidator K msg run.world ≠ .ok () next)
          ∧ ∀ key ∈ run.keys operator, ∀ (msg : MsgRotateConsPubKey) (next : World σ),
              msg.newPubkey = key → rotateConsPubKey K msg run.world ≠ .ok () next)
      ∧ ∀ consAddr, walkConsAddr s (consAddrBudget s) [] consAddr ≠ none := by
  intro run s
  have ready : run.Ready K Phases.trivial False params.bondDenom :=
    Run.ready_after fun no => no.elim
  refine ⟨?_, consAddrLookup_ends s⟩
  intro operator v stored
  have current : (keyView s).keys operator = some v.consensusPubkey := by simp [keyView, stored]
  obtain ⟨chain, last⟩ := ready.logged.chain current
  have resolves : ∀ key ∈ run.keys operator,
      getValidatorByConsAddr s (K.consAddress key) = some v :=
    fun key member => ready.logged.resolves stored member
  refine ⟨last, resolves, ?_, ?_, ?_⟩
  · intro first later keys several
    apply chain.later (by rw [keys]; rfl)
    rw [keys] at last ⊢
    rw [List.tail_cons]
    obtain ⟨second, rest, rfl⟩ := List.exists_cons_of_ne_nil several
    rw [List.getLast?_cons_cons] at last
    exact List.mem_of_getLast? last
  · intro key member msg next isKey accepted
    have post := @createValidator_spec _ _ K _ _ _ _ _ _ _ (HookContract.trivial K) ready msg
    obtain ⟨_, _, free, _⟩ := post.of_ok accepted
    have unresolved := free.unresolved
    rw [isKey, resolves key member] at unresolved
    cases unresolved
  · intro key member msg next isKey accepted
    have post := @rotateConsPubKey_spec _ _ K _ _ _ _ _ _ _ (HookContract.trivial K) ready msg
    obtain ⟨_, free, _⟩ := post.of_ok accepted
    have unresolved := free.unresolved
    rw [isKey, resolves key member] at unresolved
    cases unresolved

end Runs

end AtomOneSdk.Staking
