import AtomOneSdk.Staking.Accounting
import AtomOneSdk.Staking.ConsKeys
import AtomOneSdk.Staking.Pools
import AtomOneSdk.Staking.PowerIndex

/-!
Contract: what the staking keeper guarantees and what it asks of other modules.

Owns: the staking invariant `Inv` as the conjunction of its parts, the stakes
another module can depend on and how one step changes them, the phases of an
external invariant during a delegation change, and the `HookContract`: one
obligation for each hook and each call of another module. A module that meets it
has its invariant kept by every staking operation.

Does **not** own: the proof that the keeper functions keep `Inv`, nor any module
that meets the contract.
-/

namespace AtomOneSdk.Staking

open Lib Lib.Action

/-! ## Stakes -/

/-- Tokens and shares of the validator at an address. -/
def stakeAt (s : StakingState) (addr : Address) : Option (Int × Int) :=
  (s.validators.get? addr).map fun v => (v.tokens, v.delegatorShares)

/-- A step that changes at most the stake of one validator and the delegations. -/
structure Changed (s s' : StakingState) (addr : Address) (stake : Option (Int × Int))
    (dels : Store (Pair Address Address) Delegation) : Prop where
  stakes : stakeAt s' = Function.update (stakeAt s) addr stake
  delegations : s'.delegations = dels
  height : s'.blockHeight = s.blockHeight
  notes : s'.notes = s.notes

/-- A step that changes the delegations but no validator's stake. -/
structure DelegationsChanged (s s' : StakingState)
    (dels : Store (Pair Address Address) Delegation) : Prop where
  stakes : stakeAt s' = stakeAt s
  delegations : s'.delegations = dels
  height : s'.blockHeight = s.blockHeight
  notes : s'.notes = s.notes

/-- A step that changes no stake. -/
structure SameStake (s s' : StakingState) : Prop where
  stakes : stakeAt s' = stakeAt s
  delegations : s'.delegations = s.delegations
  height : s'.blockHeight = s.blockHeight
  notes : s'.notes = s.notes

theorem SameStake.refl (s : StakingState) : SameStake s s := ⟨rfl, rfl, rfl, rfl⟩

theorem stakeAt_set {s : StakingState} {vals : Store Address Validator} {addr : Address}
    {v : Validator} (written : vals = s.validators.set addr v) (other : Address) :
    (vals.get? other).map (fun w => (w.tokens, w.delegatorShares))
      = Function.update (stakeAt s) addr (some (v.tokens, v.delegatorShares)) other := by
  rw [written, Store.get?_set]
  by_cases here : other = addr
  · simp [here]
  · simp [here, stakeAt]

/-! ## Obligations of other modules -/

/-- An external invariant, by phase: between operations, while a delegation is
announced as changing, and after the hooks of an unbonding while the validator's
totals still have to be reduced by the given shares. -/
structure Phases (σ : Type) where
  idle : StakingState → σ → Prop
  opened : Address → Address → StakingState → σ → Prop
  reducing : Address → Int → StakingState → σ → Prop

section Obligations

variable {φ σ : Type}

/-- Outcome of a call whose error the keeper passes on. -/
def Keeps (allowed : Fault φ → Prop) (call : Action φ σ Unit) (before : σ) (after : σ → Prop) :
    Prop :=
  Post call before (fun _ next => after next) fun fault _ => allowed fault

/-- Outcome of a call whose error the keeper logs and drops: its writes stay. -/
def KeepsEvenOnError (allowed : Fault φ → Prop) (call : Action φ σ Unit) (before : σ)
    (after : σ → Prop) : Prop :=
  Post call before (fun _ next => after next) fun fault next => allowed fault ∧ after next

/-- What the hooks and the other keepers have to do so that an external invariant
survives every staking operation. Each obligation may use the share accounting of
the state the call sees. -/
structure HookContract (K : Keepers φ σ) (P : Phases σ) (allowed : Fault φ → Prop) : Prop where
  idle_stable : ∀ {s s' e}, SameStake s s' → P.idle s e → P.idle s' e
  opened_stable : ∀ {delAddr valAddr s s' e}, SameStake s s' → P.opened delAddr valAddr s e →
    P.opened delAddr valAddr s' e
  advance : ∀ {s s' e}, SharesOK (fun _ => 0) s.validators s.delegations →
    stakeAt s' = stakeAt s → s'.delegations = s.delegations → s.blockHeight < s'.blockHeight →
    s'.notes = s.notes → P.idle s e → P.idle s' e
  created : ∀ {s s' valAddr e}, SharesOK (fun _ => 0) s.validators s.delegations →
    SharesOK (fun _ => 0) s'.validators s'.delegations →
    stakeAt s valAddr = none → Changed s s' valAddr (some (0, 0)) s.delegations → P.idle s e →
    Keeps allowed (K.afterValidatorCreated s' valAddr) e (P.idle s')
  removed : ∀ {s s' consAddr valAddr e}, SharesOK (fun _ => 0) s.validators s.delegations →
    SharesOK (fun _ => 0) s'.validators s'.delegations →
    stakeAt s valAddr = some (0, 0) → Changed s s' valAddr none s.delegations → P.idle s e →
    Post (K.afterValidatorRemoved s' consAddr valAddr) e (fun _ next => P.idle s' next)
      fun fault next => allowed fault ∧ P.idle (s'.note (.removalHookFailed valAddr)) next
  bonded : ∀ {s consAddr valAddr e}, SharesOK (fun _ => 0) s.validators s.delegations →
    P.idle s e → Keeps allowed (K.afterValidatorBonded s consAddr valAddr) e (P.idle s)
  beginUnbonding : ∀ {s consAddr valAddr e}, SharesOK (fun _ => 0) s.validators s.delegations →
    P.idle s e → Keeps allowed (K.afterValidatorBeginUnbonding s consAddr valAddr) e (P.idle s)
  modified : ∀ {s valAddr e}, SharesOK (fun _ => 0) s.validators s.delegations →
    P.idle s e → KeepsEvenOnError allowed (K.beforeValidatorModified s valAddr) e (P.idle s)
  unbondingInitiated : ∀ {s id e}, SharesOK (fun _ => 0) s.validators s.delegations →
    P.idle s e → KeepsEvenOnError allowed (K.afterUnbondingInitiated s id) e (P.idle s)
  keyRotation : ∀ {s valAddr oldKey newKey e},
    SharesOK (fun _ => 0) s.validators s.delegations → P.idle s e →
    Keeps allowed (K.beforeConsensusPubKeyRotation s valAddr oldKey newKey) e (P.idle s)
  keyUpdate : ∀ {s oldKey newKey fee e}, SharesOK (fun _ => 0) s.validators s.delegations →
    P.idle s e → Keeps allowed (K.afterConsensusPubKeyUpdate s oldKey newKey fee) e (P.idle s)
  sharesModified : ∀ {s delAddr valAddr d e}, SharesOK (fun _ => 0) s.validators s.delegations →
    s.delegations.get? ⟨delAddr, valAddr⟩ = some d → P.idle s e →
    Keeps allowed (K.beforeDelegationSharesModified s delAddr valAddr) e
      (P.opened delAddr valAddr s)
  delegationCreated : ∀ {s delAddr valAddr stake e},
    SharesOK (fun _ => 0) s.validators s.delegations → stakeAt s valAddr = some stake →
    s.delegations.get? ⟨delAddr, valAddr⟩ = none → P.idle s e →
    Keeps allowed (K.beforeDelegationCreated s delAddr valAddr) e (P.opened delAddr valAddr s)
  /-- A deposit: the validator and the delegation have grown. -/
  grown : ∀ {s s' delAddr valAddr e} {v : Validator} {amount issued : Int},
    SharesOK (fun _ => 0) s.validators s.delegations →
    SharesOK (fun _ => 0) s'.validators s'.delegations →
    s.validators.get? valAddr = some v → 0 < amount → v.issuedShares amount = some issued →
    0 < issued →
    Changed s s' valAddr (some (v.tokens + amount, v.delegatorShares + issued))
      (s.delegations.set ⟨delAddr, valAddr⟩
        ⟨delAddr, valAddr,
          ((s.delegations.get? ⟨delAddr, valAddr⟩).map Delegation.shares).getD 0 + issued⟩) →
    P.opened delAddr valAddr s e →
    Keeps allowed (K.afterDelegationModified s' delAddr valAddr) e (P.idle s')
  /-- A partial unbonding: the delegation is reduced, the validator is not yet. -/
  shrunk : ∀ {s s' delAddr valAddr e} {d : Delegation} {shares : Int},
    SharesOK (fun _ => 0) s.validators s.delegations →
    SharesOK (shift (fun _ => 0) valAddr shares) s'.validators s'.delegations →
    s.delegations.get? ⟨delAddr, valAddr⟩ = some d → 0 < shares → shares < d.shares →
    DelegationsChanged s s'
      (s.delegations.set ⟨delAddr, valAddr⟩ ⟨delAddr, valAddr, d.shares - shares⟩) →
    P.opened delAddr valAddr s e →
    Keeps allowed (K.afterDelegationModified s' delAddr valAddr) e (P.reducing valAddr shares s')
  /-- A full unbonding: the hook runs before the delegation is deleted. -/
  delegationRemoved : ∀ {s delAddr valAddr e} {d : Delegation},
    SharesOK (fun _ => 0) s.validators s.delegations →
    s.delegations.get? ⟨delAddr, valAddr⟩ = some d → P.opened delAddr valAddr s e →
    Keeps allowed (K.beforeDelegationRemoved s delAddr valAddr) e fun next =>
      ∀ s', DelegationsChanged s s' (s.delegations.delete ⟨delAddr, valAddr⟩) →
        P.reducing valAddr d.shares s' next
  /-- The end of an unbonding: shares and their tokens leave the validator. -/
  reduced : ∀ {s s' valAddr e} {v : Validator} {shares : Int},
    SharesOK (shift (fun _ => 0) valAddr shares) s.validators s.delegations →
    SharesOK (fun _ => 0) s'.validators s'.delegations →
    s.validators.get? valAddr = some v → 0 < shares → shares ≤ v.delegatorShares →
    Changed s s' valAddr (some (v.tokens - v.issuedTokens shares, v.delegatorShares - shares))
      s.delegations →
    P.reducing valAddr shares s e →
    P.idle (s'.note (.unbonded v.tokens v.delegatorShares shares (v.issuedTokens shares))) e
  slashed : ∀ {s valAddr e} {v : Validator} {burned : Int},
    SharesOK (fun _ => 0) s.validators s.delegations → s.validators.get? valAddr = some v →
    0 < burned → burned ≤ v.tokens → P.idle s e →
    KeepsEvenOnError allowed
      (K.beforeValidatorSlashed s valAddr (effectiveFraction burned v.tokens)) e fun next =>
        ∀ s', SharesOK (fun _ => 0) s'.validators s'.delegations →
          Changed s s' valAddr (some (v.tokens - burned, v.delegatorShares)) s.delegations →
          P.idle s' next
  delegateCoins : ∀ {s delAddr valAddr coin e}, P.opened delAddr valAddr s e →
    Keeps allowed (K.delegateCoins s delAddr coin) e (P.opened delAddr valAddr s)
  restrictOpened : ∀ {s delAddr valAddr coin e}, P.opened delAddr valAddr s e →
    Keeps allowed (K.sendRestriction s coin) e (P.opened delAddr valAddr s)
  restrictIdle : ∀ {s coin e}, P.idle s e →
    Keeps allowed (K.sendRestriction s coin) e (P.idle s)
  undelegateCoins : ∀ {s delAddr coin e}, P.idle s e →
    Keeps allowed (K.undelegateCoins s delAddr coin) e (P.idle s)
  fundCommunityPool : ∀ {s coin sender e}, P.idle s e →
    Keeps allowed (K.fundCommunityPool s coin sender) e (P.idle s)

/-- Phases without content, and any hooks at all. -/
def Phases.trivial : Phases σ := ⟨fun _ _ => True, fun _ _ _ _ => True, fun _ _ _ _ => True⟩

theorem post_of_forall {ε τ α : Type} {action : Action ε τ α} {state : τ}
    {holds : α → τ → Prop} {stops : Fault ε → τ → Prop} (always : ∀ value next, holds value next)
    (alwaysStops : ∀ fault next, stops fault next) : Post action state holds stops := by
  unfold Post
  cases action state with
  | ok value next => exact always value next
  | error fault next => exact alwaysStops fault next

/-- Every hook implementation meets the contract of the trivial phases. -/
theorem HookContract.trivial (K : Keepers φ σ) :
    HookContract K Phases.trivial (fun _ => True) := by
  constructor
  all_goals intros
  all_goals first
    | exact True.intro
    | exact post_of_forall (fun _ _ => True.intro) (fun _ _ => True.intro)
    | exact post_of_forall (fun _ _ => True.intro) (fun _ _ => ⟨True.intro, True.intro⟩)
    | exact post_of_forall (fun _ _ _ _ => True.intro) (fun _ _ => True.intro)
    | exact post_of_forall (fun _ _ _ _ _ => True.intro)
        (fun _ _ => ⟨True.intro, fun _ _ _ => True.intro⟩)

end Obligations

/-! ## The staking invariant -/

/-- What holds even while the validator set is being updated, with the shares
pending and the tokens owed by an unfinished operation. The backing of the pools is
included when `tracked`. -/
structure Core (consAddress : PubKey → Address) (tracked : Prop) (pending : Address → Int)
    (owed : Bool → Int) (s : StakingState) : Prop where
  shares : SharesOK pending s.validators s.delegations
  index : IndexOK s.validators s.validatorsByPowerIndex
  cons : ConsOK consAddress s.validators s.validatorByConsAddr
  unbondings : UnbondingsOK s.unbondingDelegations
  redelegations : RedelegationsOK s.redelegations
  pools : tracked → PoolsOK owed (poolBalance s) s.validators s.unbondingDelegations

/-- Everything the keeper maintains. -/
structure Inv (consAddress : PubKey → Address) (tracked : Prop) (pending : Address → Int)
    (owed : Bool → Int) (s : StakingState) : Prop
    extends Core consAddress tracked pending owed s where
  last : LastOK s.validators s.lastValidatorPower s.lastTotalPower

/-- Between operations nothing is pending or owed. -/
abbrev Settled (consAddress : PubKey → Address) (tracked : Prop) (s : StakingState) : Prop :=
  Inv consAddress tracked (fun _ => 0) (fun _ => 0) s

/-- Faults that may stop an operation: those of other modules that are allowed, and
those of the keeper that are its `own`, except the ones its invariant excludes. -/
def FaultIn {φ : Type} (own : Fault (Reason φ) → Prop) (tracked : Prop)
    (allowed : Fault φ → Prop) : Fault (Reason φ) → Prop
  | .error (.hook reason) => allowed (.error reason)
  | .panic (.hook reason) => allowed (.panic reason)
  | .error .insufficientFunds => ¬ tracked
  | .error .jailedInPowerStore => False
  | fault => own fault

/-- Any fault of the keeper that its invariant does not exclude. -/
abbrev FaultOK {φ : Type} (tracked : Prop) (allowed : Fault φ → Prop) : Fault (Reason φ) → Prop :=
  FaultIn (fun _ => True) tracked allowed

abbrev StopsIn {φ σ : Type} (own : Fault (Reason φ) → Prop) (tracked : Prop)
    (allowed : Fault φ → Prop) : Fault (Reason φ) → World σ → Prop :=
  fun fault _ => FaultIn own tracked allowed fault

abbrev StopsOK {φ σ : Type} (tracked : Prop) (allowed : Fault φ → Prop) :
    Fault (Reason φ) → World σ → Prop :=
  fun fault _ => FaultOK tracked allowed fault

abbrev Passes {φ σ α : Type} (tracked : Prop) (allowed : Fault φ → Prop) (check : StakingM φ σ α)
    (world : World σ) : Prop :=
  Post check world (fun _ world' => world' = world) (StopsOK tracked allowed)

theorem faultIn_hook {φ : Type} {own : Fault (Reason φ) → Prop} {tracked : Prop}
    {allowed : Fault φ → Prop} {fault : Fault φ} (fine : allowed fault) :
    FaultIn own tracked allowed (fault.map Reason.hook) := by
  cases fault with
  | error reason => exact fine
  | panic reason => exact fine

/-! ## What stake operations leave alone -/

/-- The header, the parameters and the rotation records stay, validators keep their
key and no validator enters or leaves the bonded set. -/
structure Frame (s s' : StakingState) : Prop where
  params : s'.params = s.params
  height : s'.blockHeight = s.blockHeight
  time : s'.blockTime = s.blockTime
  oldToNew : s'.oldToNewConsAddr = s.oldToNewConsAddr
  identifier : s'.consAddrToIdentifier = s.consAddrToIdentifier
  rotations : s'.blockRotationHistory = s.blockRotationHistory
  lastPower : s'.lastValidatorPower = s.lastValidatorPower
  kept : ∀ {addr v'}, s'.validators.get? addr = some v' →
    ∃ v, s.validators.get? addr = some v ∧ v'.consensusPubkey = v.consensusPubkey
      ∧ v'.isBonded = v.isBonded
  gone : ∀ {addr v}, s.validators.get? addr = some v → s'.validators.get? addr = none →
    v.isBonded = false

namespace Frame

theorem refl (s : StakingState) : Frame s s where
  params := rfl
  height := rfl
  time := rfl
  oldToNew := rfl
  identifier := rfl
  rotations := rfl
  lastPower := rfl
  kept := fun stored => ⟨_, stored, rfl, rfl⟩
  gone := fun stored absent => by rw [stored] at absent; cases absent

theorem trans {s s' s'' : StakingState} (first : Frame s s') (second : Frame s' s'') :
    Frame s s'' where
  params := second.params.trans first.params
  height := second.height.trans first.height
  time := second.time.trans first.time
  oldToNew := second.oldToNew.trans first.oldToNew
  identifier := second.identifier.trans first.identifier
  rotations := second.rotations.trans first.rotations
  lastPower := second.lastPower.trans first.lastPower
  kept := by
    intro addr v'' stored
    obtain ⟨v', stored', key', status'⟩ := second.kept stored
    obtain ⟨v, found, key, status⟩ := first.kept stored'
    exact ⟨v, found, key'.trans key, status'.trans status⟩
  gone := by
    intro addr v stored absent
    cases middle : s'.validators.get? addr with
    | none => exact first.gone stored middle
    | some v' =>
      obtain ⟨w, found, -, status⟩ := first.kept middle
      have same : w = v := some_unique found stored
      rw [← same, ← status]
      exact second.gone middle absent

end Frame

end AtomOneSdk.Staking
