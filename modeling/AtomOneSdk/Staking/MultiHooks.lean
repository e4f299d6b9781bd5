import AtomOneSdk.Staking.Contract

/-!
Contract: several modules behind one set of staking hooks (`MultiStakingHooks` of
`types/hooks.go`).

Owns: the hooks of one module placed between those of the modules before and after
it, each on its own state, and the `HookContract` of the combination from that of the
module alone. The other modules may do anything to their own state, fail or panic.

Does **not** own: the order in which an application registers its modules.
-/

namespace AtomOneSdk.Staking

open Lib Lib.Action

section Sandwich

variable {φ ψ ρ τ : Type}

def onOthers (action : Action φ ρ Unit) : Action (φ ⊕ ψ) (ρ × τ) Unit :=
  zoom Prod.fst (fun state next => (next, state.2)) Sum.inl action

/-- Run an action of the module in the middle. -/
def onModule (action : Action ψ τ Unit) : Action (φ ⊕ ψ) (ρ × τ) Unit :=
  zoom Prod.snd (fun state next => (state.1, next)) Sum.inr action

/-- Hooks run in sequence; the first error ends it. -/
def sandwich (first : Action φ ρ Unit) (inner : Action ψ τ Unit) (last : Action φ ρ Unit) :
    Action (φ ⊕ ψ) (ρ × τ) Unit := do
  onOthers first
  onModule inner
  onOthers last

/-- Faults of the other modules are not restricted. -/
def FaultOfModule (allowed : Fault ψ → Prop) : Fault (φ ⊕ ψ) → Prop
  | .error (.inr reason) => allowed (.error reason)
  | .panic (.inr reason) => allowed (.panic reason)
  | .error (.inl _) => True
  | .panic (.inl _) => True

theorem faultOfModule_inl {allowed : Fault ψ → Prop} (fault : Fault φ) :
    FaultOfModule allowed (fault.map Sum.inl) := by
  cases fault <;> trivial

theorem faultOfModule_inr {allowed : Fault ψ → Prop} {fault : Fault ψ} (fine : allowed fault) :
    @FaultOfModule φ ψ allowed (fault.map Sum.inr) := by
  cases fault <;> exact fine

variable {first last : Action φ ρ Unit} {inner : Action ψ τ Unit} {state : ρ × τ}
  {allowed : Fault ψ → Prop} {after : τ → Prop}

/-- The other modules do not touch the module's state. -/
theorem post_onOthers {action : Action φ ρ Unit} {stops : Fault (φ ⊕ ψ) → ρ × τ → Prop}
    {holds : Unit → ρ × τ → Prop} (returns : ∀ next, holds () (next, state.2))
    (fails : ∀ fault next, action state.1 = .error fault next →
      stops (fault.map Sum.inl) (next, state.2)) :
    Post (onOthers action) state holds stops := by
  rw [onOthers, post_zoom]
  unfold Post
  cases ran : action state.1 with
  | ok value next => exact returns next
  | error fault next => exact fails fault next ran

theorem Keeps.sandwich (keeps : Keeps allowed inner state.2 after) :
    Keeps (FaultOfModule allowed) (sandwich first inner last) state fun next => after next.2 := by
  unfold Keeps Staking.sandwich
  rw [post_bind]
  apply post_onOthers
  · intro next
    rw [post_bind, onModule, post_zoom]
    apply Post.mono keeps
    · intro _ inside kept
      apply post_onOthers
      · exact fun _ => kept
      · exact fun fault _ _ => faultOfModule_inl fault
    · exact fun fault _ fine => faultOfModule_inr fine
  · exact fun fault _ _ => faultOfModule_inl fault

/-- When errors are dropped, an error of an earlier module means that this module's
hook did not run at all. -/
theorem KeepsEvenOnError.sandwich (keeps : KeepsEvenOnError allowed inner state.2 after)
    (skipped : ∀ fault next, first state.1 = .error fault next → after state.2) :
    KeepsEvenOnError (FaultOfModule allowed) (sandwich first inner last) state
      fun next => after next.2 := by
  unfold KeepsEvenOnError Staking.sandwich
  rw [post_bind]
  apply post_onOthers
  · intro next
    rw [post_bind, onModule, post_zoom]
    apply Post.mono keeps
    · intro _ inside kept
      apply post_onOthers
      · exact fun _ => kept
      · exact fun fault _ _ => ⟨faultOfModule_inl fault, kept⟩
    · exact fun fault _ fine => ⟨faultOfModule_inr fine.1, fine.2⟩
  · exact fun fault next ran => ⟨faultOfModule_inl fault, skipped fault next ran⟩

end Sandwich

/-- A module's hooks and keepers between those of the others. -/
def Keepers.between {φ ψ ρ τ : Type} (before after : Keepers φ ρ) (inner : Keepers ψ τ) :
    Keepers (φ ⊕ ψ) (ρ × τ) where
  afterValidatorCreated := fun s val =>
    sandwich (before.afterValidatorCreated s val) (inner.afterValidatorCreated s val)
      (after.afterValidatorCreated s val)
  beforeValidatorModified := fun s val =>
    sandwich (before.beforeValidatorModified s val) (inner.beforeValidatorModified s val)
      (after.beforeValidatorModified s val)
  afterValidatorRemoved := fun s cons val =>
    sandwich (before.afterValidatorRemoved s cons val) (inner.afterValidatorRemoved s cons val)
      (after.afterValidatorRemoved s cons val)
  afterValidatorBonded := fun s cons val =>
    sandwich (before.afterValidatorBonded s cons val) (inner.afterValidatorBonded s cons val)
      (after.afterValidatorBonded s cons val)
  afterValidatorBeginUnbonding := fun s cons val =>
    sandwich (before.afterValidatorBeginUnbonding s cons val)
      (inner.afterValidatorBeginUnbonding s cons val)
      (after.afterValidatorBeginUnbonding s cons val)
  beforeDelegationCreated := fun s del val =>
    sandwich (before.beforeDelegationCreated s del val) (inner.beforeDelegationCreated s del val)
      (after.beforeDelegationCreated s del val)
  beforeDelegationSharesModified := fun s del val =>
    sandwich (before.beforeDelegationSharesModified s del val)
      (inner.beforeDelegationSharesModified s del val)
      (after.beforeDelegationSharesModified s del val)
  beforeDelegationRemoved := fun s del val =>
    sandwich (before.beforeDelegationRemoved s del val) (inner.beforeDelegationRemoved s del val)
      (after.beforeDelegationRemoved s del val)
  afterDelegationModified := fun s del val =>
    sandwich (before.afterDelegationModified s del val) (inner.afterDelegationModified s del val)
      (after.afterDelegationModified s del val)
  beforeValidatorSlashed := fun s val fraction =>
    sandwich (before.beforeValidatorSlashed s val fraction)
      (inner.beforeValidatorSlashed s val fraction) (after.beforeValidatorSlashed s val fraction)
  afterUnbondingInitiated := fun s id =>
    sandwich (before.afterUnbondingInitiated s id) (inner.afterUnbondingInitiated s id)
      (after.afterUnbondingInitiated s id)
  beforeConsensusPubKeyRotation := fun s val oldKey newKey =>
    sandwich (before.beforeConsensusPubKeyRotation s val oldKey newKey)
      (inner.beforeConsensusPubKeyRotation s val oldKey newKey)
      (after.beforeConsensusPubKeyRotation s val oldKey newKey)
  afterConsensusPubKeyUpdate := fun s oldKey newKey fee =>
    sandwich (before.afterConsensusPubKeyUpdate s oldKey newKey fee)
      (inner.afterConsensusPubKeyUpdate s oldKey newKey fee)
      (after.afterConsensusPubKeyUpdate s oldKey newKey fee)
  delegateCoins := fun s del coin =>
    sandwich (before.delegateCoins s del coin) (inner.delegateCoins s del coin)
      (after.delegateCoins s del coin)
  undelegateCoins := fun s del coin =>
    sandwich (before.undelegateCoins s del coin) (inner.undelegateCoins s del coin)
      (after.undelegateCoins s del coin)
  sendRestriction := fun s coin =>
    sandwich (before.sendRestriction s coin) (inner.sendRestriction s coin)
      (after.sendRestriction s coin)
  fundCommunityPool := fun s coin sender =>
    sandwich (before.fundCommunityPool s coin sender) (inner.fundCommunityPool s coin sender)
      (after.fundCommunityPool s coin sender)
  consAddress := inner.consAddress
  pubKeyTypes := inner.pubKeyTypes

def Phases.ofModule {ρ τ : Type} (P : Phases τ) : Phases (ρ × τ) where
  idle := fun s state => P.idle s state.2
  opened := fun del val s state => P.opened del val s state.2
  reducing := fun val shares s state => P.reducing val shares s state.2

/-- The contract of a module alone gives that of the combination. The module's
invariant must survive when an earlier module's error keeps its hook from running,
in the two places where such an error is dropped after a change of stake. -/
theorem HookContract.between {φ ψ ρ τ : Type} {before after : Keepers φ ρ} {inner : Keepers ψ τ}
    {P : Phases τ} {allowed : Fault ψ → Prop} (contract : HookContract inner P allowed)
    (skipRemoved : ∀ {s s' : StakingState} {consAddr valAddr : Address} {r r' : ρ}
      {fault : Fault φ} {e : τ},
      before.afterValidatorRemoved s' consAddr valAddr r = .error fault r' →
      stakeAt s valAddr = some (0, 0) → Changed s s' valAddr none s.delegations → P.idle s e →
      P.idle (s'.note (.removalHookFailed valAddr)) e)
    (failRemoved : ∀ {s' : StakingState} {consAddr valAddr : Address} {r r' : ρ}
      {fault : Fault φ} {e : τ},
      after.afterValidatorRemoved s' consAddr valAddr r = .error fault r' →
      P.idle s' e → P.idle (s'.note (.removalHookFailed valAddr)) e)
    (skipSlashed : ∀ {s s' : StakingState} {valAddr : Address} {fraction burned : Int} {r r' : ρ}
      {fault : Fault φ} {v : Validator} {e : τ},
      before.beforeValidatorSlashed s valAddr fraction r = .error fault r' →
      s.validators.get? valAddr = some v →
      Changed s s' valAddr (some (v.tokens - burned, v.delegatorShares)) s.delegations →
      P.idle s e → P.idle s' e) :
    HookContract (Keepers.between before after inner) P.ofModule (FaultOfModule allowed) where
  idle_stable := contract.idle_stable
  opened_stable := contract.opened_stable
  advance := contract.advance
  created := fun shares shares' absent changed idle =>
    (contract.created shares shares' absent changed idle).sandwich
  removed := by
    intro s s' consAddr valAddr state shares shares' empty changed idle
    show Post (sandwich _ _ _) state _ _
    unfold sandwich
    rw [post_bind]
    apply post_onOthers
    · intro next
      rw [post_bind, onModule, post_zoom]
      apply Post.mono (contract.removed shares shares' empty changed idle)
      · intro _ inside kept
        apply post_onOthers
        · exact fun _ => kept
        · exact fun fault _ ran => ⟨faultOfModule_inl fault, failRemoved ran kept⟩
      · exact fun fault _ fine => ⟨faultOfModule_inr fine.1, fine.2⟩
    · exact fun fault next ran => ⟨faultOfModule_inl fault, skipRemoved ran empty changed idle⟩
  bonded := fun shares idle => (contract.bonded shares idle).sandwich
  beginUnbonding := fun shares idle => (contract.beginUnbonding shares idle).sandwich
  modified := fun shares idle => (contract.modified shares idle).sandwich fun _ _ _ => idle
  unbondingInitiated := fun shares idle =>
    (contract.unbondingInitiated shares idle).sandwich fun _ _ _ => idle
  keyRotation := fun shares idle => (contract.keyRotation shares idle).sandwich
  keyUpdate := fun shares idle => (contract.keyUpdate shares idle).sandwich
  sharesModified := fun shares stored idle =>
    (contract.sharesModified shares stored idle).sandwich
  delegationCreated := fun shares stake absent idle =>
    (contract.delegationCreated shares stake absent idle).sandwich
  grown := fun shares shares' stored amount issued positive changed opened =>
    (contract.grown shares shares' stored amount issued positive changed opened).sandwich
  shrunk := fun shares shares' stored positive less changed opened =>
    (contract.shrunk shares shares' stored positive less changed opened).sandwich
  delegationRemoved := fun shares stored opened =>
    (contract.delegationRemoved shares stored opened).sandwich
  reduced := contract.reduced
  slashed := fun shares stored positive bounded idle =>
    (contract.slashed shares stored positive bounded idle).sandwich
      fun _ _ ran _ _ changed => skipSlashed ran stored changed idle
  delegateCoins := fun opened => (contract.delegateCoins opened).sandwich
  restrictOpened := fun opened => (contract.restrictOpened opened).sandwich
  restrictIdle := fun idle => (contract.restrictIdle idle).sandwich
  undelegateCoins := fun idle => (contract.undelegateCoins idle).sandwich
  fundCommunityPool := fun idle => (contract.fundCommunityPool idle).sandwich

end AtomOneSdk.Staking
