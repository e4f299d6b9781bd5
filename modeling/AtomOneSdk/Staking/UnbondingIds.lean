import AtomOneSdk.Lib.IdIndex
import AtomOneSdk.Staking.MsgServer

/-!
Contract: what unbonding ids are about.

Owns: the part of the staking state that lists unbonding ids, as a view; the invariant of
that part; the changes of the view that keep it; and the keeper functions that leave the view
alone.

Does **not** own: the keeper functions that change the view.
-/

namespace AtomOneSdk.Staking

open Lib Lib.Action Function

/-! ## View -/

def validatorIds (v : Validator) : Address × BondStatus × List Nat :=
  (v.operatorAddress, v.status, v.unbondingIds)

def unbondingIds (ubd : UnbondingDelegation) : Address × Address × List Nat :=
  (ubd.delegatorAddress, ubd.validatorAddress,
    ubd.entries.map UnbondingDelegationEntry.unbondingId)

def redelegationIds (red : Redelegation) : Address × Address × Address × List Nat :=
  (red.delegatorAddress, red.validatorSrcAddress, red.validatorDstAddress,
    red.entries.map RedelegationEntry.unbondingId)

/-- The records that list ids, the index, and the last id that was given out. -/
@[ext] structure IdView where
  validators : Address → Option (Address × BondStatus × List Nat)
  unbonding : Pair Address Address → Option (Address × Address × List Nat)
  redelegations : Pair Address (Pair Address Address) →
    Option (Address × Address × Address × List Nat)
  index : Store Nat UnbondingOp
  last : Nat

def idView (s : StakingState) : IdView where
  validators addr := (s.validators.get? addr).map validatorIds
  unbonding key := (s.unbondingDelegations.get? key).map unbondingIds
  redelegations key := (s.redelegations.get? key).map redelegationIds
  index := s.unbondingIndex
  last := s.unbondingId

namespace IdView

def idsOf (view : IdView) : UnbondingOp → List Nat
  | .unbondingDelegation delegator validator =>
    ((view.unbonding ⟨delegator, validator⟩).map fun ubd => ubd.2.2).getD []
  | .redelegation delegator source destination =>
    ((view.redelegations ⟨delegator, ⟨source, destination⟩⟩).map fun red => red.2.2.2).getD []
  | .validatorUnbonding validator =>
    ((view.validators validator).map fun v => v.2.2).getD []

/-- Records are filed under their own addresses, a redelegation has two validators, and an
unbonded validator lists no ids. -/
structure Shaped (view : IdView) : Prop where
  operator : ∀ {addr v}, view.validators addr = some v → v.1 = addr
  unbonded : ∀ {addr v}, view.validators addr = some v → v.2.1 = .unbonded → v.2.2 = []
  unbonding : ∀ {key ubd}, view.unbonding key = some ubd → key = ⟨ubd.1, ubd.2.1⟩
  redelegation : ∀ {key red}, view.redelegations key = some red →
    key = ⟨red.1, ⟨red.2.1, red.2.2.1⟩⟩ ∧ red.2.1 ≠ red.2.2.1

/-- Every id is listed by one record, to which the index leads. -/
structure IdsOK (view : IdView) : Prop where
  numbered : Numbered view.idsOf view.index view.last
  shaped : Shaped view

section Changes

variable {view : IdView} {addr delegator source destination : Address}
  {validator : Option (Address × BondStatus × List Nat)}
  {ubd : Option (Address × Address × List Nat)}
  {red : Option (Address × Address × Address × List Nat)}

def setValidator (view : IdView) (addr : Address)
    (record : Option (Address × BondStatus × List Nat)) : IdView :=
  { view with validators := Function.update view.validators addr record }

def setUnbonding (view : IdView) (key : Pair Address Address)
    (record : Option (Address × Address × List Nat)) : IdView :=
  { view with unbonding := Function.update view.unbonding key record }

def setRedelegation (view : IdView) (key : Pair Address (Pair Address Address))
    (record : Option (Address × Address × Address × List Nat)) : IdView :=
  { view with redelegations := Function.update view.redelegations key record }

theorem idsOf_setValidator : (view.setValidator addr validator).idsOf
      = Function.update view.idsOf (.validatorUnbonding addr)
        ((validator.map fun v => v.2.2).getD []) := by
  funext op
  rw [update_apply]
  cases op with
  | unbondingDelegation | redelegation => simp [idsOf, setValidator]
  | validatorUnbonding =>
    simp only [idsOf, setValidator, update_apply, UnbondingOp.validatorUnbonding.injEq]
    split_ifs <;> rfl

theorem idsOf_setUnbonding : (view.setUnbonding ⟨delegator, addr⟩ ubd).idsOf
      = Function.update view.idsOf (.unbondingDelegation delegator addr)
        ((ubd.map fun ubd => ubd.2.2).getD []) := by
  funext op
  rw [update_apply]
  cases op with
  | unbondingDelegation =>
    simp only [idsOf, setUnbonding, update_apply, Pair.mk.injEq,
      UnbondingOp.unbondingDelegation.injEq]
    split_ifs <;> rfl
  | redelegation | validatorUnbonding => simp [idsOf, setUnbonding]

theorem idsOf_setRedelegation :
    (view.setRedelegation ⟨delegator, ⟨source, destination⟩⟩ red).idsOf
      = Function.update view.idsOf (.redelegation delegator source destination)
        ((red.map fun red => red.2.2.2).getD []) := by
  funext op
  rw [update_apply]
  cases op with
  | unbondingDelegation | validatorUnbonding => simp [idsOf, setRedelegation]
  | redelegation =>
    simp only [idsOf, setRedelegation, update_apply, Pair.mk.injEq,
      UnbondingOp.redelegation.injEq]
    split_ifs <;> rfl

/-- The second of two writes of a validator stays. -/
theorem setValidator_setValidator (addr : Address)
    (first second : Option (Address × BondStatus × List Nat)) (index : Store Nat UnbondingOp) :
    setValidator { view.setValidator addr first with index := index } addr second
      = { view.setValidator addr second with index := index } := by
  ext1
  · show Function.update (Function.update view.validators addr first) addr second = _
    rw [update_idem]
    rfl
  all_goals rfl

/-- A record behind a write is the new one or an old one. -/
theorem of_update {α β : Type} [DecidableEq α] {f : α → Option β} {key other : α}
    {record : Option β} {found : β} (isRecord : Function.update f key record other = some found) :
    (other = key ∧ record = some found) ∨ f other = some found := by
  rw [update_apply] at isRecord
  split_ifs at isRecord with same
  · exact .inl ⟨same, isRecord⟩
  · exact .inr isRecord

theorem Shaped.setValidator (shaped : Shaped view)
    (ok : ∀ v ∈ validator, v.1 = addr ∧ (v.2.1 = .unbonded → v.2.2 = [])) :
    Shaped (view.setValidator addr validator) := by
  have cases_ : ∀ {other v}, (view.setValidator addr validator).validators other = some v →
      v.1 = other ∧ (v.2.1 = .unbonded → v.2.2 = []) := by
    intro other v isRecord
    rcases of_update isRecord with ⟨rfl, isNew⟩ | isOld
    · exact ok v isNew
    · exact ⟨shaped.operator isOld, shaped.unbonded isOld⟩
  exact ⟨fun isRecord => (cases_ isRecord).1, fun isRecord => (cases_ isRecord).2,
    shaped.unbonding, shaped.redelegation⟩

theorem Shaped.setUnbonding (shaped : Shaped view) {key : Pair Address Address}
    (ok : ∀ record ∈ ubd, key = ⟨record.1, record.2.1⟩) : Shaped (view.setUnbonding key ubd) := by
  refine ⟨shaped.operator, shaped.unbonded, ?_, shaped.redelegation⟩
  intro other record isRecord
  rcases of_update isRecord with ⟨rfl, isNew⟩ | isOld
  · exact ok record isNew
  · exact shaped.unbonding isOld

theorem Shaped.setRedelegation (shaped : Shaped view) {key : Pair Address (Pair Address Address)}
    (ok : ∀ record ∈ red, key = ⟨record.1, ⟨record.2.1, record.2.2.1⟩⟩
      ∧ record.2.1 ≠ record.2.2.1) : Shaped (view.setRedelegation key red) := by
  refine ⟨shaped.operator, shaped.unbonded, shaped.unbonding, ?_⟩
  intro other record isRecord
  rcases of_update isRecord with ⟨rfl, isNew⟩ | isOld
  · exact ok record isNew
  · exact shaped.redelegation isOld

theorem IdsOK.reindexed (shaped : Shaped view) {index : Store Nat UnbondingOp} {last : Nat}
    (numbered : Numbered view.idsOf index last) :
    IdsOK { view with index := index, last := last } :=
  ⟨numbered, shaped.operator, shaped.unbonded, shaped.unbonding, shaped.redelegation⟩

theorem IdsOK.skip (ok : IdsOK view) : IdsOK { view with last := view.last + 1 } :=
  .reindexed ok.shaped ok.numbered.skip

/-! ### Validators -/

/-- A validator is written with the ids it lists. -/
theorem IdsOK.setValidator (ok : IdsOK view)
    (sameIds : (validator.map fun v => v.2.2).getD [] = view.idsOf (.validatorUnbonding addr))
    (shaped : ∀ v ∈ validator, v.1 = addr ∧ (v.2.1 = .unbonded → v.2.2 = [])) :
    IdsOK (view.setValidator addr validator) := by
  refine ⟨?_, ok.shaped.setValidator shaped⟩
  rw [idsOf_setValidator, sameIds, update_eq_self]
  exact ok.numbered

/-- A validator starts to unbond under the next id. -/
theorem IdsOK.beginUnbonding (ok : IdsOK view) {status : BondStatus}
    (notUnbonded : status ≠ .unbonded) :
    IdsOK { view.setValidator addr
        (some (addr, status, view.idsOf (.validatorUnbonding addr) ++ [view.last + 1])) with
      index := view.index.set (view.last + 1) (.validatorUnbonding addr)
      last := view.last + 1 } := by
  apply IdsOK.reindexed
  · apply ok.shaped.setValidator
    intro v isRecord
    cases isRecord
    exact ⟨rfl, fun isUnbonded => absurd isUnbonded notUnbonded⟩
  · rw [idsOf_setValidator]
    exact ok.numbered.add _

/-- A validator is unbonded or removed, and its ids are given up. -/
theorem IdsOK.endUnbonding (ok : IdsOK view) (cleared : ∀ v ∈ validator, v.1 = addr ∧ v.2.2 = []) :
    IdsOK { view.setValidator addr validator with
      index := (view.idsOf (.validatorUnbonding addr)).foldl Store.delete view.index } := by
  apply IdsOK.reindexed
  · apply ok.shaped.setValidator
    intro v isRecord
    exact ⟨(cleared v isRecord).1, fun _ => (cleared v isRecord).2⟩
  · have nothing : (validator.map fun v => v.2.2).getD [] = [] := by
      cases validator with
      | none => rfl
      | some v => exact (cleared v rfl).2
    rw [idsOf_setValidator, nothing]
    exact ok.numbered.clear _

/-! ### Unbonding delegations -/

/-- An unbonding delegation gets an entry with the next id. -/
theorem IdsOK.addUnbonding (ok : IdsOK view) (delegator validator : Address) :
    IdsOK { view.setUnbonding ⟨delegator, validator⟩ (some (delegator, validator,
        view.idsOf (.unbondingDelegation delegator validator) ++ [view.last + 1])) with
      index := view.index.set (view.last + 1) (.unbondingDelegation delegator validator)
      last := view.last + 1 } := by
  apply IdsOK.reindexed
  · apply ok.shaped.setUnbonding
    intro ubd isRecord
    cases isRecord
    rfl
  · rw [idsOf_setUnbonding]
    exact ok.numbered.add _

theorem IdsOK.dropUnbonding (ok : IdsOK view) {entries : List UnbondingDelegationEntry}
    (isRecord : view.idsOf (.unbondingDelegation delegator addr)
      = entries.map UnbondingDelegationEntry.unbondingId) (done : UnbondingDelegationEntry → Bool)
    (isLeft : (ubd.map fun ubd => ubd.2.2).getD []
      = (entries.filter fun entry => ¬ done entry).map UnbondingDelegationEntry.unbondingId)
    (keyed : ∀ record ∈ ubd, record.1 = delegator ∧ record.2.1 = addr) :
    IdsOK { view.setUnbonding ⟨delegator, addr⟩ ubd with
      index := ((entries.filter done).map UnbondingDelegationEntry.unbondingId).foldl Store.delete
        view.index } := by
  apply IdsOK.reindexed
  · apply ok.shaped.setUnbonding
    intro record isUbd
    obtain ⟨isDelegator, isValidator⟩ := keyed record isUbd
    rw [isDelegator, isValidator]
  · rw [idsOf_setUnbonding, isLeft]
    exact ok.numbered.drop isRecord done

/-! ### Redelegations -/

/-- A redelegation gets an entry with the next id. -/
theorem IdsOK.addRedelegation (ok : IdsOK view) (apart : source ≠ destination) :
    IdsOK { view.setRedelegation ⟨delegator, ⟨source, destination⟩⟩
        (some (delegator, source, destination,
          view.idsOf (.redelegation delegator source destination) ++ [view.last + 1])) with
      index := view.index.set (view.last + 1) (.redelegation delegator source destination)
      last := view.last + 1 } := by
  apply IdsOK.reindexed
  · apply ok.shaped.setRedelegation
    intro red isRecord
    cases isRecord
    exact ⟨rfl, apart⟩
  · rw [idsOf_setRedelegation]
    exact ok.numbered.add _

theorem IdsOK.dropRedelegation (ok : IdsOK view) (apart : source ≠ destination)
    {entries : List RedelegationEntry}
    (isRecord : view.idsOf (.redelegation delegator source destination)
      = entries.map RedelegationEntry.unbondingId) (done : RedelegationEntry → Bool)
    (isLeft : (red.map fun red => red.2.2.2).getD []
      = (entries.filter fun entry => ¬ done entry).map RedelegationEntry.unbondingId)
    (keyed : ∀ record ∈ red,
      record.1 = delegator ∧ record.2.1 = source ∧ record.2.2.1 = destination) :
    IdsOK { view.setRedelegation ⟨delegator, ⟨source, destination⟩⟩ red with
      index := ((entries.filter done).map RedelegationEntry.unbondingId).foldl Store.delete
        view.index } := by
  apply IdsOK.reindexed
  · apply ok.shaped.setRedelegation
    intro record isRed
    obtain ⟨isDelegator, isSource, isDestination⟩ := keyed record isRed
    rw [isDelegator, isSource, isDestination]
    exact ⟨rfl, apart⟩
  · rw [idsOf_setRedelegation, isLeft]
    exact ok.numbered.drop isRecord done

end Changes

end IdView

/-! ## Writes -/

section Writes

variable (s : StakingState)

theorem idView_setValidator (v : Validator) : idView (s.setValidator v)
    = (idView s).setValidator v.operatorAddress (some (validatorIds v)) := by
  ext1
  case validators => exact s.validators.view_set (Option.map validatorIds) ..
  all_goals rfl

theorem idView_deleteValidator (address consAddr : Address) (v : Validator) :
    idView (s.deleteValidator address consAddr v) = (idView s).setValidator address none := by
  ext1
  case validators => exact s.validators.view_delete (Option.map validatorIds) ..
  all_goals rfl

theorem idView_setUnbondingDelegation (ubd : UnbondingDelegation) :
    idView (s.setUnbondingDelegation ubd)
      = (idView s).setUnbonding ⟨ubd.delegatorAddress, ubd.validatorAddress⟩
        (some (unbondingIds ubd)) := by
  ext1
  case unbonding => exact s.unbondingDelegations.view_set (Option.map unbondingIds) ..
  all_goals rfl

theorem idView_storeUnbondingDelegation (ubd : UnbondingDelegation) :
    idView (s.storeUnbondingDelegation ubd)
      = (idView s).setUnbonding ⟨ubd.delegatorAddress, ubd.validatorAddress⟩
        (if ubd.entries = [] then none else some (unbondingIds ubd)) := by
  unfold StakingState.storeUnbondingDelegation
  split_ifs
  · ext1
    case unbonding => exact s.unbondingDelegations.view_delete (Option.map unbondingIds) ..
    all_goals rfl
  · exact idView_setUnbondingDelegation s ubd

theorem idView_setRedelegation (red : Redelegation) :
    idView (s.setRedelegation red)
      = (idView s).setRedelegation
        ⟨red.delegatorAddress, ⟨red.validatorSrcAddress, red.validatorDstAddress⟩⟩
        (some (redelegationIds red)) := by
  ext1
  case redelegations => exact s.redelegations.view_set (Option.map redelegationIds) ..
  all_goals rfl

theorem idView_storeRedelegation (red : Redelegation) :
    idView (s.storeRedelegation red)
      = (idView s).setRedelegation
        ⟨red.delegatorAddress, ⟨red.validatorSrcAddress, red.validatorDstAddress⟩⟩
        (if red.entries = [] then none else some (redelegationIds red)) := by
  unfold StakingState.storeRedelegation
  split_ifs
  · ext1
    case redelegations => exact s.redelegations.view_delete (Option.map redelegationIds) ..
    all_goals rfl
  · exact idView_setRedelegation s red

theorem idView_setByUnbondingId (op : UnbondingOp) (id : Nat) :
    idView (s.setByUnbondingId op id)
      = { idView s with index := (idView s).index.set id op } := rfl

theorem idView_foldl_deleteUnbondingIndex (ids : List Nat) :
    idView (ids.foldl StakingState.deleteUnbondingIndex s)
      = { idView s with index := ids.foldl Store.delete (idView s).index } := by
  induction ids generalizing s with
  | nil => rfl
  | cons id rest ih => exact ih (s.deleteUnbondingIndex id)

end Writes

/-! ## Functions that leave the view alone -/

section Quiet

variable {φ σ α β : Type}

/-- An action that leaves the view alone, however it ends. -/
def Quiet (action : StakingM φ σ α) : Prop :=
  ∀ world, Post action world (fun _ after => idView after.staking = idView world.staking)
    (fun _ after => idView after.staking = idView world.staking)

theorem quiet_pure {value : α} : Quiet (pure value : StakingM φ σ α) := fun _ => rfl

theorem quiet_fail {reason : Reason φ} : Quiet (fail reason : StakingM φ σ α) := fun _ => rfl

theorem quiet_stakingState : Quiet (stakingState : StakingM φ σ StakingState) := fun _ => rfl

theorem quiet_bind {action : StakingM φ σ α} {next : α → StakingM φ σ β} (first : Quiet action)
    (later : ∀ value, Quiet (next value)) : Quiet (action >>= next) := by
  intro world
  rw [post_bind]
  refine (first world).mono ?_ (fun _ _ same => same)
  intro value mid same
  exact (later value mid).mono (fun _ _ again => again.trans same)
    (fun _ _ again => again.trans same)

theorem quiet_read {next : StakingState → StakingM φ σ α} (later : ∀ s, Quiet (next s)) :
    Quiet (stakingState >>= next) :=
  quiet_bind quiet_stakingState later

theorem quiet_modify {f : StakingState → StakingState} (same : ∀ s, idView (f s) = idView s) :
    Quiet (modifyStaking f : StakingM φ σ Unit) :=
  fun world => same world.staking

theorem quiet_external {call : StakingState → Action φ σ α} : Quiet (external call) := by
  intro world
  rw [post_external, Post]
  cases call world.staking world.ext with
  | ok value next => rfl
  | error fault next => rfl

variable {condition : Prop} [Decidable condition] {action : StakingM φ σ Unit} {reason : Reason φ}

theorem quiet_ite {yes no : StakingM φ σ α} (isYes : Quiet yes)
    (isNo : Quiet no) : Quiet (if condition then yes else no) := by
  split_ifs
  · exact isYes
  · exact isNo

theorem quiet_failIf : Quiet (failIf condition reason : StakingM φ σ Unit) :=
  quiet_ite quiet_fail quiet_pure

theorem quiet_crashIf : Quiet (crashIf condition reason : StakingM φ σ Unit) :=
  quiet_ite (fun _ => rfl) quiet_pure

theorem quiet_whenever (quiet : Quiet action) : Quiet (whenever condition action) :=
  quiet_ite quiet quiet_pure

theorem quiet_getOrFail {value : Option α} :
    Quiet (getOrFail value reason : StakingM φ σ α) := by
  cases value with
  | none => exact quiet_fail
  | some found => exact quiet_pure

theorem quiet_recover {handler : StakingM φ σ Unit} (first : Quiet action) (later : Quiet handler) :
    Quiet (recover action handler) := by
  intro world
  rw [post_recover]
  refine (first world).mono (fun _ _ same => same) ?_
  intro fault mid same
  cases fault with
  | panic reason => exact same
  | error reason =>
    exact (later mid).mono (fun _ _ again => again.trans same)
      (fun _ _ again => again.trans same)

theorem quiet_ignoreError (quiet : Quiet action) : Quiet (ignoreError action) :=
  quiet_recover quiet quiet_pure

theorem quiet_forEach {body : α → StakingM φ σ Unit} (quiet : ∀ item, Quiet (body item)) :
    ∀ items, Quiet (forEach body items)
  | [] => quiet_pure
  | item :: rest => quiet_bind (quiet item) fun _ => quiet_forEach quiet rest

/-- What remains to be shown after a quiet action. -/
theorem Quiet.post {action : StakingM φ σ α} (quiet : Quiet action) {world : World σ}
    {holds : α → World σ → Prop} {view : IdView} (same : idView world.staking = view)
    (later : ∀ value after, idView after.staking = view → holds value after) :
    Ensures action world holds :=
  (quiet world).ensures fun value after again => later value after (again.trans same)

/-- What remains to be shown of the actions behind a quiet one. -/
theorem Quiet.bind {action : StakingM φ σ α} {next : α → StakingM φ σ β} (quiet : Quiet action)
    {world : World σ} {holds : β → World σ → Prop} {view : IdView}
    (same : idView world.staking = view) (later : ∀ value after, idView after.staking = view →
      Ensures (next value) after holds) : Ensures (action >>= next) world holds :=
  post_bind.mpr (quiet.post same later)

/-- The action leaves the ids in order, if it returns. -/
abbrev IdsKept (action : StakingM φ σ α) (world : World σ) : Prop :=
  Ensures action world fun _ after => (idView after.staking).IdsOK

theorem Quiet.ids {action : StakingM φ σ α} (quiet : Quiet action) {world : World σ}
    (ok : (idView world.staking).IdsOK) : IdsKept action world :=
  quiet.post rfl fun _ _ same => same ▸ ok

/-! ### Lookups and checks -/

variable {K : Keepers φ σ} {delAddr valAddr : Address} {amount : Int} {coin : Coin} {pk : PubKey}

theorem quiet_getValidator : Quiet (getValidator valAddr : StakingM φ σ Validator) :=
  quiet_read fun _ => quiet_getOrFail

theorem quiet_checkAmount {text : String} :
    Quiet (checkAmount coin text : StakingM φ σ Unit) :=
  quiet_failIf

theorem quiet_checkBondDenom : Quiet (checkBondDenom coin : StakingM φ σ Unit) :=
  quiet_read fun _ => quiet_failIf

theorem quiet_failIfSome {reason : Option (Reason φ)} :
    Quiet (failIfSome reason : StakingM φ σ Unit) := by
  cases reason with
  | none => exact quiet_pure
  | some found => exact quiet_fail

theorem quiet_checkPubKeyType : Quiet (checkPubKeyType K pk) := by
  unfold checkPubKeyType
  split
  · exact quiet_failIf
  · exact quiet_pure

theorem quiet_checkConsKeyAlreadyUsed : Quiet (checkConsKeyAlreadyUsed K pk) :=
  quiet_read fun _ => quiet_bind quiet_failIf fun _ =>
    quiet_bind quiet_failIf fun _ => quiet_failIf

theorem quiet_checkCommissionRange {rate : Int} :
    Quiet (checkCommissionRange rate : StakingM φ σ Unit) :=
  quiet_read fun _ => quiet_failIf

theorem quiet_validate {msg : MsgCreateValidator} : Quiet (msg.validate : StakingM φ σ Unit) :=
  quiet_bind quiet_checkAmount fun _ => quiet_bind quiet_failIf fun _ =>
    quiet_bind quiet_failIfSome fun _ => quiet_bind quiet_failIf fun _ => quiet_failIf

theorem quiet_validateUnbondAmount :
    Quiet (validateUnbondAmount delAddr valAddr amount : StakingM φ σ Int) :=
  quiet_bind quiet_getValidator fun _ => quiet_read fun _ =>
    quiet_bind quiet_getOrFail fun _ => quiet_bind quiet_getOrFail fun _ =>
      quiet_bind quiet_getOrFail fun _ => quiet_bind quiet_failIf fun _ => quiet_pure

theorem quiet_getBeginInfo :
    Quiet (getBeginInfo valAddr : StakingM φ σ (Option (Time × Int))) := by
  refine quiet_bind quiet_getValidator fun validator => ?_
  refine quiet_read fun _ => ?_
  cases validator.status with
  | unbonded => exact quiet_pure
  | unbonding => exact quiet_pure
  | bonded => exact quiet_pure

/-! ### Pools -/

theorem quiet_subBondedPool : Quiet (subBondedPool amount : StakingM φ σ Unit) :=
  quiet_read fun _ => quiet_bind quiet_getOrFail fun _ =>
    quiet_modify fun _ => rfl

theorem quiet_subNotBondedPool : Quiet (subNotBondedPool amount : StakingM φ σ Unit) :=
  quiet_read fun _ => quiet_bind quiet_getOrFail fun _ =>
    quiet_modify fun _ => rfl

theorem quiet_bondedTokensToNotBonded : Quiet (bondedTokensToNotBonded K amount) :=
  quiet_bind quiet_crashIf fun _ => quiet_bind quiet_subBondedPool fun _ =>
    quiet_bind quiet_external fun _ => quiet_modify fun _ => rfl

theorem quiet_notBondedTokensToBonded : Quiet (notBondedTokensToBonded K amount) :=
  quiet_bind quiet_crashIf fun _ => quiet_bind quiet_subNotBondedPool fun _ =>
    quiet_bind quiet_external fun _ => quiet_modify fun _ => rfl

theorem quiet_burnBondedTokens : Quiet (burnBondedTokens amount : StakingM φ σ Unit) :=
  quiet_whenever quiet_subBondedPool

theorem quiet_burnNotBondedTokens : Quiet (burnNotBondedTokens amount : StakingM φ σ Unit) :=
  quiet_whenever quiet_subNotBondedPool

theorem quiet_settlePools {acc : ApplyAcc} : Quiet (settlePools K acc) :=
  quiet_ite quiet_notBondedTokensToBonded
    (quiet_ite quiet_bondedTokensToNotBonded quiet_pure)

theorem quiet_recordPower {rotating : List Address} {acc : ApplyAcc} {addr : Address}
    {bonded : Validator} {moved : Int} :
    Quiet (recordPower rotating acc addr bonded moved : StakingM φ σ ApplyAcc) :=
  quiet_bind (quiet_whenever (quiet_modify fun _ => rfl)) fun _ => quiet_pure

/-! ### Delegations -/

theorem quiet_openDelegation : Quiet (openDelegation K delAddr valAddr) := by
  refine quiet_read fun s => ?_
  cases s.delegations.get? ⟨delAddr, valAddr⟩ with
  | none => exact quiet_bind quiet_external fun _ => quiet_pure
  | some delegation => exact quiet_bind quiet_external fun _ => quiet_pure

theorem quiet_fundDelegation {tokenSrc : BondStatus} {validator : Validator}
    {subtractAccount : Bool} :
    Quiet (fundDelegation K delAddr amount tokenSrc validator subtractAccount) := by
  refine quiet_ite ?_ (quiet_ite (quiet_whenever quiet_bondedTokensToNotBonded)
    (quiet_whenever quiet_notBondedTokensToBonded))
  refine quiet_bind quiet_crashIf fun _ => quiet_bind quiet_crashIf fun _ =>
    quiet_bind quiet_external fun _ => ?_
  exact quiet_ite (quiet_modify fun _ => rfl) (quiet_modify fun _ => rfl)

theorem quiet_storeReducedDelegation {delegation : Delegation} :
    Quiet (storeReducedDelegation K delegation) :=
  quiet_ite (quiet_bind quiet_external fun _ => quiet_modify fun _ => rfl)
    (quiet_bind (quiet_modify fun _ => rfl) fun _ => quiet_external)

/-! ### Key rotation and header -/

theorem quiet_setConsPubKeyRotationHistory {newPubKey : PubKey} :
    Quiet (setConsPubKeyRotationHistory valAddr pk newPubKey coin : StakingM φ σ Unit) :=
  quiet_read fun _ => quiet_bind quiet_failIf fun _ =>
    quiet_modify fun _ => rfl

theorem quiet_rotateConsPubKey {msg : MsgRotateConsPubKey} : Quiet (rotateConsPubKey K msg) :=
  quiet_bind quiet_checkPubKeyType fun _ =>
    quiet_bind quiet_checkConsKeyAlreadyUsed fun _ =>
      quiet_bind quiet_getValidator fun _ => quiet_bind quiet_failIf fun _ =>
        quiet_bind (quiet_read fun _ => quiet_failIf) fun _ =>
          quiet_bind quiet_external fun _ => quiet_read fun _ =>
            quiet_bind quiet_external fun _ => quiet_setConsPubKeyRotationHistory

theorem quiet_purgeAllMaturedConsKeyRotatedKeys {maturedTime : Time} :
    Quiet (purgeAllMaturedConsKeyRotatedKeys maturedTime : StakingM φ σ Unit) := by
  refine quiet_read fun _ => quiet_bind (quiet_modify fun _ => rfl) fun _ => ?_
  refine quiet_forEach (fun addr => ?_) _
  refine quiet_read fun _ => quiet_forEach (fun key => ?_) _
  exact quiet_bind quiet_failIf fun _ => quiet_whenever (quiet_modify fun _ => rfl)

theorem quiet_beginBlock {height : Int} {time : Time} :
    Quiet (beginBlock height time : StakingM φ σ Unit) :=
  quiet_read fun _ => quiet_bind quiet_failIf fun _ =>
    quiet_modify fun _ => rfl

end Quiet

end AtomOneSdk.Staking
