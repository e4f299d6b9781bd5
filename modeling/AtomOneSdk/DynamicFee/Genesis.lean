import Mathlib
import AtomOneSdk.DynamicFee.Properties

/-!
Contract: genesis of the dynamic fee module (`keeper/genesis.go`, `types/genesis.go`,
`types/state.go`).

Owns: the check, the import and the export of a genesis state, and that what a run exports
is accepted again and restores the parameters and the state.

Does **not** own: the enabled height, which every import resets.
-/

namespace AtomOneSdk.DynamicFee

open Lib Lib.Action

structure GenesisState where
  params : Params
  state : State

/-- The conditions under which a state is refused, in the order they are checked. -/
def State.checks (s : State) : List (Bool × String) :=
  [ (s.window.length = 0, "block gas window cannot be nil or empty"),
    (s.window.length ≤ s.index,
      "index (" ++ toString s.index ++ ") out of range for window of length "
        ++ toString s.window.length),
    (s.baseGasPrice.units ≤ 0, "base gas price must be positive"),
    (s.learningRate.units ≤ 0, "learning rate must be positive") ]

def State.validateBasic (s : State) : Option String := firstError s.checks

def GenesisState.validateBasic (gs : GenesisState) : Option String :=
  gs.params.validateBasic <|> gs.state.validateBasic <|>
    if gs.params.window ≠ gs.state.window.length then
      some ("params.window (" ++ toString gs.params.window
        ++ ") does not match state.window length (" ++ toString gs.state.window.length ++ ")")
    else none

def initGenesis (gs : GenesisState) : KeeperM Unit :=
  match gs.validateBasic with
  | some text => crash text
  | none => set { params := gs.params, state := gs.state, enabledHeight := -1 : Keeper }

def exportGenesis (k : Keeper) : GenesisState := ⟨k.params, k.state⟩

theorem initGenesis_of_accepted {gs : GenesisState} (accepted : gs.validateBasic = none)
    (k : Keeper) :
    initGenesis gs k = .ok () ⟨gs.params, gs.state, -1⟩ := by
  rw [initGenesis, accepted]
  rfl

theorem GenesisState.validateBasic_eq_none {gs : GenesisState} :
    gs.validateBasic = none ↔ gs.params.validateBasic = none
      ∧ (gs.state.index < gs.state.window.length ∧ 0 < gs.state.baseGasPrice.units
        ∧ 0 < gs.state.learningRate.units)
      ∧ gs.params.window = gs.state.window.length := by
  have state : gs.state.validateBasic = none ↔ gs.state.index < gs.state.window.length
      ∧ 0 < gs.state.baseGasPrice.units ∧ 0 < gs.state.learningRate.units := by
    simp only [State.validateBasic, firstError_eq_none, State.checks, List.forall_mem_cons,
      decide_eq_false_iff_not, not_le, List.not_mem_nil, false_implies, implies_true, and_true]
    omega
  simp [GenesisState.validateBasic, state]

/-! ## Runs -/

/-- The minima a price and a learning rate can be reset to are positive. -/
def Params.Floored (p : Params) : Prop := 0 < p.minBaseGasPrice.units ∧ 0 < p.minLearningRate.units

instance (p : Params) : Decidable p.Floored := by
  unfold Params.Floored
  infer_instance

/-- The export of the keeper is accepted, under positive minima. -/
structure Restorable (k : Keeper) : Prop where
  accepted : (exportGenesis k).validateBasic = none
  floored : k.params.Floored

/-- An update moves a positive price and learning rate to positive ones. -/
theorem updated_positive {params : Params} {s : State} (maxBlockGas : Nat) (valid : params.Valid)
    (floored : params.Floored) (rate : 0 < s.learningRate.units) :
    let next := (s.updateLearningRate params maxBlockGas).updateBaseGasPrice params maxBlockGas
    0 < next.baseGasPrice.units ∧ 0 < next.learningRate.units := by
  obtain ⟨minPrice, minRate⟩ := floored
  have moved : 0 < (s.updateLearningRate params maxBlockGas).learningRate.units := by
    unfold State.updateLearningRate
    cases computed : s.newLearningRate params maxBlockGas with
    | none => exact minRate
    | some lr =>
      exact (lt_min minRate rate).trans_le (newLearningRate_bounds valid rate.le computed).1
  intro next
  show 0 < (State.updateBaseGasPrice _ _ _).baseGasPrice.units
    ∧ 0 < (State.updateBaseGasPrice _ _ _).learningRate.units
  unfold State.updateBaseGasPrice
  cases computed : (s.updateLearningRate params maxBlockGas).newBaseGasPrice params maxBlockGas with
  | none => exact ⟨minPrice, minRate⟩
  | some gasPrice => exact ⟨minPrice.trans_le (min_le_newBaseGasPrice computed), moved⟩

/-- Recording the gas of a block changes one slot at most. -/
theorem recordBlockGas_same (blockGas : Option Nat) (maxBlockGas : Nat) (state : State)
    (k : Keeper) :
    Ensures (recordBlockGas blockGas maxBlockGas state) k
      fun recorded k' => k' = k ∧ recorded.window.length = state.window.length
        ∧ recorded.learningRate = state.learningRate := by
  unfold recordBlockGas
  cases blockGas with
  | none => exact ⟨rfl, rfl, rfl⟩
  | some gas =>
    simp only [post_rules]
    exact fun _ => List.length_set

theorem updateDynamicfee_restorable (ctx : BlockContext) {k : Keeper} (held : Restorable k) :
    Ensures (updateDynamicfee ctx) k fun _ => Restorable := by
  obtain ⟨params, ⟨index, price, rate⟩, slots⟩ :=
    GenesisState.validateBasic_eq_none.mp held.accepted
  simp only [updateDynamicfee, post_rules]
  refine ⟨fun _ => ?_, fun _ => held⟩
  apply (recordBlockGas_same _ _ _ k).imp
  rintro recorded k' ⟨same, length, sameRate⟩
  obtain ⟨pricePos, ratePos⟩ := updated_positive (getMaxBlockGas ctx.maxGas k.params)
    (Params.valid_of_validateBasic params) held.floored (sameRate ▸ rate)
  intro _ _ _ _
  simp only [incrementHeight, post_rules, updateBaseGasPrice_window, updateLearningRate_window]
  refine fun nonempty => ⟨GenesisState.validateBasic_eq_none.mpr ?_, ?_⟩
  · rw [same]
    refine ⟨params, ⟨?_, pricePos, ratePos⟩, ?_⟩
    · show (_ + 1) % _ < (recorded.window.set _ 0).length
      rw [List.length_set]
      exact Nat.mod_lt _ (Nat.pos_of_ne_zero nonempty)
    · show k.params.window = (recorded.window.set _ 0).length
      rw [List.length_set, length]
      exact slots
  · rw [same]
    exact held.floored

/-- The condition on the parameters of an update. -/
def Op.Floored : Op → Prop
  | .endBlock _ => True
  | .updateParams _ msg => msg.params.validateBasic = none ∧ msg.params.Floored

instance : (op : Op) → Decidable op.Floored
  | .endBlock _ => instDecidableTrue
  | .updateParams _ _ => instDecidableAnd

theorem Op.exec_restorable (authority : String) {op : Op} (floored : op.Floored) {k : Keeper}
    (held : Restorable k) : Ensures (op.exec authority) k fun _ => Restorable := by
  cases op with
  | endBlock ctx => exact updateDynamicfee_restorable ctx held
  | updateParams blockHeight msg =>
    obtain ⟨accepted, minPrice, minRate⟩ := floored
    have fresh : ∀ height, Restorable ⟨msg.params, newState msg.params.window
        msg.params.minBaseGasPrice msg.params.minLearningRate, height⟩ := by
      intro height
      have slots := (List.length_replicate (n := msg.params.window) (a := 0)).symm
      have positive := (Params.valid_of_validateBasic accepted).windowPos
      refine ⟨GenesisState.validateBasic_eq_none.mpr ?_, minPrice, minRate⟩
      exact ⟨accepted, ⟨slots ▸ positive, minPrice, minRate⟩, slots⟩
    simp only [Op.exec, DynamicFee.updateParams, post_rules]
    exact fun _ _ => ⟨fun _ => fresh _, fun _ => fresh _⟩

/-- After the import of an accepted genesis state and a run of blocks and accepted updates,
all under positive minima, the export is accepted, and importing it restores the
parameters and the state. -/
theorem genesis_round_trips (authority : String) {gs : GenesisState} {before start : Keeper}
    (imported : initGenesis gs before = .ok () start) (positive : gs.params.Floored)
    (ops : List Op) (floored : ∀ op ∈ ops, op.Floored) :
    let k := runAll (Op.exec authority) ops start
    (exportGenesis k).validateBasic = none
      ∧ ∀ empty, ∃ restored, initGenesis (exportGenesis k) empty = .ok () restored
        ∧ restored.params = k.params ∧ restored.state = k.state := by
  have initial : Restorable start := by
    unfold initGenesis at imported
    cases accepted : gs.validateBasic with
    | some text =>
      rw [accepted] at imported
      cases imported
    | none =>
      rw [accepted] at imported
      cases imported
      exact ⟨accepted, positive⟩
  have reached : Restorable (runAll (Op.exec authority) ops start) := by
    clear imported
    induction ops generalizing start with
    | nil => exact initial
    | cons op rest ih =>
      obtain ⟨first, others⟩ := List.forall_mem_cons.mp floored
      exact ih others (transact_of_post initial (Op.exec_restorable authority first initial))
  exact ⟨reached.accepted,
    fun empty => ⟨_, initGenesis_of_accepted reached.accepted empty, rfl, rfl⟩⟩

/-- A new state with the minima of `sampleParams`. -/
def sampleGenesis : GenesisState := ⟨sampleParams, newState 2 .percent .percent⟩

/-- Accepted parameters that allow a learning rate of zero. -/
def unflooredParams : Params := { sampleParams with minLearningRate := .zero }

/-- After an accepted update to a minimal learning rate of zero the export is refused. -/
theorem unfloored_export_panics :
    (∀ k, initGenesis sampleGenesis k = .ok () ⟨sampleParams, sampleGenesis.state, -1⟩)
      ∧ unflooredParams.validateBasic = none
      ∧ let k := runAll (Op.exec "gov") [.updateParams 5 ⟨"gov", unflooredParams⟩]
          ⟨sampleParams, sampleGenesis.state, -1⟩
        (initGenesis (exportGenesis k)).fault? k = some (.panic "learning rate must be positive") :=
  ⟨initGenesis_of_accepted (by decide +kernel), by decide +kernel, by decide +kernel⟩

/-- An update under positive minima and a full block are restored. -/
theorem floored_export_is_restored :
    let start : Keeper := ⟨sampleParams, sampleGenesis.state, -1⟩
    let ops : List Op := [.updateParams 5 ⟨"gov", sampleParams⟩, .endBlock ⟨some 90000000, -1⟩]
    (exportGenesis (runAll (Op.exec "gov") ops start)).validateBasic = none := by
  have imported := initGenesis_of_accepted
    (by decide +kernel : sampleGenesis.validateBasic = none) ⟨sampleParams, sampleGenesis.state, 0⟩
  have positive : sampleGenesis.params.Floored := by decide
  exact (genesis_round_trips "gov" imported positive _ (by decide +kernel)).1

end AtomOneSdk.DynamicFee
