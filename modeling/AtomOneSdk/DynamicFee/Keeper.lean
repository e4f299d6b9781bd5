import AtomOneSdk.Lib.Action
import AtomOneSdk.Lib.BoundedDec

/-!
Contract: the dynamic fee module (`types/params.go`, `types/state.go`,
`keeper/dynamicfee.go`, `keeper/msg_server.go`).

Owns: the parameters and their check, the window of block gas, the update of the
learning rate and of the base gas price with their recovered panics, the end blocker
with the log values it computes outside of any recover, and the update of the parameters.

Does **not** own: fees in other denominations and queries. Nil decimals are not
represented: `ValidateBasic` refuses them.
-/

namespace AtomOneSdk.DynamicFee

open Lib Lib.Action

/-! ## Parameters -/

structure Params where
  alpha : BoundedDec
  beta : BoundedDec
  gamma : BoundedDec
  minBaseGasPrice : BoundedDec
  targetBlockUtilization : BoundedDec
  defaultMaxBlockGas : Nat
  minLearningRate : BoundedDec
  maxLearningRate : BoundedDec
  window : Nat
  feeDenom : String
  enabled : Bool
deriving DecidableEq

def maxWindow : Nat := 1000000

def maxDefaultMaxBlockGas : Nat := 2 ^ 63 - 1

def windowExceeds (window : Nat) : String :=
  "window cannot exceed " ++ toString maxWindow ++ ", got " ++ toString window

/-- The text of the first check that fails. -/
def firstError : List (Bool × String) → Option String
  | [] => none
  | (violated, text) :: rest => if violated then some text else firstError rest

/-- The conditions under which parameters are refused, in the order they are checked. -/
def Params.checks (p : Params) : List (Bool × String) :=
  [ (p.window = 0, "window cannot be zero"),
    (maxWindow < p.window, windowExceeds p.window),
    (p.alpha.units < 0, "alpha cannot be nil must be between [0, inf)"),
    (p.beta.units < 0 ∨ BoundedDec.one.units < p.beta.units,
      "beta cannot be nil and must be between [0, 1]"),
    (p.gamma.units < 0 ∨ BoundedDec.half.units < p.gamma.units,
      "theta cannot be nil and must be between [0, 0.5]"),
    (p.minBaseGasPrice.units < 0,
      "min base gas price cannot be nil and must be greater than or equal to zero"),
    (p.targetBlockUtilization.units ≤ 0
        ∨ BoundedDec.one.units < p.targetBlockUtilization.units,
      "target block utilization must be between (0, 1]"),
    (p.defaultMaxBlockGas = 0, "default max block gas must be greater than 0"),
    (maxDefaultMaxBlockGas < p.defaultMaxBlockGas,
      "default max block gas must be less than or equal to " ++ toString maxDefaultMaxBlockGas),
    (p.minLearningRate.units < 0, "min learning rate cannot be negative or nil"),
    (p.maxLearningRate.units < 0, "max learning rate cannot be negative or nil"),
    (p.maxLearningRate.units < p.minLearningRate.units,
      "min learning rate cannot be greater than max learning rate"),
    (p.feeDenom = "", "fee denom must be set") ]

def Params.validateBasic (p : Params) : Option String := firstError p.checks

/-! ## State -/

structure State where
  baseGasPrice : BoundedDec
  learningRate : BoundedDec
  window : List Nat
  index : Nat
deriving DecidableEq

def newState (windowSize : Nat) (baseGasPrice learningRate : BoundedDec) : State where
  baseGasPrice := baseGasPrice
  learningRate := learningRate
  window := List.replicate windowSize 0
  index := 0

def decOfNat (value : Nat) : Option BoundedDec := BoundedDec.ofUnits? (Dec.ofInt value)

/-- The max block gas scaled by the target utilization; nothing where the code panics. -/
def getTargetBlockGas (maxBlockGas : Nat) (params : Params) : Option Nat := do
  let max ← decOfNat maxBlockGas
  let product ← max.mul params.targetBlockUtilization
  let target := Dec.truncateInt product.units
  pure (if 0 ≤ target ∧ target < 2 ^ 64 then target.toNat else 0)

namespace State

/-- The total of the window; it wraps around. -/
def windowTotal (s : State) : Nat := s.window.foldl (fun sum gas => (sum + gas) % 2 ^ 64) 0

def getAverageGas (s : State) (maxBlockGas : Nat) : Option BoundedDec := do
  let sum ← decOfNat s.windowTotal
  let multiple ← decOfNat s.window.length
  let max ← decOfNat maxBlockGas
  let divisor ← max.mul multiple
  sum.quo divisor

/-- An integer of at most 256 bits. -/
def checkedInt (value : Int) : Option Int :=
  if value.natAbs < 2 ^ 256 then some value else none

def getNetGas (s : State) (maxBlockGas : Nat) (params : Params) : Option Int := do
  let targetGas ← getTargetBlockGas maxBlockGas params
  s.window.foldlM
    (fun (net : Int) (gas : Nat) => do
      let diff ← checkedInt ((gas : Int) - targetGas)
      checkedInt (net + diff))
    0

/-- Whether the average is at most gamma, or at least one minus gamma. -/
def outsideBand (params : Params) (avg : BoundedDec) : Option Bool :=
  if avg.units ≤ params.gamma.units then some true
  else do
    let upper ← BoundedDec.one.sub params.gamma
    pure (decide (upper.units ≤ avg.units))

/-- The additive increase or multiplicative decrease of the learning rate. -/
def newLearningRate (s : State) (params : Params) (maxBlockGas : Nat) : Option BoundedDec := do
  let avg ← s.getAverageGas maxBlockGas
  let outside ← outsideBand params avg
  if outside then do
    let lr ← params.alpha.add s.learningRate
    pure (if params.maxLearningRate.units < lr.units then params.maxLearningRate else lr)
  else do
    let lr ← s.learningRate.mul params.beta
    pure (if lr.units < params.minLearningRate.units then params.minLearningRate else lr)

/-- A panic is recovered and resets the learning rate. -/
def updateLearningRate (s : State) (params : Params) (maxBlockGas : Nat) : State :=
  { s with learningRate := (s.newLearningRate params maxBlockGas).getD params.minLearningRate }

def newBaseGasPrice (s : State) (params : Params) (maxBlockGas : Nat) : Option BoundedDec := do
  let current ← s.window[s.index]?
  let currentBlockGas ← decOfNat current
  let target ← getTargetBlockGas maxBlockGas params
  let targetBlockGas ← decOfNat target
  let difference ← currentBlockGas.sub targetBlockGas
  let avgGas ← difference.quo targetBlockGas
  let change ← s.learningRate.mul avgGas
  let learningRateAdjustment ← BoundedDec.one.add change
  let gasPrice ← s.baseGasPrice.mul learningRateAdjustment
  pure (if gasPrice.units < params.minBaseGasPrice.units then params.minBaseGasPrice else gasPrice)

/-- A panic is recovered and resets price and learning rate. -/
def updateBaseGasPrice (s : State) (params : Params) (maxBlockGas : Nat) : State :=
  match s.newBaseGasPrice params maxBlockGas with
  | some gasPrice => { s with baseGasPrice := gasPrice }
  | none =>
    { s with baseGasPrice := params.minBaseGasPrice, learningRate := params.minLearningRate }

end State

/-! ## Keeper -/

structure Keeper where
  params : Params
  state : State
  enabledHeight : Int
deriving DecidableEq

abbrev KeeperM (α : Type) := Action String Keeper α

/-- What the end blocker reads from the context. -/
structure BlockContext where
  /-- Gas consumed according to the block gas meter, if there is one. -/
  blockGas : Option Nat
  /-- `MaxGas` of the consensus parameters. -/
  maxGas : Int
deriving DecidableEq

def getMaxBlockGas (maxGas : Int) (params : Params) : Nat :=
  if maxGas = 0 ∨ maxGas = -1 then params.defaultMaxBlockGas else (maxGas % 2 ^ 64).toNat

/-- Source the current slot from the block gas meter, clamped to the max block gas. -/
def recordBlockGas (blockGas : Option Nat) (maxBlockGas : Nat) (state : State) : KeeperM State :=
  match blockGas with
  | none => pure state
  | some gas => do
    crashIf (state.window.length ≤ state.index) "index out of range"
    pure { state with window := state.window.set state.index (min gas maxBlockGas) }

def incrementHeight (state : State) : KeeperM State := do
  crashIf (state.window.length = 0) "integer divide by zero"
  let index := (state.index + 1) % state.window.length
  pure { state with index := index, window := state.window.set index 0 }

def updateDynamicfee (ctx : BlockContext) : KeeperM Unit := do
  let k ← get
  whenever (k.params.enabled = true) do
    let maxBlockGas := getMaxBlockGas ctx.maxGas k.params
    let state ← recordBlockGas ctx.blockGas maxBlockGas k.state
    let state := state.updateLearningRate k.params maxBlockGas
    let state := state.updateBaseGasPrice k.params maxBlockGas
    -- the values of the log line are computed outside of any recover
    let _ ← getOrCrash (state.getAverageGas maxBlockGas) "GetAverageGas"
    let _ ← getOrCrash (state.getNetGas maxBlockGas k.params) "GetNetGas"
    let state ← incrementHeight state
    modify fun k => { k with state := state }

structure MsgUpdateParams where
  authority : String
  params : Params
deriving DecidableEq

def updateParams (authority : String) (blockHeight : Int) (msg : MsgUpdateParams) :
    KeeperM Unit := do
  failIf (msg.authority ≠ authority) "invalid authority to execute message"
  failIf (maxWindow < msg.params.window) (windowExceeds msg.params.window)
  let gotParams := (← get).params
  whenever (gotParams.enabled = false ∧ msg.params.enabled = true)
    (modify fun k => { k with enabledHeight := blockHeight })
  modify fun k =>
    { k with
        params := msg.params
        state := newState msg.params.window msg.params.minBaseGasPrice msg.params.minLearningRate }

/-- Operations of a run. -/
inductive Op where
  | endBlock (ctx : BlockContext)
  | updateParams (blockHeight : Int) (msg : MsgUpdateParams)
deriving DecidableEq

def Op.exec (authority : String) : Op → KeeperM Unit
  | .endBlock ctx => updateDynamicfee ctx
  | .updateParams blockHeight msg => DynamicFee.updateParams authority blockHeight msg

end AtomOneSdk.DynamicFee
