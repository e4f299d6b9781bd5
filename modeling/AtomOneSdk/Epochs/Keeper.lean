import AtomOneSdk.Lib.Action
import AtomOneSdk.Lib.Bytes
import AtomOneSdk.Lib.Store

/-!
Contract: the epochs module.

Owns: epoch records and their validation, `AddEpochInfo`, the hooks of a call run in
sequence with their errors joined, and `BeginBlocker`, the walk that starts and ends
epochs. The state of the modules behind the hooks is arbitrary, and so is what hooks do to
it; they have no access to the epochs.

Does **not** own: what the hooks do, and the width of the epoch counter.
-/

namespace AtomOneSdk.Epochs

open Lib Lib.Action

abbrev Identifier := List (Fin 256)

/-- Nanoseconds since the zero time. -/
abbrev Time := Int

structure EpochInfo where
  identifier : Identifier
  startTime : Time
  duration : Int
  currentEpoch : Int
  currentEpochStartTime : Time
  epochCountingStarted : Bool
  currentEpochStartHeight : Int
deriving DecidableEq, Repr

inductive EpochError where
  | emptyIdentifier
  | zeroDuration
  | negativeCurrentEpoch
  | negativeStartHeight
  | alreadyExists (identifier : Identifier)
  /-- Errors of hooks, joined. -/
  | hooks (reasons : List String)
deriving DecidableEq, Repr

structure Context where
  blockTime : Time
  blockHeight : Int
deriving DecidableEq, Repr

/-! ## Hooks -/

inductive Moment where
  | afterEpochEnd
  | beforeEpochStart
deriving DecidableEq, Repr

/-- A call of the hooks, with the block time it was made at. -/
structure Call where
  moment : Moment
  identifier : Identifier
  epochNumber : Int
  time : Time
deriving DecidableEq, Repr

/-- A module's hook: it may write the modules' state `H`, return an error or panic. -/
structure EpochHooks (H : Type) where
  afterEpochEnd : Identifier → Int → Action String H Unit
  beforeEpochStart : Identifier → Int → Action String H Unit

section Hooks

variable {H : Type}

def EpochHooks.run (hook : EpochHooks H) (call : Call) : Action String H Unit :=
  match call.moment with
  | .afterEpochEnd => hook.afterEpochEnd call.identifier call.epochNumber
  | .beforeEpochStart => hook.beforeEpochStart call.identifier call.epochNumber

/-- All hooks run, also behind one that failed; their errors are joined. -/
def runHooks (hooks : List (EpochHooks H)) (call : Call) : Action String H (List String) :=
  foldOver
    (fun errs hook => do
      match ← attempt (hook.run call) with
      | .ok _ => pure errs
      | .error reason => pure (errs ++ [reason]))
    hooks []

end Hooks

/-! ## The keeper -/

inductive Event where
  | epochEnd (epochNumber : Int)
  | epochStart (epochNumber : Int) (epochStartTime : Time)
deriving DecidableEq, Repr

structure State (H : Type) where
  epochs : Store Identifier EpochInfo
  /-- State of the modules behind the hooks. -/
  modules : H
  events : List Event
  /-- The calls of the hooks made so far. -/
  calls : List Call

abbrev EpochM (H α : Type) := Action EpochError (State H) α

section Keeper

variable {H : Type}

def EpochInfo.validate (epoch : EpochInfo) : EpochM H Unit := do
  failIf (epoch.identifier = []) .emptyIdentifier
  failIf (epoch.duration = 0) .zeroDuration
  failIf (epoch.currentEpoch < 0) .negativeCurrentEpoch
  failIf (epoch.currentEpochStartHeight < 0) .negativeStartHeight

/-- The start time of an epoch that is added: the block time if it is left unset. -/
def EpochInfo.initialized (ctx : Context) (epoch : EpochInfo) : EpochInfo :=
  let epoch := if epoch.startTime = 0 then { epoch with startTime := ctx.blockTime } else epoch
  if epoch.currentEpochStartHeight = 0 ∧ ¬ ctx.blockTime < epoch.startTime then
    { epoch with currentEpochStartHeight := ctx.blockHeight }
  else epoch

def addEpochInfo (ctx : Context) (epoch : EpochInfo) : EpochM H Unit := do
  epoch.validate
  failIf ((← get).epochs.has epoch.identifier = true) (.alreadyExists epoch.identifier)
  modify fun state =>
    { state with epochs := state.epochs.set epoch.identifier (epoch.initialized ctx) }

/-- A call of the hooks on a branch of the modules' state that is written when no hook
returned an error; an error is logged and dropped. -/
def callHooks (hooks : List (EpochHooks H)) (call : Call) : EpochM H Unit := do
  modify fun state => { state with calls := state.calls ++ [call] }
  ignoreError <| branched do
    let errs ← zoom State.modules (fun state modules => { state with modules := modules })
      (fun reason => EpochError.hooks [reason]) (runHooks hooks call)
    failIf (errs ≠ []) (.hooks errs)

def emit (event : Event) : EpochM H Unit :=
  modify fun state => { state with events := state.events ++ [event] }

def EpochInfo.first (epochInfo : EpochInfo) : EpochInfo :=
  { epochInfo with
      epochCountingStarted := true
      currentEpoch := 1
      currentEpochStartTime := epochInfo.startTime }

def EpochInfo.following (epochInfo : EpochInfo) : EpochInfo :=
  { epochInfo with
      currentEpoch := epochInfo.currentEpoch + 1
      currentEpochStartTime := epochInfo.currentEpochStartTime + epochInfo.duration }

/-- The start of an epoch: it is stored before the hooks run. -/
def startEpoch (hooks : List (EpochHooks H)) (ctx : Context) (epochInfo : EpochInfo) :
    EpochM H Unit := do
  emit (.epochStart epochInfo.currentEpoch epochInfo.currentEpochStartTime)
  modify fun state =>
    { state with epochs := state.epochs.set epochInfo.identifier epochInfo }
  callHooks hooks
    ⟨.beforeEpochStart, epochInfo.identifier, epochInfo.currentEpoch, ctx.blockTime⟩

/-- The round of `BeginBlocker` for one epoch. -/
def updateEpoch (hooks : List (EpochHooks H)) (ctx : Context) (epochInfo : EpochInfo) :
    EpochM H Unit := do
  if ctx.blockTime < epochInfo.startTime then pure ()
  else
    let shouldInitialEpochStart := !epochInfo.epochCountingStarted
    let epochEndTime := epochInfo.currentEpochStartTime + epochInfo.duration
    if ¬ (epochEndTime < ctx.blockTime ∨ shouldInitialEpochStart = true) then pure ()
    else
      let current := { epochInfo with currentEpochStartHeight := ctx.blockHeight }
      if shouldInitialEpochStart then startEpoch hooks ctx current.first
      else
        emit (.epochEnd current.currentEpoch)
        callHooks hooks
          ⟨.afterEpochEnd, current.identifier, current.currentEpoch, ctx.blockTime⟩
        startEpoch hooks ctx current.following

/-- The walk overwrites only the record it is at. -/
def beginBlocker (hooks : List (EpochHooks H)) (ctx : Context) : EpochM H Unit := do
  forEach (fun entry => updateEpoch hooks ctx entry.2) (← get).epochs.entries

/-! ## Runs -/

/-- The chain between operations: the context of the last block. -/
structure Chain (H : Type) where
  ctx : Context
  state : State H

inductive Op where
  | add (epoch : EpochInfo)
  | block (ctx : Context)
deriving DecidableEq, Repr

/-- `BeginBlocker` of a block; `none` when a hook panics. -/
def Chain.block (hooks : List (EpochHooks H)) (ctx : Context) (chain : Chain H) :
    Option (Chain H) :=
  match beginBlocker hooks ctx chain.state with
  | .ok _ state => some ⟨ctx, state⟩
  | .error _ _ => none

/-- An epoch that is refused changes nothing. -/
def Op.exec (hooks : List (EpochHooks H)) (chain : Chain H) : Op → Option (Chain H)
  | .add epoch => some ⟨chain.ctx, transact (addEpochInfo chain.ctx epoch) chain.state⟩
  | .block ctx => chain.block hooks ctx

def runOps (hooks : List (EpochHooks H)) : List Op → Chain H → Option (Chain H)
  | [], chain => some chain
  | op :: rest, chain => (op.exec hooks chain).bind (runOps hooks rest)

def Chain.start (ctx : Context) (modules : H) : Chain H :=
  ⟨ctx, { epochs := ∅, modules := modules, events := [], calls := [] }⟩

end Keeper

end AtomOneSdk.Epochs
