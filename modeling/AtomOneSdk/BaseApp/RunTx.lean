import AtomOneSdk.Lib.Action
import AtomOneSdk.Lib.Bytes
import AtomOneSdk.Lib.CacheStore

/-!
Contract: `runTx` of the base application.

Owns: the gas meters of the store module, the execution modes and their states, the events
of messages, and `runTx` with its two store branches, its deferred functions and its
recovery. The application's handlers are arbitrary: each reads the branch it is given and
the gas meter of its context, and returns the writes it made, the meter as it left it and
how it ended.

Does **not** own: any particular handler, and the consensus parameters of the context.
-/

namespace AtomOneSdk.BaseApp

open Lib Lib.Action

/-! ## Gas -/

/-- The value of a panic. -/
inductive Panic where
  | outOfGas (descriptor : String)
  | gasOverflow (descriptor : String)
  | other (reason : String)
deriving DecidableEq, Repr

def maxUint64 : Nat := 2 ^ 64 - 1

/-- The meters of the store module, and the one that counts nothing. -/
inductive GasMeter where
  | basic (limit consumed : Nat)
  | infinite (consumed : Nat)
  | noop
deriving DecidableEq, Repr

namespace GasMeter

def gasConsumed : GasMeter → Nat
  | .basic _ consumed => consumed
  | .infinite consumed => consumed
  | .noop => 0

def limit : GasMeter → Nat
  | .basic limit _ => limit
  | .infinite _ => maxUint64
  | .noop => 0

def gasConsumedToLimit : GasMeter → Nat
  | .basic limit consumed => if limit < consumed then limit else consumed
  | .infinite consumed => consumed
  | .noop => 0

def isOutOfGas : GasMeter → Bool
  | .basic limit consumed => limit ≤ consumed
  | .infinite _ => false
  | .noop => false

/-- The meter after `ConsumeGas`, and its panic. -/
def consumeGas (amount : Nat) (descriptor : String) : GasMeter → GasMeter × Option Panic
  | .basic limit consumed =>
    if maxUint64 < consumed + amount then (.basic limit maxUint64, some (.gasOverflow descriptor))
    else if limit < consumed + amount then
      (.basic limit (consumed + amount), some (.outOfGas descriptor))
    else (.basic limit (consumed + amount), none)
  | .infinite consumed =>
    if maxUint64 < consumed + amount then (.infinite 0, some (.gasOverflow descriptor))
    else (.infinite (consumed + amount), none)
  | .noop => (.noop, none)

end GasMeter

/-! ## Events -/

structure Event where
  type : String
  attributes : List (String × String)
deriving DecidableEq, Repr

def Event.appendAttributes (event : Event) (attributes : List (String × String)) : Event :=
  { event with attributes := event.attributes ++ attributes }

/-- Whether `GetAttributes` finds a key. -/
def hasAttribute (events : List Event) (key : String) : Bool :=
  events.any fun event => event.attributes.any fun pair => pair.1 = key

def getModuleNameFromTypeURL (input : String) : String :=
  match input.splitOn "." with
  | _ :: moduleName :: _ => moduleName
  | _ => ""

/-! ## The application -/

inductive ExecMode where
  | check
  | reCheck
  | simulate
  | prepareProposal
  | processProposal
  | voteExtension
  | verifyVoteExtension
  | finalize
deriving DecidableEq, Repr

/-- How a call ended. -/
inductive Outcome (α : Type) where
  | returned (value : α)
  | panicked (reason : Panic)

/-- A call of a handler: the writes it made before it ended, the meter of its context. -/
structure Ran (K V α : Type) where
  writes : List (Write K V)
  gasMeter : GasMeter
  outcome : Outcome α

/-- What handlers are told besides the store and the meter. -/
structure TxContext where
  mode : ExecMode
  txBytes : List (Fin 256)
deriving DecidableEq, Repr

/-- The context an ante handler returns. -/
structure NewCtx where
  gasMeter : GasMeter
  events : List Event
  priority : Int
deriving DecidableEq, Repr

structure AnteResult where
  /-- `none` for the zero context. -/
  newCtx : Option NewCtx
  err : Option String
deriving DecidableEq, Repr

/-- Result of one message; a response may be nil. -/
structure MsgResult where
  events : List Event
  msgResponses : List (Option (List (Fin 256)))
deriving DecidableEq, Repr

structure Result where
  data : List (Fin 256)
  events : List Event
  msgResponses : List (List (Fin 256))
deriving DecidableEq, Repr

inductive MempoolError where
  | txNotFound
  | other (reason : String)
deriving DecidableEq, Repr

abbrev Bytes := List (Fin 256)

/-- Codec, handlers and mempool of an application. -/
structure App (K V Tx Msg MsgV2 P : Type) [LinearOrder K] where
  txDecoder : Bytes → Outcome (Except String Tx)
  getMsgs : Tx → List Msg
  getMsgsV2 : Tx → Except String (List MsgV2)
  validateBasic : Msg → Outcome (Except String Unit)
  msgTypeURL : Msg → String
  getMsgV2Signers : MsgV2 → Except String (List (Option Bytes))
  bytesToString : Bytes → Except String String
  marshalData : List Bytes → Except String Bytes
  /-- The message router. -/
  handler : Msg → Option (TxContext → Store K V → GasMeter → Ran K V (Except String MsgResult))
  anteHandler : Option (TxContext → Tx → Store K V → GasMeter → Ran K V AnteResult)
  /-- The third argument tells whether the messages succeeded. -/
  postHandler :
    Option (TxContext → Tx → Bool → Store K V → GasMeter → Ran K V (Except String (List Event)))
  mempoolInsert : Int → Tx → P → Outcome (Except MempoolError Unit) × P
  mempoolRemove : Tx → P → Outcome (Except MempoolError Unit) × P
  /-- Custom recovery handlers, the last added first. -/
  recoveryHandlers : List (Panic → Option String)

inductive TxError where
  | noBlockGasLeft
  | decoding (reason : String)
  | noMessages
  | validateBasic (reason : String)
  | noMessageHandler (typeURL : String)
  | ante (reason : String)
  | mempool (reason : MempoolError)
  | removeFromMempool (reason : MempoolError)
  | getMsgsV2 (reason : String)
  | executeMessage (index : Nat) (reason : String)
  | createEvents (index : Nat) (reason : String)
  | nilMsgResponse (index : Nat) (typeURL : String)
  | marshalTxData (reason : String)
  | postHandler (reason : String)
  | joined (first second : TxError)
  | outOfGas (descriptor : String) (gasWanted gasUsed : Nat)
  | recoveredBy (reason : String)
  | recovered (panic : Panic)
deriving DecidableEq, Repr

/-- What ends the body of `runTx` early: a returned error or a panic. -/
inductive Abort where
  | err (reason : TxError)
  | panic (reason : Panic)
deriving DecidableEq, Repr

/-- Variables of a call of `runTx`. -/
structure Frame (K V P : Type) [LinearOrder K] where
  /-- The store of the context. -/
  store : Store K V
  /-- The branch the messages and the post handler run on. -/
  msCache : CacheStore K V
  mempool : P
  blockGasMeter : GasMeter
  /-- Gas meter, events and priority of the context. -/
  gasMeter : GasMeter
  events : List Event
  priority : Int
  gasWanted : Nat
  blockGasConsumed : Bool
  anteEvents : List Event
  result : Option Result

abbrev TxM (K V P α : Type) [LinearOrder K] := Action Abort (Frame K V P) α

section RunTx

variable {K V Tx Msg MsgV2 P : Type} [LinearOrder K]

/-- The value of a call that may panic or return an error. -/
def call {α : Type} (outcome : Outcome (Except String α)) (label : String → TxError) :
    TxM K V P α :=
  match outcome with
  | .panicked reason => crash (.panic reason)
  | .returned (.error reason) => fail (.err (label reason))
  | .returned (.ok value) => pure value

def callMempool (operation : P → Outcome (Except MempoolError Unit) × P) :
    TxM K V P (Except MempoolError Unit) := do
  let frame ← get
  let (outcome, mempool) := operation frame.mempool
  set { frame with mempool := mempool }
  match outcome with
  | .panicked reason => crash (.panic reason)
  | .returned value => pure value

def consumeBlockGas : TxM K V P Unit := do
  let frame ← get
  whenever (frame.blockGasConsumed = false) do
    let (meter, panic) :=
      frame.blockGasMeter.consumeGas frame.gasMeter.gasConsumedToLimit "block gas meter"
    set { frame with blockGasConsumed := true, blockGasMeter := meter }
    match panic with
    | some reason => crash (.panic reason)
    | none => pure ()

variable (app : App K V Tx Msg MsgV2 P)

def validateBasicTxMsgs (msgs : List Msg) : TxM K V P Unit := do
  failIf (msgs.isEmpty = true) (.err .noMessages)
  forEach (fun msg => call (app.validateBasic msg) .validateBasic) msgs

def routeMsgs (msgs : List Msg) : TxM K V P Unit :=
  forEach
    (fun msg => failIf ((app.handler msg).isNone = true)
      (.err (.noMessageHandler (app.msgTypeURL msg))))
    msgs

/-- The context the ante handler returned replaces the one it was given, the store apart. -/
def adoptCtx (newCtx : Option NewCtx) (frame : Frame K V P) : Frame K V P :=
  match newCtx with
  | none => frame
  | some newCtx =>
    { frame with
        gasMeter := newCtx.gasMeter
        events := newCtx.events
        priority := newCtx.priority }

/-- On recheck a transaction whose ante handler fails leaves the mempool. -/
def anteFailed (ctx : TxContext) (tx : Tx) (reason : String) : TxM K V P Unit := do
  whenever (ctx.mode = .reCheck) do
    match ← callMempool (app.mempoolRemove tx) with
    | .error mempoolErr => fail (.err (.joined (.ante reason) (.mempool mempoolErr)))
    | .ok _ => pure ()
  fail (.err (.ante reason))

def runAnte (ctx : TxContext) (tx : Tx) : TxM K V P Unit := do
  match app.anteHandler with
  | none => pure ()
  | some anteHandler =>
    let frame ← get
    let msCache := CacheStore.branch frame.store
    let ran := anteHandler ctx tx msCache.write frame.gasMeter
    set { frame with gasMeter := ran.gasMeter }
    match ran.outcome with
    | .panicked reason => crash (.panic reason)
    | .returned ante =>
      modify fun frame => adoptCtx ante.newCtx frame
      -- the gas meter is expected to be set by the ante handler
      modify fun frame => { frame with gasWanted := frame.gasMeter.limit }
      match ante.err with
      | some reason => anteFailed app ctx tx reason
      | none =>
        modify fun frame =>
          { frame with
              store := (msCache.applyAll ran.writes).write
              anteEvents := frame.events }

/-- Insertion into the mempool on check, removal from it on finalize. -/
def runMempool (ctx : TxContext) (tx : Tx) : TxM K V P Unit := do
  if ctx.mode = .check then
    match ← callMempool (app.mempoolInsert (← get).priority tx) with
    | .error reason => fail (.err (.mempool reason))
    | .ok _ => pure ()
  else if ctx.mode = .finalize then
    match ← callMempool (app.mempoolRemove tx) with
    | .error .txNotFound => pure ()
    | .error reason => fail (.err (.removeFromMempool reason))
    | .ok _ => pure ()

def createEvents (events : List Event) (msg : Msg) (msgV2 : MsgV2) :
    Except String (List Event) := do
  let eventMsgName := app.msgTypeURL msg
  let msgEvent : Event := ⟨"message", [("action", eventMsgName)]⟩
  let msgEvent ←
    match ← app.getMsgV2Signers msgV2 with
    | some signer :: _ =>
      let addrStr ← app.bytesToString signer
      pure (msgEvent.appendAttributes [("sender", addrStr)])
    | _ => pure msgEvent
  let moduleName := getModuleNameFromTypeURL eventMsgName
  let msgEvent :=
    if hasAttribute events "module" = false ∧ moduleName ≠ "" then
      msgEvent.appendAttributes [("module", moduleName)]
    else msgEvent
  pure (msgEvent :: events)

/-- One round of the loop of `runMsgs`. -/
def runMsg (ctx : TxContext) (msgsV2 : List MsgV2) (acc : List Event × List Bytes)
    (item : Msg × Nat) : TxM K V P (List Event × List Bytes) := do
  let (msg, i) := item
  let handler ← getOrFail (app.handler msg) (.err (.noMessageHandler (app.msgTypeURL msg)))
  let frame ← get
  let ran := handler ctx frame.msCache.write frame.gasMeter
  set { frame with msCache := frame.msCache.applyAll ran.writes, gasMeter := ran.gasMeter }
  let msgResult ← call ran.outcome (.executeMessage i)
  let msgV2 ← getOrCrash msgsV2[i]? (.panic (.other "index out of range"))
  let msgEvents ←
    call (.returned (createEvents app msgResult.events msg msgV2)) (.createEvents i)
  let msgEvents := msgEvents.map fun event => event.appendAttributes [("msg_index", toString i)]
  match msgResult.msgResponses with
  | [] => pure (acc.1 ++ msgEvents, acc.2)
  | none :: _ => fail (.err (.nilMsgResponse i (app.msgTypeURL msg)))
  | some msgResponse :: _ => pure (acc.1 ++ msgEvents, acc.2 ++ [msgResponse])

/-- Messages run only to finalize a block and to simulate. -/
def executesMsgs (mode : ExecMode) : Bool :=
  mode = .finalize || mode = .simulate

def runMsgs (ctx : TxContext) (msgs : List Msg) (msgsV2 : List MsgV2) : TxM K V P Result := do
  let items := if executesMsgs ctx.mode then msgs.zipIdx else []
  let (events, msgResponses) ← foldOver (runMsg app ctx msgsV2) items ([], [])
  let data ← call (.returned (app.marshalData msgResponses)) .marshalTxData
  pure { data := data, events := events, msgResponses := msgResponses }

/-- The messages of a transaction on a new branch. -/
def runTxMsgs (ctx : TxContext) (tx : Tx) : TxM K V P Result := do
  let msgsV2 ← call (.returned (app.getMsgsV2 tx)) .getMsgsV2
  runMsgs app ctx (app.getMsgs tx) msgsV2

/-- `errors.Join` with an error that may be nil. -/
def joinError (first : Option TxError) (second : TxError) : TxError :=
  match first with
  | none => second
  | some reason => .joined reason second

/-- The post handler runs whatever the messages returned. -/
def runPost (ctx : TxContext) (tx : Tx) (err : Option TxError) : TxM K V P Unit := do
  match app.postHandler with
  | none => pure ()
  | some postHandler =>
    let frame ← get
    let ran := postHandler ctx tx err.isNone frame.msCache.write frame.gasMeter
    set { frame with msCache := frame.msCache.applyAll ran.writes, gasMeter := ran.gasMeter }
    match ran.outcome with
    | .panicked reason => crash (.panic reason)
    | .returned (.error reason) =>
      modify fun frame => { frame with result := none }
      fail (.err (joinError err (.postHandler reason)))
    | .returned (.ok events) =>
      modify fun frame =>
        let result := frame.result.getD ⟨[], [], []⟩
        { frame with result := some { result with events := result.events ++ events } }

/-- The error behind an abort; only errors are caught here. -/
def Abort.toError : Abort → TxError
  | .err reason => reason
  | .panic reason => .recovered reason

def acceptTx (ctx : TxContext) : TxM K V P Tx := do
  let tx ← call (app.txDecoder ctx.txBytes) .decoding
  validateBasicTxMsgs app (app.getMsgs tx)
  routeMsgs app (app.getMsgs tx)
  pure tx

/-- The messages, with their error as a value. -/
def attemptMsgs (ctx : TxContext) (tx : Tx) : TxM K V P (Option TxError) := do
  match ← attempt (runTxMsgs app ctx tx) with
  | .ok result =>
    modify fun frame => { frame with result := some result }
    pure none
  | .error reason => pure (some reason.toError)

/-- The end of a call whose messages and post handler passed. -/
def commitTx (ctx : TxContext) : TxM K V P Unit := do
  whenever (ctx.mode = .finalize) do
    -- when block gas exceeds, this panics and the branch is not written
    consumeBlockGas
    modify fun frame => { frame with store := frame.msCache.write }
  modify fun frame =>
    if frame.anteEvents.isEmpty = false ∧ executesMsgs ctx.mode = true then
      { frame with
          result := frame.result.map fun result =>
            { result with events := frame.anteEvents ++ result.events } }
    else frame

/-- The messages and the post handler on a new branch. -/
def executeTx (ctx : TxContext) (tx : Tx) : TxM K V P Unit := do
  modify fun frame => { frame with msCache := CacheStore.branch frame.store }
  let err ← attemptMsgs app ctx tx
  runPost app ctx tx err
  match err with
  | some reason => fail (.err reason)
  | none => commitTx ctx

/-- The body of `runTx` behind its deferred functions. -/
def runTxBody (ctx : TxContext) : TxM K V P Unit := do
  let tx ← acceptTx app ctx
  runAnte app ctx tx
  runMempool app ctx tx
  executeTx app ctx tx

/-! ## Recovery -/

/-- The recovery chain: out of gas first, then the custom handlers, then the default. -/
def processRecovery (frame : Frame K V P) (panic : Panic) : TxError :=
  match panic with
  | .outOfGas descriptor => .outOfGas descriptor frame.gasWanted frame.gasMeter.gasConsumed
  | _ =>
    match app.recoveryHandlers.findSome? fun handler => handler panic with
    | some reason => .recoveredBy reason
    | none => .recovered panic

structure GasInfo where
  gasWanted : Nat
  gasUsed : Nat
deriving DecidableEq, Repr

structure TxOutcome where
  gInfo : GasInfo
  result : Option Result
  anteEvents : List Event
  err : Option TxError
deriving DecidableEq, Repr

/-- What `runTx` returns once its deferred functions ran. -/
def Frame.outcome (frame : Frame K V P) (fault : Option (Fault Abort)) : TxOutcome :=
  let gInfo : GasInfo := ⟨frame.gasWanted, frame.gasMeter.gasConsumed⟩
  match fault with
  | none => ⟨gInfo, frame.result, frame.anteEvents, none⟩
  | some (.error reason) => ⟨gInfo, frame.result, frame.anteEvents, some reason.toError⟩
  | some (.panic (.panic reason)) =>
    ⟨gInfo, none, frame.anteEvents, some (processRecovery app frame reason)⟩
  | some (.panic (.err reason)) => ⟨gInfo, none, frame.anteEvents, some reason⟩

/-! ## States of the modes -/

/-- State of an execution mode, with the block gas meter and events of its context. -/
structure ModeState (K V : Type) [LinearOrder K] where
  store : Store K V
  blockGasMeter : GasMeter
  events : List Event

structure AppState (K V P : Type) [LinearOrder K] where
  checkState : Option (ModeState K V)
  prepareProposalState : Option (ModeState K V)
  processProposalState : Option (ModeState K V)
  finalizeBlockState : Option (ModeState K V)
  mempool : P

def AppState.getState (state : AppState K V P) : ExecMode → Option (ModeState K V)
  | .finalize => state.finalizeBlockState
  | .prepareProposal => state.prepareProposalState
  | .processProposal => state.processProposalState
  | _ => state.checkState

def AppState.setState (state : AppState K V P) (mode : ExecMode) (written : ModeState K V) :
    AppState K V P :=
  match mode with
  | .finalize => { state with finalizeBlockState := some written }
  | .prepareProposal => { state with prepareProposalState := some written }
  | .processProposal => { state with processProposalState := some written }
  | _ => { state with checkState := some written }

def Frame.start (state : ModeState K V) (mempool : P) : Frame K V P where
  store := state.store
  msCache := CacheStore.branch state.store
  mempool := mempool
  blockGasMeter := state.blockGasMeter
  gasMeter := .infinite 0
  events := state.events
  priority := 0
  gasWanted := 0
  blockGasConsumed := false
  anteEvents := []
  result := none

/-- The body with the deferred charge of the block gas. -/
def runTxDeferred (ctx : TxContext) : TxM K V P Unit :=
  if ctx.mode = .finalize then deferring consumeBlockGas (runTxBody app ctx)
  else runTxBody app ctx

/-- The state a call leaves. In simulate mode the context's store is a branch of the check
state that is dropped. -/
def AppState.leave (state : AppState K V P) (mode : ExecMode) (current : ModeState K V)
    (frame : Frame K V P) : AppState K V P :=
  let store := if mode = .simulate then current.store else frame.store
  { state.setState mode { current with store := store, blockGasMeter := frame.blockGasMeter } with
      mempool := frame.mempool }

/-- `none` stands for a panic that leaves `runTx`: the mode has no state. -/
def runTx (mode : ExecMode) (txBytes : Bytes) (state : AppState K V P) :
    Option TxOutcome × AppState K V P :=
  match state.getState mode with
  | none => (none, state)
  | some current =>
    if mode = .finalize ∧ current.blockGasMeter.isOutOfGas then
      (some ⟨⟨0, 0⟩, none, [], some .noBlockGasLeft⟩, state)
    else
      match runTxDeferred app ⟨mode, txBytes⟩ (Frame.start current state.mempool) with
      | .ok _ frame => (some (frame.outcome app none), state.leave mode current frame)
      | .error fault frame =>
        (some (frame.outcome app (some fault)), state.leave mode current frame)

end RunTx

end AtomOneSdk.BaseApp
