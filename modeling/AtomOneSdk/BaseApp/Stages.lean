import AtomOneSdk.BaseApp.RunTx

/-!
Contract: what the parts of `runTx` do.

Owns: what the ante handler, the messages and the post handler write when they pass, the
verdict on a transaction in terms of these, and for each part of the body whether it
passes and what it leaves in the frame.

Does **not** own: what the handlers do, and the call as a whole.
-/

namespace AtomOneSdk.BaseApp

open Lib Lib.Action

section Stages

variable {K V Tx Msg MsgV2 P : Type} [LinearOrder K] (app : App K V Tx Msg MsgV2 P)
  (ctx : TxContext)

/-! ## What each part writes when it passes -/

def Outcome.passes {α : Type} : Outcome (Except String α) → Bool
  | .returned (.ok _) => true
  | _ => false

/-- The transaction, if it is decoded, its messages are valid and all have a handler. -/
def accepted : Option Tx :=
  match app.txDecoder ctx.txBytes with
  | .returned (.ok tx) =>
    if (app.getMsgs tx).isEmpty = false
        ∧ (∀ msg ∈ app.getMsgs tx, (app.validateBasic msg).passes = true)
        ∧ ∀ msg ∈ app.getMsgs tx, (app.handler msg).isSome = true
    then some tx else none
  | _ => none

/-- The writes of a part that passed, and the gas meter it leaves. -/
structure Progress (K V : Type) where
  writes : List (Write K V)
  gasMeter : GasMeter

def antePasses (tx : Tx) (store : Store K V) (meter : GasMeter) : Option (Progress K V) :=
  match app.anteHandler with
  | none => some ⟨[], meter⟩
  | some anteHandler =>
    let ran := anteHandler ctx tx store meter
    match ran.outcome with
    | .returned ⟨newCtx, none⟩ =>
      some ⟨ran.writes, (newCtx.map (·.gasMeter)).getD ran.gasMeter⟩
    | _ => none

def removalPasses (tx : Tx) (mempool : P) : Bool :=
  match (app.mempoolRemove tx mempool).1 with
  | .returned (.ok _) => true
  | .returned (.error .txNotFound) => true
  | _ => false

/-- The response kept of a message; `none` when it is nil. -/
def MsgResult.response (result : MsgResult) : Option (List Bytes) :=
  match result.msgResponses with
  | [] => some []
  | none :: _ => none
  | some msgResponse :: _ => some [msgResponse]

def msgPasses (msgsV2 : List MsgV2) (item : Msg × Nat) (store : Store K V) (meter : GasMeter) :
    Option (Progress K V × List Bytes) :=
  match app.handler item.1 with
  | none => none
  | some handler =>
    let ran := handler ctx store meter
    match ran.outcome, msgsV2[item.2]? with
    | .returned (.ok result), some msgV2 =>
      match createEvents app result.events item.1 msgV2, result.response with
      | .ok _, some responses => some (⟨ran.writes, ran.gasMeter⟩, responses)
      | _, _ => none
    | _, _ => none

/-- Every message on the store the ones before it leave. -/
def msgsPass (msgsV2 : List MsgV2) :
    List (Msg × Nat) → Store K V → GasMeter → Option (Progress K V × List Bytes)
  | [], _, meter => some (⟨[], meter⟩, [])
  | item :: rest, store, meter =>
    match msgPasses app ctx msgsV2 item store meter with
    | none => none
    | some (first, responses) =>
      match msgsPass msgsV2 rest (applyWrites first.writes store) first.gasMeter with
      | none => none
      | some (later, more) =>
        some (⟨first.writes ++ later.writes, later.gasMeter⟩, responses ++ more)

def txMsgsPass (tx : Tx) (store : Store K V) (meter : GasMeter) : Option (Progress K V) :=
  match app.getMsgsV2 tx with
  | .error _ => none
  | .ok msgsV2 =>
    match msgsPass app ctx msgsV2
      (if executesMsgs ctx.mode then (app.getMsgs tx).zipIdx else []) store meter with
    | none => none
    | some (progress, responses) =>
      match app.marshalData responses with
      | .error _ => none
      | .ok _ => some progress

def postPasses (tx : Tx) (store : Store K V) (meter : GasMeter) : Option (Progress K V) :=
  match app.postHandler with
  | none => some ⟨[], meter⟩
  | some postHandler =>
    let ran := postHandler ctx tx true store meter
    match ran.outcome with
    | .returned (.ok _) => some ⟨ran.writes, ran.gasMeter⟩
    | _ => none

/-- The block gas meter after the charge, and the panic of the charge. -/
def GasMeter.charged (blockGasMeter meter : GasMeter) : GasMeter × Option Panic :=
  blockGasMeter.consumeGas meter.gasConsumedToLimit "block gas meter"

/-! ## The verdict -/

inductive Verdict (K V : Type) where
  /-- Decoding, basic validation, routing or the ante handler failed. -/
  | unchanged
  /-- The mempool, a message, the post handler or the charge failed. -/
  | anteOnly (anteWrites : List (Write K V))
  | applied (anteWrites msgWrites postWrites : List (Write K V))

def Verdict.store (start : Store K V) : Verdict K V → Store K V
  | .unchanged => start
  | .anteOnly anteWrites => applyWrites anteWrites start
  | .applied anteWrites msgWrites postWrites =>
    applyWrites (anteWrites ++ msgWrites ++ postWrites) start

def Verdict.isApplied : Verdict K V → Bool
  | .applied _ _ _ => true
  | _ => false

def verdictOf (tx : Tx) (store : Store K V) (blockGasMeter : GasMeter) (mempool : P)
    (ante : Progress K V) : Verdict K V :=
  if removalPasses app tx mempool = false then .anteOnly ante.writes
  else
    let branch := applyWrites ante.writes store
    match txMsgsPass app ctx tx branch ante.gasMeter with
    | none => .anteOnly ante.writes
    | some msgs =>
      match postPasses app ctx tx (applyWrites msgs.writes branch) msgs.gasMeter with
      | none => .anteOnly ante.writes
      | some post =>
        if (blockGasMeter.charged post.gasMeter).2 = none then
          .applied ante.writes msgs.writes post.writes
        else .anteOnly ante.writes

/-- The transaction and what its ante handler wrote, if it passed. -/
def anteStage (store : Store K V) : Option (Tx × Progress K V) :=
  (accepted app ctx).bind fun tx =>
    (antePasses app ctx tx store (.infinite 0)).map fun ante => (tx, ante)

def verdict (current : ModeState K V) (mempool : P) : Verdict K V :=
  match anteStage app ctx current.store with
  | none => .unchanged
  | some (tx, ante) => verdictOf app ctx tx current.store current.blockGasMeter mempool ante

end Stages

/-! ## The parts of the body -/

section Parts

variable {K V Tx Msg MsgV2 P : Type} [LinearOrder K] {app : App K V Tx Msg MsgV2 P}
  {ctx : TxContext} {frame : Frame K V P}

@[simp] theorem post_call {α : Type} {outcome : Outcome (Except String α)}
    {label : String → TxError} {holds : α → Frame K V P → Prop}
    {stops : Fault Abort → Frame K V P → Prop} :
    Post (call outcome label) frame holds stops
      ↔ match outcome with
        | .panicked reason => stops (.panic (.panic reason)) frame
        | .returned (.error reason) => stops (.error (.err (label reason))) frame
        | .returned (.ok value) => holds value frame := by
  unfold call
  split <;> simp

abbrev Unwritten (frame : Frame K V P) (checked : Prop) : Frame K V P → Prop :=
  fun next => next = frame ∧ checked

/-- A loop of checks passes when every check does. -/
theorem forEach_checks {body : Msg → TxM K V P Unit} {passes : Msg → Prop}
    (check : ∀ msg, Post (body msg) frame (fun _ => Unwritten frame (passes msg))
      (fun _ => Unwritten frame (¬ passes msg))) (msgs : List Msg) :
    Post (forEach body msgs) frame (fun _ => Unwritten frame (∀ msg ∈ msgs, passes msg))
      (fun _ => Unwritten frame (¬ ∀ msg ∈ msgs, passes msg)) := by
  induction msgs with
  | nil => exact ⟨rfl, fun msg member => nomatch member⟩
  | cons msg rest ih =>
    rw [forEach, post_bind]
    apply (check msg).mono
    · intro _ next passed
      rw [passed.1]
      apply ih.mono
      · intro _ last all
        refine ⟨all.1, fun other member => ?_⟩
        rcases List.mem_cons.mp member with here | further
        · rw [here]
          exact passed.2
        · exact all.2 other further
      · intro _ last some
        exact ⟨some.1, fun all => some.2 fun other member =>
          all other (List.mem_cons_of_mem msg member)⟩
    · intro _ next failed
      exact ⟨failed.1, fun all => failed.2 (all msg List.mem_cons_self)⟩

theorem validateBasicTxMsgs_spec (msgs : List Msg) :
    Post (validateBasicTxMsgs app msgs) frame
      (fun _ => Unwritten frame
        (msgs.isEmpty = false ∧ ∀ msg ∈ msgs, (app.validateBasic msg).passes = true))
      (fun _ => Unwritten frame
        (¬ (msgs.isEmpty = false ∧ ∀ msg ∈ msgs, (app.validateBasic msg).passes = true))) := by
  simp only [validateBasicTxMsgs, post_rules]
  refine ⟨fun empty => ⟨rfl, fun both => ?_⟩, fun nonempty => ?_⟩
  · rw [empty] at both
    cases both.1
  · have checks := @forEach_checks K V Msg P _ frame
      (fun msg => call (app.validateBasic msg) .validateBasic)
      (fun msg => (app.validateBasic msg).passes = true) (fun msg => by
        rw [post_call]
        unfold Outcome.passes
        cases app.validateBasic msg with
        | panicked reason => exact ⟨rfl, Bool.false_ne_true⟩
        | returned value =>
          cases value with
          | error reason => exact ⟨rfl, Bool.false_ne_true⟩
          | ok value => exact ⟨rfl, rfl⟩) msgs
    apply checks.mono
    · exact fun _ next all => ⟨all.1, by simpa using nonempty, all.2⟩
    · exact fun _ next some => ⟨some.1, fun both => some.2 both.2⟩

theorem routeMsgs_spec (msgs : List Msg) :
    Post (routeMsgs app msgs) frame
      (fun _ => Unwritten frame (∀ msg ∈ msgs, (app.handler msg).isSome = true))
      (fun _ => Unwritten frame (¬ ∀ msg ∈ msgs, (app.handler msg).isSome = true)) := by
  apply forEach_checks
  intro msg
  rw [post_failIf]
  cases app.handler msg with
  | none => exact ⟨fun _ => ⟨rfl, Bool.false_ne_true⟩, fun absent => absurd rfl absent⟩
  | some handler => exact ⟨fun absent => (nomatch absent), fun _ => ⟨rfl, rfl⟩⟩

/-- A part that changed neither the context's store nor the block gas. -/
structure Kept (frame next : Frame K V P) : Prop where
  store : next.store = frame.store
  blockGasMeter : next.blockGasMeter = frame.blockGasMeter
  blockGasConsumed : next.blockGasConsumed = frame.blockGasConsumed

theorem Kept.refl (frame : Frame K V P) : Kept frame frame := ⟨rfl, rfl, rfl⟩

theorem Kept.trans {mid next : Frame K V P} (first : Kept frame mid) (second : Kept mid next) :
    Kept frame next :=
  ⟨second.store.trans first.store, second.blockGasMeter.trans first.blockGasMeter,
    second.blockGasConsumed.trans first.blockGasConsumed⟩

theorem callMempool_spec (operation : P → Outcome (Except MempoolError Unit) × P) :
    Post (callMempool operation) frame
      (fun value next => Kept frame next ∧ next.gasMeter = frame.gasMeter
        ∧ (operation frame.mempool).1 = .returned value)
      (fun _ next => Kept frame next
        ∧ ∀ value, (operation frame.mempool).1 ≠ .returned value) := by
  simp only [callMempool, post_rules]
  cases ended : (operation frame.mempool).1 with
  | panicked reason => exact ⟨⟨rfl, rfl, rfl⟩, by simp⟩
  | returned value => exact ⟨⟨rfl, rfl, rfl⟩, rfl, rfl⟩

/-- The context behind the ante handler. -/
structure AfterAnte (app : App K V Tx Msg MsgV2 P) (ctx : TxContext) (tx : Tx)
    (frame : Frame K V P) (ante : Progress K V) (next : Frame K V P) : Prop where
  passes : antePasses app ctx tx frame.store frame.gasMeter = some ante
  store : next.store = applyWrites ante.writes frame.store
  gasMeter : next.gasMeter = ante.gasMeter
  mempool : next.mempool = frame.mempool
  blockGasMeter : next.blockGasMeter = frame.blockGasMeter
  blockGasConsumed : next.blockGasConsumed = frame.blockGasConsumed

theorem kept_adoptCtx (newCtx : Option NewCtx) (frame : Frame K V P) :
    Kept frame (adoptCtx newCtx frame) ∧ (adoptCtx newCtx frame).mempool = frame.mempool
      ∧ (adoptCtx newCtx frame).gasMeter = (newCtx.map (·.gasMeter)).getD frame.gasMeter := by
  cases newCtx with
  | none => exact ⟨Kept.refl frame, rfl, rfl⟩
  | some newCtx => exact ⟨⟨rfl, rfl, rfl⟩, rfl, rfl⟩

theorem anteFailed_spec (tx : Tx) (reason : String) :
    Post (anteFailed app ctx tx reason) frame (fun _ _ => False) (fun _ => Kept frame) := by
  simp only [anteFailed, post_rules]
  refine ⟨fun _ => ?_, fun _ => Kept.refl frame⟩
  apply (callMempool_spec (app.mempoolRemove tx)).mono
  · intro value next called
    cases value with
    | error mempoolErr => exact called.1
    | ok value => exact called.1
  · exact fun _ next called => called.1

theorem runAnte_spec (tx : Tx) :
    Post (runAnte app ctx tx) frame
      (fun _ next => ∃ ante, AfterAnte app ctx tx frame ante next)
      (fun _ next => antePasses app ctx tx frame.store frame.gasMeter = none
        ∧ Kept frame next) := by
  unfold runAnte antePasses
  cases handler : app.anteHandler with
  | none =>
    refine ⟨⟨[], frame.gasMeter⟩, ?_, rfl, rfl, rfl, rfl, rfl⟩
    rw [antePasses, handler]
  | some anteHandler =>
    simp only [post_rules, CacheStore.write_branch]
    generalize isRan : anteHandler ctx tx frame.store frame.gasMeter = ran
    obtain ⟨writes, gasMeter, outcome⟩ := ran
    cases outcome with
    | panicked reason => exact ⟨rfl, rfl, rfl, rfl⟩
    | returned ante =>
      simp only [post_rules]
      obtain ⟨newCtx, err⟩ := ante
      obtain ⟨kept, mempool, meter⟩ :=
        kept_adoptCtx newCtx { frame with gasMeter := gasMeter }
      cases err with
      | some reason =>
        apply (anteFailed_spec tx reason).mono
        · exact fun _ _ impossible => impossible.elim
        · intro _ next failed
          exact ⟨rfl, failed.store.trans kept.store,
            failed.blockGasMeter.trans kept.blockGasMeter,
            failed.blockGasConsumed.trans kept.blockGasConsumed⟩
      | none =>
        refine ⟨⟨writes, (newCtx.map (·.gasMeter)).getD gasMeter⟩, ?_, ?_, meter, mempool,
          kept.blockGasMeter, kept.blockGasConsumed⟩
        · rw [antePasses, handler]
          simp only [isRan]
        · exact CacheStore.write_applyAll writes (CacheStore.branch frame.store)

theorem runMempool_spec (tx : Tx) :
    Post (runMempool app ctx tx) frame
      (fun _ next => Kept frame next ∧ next.gasMeter = frame.gasMeter
        ∧ (ctx.mode = .finalize → removalPasses app tx frame.mempool = true))
      (fun _ next => Kept frame next
        ∧ (ctx.mode = .finalize → removalPasses app tx frame.mempool = false)) := by
  unfold runMempool
  rw [post_ite]
  refine ⟨fun isCheck => ?_, fun _ => ?_⟩
  · have notFinalize : ctx.mode ≠ .finalize := by
      rw [isCheck]
      decide
    simp only [post_rules]
    apply (callMempool_spec _).mono
    · intro value next called
      cases value with
      | error reason => exact ⟨called.1, fun isFinalize => absurd isFinalize notFinalize⟩
      | ok value =>
        exact ⟨called.1, called.2.1, fun isFinalize => absurd isFinalize notFinalize⟩
    · exact fun _ next called => ⟨called.1, fun isFinalize => absurd isFinalize notFinalize⟩
  · rw [post_ite]
    refine ⟨fun _ => ?_, fun other => ?_⟩
    · rw [post_bind]
      unfold removalPasses
      apply (callMempool_spec (app.mempoolRemove tx)).mono
      · intro value next called
        rw [called.2.2]
        cases value with
        | error reason =>
          cases reason with
          | txNotFound => exact ⟨called.1, called.2.1, fun _ => rfl⟩
          | other reason => exact ⟨called.1, fun _ => rfl⟩
        | ok value => exact ⟨called.1, called.2.1, fun _ => rfl⟩
      · intro _ next called
        refine ⟨called.1, fun _ => ?_⟩
        cases ended : (app.mempoolRemove tx frame.mempool).1 with
        | panicked reason => rfl
        | returned value => exact absurd ended (called.2 value)
    · exact ⟨Kept.refl frame, rfl, fun isFinalize => absurd isFinalize other⟩

/-- The branch behind messages that passed. -/
structure AfterRun (frame : Frame K V P) (progress : Progress K V) (next : Frame K V P) :
    Prop where
  kept : Kept frame next
  branch : next.msCache.write = applyWrites progress.writes frame.msCache.write
  gasMeter : next.gasMeter = progress.gasMeter

theorem runMsg_spec (msgsV2 : List MsgV2) (acc : List Event × List Bytes) (item : Msg × Nat) :
    Post (runMsg app ctx msgsV2 acc item) frame
      (fun acc' next => ∃ progress responses,
        msgPasses app ctx msgsV2 item frame.msCache.write frame.gasMeter
            = some (progress, responses)
          ∧ acc'.2 = acc.2 ++ responses ∧ AfterRun frame progress next)
      (fun _ next =>
        msgPasses app ctx msgsV2 item frame.msCache.write frame.gasMeter = none
          ∧ Kept frame next) := by
  obtain ⟨msg, i⟩ := item
  simp only [runMsg, post_rules, post_call, msgPasses]
  refine ⟨fun handler found => ?_, fun absent => ?_⟩
  · simp only [found]
    generalize isRan : handler ctx frame.msCache.write frame.gasMeter = ran
    obtain ⟨writes, gasMeter, outcome⟩ := ran
    cases outcome with
    | panicked reason => exact ⟨rfl, rfl, rfl, rfl⟩
    | returned value =>
      cases value with
      | error reason => exact ⟨rfl, rfl, rfl, rfl⟩
      | ok result =>
        refine ⟨fun msgV2 isMsg => ?_, fun noMsg => ?_⟩
        · simp only [isMsg]
          cases created : createEvents app result.events msg msgV2 with
          | error reason => exact ⟨rfl, rfl, rfl, rfl⟩
          | ok events =>
            simp only [MsgResult.response]
            have run : AfterRun frame ⟨writes, gasMeter⟩
                { frame with
                    msCache := frame.msCache.applyAll writes
                    gasMeter := gasMeter } :=
              ⟨⟨rfl, rfl, rfl⟩, CacheStore.write_applyAll writes frame.msCache, rfl⟩
            cases result.msgResponses with
            | nil => exact ⟨_, _, rfl, (List.append_nil _).symm, run⟩
            | cons response rest =>
              cases response with
              | none => exact ⟨rfl, run.kept⟩
              | some response => exact ⟨_, _, rfl, rfl, run⟩
        · simp only [noMsg]
          exact ⟨trivial, rfl, rfl, rfl⟩
  · simp only [absent]
    exact ⟨trivial, Kept.refl frame⟩

/-- By induction on the messages: each runs on what the ones before it wrote. -/
theorem runMsgs_loop (msgsV2 : List MsgV2) (items : List (Msg × Nat)) :
    ∀ (acc : List Event × List Bytes) (frame : Frame K V P),
      Post (foldOver (runMsg app ctx msgsV2) items acc) frame
        (fun acc' next => ∃ progress responses,
          msgsPass app ctx msgsV2 items frame.msCache.write frame.gasMeter
              = some (progress, responses)
            ∧ acc'.2 = acc.2 ++ responses ∧ AfterRun frame progress next)
        (fun _ next =>
          msgsPass app ctx msgsV2 items frame.msCache.write frame.gasMeter = none
            ∧ Kept frame next) := by
  induction items with
  | nil =>
    intro acc frame
    exact ⟨_, _, rfl, (List.append_nil _).symm, Kept.refl frame, rfl, rfl⟩
  | cons item rest ih =>
    intro acc frame
    rw [foldOver, post_bind, msgsPass]
    apply (runMsg_spec msgsV2 acc item).mono
    · intro mid next passed
      obtain ⟨first, responses, passes, collected, after⟩ := passed
      have later := ih mid next
      rw [after.branch, after.gasMeter] at later
      apply later.mono
      · intro acc' last done
        obtain ⟨progress, more, rest, collected', afterRest⟩ := done
        simp only [passes, rest]
        refine ⟨_, _, rfl, ?_, after.kept.trans afterRest.kept, ?_, afterRest.gasMeter⟩
        · rw [collected', collected, List.append_assoc]
        · rw [afterRest.branch, after.branch, applyWrites_append]
      · intro _ last stopped
        simp only [passes, stopped.1]
        exact ⟨trivial, after.kept.trans stopped.2⟩
    · intro _ next failed
      simp only [failed.1]
      exact ⟨trivial, failed.2⟩

theorem runTxMsgs_spec (tx : Tx) :
    Post (runTxMsgs app ctx tx) frame
      (fun _ next => ∃ progress,
        txMsgsPass app ctx tx frame.msCache.write frame.gasMeter = some progress
          ∧ AfterRun frame progress next)
      (fun _ next => txMsgsPass app ctx tx frame.msCache.write frame.gasMeter = none
        ∧ Kept frame next) := by
  simp only [runTxMsgs, runMsgs, post_bind, post_call, txMsgsPass]
  cases app.getMsgsV2 tx with
  | error reason => exact ⟨rfl, Kept.refl frame⟩
  | ok msgsV2 =>
    dsimp only
    apply (runMsgs_loop msgsV2 _ _ frame).mono
    · intro acc next passed
      obtain ⟨progress, responses, passes, collected, after⟩ := passed
      rw [List.nil_append] at collected
      simp only [passes, collected]
      cases app.marshalData responses with
      | error reason => exact ⟨rfl, after.kept⟩
      | ok data => exact ⟨progress, rfl, after⟩
    · intro _ next failed
      simp only [failed.1]
      exact ⟨trivial, failed.2⟩

theorem runPost_spec (tx : Tx) (err : Option TxError) :
    Post (runPost app ctx tx err) frame
      (fun _ next => Kept frame next ∧ (err = none → ∃ progress,
        postPasses app ctx tx frame.msCache.write frame.gasMeter = some progress
          ∧ AfterRun frame progress next))
      (fun _ next => Kept frame next
        ∧ (err = none → postPasses app ctx tx frame.msCache.write frame.gasMeter = none)) := by
  unfold runPost postPasses
  cases app.postHandler with
  | none => exact ⟨Kept.refl frame, fun _ => ⟨_, rfl, Kept.refl frame, rfl, rfl⟩⟩
  | some postHandler =>
    simp only [post_rules]
    cases err with
    | some reason =>
      cases (postHandler ctx tx (some reason).isNone frame.msCache.write
          frame.gasMeter).outcome with
      | panicked panic => exact ⟨⟨rfl, rfl, rfl⟩, by simp⟩
      | returned value =>
        cases value with
        | error failed => exact ⟨⟨rfl, rfl, rfl⟩, by simp⟩
        | ok events => exact ⟨⟨rfl, rfl, rfl⟩, by simp⟩
    | none =>
      show Post _ _ _ _
      generalize isRan : postHandler ctx tx (none : Option TxError).isNone frame.msCache.write
        frame.gasMeter = ran
      rw [show postHandler ctx tx true frame.msCache.write frame.gasMeter = ran from isRan]
      obtain ⟨writes, gasMeter, outcome⟩ := ran
      cases outcome with
      | panicked panic => exact ⟨⟨rfl, rfl, rfl⟩, fun _ => rfl⟩
      | returned value =>
        cases value with
        | error failed => exact ⟨⟨rfl, rfl, rfl⟩, fun _ => rfl⟩
        | ok events =>
          exact ⟨⟨rfl, rfl, rfl⟩, fun _ => ⟨_, rfl, ⟨rfl, rfl, rfl⟩,
            CacheStore.write_applyAll writes frame.msCache, rfl⟩⟩

theorem acceptTx_spec :
    Post (acceptTx app ctx) frame
      (fun tx next => next = frame ∧ accepted app ctx = some tx)
      (fun _ next => next = frame ∧ accepted app ctx = none) := by
  simp only [acceptTx, post_bind, post_call, accepted]
  cases app.txDecoder ctx.txBytes with
  | panicked reason => exact ⟨trivial, rfl⟩
  | returned value =>
    cases value with
    | error reason => exact ⟨trivial, rfl⟩
    | ok tx =>
      apply (validateBasicTxMsgs_spec (app.getMsgs tx)).mono
      · intro _ next valid
        rw [valid.1]
        apply (routeMsgs_spec (app.getMsgs tx)).mono
        · intro _ last routed
          exact ⟨routed.1, if_pos ⟨valid.2.1, valid.2.2, routed.2⟩⟩
        · intro _ last unrouted
          exact ⟨unrouted.1, if_neg fun all => unrouted.2 all.2.2⟩
      · intro _ next invalid
        exact ⟨invalid.1, if_neg fun all => invalid.2 ⟨all.1, all.2.1⟩⟩

theorem attemptMsgs_spec (tx : Tx) :
    Post (attemptMsgs app ctx tx) frame
      (fun err next => Kept frame next ∧ (match err with
        | none => ∃ progress,
          txMsgsPass app ctx tx frame.msCache.write frame.gasMeter = some progress
            ∧ AfterRun frame progress next
        | some _ => txMsgsPass app ctx tx frame.msCache.write frame.gasMeter = none))
      (fun _ next => Kept frame next
        ∧ txMsgsPass app ctx tx frame.msCache.write frame.gasMeter = none) := by
  simp only [attemptMsgs, post_bind, post_attempt]
  apply (runTxMsgs_spec tx).mono
  · intro result next passed
    obtain ⟨progress, passes, after⟩ := passed
    have kept : Kept frame { next with result := some result } :=
      ⟨after.kept.store, after.kept.blockGasMeter, after.kept.blockGasConsumed⟩
    exact ⟨kept, progress, passes, kept, after.branch, after.gasMeter⟩
  · intro fault next failed
    cases fault with
    | error reason => exact ⟨failed.2, failed.1⟩
    | panic reason => exact ⟨failed.2, failed.1⟩

/-- The block gas meter was charged once, with the gas of the context's meter. -/
structure Charged (frame next : Frame K V P) : Prop where
  consumed : next.blockGasConsumed = true
  meter : next.blockGasMeter = (frame.blockGasMeter.charged next.gasMeter).1

theorem consumeBlockGas_spec (unconsumed : frame.blockGasConsumed = false) :
    Post consumeBlockGas frame
      (fun _ next => (frame.blockGasMeter.charged frame.gasMeter).2 = none
        ∧ next = { frame with
            blockGasConsumed := true
            blockGasMeter := (frame.blockGasMeter.charged frame.gasMeter).1 })
      (fun _ next => (frame.blockGasMeter.charged frame.gasMeter).2 ≠ none
        ∧ next = { frame with
            blockGasConsumed := true
            blockGasMeter := (frame.blockGasMeter.charged frame.gasMeter).1 }) := by
  simp only [consumeBlockGas, post_bind, post_get, post_whenever, GasMeter.charged]
  refine ⟨fun _ => ?_, fun consumed => absurd unconsumed consumed⟩
  simp only [post_set]
  cases (frame.blockGasMeter.consumeGas frame.gasMeter.gasConsumedToLimit "block gas meter").2 with
  | none => exact ⟨rfl, rfl⟩
  | some reason => exact ⟨by simp, rfl⟩

/-- The events of the ante handler are added to the result only. -/
theorem post_addEvents {holds : Frame K V P → Prop} {stops : Fault Abort → Frame K V P → Prop}
    (result : ∀ result, holds { frame with result := result }) :
    Post (modify fun frame : Frame K V P =>
        if frame.anteEvents.isEmpty = false ∧ executesMsgs ctx.mode = true then
          { frame with
              result := frame.result.map fun result =>
                { result with events := frame.anteEvents ++ result.events } }
        else frame) frame (fun _ => holds) stops := by
  rw [post_modify]
  split_ifs
  · exact result _
  · exact result frame.result

theorem commitTx_finalize (isFinalize : ctx.mode = .finalize)
    (unconsumed : frame.blockGasConsumed = false) :
    Post (commitTx ctx) frame
      (fun _ next => (frame.blockGasMeter.charged frame.gasMeter).2 = none
        ∧ next.store = frame.msCache.write ∧ Charged frame next)
      (fun _ next => (frame.blockGasMeter.charged frame.gasMeter).2 ≠ none
        ∧ next.store = frame.store ∧ Charged frame next) := by
  rw [commitTx, post_bind, post_whenever]
  refine ⟨fun _ => ?_, fun other => absurd isFinalize other⟩
  rw [post_bind]
  apply (consumeBlockGas_spec unconsumed).mono
  · intro _ next charged
    rw [post_modify, charged.2]
    apply post_addEvents
    exact fun _ => ⟨charged.1, rfl, rfl, rfl⟩
  · intro _ next charged
    rw [charged.2]
    exact ⟨charged.1, rfl, rfl, rfl⟩

theorem commitTx_other (other : ctx.mode ≠ .finalize) :
    Post (commitTx ctx) frame (fun _ => Kept frame) (fun _ _ => False) := by
  rw [commitTx, post_bind, post_whenever]
  refine ⟨fun isFinalize => absurd isFinalize other, fun _ => ?_⟩
  apply post_addEvents
  exact fun _ => ⟨rfl, rfl, rfl⟩

/-- A part that wrote neither the store nor the block gas yet. -/
structure Uncharged (frame next : Frame K V P) : Prop where
  unconsumed : next.blockGasConsumed = false
  meter : next.blockGasMeter = frame.blockGasMeter

/-- What happens behind the ante handler to finalize a block. -/
theorem executeTx_finalize (isFinalize : ctx.mode = .finalize) (tx : Tx)
    (unconsumed : frame.blockGasConsumed = false) :
    Post (executeTx app ctx tx) frame
      (fun _ next => ∃ msgs post,
        txMsgsPass app ctx tx frame.store frame.gasMeter = some msgs
          ∧ postPasses app ctx tx (applyWrites msgs.writes frame.store) msgs.gasMeter = some post
          ∧ (frame.blockGasMeter.charged post.gasMeter).2 = none
          ∧ next.store = applyWrites (msgs.writes ++ post.writes) frame.store
          ∧ Charged frame next)
      (fun _ next => next.store = frame.store ∧ (Uncharged frame next ∨ Charged frame next)
        ∧ ∀ msgs post, txMsgsPass app ctx tx frame.store frame.gasMeter = some msgs →
          postPasses app ctx tx (applyWrites msgs.writes frame.store) msgs.gasMeter = some post →
          (frame.blockGasMeter.charged post.gasMeter).2 ≠ none) := by
  have uncharged : ∀ {mid next : Frame K V P}, Kept frame mid → Kept mid next →
      Uncharged frame next := fun first second =>
    ⟨(second.blockGasConsumed.trans first.blockGasConsumed).trans unconsumed,
      second.blockGasMeter.trans first.blockGasMeter⟩
  simp only [executeTx, post_rules]
  apply (attemptMsgs_spec tx).mono
  · intro err next ran
    obtain ⟨keptMsgs, ran⟩ := ran
    have kept : Kept frame next :=
      ⟨keptMsgs.store, keptMsgs.blockGasMeter, keptMsgs.blockGasConsumed⟩
    apply (runPost_spec tx err).mono
    · intro _ last posted
      obtain ⟨keptPost, posted⟩ := posted
      cases err with
      | some reason =>
        -- the post handler passed, but the messages did not
        refine ⟨keptPost.store.trans kept.store, Or.inl (uncharged kept keptPost), ?_⟩
        intro msgs post passes
        rw [show txMsgsPass app ctx tx frame.store frame.gasMeter = none from ran] at passes
        cases passes
      | none =>
        obtain ⟨msgs, msgsPassed, afterMsgs⟩ := ran
        obtain ⟨post, postPassed, afterPost⟩ := posted rfl
        have branch : next.msCache.write = applyWrites msgs.writes frame.store := afterMsgs.branch
        rw [branch, afterMsgs.gasMeter] at postPassed
        have start := uncharged kept keptPost
        have meter : last.gasMeter = post.gasMeter := afterPost.gasMeter
        apply (commitTx_finalize isFinalize start.unconsumed).mono
        · intro _ final committed
          obtain ⟨passes, store, charged⟩ := committed
          rw [start.meter, meter] at passes
          refine ⟨msgs, post, msgsPassed, postPassed, passes, ?_, charged.consumed, ?_⟩
          · rw [store, afterPost.branch, branch, applyWrites_append]
          · rw [charged.meter, start.meter]
        · intro _ final refused
          obtain ⟨panics, store, charged⟩ := refused
          rw [start.meter, meter] at panics
          refine ⟨store.trans (keptPost.store.trans kept.store),
            Or.inr ⟨charged.consumed, by rw [charged.meter, start.meter]⟩, ?_⟩
          intro msgs' post' passes posts
          have sameMsgs : msgs = msgs' := some_unique msgsPassed passes
          rw [← sameMsgs] at posts
          have samePost : post = post' := some_unique postPassed posts
          rw [← samePost]
          exact panics
    · intro _ last failed
      obtain ⟨keptPost, failed⟩ := failed
      refine ⟨keptPost.store.trans kept.store, Or.inl (uncharged kept keptPost), ?_⟩
      intro msgs post passes posts
      cases err with
      | some reason =>
        rw [show txMsgsPass app ctx tx frame.store frame.gasMeter = none from ran] at passes
        cases passes
      | none =>
        obtain ⟨msgs', msgsPassed, afterMsgs⟩ := ran
        have same : msgs' = msgs := some_unique msgsPassed passes
        have branch : next.msCache.write = applyWrites msgs'.writes frame.store := afterMsgs.branch
        have none := failed rfl
        rw [branch, afterMsgs.gasMeter, same, posts] at none
        cases none
  · intro _ next failed
    obtain ⟨keptMsgs, failed⟩ := failed
    refine ⟨keptMsgs.store, Or.inl ⟨keptMsgs.blockGasConsumed.trans unconsumed,
      keptMsgs.blockGasMeter⟩, ?_⟩
    intro msgs post passes
    rw [show txMsgsPass app ctx tx frame.store frame.gasMeter = none from failed] at passes
    cases passes

/-- In the other modes the branch of the messages is dropped. -/
theorem executeTx_other (other : ctx.mode ≠ .finalize) (tx : Tx) :
    Post (executeTx app ctx tx) frame (fun _ => Kept frame)
      (fun _ => Kept frame) := by
  simp only [executeTx, post_rules]
  apply (attemptMsgs_spec tx).mono
  · intro err next ran
    have kept : Kept frame next :=
      ⟨ran.1.store, ran.1.blockGasMeter, ran.1.blockGasConsumed⟩
    apply (runPost_spec tx err).mono
    · intro _ last posted
      cases err with
      | some reason => exact kept.trans posted.1
      | none =>
        exact (commitTx_other other).safe
          fun _ final committed => (kept.trans posted.1).trans committed
    · exact fun _ last failed => kept.trans failed.1
  · intro _ next failed
    exact ⟨failed.1.store, failed.1.blockGasMeter, failed.1.blockGasConsumed⟩

end Parts

end AtomOneSdk.BaseApp
