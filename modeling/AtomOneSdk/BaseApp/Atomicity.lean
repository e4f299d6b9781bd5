import AtomOneSdk.BaseApp.Stages

/-!
Contract: `runTx` applies a transaction as a whole or not at all.

Owns: that in every mode `runTx` leaves the store the verdict on the transaction says, and
to finalize a block charges the block gas meter once.

Does **not** own: the parts of the body.
-/

namespace AtomOneSdk.BaseApp

open Lib Lib.Action

/-! ## A whole call -/

section Whole

variable {K V Tx Msg MsgV2 P : Type} [LinearOrder K] {app : App K V Tx Msg MsgV2 P}
  {ctx : TxContext} {current : ModeState K V} {mempool : P}

/-- Mempool, messages, post handler and charge behind an ante handler that passed. -/
theorem behindAnte_finalize (isFinalize : ctx.mode = .finalize) {tx : Tx} {ante : Progress K V}
    {frame : Frame K V P} (after : AfterAnte app ctx tx (Frame.start current mempool) ante frame) :
    Post (runMempool app ctx tx >>= fun _ => executeTx app ctx tx) frame
      (fun _ next =>
        (verdictOf app ctx tx current.store current.blockGasMeter mempool ante).isApplied = true
        ∧ next.store = (verdictOf app ctx tx current.store current.blockGasMeter mempool
            ante).store current.store
        ∧ Charged (Frame.start current mempool) next)
      (fun _ next =>
        (verdictOf app ctx tx current.store current.blockGasMeter mempool ante).isApplied = false
        ∧ next.store = (verdictOf app ctx tx current.store current.blockGasMeter mempool
            ante).store current.store
        ∧ (Uncharged (Frame.start current mempool) next
          ∨ Charged (Frame.start current mempool) next)) := by
  have isMempool : frame.mempool = mempool := after.mempool
  have isStore : frame.store = applyWrites ante.writes current.store := after.store
  have isMeter : frame.blockGasMeter = current.blockGasMeter := after.blockGasMeter
  have unconsumed : frame.blockGasConsumed = false := after.blockGasConsumed
  rw [post_bind]
  apply (runMempool_spec tx).mono
  · intro _ next removed
    obtain ⟨kept, meter, removes⟩ := removed
    have removal := removes isFinalize
    rw [isMempool] at removal
    have store : next.store = applyWrites ante.writes current.store := kept.store.trans isStore
    have gasMeter : next.gasMeter = ante.gasMeter := meter.trans after.gasMeter
    have blockGasMeter := kept.blockGasMeter.trans isMeter
    apply (executeTx_finalize isFinalize tx (kept.blockGasConsumed.trans unconsumed)).mono
    · intro _ last executed
      obtain ⟨msgs, post, msgsPassed, postPassed, charges, written, charged⟩ := executed
      rw [store, gasMeter] at msgsPassed
      rw [store] at postPassed written
      rw [blockGasMeter] at charges
      have applied : verdictOf app ctx tx current.store current.blockGasMeter mempool ante
          = .applied ante.writes msgs.writes post.writes := by
        simp only [verdictOf, removal, msgsPassed, postPassed, charges, Bool.true_eq_false,
          if_false, if_true]
      rw [applied]
      refine ⟨rfl, ?_, charged.consumed, ?_⟩
      · rw [written, ← applyWrites_append, Verdict.store, List.append_assoc]
      · rw [charged.meter, blockGasMeter]
        rfl
    · intro _ last failed
      obtain ⟨unwritten, gas, refused⟩ := failed
      rw [store, gasMeter, blockGasMeter] at refused
      have anteOnly : verdictOf app ctx tx current.store current.blockGasMeter mempool ante
          = .anteOnly ante.writes := by
        simp only [verdictOf, removal, Bool.true_eq_false, if_false]
        split
        next => rfl
        next msgs msgsPassed =>
          split
          next => rfl
          next post postPassed => exact if_neg (refused msgs post msgsPassed postPassed)
      rw [anteOnly]
      refine ⟨rfl, unwritten.trans store, ?_⟩
      rcases gas with uncharged | charged
      · exact Or.inl ⟨uncharged.unconsumed, uncharged.meter.trans blockGasMeter⟩
      · refine Or.inr ⟨charged.consumed, ?_⟩
        rw [charged.meter, blockGasMeter]
        rfl
  · intro _ next failed
    obtain ⟨kept, fails⟩ := failed
    have removal := fails isFinalize
    rw [isMempool] at removal
    have anteOnly : verdictOf app ctx tx current.store current.blockGasMeter mempool ante
        = .anteOnly ante.writes := if_pos removal
    rw [anteOnly]
    exact ⟨rfl, kept.store.trans isStore, Or.inl
      ⟨kept.blockGasConsumed.trans unconsumed, kept.blockGasMeter.trans isMeter⟩⟩

theorem runTxBody_finalize (isFinalize : ctx.mode = .finalize) :
    Post (runTxBody app ctx) (Frame.start current mempool)
      (fun _ next => (verdict app ctx current mempool).isApplied = true
        ∧ next.store = (verdict app ctx current mempool).store current.store
        ∧ Charged (Frame.start current mempool) next)
      (fun _ next => (verdict app ctx current mempool).isApplied = false
        ∧ next.store = (verdict app ctx current mempool).store current.store
        ∧ (Uncharged (Frame.start current mempool) next
          ∨ Charged (Frame.start current mempool) next)) := by
  simp only [runTxBody, post_bind]
  apply acceptTx_spec.mono
  · intro tx next isAccepted
    obtain ⟨same, isAccepted⟩ := isAccepted
    rw [same]
    apply (runAnte_spec tx).mono
    · intro _ next passed
      obtain ⟨ante, after⟩ := passed
      have stage : verdict app ctx current mempool
          = verdictOf app ctx tx current.store current.blockGasMeter mempool ante := by
        have passes : antePasses app ctx tx current.store (.infinite 0) = some ante := after.passes
        simp only [verdict, anteStage, isAccepted, Option.bind_some, passes, Option.map_some]
      rw [stage]
      exact (post_bind).mp (behindAnte_finalize isFinalize after)
    · intro _ next failed
      have stage : verdict app ctx current mempool = .unchanged := by
        have fails : antePasses app ctx tx current.store (.infinite 0) = none := failed.1
        simp only [verdict, anteStage, isAccepted, Option.bind_some, fails, Option.map_none]
      rw [stage]
      exact ⟨rfl, failed.2.store, Or.inl ⟨failed.2.blockGasConsumed, failed.2.blockGasMeter⟩⟩
  · intro _ next rejected
    have stage : verdict app ctx current mempool = .unchanged := by
      simp only [verdict, anteStage, rejected.2, Option.bind_none]
    rw [stage, rejected.1]
    exact ⟨rfl, rfl, Or.inl ⟨rfl, rfl⟩⟩

/-- In the other modes the store keeps what a passed ante handler wrote, if anything. -/
theorem runTxBody_other (other : ctx.mode ≠ .finalize) :
    let left := fun next : Frame K V P =>
      next.blockGasMeter = current.blockGasMeter
        ∧ (next.store = current.store ∨ ∃ tx ante,
            anteStage app ctx current.store = some (tx, ante)
              ∧ next.store = applyWrites ante.writes current.store)
    Post (runTxBody app ctx) (Frame.start current mempool) (fun _ => left) (fun _ => left) := by
  intro left
  simp only [runTxBody, post_bind]
  apply acceptTx_spec.mono
  · intro tx next isAccepted
    obtain ⟨same, isAccepted⟩ := isAccepted
    rw [same]
    apply (runAnte_spec tx).mono
    · intro _ next passed
      obtain ⟨ante, after⟩ := passed
      have stage : anteStage app ctx current.store = some (tx, ante) := by
        have passes : antePasses app ctx tx current.store (.infinite 0) = some ante := after.passes
        simp only [anteStage, isAccepted, Option.bind_some, passes, Option.map_some]
      have leaves : ∀ {last : Frame K V P}, Kept next last → left last := fun kept =>
        ⟨kept.blockGasMeter.trans after.blockGasMeter,
          Or.inr ⟨tx, ante, stage, kept.store.trans after.store⟩⟩
      apply (runMempool_spec tx).mono
      · intro _ mid removed
        apply (executeTx_other other tx).mono
        · exact fun _ last kept => leaves (removed.1.trans kept)
        · exact fun _ last kept => leaves (removed.1.trans kept)
      · exact fun _ last failed => leaves failed.1
    · exact fun _ last failed => ⟨failed.2.blockGasMeter, Or.inl failed.2.store⟩
  · intro _ next rejected
    rw [rejected.1]
    exact ⟨rfl, Or.inl rfl⟩

theorem consumeBlockGas_again {frame : Frame K V P} (consumed : frame.blockGasConsumed = true) :
    Post consumeBlockGas frame (fun _ next => next = frame) (fun _ _ => False) := by
  simp only [consumeBlockGas, post_bind, post_get, post_whenever]
  refine ⟨fun unconsumed => ?_, fun _ => trivial⟩
  rw [consumed] at unconsumed
  cases unconsumed

/-- The variables of a call as its body leaves them, with the final context of the transaction. -/
def finalFrame (app : App K V Tx Msg MsgV2 P) (ctx : TxContext) (current : ModeState K V)
    (mempool : P) : Frame K V P :=
  (runTxBody app ctx).stateAfter (Frame.start current mempool)

/-- The block gas meter was charged once, with the gas of the final context. -/
structure ChargedFinally (app : App K V Tx Msg MsgV2 P) (ctx : TxContext)
    (current : ModeState K V) (mempool : P) (next : Frame K V P) : Prop where
  final : next.gasMeter = (finalFrame app ctx current mempool).gasMeter
  charged : next.blockGasMeter = (current.blockGasMeter.charged next.gasMeter).1

/-- With the deferred charge, the block gas meter is charged once however the body ends. -/
theorem runTxDeferred_finalize (isFinalize : ctx.mode = .finalize) :
    Post (runTxDeferred app ctx) (Frame.start current mempool)
      (fun _ next => (verdict app ctx current mempool).isApplied = true
        ∧ next.store = (verdict app ctx current mempool).store current.store
        ∧ ChargedFinally app ctx current mempool next)
      (fun _ next => (verdict app ctx current mempool).isApplied = false
        ∧ next.store = (verdict app ctx current mempool).store current.store
        ∧ ChargedFinally app ctx current mempool next) := by
  rw [runTxDeferred, if_pos isFinalize, post_deferring]
  apply (runTxBody_finalize isFinalize).ran.mono
  · rintro _ next ⟨⟨applied, store, charged⟩, ran⟩
    have final : next.gasMeter = (finalFrame app ctx current mempool).gasMeter := by
      rw [finalFrame, stateAfter, ran]
    apply (consumeBlockGas_again charged.consumed).mono
    · intro _ last same
      rw [same]
      exact ⟨applied, store, final, charged.meter⟩
    · exact fun _ _ impossible => impossible.elim
  · rintro _ next ⟨⟨notApplied, store, gas⟩, ran⟩
    have final : next.gasMeter = (finalFrame app ctx current mempool).gasMeter := by
      rw [finalFrame, stateAfter, ran]
    rcases gas with uncharged | charged
    · -- the charge of the deferred function
      have left : ∀ {last : Frame K V P}, last = { next with
          blockGasConsumed := true
          blockGasMeter := (next.blockGasMeter.charged next.gasMeter).1 } →
          last.store = (verdict app ctx current mempool).store current.store
            ∧ ChargedFinally app ctx current mempool last := by
        intro last same
        rw [same]
        exact ⟨store, final, by rw [uncharged.meter]; rfl⟩
      apply (consumeBlockGas_spec uncharged.unconsumed).mono
      · exact fun _ last charged => ⟨notApplied, left charged.2⟩
      · exact fun _ last charged => ⟨notApplied, left charged.2⟩
    · apply (consumeBlockGas_again charged.consumed).mono
      · intro _ last same
        rw [same]
        exact ⟨notApplied, store, final, charged.meter⟩
      · exact fun _ _ impossible => impossible.elim

/-- What a call of `runTx` that was not refused leaves of the state of its mode: the store
and the block gas meter. To finalize, that meter is charged once with the gas the meter of the
final context consumed, up to its limit. -/
def Leaves (app : App K V Tx Msg MsgV2 P) (ctx : TxContext) (current : ModeState K V)
    (mempool : P) (outcome : TxOutcome) (store : Store K V) (blockGasMeter : GasMeter) : Prop :=
  match ctx.mode with
  | .finalize =>
    store = (verdict app ctx current mempool).store current.store
      ∧ (outcome.err = none ↔ (verdict app ctx current mempool).isApplied = true)
      ∧ outcome.gInfo.gasUsed = (finalFrame app ctx current mempool).gasMeter.gasConsumed
      ∧ blockGasMeter
        = (current.blockGasMeter.charged (finalFrame app ctx current mempool).gasMeter).1
  | .simulate => store = current.store ∧ blockGasMeter = current.blockGasMeter
  | _ =>
    blockGasMeter = current.blockGasMeter
      ∧ (store = current.store ∨ ∃ tx ante,
          anteStage app ctx current.store = some (tx, ante)
            ∧ store = applyWrites ante.writes current.store)

/-- The outcome of a call: nothing but the state of its mode and the mempool changes. -/
def Settled (app : App K V Tx Msg MsgV2 P) (ctx : TxContext) (state : AppState K V P)
    (current : ModeState K V) (ended : Option TxOutcome × AppState K V P) : Prop :=
  ∃ outcome, ended.1 = some outcome ∧
    if ctx.mode = .finalize ∧ current.blockGasMeter.isOutOfGas then
      outcome.err = some .noBlockGasLeft ∧ ended.2 = state
    else
      ∃ store blockGasMeter mempool,
        ended.2 = { state.setState ctx.mode
            { current with store := store, blockGasMeter := blockGasMeter } with
              mempool := mempool }
          ∧ Leaves app ctx current state.mempool outcome store blockGasMeter

theorem outcome_err_ne (frame : Frame K V P) (fault : Fault Abort) :
    (frame.outcome app (some fault)).err ≠ none := by
  cases fault with
  | error reason => exact Option.some_ne_none _
  | panic reason =>
    cases reason with
    | err reason => exact Option.some_ne_none _
    | panic reason => exact Option.some_ne_none _

theorem outcome_gasUsed (frame : Frame K V P) (fault : Option (Fault Abort)) :
    (frame.outcome app fault).gInfo.gasUsed = frame.gasMeter.gasConsumed := by
  cases fault with
  | none => rfl
  | some fault =>
    cases fault with
    | error reason => rfl
    | panic reason => cases reason <;> rfl

/-- What the body leaves in its frame is what the call leaves. -/
def FrameLeaves (app : App K V Tx Msg MsgV2 P) (ctx : TxContext) (current : ModeState K V)
    (mempool : P) (fault : Option (Fault Abort)) (frame : Frame K V P) : Prop :=
  Leaves app ctx current mempool (frame.outcome app fault)
    (if ctx.mode = .simulate then current.store else frame.store) frame.blockGasMeter

theorem runTxDeferred_leaves (ctx : TxContext) :
    Post (runTxDeferred app ctx) (Frame.start current mempool)
      (fun _ => FrameLeaves app ctx current mempool none)
      (fun fault => FrameLeaves app ctx current mempool (some fault)) := by
  unfold FrameLeaves Leaves
  obtain ⟨mode, txBytes⟩ := ctx
  by_cases isFinalize : mode = .finalize
  · have spec := @runTxDeferred_finalize K V Tx Msg MsgV2 P _ app ⟨mode, txBytes⟩ current mempool
      isFinalize
    subst isFinalize
    apply spec.mono
    · intro _ frame applied
      obtain ⟨isApplied, store, final, charged⟩ := applied
      rw [← final]
      exact ⟨store, ⟨fun _ => isApplied, fun _ => rfl⟩, rfl, charged⟩
    · intro fault frame stopped
      obtain ⟨notApplied, store, final, charged⟩ := stopped
      rw [← final]
      refine ⟨store, ⟨fun noError => ?_, fun isApplied => ?_⟩, outcome_gasUsed frame _, charged⟩
      · exact absurd noError (outcome_err_ne frame fault)
      · rw [notApplied] at isApplied
        cases isApplied
  · have spec := @runTxBody_other K V Tx Msg MsgV2 P _ app ⟨mode, txBytes⟩ current mempool
      isFinalize
    rw [runTxDeferred, if_neg isFinalize]
    apply spec.mono
    · intro _ frame left
      cases mode with
      | finalize => exact absurd rfl isFinalize
      | simulate => exact ⟨rfl, left.1⟩
      | _ => exact left
    · intro _ frame left
      cases mode with
      | finalize => exact absurd rfl isFinalize
      | simulate => exact ⟨rfl, left.1⟩
      | _ => exact left

/-- `runTx` settles every transaction as its verdict says. -/
theorem runTx_is_atomic {mode : ExecMode} {txBytes : Bytes} {state : AppState K V P}
    (found : state.getState mode = some current) :
    Settled app ⟨mode, txBytes⟩ state current (runTx app mode txBytes state) := by
  have leaves := @runTxDeferred_leaves K V Tx Msg MsgV2 P _ app current state.mempool
    ⟨mode, txBytes⟩
  unfold Settled runTx
  simp only [found]
  by_cases refused : mode = .finalize ∧ current.blockGasMeter.isOutOfGas = true
  · simp only [if_pos refused]
    exact ⟨_, rfl, rfl, trivial⟩
  · simp only [if_neg refused]
    cases ran : runTxDeferred app ⟨mode, txBytes⟩ (Frame.start current state.mempool) with
    | ok value frame => exact ⟨_, rfl, _, _, _, rfl, leaves.of_ok ran⟩
    | error fault frame => exact ⟨_, rfl, _, _, _, rfl, leaves.of_error ran⟩

end Whole

/-! ## A sample application -/

/-- Messages are numbers: each writes itself, and 13 fails behind its write. -/
def sampleApp : App Nat Nat (List Nat) Nat Unit Unit where
  txDecoder := fun txBytes => .returned (.ok (txBytes.map Fin.val))
  getMsgs := id
  getMsgsV2 := fun tx => .ok (tx.map fun _ => ())
  validateBasic := fun _ => .returned (.ok ())
  msgTypeURL := fun _ => "/sample.Msg"
  getMsgV2Signers := fun _ => .ok []
  bytesToString := fun _ => .ok ""
  marshalData := fun responses => .ok responses.flatten
  handler := fun msg => some fun _ _ _ =>
    { writes := [.set msg msg]
      gasMeter := .basic 100 50
      outcome := if msg = 13 then .returned (.error "unlucky") else .returned (.ok ⟨[], []⟩) }
  anteHandler := some fun _ _ _ _ =>
    { writes := [.set 0 1]
      gasMeter := .infinite 0
      outcome := .returned ⟨some ⟨.basic 100 10, [], 0⟩, none⟩ }
  postHandler := none
  mempoolInsert := fun _ _ pool => (.returned (.ok ()), pool)
  mempoolRemove := fun _ pool => (.returned (.error .txNotFound), pool)
  recoveryHandlers := []

def sampleMode : ModeState Nat Nat := ⟨∅, .basic 1000 0, []⟩

def sampleState : AppState Nat Nat Unit :=
  ⟨some sampleMode, none, none, some sampleMode, ()⟩

theorem sample_tx_is_atomic :
    Settled sampleApp ⟨.finalize, [7, 13]⟩ sampleState sampleMode
      (runTx sampleApp .finalize [7, 13] sampleState) :=
  runTx_is_atomic rfl

/-- The store and the gas charged after a transaction. -/
def sampleStore (txBytes : Bytes) : Option (List (Nat × Nat) × Nat) :=
  (runTx sampleApp .finalize txBytes sampleState).2.finalizeBlockState.map fun current =>
    (current.store.entries, current.blockGasMeter.gasConsumed)

example : sampleStore [7, 13] = some ([(0, 1)], 50) := by decide +kernel

example : sampleStore [7, 8] = some ([(0, 1), (7, 7), (8, 8)], 50) := by decide +kernel

end AtomOneSdk.BaseApp
