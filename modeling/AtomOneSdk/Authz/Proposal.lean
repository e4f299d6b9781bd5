import AtomOneSdk.Authz.Keeper

/-!
Contract: the messages of a governance proposal that are wrapped in `authz.MsgExec`.

Owns: the inspection of a proposal's messages when it is submitted, the kinds of a proposal,
and the execution of the messages of a passed one.

Does **not** own: the rest of a submission, the tally, and the branch of the store that is
dropped when a message fails.
-/

namespace AtomOneSdk.Authz

open Lib Lib.Action
open Staking (Address Time)

def maxAuthzNestingDepth : Nat := 8

def maxProposalMessages : Nat := 200

inductive InspectionError where
  | nestingDepthExceeded
  | invalidAddress
  | invalidSigners
  | tooManyMessages (count : Nat)
  | selfExec
  | invalidMessage
  | invalidSigner
  | unroutable
  | invalidContent
deriving DecidableEq, Repr

section Inspection

variable {L A σ : Type} (modules : Modules L A σ)

/-! ## Number of messages -/

mutual

/-- The inner messages of a `MsgExec`; other messages have none. -/
def countExecMessages (depth : Nat) : Msg L A → Except InspectionError Nat
  | .exec _ msgs =>
    if maxAuthzNestingDepth < depth then throw .nestingDepthExceeded
    else countInner depth msgs
  | _ => pure 0

/-- The loop over the inner messages: one that cannot be unpacked is skipped. -/
def countInner (depth : Nat) : List (Option (Msg L A)) → Except InspectionError Nat
  | [] => pure 0
  | none :: rest => countInner depth rest
  | some msg :: rest => do
    let nested ← countExecMessages (depth + 1) msg
    let later ← countInner depth rest
    pure (1 + nested + later)

end

def countMessages : List (Msg L A) → Except InspectionError Nat
  | [] => pure 0
  | msg :: rest => do
    let nested ← countExecMessages 1 msg
    let later ← countMessages rest
    pure (1 + nested + later)

/-! ## Self-execution -/

variable (authority : Address)

mutual

/-- Whether a `MsgExec` runs a message signed by the authority without a grant; another
message does if the authority is its one signer. -/
def execReachesAuthority (depth : Nat) : Msg L A → Except InspectionError Bool
  | .exec grantee msgs => do
    if maxAuthzNestingDepth < depth then throw .nestingDepthExceeded
    else
      match grantee with
      | none => throw .invalidAddress
      | some grantee =>
        -- for a foreign grantee a grant of the authority would be required
        if grantee ≠ authority then pure false else innerReachesAuthority depth msgs
  | msg =>
    match msg.signers modules with
    | none => throw .invalidSigners
    | some signers => pure (decide (signers = [authority]))

/-- The loop over the inner messages: one that cannot be unpacked is skipped. -/
def innerReachesAuthority (depth : Nat) : List (Option (Msg L A)) → Except InspectionError Bool
  | [] => pure false
  | none :: rest => innerReachesAuthority depth rest
  | some msg :: rest => do
    let reaches ← execReachesAuthority (depth + 1) msg
    if reaches then pure true else innerReachesAuthority depth rest

end

def containsSelfExecAsAuthority : List (Msg L A) → Except InspectionError Bool
  | [] => pure false
  | msg :: rest =>
    if msg.isExec = false then containsSelfExecAsAuthority rest
    else do
      let reaches ← execReachesAuthority modules authority 1 msg
      if reaches then pure true else containsSelfExecAsAuthority rest

/-! ## Submission -/

/-- The checks of one message. `legacyContentOk` is the dry run of legacy content, true of
other messages. -/
def checkMessage (legacyContentOk : L → Bool) (msg : Msg L A) : Except InspectionError Unit := do
  refuseIf (msg.validateBasic modules = false) .invalidMessage
  match msg.signers modules with
  | none => throw .invalidSigners
  | some signers =>
    refuseIf (signers ≠ [authority]) .invalidSigner
    refuseIf (modules.routed (msg.typeUrl modules) = false) .unroutable
    match msg with
    | .leaf content => refuseIf (legacyContentOk content = false) .invalidContent
    | _ => pure ()

/-- What `SubmitProposal` checks of the messages. -/
def checkMessages (legacyContentOk : L → Bool) (msgs : List (Msg L A)) :
    Except InspectionError Unit := do
  let count ← countMessages msgs
  refuseIf (maxProposalMessages < count) (.tooManyMessages count)
  let selfExec ← containsSelfExecAsAuthority modules authority msgs
  refuseIf (selfExec = true) .selfExec
  msgs.forM (checkMessage modules authority legacyContentOk)

end Inspection

/-! ## Kinds -/

inductive ProposalKind where
  | any
  | law
  | constitutionAmendment
deriving DecidableEq, Repr

/-- Only messages of `x/gov` have a kind of their own. -/
def Msg.kind {L A : Type} (kindOf : L → ProposalKind) : Msg L A → ProposalKind
  | .leaf msg => kindOf msg
  | _ => .any

/-- The kinds of a proposal; the code keeps them as the bits of a number. -/
def proposalKinds {L A : Type} (kindOf : L → ProposalKind) (msgs : List (Msg L A)) :
    List ProposalKind :=
  if msgs.isEmpty then [.any] else msgs.map (Msg.kind kindOf)

/-! ## Execution -/

/-- The messages of a passed proposal, run by the governance module in its own name. -/
def executeMessages {L A σ : Type} (modules : Modules L A σ) (now : Time) (authority : Address)
    (msgs : List (Msg L A)) : AuthzM L A σ Unit :=
  forEach (fun msg => do
    noteRun modules authority msg
    handle modules now msg) msgs

end AtomOneSdk.Authz
