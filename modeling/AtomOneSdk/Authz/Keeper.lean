import AtomOneSdk.Lib.Action
import AtomOneSdk.Staking.Types
import AtomOneSdk.Types.Time
import Mathlib.Data.String.Basic

/-!
Contract: messages, grants and their execution in `x/authz`.

Owns: messages with `MsgGrant`, `MsgRevoke`, `MsgPruneExpiredGrants` and nested `MsgExec`,
the grants, the queue by which they expire, and the execution of a message with
`DispatchActions`, which records every message that runs and its signer.

Does **not** own: the messages and authorizations of other modules, which are parameters,
and the accounts that a grant creates. Addresses are decoded; a text that is no address
stands as bytes that are none, or as a missing grantee.
-/

namespace AtomOneSdk.Authz

open Lib Lib.Action
open Staking (Address Bytes Time)
open AtomOneSdk.Types (formatTimeBytes)

/-! ## Messages -/

/-- A message: one of another module, a grant, a revocation, or an execution of messages on
behalf of their signers. Nothing stands for a packed message that cannot be unpacked. -/
inductive Msg (L A : Type) where
  | leaf (msg : L)
  | grant (granter grantee : Address) (authorization : A) (expiration : Option Time)
  | revoke (granter grantee : Address) (msgTypeUrl : String)
  | pruneExpiredGrants (pruner : Address)
  | exec (grantee : Option Address) (msgs : List (Option (Msg L A)))

/-- `Authorization.Accept`'s answer. -/
structure AcceptResponse (A : Type) where
  accept : Bool
  delete : Bool
  updated : Option A
deriving DecidableEq, Repr

inductive AuthzReason where
  | invalidAddress
  | emptyMessages
  | notAMessage
  | invalidMessage
  | invalidSigners
  | authorizationNumOfSigners
  | noAuthorizationFound
  | authorizationExpired
  | unauthorized
  | unknownRequest
  | granteeIsGranter
  | invalidGrant
  | invalidType
  | invalidExpirationTime
  | noGrantKeyFound
  | invalidTimestamp
  | message (text : String)
deriving DecidableEq, Repr

/-- The messages and authorizations of the other modules. -/
structure Modules (L A σ : Type) where
  /-- `GetMsgV1Signers`. -/
  signers : L → Option (List Address)
  typeUrl : L → String
  /-- True for a message without `ValidateBasic`. -/
  validateBasic : L → Bool
  handler : L → Action AuthzReason σ Unit
  /-- Whether a message type has a handler. -/
  routed : String → Bool
  authorizationUrl : A → String
  authorizationOk : A → Bool
  accept : A → Msg L A → σ → Except AuthzReason (AcceptResponse A)
  /-- The account of a grantee, created if it is missing. -/
  granteeAccount : Address → Action AuthzReason σ Unit

namespace Msg

variable {L A σ : Type} (modules : Modules L A σ)

/-- `GetMsgV1Signers`. -/
def signers : Msg L A → Option (List Address)
  | .leaf msg => modules.signers msg
  | .grant granter _ _ _ => some [granter]
  | .revoke granter _ _ => some [granter]
  | .pruneExpiredGrants pruner => some [pruner]
  | .exec grantee _ => grantee.map fun grantee => [grantee]

def typeUrl : Msg L A → String
  | .leaf msg => modules.typeUrl msg
  | .grant _ _ _ _ => "/cosmos.authz.v1beta1.MsgGrant"
  | .revoke _ _ _ => "/cosmos.authz.v1beta1.MsgRevoke"
  | .pruneExpiredGrants _ => "/cosmos.authz.v1beta1.MsgPruneExpiredGrants"
  | .exec _ _ => "/cosmos.authz.v1beta1.MsgExec"

def validateBasic : Msg L A → Bool
  | .leaf msg => modules.validateBasic msg
  | _ => true

def isExec : Msg L A → Bool
  | .exec _ _ => true
  | _ => false

end Msg

/-! ## Grants -/

structure Grant (A : Type) where
  authorization : A
  expiration : Option Time
deriving DecidableEq, Repr

abbrev GrantKey := Pair Address (Pair Address String)

def grantStoreKey (grantee granter : Address) (msgType : String) : GrantKey :=
  ⟨granter, ⟨grantee, msgType⟩⟩

abbrev QueueKey := Pair Time (Pair Address Address)

def grantQueueKey (expiration : Time) (granter grantee : Address) : QueueKey :=
  ⟨expiration, ⟨granter, grantee⟩⟩

/-- The grants, the queue of the message types that expire, the rest of the chain, and the
messages that ran with their signers. -/
structure AuthzState (L A σ : Type) where
  grants : Store GrantKey (Grant A)
  queue : Store QueueKey (List String)
  rest : σ
  ran : List (Address × Msg L A)

abbrev AuthzM (L A σ α : Type) := Action AuthzReason (AuthzState L A σ) α

section Keeper

variable {L A σ : Type} (modules : Modules L A σ) (now : Time)

def onRest (action : Action AuthzReason σ Unit) : AuthzM L A σ Unit :=
  zoom AuthzState.rest (fun s rest => { s with rest := rest }) id action

/-! ## Expiration queue -/

def insertIntoGrantQueue (granter grantee : Address) (msgType : String) (expiration : Time) :
    AuthzM L A σ Unit := do
  let s ← get
  let key := grantQueueKey expiration granter grantee
  let items := (s.queue.get? key).getD []
  set { s with queue := s.queue.set key (items ++ [msgType]) }

/-- The first occurrence is overwritten by the last element, which is cut off. -/
def swapRemove (index : Nat) (items : List String) : List String :=
  match items.getLast? with
  | none => items
  | some last => (items.set index last).dropLast

def removeFromGrantQueue (granter grantee : Address) (msgType : String) (expiration : Time) :
    AuthzM L A σ Unit := do
  let s ← get
  let key := grantQueueKey expiration granter grantee
  let items ← getOrFail (s.queue.get? key) .noGrantKeyFound
  match items.findIdx? fun typeUrl => typeUrl = msgType with
  | none => pure ()
  | some index => set { s with queue := s.queue.set key (swapRemove index items) }

/-- Whether a protobuf timestamp can hold a time: the years 1 to 9999. -/
def validTimestamp (time : Time) : Bool :=
  -62135596800000000000 ≤ time && time < 253402300800000000000

/-- Run an action at the expiration of a grant that has one. -/
def atExpiration (expiration : Option Time) (action : Time → AuthzM L A σ Unit) :
    AuthzM L A σ Unit :=
  match expiration with
  | none => pure ()
  | some time => action time

/-- Move a grant's message type to its new expiration; one that stays is not moved. -/
def requeue (granter grantee : Address) (msgType : String) (oldExp expiration : Option Time) :
    AuthzM L A σ Unit := do
  atExpiration oldExp fun old =>
    whenever (expiration ≠ some old) (removeFromGrantQueue granter grantee msgType old)
  atExpiration expiration fun new =>
    whenever (oldExp ≠ some new) (insertIntoGrantQueue granter grantee msgType new)

def saveGrant (grantee granter : Address) (authorization : A) (expiration : Option Time) :
    AuthzM L A σ Unit := do
  let msgType := modules.authorizationUrl authorization
  let key := grantStoreKey grantee granter msgType
  failIf (∃ time ∈ expiration, time ≤ now) .invalidExpirationTime
  let s ← get
  requeue granter grantee msgType ((s.grants.get? key).bind Grant.expiration) expiration
  failIf (∃ time ∈ expiration, validTimestamp time = false) .invalidTimestamp
  modify fun s => { s with grants := s.grants.set key ⟨authorization, expiration⟩ }

/-- `VerifyAddressFormat`, which decoding an address ends with. -/
def verifyAddressFormat (address : Address) : Bool :=
  0 < address.length && address.length ≤ 255

/-- `MsgServer.Grant`. -/
def grant (granter grantee : Address) (authorization : A) (expiration : Option Time) :
    AuthzM L A σ Unit := do
  failIf (grantee = granter) .granteeIsGranter
  failIf (verifyAddressFormat grantee = false) .invalidAddress
  failIf (verifyAddressFormat granter = false) .invalidAddress
  failIf (modules.authorizationOk authorization = false) .invalidGrant
  onRest (modules.granteeAccount grantee)
  failIf (modules.routed (modules.authorizationUrl authorization) = false) .invalidType
  saveGrant modules now grantee granter authorization expiration

def deleteGrant (grantee granter : Address) (msgType : String) : AuthzM L A σ Unit := do
  let s ← get
  let key := grantStoreKey grantee granter msgType
  let found ← getOrFail (s.grants.get? key) .noAuthorizationFound
  atExpiration found.expiration (removeFromGrantQueue granter grantee msgType)
  modify fun s => { s with grants := s.grants.delete key }

/-- `address.LengthPrefix`. -/
def lengthFirst (address : Address) : Bytes :=
  if address.length = 0 then address else Fin.ofNat 256 address.length :: address

/-- The bytes of `GrantQueueKey`. -/
def grantQueueKeyBytes (key : QueueKey) : Bytes :=
  2 :: (formatTimeBytes key.fst ++ (lengthFirst key.snd.fst ++ lengthFirst key.snd.snd))

/-- `InclusiveEndBytes(GrantQueueTimePrefix(now))`. -/
def grantQueueEnd : Bytes := 2 :: (formatTimeBytes now ++ [0])

/-- Delete a queue item and the grants it lists. -/
def dequeue (key : QueueKey) : AuthzM L A σ Unit := do
  let s ← get
  let items := (s.queue.get? key).getD []
  modify fun s => { s with queue := s.queue.delete key }
  forEach
    (fun typeUrl => modify fun s =>
      { s with grants := s.grants.delete (grantStoreKey key.snd.snd key.snd.fst typeUrl) })
    items

/-- The loop over the queue items, `count` of which were handled. -/
def dequeueUpTo (limit : Int) : Nat → List QueueKey → AuthzM L A σ Unit
  | _, [] => pure ()
  | count, key :: rest => do
    dequeue key
    if (count : Int) + 1 = limit then pure () else dequeueUpTo limit (count + 1) rest

def dequeueAndDeleteExpiredGrants (limit : Int) : AuthzM L A σ Unit := do
  let s ← get
  let keys := s.queue.keys.filter fun key =>
    decide (grantQueueKeyBytes key < grantQueueEnd now)
  let inOrder := keys.mergeSort fun left right =>
    decide (grantQueueKeyBytes left ≤ grantQueueKeyBytes right)
  dequeueUpTo limit 0 inOrder

/-- The limit of `MsgServer.PruneExpiredGrants`. -/
def pruneLimit : Int := 75

/-! ## Execution -/

/-- `MsgServer.Revoke`. -/
def revoke (granter grantee : Address) (msgTypeUrl : String) : AuthzM L A σ Unit := do
  failIf (grantee = granter) .granteeIsGranter
  failIf (verifyAddressFormat grantee = false) .invalidAddress
  failIf (verifyAddressFormat granter = false) .invalidAddress
  failIf (msgTypeUrl = "") (.message "missing msg method name")
  deleteGrant grantee granter msgTypeUrl

def update (grantee granter : Address) (updated : A) : AuthzM L A σ Unit := do
  let s ← get
  let key := grantStoreKey grantee granter (modules.authorizationUrl updated)
  let found ← getOrFail (s.grants.get? key) .noAuthorizationFound
  set { s with grants := s.grants.set key { found with authorization := updated } }

/-- Delete or update a grant as its authorization says. -/
def useGrant (grantee granter : Address) (msgType : String) (resp : AcceptResponse A) :
    AuthzM L A σ Unit :=
  if resp.delete then deleteGrant grantee granter msgType
  else
    match resp.updated with
    | some updated => update modules grantee granter updated
    | none => pure ()

def authorize (grantee granter : Address) (msg : Msg L A) : AuthzM L A σ Unit := do
  let s ← get
  let msgType := msg.typeUrl modules
  let found ← getOrFail (s.grants.get? (grantStoreKey grantee granter msgType))
    .noAuthorizationFound
  failIf (∃ time ∈ found.expiration, time < now) .authorizationExpired
  match modules.accept found.authorization msg s.rest with
  | .error reason => fail reason
  | .ok resp => do
    useGrant modules grantee granter msgType resp
    failIf (resp.accept = false) .unauthorized

/-- The signer of a message that is to run on behalf of its one signer. -/
def granterOf (msg : Msg L A) : AuthzM L A σ Address := do
  let signers ← getOrFail (msg.signers modules) .invalidSigners
  match signers with
  | [granter] => pure granter
  | _ => fail .authorizationNumOfSigners

def noteRun (signer : Address) (msg : Msg L A) : AuthzM L A σ Unit := do
  failIf (modules.routed (msg.typeUrl modules) = false) .unknownRequest
  modify fun s => { s with ran := s.ran ++ [(signer, msg)] }

/-- What `Exec` checks of the messages before it runs them. -/
def validateMsgs (msgs : List (Option (Msg L A))) : AuthzM L A σ Unit := do
  failIf (msgs.isEmpty = true) .emptyMessages
  failIf ((msgs.any fun msg => msg.isNone) = true) .notAMessage
  failIf ((msgs.any fun msg => msg.any fun msg => !msg.validateBasic modules) = true)
    .invalidMessage

mutual

def handle : Msg L A → AuthzM L A σ Unit
  | .leaf msg => onRest (modules.handler msg)
  | .grant granter grantee authorization expiration =>
    grant modules now granter grantee authorization expiration
  | .revoke granter grantee msgTypeUrl => revoke granter grantee msgTypeUrl
  | .pruneExpiredGrants _ => dequeueAndDeleteExpiredGrants now pruneLimit
  | .exec grantee msgs => do
    let grantee ← getOrFail grantee .invalidAddress
    validateMsgs modules msgs
    dispatchActions grantee msgs

/-- Run messages on behalf of their signers, each by a grant unless the grantee signed. -/
def dispatchActions (grantee : Address) : List (Option (Msg L A)) → AuthzM L A σ Unit
  | [] => pure ()
  | none :: _ => fail .notAMessage
  | some msg :: rest => do
    let granter ← granterOf modules msg
    whenever (granter ≠ grantee) (authorize modules now grantee granter msg)
    noteRun modules granter msg
    handle msg
    dispatchActions grantee rest

end

end Keeper

end AtomOneSdk.Authz
