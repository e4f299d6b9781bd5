import AtomOneSdk.Authz.Queue

/-!
Contract: grants of `x/authz` and their expiration queue along whole runs.

Owns: that the queue lists the grants that expire, each once and nothing else, after every
run of the keeper's methods and of messages; that saving and deleting a grant always find
its queue item; and that pruning removes only grants whose authorization is refused already.

Does **not** own: when grants are pruned.
-/

namespace AtomOneSdk.Authz

open Lib Lib.Action
open Staking (Address Bytes Time)

section Execution

variable {L A σ : Type} {s : AuthzState L A σ}

/-! ## Execution -/

/-- Whether something outside the keeper reports a missing queue item. -/
def Modules.ReportsMissingItem (modules : Modules L A σ) : Prop :=
  (∃ msg rest next, modules.handler msg rest = .error (.error .noGrantKeyFound) next)
  ∨ (∃ grantee rest next,
      modules.granteeAccount grantee rest = .error (.error .noGrantKeyFound) next)
  ∨ ∃ authorization msg rest, modules.accept authorization msg rest = .error .noGrantKeyFound

/-- A fault that no missing item of the queue has caused. -/
def ItemFound (modules : Modules L A σ) (fault : Fault AuthzReason) : Prop :=
  fault = .error .noGrantKeyFound → modules.ReportsMissingItem

theorem ItemFound.of_ne {modules : Modules L A σ} {fault : Fault AuthzReason}
    (other : fault ≠ .error .noGrantKeyFound) : ItemFound modules fault :=
  fun missing => absurd missing other

/-- The grants and the queue still agree after the action. -/
abbrev KeepsAgreement {α : Type} (modules : Modules L A σ)
    (action : Action AuthzReason (AuthzState L A σ) α) (s : AuthzState L A σ) : Prop :=
  Post action s (fun _ => Agree) (fun fault _ => ItemFound modules fault)

/-- Actions on the rest of the chain leave the grants and the queue alone. -/
theorem onRest_agree (modules : Modules L A σ) (agree : Agree s)
    {action : Action AuthzReason σ Unit}
    (reports : ∀ rest next, action rest = .error (.error .noGrantKeyFound) next →
      modules.ReportsMissingItem) :
    KeepsAgreement modules (onRest action) s := by
  rw [KeepsAgreement, onRest, post_zoom, Post]
  cases ran : action s.rest with
  | ok value rest => exact agree.of_eq rfl rfl
  | error fault rest =>
    intro missing
    cases fault with
    | panic reason => cases missing
    | error reason =>
      cases missing
      exact reports s.rest rest ran

theorem grant_agree (modules : Modules L A σ) (now : Time) (agree : Agree s)
    (granter grantee : Address) (authorization : A) (expiration : Option Time) :
    KeepsAgreement modules (grant modules now granter grantee authorization expiration) s := by
  simp only [grant, post_rules]
  refine ⟨fun _ => .of_ne (by simp), fun _ => ⟨fun _ => .of_ne (by simp), fun granteeOk =>
    ⟨fun _ => .of_ne (by simp), fun granterOk => ⟨fun _ => .of_ne (by simp), fun _ => ?_⟩⟩⟩⟩
  refine (onRest_agree modules agree fun rest next ran => .inr (.inl ⟨_, rest, next, ran⟩)).imp ?_
  intro _ mid midAgree
  refine ⟨fun _ => .of_ne (by simp), fun _ => ?_⟩
  refine (saveGrant_agree modules now midAgree grantee granter authorization expiration).mono ?_ ?_
  · intro _ after saved
    exact saved (Bool.eq_true_of_not_eq_false granterOk) (Bool.eq_true_of_not_eq_false granteeOk)
  · exact fun _ _ other => .of_ne other

theorem revoke_agree (modules : Modules L A σ) (agree : Agree s) (granter grantee : Address)
    (msgTypeUrl : String) :
    KeepsAgreement modules (revoke granter grantee msgTypeUrl) s := by
  simp only [revoke, post_rules]
  refine ⟨fun _ => .of_ne (by simp), fun _ => ⟨fun _ => .of_ne (by simp), fun _ =>
    ⟨fun _ => .of_ne (by simp), fun _ => ⟨fun _ => .of_ne (by simp), fun _ => ?_⟩⟩⟩⟩
  refine (deleteGrant_agree agree grantee granter msgTypeUrl).mono (fun _ _ kept => kept) ?_
  intro fault _ isFault
  rw [isFault]
  exact .of_ne (by simp)

theorem authorize_agree (modules : Modules L A σ) (now : Time) (agree : Agree s)
    (grantee granter : Address) (msg : Msg L A) :
    KeepsAgreement modules (authorize modules now grantee granter msg) s := by
  simp only [authorize, post_rules]
  refine ⟨?_, fun _ => .of_ne (by simp)⟩
  intro found _
  refine ⟨fun _ => .of_ne (by simp), fun _ => ?_⟩
  cases accepted : modules.accept found.authorization msg s.rest with
  | error reason =>
    intro missing
    cases missing
    exact .inr (.inr ⟨_, _, _, accepted⟩)
  | ok resp =>
    simp only [post_rules]
    refine (useGrant_agree modules agree grantee granter _ resp).mono ?_ ?_
    · exact fun _ mid midAgree => ⟨fun _ => .of_ne (by simp), fun _ => midAgree⟩
    · intro fault _ isFault
      rw [isFault]
      exact .of_ne (by simp)

theorem granterOf_agree (modules : Modules L A σ) (agree : Agree s) (msg : Msg L A) :
    KeepsAgreement modules (granterOf modules msg) s := by
  simp only [granterOf, post_rules]
  refine ⟨?_, fun _ => .of_ne (by simp)⟩
  intro signers _
  split
  · exact agree
  · exact ItemFound.of_ne (by simp)

mutual

/-- Every handler keeps the agreement. -/
theorem handle_agree (modules : Modules L A σ) (now : Time) :
    ∀ (msg : Msg L A) {s : AuthzState L A σ}, Agree s →
    KeepsAgreement modules (handle modules now msg) s
  | .leaf msg, s, agree =>
    onRest_agree modules agree fun rest next ran => .inl ⟨msg, rest, next, ran⟩
  | .grant granter grantee authorization expiration, s, agree =>
    grant_agree modules now agree granter grantee authorization expiration
  | .revoke granter grantee msgTypeUrl, s, agree =>
    revoke_agree modules agree granter grantee msgTypeUrl
  | .pruneExpiredGrants pruner, s, agree =>
    (dequeueAndDeleteExpiredGrants_agree now agree pruneLimit).safe
      fun _ _ pruned => pruned.1
  | .exec grantee msgs, s, agree => by
    simp only [handle, validateMsgs, post_rules]
    refine ⟨?_, fun _ => .of_ne nofun⟩
    intro grantee _
    refine ⟨fun _ => .of_ne nofun, fun _ => ⟨fun _ => .of_ne nofun, fun _ =>
      ⟨fun _ => .of_ne nofun, fun _ => ?_⟩⟩⟩
    exact dispatchActions_agree modules now msgs grantee agree

/-- So does the dispatch of messages, each after its authorization. -/
theorem dispatchActions_agree (modules : Modules L A σ) (now : Time) :
    ∀ (msgs : List (Option (Msg L A))) (grantee : Address) {s : AuthzState L A σ}, Agree s →
    KeepsAgreement modules (dispatchActions modules now grantee msgs) s
  | [], _, s, agree => agree
  | none :: _, _, s, agree => ItemFound.of_ne nofun
  | some msg :: rest, grantee, s, agree => by
    simp only [dispatchActions, post_bind]
    refine (granterOf_agree modules agree msg).imp ?_
    intro granter first firstAgree
    have authorized : Post
        (whenever (granter ≠ grantee) (authorize modules now grantee granter msg)) first
        (fun _ => Agree) (fun fault _ => ItemFound modules fault) := by
      rw [post_whenever]
      exact ⟨fun _ => authorize_agree modules now firstAgree grantee granter msg,
        fun _ => firstAgree⟩
    refine authorized.imp ?_
    intro _ second secondAgree
    simp only [noteRun, post_rules]
    refine ⟨fun _ => .of_ne nofun, fun _ => ?_⟩
    have noted : Agree { second with ran := second.ran ++ [(granter, msg)] } :=
      secondAgree.of_eq rfl rfl
    refine (handle_agree modules now msg noted).imp ?_
    intro _ third thirdAgree
    exact dispatchActions_agree modules now rest grantee thirdAgree

end

/-! ## Runs -/

abbrev AccAddress := { address : Address // verifyAddressFormat address = true }

/-- What changes the grants: the keeper's methods and the handlers of messages. -/
inductive GrantOp (L A : Type) where
  | saveGrant (grantee granter : AccAddress) (authorization : A) (expiration : Option Time)
  | deleteGrant (grantee granter : Address) (msgType : String)
  | dispatchActions (grantee : Address) (msgs : List (Option (Msg L A)))
  | dequeueAndDeleteExpiredGrants (limit : Int)
  | message (msg : Msg L A)

def execOp (modules : Modules L A σ) (call : Time × GrantOp L A) : AuthzM L A σ Unit :=
  match call.2 with
  | .saveGrant grantee granter authorization expiration =>
    saveGrant modules call.1 grantee.1 granter.1 authorization expiration
  | .deleteGrant grantee granter msgType => deleteGrant grantee granter msgType
  | .dispatchActions grantee msgs => dispatchActions modules call.1 grantee msgs
  | .dequeueAndDeleteExpiredGrants limit => dequeueAndDeleteExpiredGrants call.1 limit
  | .message msg => handle modules call.1 msg

theorem execOp_agree (modules : Modules L A σ) (call : Time × GrantOp L A) (agree : Agree s) :
    Ensures (execOp modules call) s fun _ => Agree := by
  obtain ⟨now, op⟩ := call
  cases op with
  | saveGrant grantee granter authorization expiration =>
    apply (saveGrant_agree modules now agree grantee.1 granter.1 authorization expiration).ensures
    exact fun _ after saved => saved granter.2 grantee.2
  | deleteGrant grantee granter msgType =>
    exact (deleteGrant_agree agree grantee granter msgType).ensures fun _ _ kept => kept
  | dispatchActions grantee msgs =>
    exact (dispatchActions_agree modules now msgs grantee agree).ensures fun _ _ kept => kept
  | dequeueAndDeleteExpiredGrants limit =>
    exact (dequeueAndDeleteExpiredGrants_agree now agree limit).ensures
      fun _ _ pruned => pruned.1
  | message msg =>
    exact (handle_agree modules now msg agree).ensures fun _ _ kept => kept

def noGrants (rest : σ) : AuthzState L A σ := ⟨∅, ∅, rest, []⟩

theorem noGrants_agree (rest : σ) : Agree (noGrants rest : AuthzState L A σ) :=
  ⟨fun _ _ => rfl, fun _ present => absurd rfl present⟩

/-- The dispatch of a message by this grant is refused as expired. -/
def RefusedAsExpired (modules : Modules L A σ) (now : Time) (s : AuthzState L A σ)
    (key : GrantKey) : Prop :=
  ∀ msg rest, msg.signers modules = some [key.fst] → msg.typeUrl modules = key.snd.snd →
    key.fst ≠ key.snd.fst →
    dispatchActions modules now key.snd.fst (some msg :: rest) s
      = .error (.error .authorizationExpired) s

theorem refusedAsExpired_of_expired (modules : Modules L A σ) {now time : Time} {key : GrantKey}
    (isTime : expirations s.grants key = some time) (expired : time < now) :
    RefusedAsExpired modules now s key := by
  intro msg rest signers typeUrl apart
  obtain ⟨found, isFound, isExpiration⟩ := Option.bind_eq_some_iff.mp isTime
  have refused : authorize modules now key.snd.fst key.fst msg s
      = .error (.error .authorizationExpired) s := by
    have late : ∃ expiration ∈ found.expiration, expiration < now := ⟨time, isExpiration, expired⟩
    have isGrant : s.grants.get? (grantStoreKey key.snd.fst key.fst (msg.typeUrl modules))
        = some found := by
      rw [typeUrl]
      exact isFound
    have read : (get : AuthzM L A σ (AuthzState L A σ)) s = .ok s s := rfl
    simp only [authorize, bind, EStateM.bind, read, isGrant, getOrFail, pure, EStateM.pure, failIf,
      if_pos late]
    rfl
  simp only [dispatchActions, granterOf, signers, getOrFail, bind, EStateM.bind, pure, EStateM.pure,
    whenever, if_pos apart, refused]

/-- What holds of the grants and their queue in a state. -/
structure ExpiryOk (modules : Modules L A σ) (s : AuthzState L A σ) : Prop where
  /-- A grant that expires is listed once, as its message type, under its expiration. -/
  listedOnce : ∀ grantee granter msgType found time,
    s.grants.get? (grantStoreKey grantee granter msgType) = some found →
    found.expiration = some time →
    ((s.queue.get? (grantQueueKey time granter grantee)).getD []).count msgType = 1
  /-- The queue lists nothing else. -/
  nothingElse : ∀ time granter grantee items msgType,
    s.queue.get? (grantQueueKey time granter grantee) = some items → msgType ∈ items →
    ∃ found, s.grants.get? (grantStoreKey grantee granter msgType) = some found
      ∧ found.expiration = some time
  saveFindsItem : ∀ now grantee granter authorization expiration,
    (saveGrant modules now grantee granter authorization expiration).fault? s
      ≠ some (.error .noGrantKeyFound)
  deleteFindsItem : ∀ grantee granter msgType,
    (deleteGrant grantee granter msgType).fault? s ≠ some (.error .noGrantKeyFound)
  /-- Nor does a deletion that an authorization asks for lack its item. -/
  dispatchFindsItem : ¬ modules.ReportsMissingItem → ∀ now grantee msgs,
    (dispatchActions modules now grantee msgs).fault? s ≠ some (.error .noGrantKeyFound)
  /-- Pruning returns, and the grants it removes expired before the block time and are
  refused already. -/
  prunesExpired : ∀ now limit, validTimestamp now = true →
    ∃ after, dequeueAndDeleteExpiredGrants now limit s = .ok () after
      ∧ ∀ key, after.grants.get? key = s.grants.get? key
        ∨ after.grants.get? key = none ∧ ∃ found time, s.grants.get? key = some found
          ∧ found.expiration = some time ∧ time < now ∧ RefusedAsExpired modules now s key

theorem Agree.expiryOk (modules : Modules L A σ) (agree : Agree s) : ExpiryOk modules s where
  listedOnce := by
    intro grantee granter msgType found time isFound isTime
    have counted := agree.balanced (grantQueueKey time granter grantee) msgType
    rw [listed] at counted
    rw [counted]
    apply if_pos
    rw [expirations]
    exact Option.bind_eq_some_iff.mpr ⟨found, isFound, isTime⟩
  nothingElse := by
    intro time granter grantee items msgType isItems member
    have inItem : msgType ∈ (s.queue.get? (grantQueueKey time granter grantee)).getD [] := by
      rw [isItems]
      exact member
    exact Option.bind_eq_some_iff.mp (agree.mem_item.mp inItem)
  saveFindsItem := by
    intro now grantee granter authorization expiration missing
    obtain ⟨_, other⟩ :=
      (saveGrant_agree modules now agree grantee granter authorization expiration).of_fault? missing
    exact other rfl
  deleteFindsItem := by
    intro grantee granter msgType missing
    obtain ⟨_, other⟩ := (deleteGrant_agree agree grantee granter msgType).of_fault? missing
    cases other
  dispatchFindsItem := by
    intro silent now grantee msgs missing
    obtain ⟨_, reported⟩ :=
      (dispatchActions_agree modules now msgs grantee agree).of_fault? missing
    exact silent (reported rfl)
  prunesExpired := by
    intro now limit nowOk
    have post := dequeueAndDeleteExpiredGrants_agree now agree limit
    cases ran : dequeueAndDeleteExpiredGrants now limit s with
    | error fault after => exact (post.of_error ran).elim
    | ok done after =>
      refine ⟨after, rfl, ?_⟩
      intro key
      have pruned := (post.of_ok ran).2 nowOk
      rcases pruned.grants key with same | ⟨gone, time, isTime, expired⟩
      · exact .inl same
      · obtain ⟨found, isFound, isExpiration⟩ := Option.bind_eq_some_iff.mp isTime
        exact .inr ⟨gone, found, time, isFound, isExpiration, expired,
          refusedAsExpired_of_expired modules isTime expired⟩

/-- The grants and their queue agree after every run of the keeper, at whatever block
times. -/
theorem grants_and_queue_agree (modules : Modules L A σ) (rest : σ)
    (calls : List (Time × GrantOp L A)) :
    ExpiryOk modules (runAll (execOp modules) calls (noGrants rest)) := by
  have agree : Agree (runAll (execOp modules) calls (noGrants rest)) :=
    runAll_invariant (fun call _ kept => execOp_agree modules call kept) calls _
      (noGrants_agree rest)
  exact agree.expiryOk modules

end Execution

end AtomOneSdk.Authz
