import AtomOneSdk.Authz.Properties

/-!
Contract: the queue by which grants of `x/authz` expire.

Owns: the agreement of the queue with the grants, which it lists each once under its
expiration; that saving, updating, deleting and pruning grants keep it; and what pruning
removes.

Does **not** own: how times are formatted, of which only the order is used, and the
execution of messages.
-/

namespace AtomOneSdk.Authz

open Lib Lib.Action List
open Staking (Address Bytes Time)
open AtomOneSdk.Types

/-! ## Queue items -/

/-- Swap-removal takes one occurrence of the type that was found. -/
theorem count_swapRemove {items : List String} {index : Nat} {msgType : String}
    (found : items.findIdx? (fun typeUrl => typeUrl = msgType) = some index) (other : String) :
    (swapRemove index items).count other
      = items.count other - if other = msgType then 1 else 0 := by
  obtain ⟨inside, isType, _⟩ := findIdx?_eq_some_iff_getElem.mp found
  have atIndex : items[index] = msgType := of_decide_eq_true isType
  obtain ⟨start, last, isItems⟩ := (eq_nil_or_concat' items).resolve_left
    (ne_nil_of_length_pos (by omega))
  subst isItems
  rw [swapRemove, getLast?_concat]
  dsimp only
  rw [length_append, length_singleton] at inside
  rcases Nat.lt_or_eq_of_le (Nat.le_of_lt_succ inside) with before | isLast
  · -- an earlier element is overwritten by the last one
    rw [getElem_append_left before] at atIndex
    rw [set_append_left _ _ before, dropLast_concat, count_set before, atIndex,
      count_append, count_singleton]
    have positive : 0 < start.count msgType := by
      rw [← atIndex]
      exact count_pos_iff.mpr (getElem_mem before)
    by_cases same : other = msgType
    · rw [same]
      simp only [beq_self_eq_true, if_true]
      omega
    · have apart : (msgType == other) = false := beq_false_of_ne (Ne.symm same)
      simp only [apart, if_neg same, Bool.false_eq_true, if_false, Nat.sub_zero]
  · -- the last element itself is cut off
    subst isLast
    rw [getElem_append_right (le_refl _)] at atIndex
    simp only [Nat.sub_self, getElem_cons_zero] at atIndex
    rw [set_append_right _ _ (le_refl _), Nat.sub_self, set_cons_zero,
      dropLast_concat, count_append, count_singleton, atIndex]
    by_cases same : other = msgType
    · rw [same]
      simp only [beq_self_eq_true, if_true]
      omega
    · have apart : (msgType == other) = false := beq_false_of_ne (Ne.symm same)
      simp only [apart, if_neg same, Bool.false_eq_true, if_false]
      omega

section Queue

variable {L A σ : Type}

def itemGrant (key : QueueKey) (msgType : String) : GrantKey :=
  grantStoreKey key.snd.snd key.snd.fst msgType

/-- How often a queue item lists a message type. -/
def listed (queue : Store QueueKey (List String)) (key : QueueKey) (msgType : String) : Nat :=
  ((queue.get? key).getD []).count msgType

def expirations (grants : Store GrantKey (Grant A)) (key : GrantKey) : Option Time :=
  (grants.get? key).bind Grant.expiration

/-- The queue lists every grant once, under its expiration, and nothing else. -/
def Balanced (expires : GrantKey → Option Time) (queue : Store QueueKey (List String)) : Prop :=
  ∀ key msgType,
    listed queue key msgType = if expires (itemGrant key msgType) = some key.fst then 1 else 0

theorem expirations_set (grants : Store GrantKey (Grant A)) (key : GrantKey) (value : Grant A) :
    expirations (grants.set key value)
      = Function.update (expirations grants) key value.expiration :=
  grants.view_set (Option.bind · Grant.expiration) key value

theorem expirations_delete (grants : Store GrantKey (Grant A)) (key : GrantKey) :
    expirations (grants.delete key) = Function.update (expirations grants) key none :=
  grants.view_delete (Option.bind · Grant.expiration) key

variable {key : QueueKey} {msgType : String} {granter grantee : Address}

/-- Two items that list one grant differ in the expiration. -/
theorem key_eq_of_itemGrant {other : QueueKey} {otherType : String}
    (same : itemGrant other otherType = itemGrant key msgType) (sameTime : other.fst = key.fst) :
    other = key ∧ otherType = msgType := by
  obtain ⟨time, granter, grantee⟩ := key
  obtain ⟨time', granter', grantee'⟩ := other
  simp only [itemGrant, grantStoreKey, Pair.mk.injEq] at same
  obtain ⟨sameGranter, sameGrantee, sameType⟩ := same
  cases sameTime
  cases sameGranter
  cases sameGrantee
  exact ⟨rfl, sameType⟩

/-! ## One grant moves -/

variable {s : AuthzState L A σ} {expires : GrantKey → Option Time}

/-- A write to one item balances the queue again if it accounts for the one grant whose
expiration changes. -/
theorem Balanced.set {queue : Store QueueKey (List String)} (balanced : Balanced expires queue)
    {key : QueueKey} {msgType : String} {items : List String} {expiration : Option Time}
    (counts : ∀ other, items.count other
      = if other = msgType then if expiration = some key.fst then 1 else 0
        else listed queue key other)
    (elsewhere : ∀ time, time ≠ key.fst →
      (expires (itemGrant key msgType) = some time ↔ expiration = some time)) :
    Balanced (Function.update expires (itemGrant key msgType) expiration)
      (queue.set key items) := by
  intro other otherType
  rw [listed, Store.get?_set, Function.update_apply]
  by_cases sameKey : other = key
  · rw [if_pos sameKey, Option.getD_some, counts, sameKey]
    by_cases sameType : otherType = msgType
    · rw [if_pos sameType, sameType, if_pos rfl]
    · have apart : itemGrant key otherType ≠ itemGrant key msgType := by
        intro same
        exact sameType (key_eq_of_itemGrant same rfl).2
      rw [if_neg sameType, if_neg apart]
      exact balanced key otherType
  · rw [if_neg sameKey]
    by_cases same : itemGrant other otherType = itemGrant key msgType
    · have otherTime : other.fst ≠ key.fst := fun sameTime =>
        sameKey (key_eq_of_itemGrant same sameTime).1
      have before := balanced other otherType
      rw [same] at before
      rw [if_pos same, ← if_congr (elsewhere other.fst otherTime) rfl rfl]
      exact before
    · rw [if_neg same]
      exact balanced other otherType

/-- A listed grant is found and taken off its item. -/
theorem removeFromGrantQueue_balanced (balanced : Balanced expires s.queue) {time : Time}
    (atTime : expires (grantStoreKey grantee granter msgType) = some time) :
    Post (removeFromGrantQueue granter grantee msgType time) s
      (fun _ after => OnlyQueue s after
        ∧ Balanced (Function.update expires (grantStoreKey grantee granter msgType) none)
          after.queue
        ∧ ∀ key, after.queue.get? key ≠ none → s.queue.get? key ≠ none)
      (fun _ _ => False) := by
  have once : listed s.queue (grantQueueKey time granter grantee) msgType = 1 := by
    rw [balanced]
    exact if_pos atTime
  simp only [removeFromGrantQueue, post_rules]
  constructor
  · intro items isItems
    rw [listed, isItems, Option.getD_some] at once
    cases found : items.findIdx? fun typeUrl => typeUrl = msgType with
    | none =>
      have absent : msgType ∉ items := by
        intro member
        have missing := findIdx?_eq_none_iff.mp found msgType member
        simp at missing
      rw [count_eq_zero_of_not_mem absent] at once
      cases once
    | some index =>
      refine ⟨rfl, ?_, ?_⟩
      · show Balanced (Function.update expires
          (itemGrant (grantQueueKey time granter grantee) msgType) none) _
        refine balanced.set ?_ ?_
        · intro other
          rw [count_swapRemove found, listed, isItems, Option.getD_some]
          by_cases same : other = msgType
          · rw [same, once]
            simp
          · simp [same]
        · intro otherTime apart
          constructor
          · exact fun isOther => absurd (some_unique isOther atTime) apart
          · simp
      · intro key present
        by_cases same : key = grantQueueKey time granter grantee
        · rw [same, isItems]
          simp
        · rwa [Store.get?_set_of_ne same] at present
  · intro missing
    rw [listed, missing] at once
    cases once

/-- A grant that is not listed is put on its item. -/
theorem insertIntoGrantQueue_balanced (balanced : Balanced expires s.queue) (time : Time)
    (unlisted : expires (grantStoreKey grantee granter msgType) = none) :
    Post (insertIntoGrantQueue granter grantee msgType time) s
      (fun _ after => OnlyQueue s after
        ∧ Balanced (Function.update expires (grantStoreKey grantee granter msgType) (some time))
          after.queue
        ∧ ∀ key, after.queue.get? key ≠ none →
          key = grantQueueKey time granter grantee ∨ s.queue.get? key ≠ none)
      (fun _ _ => False) := by
  have isNone : expires (itemGrant (grantQueueKey time granter grantee) msgType) = none :=
    unlisted
  have absent : listed s.queue (grantQueueKey time granter grantee) msgType = 0 := by
    rw [balanced, isNone]
    exact if_neg nofun
  simp only [insertIntoGrantQueue, post_rules]
  refine ⟨rfl, ?_, ?_⟩
  · show Balanced (Function.update expires
      (itemGrant (grantQueueKey time granter grantee) msgType) (some time)) _
    refine balanced.set ?_ ?_
    · intro other
      rw [count_append, count_singleton]
      change listed s.queue (grantQueueKey time granter grantee) other + _ = _
      by_cases same : other = msgType
      · rw [same, absent, if_pos rfl]
        simp [grantQueueKey]
      · have apart : (msgType == other) = false := beq_false_of_ne (Ne.symm same)
        simp [same, apart]
    · intro otherTime apart
      constructor
      · intro isOther
        rw [isNone] at isOther
        cases isOther
      · intro isOther
        exact absurd (Option.some.inj isOther).symm apart
  · intro key present
    by_cases same : key = grantQueueKey time granter grantee
    · exact .inl same
    · rw [Store.get?_set_of_ne same] at present
      exact .inr present

/-- A grant that expires at `oldExp` is moved to its new expiration. -/
theorem requeue_balanced (balanced : Balanced expires s.queue) {oldExp : Option Time}
    (expiration : Option Time) (isOld : expires (grantStoreKey grantee granter msgType) = oldExp) :
    Post (requeue granter grantee msgType oldExp expiration) s
      (fun _ after => OnlyQueue s after
        ∧ Balanced (Function.update expires (grantStoreKey grantee granter msgType) expiration)
          after.queue
        ∧ ∀ key, after.queue.get? key ≠ none →
          (∃ time ∈ expiration, key = grantQueueKey time granter grantee)
            ∨ s.queue.get? key ≠ none)
      (fun _ _ => False) := by
  by_cases stays : oldExp = expiration
  · -- nothing is removed and nothing inserted
    have unchanged : requeue granter grantee msgType oldExp expiration
        = (pure () : AuthzM L A σ Unit) := by
      rw [← stays]
      cases oldExp with
      | none => rfl
      | some old => simp [requeue, atExpiration, whenever]
    rw [unchanged, post_pure, ← stays, ← isOld, Function.update_eq_self]
    exact ⟨rfl, balanced, fun key present => .inr present⟩
  · have removes : Post (atExpiration oldExp fun old =>
        whenever (expiration ≠ some old) (removeFromGrantQueue granter grantee msgType old)) s
        (fun _ after => OnlyQueue s after
          ∧ Balanced (Function.update expires (grantStoreKey grantee granter msgType) none)
            after.queue
          ∧ ∀ key, after.queue.get? key ≠ none → s.queue.get? key ≠ none)
        (fun _ _ => False) := by
      cases oldExp with
      | none =>
        refine ⟨rfl, ?_, fun key present => present⟩
        rw [← isOld, Function.update_eq_self]
        exact balanced
      | some old =>
        rw [atExpiration, whenever, if_pos (Ne.symm stays)]
        exact removeFromGrantQueue_balanced balanced isOld
    rw [requeue, post_bind]
    refine removes.imp ?_
    intro _ mid removed
    obtain ⟨only, midBalanced, midKeys⟩ := removed
    cases expiration with
    | none => exact ⟨only, midBalanced, fun key present => .inr (midKeys key present)⟩
    | some new =>
      rw [atExpiration, whenever, if_pos stays]
      refine (insertIntoGrantQueue_balanced midBalanced new (Function.update_self ..)).imp ?_
      intro _ after inserted
      obtain ⟨onlyLater, afterBalanced, afterKeys⟩ := inserted
      rw [Function.update_idem] at afterBalanced
      refine ⟨by rw [OnlyQueue, onlyLater, only], afterBalanced, ?_⟩
      intro key present
      rcases afterKeys key present with isNew | older
      · exact .inl ⟨new, rfl, isNew⟩
      · exact .inr (midKeys key older)

/-! ## Keeper methods -/

/-- A queue key that was written with decoded addresses and a time that can be stored. -/
structure KeyOk (key : QueueKey) : Prop where
  time : validTimestamp key.fst = true
  granter : verifyAddressFormat key.snd.fst = true
  grantee : verifyAddressFormat key.snd.snd = true

/-- The grants and the queue agree, and the queue has only keys that can be read back. -/
structure Agree (s : AuthzState L A σ) : Prop where
  balanced : Balanced (expirations s.grants) s.queue
  keysOk : ∀ key, s.queue.get? key ≠ none → KeyOk key

theorem Agree.of_eq {after : AuthzState L A σ} (agree : Agree s)
    (sameGrants : after.grants = s.grants) (sameQueue : after.queue = s.queue) : Agree after := by
  constructor
  · rw [sameGrants, sameQueue]
    exact agree.balanced
  · rw [sameQueue]
    exact agree.keysOk

/-- Saving a grant finds the queue item of the one it replaces. -/
theorem saveGrant_agree (modules : Modules L A σ) (now : Time) (agree : Agree s)
    (grantee granter : Address) (authorization : A) (expiration : Option Time) :
    Post (saveGrant modules now grantee granter authorization expiration) s
      (fun _ after => verifyAddressFormat granter = true → verifyAddressFormat grantee = true →
        Agree after)
      (fun fault _ => fault ≠ .error .noGrantKeyFound) := by
  simp only [saveGrant, post_rules]
  refine ⟨fun _ => by simp, fun _ => ?_⟩
  refine (requeue_balanced agree.balanced expiration rfl).safe ?_
  intro _ mid moved
  obtain ⟨only, balanced, keys⟩ := moved
  refine ⟨fun _ => by simp, fun storable granterOk granteeOk => ?_⟩
  constructor
  · show Balanced (expirations (mid.grants.set _ _)) mid.queue
    rw [expirations_set, show mid.grants = s.grants from by rw [only]]
    exact balanced
  · intro key present
    rcases keys key present with ⟨time, isTime, isKey⟩ | older
    · rw [isKey]
      refine ⟨?_, granterOk, granteeOk⟩
      by_contra unstorable
      exact storable ⟨time, isTime, Bool.eq_false_of_not_eq_true unstorable⟩
    · exact agree.keysOk key older

/-- Deleting a grant finds its queue item. -/
theorem deleteGrant_agree (agree : Agree s) (grantee granter : Address) (msgType : String) :
    Post (deleteGrant grantee granter msgType) s (fun _ => Agree)
      (fun fault _ => fault = .error .noAuthorizationFound) := by
  simp only [deleteGrant, post_rules]
  intro found isFound
  have isExpiration : expirations s.grants (grantStoreKey grantee granter msgType)
      = found.expiration := by
    rw [expirations, isFound]
    rfl
  have removes : Post
      (atExpiration found.expiration (removeFromGrantQueue granter grantee msgType)) s
      (fun _ after => OnlyQueue s after
        ∧ Balanced (Function.update (expirations s.grants) (grantStoreKey grantee granter msgType)
          none) after.queue
        ∧ ∀ key, after.queue.get? key ≠ none → s.queue.get? key ≠ none)
      (fun _ _ => False) := by
    cases isTime : found.expiration with
    | none =>
      rw [isTime] at isExpiration
      refine ⟨rfl, ?_, fun key present => present⟩
      rw [← isExpiration, Function.update_eq_self]
      exact agree.balanced
    | some time =>
      rw [isTime] at isExpiration
      exact removeFromGrantQueue_balanced agree.balanced isExpiration
  refine removes.safe ?_
  intro _ mid removed
  obtain ⟨only, balanced, keys⟩ := removed
  constructor
  · show Balanced (expirations (mid.grants.delete _)) mid.queue
    rw [expirations_delete, show mid.grants = s.grants from by rw [only]]
    exact balanced
  · exact fun key present => agree.keysOk key (keys key present)

/-- An updated authorization keeps the expiration of its grant. -/
theorem update_agree (modules : Modules L A σ) (agree : Agree s) (grantee granter : Address)
    (updated : A) :
    Post (update modules grantee granter updated) s (fun _ => Agree)
      (fun fault _ => fault = .error .noAuthorizationFound) := by
  simp only [update, post_rules]
  intro found isFound
  refine ⟨?_, agree.keysOk⟩
  have same : expirations s.grants
      (grantStoreKey grantee granter (modules.authorizationUrl updated)) = found.expiration := by
    rw [expirations, isFound]
    rfl
  show Balanced (expirations (s.grants.set _ _)) s.queue
  rw [expirations_set, ← same, Function.update_eq_self]
  exact agree.balanced

theorem useGrant_agree (modules : Modules L A σ) (agree : Agree s) (grantee granter : Address)
    (msgType : String) (resp : AcceptResponse A) :
    Post (useGrant modules grantee granter msgType resp) s (fun _ => Agree)
      (fun fault _ => fault = .error .noAuthorizationFound) := by
  unfold useGrant
  split_ifs
  · exact deleteGrant_agree agree grantee granter msgType
  · cases resp.updated with
    | none => exact agree
    | some updated => exact update_agree modules agree grantee granter updated

/-! ## Pruning -/

/-- What pruning may change: grants that expired before a time, and the queue. -/
structure PrunesExpired (now : Time) (before after : AuthzState L A σ) : Prop where
  grants : ∀ key, after.grants.get? key = before.grants.get? key
    ∨ after.grants.get? key = none ∧ ∃ time, expirations before.grants key = some time ∧ time < now
  rest : after.rest = before.rest
  ran : after.ran = before.ran

theorem PrunesExpired.refl (now : Time) : PrunesExpired now s s := ⟨fun _ => .inl rfl, rfl, rfl⟩

theorem PrunesExpired.trans {now : Time} {first second third : AuthzState L A σ}
    (early : PrunesExpired now first second) (late : PrunesExpired now second third) :
    PrunesExpired now first third := by
  refine ⟨?_, late.rest.trans early.rest, late.ran.trans early.ran⟩
  intro key
  rcases early.grants key with same | removed
  · rcases late.grants key with sameLater | ⟨gone, time, isTime, expired⟩
    · exact .inl (sameLater.trans same)
    · rw [expirations, same] at isTime
      exact .inr ⟨gone, time, isTime, expired⟩
  · rcases late.grants key with sameLater | ⟨gone, _⟩
    · exact .inr ⟨sameLater.trans removed.1, removed.2⟩
    · exact .inr ⟨gone, removed.2⟩

theorem foldl_deleteGrant (key : QueueKey) (items : List String) :
    ∀ s : AuthzState L A σ,
      items.foldl (fun current typeUrl => { current with
        grants := current.grants.delete (grantStoreKey key.snd.snd key.snd.fst typeUrl) }) s
      = { s with grants := (items.map (itemGrant key)).foldl Store.delete s.grants } := by
  induction items with
  | nil =>
    intro s
    rfl
  | cons head tail ih =>
    intro s
    rw [foldl_cons, ih]
    rfl

/-- What remains of the grants when those of an item are deleted. -/
theorem get?_deleted (grants : Store GrantKey (Grant A)) (key : QueueKey) (items : List String)
    (grantKey : GrantKey) :
    (∃ typeUrl ∈ items, itemGrant key typeUrl = grantKey)
        ∧ ((items.map (itemGrant key)).foldl Store.delete grants).get? grantKey = none
      ∨ (¬ ∃ typeUrl ∈ items, itemGrant key typeUrl = grantKey)
        ∧ ((items.map (itemGrant key)).foldl Store.delete grants).get? grantKey
          = grants.get? grantKey := by
  rw [Store.get?_foldl_delete]
  split_ifs with gone
  · exact .inl ⟨mem_map.mp gone, rfl⟩
  · exact .inr ⟨fun listed => gone (mem_map.mpr listed), rfl⟩

/-- An item lists the grants that expire at its time. -/
theorem Agree.mem_item (agree : Agree s) {typeUrl : String} :
    typeUrl ∈ (s.queue.get? key).getD []
      ↔ expirations s.grants (itemGrant key typeUrl) = some key.fst := by
  have counted := agree.balanced key typeUrl
  rw [listed] at counted
  rw [← count_pos_iff, counted]
  split_ifs with isTime
  · simp [isTime]
  · simp [isTime]

/-- An item goes together with all grants it lists. -/
theorem dequeue_agree (agree : Agree s) (key : QueueKey) :
    Post (dequeue key) s
      (fun _ after => Agree after ∧ ∀ now, key.fst < now → PrunesExpired now s after)
      (fun _ _ => False) := by
  simp only [dequeue, post_rules]
  rw [post_forEach_modify, foldl_deleteGrant]
  dsimp only
  have remains := get?_deleted s.grants key ((s.queue.get? key).getD [])
  generalize List.foldl Store.delete s.grants _ = remaining at remains ⊢
  constructor
  · constructor
    · intro other otherType
      show listed (s.queue.delete key) other otherType
        = if (remaining.get? (itemGrant other otherType)).bind _ = some other.fst then 1 else 0
      have before := agree.balanced other otherType
      rw [listed, Store.get?_delete]
      by_cases sameKey : other = key
      · rw [if_pos sameKey]
        symm
        apply if_neg
        intro isTime
        rcases remains (itemGrant other otherType) with ⟨_, gone⟩ | ⟨unlisted, kept⟩
        · rw [gone] at isTime
          cases isTime
        · -- a grant that expires at the time of the item is listed, and so deleted
          rw [kept, sameKey] at isTime
          rw [sameKey] at unlisted
          exact unlisted ⟨otherType, agree.mem_item.mpr isTime, rfl⟩
      · rw [if_neg sameKey]
        rcases remains (itemGrant other otherType) with ⟨⟨typeUrl, member, same⟩, gone⟩ | ⟨_, kept⟩
        · -- a deleted grant expires at the time of this item, not of the other one
          have atTime := agree.mem_item.mp member
          rw [same] at atTime
          have apart : some key.fst ≠ some other.fst := by
            intro sameTime
            exact sameKey (key_eq_of_itemGrant same.symm (Option.some.inj sameTime).symm).1
          rw [atTime, if_neg apart] at before
          rw [gone]
          exact before
        · rw [kept]
          exact before
    · intro other present
      apply agree.keysOk other
      intro absent
      apply present
      show (s.queue.delete key).get? other = none
      rw [Store.get?_delete, absent, ite_self]
  · intro now expired
    refine ⟨?_, rfl, rfl⟩
    intro grantKey
    rcases remains grantKey with ⟨⟨typeUrl, member, same⟩, gone⟩ | ⟨_, kept⟩
    · rw [← same] at gone ⊢
      exact .inr ⟨gone, key.fst, agree.mem_item.mp member, expired⟩
    · exact .inl kept

/-- The loop over the items, however many it handles. -/
theorem dequeueUpTo_agree (limit : Int) (keys : List QueueKey) :
    ∀ {count : Nat} {s : AuthzState L A σ}, Agree s →
      Post (dequeueUpTo limit count keys) s
        (fun _ after => Agree after
          ∧ ∀ now, (∀ key ∈ keys, key.fst < now) → PrunesExpired now s after)
        (fun _ _ => False) := by
  induction keys with
  | nil =>
    intro count s agree
    exact ⟨agree, fun now _ => .refl now⟩
  | cons key rest ih =>
    intro count s agree
    rw [dequeueUpTo, post_bind]
    refine (dequeue_agree agree key).imp ?_
    intro _ mid step
    obtain ⟨midAgree, prunes⟩ := step
    rw [post_ite]
    constructor
    · intro _
      exact ⟨midAgree, fun now expired => prunes now (expired key mem_cons_self)⟩
    · intro _
      refine (ih midAgree).imp ?_
      intro _ after later
      refine ⟨later.1, fun now expired => ?_⟩
      exact (prunes now (expired key mem_cons_self)).trans
        (later.2 now fun other member => expired other (mem_cons_of_mem _ member))

theorem formatTimeBytes_lt {first second : Time} (firstOk : validTimestamp first = true)
    (secondOk : validTimestamp second = true) :
    formatTimeBytes first < formatTimeBytes second ↔ first < second := by
  simp only [validTimestamp, Bool.and_eq_true, decide_eq_true_eq] at firstOk secondOk
  exact formatTimeBytes_lt_iff firstOk.1 firstOk.2 secondOk.1 secondOk.2

/-- The end of the walk excludes the items of the block time itself: their keys go on with
the length of the granter's address, which is not zero. -/
theorem expired_of_below_end {now : Time} (nowOk : validTimestamp now = true) (keyOk : KeyOk key)
    (below : grantQueueKeyBytes key < grantQueueEnd now) : key.fst < now := by
  have sameLength : (formatTimeBytes key.fst).length = (formatTimeBytes now).length := by
    rw [length_formatTimeBytes, length_formatTimeBytes]
  rw [grantQueueKeyBytes, grantQueueEnd, cons_lt_cons_iff] at below
  rcases below with impossible | ⟨_, below⟩
  · exact absurd impossible (lt_irrefl _)
  · rw [append_lt_append_iff _ _ sameLength] at below
    rcases below with earlier | ⟨_, addresses⟩
    · exact (formatTimeBytes_lt keyOk.time nowOk).mp earlier
    · exfalso
      have nonempty : key.snd.fst.length ≠ 0 := by
        intro empty
        have granterOk := keyOk.granter
        simp [verifyAddressFormat, empty] at granterOk
      rw [lengthFirst, if_neg nonempty, cons_append, cons_lt_cons_iff] at addresses
      rcases addresses with negative | ⟨_, impossible⟩
      · exact absurd negative (Fin.not_lt_zero _)
      · exact absurd impossible (not_lt_nil _)

/-- Pruning keeps the agreement and removes only what expired before the block time. -/
theorem dequeueAndDeleteExpiredGrants_agree (now : Time) (agree : Agree s) (limit : Int) :
    Post (dequeueAndDeleteExpiredGrants now limit) s
      (fun _ after => Agree after ∧ (validTimestamp now = true → PrunesExpired now s after))
      (fun _ _ => False) := by
  simp only [dequeueAndDeleteExpiredGrants, post_rules]
  refine (dequeueUpTo_agree limit _ agree).imp ?_
  intro _ after pruned
  refine ⟨pruned.1, fun nowOk => pruned.2 now ?_⟩
  intro key member
  rw [mem_mergeSort, mem_filter] at member
  obtain ⟨inQueue, below⟩ := member
  apply expired_of_below_end nowOk (agree.keysOk key ?_) (of_decide_eq_true below)
  intro absent
  rw [Store.mem_keys, absent] at inQueue
  cases inQueue

end Queue

end AtomOneSdk.Authz
