import AtomOneSdk.Authz.Proposal

/-!
Contract: the messages that run in the name of the governance account.

Owns: what the execution of a message adds to the record of those that ran, exactly which
accepted proposals run a hidden message if they run to the end, and the proposal that grants
first and then runs one.

Does **not** own: what messages of other modules do.
-/

namespace AtomOneSdk.Authz

open Lib Lib.Action List
open Staking (Address Time)

section Execution

variable {L A σ : Type} (modules : Modules L A σ) (now : Time) (authority : Address)

def Ungranted (s : AuthzState L A σ) : Prop :=
  ∀ grantee msgType, s.grants.get? (grantStoreKey grantee authority msgType) = none

/-- What may happen in the name of an authority: its grants, by grantee and message type, and
the messages that may run. -/
structure Scope (L A : Type) where
  authority : Address
  granted : Address → String → Prop
  allowed : Msg L A → Prop

/-- The grants of the authority are in the scope. -/
def GrantedOnly (scope : Scope L A) (s : AuthzState L A σ) : Prop :=
  ∀ grantee msgType, s.grants.get? (grantStoreKey grantee scope.authority msgType) ≠ none →
    scope.granted grantee msgType

/-- An action ran at most `count` messages, those signed by the authority are allowed, and
the authority has still granted nothing else. -/
def Adds (scope : Scope L A) (count : Nat) (before after : AuthzState L A σ) : Prop :=
  GrantedOnly scope after ∧ ∃ added, after.ran = before.ran ++ added ∧ added.length ≤ count
    ∧ ∀ entry ∈ added, entry.1 = scope.authority → scope.allowed entry.2

variable {authority} {s after : AuthzState L A σ} {scope : Scope L A} {n m : Nat}

theorem Adds.none (grants : GrantedOnly scope after)
    (ran : after.ran = s.ran) : Adds scope 0 s after :=
  ⟨grants, [], by rw [ran, append_nil], le_refl 0, fun _ member => nomatch member⟩

theorem Adds.trans {first second third : AuthzState L A σ}
    (early : Adds scope n first second) (late : Adds scope m second third) :
    Adds scope (n + m) first third := by
  obtain ⟨_, added, isAdded, length, clean⟩ := early
  obtain ⟨within, added', isAdded', length', clean'⟩ := late
  refine ⟨within, added ++ added', ?_, ?_, ?_⟩
  · rw [isAdded', isAdded, append_assoc]
  · rw [length_append]
    omega
  · intro entry member
    rcases mem_append.mp member with inFirst | inSecond
    · exact clean entry inFirst
    · exact clean' entry inSecond

theorem Adds.mono (adds : Adds scope n s after) (le : n ≤ m) : Adds scope m s after := by
  obtain ⟨within, added, isAdded, length, clean⟩ := adds
  exact ⟨within, added, isAdded, length.trans le, clean⟩

theorem Adds.refl (within : GrantedOnly scope s) : Adds scope n s s :=
  (Adds.none within rfl).mono (Nat.zero_le n)

abbrev AddsUpTo (scope : Scope L A) (count : Nat) {α : Type}
    (action : Action AuthzReason (AuthzState L A σ) α) (s : AuthzState L A σ) : Prop :=
  Post action s (fun _ => Adds scope count s) fun _ => Adds scope count s

/-- The counts of an action and of its continuation, which starts with nothing else granted. -/
theorem adds_bind {α β : Type} {first : AuthzM L A σ α} {next : α → AuthzM L A σ β} {count : Nat}
    {known : α → Prop} (early : Post first s (fun value mid => known value ∧ Adds scope n s mid)
      (fun _ => Adds scope n s))
    (later : ∀ {value mid}, known value → GrantedOnly scope mid →
      AddsUpTo scope m (next value) mid) (sum : n + m ≤ count) :
    AddsUpTo scope count (first >>= next) s := by
  rw [AddsUpTo, post_bind]
  refine early.mono ?_ ?_
  · intro value mid both
    obtain ⟨isKnown, adds⟩ := both
    have total : ∀ {after}, Adds scope m mid after → Adds scope count s after :=
      fun more => (adds.trans more).mono sum
    exact (later isKnown adds.1).mono (fun _ _ => total) (fun _ _ => total)
  · intro _ _ adds
    exact adds.mono (by omega)

theorem AddsUpTo.known {α : Type} {action : AuthzM L A σ α} (adds : AddsUpTo scope n action s) :
    Post action s (fun _ mid => True ∧ Adds scope n s mid) (fun _ => Adds scope n s) :=
  adds.imp fun _ _ added => ⟨trivial, added⟩

/-! ## Handlers without nested messages -/

variable (within : GrantedOnly scope s)

include within

theorem onRest_adds (action : Action AuthzReason σ Unit) : AddsUpTo scope 0 (onRest action) s := by
  unfold onRest
  apply post_zoom.mpr
  unfold Post
  cases action s.rest with
  | ok value rest => exact .none within rfl
  | error fault rest => exact .none within rfl

theorem GrantedOnly.set {grantee granter : Address} {msgType : String}
    (known : granter = scope.authority → scope.granted grantee msgType) (value : Grant A) :
    GrantedOnly scope
      { s with grants := s.grants.set (grantStoreKey grantee granter msgType) value } := by
  intro other otherType present
  by_cases same : grantStoreKey other scope.authority otherType
      = grantStoreKey grantee granter msgType
  · cases same
    exact known rfl
  · apply within other otherType
    rwa [← Store.get?_set_of_ne same]

theorem GrantedOnly.delete (key : GrantKey) :
    GrantedOnly scope { s with grants := s.grants.delete key } := by
  intro other otherType present
  apply within other otherType
  intro absent
  apply present
  show (s.grants.delete key).get? _ = none
  rw [Store.get?_delete, absent, ite_self]

def OnlyQueue (before after : AuthzState L A σ) : Prop :=
  after = { before with queue := after.queue }

omit within in
theorem OnlyQueue.adds (only : OnlyQueue s after)
    (within : GrantedOnly scope s) : Adds scope 0 s after := by
  rw [only]
  exact .none within rfl

omit within in
theorem removeFromGrantQueue_onlyQueue (granter grantee : Address) (msgType : String)
    (expiration : Time) :
    Post (removeFromGrantQueue granter grantee msgType expiration) s
      (fun _ => OnlyQueue s) (fun _ => OnlyQueue s) := by
  simp only [removeFromGrantQueue, post_rules]
  constructor
  · intro items _
    split
    · exact rfl
    · exact rfl
  · intro _
    exact rfl

omit within in
theorem atExpiration_onlyQueue {expiration : Option Time} {action : Time → AuthzM L A σ Unit}
    (each : ∀ time, Post (action time) s (fun _ => OnlyQueue s) (fun _ => OnlyQueue s)) :
    Post (atExpiration expiration action) s (fun _ => OnlyQueue s) (fun _ => OnlyQueue s) := by
  cases expiration with
  | none => exact rfl
  | some time => exact each time

omit within in
theorem requeue_onlyQueue (granter grantee : Address) (msgType : String)
    (oldExp expiration : Option Time) :
    Post (requeue granter grantee msgType oldExp expiration) s
      (fun _ => OnlyQueue s) (fun _ => OnlyQueue s) := by
  rw [requeue, post_bind]
  refine (atExpiration_onlyQueue ?_).imp ?_
  · intro old
    rw [post_whenever]
    exact ⟨fun _ => removeFromGrantQueue_onlyQueue granter grantee msgType old, fun _ => rfl⟩
  · intro _ mid removed
    refine (atExpiration_onlyQueue (s := mid) ?_).mono ?_ ?_
    · intro new
      rw [post_whenever]
      exact ⟨fun _ => rfl, fun _ => rfl⟩
    · intro _ after inserted
      rw [removed] at inserted
      exact inserted
    · intro _ after inserted
      rw [removed] at inserted
      exact inserted

theorem deleteGrant_adds (grantee granter : Address) (msgType : String) :
    AddsUpTo scope 0 (deleteGrant grantee granter msgType) s := by
  simp only [deleteGrant, post_rules]
  refine ⟨?_, fun _ => .none within rfl⟩
  intro found _
  refine (atExpiration_onlyQueue (removeFromGrantQueue_onlyQueue granter grantee msgType)).mono
    ?_ (fun _ _ only => only.adds within)
  intro _ mid only
  have adds : Adds scope 0 s mid := only.adds within
  exact adds.trans (.none (adds.1.delete _) rfl)

theorem saveGrant_adds {granter grantee : Address} {authorization : A}
    (known : granter = scope.authority →
      scope.granted grantee (modules.authorizationUrl authorization)) (expiration : Option Time) :
    AddsUpTo scope 0 (saveGrant modules now grantee granter authorization expiration) s := by
  simp only [saveGrant, post_rules]
  refine ⟨fun _ => .none within rfl, fun _ => ?_⟩
  refine (requeue_onlyQueue granter grantee _ _ expiration).mono ?_
    (fun _ _ only => only.adds within)
  intro _ mid only
  have adds : Adds scope 0 s mid := only.adds within
  exact ⟨fun _ => adds, fun _ => adds.trans (.none (adds.1.set known _) rfl)⟩

theorem grant_adds {granter grantee : Address} {authorization : A}
    (known : granter = scope.authority →
      scope.granted grantee (modules.authorizationUrl authorization)) (expiration : Option Time) :
    AddsUpTo scope 0 (grant modules now granter grantee authorization expiration) s := by
  simp only [grant, post_rules]
  have same : Adds scope 0 s s := .none within rfl
  refine ⟨fun _ => same, fun _ => ⟨fun _ => same, fun _ => ⟨fun _ => same, fun _ =>
    ⟨fun _ => same, fun _ => ?_⟩⟩⟩⟩
  refine (onRest_adds within (modules.granteeAccount grantee)).imp ?_
  intro _ mid adds
  refine ⟨fun _ => adds, fun _ => ?_⟩
  have saves : AddsUpTo scope 0
      (saveGrant modules now grantee granter authorization expiration) mid :=
    saveGrant_adds modules now adds.1 known expiration
  exact saves.mono (fun _ after saved => adds.trans saved) (fun _ after saved => adds.trans saved)

theorem revoke_adds (granter grantee : Address) (msgTypeUrl : String) :
    AddsUpTo scope 0 (revoke granter grantee msgTypeUrl) s := by
  simp only [revoke, post_rules]
  have same : Adds scope 0 s s := .none within rfl
  exact ⟨fun _ => same, fun _ => ⟨fun _ => same, fun _ => ⟨fun _ => same, fun _ =>
    ⟨fun _ => same, fun _ => deleteGrant_adds within _ _ _⟩⟩⟩⟩

theorem dequeue_adds (key : QueueKey) : AddsUpTo scope 0 (dequeue key) s := by
  simp only [dequeue, post_rules]
  refine post_forEach (fun _ => Adds scope 0 s) ?_ _ _ (.none within rfl)
  intro typeUrl _ mid adds
  exact adds.trans (.none (adds.1.delete _) rfl)

omit within in
theorem dequeueUpTo_adds (limit : Int) (keys : List QueueKey) :
    ∀ {count : Nat} {s : AuthzState L A σ}, GrantedOnly scope s →
      AddsUpTo scope 0 (dequeueUpTo limit count keys) s := by
  induction keys with
  | nil =>
    intro count s within
    exact .none within rfl
  | cons key rest ih =>
    intro count s within
    refine adds_bind (dequeue_adds within key).known ?_ (Nat.zero_add 0).le
    intro _ _ _ within
    rw [AddsUpTo, post_ite]
    exact ⟨fun _ => .none within rfl, fun _ => ih within⟩

theorem useGrant_adds (grantee granter : Address) (msgType : String) (resp : AcceptResponse A) :
    AddsUpTo scope 0 (useGrant modules grantee granter msgType resp) s := by
  have same : Adds scope 0 s s := .none within rfl
  unfold useGrant
  split_ifs
  · exact deleteGrant_adds within _ _ _
  · cases resp.updated with
    | none => exact same
    | some updated =>
      simp only [update, post_rules]
      refine ⟨fun found isFound => .none (within.set (fun isAuthority => ?_) _) rfl, fun _ => same⟩
      apply within
      rw [← isAuthority, isFound]
      exact Option.some_ne_none found

/-- A message of the authority is authorized by one of its grants. -/
theorem authorize_adds (grantee granter : Address) (msg : Msg L A) :
    Post (authorize modules now grantee granter msg) s
      (fun _ after => (granter = scope.authority → scope.granted grantee (msg.typeUrl modules))
        ∧ Adds scope 0 s after)
      (fun _ => Adds scope 0 s) := by
  have same : Adds scope 0 s s := .none within rfl
  simp only [authorize, post_bind, post_get, post_getOrFail]
  refine ⟨?_, fun _ => same⟩
  intro found isFound
  have known : granter = scope.authority → scope.granted grantee (msg.typeUrl modules) := by
    intro isAuthority
    apply within
    rw [← isAuthority, isFound]
    exact Option.some_ne_none found
  rw [post_failIf]
  refine ⟨fun _ => same, fun _ => ?_⟩
  cases modules.accept found.authorization msg s.rest with
  | error reason => exact same
  | ok resp =>
    simp only [post_bind]
    refine (useGrant_adds modules within grantee granter _ resp).imp ?_
    intro _ mid adds
    rw [post_failIf]
    exact ⟨fun _ => adds, fun _ => ⟨known, adds⟩⟩

/-! ## Nested messages -/

mutual

/-- The messages nested in a message, at every depth. -/
def Msg.nested : Msg L A → List (Msg L A)
  | .exec _ msgs => nestedIn msgs
  | _ => []

def nestedIn : List (Option (Msg L A)) → List (Msg L A)
  | [] => []
  | none :: rest => nestedIn rest
  | some msg :: rest => msg :: (msg.nested ++ nestedIn rest)

end

mutual

/-- What a message runs in the name of the authority is allowed, and what it grants in its name
is known, if it runs messages of the authority only for itself and by known grants. -/
def Covered (scope : Scope L A) : Msg L A → Prop
  | .grant granter grantee authorization _ =>
    granter = scope.authority → scope.granted grantee (modules.authorizationUrl authorization)
  | .exec (some grantee) msgs => CoveredIn scope grantee msgs
  | _ => True

def CoveredIn (scope : Scope L A) (grantee : Address) : List (Option (Msg L A)) → Prop
  | [] => True
  | none :: _ => True
  | some msg :: rest =>
    ((msg.signers modules = some [scope.authority] →
        grantee = scope.authority ∨ scope.granted grantee (msg.typeUrl modules)) →
      (msg.signers modules = some [scope.authority] → scope.allowed msg) ∧ Covered scope msg)
    ∧ CoveredIn scope grantee rest

end

omit within

theorem granterOf_adds (within : GrantedOnly scope s) (msg : Msg L A) :
    Post (granterOf modules msg) s
      (fun granter mid => msg.signers modules = some [granter] ∧ Adds scope 0 s mid)
      (fun _ => Adds scope 0 s) := by
  have same : Adds scope 0 s s := .none within rfl
  simp only [granterOf, post_rules]
  refine ⟨?_, fun _ => same⟩
  intro signers isSigners
  split
  next granter => exact ⟨isSigners, same⟩
  next => exact same

variable (scope) in
/-- A message runs by a grant or is the grantee's own. -/
theorem authorized_adds (within : GrantedOnly scope s) (grantee granter : Address) (msg : Msg L A) :
    Post (whenever (granter ≠ grantee) (authorize modules now grantee granter msg)) s
      (fun _ after => (granter = scope.authority →
          grantee = scope.authority ∨ scope.granted grantee (msg.typeUrl modules))
        ∧ Adds scope 0 s after)
      (fun _ => Adds scope 0 s) := by
  rw [post_whenever]
  constructor
  · intro _
    refine (authorize_adds modules now within grantee granter msg).imp ?_
    intro _ after both
    exact ⟨fun isAuthority => .inr (both.1 isAuthority), both.2⟩
  · intro own
    refine ⟨?_, .none within rfl⟩
    intro isAuthority
    rw [← isAuthority]
    exact .inl (not_not.mp own).symm

theorem noteRun_adds (within : GrantedOnly scope s) {granter : Address} {msg : Msg L A}
    (clean : granter = scope.authority → scope.allowed msg) :
    AddsUpTo scope 1 (noteRun modules granter msg) s := by
  simp only [noteRun, post_rules]
  refine ⟨fun _ => .refl within, fun _ => ?_⟩
  refine ⟨within, [(granter, msg)], rfl, le_refl 1, ?_⟩
  intro entry member
  rw [mem_singleton.mp member]
  exact clean

/-- The count of a message and of those behind it. -/
theorem counted_cons {first rest : Except InspectionError Nat}
    (counted : (do pure (1 + (← first) + (← rest))) = .ok n) :
    ∃ nested later, first = .ok nested ∧ rest = .ok later ∧ n = 1 + nested + later := by
  rw [bind_eq_ok] at counted
  obtain ⟨nested, countedFirst, counted⟩ := counted
  rw [bind_eq_ok] at counted
  obtain ⟨later, countedRest, isSum⟩ := counted
  cases isSum
  exact ⟨nested, later, countedFirst, countedRest, rfl⟩

mutual

theorem handle_adds : ∀ (msg : Msg L A) {depth n : Nat} {s : AuthzState L A σ},
    GrantedOnly scope s → countExecMessages depth msg = .ok n → Covered modules scope msg →
    AddsUpTo scope n (handle modules now msg) s
  | .leaf msg, depth, n, s, within, counted, _ => by
    cases counted
    exact onRest_adds within _
  | .grant granter grantee authorization expiration, depth, n, s, within, counted, covered => by
    cases counted
    exact grant_adds modules now within covered _
  | .revoke granter grantee msgTypeUrl, depth, n, s, within, counted, _ => by
    cases counted
    exact revoke_adds within _ _ _
  | .pruneExpiredGrants pruner, depth, n, s, within, counted, _ => by
    cases counted
    simp only [handle, dequeueAndDeleteExpiredGrants, post_rules]
    exact dequeueUpTo_adds pruneLimit _ within
  | .exec grantee msgs, depth, n, s, within, counted, covered => by
    have same : Adds scope n s s := .refl within
    rw [countExecMessages] at counted
    split_ifs at counted with deep
    simp only [handle, validateMsgs, post_rules]
    refine ⟨?_, fun _ => same⟩
    intro grantee isGrantee
    cases isGrantee
    refine ⟨fun _ => same, fun _ => ⟨fun _ => same, fun _ => ⟨fun _ => same, fun _ => ?_⟩⟩⟩
    exact dispatchActions_adds msgs within counted covered

theorem dispatchActions_adds : ∀ (msgs : List (Option (Msg L A))) {grantee : Address}
    {depth n : Nat} {s : AuthzState L A σ}, GrantedOnly scope s →
    countInner depth msgs = .ok n → CoveredIn modules scope grantee msgs →
    AddsUpTo scope n (dispatchActions modules now grantee msgs) s
  | [], grantee, depth, n, s, within, counted, _ => .refl within
  | none :: rest, grantee, depth, n, s, within, counted, _ => .refl within
  | some msg :: rest, grantee, depth, n, s, within, counted, covered => by
    obtain ⟨nested, later, countedFirst, countedRest, rfl⟩ := counted_cons counted
    obtain ⟨first, coveredRest⟩ := covered
    rw [dispatchActions]
    refine adds_bind (granterOf_adds modules within msg) ?_ (Nat.zero_add _).le
    intro granter _ signers within
    refine adds_bind (authorized_adds modules now scope within grantee granter msg) ?_
      (Nat.zero_add _).le
    intro _ _ runs within
    simp only [signers, Option.some.injEq, cons.injEq, and_true] at first
    obtain ⟨isAllowed, coveredFirst⟩ := first runs
    refine adds_bind (m := nested + later) (noteRun_adds modules within isAllowed).known ?_
      (by omega)
    intro _ _ _ within
    refine adds_bind (handle_adds msg within countedFirst coveredFirst).known ?_ le_rfl
    intro _ _ _ within
    exact dispatchActions_adds rest within countedRest coveredRest

end

/-! ## Which messages run -/

section Trees

variable (authority) (granted : Address → String → Prop)

/-- No `MsgExec` of another grantee holds a message of the authority for which the grantee has
one of the grants. -/
def GrantsUnused (msg : Msg L A) : Prop :=
  ∀ grantee msgs, .exec (some grantee) msgs ∈ msg :: msg.nested → grantee ≠ authority →
    ∀ inner, some inner ∈ msgs → inner.signers modules = some [authority] →
      ¬ granted grantee (inner.typeUrl modules)

variable {authority granted} {msg : Msg L A} {msgs : List (Option (Msg L A))}

theorem mem_nestedIn (member : some msg ∈ msgs) :
    ∀ inner ∈ msg :: msg.nested, inner ∈ nestedIn msgs := by
  induction msgs with
  | nil => cases member
  | cons first rest ih =>
    intro inner isInner
    rcases mem_cons.mp member with rfl | inRest
    · rw [nestedIn, ← cons_append]
      exact mem_append_left _ isInner
    · cases first with
      | none => exact ih inRest inner isInner
      | some first => exact mem_cons_of_mem _ (mem_append_right _ (ih inRest inner isInner))

theorem GrantsUnused.inner {grantee : Option Address}
    (unused : GrantsUnused modules authority granted (.exec grantee msgs))
    (member : some msg ∈ msgs) : GrantsUnused modules authority granted msg :=
  fun other inner isNested =>
    unused other inner (mem_cons_of_mem _ (mem_nestedIn member _ isNested))

theorem coveredIn_of_forall {grantee : Address}
    (each : ∀ msg, some msg ∈ msgs → (msg.signers modules = some [scope.authority] →
        grantee = scope.authority ∨ scope.granted grantee (msg.typeUrl modules)) →
      (msg.signers modules = some [scope.authority] → scope.allowed msg)
        ∧ Covered modules scope msg) :
    CoveredIn modules scope grantee msgs := by
  induction msgs with
  | nil => trivial
  | cons first rest ih =>
    cases first with
    | none => trivial
    | some first =>
      exact ⟨each first mem_cons_self, ih fun msg member => each msg (mem_cons_of_mem _ member)⟩

/-- A message nested in a `MsgExec` of the authority that does not reach it. -/
theorem inner_not_reaching {depth : Nat}
    (inspected : innerReachesAuthority modules authority depth msgs = .ok false)
    (member : some msg ∈ msgs) :
    execReachesAuthority modules authority (depth + 1) msg = .ok false := by
  induction msgs with
  | nil => cases member
  | cons first rest ih =>
    cases first with
    | none => exact ih inspected (by simpa using member)
    | some first =>
      rw [innerReachesAuthority, bind_eq_ok] at inspected
      obtain ⟨reaches, reached, later⟩ := inspected
      cases reaches with
      | true => cases later
      | false =>
        rcases mem_cons.mp member with same | inRest
        · cases same
          exact reached
        · exact ih later inRest

theorem sizeOf_lt_exec {grantee : Option Address} (member : some msg ∈ msgs) :
    sizeOf msg < sizeOf (Msg.exec grantee msgs) := by
  have inside := sizeOf_lt_of_mem member
  simp only [Option.some.sizeOf_spec] at inside
  simp only [Msg.exec.sizeOf_spec]
  omega

/-- The inspection covers a message whose grants are unused: a message of the authority that
does not reach it is a `MsgExec`, and those of other grantees run none of its messages. -/
theorem covered_of_inspected
    (execsAllowed : ∀ msg : Msg L A, msg.isExec = true → scope.allowed msg) :
    ∀ (msg : Msg L A) {depth : Nat}, (msg.signers modules = some [scope.authority] →
        execReachesAuthority modules scope.authority depth msg = .ok false) →
      GrantsUnused modules scope.authority scope.granted msg → Covered modules scope msg
  | .leaf _, _, _, _ => trivial
  | .revoke _ _ _, _, _, _ => trivial
  | .pruneExpiredGrants _, _, _, _ => trivial
  | .exec none _, _, _, _ => trivial
  | .grant granter grantee authorization expiration, depth, inspected, _ => by
    intro isAuthority
    have signers : (Msg.grant granter grantee authorization expiration : Msg L A).signers modules
        = some [scope.authority] := by rw [← isAuthority]; rfl
    have reached := inspected signers
    rw [execReachesAuthority, signers] at reached
    · simp [pure, Except.pure] at reached
    · exact fun _ _ isExec => nomatch isExec
  | .exec (some grantee) msgs, depth, inspected, unused => by
    apply coveredIn_of_forall
    intro msg member runs
    have reached : grantee = scope.authority →
        execReachesAuthority modules scope.authority (depth + 1) msg = .ok false := by
      intro isAuthority
      have outer := inspected (by rw [← isAuthority]; rfl)
      rw [execReachesAuthority] at outer
      split_ifs at outer with deep foreign
      · exact absurd isAuthority foreign
      · exact inner_not_reaching modules outer member
    have own : msg.signers modules = some [scope.authority] → grantee = scope.authority := by
      intro signers
      by_contra foreign
      exact unused grantee msgs mem_cons_self foreign msg member signers
        ((runs signers).resolve_left foreign)
    refine ⟨fun signers => execsAllowed msg ?_, ?_⟩
    · have inner := reached (own signers)
      cases msg with
      | exec grantee msgs => rfl
      | _ =>
        rw [execReachesAuthority, signers] at inner
        simp [pure, Except.pure] at inner
        exact fun _ _ isExec => nomatch isExec
    · exact covered_of_inspected execsAllowed msg (fun signers => reached (own signers))
        (unused.inner modules member)
termination_by msg => sizeOf msg
decreasing_by exact sizeOf_lt_exec ‹_›

/-- Whatever is granted, only nested messages run. -/
theorem covered_of_nested {allowed : Msg L A → Prop} : ∀ (msg : Msg L A), (∀ inner ∈ msg.nested,
      inner.signers modules = some [authority] → allowed inner) →
    Covered modules ⟨authority, fun _ _ => True, allowed⟩ msg
  | .leaf _, _ => trivial
  | .grant _ _ _ _, _ => fun _ => trivial
  | .revoke _ _ _, _ => trivial
  | .pruneExpiredGrants _, _ => trivial
  | .exec none _, _ => trivial
  | .exec (some grantee) msgs, nested => by
    apply coveredIn_of_forall
    intro msg member _
    have inside := mem_nestedIn member
    exact ⟨nested msg (inside msg mem_cons_self), covered_of_nested msg fun inner isInner =>
      nested inner (inside inner (mem_cons_of_mem _ isInner))⟩
termination_by msg => sizeOf msg
decreasing_by exact sizeOf_lt_exec ‹_›

end Trees

/-! ## Messages that ran -/

/-- The messages ran, each with its one signer, and what had run before is still recorded. -/
def Recorded (msgs : List (Msg L A)) (before after : AuthzState L A σ) : Prop :=
  (∀ entry ∈ before.ran, entry ∈ after.ran)
    ∧ ∀ msg ∈ msgs, ∃ signer, msg.signers modules = some [signer] ∧ (signer, msg) ∈ after.ran

theorem Recorded.trans {first second : List (Msg L A)} {before mid after : AuthzState L A σ}
    (early : Recorded modules first before mid) (late : Recorded modules second mid after) :
    Recorded modules (first ++ second) before after := by
  refine ⟨fun entry member => late.1 entry (early.1 entry member), fun msg member => ?_⟩
  rcases mem_append.mp member with inFirst | inSecond
  · obtain ⟨signer, signers, ran⟩ := early.2 msg inFirst
    exact ⟨signer, signers, late.1 _ ran⟩
  · exact late.2 msg inSecond

theorem Adds.recorded (adds : Adds scope n s after) : Recorded modules [] s after := by
  obtain ⟨_, added, isAdded, -⟩ := adds
  refine ⟨fun entry member => ?_, fun msg member => nomatch member⟩
  rw [isAdded]
  exact mem_append_left _ member

/-- A message that is recorded as run by its signer. -/
theorem noteRun_recorded {granter : Address} {msg : Msg L A}
    (signers : msg.signers modules = some [granter]) :
    Ensures (noteRun modules granter msg) s fun _ => Recorded modules [msg] s := by
  simp only [noteRun, Ensures, post_rules]
  refine fun _ => ⟨fun entry member => mem_append_left _ member, ?_⟩
  intro other member
  rw [mem_singleton.mp member]
  exact ⟨granter, signers, mem_append_right _ (mem_singleton.mpr rfl)⟩

theorem recorded_bind {α β : Type} {first : AuthzM L A σ α} {next : α → AuthzM L A σ β}
    (known : α → Prop) {early late : List (Msg L A)}
    (ran : Ensures first s fun value mid => known value ∧ Recorded modules early s mid)
    (later : ∀ {value mid}, known value →
      Ensures (next value) mid fun _ => Recorded modules late mid) :
    Ensures (first >>= next) s fun _ => Recorded modules (early ++ late) s := by
  rw [Ensures, post_bind]
  refine ran.imp ?_
  rintro value mid ⟨isKnown, recorded⟩
  exact (later isKnown).imp fun _ _ more => recorded.trans modules more

/-- Everything is granted and allowed; whose name it is in does not matter. -/
def openScope : Scope L A := ⟨[], fun _ _ => True, fun _ => True⟩

theorem recorded_of_adds {α : Type} {action : AuthzM L A σ α} {known : α → Prop}
    (adds : Post action s
      (fun value mid => known value ∧ Adds openScope n s mid) (fun _ => Adds openScope n s)) :
    Ensures action s fun value mid => known value ∧ Recorded modules [] s mid :=
  adds.ensures fun _ _ both => ⟨both.1, both.2.recorded modules⟩

theorem grantedOnly_open (s : AuthzState L A σ) : GrantedOnly openScope s :=
  fun _ _ _ => trivial

theorem handle_keeps {msg : Msg L A} {depth : Nat} (counted : countExecMessages depth msg = .ok n)
    (leaf : msg.nested = []) :
    Ensures (handle modules now msg) s fun _ => Recorded modules msg.nested s := by
  have covered : Covered modules openScope msg :=
    covered_of_nested modules msg fun _ _ _ => trivial
  rw [leaf]
  exact (handle_adds modules now msg (grantedOnly_open s) counted covered).ensures
    fun _ _ adds => adds.recorded modules

mutual

/-- A message that runs to the end has run every message nested in it. -/
theorem handle_recorded : ∀ (msg : Msg L A) {depth n : Nat} {s : AuthzState L A σ},
    countExecMessages depth msg = .ok n →
    Ensures (handle modules now msg) s fun _ => Recorded modules msg.nested s
  | .exec grantee msgs, depth, n, s, counted => by
    rw [countExecMessages] at counted
    split_ifs at counted with deep
    simp only [handle, validateMsgs, Ensures, post_rules]
    exact fun grantee _ _ _ _ => dispatchActions_recorded msgs counted
  | .leaf _, _, _, _, counted => handle_keeps modules now counted rfl
  | .grant _ _ _ _, _, _, _, counted => handle_keeps modules now counted rfl
  | .revoke _ _ _, _, _, _, counted => handle_keeps modules now counted rfl
  | .pruneExpiredGrants _, _, _, _, counted => handle_keeps modules now counted rfl

theorem dispatchActions_recorded : ∀ (msgs : List (Option (Msg L A))) {grantee : Address}
    {depth n : Nat} {s : AuthzState L A σ}, countInner depth msgs = .ok n →
    Ensures (dispatchActions modules now grantee msgs) s fun _ => Recorded modules (nestedIn msgs) s
  | [], _, _, _, s, _ => ⟨fun _ member => member, fun _ member => nomatch member⟩
  | none :: _, _, _, _, _, _ => trivial
  | some msg :: rest, grantee, depth, n, s, counted => by
    obtain ⟨_, _, countedFirst, countedRest, -⟩ := counted_cons counted
    rw [dispatchActions, nestedIn, ← nil_append (msg :: _)]
    refine recorded_bind modules _ (recorded_of_adds modules
      (granterOf_adds modules (grantedOnly_open s) msg)) ?_
    intro granter mid signers
    rw [← nil_append (msg :: _)]
    refine recorded_bind modules _ (recorded_of_adds modules
      (authorized_adds modules now openScope (grantedOnly_open mid) grantee granter msg)) ?_
    intro _ mid _
    rw [← singleton_append]
    refine recorded_bind modules (fun _ => True)
      ((noteRun_recorded modules signers).imp fun _ _ noted => ⟨trivial, noted⟩) ?_
    intro _ mid _
    refine recorded_bind modules (fun _ => True)
      ((handle_recorded msg countedFirst).imp fun _ _ ran => ⟨trivial, ran⟩) ?_
    intro _ mid _
    exact dispatchActions_recorded rest countedRest

end

/-! ## Proposals -/

theorem inspected_of_contains (msgs : List (Msg L A)) :
    containsSelfExecAsAuthority modules authority msgs = .ok false →
    ∀ msg ∈ msgs, msg.isExec = true → execReachesAuthority modules authority 1 msg = .ok false := by
  induction msgs with
  | nil =>
    intro _ msg member
    cases member
  | cons first rest ih =>
    intro inspected msg member isExec
    rw [containsSelfExecAsAuthority] at inspected
    split_ifs at inspected with notExec
    · rcases mem_cons.mp member with isFirst | inRest
      · rw [isFirst, notExec] at isExec
        cases isExec
      · exact ih inspected msg inRest isExec
    · rw [bind_eq_ok] at inspected
      obtain ⟨reaches, reached, later⟩ := inspected
      cases reaches with
      | true => cases later
      | false =>
        rcases mem_cons.mp member with isFirst | inRest
        · rw [isFirst]
          exact reached
        · exact ih later msg inRest isExec

theorem Adds.weaken (adds : Adds scope n s after) :
    Adds { scope with granted := fun _ _ => True } n s after :=
  ⟨fun _ _ _ => trivial, adds.2⟩

/-- The messages of a proposal in turn, with the grants that are known after each. -/
theorem executeMessages_adds {allowed : Msg L A → Prop}
    (granted : List (Msg L A) → Address → String → Prop)
    (grows : ∀ done msg grantee msgType, granted done grantee msgType →
      granted (done ++ [msg]) grantee msgType) (msgs : List (Msg L A)) :
    ∀ (done : List (Msg L A)) {n : Nat} {s : AuthzState L A σ},
      GrantedOnly ⟨authority, granted done, allowed⟩ s → countMessages msgs = .ok n →
      (∀ earlier msg later, msgs = earlier ++ msg :: later →
        allowed msg
          ∧ Covered modules ⟨authority, granted (done ++ earlier ++ [msg]), allowed⟩ msg) →
      AddsUpTo ⟨authority, fun _ _ => True, allowed⟩ n
        (executeMessages modules now authority msgs) s := by
  induction msgs with
  | nil =>
    intro done n s _ _ _
    exact .refl fun _ _ _ => trivial
  | cons msg rest ih =>
    intro done n s within counted covered
    obtain ⟨nested, later, countedFirst, countedRest, rfl⟩ := counted_cons counted
    obtain ⟨isAllowed, coveredFirst⟩ := covered [] msg rest rfl
    rw [append_nil] at coveredFirst
    have within' : GrantedOnly ⟨authority, granted (done ++ [msg]), allowed⟩ s :=
      fun grantee msgType present => grows done msg grantee msgType (within grantee msgType present)
    have first : AddsUpTo ⟨authority, granted (done ++ [msg]), allowed⟩ (1 + nested)
        (noteRun modules authority msg >>= fun _ => handle modules now msg) s := by
      refine adds_bind (noteRun_adds modules within' fun _ => isAllowed).known ?_ le_rfl
      exact fun _ within => handle_adds modules now msg within countedFirst coveredFirst
    rw [executeMessages, forEach, AddsUpTo, post_bind]
    refine first.mono ?_ fun _ _ adds => adds.weaken.mono (by omega)
    intro _ mid adds
    have others : ∀ {after}, Adds ⟨authority, fun _ _ => True, allowed⟩ later mid after →
        Adds ⟨authority, fun _ _ => True, allowed⟩ (1 + nested + later) s after :=
      fun more => adds.weaken.trans more
    refine (ih (done ++ [msg]) adds.1 countedRest ?_).mono (fun _ _ => others) (fun _ _ => others)
    intro earlier inner behind split
    have both := covered (msg :: earlier) inner behind (by rw [split]; rfl)
    rw [append_assoc done [msg] earlier]
    exact both

/-- Proposals that run to the end have run every nested message. -/
theorem executeMessages_recorded (msgs : List (Msg L A)) :
    ∀ {n : Nat} {s : AuthzState L A σ}, countMessages msgs = .ok n →
      Ensures (executeMessages modules now authority msgs) s
        fun _ => Recorded modules (msgs.flatMap Msg.nested) s := by
  induction msgs with
  | nil => exact fun _ => ⟨fun _ member => member, fun _ member => nomatch member⟩
  | cons msg rest ih =>
    intro n s counted
    obtain ⟨_, _, countedFirst, countedRest, -⟩ := counted_cons counted
    rw [executeMessages, forEach, bind_assoc, flatMap_cons, ← nil_append (msg.nested ++ _)]
    refine recorded_bind modules (fun _ => True) (recorded_of_adds modules
      (noteRun_adds modules (grantedOnly_open s) fun _ => trivial).known) ?_
    intro _ mid _
    refine recorded_bind modules (fun _ => True)
      ((handle_recorded modules now msg countedFirst).imp fun _ _ ran => ⟨trivial, ran⟩) ?_
    exact fun _ => ih countedRest

/-! ## Hidden messages -/

variable (authority)

/-- Every message of the authority that is nested in the proposal, and is no `MsgExec`, is also
one of its own messages. -/
def Shown (msgs : List (Msg L A)) : Prop :=
  ∀ msg ∈ msgs, ∀ inner ∈ msg.nested, inner.signers modules = some [authority] →
    inner.isExec = false → inner ∈ msgs

/-- What messages of a proposal grant in the name of the authority. -/
def GrantedBy (msgs : List (Msg L A)) (grantee : Address) (msgType : String) : Prop :=
  ∃ authorization expiration, .grant authority grantee authorization expiration ∈ msgs
    ∧ modules.authorizationUrl authorization = msgType

/-- A proposal shows what it runs, or no grant of the authority among its messages is followed by
a `MsgExec` in which it serves to run a message of the authority for its grantee. -/
def Transparent (msgs : List (Msg L A)) : Prop :=
  Shown modules authority msgs ∨ ∀ earlier msg later, msgs = earlier ++ msg :: later →
    GrantsUnused modules authority (GrantedBy modules authority earlier) msg

variable {authority}

theorem covered_of_transparent {msgs : List (Msg L A)}
    (contains : containsSelfExecAsAuthority modules authority msgs = .ok false)
    (unused : ∀ earlier msg later, msgs = earlier ++ msg :: later →
      GrantsUnused modules authority (GrantedBy modules authority earlier) msg)
    {allowed : Msg L A → Prop} (execsAllowed : ∀ msg : Msg L A, msg.isExec = true → allowed msg)
    {earlier later : List (Msg L A)} {msg : Msg L A} (split : msgs = earlier ++ msg :: later) :
    Covered modules ⟨authority, GrantedBy modules authority (earlier ++ [msg]), allowed⟩ msg := by
  cases msg with
  | leaf msg => trivial
  | revoke granter grantee msgTypeUrl => trivial
  | pruneExpiredGrants pruner => trivial
  | grant granter grantee authorization expiration =>
    rintro rfl
    exact ⟨authorization, expiration, mem_append_right _ mem_cons_self, rfl⟩
  | exec grantee inner =>
    have member : .exec grantee inner ∈ msgs := by
      rw [split]
      exact mem_append_right _ mem_cons_self
    refine covered_of_inspected modules execsAllowed _
      (fun _ => inspected_of_contains modules msgs contains _ member rfl) ?_
    intro other nested isNested foreign m isInner signers byProposal
    apply unused earlier _ later split other nested isNested foreign m isInner signers
    obtain ⟨authorization, expiration, granted, isType⟩ := byProposal
    exact ⟨authorization, expiration, by simpa using granted, isType⟩

end Execution

/-- What the run of a proposal's messages must not do: run a message in the name of the
authority that the classification of the proposal did not see, or more messages than were
counted. -/
def NothingHidden {L A σ : Type} (kindOf : L → ProposalKind) (authority : Address)
    (msgs : List (Msg L A)) (after : AuthzState L A σ) : Prop :=
  (∀ entry ∈ after.ran, entry.1 = authority → entry.2.isExec = false →
    entry.2 ∈ msgs ∧ entry.2.kind kindOf ∈ proposalKinds kindOf msgs)
  ∧ ∃ count, countMessages msgs = .ok count ∧ after.ran.length ≤ count

/-- The run of an accepted proposal, from a state in which the authority has granted nothing, hides
nothing if the proposal is transparent, however it ends; and if it runs to the end, exactly then. -/
theorem accepted_proposal_hides_nothing_iff {L A σ : Type} (modules : Modules L A σ) (now : Time)
    (authority : Address) (legacyContentOk : L → Bool) (kindOf : L → ProposalKind)
    {msgs : List (Msg L A)}
    (accepted : checkMessages modules authority legacyContentOk msgs = .ok ())
    {s : AuthzState L A σ} (ungranted : Ungranted authority s) (fresh : s.ran = []) :
    Post (executeMessages modules now authority msgs) s
      (fun _ after => NothingHidden kindOf authority msgs after
        ↔ Transparent modules authority msgs)
      (fun _ after => Transparent modules authority msgs →
        NothingHidden kindOf authority msgs after) := by
  simp only [checkMessages, bind_eq_ok, refuseIf_eq_ok, Bool.not_eq_true] at accepted
  obtain ⟨count, counted, _, _, selfExec, contains, _, clean, _⟩ := accepted
  rw [clean] at contains
  have covers : ∀ after : AuthzState L A σ,
      Adds ⟨authority, fun _ _ => True, fun msg => msg.isExec = true ∨ msg ∈ msgs⟩ count s after →
      NothingHidden kindOf authority msgs after := by
    intro after adds
    obtain ⟨_, added, isAdded, length, allowed⟩ := adds
    rw [fresh, nil_append] at isAdded
    rw [NothingHidden, isAdded]
    refine ⟨?_, count, counted, length⟩
    intro entry member isAuthority notExec
    rcases allowed entry member isAuthority with isExec | inMsgs
    · rw [notExec] at isExec
      cases isExec
    · refine ⟨inMsgs, ?_⟩
      rw [proposalKinds, if_neg (by simpa using ne_nil_of_mem inMsgs)]
      exact mem_map.mpr ⟨entry.2, inMsgs, rfl⟩
  have listed : ∀ {earlier msg later}, msgs = earlier ++ msg :: later → msg ∈ msgs := by
    rintro earlier msg later rfl
    exact mem_append_right _ mem_cons_self
  have enough : Transparent modules authority msgs →
      AddsUpTo ⟨authority, fun _ _ => True, fun msg => msg.isExec = true ∨ msg ∈ msgs⟩ count
        (executeMessages modules now authority msgs) s := by
    rintro (shown | unused)
    · refine executeMessages_adds modules now (fun _ _ _ => True) (fun _ _ _ _ _ => trivial) msgs []
        (fun _ _ _ => trivial) counted ?_
      intro earlier msg later split
      refine ⟨.inr (listed split), covered_of_nested modules msg fun inner nested signers => ?_⟩
      cases isExec : inner.isExec with
      | true => exact .inl rfl
      | false => exact .inr (shown msg (listed split) inner nested signers isExec)
    · refine executeMessages_adds modules now (GrantedBy modules authority) ?_ msgs []
        (fun grantee msgType present => absurd (ungranted grantee msgType) present) counted ?_
      · rintro done msg grantee msgType ⟨authorization, expiration, member, isType⟩
        exact ⟨authorization, expiration, mem_append_left _ member, isType⟩
      · intro earlier msg later split
        exact ⟨.inr (listed split),
          covered_of_transparent modules contains unused (fun _ isExec => .inl isExec) split⟩
  refine (executeMessages_recorded modules now msgs counted).ran.mono ?_ ?_
  · rintro _ after ⟨recorded, ran⟩
    refine ⟨fun hidden => .inl ?_, fun transparent => covers after ((enough transparent).of_ok ran)⟩
    intro msg member inner nested signers notExec
    obtain ⟨signer, isSigner, isRan⟩ :=
      recorded.2 inner (mem_flatMap.mpr ⟨msg, member, nested⟩)
    rw [signers] at isSigner
    cases isSigner
    exact (hidden.1 _ isRan rfl notExec).1
  · rintro _ after ⟨-, ran⟩ transparent
    exact covers after ((enough transparent).of_error ran)

/-! ## Fixed proposals -/

/-- Messages that are their signer and kind, and authorizations for one message type. -/
def sampleModules : Modules (Address × ProposalKind) String Unit where
  signers msg := some [msg.1]
  typeUrl msg := if msg.2 = .constitutionAmendment then "amend" else "send"
  validateBasic _ := true
  handler _ := pure ()
  routed _ := true
  authorizationUrl authorization := authorization
  authorizationOk _ := true
  accept _ _ _ := .ok ⟨true, false, none⟩
  granteeAccount _ := pure ()

/-- A state in which account 2 lets the authority, account 1, execute messages for it. -/
def sampleState : AuthzState (Address × ProposalKind) String Unit where
  grants := (∅ : Store GrantKey (Grant String)).set
    (grantStoreKey [1] [2] "/cosmos.authz.v1beta1.MsgExec") ⟨"/cosmos.authz.v1beta1.MsgExec", none⟩
  queue := ∅
  rest := ()
  ran := []

theorem sampleState_ungranted : Ungranted [1] sampleState := by
  intro grantee msgType
  have differ : grantStoreKey grantee [1] msgType
      ≠ grantStoreKey [1] [2] "/cosmos.authz.v1beta1.MsgExec" := by
    intro same
    have granters : ([1] : Address) = [2] := congrArg Pair.fst same
    exact absurd granters (by decide)
  show ((∅ : Store GrantKey (Grant String)).set _ _).get? _ = none
  rw [Store.get?_set_of_ne differ]
  rfl

/-- A proposal that runs a message of account 2 by a grant. -/
def sampleMsgs : List (Msg (Address × ProposalKind) String) :=
  [.exec (some [1]) [some (.exec (some [2]) [some (.leaf ([2], .any))])]]

theorem sample_proposal_hides_nothing :
    checkMessages sampleModules [1] (fun _ => true) sampleMsgs = .ok ()
      ∧ Transparent sampleModules [1] sampleMsgs
      ∧ Post (executeMessages sampleModules 0 [1] sampleMsgs) sampleState
        (fun _ after => NothingHidden Prod.snd [1] sampleMsgs after
          ↔ Transparent sampleModules [1] sampleMsgs)
        (fun _ after => Transparent sampleModules [1] sampleMsgs →
          NothingHidden Prod.snd [1] sampleMsgs after) := by
  refine ⟨rfl, .inl ?_, accepted_proposal_hides_nothing_iff sampleModules 0 [1] (fun _ => true)
    Prod.snd rfl sampleState_ungranted rfl⟩
  intro msg member inner nested signers notExec
  rw [mem_singleton.mp member] at nested
  rcases mem_cons.mp nested with rfl | nested
  · cases notExec
  · cases mem_singleton.mp nested
    cases signers

def hiddenAmendment : Msg (Address × ProposalKind) String := .leaf ([1], .constitutionAmendment)

/-- A proposal that first grants account 2 the right to amend and then has it amend. -/
def grantingMsgs : List (Msg (Address × ProposalKind) String) :=
  [.grant [1] [2] "amend" none, .exec (some [1]) [some (.exec (some [2]) [some hiddenAmendment])]]

/-- The granting proposal is accepted, the authority has granted nothing, and a constitution
amendment runs in its name that no kind of the proposal shows. -/
theorem granting_proposal_hides_amendment :
    checkMessages sampleModules [1] (fun _ => true) grantingMsgs = .ok ()
      ∧ Ungranted [1] sampleState
      ∧ (∃ after, executeMessages sampleModules 0 [1] grantingMsgs sampleState = .ok () after
        ∧ ([1], hiddenAmendment) ∈ after.ran)
      ∧ hiddenAmendment ∉ grantingMsgs
      ∧ proposalKinds Prod.snd grantingMsgs = [.any, .any] := by
  refine ⟨rfl, sampleState_ungranted, ⟨_, rfl, ?_⟩, ?_, rfl⟩
  · simp
  · simp [grantingMsgs, hiddenAmendment]

end AtomOneSdk.Authz
