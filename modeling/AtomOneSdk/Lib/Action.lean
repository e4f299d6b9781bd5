import Mathlib.Tactic

/-!
Contract: effectful keeper code as state transformers that may fail.

Owns: the two ways an action stops (a returned error, which a caller may drop,
and a panic, which nobody catches), the action monad in which a stopped action
keeps the writes it had already made, the combinators used to transcribe keeper
functions, the postcondition calculus `Post` with one rule per combinator, and
all-or-nothing execution of a sequence of actions.

Does **not** own: any particular state or error type.
-/

namespace AtomOneSdk.Lib

/-- Why an action stopped. -/
inductive Fault (ε : Type) where
  | error (reason : ε)
  | panic (reason : ε)
deriving DecidableEq, Repr

def Fault.map {ε ε' : Type} (f : ε → ε') : Fault ε → Fault ε'
  | .error reason => .error (f reason)
  | .panic reason => .panic (f reason)

/-- State transformer that may stop with a fault; the state reached before the
fault is part of the outcome. -/
abbrev Action (ε σ α : Type) := EStateM (Fault ε) σ α

theorem bind_eq_ok {α β ε : Type} {first : Except ε α} {next : α → Except ε β} {result : β} :
    (first >>= next) = .ok result ↔ ∃ value, first = .ok value ∧ next value = .ok result := by
  cases first with
  | error reason =>
    constructor
    · intro impossible
      cases impossible
    · intro found
      obtain ⟨value, impossible, _⟩ := found
      cases impossible
  | ok value =>
    constructor
    · exact fun continued => ⟨value, rfl, continued⟩
    · intro found
      obtain ⟨same, isSame, continued⟩ := found
      cases isSame
      exact continued

/-- Refuse with a reason when a condition holds. -/
def refuseIf {ε : Type} (condition : Prop) [Decidable condition] (reason : ε) : Except ε Unit :=
  if condition then throw reason else pure ()

theorem refuseIf_eq_ok {ε : Type} {condition : Prop} [Decidable condition] {reason : ε}
    {done : Unit} : refuseIf condition reason = .ok done ↔ ¬ condition := by
  unfold refuseIf
  split_ifs with met
  · exact ⟨(nomatch ·), fun notMet => absurd met notMet⟩
  · exact ⟨fun _ => met, fun _ => rfl⟩

namespace Action

variable {ε ε' σ τ α β : Type}

/-! ## Combinators -/

def fail (reason : ε) : Action ε σ α := throw (.error reason)

def crash (reason : ε) : Action ε σ α := throw (.panic reason)

def failIf (condition : Prop) [Decidable condition] (reason : ε) : Action ε σ Unit :=
  if condition then fail reason else pure ()

def crashIf (condition : Prop) [Decidable condition] (reason : ε) : Action ε σ Unit :=
  if condition then crash reason else pure ()

/-- Run an action only when a condition holds. -/
def whenever (condition : Prop) [Decidable condition] (action : Action ε σ Unit) :
    Action ε σ Unit :=
  if condition then action else pure ()

/-- The value of an option, or an error. -/
def getOrFail (value : Option α) (reason : ε) : Action ε σ α :=
  match value with
  | some found => pure found
  | none => fail reason

/-- The value of an option, or a panic. -/
def getOrCrash (value : Option α) (reason : ε) : Action ε σ α :=
  match value with
  | some found => pure found
  | none => crash reason

/-- Go on with `handler` after a returned error, in the state with the writes made
before it; panics pass through. -/
def recover (action handler : Action ε σ Unit) : Action ε σ Unit := fun state =>
  match action state with
  | .ok _ next => .ok () next
  | .error (.error _) next => handler next
  | .error (.panic reason) next => .error (.panic reason) next

/-- Drop a returned error but keep the writes made before it. -/
def ignoreError (action : Action ε σ Unit) : Action ε σ Unit := recover action (pure ())

/-- The returned error as a value. -/
def attempt (action : Action ε σ α) : Action ε σ (Except ε α) := fun state =>
  match action state with
  | .ok value next => .ok (.ok value) next
  | .error (.error reason) next => .ok (.error reason) next
  | .error (.panic reason) next => .error (.panic reason) next

/-- Run a cleanup after an action however it ended; a fault of the cleanup replaces the
outcome. -/
def deferring (cleanup action : Action ε σ Unit) : Action ε σ Unit := fun state =>
  match action state with
  | .ok _ next => cleanup next
  | .error fault next =>
    match cleanup next with
    | .ok _ last => .error fault last
    | .error another last => .error another last

/-- Run an action on a branch of the state: a fault drops its writes. -/
def branched (action : Action ε σ α) : Action ε σ α := fun state =>
  match action state with
  | .ok value next => .ok value next
  | .error fault _ => .error fault state

/-- Run an action on a part of the state, relabelling its faults. -/
def zoom (view : σ → τ) (update : σ → τ → σ) (label : ε' → ε) (action : Action ε' τ α) :
    Action ε σ α := fun state =>
  match action (view state) with
  | .ok value next => .ok value (update state next)
  | .error fault next => .error (fault.map label) (update state next)

/-- Loop over a list with an accumulator. -/
def foldOver (step : β → α → Action ε σ β) : List α → β → Action ε σ β
  | [], acc => pure acc
  | head :: tail, acc => do
    let next ← step acc head
    foldOver step tail next

def forEach (body : α → Action ε σ Unit) : List α → Action ε σ Unit
  | [] => pure ()
  | head :: tail => do
    body head
    forEach body tail

/-! ## Postconditions -/

/-- From `state`, the action either returns a value and state satisfying `holds`
or stops with a fault and state satisfying `stops`. -/
def Post (action : Action ε σ α) (state : σ) (holds : α → σ → Prop)
    (stops : Fault ε → σ → Prop) : Prop :=
  match action state with
  | .ok value next => holds value next
  | .error fault next => stops fault next

section Rules

variable {action : Action ε σ α} {state : σ} {holds : α → σ → Prop}
  {stops : Fault ε → σ → Prop} {value : α} {next : σ} {fault : Fault ε}

theorem Post.of_ok (post : Post action state holds stops) (ran : action state = .ok value next) :
    holds value next := by
  rw [Post, ran] at post
  exact post

theorem Post.of_error (post : Post action state holds stops)
    (ran : action state = .error fault next) : stops fault next := by
  rw [Post, ran] at post
  exact post

variable {holds' : α → σ → Prop} {stops' : Fault ε → σ → Prop} {reason : ε} {condition : Prop}

theorem Post.mono (post : Post action state holds stops)
    (onOk : ∀ value next, holds value next → holds' value next)
    (onFault : ∀ fault next, stops fault next → stops' fault next) :
    Post action state holds' stops' := by
  unfold Post at post ⊢
  cases ran : action state with
  | ok value next => exact onOk value next (by simpa [ran] using post)
  | error fault next => exact onFault fault next (by simpa [ran] using post)

theorem Post.imp (post : Post action state holds stops)
    (onOk : ∀ value next, holds value next → holds' value next) :
    Post action state holds' stops :=
  post.mono onOk fun _ _ stopped => stopped

/-- What never stops meets any condition on stopping. -/
theorem Post.safe (post : Post action state holds fun _ _ => False)
    (onOk : ∀ value next, holds value next → holds' value next) : Post action state holds' stops' :=
  post.mono onOk fun _ _ impossible => impossible.elim

theorem Post.returns (post : Post action state holds fun _ _ => False) :
    ∃ value next, action state = .ok value next ∧ holds value next := by
  unfold Post at post
  cases ran : action state with
  | ok value next => exact ⟨value, next, rfl, by simpa [ran] using post⟩
  | error fault next =>
    rw [ran] at post
    exact post.elim

/-- A postcondition together with the outcome it is about. -/
theorem Post.ran (post : Post action state holds stops) :
    Post action state (fun value next => holds value next ∧ action state = .ok value next)
      (fun fault next => stops fault next ∧ action state = .error fault next) := by
  unfold Post at post ⊢
  cases outcome : action state with
  | ok value next => exact ⟨by simpa [outcome] using post, rfl⟩
  | error fault next => exact ⟨by simpa [outcome] using post, rfl⟩

@[simp] theorem post_pure {value : α} :
    Post (pure value : Action ε σ α) state holds stops ↔ holds value state := Iff.rfl

@[simp] theorem post_bind {action : Action ε σ β} {next : β → Action ε σ α} :
    Post (action >>= next) state holds stops
      ↔ Post action state (fun value mid => Post (next value) mid holds stops) stops := by
  simp only [Post, bind, EStateM.bind]
  cases action state <;> rfl

/-- What follows an action runs from where it returned. -/
theorem Post.bind {action : Action ε σ β} {next : β → Action ε σ α} {mid : β → σ → Prop}
    (post : Post action state mid stops)
    (later : ∀ value reached, mid value reached → Post (next value) reached holds stops) :
    Post (action >>= next) state holds stops :=
  post_bind.mpr (post.imp later)

/-- A check that leaves the state as it is. -/
theorem Post.check {action : Action ε σ β} {next : β → Action ε σ α}
    (same : Post action state (fun _ reached => reached = state) stops)
    (later : ∀ value, Post (next value) state holds stops) :
    Post (action >>= next) state holds stops :=
  same.bind fun value _ isState => isState ▸ later value

@[simp] theorem post_map {action : Action ε σ β} {f : β → α} :
    Post (f <$> action) state holds stops
      ↔ Post action state (fun value mid => holds (f value) mid) stops := by
  simp only [Post, Functor.map, EStateM.map]
  cases action state <;> rfl

@[simp] theorem post_get {holds : σ → σ → Prop} :
    Post (get : Action ε σ σ) state holds stops ↔ holds state state := Iff.rfl

@[simp] theorem post_set {holds : PUnit → σ → Prop} {written : σ} :
    Post (set written : Action ε σ PUnit) state holds stops ↔ holds ⟨⟩ written := Iff.rfl

@[simp] theorem post_modify {holds : PUnit → σ → Prop} {f : σ → σ} :
    Post (modify f : Action ε σ PUnit) state holds stops ↔ holds ⟨⟩ (f state) := Iff.rfl

@[simp] theorem post_fail :
    Post (fail reason : Action ε σ α) state holds stops ↔ stops (.error reason) state := Iff.rfl

@[simp] theorem post_crash :
    Post (crash reason : Action ε σ α) state holds stops ↔ stops (.panic reason) state := Iff.rfl

theorem post_ite [Decidable condition] {yes no : Action ε σ α} :
    Post (if condition then yes else no) state holds stops
      ↔ (condition → Post yes state holds stops) ∧ (¬ condition → Post no state holds stops) := by
  by_cases met : condition
  · simp [met]
  · simp [met]

@[simp] theorem post_failIf {holds : Unit → σ → Prop} [Decidable condition] :
    Post (failIf condition reason : Action ε σ Unit) state holds stops
      ↔ (condition → stops (.error reason) state) ∧ (¬ condition → holds () state) :=
  post_ite

@[simp] theorem post_crashIf {holds : Unit → σ → Prop} [Decidable condition] :
    Post (crashIf condition reason : Action ε σ Unit) state holds stops
      ↔ (condition → stops (.panic reason) state) ∧ (¬ condition → holds () state) :=
  post_ite

@[simp] theorem post_whenever {holds : Unit → σ → Prop} [Decidable condition]
    {action : Action ε σ Unit} :
    Post (whenever condition action) state holds stops
      ↔ (condition → Post action state holds stops) ∧ (¬ condition → holds () state) :=
  post_ite

@[simp] theorem post_getOrFail {value : Option α} :
    Post (getOrFail value reason : Action ε σ α) state holds stops
      ↔ (∀ found, value = some found → holds found state)
        ∧ (value = none → stops (.error reason) state) := by
  cases value <;> simp [getOrFail]

@[simp] theorem post_getOrCrash {value : Option α} :
    Post (getOrCrash value reason : Action ε σ α) state holds stops
      ↔ (∀ found, value = some found → holds found state)
        ∧ (value = none → stops (.panic reason) state) := by
  cases value <;> simp [getOrCrash]

/-- The rules of the plain actions, given to `simp only` together; what is true of every
outcome goes away. -/
theorem post_rules : type_of% @post_bind ∧ type_of% @post_pure ∧ type_of% @post_get
    ∧ type_of% @post_set ∧ type_of% @post_modify ∧ type_of% @post_fail ∧ type_of% @post_crash
    ∧ type_of% @post_failIf ∧ type_of% @post_crashIf ∧ type_of% @post_whenever
    ∧ type_of% @post_getOrFail ∧ type_of% @post_getOrCrash
    ∧ (∀ p : Prop, (p → True) = True) ∧ (∀ α : Type, (α → True) = True)
    ∧ (∀ p, (True ∧ p) = p) ∧ ∀ p, (p ∧ True) = p :=
  ⟨@post_bind, @post_pure, @post_get, @post_set, @post_modify, @post_fail, @post_crash,
    @post_failIf, @post_crashIf, @post_whenever, @post_getOrFail, @post_getOrCrash,
    fun p => implies_true p, fun α => implies_true α, true_and, and_true⟩

/-- If the action returns, then with a value and state satisfying `holds`. -/
abbrev Ensures (action : Action ε σ α) (state : σ) (holds : α → σ → Prop) : Prop :=
  Post action state holds fun _ _ => True

theorem Post.ensures (post : Post action state holds stops)
    (onOk : ∀ value next, holds value next → holds' value next) : Ensures action state holds' :=
  post.mono onOk fun _ _ _ => trivial

@[simp] theorem post_recover {holds : Unit → σ → Prop} {action handler : Action ε σ Unit} :
    Post (recover action handler) state holds stops
      ↔ Post action state holds (fun fault next =>
          match fault with
          | .error _ => Post handler next holds stops
          | .panic reason => stops (.panic reason) next) := by
  unfold Post recover
  cases action state with
  | ok value next => rfl
  | error fault next => cases fault <;> rfl

@[simp] theorem post_ignoreError {holds : Unit → σ → Prop} {action : Action ε σ Unit} :
    Post (ignoreError action) state holds stops
      ↔ Post action state holds (fun fault next =>
          match fault with
          | .error _ => holds () next
          | .panic reason => stops (.panic reason) next) := by
  rw [ignoreError, post_recover]
  rfl

@[simp] theorem post_attempt {holds : Except ε α → σ → Prop} :
    Post (attempt action) state holds stops
      ↔ Post action state (fun value next => holds (.ok value) next) (fun fault next =>
          match fault with
          | .error reason => holds (.error reason) next
          | .panic reason => stops (.panic reason) next) := by
  unfold Post attempt
  cases action state with
  | ok value next => rfl
  | error fault next => cases fault <;> rfl

@[simp] theorem post_deferring {holds : Unit → σ → Prop} {cleanup action : Action ε σ Unit} :
    Post (deferring cleanup action) state holds stops
      ↔ Post action state (fun _ next => Post cleanup next holds stops) (fun fault next =>
          Post cleanup next (fun _ last => stops fault last) stops) := by
  unfold Post deferring
  cases action state with
  | ok value next => rfl
  | error fault next =>
    dsimp only
    cases cleanup next <;> rfl

@[simp] theorem post_branched :
    Post (branched action) state holds stops
      ↔ Post action state holds (fun fault _ => stops fault state) := by
  unfold Post branched
  cases action state <;> rfl

@[simp] theorem post_zoom {view : σ → τ} {update : σ → τ → σ} {label : ε' → ε}
    {action : Action ε' τ α} :
    Post (zoom view update label action) state holds stops
      ↔ Post action (view state) (fun value next => holds value (update state next))
          (fun fault next => stops (fault.map label) (update state next)) := by
  unfold Post zoom
  cases action (view state) <;> rfl

/-! ## Loops -/

/-- Loop rule: an invariant over the elements still to come, the accumulator and
the state, kept by one round, holds when the list is used up. -/
theorem post_foldOver {step : β → α → Action ε σ β} (invariant : List α → β → σ → Prop)
    (round : ∀ head tail acc state, invariant (head :: tail) acc state →
      Post (step acc head) state (fun next mid => invariant tail next mid) stops) :
    ∀ (items : List α) (acc : β) (state : σ), invariant items acc state →
      Post (foldOver step items acc) state (fun final last => invariant [] final last) stops
  | [], acc, state, start => start
  | head :: tail, acc, state, start => by
    rw [foldOver]
    exact (round head tail acc state start).bind (post_foldOver invariant round tail)

theorem post_forEach {body : α → Action ε σ Unit} (invariant : List α → σ → Prop)
    (round : ∀ head tail state, invariant (head :: tail) state →
      Post (body head) state (fun _ mid => invariant tail mid) stops) :
    ∀ (items : List α) (state : σ), invariant items state →
      Post (forEach body items) state (fun _ last => invariant [] last) stops
  | [], state, start => start
  | head :: tail, state, start => by
    rw [forEach]
    exact (round head tail state start).bind fun _ => post_forEach invariant round tail

/-- A loop of plain writes. -/
theorem post_forEach_modify {write : α → σ → σ} {holds : Unit → σ → Prop} (items : List α)
    (state : σ) :
    Post (forEach (fun item => (modify (write item) : Action ε σ Unit)) items) state holds stops
      ↔ holds () (items.foldl (fun current item => write item current) state) := by
  induction items generalizing state with
  | nil => exact Iff.rfl
  | cons head tail ih =>
    rw [forEach, post_bind, post_modify]
    exact ih (write head state)

/-- The value an action returns, if it returns. -/
def value? (action : Action ε σ α) (state : σ) : Option α :=
  match action state with
  | .ok value _ => some value
  | .error _ _ => none

/-- An action that cannot fault returns the only value its post-condition allows. -/
theorem value?_of_post (post : Post action state holds (fun _ _ => False))
    (only : ∀ found next, holds found next → found = value) : action.value? state = some value := by
  obtain ⟨found, next, ran, meets⟩ := post.returns
  rw [value?, ran, only found next meets]

theorem ok_of_value? (returned : action.value? state = some value) :
    ∃ next, action state = .ok value next := by
  unfold value? at returned
  cases ran : action state with
  | ok found next =>
    rw [ran] at returned
    cases returned
    exact ⟨next, rfl⟩
  | error fault next =>
    rw [ran] at returned
    cases returned

/-- The state an action leaves, however it ends. -/
def stateAfter (action : Action ε σ α) (state : σ) : σ :=
  match action state with
  | .ok _ next => next
  | .error _ next => next

theorem stateAfter_of_post {left : σ → Prop}
    (post : Post action state (fun _ => left) (fun _ => left)) :
    left (action.stateAfter state) := by
  unfold Post at post
  unfold stateAfter
  cases ran : action state with
  | ok value next => simpa only [ran] using post
  | error fault next => simpa only [ran] using post

/-- The fault an action stops with, if it stops. -/
def fault? (action : Action ε σ α) (state : σ) : Option (Fault ε) :=
  match action state with
  | .ok _ _ => none
  | .error fault _ => some fault

theorem Post.of_fault? (post : Post action state holds stops)
    (stopped : action.fault? state = some fault) : ∃ next, stops fault next := by
  unfold fault? at stopped
  cases ran : action state with
  | ok value next =>
    rw [ran] at stopped
    cases stopped
  | error found next =>
    rw [ran] at stopped
    cases stopped
    exact ⟨next, post.of_error ran⟩

end Rules

/-! ## All-or-nothing execution -/

/-- Run an action as a transaction: a fault leaves the state as it was. -/
def transact (action : Action ε σ α) (state : σ) : σ :=
  match action state with
  | .ok _ next => next
  | .error _ _ => state

theorem transact_of_post {action : Action ε σ α} {state : σ} {holds : σ → Prop}
    {stops : Fault ε → σ → Prop} (before : holds state)
    (post : Post action state (fun _ next => holds next) stops) :
    holds (transact action state) := by
  unfold Post at post
  unfold transact
  cases ran : action state with
  | ok value next => simpa [ran] using post
  | error fault next => exact before

/-- Run a list of operations, each as a transaction. -/
def runAll {op : Type} (exec : op → Action ε σ Unit) (ops : List op) (state : σ) : σ :=
  ops.foldl (fun current operation => transact (exec operation) current) state

/-- An invariant kept by every operation holds after every run. -/
theorem runAll_invariant {op : Type} {exec : op → Action ε σ Unit} {holds : σ → Prop}
    (keeps : ∀ operation state, holds state →
      Post (exec operation) state (fun _ next => holds next) (fun _ _ => True)) :
    ∀ (ops : List op) (state : σ), holds state → holds (runAll exec ops state)
  | [], _, start => start
  | operation :: rest, state, start =>
    runAll_invariant keeps rest _ (transact_of_post start (keeps operation state start))

end Action

end AtomOneSdk.Lib
