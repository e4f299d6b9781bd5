import AtomOneSdk.Epochs.Keeper

/-!
Contract: epochs advance exactly.

Owns: what a block does to every epoch, to the hook calls and to the modules behind them,
and over runs with non-decreasing block times the start time of every epoch, the sequence
of its hook calls and the times they are made at.

Does **not** own: what the hooks do.
-/

namespace AtomOneSdk.Epochs

open Lib Lib.Action Store List

/-! ## What a block does -/

def EpochInfo.Starts (ctx : Context) (epoch : EpochInfo) : Prop :=
  epoch.startTime ≤ ctx.blockTime ∧ epoch.epochCountingStarted = false

def EpochInfo.Ends (ctx : Context) (epoch : EpochInfo) : Prop :=
  epoch.startTime ≤ ctx.blockTime ∧ epoch.epochCountingStarted = true
    ∧ epoch.currentEpochStartTime + epoch.duration < ctx.blockTime

instance (ctx : Context) (epoch : EpochInfo) : Decidable (epoch.Starts ctx) := by
  unfold EpochInfo.Starts
  infer_instance

instance (ctx : Context) (epoch : EpochInfo) : Decidable (epoch.Ends ctx) := by
  unfold EpochInfo.Ends
  infer_instance

def EpochInfo.updated (ctx : Context) (epoch : EpochInfo) : EpochInfo :=
  if epoch.Starts ctx then { epoch with currentEpochStartHeight := ctx.blockHeight }.first
  else if epoch.Ends ctx then { epoch with currentEpochStartHeight := ctx.blockHeight }.following
  else epoch

/-- The hook calls of a block for one epoch. -/
def EpochInfo.due (ctx : Context) (epoch : EpochInfo) : List Call :=
  if epoch.Starts ctx then [⟨.beforeEpochStart, epoch.identifier, 1, ctx.blockTime⟩]
  else if epoch.Ends ctx then
    [⟨.afterEpochEnd, epoch.identifier, epoch.currentEpoch, ctx.blockTime⟩,
      ⟨.beforeEpochStart, epoch.identifier, epoch.currentEpoch + 1, ctx.blockTime⟩]
  else []

section Cases

variable {ctx : Context} {epoch : EpochInfo}

theorem EpochInfo.Starts.block (starts : epoch.Starts ctx) :
    epoch.due ctx = [⟨.beforeEpochStart, epoch.identifier, 1, ctx.blockTime⟩]
      ∧ epoch.updated ctx = { epoch with currentEpochStartHeight := ctx.blockHeight }.first :=
  ⟨if_pos starts, if_pos starts⟩

theorem EpochInfo.not_starts (started : epoch.epochCountingStarted = true) :
    ¬ epoch.Starts ctx := by
  intro starts
  rw [starts.2] at started
  cases started

theorem EpochInfo.Ends.block (ends : epoch.Ends ctx) :
    epoch.due ctx = [⟨.afterEpochEnd, epoch.identifier, epoch.currentEpoch, ctx.blockTime⟩,
        ⟨.beforeEpochStart, epoch.identifier, epoch.currentEpoch + 1, ctx.blockTime⟩]
      ∧ epoch.updated ctx
        = { epoch with currentEpochStartHeight := ctx.blockHeight }.following := by
  have notStarts := @EpochInfo.not_starts ctx epoch ends.2.1
  exact ⟨(if_neg notStarts).trans (if_pos ends), (if_neg notStarts).trans (if_pos ends)⟩

theorem EpochInfo.idle_block (notStarts : ¬ epoch.Starts ctx) (notEnds : ¬ epoch.Ends ctx) :
    epoch.due ctx = [] ∧ epoch.updated ctx = epoch :=
  ⟨(if_neg notStarts).trans (if_neg notEnds), (if_neg notStarts).trans (if_neg notEnds)⟩

end Cases

section Blocks

variable {H : Type} {hooks : List (EpochHooks H)} {ctx : Context}

/-- The modules after a call: what all hooks wrote, or nothing when one returned an
error. -/
def isolated (hooks : List (EpochHooks H)) (modules : H) (call : Call) : H :=
  match runHooks hooks call modules with
  | .ok [] next => next
  | _ => modules

/-- Some hook of a call returns an error, the hooks before it having run. -/
def AnyFails (call : Call) : List (EpochHooks H) → H → Prop
  | [], _ => False
  | hook :: rest, modules =>
    match hook.run call modules with
    | .ok _ next => AnyFails call rest next
    | .error (.error _) _ => True
    | .error (.panic _) _ => False

/-- Once an error was returned, the errors joined at the end are not empty. -/
theorem runHooks_ne_nil {call : Call} :
    ∀ (hooks : List (EpochHooks H)) (errs : List String) (modules last : H),
      errs ≠ [] ∨ AnyFails call hooks modules →
      foldOver (fun errs hook => do
        match ← attempt (hook.run call) with
        | .ok _ => pure errs
        | .error reason => pure (errs ++ [reason])) hooks errs modules ≠ .ok [] last
  | [], errs, modules, last, fails => by
    rcases fails with nonempty | impossible
    · intro ended
      cases ended
      exact nonempty rfl
    · exact impossible.elim
  | hook :: rest, errs, modules, last, fails => by
    rw [foldOver]
    intro ended
    unfold AnyFails at fails
    simp only [bind, EStateM.bind, attempt] at ended
    cases ran : hook.run call modules with
    | ok value next =>
      rw [ran] at ended fails
      exact runHooks_ne_nil rest errs next last fails ended
    | error fault next =>
      rw [ran] at ended fails
      cases fault with
      | error reason =>
        have more : errs ++ [reason] ≠ [] := append_ne_nil_of_right_ne_nil _ (by simp)
        exact runHooks_ne_nil rest _ next last (Or.inl more) ended
      | panic reason => cases ended

/-- When a hook of a call returns an error, no write of the call's hooks persists. -/
theorem isolated_of_failure {call : Call} {modules : H} (fails : AnyFails call hooks modules) :
    isolated hooks modules call = modules := by
  unfold isolated
  cases ran : runHooks hooks call modules with
  | ok errs next =>
    cases errs with
    | nil => exact absurd ran (runHooks_ne_nil hooks [] modules next (Or.inr fails))
    | cons reason rest => rfl
  | error fault next => rfl

/-- Some hook does not only write and return errors: it panics. -/
def HookPanics (hooks : List (EpochHooks H)) : Prop :=
  ∃ hook ∈ hooks, ∃ call modules reason next,
    hook.run call modules = .error (.panic reason) next

/-- Only a panic of a hook stops a call. -/
theorem runHooks_stops (call : Call) (modules : H) :
    Post (runHooks hooks call) modules (fun _ _ => True) (fun _ _ => HookPanics hooks) := by
  apply (post_foldOver (fun rest _ _ => ∀ hook ∈ rest, hook ∈ hooks) ?_ _ _ _
    fun _ member => member).imp fun _ _ _ => trivial
  intro hook rest errs state members
  have restMembers : ∀ other ∈ rest, other ∈ hooks :=
    fun other member => members other (mem_cons_of_mem hook member)
  simp only [post_rules, post_attempt]
  unfold Post
  cases ran : hook.run call state with
  | ok value next => exact restMembers
  | error fault next =>
    cases fault with
    | error reason => exact restMembers
    | panic reason => exact ⟨hook, members hook mem_cons_self, call, state, reason, next, ran⟩

theorem callHooks_spec (call : Call) (state : State H) :
    Post (callHooks hooks call) state
      (fun _ next => next = { state with
        calls := state.calls ++ [call]
        modules := isolated hooks state.modules call })
      (fun _ _ => HookPanics hooks) := by
  simp only [callHooks, post_rules, post_ignoreError, post_branched, post_zoom, isolated]
  have stops := @runHooks_stops H hooks call state.modules
  unfold Post at stops ⊢
  cases ran : runHooks hooks call state.modules with
  | ok errs next =>
    cases errs with
    | nil => exact ⟨fun nonempty => absurd rfl nonempty, fun _ => rfl⟩
    | cons reason rest =>
      exact ⟨fun _ => rfl, fun empty => absurd (cons_ne_nil reason rest) empty⟩
  | error fault next =>
    cases fault with
    | error reason => rfl
    | panic reason =>
      rw [ran] at stops
      exact stops

theorem startEpoch_spec (epoch : EpochInfo) (state : State H) :
    Post (startEpoch hooks ctx epoch) state
      (fun _ next => next.epochs = state.epochs.set epoch.identifier epoch
        ∧ next.calls = state.calls
          ++ [⟨.beforeEpochStart, epoch.identifier, epoch.currentEpoch, ctx.blockTime⟩]
        ∧ next.modules = isolated hooks state.modules
          ⟨.beforeEpochStart, epoch.identifier, epoch.currentEpoch, ctx.blockTime⟩)
      (fun _ _ => HookPanics hooks) := by
  simp only [startEpoch, emit, post_rules]
  apply (callHooks_spec _ _).imp
  intro _ next called
  rw [called]
  exact ⟨rfl, rfl, rfl⟩

/-- What one round of the walk leaves. -/
structure Updated (hooks : List (EpochHooks H)) (ctx : Context) (epoch : EpochInfo)
    (state next : State H) : Prop where
  epochs : next.epochs
    = if epoch.due ctx = [] then state.epochs
      else state.epochs.set epoch.identifier (epoch.updated ctx)
  calls : next.calls = state.calls ++ epoch.due ctx
  modules : next.modules = (epoch.due ctx).foldl (isolated hooks) state.modules

theorem updateEpoch_spec (epoch : EpochInfo) (state : State H) :
    Post (updateEpoch hooks ctx epoch) state
      (fun _ => Updated hooks ctx epoch state) (fun _ _ => HookPanics hooks) := by
  have idle : ¬ epoch.Starts ctx → ¬ epoch.Ends ctx → Updated hooks ctx epoch state state := by
    intro notStarts notEnds
    have none := (EpochInfo.idle_block notStarts notEnds).1
    exact ⟨by rw [if_pos none], by rw [none, append_nil], by rw [none]; rfl⟩
  unfold updateEpoch
  rw [post_ite]
  refine ⟨fun early => ?_, fun late => ?_⟩
  · exact idle (fun starts => absurd starts.1 early.not_ge)
      fun ends => absurd ends.1 early.not_ge
  · have reached : epoch.startTime ≤ ctx.blockTime := not_lt.mp late
    rw [post_ite]
    refine ⟨fun waiting => ?_, fun moving => ?_⟩
    · apply idle
      · intro starts
        exact waiting (Or.inr (by rw [starts.2]; rfl))
      · exact fun ends => waiting (Or.inl ends.2.2)
    · rw [post_ite]
      refine ⟨fun initial => ?_, fun counting => ?_⟩
      · have starts : epoch.Starts ctx := ⟨reached, by simpa using initial⟩
        obtain ⟨due, updated⟩ := starts.block
        apply (startEpoch_spec _ _).imp
        intro _ next started
        refine ⟨?_, by rw [due]; exact started.2.1, by rw [due]; exact started.2.2⟩
        rw [due, if_neg (cons_ne_nil _ _), updated]
        exact started.1
      · have isStarted : epoch.epochCountingStarted = true := by simpa using counting
        have ended : epoch.currentEpochStartTime + epoch.duration < ctx.blockTime := by
          rw [not_not] at moving
          rcases moving with after | initial
          · exact after
          · exact absurd initial counting
        have ends : epoch.Ends ctx := ⟨reached, isStarted, ended⟩
        obtain ⟨due, updated⟩ := ends.block
        simp only [emit, post_rules]
        apply (callHooks_spec _ _).imp
        intro _ mid called
        rw [called]
        apply (startEpoch_spec _ _).imp
        intro _ next started
        refine ⟨?_, ?_, ?_⟩
        · rw [due, if_neg (cons_ne_nil _ _), updated]
          exact started.1
        · rw [due, started.2.1, append_assoc]
          rfl
        · rw [due, started.2.2]
          rfl

/-- What the walk over some entries leaves. -/
structure Walked (hooks : List (EpochHooks H)) (ctx : Context)
    (entries : List (Identifier × EpochInfo)) (state next : State H) : Prop where
  visited : ∀ entry ∈ entries, next.epochs.get? entry.1 = some (entry.2.updated ctx)
  others : ∀ identifier, (∀ entry ∈ entries, entry.1 ≠ identifier) →
    next.epochs.get? identifier = state.epochs.get? identifier
  calls : next.calls = state.calls ++ entries.flatMap fun entry => entry.2.due ctx
  modules : next.modules
    = (entries.flatMap fun entry => entry.2.due ctx).foldl (isolated hooks) state.modules

/-- By induction on the entries: a round overwrites the record it is at, which no later
round reads. -/
theorem walk_spec (entries : List (Identifier × EpochInfo)) :
    ∀ state : State H, (∀ entry ∈ entries, entry.2.identifier = entry.1) →
      (∀ entry ∈ entries, state.epochs.get? entry.1 = some entry.2) →
      entries.Pairwise (fun first second => first.1 < second.1) →
      Post (forEach (fun entry => updateEpoch hooks ctx entry.2) entries) state
        (fun _ => Walked hooks ctx entries state) (fun _ _ => HookPanics hooks) := by
  induction entries with
  | nil =>
    intro state _ _ _
    exact ⟨fun _ member => (nomatch member), fun _ _ => rfl, (append_nil _).symm, rfl⟩
  | cons entry rest ih =>
    intro state named stored sorted
    obtain ⟨later, restSorted⟩ := pairwise_cons.mp sorted
    have isNamed := named entry mem_cons_self
    rw [forEach, post_bind]
    apply (updateEpoch_spec entry.2 state).imp
    intro _ mid round
    have here : mid.epochs.get? entry.1 = some (entry.2.updated ctx) := by
      rw [round.epochs]
      split_ifs with none
      · rw [stored entry mem_cons_self, EpochInfo.updated]
        unfold EpochInfo.due at none
        split_ifs at none ⊢
        rfl
      · rw [isNamed, get?_set_self]
    have elsewhere : ∀ identifier, entry.1 ≠ identifier →
        mid.epochs.get? identifier = state.epochs.get? identifier := by
      intro identifier apart
      rw [round.epochs]
      split_ifs
      · rfl
      · rw [isNamed, get?_set_of_ne fun same => apart same.symm]
    have storedRest : ∀ other ∈ rest, mid.epochs.get? other.1 = some other.2 := by
      intro other member
      rw [elsewhere other.1 (later other member).ne]
      exact stored other (mem_cons_of_mem entry member)
    apply (ih mid (fun other member => named other (mem_cons_of_mem entry member))
      storedRest restSorted).imp
    intro _ next walked
    refine ⟨?_, ?_, ?_, ?_⟩
    · intro other member
      rcases mem_cons.mp member with same | further
      · rw [same, walked.others entry.1 fun other further => (later other further).ne']
        exact here
      · exact walked.visited other further
    · intro identifier apart
      rw [walked.others identifier fun other further =>
        apart other (mem_cons_of_mem entry further)]
      exact elsewhere identifier (apart entry mem_cons_self)
    · rw [walked.calls, round.calls, append_assoc, flatMap_cons]
    · rw [walked.modules, round.modules, flatMap_cons, foldl_append]

/-- What a block does: to every epoch what is due for it, whatever the hooks do; the hook
calls in the order of the walk; to the modules what each call leaves. -/
structure Advanced (hooks : List (EpochHooks H)) (ctx : Context) (before after : State H) :
    Prop where
  epochs : ∀ identifier,
    after.epochs.get? identifier = (before.epochs.get? identifier).map (·.updated ctx)
  calls : after.calls = before.calls ++ before.epochs.entries.flatMap fun entry => entry.2.due ctx
  modules : after.modules
    = (before.epochs.entries.flatMap fun entry => entry.2.due ctx).foldl (isolated hooks)
        before.modules

def Named (state : State H) : Prop :=
  ∀ identifier epoch, state.epochs.get? identifier = some epoch → epoch.identifier = identifier

theorem beginBlocker_spec {state : State H} (named : Named state) :
    Post (beginBlocker hooks ctx) state (fun _ => Advanced hooks ctx state)
      (fun _ _ => HookPanics hooks) := by
  simp only [beginBlocker, post_rules]
  apply (walk_spec state.epochs.entries state
    (fun entry member => named entry.1 entry.2 (mem_entries.mp member))
    (fun entry member => mem_entries.mp member) state.epochs.sorted).imp
  intro _ next walked
  refine ⟨fun identifier => ?_, walked.calls, walked.modules⟩
  cases found : state.epochs.get? identifier with
  | some epoch => exact walked.visited (identifier, epoch) (mem_entries.mpr found)
  | none =>
    rw [walked.others identifier ?_, found]
    · rfl
    · intro entry member same
      rw [← same, mem_entries.mp member] at found
      cases found

end Blocks

/-! ## Runs -/

section Runs

variable {H : Type} {hooks : List (EpochHooks H)}

/-- The calls of one epoch, without their times. -/
def callsOf (calls : List Call) (identifier : Identifier) : List (Moment × Int) :=
  (calls.filter fun call => call.identifier = identifier).map
    fun call => (call.moment, call.epochNumber)

/-- The calls of an epoch up to the start of its `n`-th: each epoch ends once, and its end
is followed by the start of the next. -/
def history : Nat → List (Moment × Int)
  | 0 => []
  | 1 => [(Moment.beforeEpochStart, 1)]
  | n + 2 =>
    history (n + 1)
      ++ [(Moment.afterEpochEnd, (n : Int) + 1), (Moment.beforeEpochStart, (n : Int) + 2)]

/-- An epoch whose counting has started. -/
structure OnSchedule (now : Time) (calls : List Call) (epoch : EpochInfo) : Prop where
  counted : 1 ≤ epoch.currentEpoch
  startTime : epoch.currentEpochStartTime
    = epoch.startTime + (epoch.currentEpoch - 1) * epoch.duration
  reached : epoch.startTime ≤ now
  made : callsOf calls epoch.identifier = history epoch.currentEpoch.toNat
  timely : ∀ call ∈ calls, call.identifier = epoch.identifier → call.moment = Moment.afterEpochEnd →
    epoch.startTime + call.epochNumber * epoch.duration < call.time

/-- Epochs are on schedule once started, and have no calls before. -/
structure Exact (chain : Chain H) : Prop where
  named : Named chain.state
  positive : ∀ identifier epoch, chain.state.epochs.get? identifier = some epoch →
    0 < epoch.duration
  started : ∀ identifier epoch, chain.state.epochs.get? identifier = some epoch →
    epoch.epochCountingStarted = true →
    OnSchedule chain.ctx.blockTime chain.state.calls epoch
  unstarted : ∀ identifier epoch, chain.state.epochs.get? identifier = some epoch →
    epoch.epochCountingStarted = false → callsOf chain.state.calls identifier = []
  known : ∀ call ∈ chain.state.calls, chain.state.epochs.get? call.identifier ≠ none

theorem exact_start (ctx : Context) (modules : H) : Exact (Chain.start ctx modules) where
  named := fun _ _ impossible => nomatch impossible
  positive := fun _ _ impossible => nomatch impossible
  started := fun _ _ impossible => nomatch impossible
  unstarted := fun _ _ impossible => nomatch impossible
  known := fun _ member => nomatch member

/-- Epochs are added with a positive duration and before counting, and block times do not
decrease. -/
def Op.Valid (now : Time) : Op → Prop
  | .add epoch => 0 < epoch.duration ∧ epoch.epochCountingStarted = false
  | .block ctx => now ≤ ctx.blockTime

instance (now : Time) (op : Op) : Decidable (op.Valid now) := by
  cases op <;> (unfold Op.Valid; infer_instance)

def Op.time (now : Time) : Op → Time
  | .add _ => now
  | .block ctx => ctx.blockTime

def ValidRun : Time → List Op → Prop
  | _, [] => True
  | now, op :: rest => op.Valid now ∧ ValidRun (op.time now) rest

theorem initialized_kept (ctx : Context) (epoch : EpochInfo) :
    (epoch.initialized ctx).identifier = epoch.identifier
      ∧ (epoch.initialized ctx).duration = epoch.duration
      ∧ (epoch.initialized ctx).epochCountingStarted = epoch.epochCountingStarted := by
  simp only [EpochInfo.initialized]
  split_ifs <;> exact ⟨rfl, rfl, rfl⟩

/-- No call is of an identifier without a record. -/
theorem Exact.callsOf_absent {chain : Chain H} (exact : Exact chain) {identifier : Identifier}
    (absent : chain.state.epochs.get? identifier = none) :
    callsOf chain.state.calls identifier = [] := by
  unfold callsOf
  rw [map_eq_nil_iff, filter_eq_nil_iff]
  intro call member same
  apply exact.known call member
  rw [of_decide_eq_true same]
  exact absent

theorem exact_add {chain : Chain H} (exact : Exact chain) {epoch : EpochInfo}
    (positive : 0 < epoch.duration) (unstarted : epoch.epochCountingStarted = false) :
    Exact ⟨chain.ctx, transact (addEpochInfo chain.ctx epoch) chain.state⟩ := by
  obtain ⟨sameIdentifier, sameDuration, sameStarted⟩ := initialized_kept chain.ctx epoch
  refine @transact_of_post EpochError (State H) Unit (addEpochInfo chain.ctx epoch) chain.state
    (fun next => Exact ⟨chain.ctx, next⟩) (fun _ _ => True) exact ?_
  simp only [addEpochInfo, EpochInfo.validate, post_rules]
  intro _ _ _ _ notHeld
  have absent : chain.state.epochs.get? epoch.identifier = none := by
    simpa [Store.has] using notHeld
  refine ⟨?_, ?_, ?_, ?_, ?_⟩
  · exact fun _ _ => forall_set (exact.named _ _) sameIdentifier
  · exact fun _ _ => forall_set (exact.positive _ _) (sameDuration ▸ positive)
  · exact fun _ _ => forall_set (exact.started _ _) (by simp [sameStarted, unstarted])
  · exact fun _ _ => forall_set (exact.unstarted _ _) (fun _ => exact.callsOf_absent absent)
  · intro call member
    rw [get?_set]
    split_ifs
    · exact Option.some_ne_none _
    · exact exact.known call member

/-! ### Calls of a block -/

section Calls

variable {ctx : Context}

theorem callsOf_append (first second : List Call) (identifier : Identifier) :
    callsOf (first ++ second) identifier
      = callsOf first identifier ++ callsOf second identifier := by
  unfold callsOf
  rw [filter_append, map_append]

theorem due_identifier {epoch : EpochInfo} {call : Call} (member : call ∈ epoch.due ctx) :
    call.identifier = epoch.identifier := by
  unfold EpochInfo.due at member
  split_ifs at member
  · rw [mem_singleton.mp member]
  · simp only [mem_cons, not_mem_nil, or_false] at member
    rcases member with isEnd | isStart
    · rw [isEnd]
    · rw [isStart]
  · cases member

/-- The calls due for an epoch are calls of that epoch. -/
theorem callsOf_due (epoch : EpochInfo) (identifier : Identifier) :
    callsOf (epoch.due ctx) identifier
      = if epoch.identifier = identifier then
          (epoch.due ctx).map fun call => (call.moment, call.epochNumber)
        else [] := by
  unfold callsOf
  split_ifs with same
  · rw [filter_eq_self.mpr]
    intro call member
    rw [due_identifier member, same]
    exact decide_eq_true rfl
  · rw [map_eq_nil_iff, filter_eq_nil_iff]
    intro call member isIdentifier
    exact same ((due_identifier member).symm.trans (of_decide_eq_true isIdentifier))

theorem callsOf_walk (identifier : Identifier) :
    ∀ entries : List (Identifier × EpochInfo),
      (∀ entry ∈ entries, entry.2.identifier = entry.1) →
      entries.Pairwise (fun first second => first.1 < second.1) →
      callsOf (entries.flatMap fun entry => entry.2.due ctx) identifier
        = match lookupEntry identifier entries with
          | some epoch => (epoch.due ctx).map fun call => (call.moment, call.epochNumber)
          | none => []
  | [], _, _ => rfl
  | (name, epoch) :: rest, named, sorted => by
    have isNamed : epoch.identifier = name := named (name, epoch) mem_cons_self
    have tail := callsOf_walk identifier rest
      (fun entry member => named entry (mem_cons_of_mem _ member)) sorted.of_cons
    rw [flatMap_cons, callsOf_append, tail, callsOf_due, lookupEntry, isNamed]
    by_cases here : identifier = name
    · rw [if_pos here.symm, if_pos here, here, lookupEntry_tail sorted, append_nil]
    · rw [if_neg fun same => here same.symm, if_neg here, nil_append]

theorem callsOf_block {state : State H} (named : Named state) {identifier : Identifier}
    {epoch : EpochInfo} (found : state.epochs.get? identifier = some epoch) :
    callsOf (state.epochs.entries.flatMap fun entry => entry.2.due ctx) identifier
      = (epoch.due ctx).map fun call => (call.moment, call.epochNumber) := by
  rw [callsOf_walk identifier state.epochs.entries
    (fun entry member => named entry.1 entry.2 (mem_entries.mp member)) state.epochs.sorted]
  rw [show lookupEntry identifier state.epochs.entries = some epoch from found]

theorem mem_callsOf {calls : List Call} {call : Call} (member : call ∈ calls) :
    (call.moment, call.epochNumber) ∈ callsOf calls call.identifier :=
  mem_map.mpr ⟨call, mem_filter.mpr ⟨member, decide_eq_true rfl⟩, rfl⟩

theorem updated_kept {epoch : EpochInfo} :
    (epoch.updated ctx).identifier = epoch.identifier
      ∧ (epoch.updated ctx).duration = epoch.duration
      ∧ (epoch.updated ctx).startTime = epoch.startTime := by
  unfold EpochInfo.updated
  split_ifs <;> exact ⟨rfl, rfl, rfl⟩

theorem history_following {count : Int} (counted : 1 ≤ count) :
    history (count + 1).toNat
      = history count.toNat
        ++ [(Moment.afterEpochEnd, count), (Moment.beforeEpochStart, count + 1)] := by
  obtain ⟨n, isCount⟩ : ∃ n : Nat, count = (n : Int) + 1 := ⟨(count - 1).toNat, by omega⟩
  have current : count.toNat = n + 1 := by omega
  have next : (count + 1).toNat = n + 2 := by omega
  rw [current, next, history, isCount]
  rfl

end Calls

/-- An epoch that was on schedule, or had not started, is on schedule after the block if it
has started by then. -/
theorem onSchedule_block {chain : Chain H} (exact : Exact chain) {ctx : Context}
    (later : chain.ctx.blockTime ≤ ctx.blockTime) {next : State H}
    (advanced : Advanced hooks ctx chain.state next) {identifier : Identifier} {epoch : EpochInfo}
    (found : chain.state.epochs.get? identifier = some epoch)
    (isStarted : (epoch.updated ctx).epochCountingStarted = true) :
    OnSchedule ctx.blockTime next.calls (epoch.updated ctx) := by
  have named := exact.named identifier epoch found
  obtain ⟨sameIdentifier, sameDuration, sameStart⟩ := @updated_kept ctx epoch
  have made : callsOf next.calls epoch.identifier
      = callsOf chain.state.calls epoch.identifier
        ++ (epoch.due ctx).map fun call => (call.moment, call.epochNumber) := by
    rw [advanced.calls, callsOf_append, named, callsOf_block exact.named found]
  -- a call of this epoch is an old one or one that is due
  have split : ∀ call ∈ next.calls, call.identifier = epoch.identifier →
      call ∈ chain.state.calls ∨ call ∈ epoch.due ctx := by
    intro call member same
    rw [advanced.calls] at member
    rcases mem_append.mp member with old | new
    · exact Or.inl old
    · obtain ⟨entry, isEntry, isDue⟩ := mem_flatMap.mp new
      have stored := mem_entries.mp isEntry
      have isName : entry.1 = identifier := by
        rw [← exact.named entry.1 entry.2 stored, ← due_identifier isDue, same, named]
      rw [isName, found] at stored
      rw [Option.some.inj stored]
      exact Or.inr isDue
  by_cases starts : epoch.Starts ctx
  · obtain ⟨due, updated⟩ := starts.block
    have noCalls := exact.unstarted identifier epoch found starts.2
    rw [← named] at noCalls
    rw [noCalls, due] at made
    rw [updated]
    refine ⟨le_refl _, ?_, starts.1, made, ?_⟩
    · show epoch.startTime = epoch.startTime + (1 - 1) * epoch.duration
      ring
    · intro call member same isEnd
      rcases split call member same with old | new
      · have inCalls := mem_callsOf old
        rw [show call.identifier = epoch.identifier from same, noCalls] at inCalls
        cases inCalls
      · rw [due, mem_singleton] at new
        rw [new] at isEnd
        cases isEnd
  · by_cases ends : epoch.Ends ctx
    · obtain ⟨due, updated⟩ := ends.block
      have before := exact.started identifier epoch found ends.2.1
      rw [due, before.made] at made
      rw [updated]
      refine ⟨?_, ?_, ends.1, ?_, ?_⟩
      · show 1 ≤ epoch.currentEpoch + 1
        have := before.counted
        omega
      · show epoch.currentEpochStartTime + epoch.duration
          = epoch.startTime + (epoch.currentEpoch + 1 - 1) * epoch.duration
        rw [before.startTime]
        ring
      · exact made.trans (history_following before.counted).symm
      · intro call member same isEnd
        show epoch.startTime + call.epochNumber * epoch.duration < call.time
        rcases split call member same with old | new
        · exact before.timely call old same isEnd
        · rw [due] at new
          rcases mem_cons.mp new with isAfter | isBefore
          · rw [isAfter]
            have ended := ends.2.2
            rw [before.startTime] at ended
            calc epoch.startTime + epoch.currentEpoch * epoch.duration
                = epoch.startTime + (epoch.currentEpoch - 1) * epoch.duration
                    + epoch.duration := by ring
              _ < ctx.blockTime := ended
          · rw [mem_singleton.mp isBefore] at isEnd
            cases isEnd
    · obtain ⟨due, updated⟩ := EpochInfo.idle_block starts ends
      rw [updated] at isStarted ⊢
      rw [due, map_nil, append_nil] at made
      have before := exact.started identifier epoch found isStarted
      refine ⟨before.counted, before.startTime, before.reached.trans later,
        made.trans before.made, ?_⟩
      intro call member same isEnd
      rcases split call member same with old | new
      · exact before.timely call old same isEnd
      · rw [due] at new
        cases new

theorem exact_block {chain : Chain H} (exact : Exact chain) {ctx : Context}
    (later : chain.ctx.blockTime ≤ ctx.blockTime) {next : State H}
    (advanced : Advanced hooks ctx chain.state next) : Exact ⟨ctx, next⟩ := by
  -- every record is the update of one before
  have from_ : ∀ identifier found, next.epochs.get? identifier = some found →
      ∃ epoch, chain.state.epochs.get? identifier = some epoch ∧ epoch.updated ctx = found := by
    intro identifier found present
    rw [advanced.epochs] at present
    exact Option.map_eq_some_iff.mp present
  refine ⟨?_, ?_, ?_, ?_, ?_⟩
  · intro identifier found present
    obtain ⟨epoch, stored, rfl⟩ := from_ identifier found present
    exact updated_kept.1.trans (exact.named identifier epoch stored)
  · intro identifier found present
    obtain ⟨epoch, stored, rfl⟩ := from_ identifier found present
    rw [updated_kept.2.1]
    exact exact.positive identifier epoch stored
  · intro identifier found present started
    obtain ⟨epoch, stored, rfl⟩ := from_ identifier found present
    exact onSchedule_block exact later advanced stored started
  · intro identifier found present notStarted
    obtain ⟨epoch, stored, rfl⟩ := from_ identifier found present
    have idle : epoch.due ctx = [] ∧ epoch.epochCountingStarted = false := by
      unfold EpochInfo.updated at notStarted
      split_ifs at notStarted with starts ends
      · cases notStarted
      · exact absurd (ends.2.1.symm.trans notStarted) (by decide)
      · exact ⟨(EpochInfo.idle_block starts ends).1, notStarted⟩
    rw [advanced.calls, callsOf_append, callsOf_block exact.named stored, idle.1,
      exact.unstarted identifier epoch stored idle.2]
    rfl
  · intro call member
    rw [advanced.epochs]
    rw [advanced.calls] at member
    intro absent
    rw [Option.map_eq_none_iff] at absent
    rcases mem_append.mp member with old | new
    · exact exact.known call old absent
    · obtain ⟨entry, isEntry, isDue⟩ := mem_flatMap.mp new
      have stored := mem_entries.mp isEntry
      rw [due_identifier isDue, exact.named entry.1 entry.2 stored, stored] at absent
      cases absent

theorem Chain.block_spec {chain next : Chain H} {ctx : Context} (exact : Exact chain)
    (later : chain.ctx.blockTime ≤ ctx.blockTime) (ran : chain.block hooks ctx = some next) :
    next.ctx = ctx ∧ Exact next ∧ Advanced hooks ctx chain.state next.state := by
  unfold Chain.block at ran
  have spec := @beginBlocker_spec H hooks ctx chain.state exact.named
  cases outcome : beginBlocker hooks ctx chain.state with
  | ok value state =>
    rw [outcome] at ran
    cases ran
    have advanced := spec.of_ok outcome
    exact ⟨rfl, exact_block exact later advanced, advanced⟩
  | error fault state =>
    rw [outcome] at ran
    cases ran

/-- Hooks that only return errors stop no block. -/
theorem Chain.block_returns {chain : Chain H} (named : Named chain.state)
    (calm : ¬ HookPanics hooks) (ctx : Context) : ∃ next, chain.block hooks ctx = some next := by
  unfold Chain.block
  cases outcome : beginBlocker hooks ctx chain.state with
  | ok value state => exact ⟨_, rfl⟩
  | error fault state => exact absurd ((beginBlocker_spec named).of_error outcome) calm

theorem exact_run :
    ∀ (ops : List Op) (chain last : Chain H), Exact chain →
      ValidRun chain.ctx.blockTime ops → runOps hooks ops chain = some last → Exact last
  | [], chain, last, exact, _, ran => by
    cases ran
    exact exact
  | .add epoch :: rest, chain, last, exact, valid, ran =>
    exact_run rest _ last (exact_add exact valid.1.1 valid.1.2) valid.2 ran
  | .block ctx :: rest, chain, last, exact, valid, ran => by
    obtain ⟨next, blocked, ran⟩ := Option.bind_eq_some_iff.mp ran
    obtain ⟨sameCtx, after, _⟩ := Chain.block_spec exact valid.1 blocked
    exact exact_run rest next last after (by rw [sameCtx]; exact valid.2) ran

theorem runOps_returns (calm : ¬ HookPanics hooks) :
    ∀ (ops : List Op) (chain : Chain H), Exact chain → ValidRun chain.ctx.blockTime ops →
      ∃ last, runOps hooks ops chain = some last
  | [], chain, _, _ => ⟨chain, rfl⟩
  | .add epoch :: rest, chain, exact, valid =>
    runOps_returns calm rest _ (exact_add exact valid.1.1 valid.1.2) valid.2
  | .block ctx :: rest, chain, exact, valid => by
    obtain ⟨next, blocked⟩ := Chain.block_returns exact.named calm ctx
    obtain ⟨sameCtx, after, _⟩ := Chain.block_spec exact valid.1 blocked
    obtain ⟨last, ran⟩ := runOps_returns calm rest next after (by rw [sameCtx]; exact valid.2)
    exact ⟨last, Option.bind_eq_some_iff.mpr ⟨next, blocked, ran⟩⟩

/-- What a block does to one epoch: the counter rises by one in blocks behind the end of the
current epoch, and counting starts at the start time. -/
structure Rises (ctx : Context) (before after : EpochInfo) : Prop where
  ended : before.epochCountingStarted = true →
    before.currentEpochStartTime + before.duration < ctx.blockTime →
    after.currentEpoch = before.currentEpoch + 1
  waiting : before.epochCountingStarted = true →
    ¬ before.currentEpochStartTime + before.duration < ctx.blockTime → after = before
  started : before.epochCountingStarted = false → before.startTime ≤ ctx.blockTime →
    after.epochCountingStarted = true ∧ after.currentEpoch = 1
  early : before.epochCountingStarted = false → ctx.blockTime < before.startTime → after = before

theorem rises_updated {ctx : Context} {epoch : EpochInfo}
    (reached : epoch.epochCountingStarted = true → epoch.startTime ≤ ctx.blockTime) :
    Rises ctx epoch (epoch.updated ctx) := by
  refine ⟨?_, ?_, ?_, ?_⟩
  · intro started after
    rw [(show epoch.Ends ctx from ⟨reached started, started, after⟩).block.2]
    rfl
  · intro started before
    exact (EpochInfo.idle_block (EpochInfo.not_starts started) fun ends => before ends.2.2).2
  · intro unstarted late
    rw [(show epoch.Starts ctx from ⟨late, unstarted⟩).block.2]
    exact ⟨rfl, rfl⟩
  · intro unstarted early
    exact (EpochInfo.idle_block (fun starts => absurd starts.1 early.not_ge)
      fun ends => absurd ends.1 early.not_ge).2

/-- Runs end only with a panic of a hook, not with errors that hooks return. After every run
epochs are on schedule, and the next block raises every counter, calls the hooks and writes the
modules exactly as due. -/
theorem epochs_advance_exactly {start : Context} {modules : H} {ops : List Op}
    (valid : ValidRun start.blockTime ops) :
    (¬ HookPanics hooks → ∃ chain, runOps hooks ops (Chain.start start modules) = some chain)
    ∧ ∀ chain, runOps hooks ops (Chain.start start modules) = some chain →
      Exact chain ∧ ∀ ctx, chain.ctx.blockTime ≤ ctx.blockTime →
        (¬ HookPanics hooks → ∃ next, chain.block hooks ctx = some next)
        ∧ ∀ next, chain.block hooks ctx = some next →
          Exact next ∧ Advanced hooks ctx chain.state next.state
            ∧ (∀ call modules, AnyFails call hooks modules →
                isolated hooks modules call = modules)
            ∧ ∀ identifier epoch, chain.state.epochs.get? identifier = some epoch →
              ∃ after, next.state.epochs.get? identifier = some after
                ∧ Rises ctx epoch after := by
  have started := exact_start start modules
  refine ⟨fun calm => runOps_returns calm ops _ started valid, fun chain reached => ?_⟩
  have exact := exact_run ops _ chain started valid reached
  refine ⟨exact, fun ctx later => ⟨fun calm => Chain.block_returns exact.named calm ctx, ?_⟩⟩
  intro next blocked
  obtain ⟨_, kept, advanced⟩ := Chain.block_spec exact later blocked
  refine ⟨kept, advanced, fun _ _ fails => isolated_of_failure fails,
    fun identifier epoch found => ⟨epoch.updated ctx, ?_, ?_⟩⟩
  · rw [advanced.epochs, found]
    rfl
  · apply rises_updated
    intro started
    exact (exact.started identifier epoch found started).reached.trans later

end Runs

/-! ## A sample run -/

/-- Counts the calls it gets, and fails behind its write at the end of the second epoch. -/
def sampleHooks : List (EpochHooks Nat) :=
  [{ afterEpochEnd := fun _ number => do
       modify (· + 1)
       failIf (number = 2) "second epoch"
     beforeEpochStart := fun _ _ => modify (· + 1) }]

def sampleEpoch : EpochInfo := ⟨[7], 100, 10, 0, 0, false, 0⟩

def sampleOps : List Op :=
  [.add sampleEpoch, .block ⟨50, 1⟩, .block ⟨105, 2⟩, .block ⟨110, 3⟩, .block ⟨150, 4⟩,
    .block ⟨150, 5⟩]

def sampleRun : Option (Chain Nat) := runOps sampleHooks sampleOps (Chain.start ⟨0, 0⟩ 0)

/-- The counter, the calls and the modules after the sample run; the jump to 150 is caught
up one epoch a block. -/
example : sampleRun.map (fun chain => (chain.state.epochs.values.map (·.currentEpoch),
      callsOf chain.state.calls [7], chain.state.modules))
    = some ([3], history 3, 4) := by
  decide +kernel

theorem sample_advances_exactly :
    ∃ chain, runOps sampleHooks sampleOps (Chain.start ⟨0, 0⟩ 0) = some chain ∧ Exact chain := by
  have valid : ValidRun (0 : Time) sampleOps := by
    simp [ValidRun, sampleOps, Op.Valid, Op.time, sampleEpoch]
  have calm : ¬ HookPanics sampleHooks := by
    rintro ⟨hook, member, ⟨moment, identifier, number, time⟩, modules, reason, next, ran⟩
    rw [mem_singleton.mp member] at ran
    cases moment with
    | beforeEpochStart => cases ran
    | afterEpochEnd =>
      by_cases second : number = 2
      · subst second
        cases ran
      · simp only [EpochHooks.run, failIf, if_neg second] at ran
        cases ran
  obtain ⟨returns, advance⟩ :=
    @epochs_advance_exactly Nat sampleHooks ⟨0, 0⟩ 0 sampleOps valid
  obtain ⟨chain, reached⟩ := returns calm
  exact ⟨chain, reached, (advance chain reached).1⟩

end AtomOneSdk.Epochs
