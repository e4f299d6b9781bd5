import AtomOneSdk.Proposals.ThrottlerSpec

/-!
Contract: the minimum deposits over whole runs.

Owns: runs of updates, new parameters and passing time, and what holds along them: no call
panics, the stored minima follow the floors, activations and submissions lower no amount,
time raises none, and two changes by time are an update period apart.

Does **not** own: when proposals are activated or submitted.
-/

namespace AtomOneSdk.Proposals

open Lib Lib.Action
open AtomOneSdk.Types
open Staking (Denom Coin Time Address)

/-! ## Validated parameters -/

/-- What the validation of a throttler gives. -/
structure Throttler.Ok (throttler : Throttler) : Prop where
  floor : ModerateCoins throttler.floorValue
  period : ∃ tick, throttler.updatePeriod = some tick ∧ 0 < tick
  increase : ∃ ratio, throttler.increaseRatio = some ratio ∧ 0 < ratio.units
    ∧ ratio.units < Dec.one
  decrease : ∃ ratio, throttler.decreaseRatio = some ratio ∧ 0 < ratio.units
    ∧ ratio.units < Dec.one

theorem validateRatio_ok {label : String} {ratio : DecStr} {done : Unit}
    (passed : validateRatio label ratio = .ok done) :
    ∃ value, ratio = some value ∧ 0 < value.units ∧ value.units < Dec.one := by
  simp only [validateRatio, bind_eq_ok, Check.require_ok, Check.reject_ok, not_le] at passed
  obtain ⟨value, found, _, positive, below⟩ := passed
  exact ⟨value, found, positive, below⟩

theorem validateThrottler_ok {label target : String} {votingPeriod : Duration}
    {throttler : Throttler} {done : Unit}
    (passed : validateThrottler label target votingPeriod throttler = .ok done) :
    throttler.Ok := by
  simp only [validateThrottler, validateDepositThrottlerFloor, bind_eq_ok, Check.require_ok,
    Check.reject_ok, not_or, not_exists, not_and, not_lt, not_le] at passed
  obtain ⟨_, ⟨_, ⟨_, isValid⟩, capped⟩, tick, period, _, positive, _, _, _, _, _, _, _, _, _,
    increase, decrease⟩ := passed
  have valid : Coins.Valid throttler.floorValue :=
    Coins.isValid_iff.mp (Bool.not_eq_false _ ▸ isValid)
  have floor : ModerateCoins throttler.floorValue :=
    ⟨valid, fun coin member => (Moderate.of_floor (valid.positive coin member)
      (capped coin member)).2⟩
  exact ⟨floor, ⟨tick, period, positive⟩, validateRatio_ok increase, validateRatio_ok decrease⟩

/-- The two minimum deposits. -/
inductive Which where
  | minDeposit
  | minInitialDeposit
deriving DecidableEq, Repr

def Params.throttler (p : Params) : Which → Option Throttler
  | .minDeposit => p.minDepositThrottler
  | .minInitialDeposit => p.minInitialDepositThrottler

theorem Params.throttler_ok {p : Params} (valid : p.validateBasic = .ok ()) (which : Which) :
    ∃ throttler, p.throttler which = some throttler ∧ throttler.Ok := by
  simp only [Params.validateBasic, bind_eq_ok, Check.require_ok] at valid
  obtain ⟨_, _, _, _, _, _, _, _, _, _, _, _, _, _, _, _, _, _, deposit, hasDeposit, _, depositOk,
    initial, hasInitial, _, initialOk, _⟩ := valid
  cases which with
  | minDeposit => exact ⟨deposit, hasDeposit, validateThrottler_ok depositOk⟩
  | minInitialDeposit => exact ⟨initial, hasInitial, validateThrottler_ok initialOk⟩

/-! ## One update -/

/-- The product of a ratio and a root: not above the negated ratio, and not below the
distance. -/
theorem mul_root {ratio b distance : Int} (positive : 0 < ratio) (below : ratio < Dec.one)
    (atLeast : distance ≤ b) (atMost : b ≤ -Dec.one) :
    distance ≤ Dec.mul ratio b ∧ Dec.mul ratio b ≤ 0 := by
  have onePos := Dec.one_pos
  constructor
  · apply le_roundHalfEven onePos
    calc distance * Dec.one ≤ b * Dec.one := mul_le_mul_of_nonneg_right atLeast onePos.le
      _ ≤ b * ratio := mul_le_mul_of_nonpos_left below.le (by omega)
      _ = ratio * b := mul_comm _ _
  · apply roundHalfEven_le onePos
    rw [zero_mul]
    exact mul_nonpos_of_nonneg_of_nonpos positive.le (by omega)

section Update

variable {throttler : Throttler} (ok : throttler.Ok) (root : Root) (count : UInt64)

include ok

theorem increaseChange_spec :
    ∃ change, increaseChange throttler = some change ∧ Dec.one ≤ change.units := by
  obtain ⟨alpha, isAlpha, positive, below⟩ := ok.increase
  have small : (BoundedDec.one.units + alpha.units).natAbs < decLimit := by
    simp only [BoundedDec.one, Dec.one_eq, decLimit] at below ⊢
    omega
  obtain ⟨change, added, isSum⟩ := BoundedDec.exists_ofUnits? small
  refine ⟨change, by simp [increaseChange, isAlpha, BoundedDec.add, added], ?_⟩
  rw [isSum]
  show Dec.one ≤ Dec.one + alpha.units
  omega

omit ok in
/-- The distance to the target, and the bounds of its root. -/
theorem distance_spec (fewer : count.toNat < throttler.targetProposals.toNat) :
    ∃ distance,
      BoundedDec.ofInt? ((count.toNat : Int) - throttler.targetProposals.toNat) = some distance
        ∧ -(2 ^ 64 * Dec.one) ≤ distance.units
        ∧ ∀ k, distance.units ≤ ((root.approxRoot distance k).getD distance).units
          ∧ ((root.approxRoot distance k).getD distance).units ≤ -Dec.one := by
  have bounded : throttler.targetProposals.toNat < 2 ^ 64 := throttler.targetProposals.toNat_lt
  have small : (Dec.ofInt ((count.toNat : Int) - throttler.targetProposals.toNat)).natAbs
      < decLimit := by
    simp only [Dec.ofInt, Dec.one_eq, decLimit]
    omega
  obtain ⟨distance, isDistance, units⟩ := BoundedDec.exists_ofUnits? small
  simp only [Dec.ofInt, Dec.one_eq] at units
  have negative : distance.units ≤ -Dec.one := by
    simp only [Dec.one_eq]
    omega
  refine ⟨distance, isDistance, ?_, ?_⟩
  · simp only [Dec.one_eq]
    omega
  · intro k
    cases found : root.approxRoot distance k with
    | none => exact ⟨le_refl _, negative⟩
    | some b => exact root.between distance k b negative found

theorem decreaseChange_spec (fewer : count.toNat < throttler.targetProposals.toNat) :
    ∃ change, decreaseChange root throttler count = some change ∧ change.units ≤ Dec.one := by
  obtain ⟨alpha, isAlpha, positive, below⟩ := ok.decrease
  obtain ⟨distance, isDistance, low, bounds⟩ := distance_spec root count fewer
  obtain ⟨atLeast, atMost⟩ := bounds throttler.decreaseSensitivityTargetDistance
  obtain ⟨productLow, productHigh⟩ := mul_root positive below atLeast atMost
  simp only [Dec.one_eq] at low
  have productSmall : (Dec.mul alpha.units ((root.approxRoot distance
      throttler.decreaseSensitivityTargetDistance).getD distance).units).natAbs < decLimit := by
    simp only [decLimit]
    omega
  obtain ⟨product, multiplied, productUnits⟩ := BoundedDec.exists_ofUnits? productSmall
  have sumSmall : (BoundedDec.one.units + product.units).natAbs < decLimit := by
    simp only [BoundedDec.one, Dec.one_eq, decLimit]
    omega
  obtain ⟨change, added, isSum⟩ := BoundedDec.exists_ofUnits? sumSmall
  refine ⟨change, ?_, ?_⟩
  · simp [decreaseChange, isAlpha, isDistance, BoundedDec.mul, multiplied, BoundedDec.add, added]
  · rw [isSum]
    show Dec.one + product.units ≤ Dec.one
    omega

/-- The change never overflows. On the path of activations and submissions it is at least
one, on the path of time at most one. -/
theorem percChange_spec (checkElapsedTime : Bool) :
    ∃ result, percChange root throttler count checkElapsedTime = some result
      ∧ ∀ change, result = some change →
          (checkElapsedTime = false → Dec.one ≤ change.units)
          ∧ (checkElapsedTime = true → change.units ≤ Dec.one) := by
  unfold percChange
  split_ifs with reached byTime byTime
  · exact ⟨none, rfl, fun change isChange => nomatch isChange⟩
  · obtain ⟨change, found, up⟩ := increaseChange_spec ok
    refine ⟨some change, by rw [found]; rfl, ?_⟩
    intro other isOther
    cases isOther
    exact ⟨fun _ => up, fun isTime => absurd isTime byTime⟩
  · have fewer : count.toNat < throttler.targetProposals.toNat :=
      UInt64.lt_iff_toNat_lt.mp (UInt64.not_le.mp reached)
    obtain ⟨change, found, down⟩ := decreaseChange_spec ok root count fewer
    refine ⟨some change, by rw [found]; rfl, ?_⟩
    intro other isOther
    cases isOther
    refine ⟨fun notTime => ?_, fun _ => down⟩
    rw [byTime] at notTime
    cases notTime
  · exact ⟨none, rfl, fun change isChange => nomatch isChange⟩

/-- What an update stores, if anything: a minimum that follows the floor, with the block
time. By time it comes an update period after the last one. -/
theorem updated_spec {last : LastMinDeposit} {time blockTime : Time}
    (timed : last.time = some time) (follows : Follows throttler.floorValue last.value)
    (checkElapsedTime : Bool) :
    ∃ result, updated root throttler last blockTime count checkElapsedTime = some result
      ∧ ∀ next, result = some next → next.time = some blockTime
          ∧ Follows throttler.floorValue next.value
          ∧ (checkElapsedTime = false → ∀ denom,
              Coins.total last.value denom ≤ Coins.total next.value denom)
          ∧ (checkElapsedTime = true →
              (∀ denom, Coins.total next.value denom ≤ Coins.total last.value denom)
              ∧ ∀ tick, throttler.updatePeriod = some tick → time + tick ≤ blockTime) := by
  obtain ⟨tick, period, positive⟩ := ok.period
  obtain ⟨change, isChange, sides⟩ := percChange_spec ok root count checkElapsedTime
  have decided : ∃ early, isEarly throttler last blockTime checkElapsedTime = some early
      ∧ (early = false → checkElapsedTime = true → time + tick ≤ blockTime) := by
    cases checkElapsedTime with
    | false => exact ⟨false, rfl, fun _ => (nomatch ·)⟩
    | true =>
      refine ⟨decide (durationSub blockTime time < tick), by simp [isEarly, timed, period], ?_⟩
      intro late _
      have saturated : ¬ durationSub blockTime time < tick := of_decide_eq_false late
      rw [not_lt, durationSub, le_max_iff, le_min_iff] at saturated
      rcases saturated with belowAll | ⟨_, passed⟩
      · exact absurd (positive.trans_le belowAll) (by decide)
      · linarith
  obtain ⟨early, isEarly, late⟩ := decided
  simp only [updated, isEarly, some_bind]
  cases early with
  | true => exact ⟨none, rfl, fun next isNext => nomatch isNext⟩
  | false =>
    simp only [isChange, Bool.false_eq_true, if_false]
    cases change with
    | none => exact ⟨none, rfl, fun next isNext => nomatch isNext⟩
    | some change =>
      obtain ⟨up, down⟩ := sides change rfl
      obtain ⟨value, found, followsNext, notLower, notHigher⟩ :=
        getNewMinDeposit_follows ok.floor follows.moderate change
      refine ⟨some ⟨value, some blockTime⟩, by simp [found], ?_⟩
      intro next isNext
      cases isNext
      refine ⟨rfl, followsNext, ?_, ?_⟩
      · intro isActivation denom
        by_cases occurs : Coins.total throttler.floorValue denom = 0
        · rw [(follows.sameDenoms denom).mpr occurs, (followsNext.sameDenoms denom).mpr occurs]
        · exact notLower (up isActivation) denom occurs
      · intro isTime
        refine ⟨?_, ?_⟩
        · intro denom
          by_cases occurs : Coins.total last.value denom = 0
          · rw [occurs, (followsNext.sameDenoms denom).mpr ((follows.sameDenoms denom).mp occurs)]
          · exact notHigher (down isTime) denom occurs (follows.above denom)
        · intro other isOther
          rw [period] at isOther
          cases isOther
          exact late rfl isTime

omit ok in
/-- New parameters bring a minimum to their floor and change no amount that is not below it. -/
theorem refloored_spec (newOk : throttler.Ok) {last : LastMinDeposit} (blockTime : Time)
    (moderate : ModerateCoins last.value) :
    ∃ result, refloored throttler last blockTime = some result
      ∧ (result = none → Follows throttler.floorValue last.value)
      ∧ ∀ next, result = some next → next.time = some blockTime
          ∧ Follows throttler.floorValue next.value := by
  obtain ⟨value, found, follows, _, _⟩ :=
    getNewMinDeposit_follows newOk.floor moderate BoundedDec.one
  simp only [refloored, found, some_bind]
  split_ifs with same
  · refine ⟨none, rfl, fun _ => ?_, fun next isNext => nomatch isNext⟩
    rw [Coins.Increasing.eq_of_equal moderate.valid.increasing follows.moderate.valid.increasing
      same]
    exact follows
  · refine ⟨some ⟨value, some blockTime⟩, rfl, (nomatch ·), ?_⟩
    intro next isNext
    cases isNext
    exact ⟨rfl, follows⟩

end Update

/-! ## Runs -/

namespace ThrottleState

def stored (s : ThrottleState) : Which → Option LastMinDeposit
  | .minDeposit => s.lastMinDeposit
  | .minInitialDeposit => s.lastMinInitialDeposit

def store (s : ThrottleState) (which : Which) (last : LastMinDeposit) : ThrottleState :=
  match which with
  | .minDeposit => { s with lastMinDeposit := some last }
  | .minInitialDeposit => { s with lastMinInitialDeposit := some last }

def minimum (s : ThrottleState) : Which → Coins
  | .minDeposit => s.getMinDeposit.value
  | .minInitialDeposit => s.getMinInitialDeposit.value

@[simp] theorem stored_store_self (s : ThrottleState) (which : Which) (last : LastMinDeposit) :
    (s.store which last).stored which = some last := by
  cases which <;> rfl

theorem stored_store_of_ne (s : ThrottleState) {which other : Which} (differ : other ≠ which)
    (last : LastMinDeposit) : (s.store which last).stored other = s.stored other := by
  cases which <;> cases other <;> first | rfl | exact absurd rfl differ

@[simp] theorem params_store (s : ThrottleState) (which : Which) (last : LastMinDeposit) :
    (s.store which last).params = s.params := by
  cases which <;> rfl

theorem minimum_of_stored {s : ThrottleState} {which : Which} {last : LastMinDeposit}
    (isStored : s.stored which = some last) : s.minimum which = last.value := by
  cases which with
  | minDeposit =>
    have isStored : s.lastMinDeposit = some last := isStored
    simp [minimum, getMinDeposit, isStored]
  | minInitialDeposit =>
    have isStored : s.lastMinInitialDeposit = some last := isStored
    simp [minimum, getMinInitialDeposit, isStored]

end ThrottleState

/-- The throttlers and the time of the current block. -/
structure ThrottleChain where
  throttles : ThrottleState
  blockTime : Time
deriving DecidableEq

inductive ThrottleOp where
  | update (which : Which) (count : UInt64) (checkElapsedTime : Bool)
  | updateParams (params : Params)
  | nextBlock (elapsed : Nat)
deriving DecidableEq

/-- New parameters are those that the validation accepts. -/
def ThrottleOp.Accepted : ThrottleOp → Prop
  | .updateParams params => params.validateBasic = .ok ()
  | _ => True

def updateWhich (root : Root) (blockTime : Time) (count : UInt64) (checkElapsedTime : Bool) :
    Which → ThrottleM Unit
  | .minDeposit => updateMinDeposit root blockTime count checkElapsedTime
  | .minInitialDeposit => updateMinInitialDeposit root blockTime count checkElapsedTime

def onThrottles (action : ThrottleM Unit) : Action String ThrottleChain Unit :=
  zoom ThrottleChain.throttles (fun chain throttles => { chain with throttles := throttles }) id
    action

def ThrottleOp.exec (root : Root) (authority : Address) (op : ThrottleOp) :
    Action String ThrottleChain Unit := do
  let chain ← get
  match op with
  | .update which count checkElapsedTime =>
    onThrottles (updateWhich root chain.blockTime count checkElapsedTime which)
  | .updateParams params =>
    onThrottles (Proposals.updateParams authority authority chain.blockTime params)
  | .nextBlock elapsed => set { chain with blockTime := chain.blockTime + elapsed }

/-- `InitGenesis` stores the floors. -/
def ThrottleChain.genesis (params : Params) (blockTime : Time) : ThrottleChain where
  throttles :=
    { params := params
      lastMinDeposit := params.minDepositThrottler.map fun t => ⟨t.floorValue, some blockTime⟩
      lastMinInitialDeposit :=
        params.minInitialDepositThrottler.map fun t => ⟨t.floorValue, some blockTime⟩ }
  blockTime := blockTime

/-- A stored minimum follows the floor of its throttler and is not from the future. -/
structure StoredOk (chain : ThrottleChain) (which : Which) (throttler : Throttler)
    (last : LastMinDeposit) (time : Time) : Prop where
  has : chain.throttles.params.throttler which = some throttler
  ok : throttler.Ok
  stored : chain.throttles.stored which = some last
  timed : last.time = some time
  past : time ≤ chain.blockTime
  follows : Follows throttler.floorValue last.value

theorem StoredOk.unique {chain : ThrottleChain} {which : Which} {throttler throttler' : Throttler}
    {last last' : LastMinDeposit} {time time' : Time}
    (here : StoredOk chain which throttler last time)
    (there : StoredOk chain which throttler' last' time') :
    throttler' = throttler ∧ last' = last ∧ time' = time := by
  have sameThrottler : throttler' = throttler := some_unique there.has here.has
  have sameLast : last' = last := some_unique there.stored here.stored
  have timed := there.timed
  rw [sameLast] at timed
  exact ⟨sameThrottler, sameLast, some_unique timed here.timed⟩

def ThrottlesOk (chain : ThrottleChain) : Prop :=
  ∀ which, ∃ throttler last time, StoredOk chain which throttler last time

theorem genesis_ok {params : Params} (valid : params.validateBasic = .ok ()) (blockTime : Time) :
    ThrottlesOk (.genesis params blockTime) := by
  intro which
  obtain ⟨throttler, has, ok⟩ := Params.throttler_ok valid which
  refine ⟨throttler, ⟨throttler.floorValue, some blockTime⟩, blockTime, ?_⟩
  refine ⟨has, ok, ?_, rfl, le_refl _, .refl ok.floor⟩
  cases which with
  | minDeposit =>
    have has : params.minDepositThrottler = some throttler := has
    simp [ThrottleChain.genesis, ThrottleState.stored, has]
  | minInitialDeposit =>
    have has : params.minInitialDepositThrottler = some throttler := has
    simp [ThrottleChain.genesis, ThrottleState.stored, has]

section Step

variable {root : Root} {authority : Address} {chain : ThrottleChain}

variable {which : Which} {last : LastMinDeposit} {blockTime : Time} {result : Option LastMinDeposit}
  {params : Params}

theorem updateWhich_post {throttler : Throttler} {s : ThrottleState}
    (has : s.params.throttler which = some throttler) (isStored : s.stored which = some last)
    {count : UInt64} {checkElapsedTime : Bool}
    (computed : updated root throttler last blockTime count checkElapsedTime = some result) :
    Post (updateWhich root blockTime count checkElapsedTime which) s
      (fun _ next => next = result.elim s (s.store which)) (fun _ _ => False) := by
  cases which with
  | minDeposit =>
    have has : s.params.minDepositThrottler = some throttler := has
    have isLast : s.getMinDeposit = last := by
      rw [ThrottleState.getMinDeposit, show s.lastMinDeposit = some last from isStored]
      rfl
    simp only [updateWhich, updateMinDeposit, post_rules, has, isLast, Option.some.injEq,
      forall_eq', computed, reduceCtorEq, false_implies]
    cases result <;> simp [ThrottleState.store]
  | minInitialDeposit =>
    have has : s.params.minInitialDepositThrottler = some throttler := has
    have isLast : s.getMinInitialDeposit = last := by
      rw [ThrottleState.getMinInitialDeposit,
        show s.lastMinInitialDeposit = some last from isStored]
      rfl
    simp only [updateWhich, updateMinInitialDeposit, post_rules, has, isLast, Option.some.injEq,
      forall_eq', computed, reduceCtorEq, false_implies]
    cases result <;> simp [ThrottleState.store]

/-- What one step does to the minima. -/
structure StepOk (op : ThrottleOp) (before after : ThrottleChain) : Prop where
  ok : ThrottlesOk after
  later : ∀ which last time, before.throttles.stored which = some last → last.time = some time →
    ∃ last' time', after.throttles.stored which = some last' ∧ last'.time = some time'
      ∧ time ≤ time'
  activation : ∀ which count, op = .update which count false → ∀ denom,
    Coins.total (before.throttles.minimum which) denom
      ≤ Coins.total (after.throttles.minimum which) denom
  byTime : ∀ which count, op = .update which count true →
    (∀ denom, Coins.total (after.throttles.minimum which) denom
      ≤ Coins.total (before.throttles.minimum which) denom)
    ∧ (after.throttles.stored which = before.throttles.stored which
      ∨ ∃ last, after.throttles.stored which = some last ∧ last.time = some before.blockTime
        ∧ ∀ throttler last time tick, StoredOk before which throttler last time →
          throttler.updatePeriod = some tick → time + tick ≤ before.blockTime)

theorem updateWhich_step (ok : ThrottlesOk chain) (which : Which) (count : UInt64)
    (checkElapsedTime : Bool) :
    Post (updateWhich root chain.blockTime count checkElapsedTime which) chain.throttles
      (fun _ next =>
        StepOk (.update which count checkElapsedTime) chain { chain with throttles := next })
      (fun _ _ => False) := by
  obtain ⟨throttler, last, time, here⟩ := ok which
  obtain ⟨result, computed, spec⟩ := updated_spec here.ok root count here.timed here.follows
    checkElapsedTime
  refine (updateWhich_post here.has here.stored computed).imp ?_
  intro _ next isNext
  cases result with
  | none =>
    have same : next = chain.throttles := isNext
    rw [same]
    refine ⟨ok, ?_, ?_, ?_⟩
    · exact fun other last time isStored timed => ⟨last, time, isStored, timed, le_refl _⟩
    · exact fun _ _ _ denom => le_refl _
    · exact fun _ _ _ => ⟨fun denom => le_refl _, .inl rfl⟩
  | some new =>
    have isNext : next = chain.throttles.store which new := isNext
    obtain ⟨timed, follows, up, down⟩ := spec new rfl
    rw [isNext]
    have valueBefore := ThrottleState.minimum_of_stored here.stored
    have valueAfter : (chain.throttles.store which new).minimum which = new.value :=
      ThrottleState.minimum_of_stored (ThrottleState.stored_store_self _ _ _)
    refine ⟨?_, ?_, ?_, ?_⟩
    · intro other
      by_cases same : other = which
      · rw [same]
        exact ⟨throttler, new, chain.blockTime, by simpa using here.has, here.ok, by simp, timed,
          le_refl _, follows⟩
      · obtain ⟨throttler', last', time', there⟩ := ok other
        exact ⟨throttler', last', time', by simpa using there.has, there.ok,
          (ThrottleState.stored_store_of_ne _ same _).trans there.stored, there.timed,
          there.past, there.follows⟩
    · intro other last' time' isStored timed'
      by_cases same : other = which
      · rw [same] at isStored ⊢
        have sameLast : last' = last := some_unique isStored here.stored
        rw [sameLast] at timed'
        have sameTime : time' = time := some_unique timed' here.timed
        rw [sameTime]
        exact ⟨new, chain.blockTime, ThrottleState.stored_store_self _ _ _, timed, here.past⟩
      · exact ⟨last', time', (ThrottleState.stored_store_of_ne _ same _).trans isStored, timed',
          le_refl _⟩
    · intro other count' isOp denom
      cases isOp
      rw [valueBefore, valueAfter]
      exact up rfl denom
    · intro other count' isOp
      cases isOp
      rw [valueBefore, valueAfter]
      obtain ⟨lower, period⟩ := down rfl
      refine ⟨lower, .inr ⟨new, ThrottleState.stored_store_self _ _ _, timed, ?_⟩⟩
      intro throttler' last' time' tick there isTick
      obtain ⟨sameThrottler, _, sameTime⟩ := here.unique there
      rw [sameTime]
      rw [sameThrottler] at isTick
      exact period tick isTick

/-- New parameters: each minimum is brought to its floor, if it is not there. -/
theorem updateParams_post {s : ThrottleState} (valid : params.validateBasic = .ok ())
    {deposit initial : Throttler} (hasDeposit : params.minDepositThrottler = some deposit)
    (hasInitial : params.minInitialDepositThrottler = some initial)
    {resultInitial : Option LastMinDeposit}
    (computed : refloored deposit s.getMinDeposit blockTime = some result)
    (computedInitial :
      refloored initial s.getMinInitialDeposit blockTime = some resultInitial) :
    Post (Proposals.updateParams authority authority blockTime params) s
      (fun _ next => next = ⟨params, result.or s.lastMinDeposit,
        resultInitial.or s.lastMinInitialDeposit⟩) (fun _ _ => False) := by
  have sameInitial : ∀ next, ThrottleState.getMinInitialDeposit { s with lastMinDeposit := next }
      = s.getMinInitialDeposit := fun _ => rfl
  simp only [Proposals.updateParams, post_rules, ne_eq, not_true_eq_false, false_implies,
    hasDeposit, Option.some.injEq, forall_eq', computed, reduceCtorEq, hasInitial, valid]
  cases result <;> cases resultInitial <;> simp [sameInitial, computedInitial]

/-- A minimum brought to a new floor: not from before the old one, nor from the future. -/
theorem refloored_stored {old new : Throttler} {time : Time}
    (here : StoredOk chain which old last time) (newOk : new.Ok) :
    ∃ result, refloored new last chain.blockTime = some result
      ∧ ∃ last' time', result.or (some last) = some last' ∧ last'.time = some time'
        ∧ time ≤ time' ∧ time' ≤ chain.blockTime ∧ Follows new.floorValue last'.value := by
  obtain ⟨result, computed, whenNone, whenSome⟩ :=
    refloored_spec newOk chain.blockTime here.follows.moderate
  refine ⟨result, computed, ?_⟩
  cases result with
  | none => exact ⟨last, time, rfl, here.timed, le_refl _, here.past, whenNone rfl⟩
  | some next =>
    obtain ⟨timed, follows⟩ := whenSome next rfl
    exact ⟨next, chain.blockTime, rfl, timed, here.past, le_refl _, follows⟩

theorem updateParams_step (ok : ThrottlesOk chain) (valid : params.validateBasic = .ok ()) :
    Post (Proposals.updateParams authority authority chain.blockTime params) chain.throttles
      (fun _ next => StepOk (.updateParams params) chain { chain with throttles := next })
      (fun _ _ => False) := by
  obtain ⟨_, last, time, here⟩ := ok .minDeposit
  obtain ⟨_, lastInitial, timeInitial, hereInitial⟩ := ok .minInitialDeposit
  obtain ⟨deposit, hasDeposit, depositOk⟩ := Params.throttler_ok valid .minDeposit
  obtain ⟨initial, hasInitial, initialOk⟩ := Params.throttler_ok valid .minInitialDeposit
  obtain ⟨result, computed, last', time', isNew, timed, later, past, follows⟩ :=
    refloored_stored here depositOk
  obtain ⟨resultInitial, computedInitial, lastInitial', timeInitial', isNewInitial, timedInitial,
    laterInitial, pastInitial, followsInitial⟩ := refloored_stored hereInitial initialOk
  have isStored : chain.throttles.lastMinDeposit = some last := here.stored
  have isStoredInitial : chain.throttles.lastMinInitialDeposit = some lastInitial :=
    hereInitial.stored
  have isLast : chain.throttles.getMinDeposit = last := by
    rw [ThrottleState.getMinDeposit, isStored]
    rfl
  have isLastInitial : chain.throttles.getMinInitialDeposit = lastInitial := by
    rw [ThrottleState.getMinInitialDeposit, isStoredInitial]
    rfl
  rw [← isLast] at computed
  rw [← isLastInitial] at computedInitial
  refine (updateParams_post valid hasDeposit hasInitial computed computedInitial).imp ?_
  intro _ next isNext
  rw [isStored, isNew, isStoredInitial, isNewInitial] at isNext
  rw [isNext]
  refine ⟨?_, ?_, fun _ _ isOp => (nomatch isOp), fun _ _ isOp => (nomatch isOp)⟩
  · intro which
    cases which with
    | minDeposit => exact ⟨deposit, last', time', hasDeposit, depositOk, rfl, timed, past, follows⟩
    | minInitialDeposit =>
      exact ⟨initial, lastInitial', timeInitial', hasInitial, initialOk, rfl, timedInitial,
        pastInitial, followsInitial⟩
  · intro which other otherTime otherStored otherTimed
    cases which with
    | minDeposit =>
      obtain rfl : other = last := some_unique otherStored here.stored
      obtain rfl : otherTime = time := some_unique otherTimed here.timed
      exact ⟨last', time', rfl, timed, later⟩
    | minInitialDeposit =>
      obtain rfl : other = lastInitial :=
        some_unique otherStored hereInitial.stored
      obtain rfl : otherTime = timeInitial :=
        some_unique otherTimed hereInitial.timed
      exact ⟨lastInitial', timeInitial', rfl, timedInitial, laterInitial⟩

/-- No accepted step panics. -/
theorem ThrottleOp.exec_step (ok : ThrottlesOk chain) {op : ThrottleOp} (accepted : op.Accepted) :
    Post (op.exec root authority) chain (fun _ => StepOk op chain)
      (fun _ _ => False) := by
  cases op with
  | update which count checkElapsedTime =>
    simp only [ThrottleOp.exec, post_rules, onThrottles, post_zoom]
    exact updateWhich_step ok which count checkElapsedTime
  | updateParams params =>
    simp only [ThrottleOp.exec, post_rules, onThrottles, post_zoom]
    exact updateParams_step ok accepted
  | nextBlock elapsed =>
    simp only [ThrottleOp.exec, post_rules]
    refine ⟨?_, ?_, by simp, by simp⟩
    · intro which
      obtain ⟨throttler, last, time, here⟩ := ok which
      have past := here.past
      exact ⟨throttler, last, time, here.has, here.ok, here.stored, here.timed,
        past.trans (le_add_of_nonneg_right (Int.natCast_nonneg elapsed)), here.follows⟩
    · exact fun which last time isStored timed => ⟨last, time, isStored, timed, le_refl _⟩

def runOps (root : Root) (authority : Address) (ops : List ThrottleOp) :
    Action String ThrottleChain Unit :=
  forEach (ThrottleOp.exec root authority) ops

/-- No run of accepted steps panics, and stored times never go back. -/
theorem runOps_post {ops : List ThrottleOp} (accepted : ∀ op ∈ ops, op.Accepted) :
    ∀ {chain : ThrottleChain}, ThrottlesOk chain →
      Post (runOps root authority ops) chain (fun _ after => ThrottlesOk after
        ∧ ∀ which last time, chain.throttles.stored which = some last → last.time = some time →
            ∃ last' time', after.throttles.stored which = some last' ∧ last'.time = some time'
              ∧ time ≤ time') (fun _ _ => False) := by
  induction ops with
  | nil =>
    intro chain ok
    exact ⟨ok, fun which last time isStored timed => ⟨last, time, isStored, timed, le_refl _⟩⟩
  | cons op rest ih =>
    intro chain ok
    rw [runOps, forEach, post_bind]
    refine (ThrottleOp.exec_step ok (accepted op List.mem_cons_self)).imp ?_
    intro _ mid step
    refine (ih (fun later member => accepted later (List.mem_cons_of_mem _ member)) step.ok).imp ?_
    intro _ after both
    refine ⟨both.1, ?_⟩
    intro which last time isStored timed
    obtain ⟨last', time', isStored', timed', later⟩ := step.later which last time isStored timed
    obtain ⟨last'', time'', isStored'', timed'', laterStill⟩ :=
      both.2 which last' time' isStored' timed'
    exact ⟨last'', time'', isStored'', timed'', later.trans laterStill⟩

end Step

/-! ## Properties of runs -/

/-- A valid minimum with the denominations of the current floor and amounts not below it. -/
def AboveFloor (chain : ThrottleChain) (which : Which) : Prop :=
  ∃ throttler, chain.throttles.params.throttler which = some throttler
    ∧ Coins.Valid (chain.throttles.minimum which)
    ∧ (chain.throttles.minimum which).map (·.denom) = throttler.floorValue.map (·.denom)
    ∧ ∀ denom, Coins.total throttler.floorValue denom
        ≤ Coins.total (chain.throttles.minimum which) denom

theorem ThrottlesOk.aboveFloor {chain : ThrottleChain} (ok : ThrottlesOk chain) (which : Which) :
    AboveFloor chain which := by
  obtain ⟨throttler, last, time, here⟩ := ok which
  have isMinimum := ThrottleState.minimum_of_stored here.stored
  refine ⟨throttler, here.has, ?_⟩
  rw [isMinimum]
  exact ⟨here.follows.moderate.valid, here.follows.denoms_eq here.ok.floor.valid,
    here.follows.above⟩

/-- What holds along all runs of accepted steps from a state. -/
structure ThrottlersSound (root : Root) (authority : Address) (start : ThrottleChain) : Prop where
  /-- No step panics, and the minima stay above the floors. -/
  aboveFloor : ∀ ops, (∀ op ∈ ops, op.Accepted) →
    ∃ chain, runOps root authority ops start = .ok () chain ∧ ∀ which, AboveFloor chain which
  /-- Activations and submissions lower no amount. -/
  notLowered : ∀ ops chain which count after, (∀ op ∈ ops, op.Accepted) →
    runOps root authority ops start = .ok () chain →
    ThrottleOp.exec root authority (.update which count false) chain = .ok () after →
    ∀ denom, Coins.total (chain.throttles.minimum which) denom
      ≤ Coins.total (after.throttles.minimum which) denom
  /-- Time raises no amount. -/
  notRaised : ∀ ops chain which count after, (∀ op ∈ ops, op.Accepted) →
    runOps root authority ops start = .ok () chain →
    ThrottleOp.exec root authority (.update which count true) chain = .ok () after →
    ∀ denom, Coins.total (after.throttles.minimum which) denom
      ≤ Coins.total (chain.throttles.minimum which) denom
  /-- Two changes by time are at least the current update period apart. -/
  apart : ∀ ops between first first' second second' which count count' throttler tick,
    (∀ op ∈ ops, op.Accepted) → (∀ op ∈ between, op.Accepted) →
    runOps root authority ops start = .ok () first →
    ThrottleOp.exec root authority (.update which count true) first = .ok () first' →
    first'.throttles.stored which ≠ first.throttles.stored which →
    runOps root authority between first' = .ok () second →
    ThrottleOp.exec root authority (.update which count' true) second = .ok () second' →
    second'.throttles.stored which ≠ second.throttles.stored which →
    second.throttles.params.throttler which = some throttler →
    throttler.updatePeriod = some tick →
    first.blockTime + tick ≤ second.blockTime

/-- The throttlers never panic and never go below the floor: from a genesis with accepted
parameters, whose minima are the floors, along every run of updates, accepted parameter
changes and passing time. -/
theorem throttlers_never_panic (root : Root) (authority : Address) {params : Params}
    (valid : params.validateBasic = .ok ()) (genesisTime : Time) :
    ThrottlersSound root authority (.genesis params genesisTime) := by
  have start := genesis_ok valid genesisTime
  have reached : ∀ {ops chain}, (∀ op ∈ ops, op.Accepted) →
      runOps root authority ops (.genesis params genesisTime) = .ok () chain →
      ThrottlesOk chain :=
    fun accepted ran => ((runOps_post accepted start).of_ok ran).1
  have updates : ∀ {chain which count byTime after}, ThrottlesOk chain →
      ThrottleOp.exec root authority (.update which count byTime) chain = .ok () after →
      StepOk (.update which count byTime) chain after :=
    fun {chain which count byTime after} ok stepped =>
      (@ThrottleOp.exec_step root authority chain ok (.update which count byTime) trivial).of_ok
        stepped
  refine ⟨?_, ?_, ?_, ?_⟩
  · intro ops accepted
    have post := @runOps_post root authority ops accepted _ start
    cases ran : runOps root authority ops (.genesis params genesisTime) with
    | ok value chain => exact ⟨chain, rfl, (post.of_ok ran).1.aboveFloor⟩
    | error fault chain => exact (post.of_error ran).elim
  · intro ops chain which count after accepted ran stepped
    exact (updates (reached accepted ran) stepped).activation which count rfl
  · intro ops chain which count after accepted ran stepped
    exact ((updates (reached accepted ran) stepped).byTime which count rfl).1
  · intro ops between first first' second second' which count count' throttler tick accepted
      acceptedBetween ran firstStep firstChanged ranBetween secondStep secondChanged has isTick
    have firstOk := updates (reached accepted ran) firstStep
    obtain ⟨secondReached, times⟩ := (runOps_post acceptedBetween firstOk.ok).of_ok ranBetween
    have secondOk := updates secondReached secondStep
    -- the first change stored its block time, and stored times never go back
    rcases (firstOk.byTime which count rfl).2 with unchanged | ⟨last, isStored, timed, _⟩
    · exact absurd unchanged firstChanged
    rcases (secondOk.byTime which count' rfl).2 with unchanged | ⟨_, _, _, waited⟩
    · exact absurd unchanged secondChanged
    obtain ⟨last', time', isStored', timed', later⟩ := times which last _ isStored timed
    obtain ⟨throttler', last'', time'', here⟩ := secondReached which
    obtain rfl : throttler' = throttler := some_unique here.has has
    obtain rfl : last'' = last' := some_unique here.stored isStored'
    obtain rfl : time'' = time' := some_unique here.timed timed'
    have period := waited _ _ _ tick here isTick
    linarith

def sampleParams : Params :=
  let throttler : Throttler :=
    { floorValue := [⟨[97, 97, 97], 1000⟩]
      updatePeriod := some 1000
      targetProposals := 2
      increaseRatio := some .half
      decreaseRatio := some .percent
      decreaseSensitivityTargetDistance := 1 }
  let range : QuorumRange := ⟨some .half, some .zero⟩
  { minDeposit := []
    maxDepositPeriod := some 1000
    votingPeriod := some minVotingPeriod
    quorum := ""
    threshold := some .half
    minInitialDepositRatio := ""
    burnVoteQuorum := false
    burnProposalDepositPrevote := false
    minDepositRatio := some .zero
    constitutionAmendmentQuorum := ""
    constitutionAmendmentThreshold := some .half
    lawQuorum := ""
    lawThreshold := some .half
    quorumTimeout := some 10
    maxVotingPeriodExtension := some minVotingPeriod
    quorumCheckCount := 3
    minDepositThrottler := some throttler
    minInitialDepositThrottler := some throttler
    burnDepositNoThreshold := some .half
    quorumRange := some range
    constitutionAmendmentQuorumRange := some range
    lawQuorumRange := some range
    governorStatusChangePeriod := some 1
    minGovernorSelfDelegation := some 0 }

/-- The root of the distance one. -/
def Root.identity : Root where
  approxRoot distance _ := some distance
  between := by
    intro distance k b negative found
    cases found
    exact ⟨le_refl _, negative⟩

theorem sample_throttlers_never_panic :
    sampleParams.validateBasic = .ok ()
      ∧ ThrottlersSound Root.identity [] (.genesis sampleParams 0) :=
  ⟨rfl, throttlers_never_panic Root.identity [] rfl 0⟩

end AtomOneSdk.Proposals
