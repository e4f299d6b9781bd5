import AtomOneSdk.Types.CoinsSpec
import AtomOneSdk.Vesting.Account

/-!
Contract: what a vesting schedule has vested at a block time.

Owns: what an accepted account guarantees, that vested and vesting coins are computed
without panic, that vested coins grow with time and never exceed the original vesting,
and the amounts of locked coins.

Does **not** own: balances and runs.
-/

namespace AtomOneSdk.Vesting

open Lib AtomOneSdk.Types List
open Staking (Address Denom Coin)

/-! ## Times -/

theorem toInt_sub_of_lt {later earlier : Int64} (ordered : earlier.toInt ≤ later.toInt)
    (fits : later.toInt - earlier.toInt < 2 ^ 63) :
    (later - earlier).toInt = later.toInt - earlier.toInt := by
  rw [Int64.toInt_sub]
  apply Int.bmod_eq_of_le
  · omega
  · omega

/-- A sum of times below another time is exact. -/
theorem toInt_add_of_le {time length bound : Int64} (nonneg : 0 ≤ length.toInt)
    (within : time.toInt + length.toInt ≤ bound.toInt) :
    (time + length).toInt = time.toInt + length.toInt := by
  have low := time.le_toInt
  have high := bound.toInt_lt
  rw [Int64.toInt_add]
  apply Int.bmod_eq_of_le
  · omega
  · omega

/-! ## Linear schedules -/

/-- Vested part of an amount for the vesting scalar `s`. -/
def part (s amount : Int) : Int :=
  Dec.roundInt (Dec.mul (Dec.ofInt amount) s)

theorem mul_ofInt (amount s : Int) : Dec.mul (Dec.ofInt amount) s = amount * s := by
  have exact_ : Dec.ofInt amount * s = amount * s * Dec.one := by
    unfold Dec.ofInt
    ring
  unfold Dec.mul
  rw [exact_]
  apply le_antisymm
  · exact roundHalfEven_le Dec.one_pos (le_refl _)
  · exact le_roundHalfEven Dec.one_pos (le_refl _)

theorem part_nonneg {s amount : Int} (scalar : 0 ≤ s) (nonneg : 0 ≤ amount) :
    0 ≤ part s amount := by
  unfold part Dec.roundInt
  rw [mul_ofInt]
  exact roundHalfEven_nonneg Dec.one_pos (mul_nonneg nonneg scalar)

theorem part_le {s amount : Int} (scalar : s ≤ Dec.one) (nonneg : 0 ≤ amount) :
    part s amount ≤ amount := by
  unfold part Dec.roundInt
  rw [mul_ofInt]
  exact roundHalfEven_le Dec.one_pos (mul_le_mul_of_nonneg_left scalar nonneg)

theorem part_mono {s s' amount : Int} (ordered : s ≤ s') (nonneg : 0 ≤ amount) :
    part s amount ≤ part s' amount := by
  unfold part Dec.roundInt
  rw [mul_ofInt, mul_ofInt]
  exact roundHalfEven_mono Dec.one_pos (mul_le_mul_of_nonneg_left ordered nonneg)

/-- The vesting scalar after `x` of `y` seconds. -/
def scalar (x y : Int) : Int :=
  Dec.quo (Dec.ofInt x) (Dec.ofInt y)

section Scalar

variable {x x' y : Int}

theorem ofInt_pos (positive : 0 < y) : 0 < Dec.ofInt y :=
  mul_pos positive Dec.one_pos

theorem scalar_nonneg (positive : 0 < y) (nonneg : 0 ≤ x) : 0 ≤ scalar x y :=
  Dec.quo_nonneg (mul_nonneg nonneg Dec.one_pos.le) (ofInt_pos positive)

theorem scalar_le_one (positive : 0 < y) (nonneg : 0 ≤ x) (within : x ≤ y) :
    scalar x y ≤ Dec.one := by
  apply Dec.quo_le (mul_nonneg nonneg Dec.one_pos.le) (ofInt_pos positive)
  rw [mul_comm Dec.one]
  exact mul_le_mul_of_nonneg_right (mul_le_mul_of_nonneg_right within Dec.one_pos.le)
    Dec.one_pos.le

theorem scalar_mono (positive : 0 < y) (ordered : x ≤ x') : scalar x y ≤ scalar x' y :=
  Dec.quo_mono (ofInt_pos positive) (mul_le_mul_of_nonneg_right ordered Dec.one_pos.le)

end Scalar

/-! ## Coins that can be subtracted -/

/-- Sorted coins with valid denominations, possibly with zero amounts. -/
structure Counted (coins : Coins) : Prop where
  increasing : coins.Increasing
  denoms : ∀ coin ∈ coins, validateDenom coin.denom = true
  nonneg : ∀ coin ∈ coins, 0 ≤ coin.amount

theorem Counted.of_valid {coins : Coins} (valid : coins.Valid) : Counted coins :=
  ⟨valid.increasing, valid.denoms, fun coin member => (valid.positive coin member).le⟩

theorem Counted.nil : Counted [] := Counted.of_valid Coins.Valid.nil

theorem Counted.total_nonneg {coins : Coins} (counted : Counted coins) (denom : Denom) :
    0 ≤ coins.total denom :=
  Coins.total_nonneg counted.nonneg denom

def mapAmounts (f : Int → Int) (coins : Coins) : Coins :=
  coins.map fun coin => ⟨coin.denom, f coin.amount⟩

theorem Counted.mapAmounts {f : Int → Int} {coins : Coins} (valid : coins.Valid)
    (nonneg : ∀ amount, 0 ≤ amount → 0 ≤ f amount) : Counted (mapAmounts f coins) := by
  unfold Vesting.mapAmounts
  refine ⟨?_, ?_, ?_⟩
  · unfold Coins.Increasing
    rw [pairwise_map]
    exact valid.increasing
  · intro coin member
    obtain ⟨original, inside, same⟩ := mem_map.mp member
    rw [← same]
    exact valid.denoms original inside
  · intro coin member
    obtain ⟨original, inside, same⟩ := mem_map.mp member
    rw [← same]
    exact nonneg _ (valid.positive original inside).le

theorem total_mapAmounts_le {f g : Int → Int} {coins : Coins} (valid : coins.Valid)
    (ordered : ∀ amount, 0 ≤ amount → f amount ≤ g amount) (denom : Denom) :
    (mapAmounts f coins).total denom ≤ (mapAmounts g coins).total denom := by
  induction coins with
  | nil => exact le_refl _
  | cons coin rest ih =>
    have head := ordered coin.amount (valid.positive coin mem_cons_self).le
    have tail := ih valid.tail
    show Coins.total (⟨coin.denom, f coin.amount⟩ :: mapAmounts f rest) denom
      ≤ Coins.total (⟨coin.denom, g coin.amount⟩ :: mapAmounts g rest) denom
    rw [Coins.total_cons, Coins.total_cons]
    dsimp only
    split_ifs <;> omega

theorem mapAmounts_id (coins : Coins) : mapAmounts (fun amount => amount) coins = coins := by
  induction coins with
  | nil => rfl
  | cons coin rest ih =>
    show coin :: mapAmounts (fun amount => amount) rest = _
    rw [ih]

/-- The loop over the original vesting of a continuous account. -/
theorem mapM_vestedPart {s : Int} {coins : Coins} (valid : coins.Valid) (nonneg : 0 ≤ s) :
    coins.mapM (vestedPart s) = some (mapAmounts (part s) coins) := by
  induction coins with
  | nil => rfl
  | cons coin rest ih =>
    have accepted : isValidCoin ⟨coin.denom, part s coin.amount⟩ = true := by
      have amount := part_nonneg nonneg (valid.positive coin mem_cons_self).le
      simp [isValidCoin, valid.denoms coin mem_cons_self, amount]
    have head : vestedPart s coin = some ⟨coin.denom, part s coin.amount⟩ := if_pos accepted
    rw [mapM_cons, head, ih valid.tail]
    rfl

/-! ## Periodic schedules -/

def elapsed (blockTime : Int64) : List Period → Int64 → List Coins
  | [], _ => []
  | period :: rest, currentPeriodStartTime =>
    if blockTime - currentPeriodStartTime < period.length then []
    else period.amount :: elapsed blockTime rest (currentPeriodStartTime + period.length)

theorem addVestedPeriods_eq (blockTime : Int64) (periods : List Period) (current : Int64)
    (m : MapCoins) :
    addVestedPeriods blockTime periods current m
      = (elapsed blockTime periods current).foldl MapCoins.add m := by
  induction periods generalizing current m with
  | nil => rfl
  | cons period rest ih =>
    rw [addVestedPeriods, elapsed]
    split_ifs with running
    · rfl
    · exact ih _ _

/-- The periods that are over are the first ones. -/
theorem elapsed_initial (blockTime : Int64) (periods : List Period) (current : Int64) :
    elapsed blockTime periods current <+: periods.map fun period => period.amount := by
  induction periods generalizing current with
  | nil => exact prefix_refl []
  | cons period rest ih =>
    rw [elapsed, map_cons]
    split_ifs with running
    · exact nil_prefix
    · exact (cons_prefix_cons).mpr ⟨rfl, ih _⟩

theorem elapsed_mono {blockTime later : Int64} (ordered : blockTime.toInt ≤ later.toInt)
    {periods : List Period} (lengths : ∀ period ∈ periods, 0 ≤ period.length.toInt)
    {current : Int64} (started : current.toInt ≤ blockTime.toInt)
    (fits : later.toInt - current.toInt < 2 ^ 63) :
    elapsed blockTime periods current <+: elapsed later periods current := by
  induction periods generalizing current with
  | nil => exact prefix_refl []
  | cons period rest ih =>
    obtain ⟨length, lengths'⟩ := forall_mem_cons.mp lengths
    have now := toInt_sub_of_lt started (by omega)
    have then_ := toInt_sub_of_lt (started.trans ordered) fits
    rw [elapsed, elapsed]
    simp only [Int64.lt_iff_toInt_lt, now, then_]
    split_ifs with running runningLater
    · exact nil_prefix
    · exact nil_prefix
    · omega
    · -- the period is over, so the next one starts no later than the block time
      have next : (current + period.length).toInt = current.toInt + period.length.toInt :=
        toInt_add_of_le length (by omega : _ ≤ blockTime.toInt)
      exact (cons_prefix_cons).mpr
        ⟨rfl, ih lengths' (by omega) (by omega)⟩

theorem sum_total_le {sets more : List Coins} (initial : sets <+: more)
    (valid : ∀ coins ∈ more, coins.Valid) (denom : Denom) :
    (sets.map fun coins => coins.total denom).sum
      ≤ (more.map fun coins => coins.total denom).sum := by
  obtain ⟨rest, split⟩ := initial
  rw [← split, map_append, sum_append]
  have nonneg : 0 ≤ (rest.map fun coins => coins.total denom).sum := by
    apply sum_nonneg
    intro amount member
    obtain ⟨coins, inside, same⟩ := mem_map.mp member
    rw [← same]
    apply (valid coins ?_).total_nonneg denom
    rw [← split]
    exact mem_append_right sets inside
  omega

/-! ## Accounts -/

/-- What the schedule of an accepted account satisfies when its duration fits. -/
def Schedule.Fits (original : Coins) (endTime : Int64) : Schedule → Prop
  | .continuous startTime =>
    startTime.toInt < endTime.toInt ∧ endTime.toInt - startTime.toInt < 2 ^ 63
  | .delayed => True
  | .periodic startTime periods =>
    startTime.toInt < endTime.toInt ∧ endTime.toInt - startTime.toInt < 2 ^ 63
      ∧ (∀ period ∈ periods, 0 ≤ period.length.toInt ∧ period.amount.Valid)
      ∧ ∀ denom, original.total denom = (periods.map fun period => period.amount.total denom).sum
  | .permanentLocked => True

section Vested

variable {acc : VestingAccount}

/-- Vested coins of a linear schedule inside its duration. -/
theorem getVestedCoins_continuous {startTime blockTime : Int64}
    (schedule : acc.schedule = .continuous startTime) (original : acc.originalVesting.Valid)
    (fits : acc.endTime.toInt - startTime.toInt < 2 ^ 63)
    (started : startTime.toInt < blockTime.toInt) (running : blockTime.toInt < acc.endTime.toInt) :
    acc.getVestedCoins blockTime
      = some (mapAmounts (part (scalar (blockTime.toInt - startTime.toInt)
      (acc.endTime.toInt - startTime.toInt))) acc.originalVesting) := by
  have x := toInt_sub_of_lt started.le (by omega)
  have y := toInt_sub_of_lt (started.trans running).le fits
  have nonzero : acc.endTime - startTime ≠ 0 := by
    intro zero
    rw [zero] at y
    have isZero : (0 : Int64).toInt = 0 := by decide
    omega
  simp only [VestingAccount.getVestedCoins, schedule, Int64.le_iff_toInt_le, not_le.mpr started,
    not_le.mpr running, if_false, if_neg nonzero, x, y]
  apply mapM_vestedPart original
  exact scalar_nonneg (by omega) (by omega)

theorem getVestedCoins_periodic {startTime blockTime : Int64} {periods : List Period}
    (schedule : acc.schedule = .periodic startTime periods)
    (started : startTime.toInt < blockTime.toInt) (running : blockTime.toInt < acc.endTime.toInt) :
    acc.getVestedCoins blockTime
      = MapCoins.toCoins ((elapsed blockTime periods startTime).foldl MapCoins.add ∅) := by
  simp only [VestingAccount.getVestedCoins, schedule, Int64.le_iff_toInt_le, not_le.mpr started,
    not_le.mpr running, if_false, addVestedPeriods_eq]

/-- Vested coins are computed, and are part of the original vesting. -/
theorem getVestedCoins_spec (original : acc.originalVesting.Valid)
    (fits : acc.schedule.Fits acc.originalVesting acc.endTime) (blockTime : Int64) :
    ∃ vested, acc.getVestedCoins blockTime = some vested ∧ Counted vested
      ∧ ∀ denom, vested.total denom ≤ acc.originalVesting.total denom := by
  have none_ : Counted ([] : Coins)
      ∧ ∀ denom, Coins.total [] denom ≤ acc.originalVesting.total denom :=
    ⟨Counted.nil, original.total_nonneg⟩
  have all : Counted acc.originalVesting
      ∧ ∀ denom, acc.originalVesting.total denom ≤ acc.originalVesting.total denom :=
    ⟨Counted.of_valid original, fun _ => le_refl _⟩
  cases schedule : acc.schedule with
  | permanentLocked =>
    refine ⟨[], ?_, none_⟩
    simp [VestingAccount.getVestedCoins, schedule]
  | delayed =>
    by_cases ended : acc.endTime ≤ blockTime
    · refine ⟨_, ?_, all⟩
      simp [VestingAccount.getVestedCoins, schedule, ended]
    · refine ⟨[], ?_, none_⟩
      simp [VestingAccount.getVestedCoins, schedule, ended]
  | continuous startTime =>
    rw [schedule] at fits
    obtain ⟨ordered, duration⟩ := fits
    by_cases started : startTime.toInt < blockTime.toInt
    · by_cases running : blockTime.toInt < acc.endTime.toInt
      · refine ⟨_, getVestedCoins_continuous schedule original duration started running, ?_, ?_⟩
        · apply Counted.mapAmounts original
          intro amount nonneg
          exact part_nonneg (scalar_nonneg (by omega) (by omega)) nonneg
        · intro denom
          conv_rhs => rw [← mapAmounts_id acc.originalVesting]
          apply total_mapAmounts_le original
          intro amount nonneg
          exact part_le (scalar_le_one (by omega) (by omega) (by omega)) nonneg
      · refine ⟨_, ?_, all⟩
        simp [VestingAccount.getVestedCoins, schedule, Int64.le_iff_toInt_le, not_le.mpr started,
          not_lt.mp running]
    · refine ⟨[], ?_, none_⟩
      simp [VestingAccount.getVestedCoins, schedule, Int64.le_iff_toInt_le, not_lt.mp started]
  | periodic startTime periods =>
    rw [schedule] at fits
    obtain ⟨ordered, duration, valid, sum⟩ := fits
    by_cases started : startTime.toInt < blockTime.toInt
    · by_cases running : blockTime.toInt < acc.endTime.toInt
      · have initial := elapsed_initial blockTime periods startTime
        have allValid : ∀ coins ∈ periods.map (fun period => period.amount), coins.Valid := by
          intro coins member
          obtain ⟨period, inside, same⟩ := mem_map.mp member
          rw [← same]
          exact (valid period inside).2
        obtain ⟨vested, converted, vestedValid, totals⟩ := MapCoins.toCoins_addAll
          fun coins member => allValid coins (initial.subset member)
        refine ⟨vested, ?_, Counted.of_valid vestedValid, ?_⟩
        · rw [getVestedCoins_periodic schedule started running, converted]
        · intro denom
          have grown := sum_total_le initial allValid denom
          rw [map_map] at grown
          rw [totals, sum]
          exact grown
      · refine ⟨_, ?_, all⟩
        simp [VestingAccount.getVestedCoins, schedule, Int64.le_iff_toInt_le, not_le.mpr started,
          not_lt.mp running]
    · refine ⟨[], ?_, none_⟩
      simp [VestingAccount.getVestedCoins, schedule, Int64.le_iff_toInt_le, not_lt.mp started]

theorem getVestedCoins_mono (original : acc.originalVesting.Valid)
    (fits : acc.schedule.Fits acc.originalVesting acc.endTime) {blockTime later : Int64}
    (ordered : blockTime.toInt ≤ later.toInt) {vested vestedLater : Coins}
    (now : acc.getVestedCoins blockTime = some vested)
    (then_ : acc.getVestedCoins later = some vestedLater) (denom : Denom) :
    vested.total denom ≤ vestedLater.total denom := by
  have atMost : vested.total denom ≤ acc.originalVesting.total denom := by
    obtain ⟨found, isFound, _, within⟩ := getVestedCoins_spec original fits blockTime
    rw [now] at isFound
    cases isFound
    exact within denom
  have atLeast : 0 ≤ vestedLater.total denom := by
    obtain ⟨found, isFound, counted, _⟩ := getVestedCoins_spec original fits later
    rw [then_] at isFound
    cases isFound
    exact counted.total_nonneg denom
  cases schedule : acc.schedule with
  | permanentLocked =>
    simp only [VestingAccount.getVestedCoins, schedule, Option.some.injEq] at now
    rw [← now]
    exact atLeast
  | delayed =>
    simp only [VestingAccount.getVestedCoins, schedule] at now then_
    split_ifs at then_ with ended
    · cases then_
      exact atMost
    · have early : ¬ acc.endTime ≤ blockTime := by
        rw [Int64.le_iff_toInt_le] at ended ⊢
        omega
      rw [if_neg early] at now
      cases now
      exact atLeast
  | continuous startTime =>
    rw [schedule] at fits
    obtain ⟨_, duration⟩ := fits
    by_cases started : startTime.toInt < blockTime.toInt
    · by_cases running : later.toInt < acc.endTime.toInt
      · rw [getVestedCoins_continuous schedule original duration started (by omega)] at now
        rw [getVestedCoins_continuous schedule original duration (by omega) running] at then_
        cases now
        cases then_
        apply total_mapAmounts_le original
        intro amount nonneg
        exact part_mono (scalar_mono (by omega) (by omega)) nonneg
      · have laterStarted : ¬ later.toInt ≤ startTime.toInt := by omega
        simp only [VestingAccount.getVestedCoins, schedule, Int64.le_iff_toInt_le, laterStarted,
          not_lt.mp running, if_false, if_true, Option.some.injEq] at then_
        rw [← then_]
        exact atMost
    · simp only [VestingAccount.getVestedCoins, schedule, Int64.le_iff_toInt_le,
        not_lt.mp started, if_true, Option.some.injEq] at now
      rw [← now]
      exact atLeast
  | periodic startTime periods =>
    rw [schedule] at fits
    obtain ⟨_, duration, valid, _⟩ := fits
    by_cases started : startTime.toInt < blockTime.toInt
    · by_cases running : later.toInt < acc.endTime.toInt
      · rw [getVestedCoins_periodic schedule started (by omega)] at now
        rw [getVestedCoins_periodic schedule (by omega) running] at then_
        have elapsedValid : ∀ coins ∈ elapsed later periods startTime, coins.Valid := by
          intro coins member
          obtain ⟨period, inside, same⟩ :=
            mem_map.mp ((elapsed_initial later periods startTime).subset member)
          rw [← same]
          exact (valid period inside).2
        have grown := elapsed_mono ordered (fun period member => (valid period member).1)
          started.le (by omega)
        obtain ⟨_, isNow, _, totals⟩ := MapCoins.toCoins_addAll
          fun coins member => elapsedValid coins (grown.subset member)
        obtain ⟨_, isLater, _, totalsLater⟩ := MapCoins.toCoins_addAll elapsedValid
        rw [now] at isNow
        rw [then_] at isLater
        cases isNow
        cases isLater
        rw [totals, totalsLater]
        exact sum_total_le grown elapsedValid denom
      · have laterStarted : ¬ later.toInt ≤ startTime.toInt := by omega
        simp only [VestingAccount.getVestedCoins, schedule, Int64.le_iff_toInt_le, laterStarted,
          not_lt.mp running, if_false, if_true, Option.some.injEq] at then_
        rw [← then_]
        exact atMost
    · simp only [VestingAccount.getVestedCoins, schedule, Int64.le_iff_toInt_le,
        not_lt.mp started, if_true, Option.some.injEq] at now
      rw [← now]
      exact atLeast

end Vested

/-! ## Vesting and locked coins -/

/-- What is kept of an accepted account. -/
structure Wellformed (acc : VestingAccount) : Prop where
  original : acc.originalVesting.Valid
  free : acc.delegatedFree.Valid
  delegated : acc.delegatedVesting.Valid
  within : ∀ denom, acc.delegatedVesting.total denom ≤ acc.originalVesting.total denom
  fits : acc.schedule.Fits acc.originalVesting acc.endTime

namespace Wellformed

variable {acc : VestingAccount}

theorem getVestingCoins (held : Wellformed acc) (blockTime : Int64) :
    ∃ vesting, acc.getVestingCoins blockTime = some vesting ∧ vesting.Valid
      ∧ ∀ denom, vesting.total denom ≤ acc.originalVesting.total denom := by
  by_cases permanent : acc.schedule = .permanentLocked
  · refine ⟨acc.originalVesting, ?_, held.original, fun _ => le_refl _⟩
    simp [VestingAccount.getVestingCoins, permanent]
  · obtain ⟨vested, isVested, counted, atMost⟩ :=
      getVestedCoins_spec held.original held.fits blockTime
    obtain ⟨vesting, isVesting, valid, totals⟩ :=
      held.original.sub counted.increasing counted.denoms counted.nonneg atMost
    refine ⟨vesting, ?_, valid, fun denom => ?_⟩
    · unfold VestingAccount.getVestingCoins
      cases schedule : acc.schedule with
      | permanentLocked => exact absurd schedule permanent
      | _ => simp only [isVested, some_bind, isVesting]
    · have nonneg := counted.total_nonneg denom
      rw [totals]
      omega

theorem getVestingCoins_anti (held : Wellformed acc) {blockTime later : Int64}
    (ordered : blockTime.toInt ≤ later.toInt) {vesting vestingLater : Coins}
    (now : acc.getVestingCoins blockTime = some vesting)
    (then_ : acc.getVestingCoins later = some vestingLater) (denom : Denom) :
    vestingLater.total denom ≤ vesting.total denom := by
  by_cases permanent : acc.schedule = .permanentLocked
  · simp only [VestingAccount.getVestingCoins, permanent, Option.some.injEq] at now then_
    rw [← now, ← then_]
  · obtain ⟨vested, isVested, counted, atMost⟩ :=
      getVestedCoins_spec held.original held.fits blockTime
    obtain ⟨vestedLater, isVestedLater, countedLater, atMostLater⟩ :=
      getVestedCoins_spec held.original held.fits later
    obtain ⟨_, isVesting, _, totals⟩ :=
      held.original.sub counted.increasing counted.denoms counted.nonneg atMost
    obtain ⟨_, isVestingLater, _, totalsLater⟩ :=
      held.original.sub countedLater.increasing countedLater.denoms countedLater.nonneg atMostLater
    have grown := getVestedCoins_mono held.original held.fits ordered isVested isVestedLater denom
    unfold VestingAccount.getVestingCoins at now then_
    cases schedule : acc.schedule with
    | permanentLocked => exact absurd schedule permanent
    | _ =>
      simp only [schedule, isVested, isVestedLater, isVesting, isVestingLater,
        some_bind, Option.some.injEq] at now then_
      rw [← now, ← then_, totals, totalsLater]
      omega

theorem lockedCoins (held : Wellformed acc) {blockTime : Int64} {vesting : Coins}
    (isVesting : acc.getVestingCoins blockTime = some vesting) :
    ∃ locked, acc.lockedCoins blockTime = some locked ∧ locked.Valid
      ∧ ∀ denom, locked.total denom
          = max (vesting.total denom - acc.delegatedVesting.total denom) 0 := by
  obtain ⟨_, found, valid, _⟩ := held.getVestingCoins blockTime
  rw [isVesting] at found
  cases found
  obtain ⟨least, isLeast, leastValid, minima⟩ := valid.min held.delegated
  obtain ⟨locked, isLocked, lockedValid, totals⟩ := valid.sub_valid leastValid fun denom => by
    rw [minima]
    exact min_le_left _ _
  refine ⟨locked, ?_, lockedValid, fun denom => ?_⟩
  · simp only [VestingAccount.lockedCoins, BaseVestingAccount.lockedCoinsFromVesting, isVesting,
      isLeast, isLocked, some_bind]
  · rw [totals, minima]
    omega

end Wellformed

/-! ## Acceptance -/

/-- The duration of the schedule fits its type, and the delegated coins are coin sets. -/
structure Sound (acc : VestingAccount) : Prop where
  duration : match acc.schedule with
    | .continuous startTime => acc.endTime.toInt - startTime.toInt < 2 ^ 63
    | .periodic startTime _ => acc.endTime.toInt - startTime.toInt < 2 ^ 63
    | _ => True
  free : acc.delegatedFree.isValid = true
  delegated : acc.delegatedVesting.isValid = true

theorem validate_base {bva : BaseVestingAccount} (accepted : bva.validate = some true) :
    bva.originalVesting.Valid
      ∧ Coins.isAllLTE bva.delegatedVesting bva.originalVesting = some true := by
  unfold BaseVestingAccount.validate at accepted
  split_ifs at accepted with negative invalid
  · cases accepted
  · cases accepted
  · simp only [Option.bind_eq_bind, Option.bind_eq_some_iff] at accepted
    obtain ⟨covered, compared, both⟩ := accepted
    have valid : bva.originalVesting.isValid = true := by
      cases checked : bva.originalVesting.isValid with
      | true => rfl
      | false =>
        rw [checked] at invalid
        exact absurd rfl invalid
    cases covered with
    | true => exact ⟨Coins.isValid_iff.mp valid, compared⟩
    | false => cases both

theorem fits_of_validate {acc : VestingAccount} (accepted : acc.validate = some true)
    (sound : Sound acc) :
    acc.toBaseVestingAccount.validate = some true
      ∧ (acc.originalVesting.Valid → acc.schedule.Fits acc.originalVesting acc.endTime) := by
  have duration := sound.duration
  unfold VestingAccount.validate at accepted
  cases schedule : acc.schedule with
  | delayed =>
    rw [schedule] at accepted
    exact ⟨accepted, fun _ => trivial⟩
  | permanentLocked =>
    simp only [schedule] at accepted
    split_ifs at accepted
    · cases accepted
    · exact ⟨accepted, fun _ => trivial⟩
  | continuous startTime =>
    simp only [schedule] at accepted duration
    split_ifs at accepted with empty
    · cases accepted
    · rw [Int64.le_iff_toInt_le] at empty
      exact ⟨accepted, fun _ => ⟨not_le.mp empty, duration⟩⟩
  | periodic startTime periods =>
    simp only [schedule] at accepted duration
    split_ifs at accepted with empty invalid mismatch overflow
    · cases accepted
    · cases accepted
    · cases accepted
    · cases accepted
    · rw [Int64.le_iff_toInt_le] at empty
      have valid : ∀ period ∈ periods, 0 ≤ period.length.toInt ∧ period.amount.Valid := by
        intro period member
        have checked : periods.all Period.validate = true := by simpa using invalid
        have passed := all_eq_true.mp checked period member
        unfold Period.validate at passed
        simp only [Bool.and_eq_true, decide_eq_true_eq, Int64.le_iff_toInt_le] at passed
        exact ⟨passed.1.1, Coins.isValid_iff.mp passed.1.2⟩
      have setsValid : ∀ coins ∈ periods.map (fun period => period.amount), coins.Valid := by
        intro coins member
        obtain ⟨period, inside, same⟩ := mem_map.mp member
        rw [← same]
        exact (valid period inside).2
      obtain ⟨sum, converted, sumValid, totals⟩ := MapCoins.toCoins_addAll setsValid
      rw [foldl_map] at converted
      have isTotal : totalAmount periods = some sum := converted
      simp only [isTotal, some_bind] at accepted
      split_ifs at accepted with same
      · refine ⟨accepted, fun original => ⟨not_le.mp empty, duration, valid, fun denom => ?_⟩⟩
        rw [← sumValid.increasing.eq_of_equal original.increasing same, totals, map_map]
        rfl
      · cases accepted

theorem wellformed_of_validate {acc : VestingAccount} (accepted : acc.validate = some true)
    (sound : Sound acc) : Wellformed acc := by
  obtain ⟨base, fits⟩ := fits_of_validate accepted sound
  obtain ⟨original, compared⟩ := validate_base base
  have delegated := Coins.isValid_iff.mp sound.delegated
  exact ⟨original, Coins.isValid_iff.mp sound.free, delegated,
    Coins.total_le_of_isAllLTE delegated original compared, fits original⟩

end AtomOneSdk.Vesting
