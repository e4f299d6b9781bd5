import AtomOneSdk.Proposals.ThrottlerProperties

/-!
Contract: the minimum deposits across an update of the parameters.

Owns: what it means that a minimum is carried over to a new floor, and when an update of the
parameters does so: not where no minimum is stored and the floor is lowered.

Does **not** own: the other changes of the minima.
-/

namespace AtomOneSdk.Proposals

open Lib Lib.Action
open AtomOneSdk.Types
open Staking (Denom Coin Time Address)

/-- The minimum after an update is the one before, brought to the new floor: denominations
of the floor are not lowered, the others disappear and new ones start at the floor. -/
structure CarriedOver (floor before after : Coins) : Prop where
  brought : getNewMinDeposit floor before BoundedDec.one = some after
  notLowered : ∀ denom, Coins.total floor denom ≠ 0 →
    Coins.total before denom ≤ Coins.total after denom
  dropped : ∀ denom, Coins.total floor denom = 0 → Coins.total after denom = 0
  added : ∀ denom, Coins.total before denom = 0 →
    Coins.total after denom = Coins.total floor denom

section Carry

variable {floor last : Coins} (floorOk : ModerateCoins floor) (lastOk : ModerateCoins last)

include floorOk lastOk

theorem carriedOver_newMinDeposit {value : Coins}
    (found : getNewMinDeposit floor last BoundedDec.one = some value) :
    CarriedOver floor last value := by
  obtain ⟨sameValue, isSame, _, totals⟩ := getNewMinDeposit_total floorOk lastOk BoundedDec.one
  obtain ⟨other, isOther, follows, up, _⟩ :=
    getNewMinDeposit_follows floorOk lastOk BoundedDec.one
  rw [found] at isSame isOther
  cases isSame
  cases isOther
  refine ⟨found, up (le_refl _), fun denom => (follows.sameDenoms denom).mpr, ?_⟩
  intro denom absent
  rw [totals]
  split_ifs with missing
  · exact missing.symm
  · have base := moderate_base floorOk lastOk missing
    have down := (base.changed BoundedDec.one).2.2.2 (le_refl _)
    rw [if_pos absent] at down
    rw [newAmount, if_pos absent]
    exact max_eq_left down

theorem carriedOver_iff {value : Coins} :
    CarriedOver floor last value ↔ getNewMinDeposit floor last BoundedDec.one = some value :=
  ⟨CarriedOver.brought, carriedOver_newMinDeposit floorOk lastOk⟩

/-- A minimum stays as it is exactly if it follows the floor already. -/
theorem getNewMinDeposit_eq_self_iff :
    getNewMinDeposit floor last BoundedDec.one = some last ↔ Follows floor last := by
  obtain ⟨value, found, follows, up, down⟩ :=
    getNewMinDeposit_follows floorOk lastOk BoundedDec.one
  rw [found]
  constructor
  · intro same
    rwa [← Option.some.inj same]
  · intro already
    congr 1
    apply follows.moderate.valid.eq_of_total lastOk.valid
    intro denom
    by_cases absent : Coins.total floor denom = 0
    · rw [(follows.sameDenoms denom).mpr absent, (already.sameDenoms denom).mpr absent]
    · have present : Coins.total last denom ≠ 0 := (already.sameDenoms denom).not.mpr absent
      exact le_antisymm (down (le_refl _) denom present (already.above denom))
        (up (le_refl _) denom absent)

end Carry

/-- No minimum is stored, so the old floor stands for it, and the new floor is lower: it has the
same denominations, no higher amounts, and differs. -/
@[mk_iff]
structure FloorLowered (s : ThrottleState) (which : Which) (floor : Coins) : Prop where
  unset : s.stored which = none
  below : Follows floor (s.minimum which)
  differ : s.minimum which ≠ floor

/-- A minimum is carried over unless nothing is stored and the old floor is above a different
new one. -/
theorem refloored_carries_iff {throttler : Throttler} (newOk : throttler.Ok) (blockTime : Time)
    {stored : Option LastMinDeposit} {oldFloor newFloor : LastMinDeposit}
    (isFloor : newFloor.value = throttler.floorValue)
    (moderate : ModerateCoins (stored.getD oldFloor).value) :
    ∃ result, refloored throttler (stored.getD oldFloor) blockTime = some result
      ∧ (CarriedOver throttler.floorValue (stored.getD oldFloor).value
          ((result.or stored).getD newFloor).value
        ↔ ¬ (stored = none ∧ Follows throttler.floorValue (stored.getD oldFloor).value
          ∧ (stored.getD oldFloor).value ≠ throttler.floorValue)) := by
  obtain ⟨value, found, follows, _, _⟩ :=
    getNewMinDeposit_follows newOk.floor moderate BoundedDec.one
  simp only [refloored, found, some_bind]
  split_ifs with same
  · -- nothing is written, because the new minimum is the one before
    have unchanged := Coins.Increasing.eq_of_equal moderate.valid.increasing
      follows.moderate.valid.increasing same
    refine ⟨none, rfl, ?_⟩
    rw [carriedOver_iff newOk.floor moderate, found, ← unchanged, Option.none_or, Option.some_inj]
    rw [← unchanged] at follows
    cases stored with
    | some last => simp
    | none =>
      rw [Option.getD_none, Option.getD_none, isFloor]
      rw [Option.getD_none] at follows
      simp [follows]
  · refine ⟨some ⟨value, some blockTime⟩, rfl, ?_⟩
    rw [carriedOver_iff newOk.floor moderate, found, Option.some_or, Option.getD_some]
    simp only [true_iff]
    rintro ⟨_, already, _⟩
    rw [(getNewMinDeposit_eq_self_iff newOk.floor moderate).mpr already] at found
    cases found
    simp [Coins.equal] at same

theorem minimum_moderate {s : ThrottleState} (valid : s.params.validateBasic = .ok ())
    (moderate : ∀ which last, s.stored which = some last → ModerateCoins last.value)
    (which : Which) : ModerateCoins (s.minimum which) := by
  cases isStored : s.stored which with
  | some last =>
    rw [ThrottleState.minimum_of_stored isStored]
    exact moderate which last isStored
  | none =>
    obtain ⟨throttler, has, ok⟩ := Params.throttler_ok valid which
    have isFloor : s.minimum which = throttler.floorValue := by
      cases which with
      | minDeposit =>
        have unset : s.lastMinDeposit = none := isStored
        have has : s.params.minDepositThrottler = some throttler := has
        simp [ThrottleState.minimum, ThrottleState.getMinDeposit, unset, has]
      | minInitialDeposit =>
        have unset : s.lastMinInitialDeposit = none := isStored
        have has : s.params.minInitialDepositThrottler = some throttler := has
        simp [ThrottleState.minimum, ThrottleState.getMinInitialDeposit, unset, has]
    rw [isFloor]
    exact ok.floor

/-- An update with valid parameters carries both minima over to the new floors if and only if it
lowers no floor that stands for a minimum. -/
theorem update_carries_minima_over_iff (authority : Address) (blockTime : Time) {s : ThrottleState}
    (valid : s.params.validateBasic = .ok ())
    (moderate : ∀ which last, s.stored which = some last → ModerateCoins last.value)
    {params : Params} (accepted : params.validateBasic = .ok ()) :
    Post (updateParams authority authority blockTime params) s
        (fun _ next => ∀ which, ∃ throttler, params.throttler which = some throttler
          ∧ CarriedOver throttler.floorValue (s.minimum which) (next.minimum which))
        (fun _ _ => False)
      ↔ ∀ which throttler, params.throttler which = some throttler →
          ¬ FloorLowered s which throttler.floorValue := by
  obtain ⟨deposit, hasDeposit, depositOk⟩ := Params.throttler_ok accepted .minDeposit
  obtain ⟨initial, hasInitial, initialOk⟩ := Params.throttler_ok accepted .minInitialDeposit
  have isFloor : (params.minDepositThrottler.map (·.floorValue)).getD [] = deposit.floorValue := by
    rw [show params.minDepositThrottler = some deposit from hasDeposit]
    rfl
  have isFloorInitial :
      (params.minInitialDepositThrottler.map (·.floorValue)).getD [] = initial.floorValue := by
    rw [show params.minInitialDepositThrottler = some initial from hasInitial]
    rfl
  obtain ⟨result, computed, carries⟩ := @refloored_carries_iff deposit depositOk blockTime
    s.lastMinDeposit _ ⟨_, some zeroTime⟩ isFloor (minimum_moderate valid moderate .minDeposit)
  obtain ⟨resultInitial, computedInitial, carriesInitial⟩ :=
    @refloored_carries_iff initial initialOk blockTime s.lastMinInitialDeposit _ ⟨_, some zeroTime⟩
      isFloorInitial (minimum_moderate valid moderate .minInitialDeposit)
  obtain ⟨_, next, ran, isNext⟩ :=
    (@updateParams_post authority blockTime result params s accepted deposit initial hasDeposit
      hasInitial resultInitial computed computedInitial).returns
  have each : ∀ which throttler, params.throttler which = some throttler →
      (CarriedOver throttler.floorValue (s.minimum which) (next.minimum which)
        ↔ ¬ FloorLowered s which throttler.floorValue) := by
    intro which throttler has
    rw [floorLowered_iff, isNext]
    cases which with
    | minDeposit =>
      cases some_unique hasDeposit has
      exact carries
    | minInitialDeposit =>
      cases some_unique hasInitial has
      exact carriesInitial
  unfold Post
  rw [ran]
  constructor
  · intro carried which throttler has
    obtain ⟨other, hasOther, isCarried⟩ := carried which
    cases some_unique hasOther has
    exact (each which throttler has).mp isCarried
  · intro kept which
    obtain ⟨throttler, has, _⟩ := Params.throttler_ok accepted which
    exact ⟨throttler, has, (each which throttler has).mpr (kept which throttler has)⟩

/-! ## A lower floor -/

/-- The sample parameters with another floor of the minimum deposit. -/
def sampleParamsWithFloor (floorValue : Coins) : Params :=
  { sampleParams with
    minDepositThrottler := sampleParams.minDepositThrottler.map fun throttler =>
      { throttler with floorValue := floorValue } }

/-- A stored minimum is not lowered with the floor. -/
theorem stored_minimum_outlives_floor :
    let stored : LastMinDeposit := ⟨[⟨[97, 97, 97], 1000⟩], some 0⟩
    let params := sampleParamsWithFloor [⟨[97, 97, 97], 500⟩]
    params.validateBasic = .ok ()
      ∧ Post (updateParams [] [] 0 params) ⟨sampleParams, some stored, some stored⟩
          (fun _ next => ∀ which, ∃ throttler, params.throttler which = some throttler
            ∧ CarriedOver throttler.floorValue
              (ThrottleState.minimum ⟨sampleParams, some stored, some stored⟩ which)
              (next.minimum which))
          (fun _ _ => False) := by
  intro stored params
  have moderate : ModerateCoins stored.value :=
    ⟨Coins.isValid_iff.mp rfl, by simp [stored, maxAmount]⟩
  have valid : sampleParams.validateBasic = .ok () := rfl
  have accepted : (sampleParamsWithFloor [⟨[97, 97, 97], 500⟩]).validateBasic = .ok () := rfl
  refine ⟨accepted, (update_carries_minima_over_iff [] 0 valid ?_ accepted).mpr ?_⟩
  · intro which last isStored
    cases which <;> cases isStored <;> exact moderate
  · intro which throttler _ lowered
    have unset := lowered.unset
    cases which <;> cases unset

/-- Where no minimum was ever stored, the minimum before the update is the old floor. The
update compares it with itself, stores nothing, and the new floor takes its place. -/
theorem unstored_minimum_is_lowered :
    let params := sampleParamsWithFloor [⟨[97, 97, 97], 500⟩]
    let s : ThrottleState := ⟨sampleParams, none, none⟩
    params.validateBasic = .ok ()
      ∧ (updateParams [] [] 0 params).value? s = some ()
      ∧ s.minimum .minDeposit = [⟨[97, 97, 97], 1000⟩]
      ∧ getNewMinDeposit [⟨[97, 97, 97], 500⟩] (s.minimum .minDeposit) BoundedDec.one
          = some [⟨[97, 97, 97], 1000⟩]
      ∧ (transact (updateParams [] [] 0 params) s).minimum .minDeposit
          = [⟨[97, 97, 97], 500⟩] := by
  refine ⟨rfl, ?_, rfl, ?_, ?_⟩
  · decide +kernel
  · decide +kernel
  · decide +kernel

end AtomOneSdk.Proposals
