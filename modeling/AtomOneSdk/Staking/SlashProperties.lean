import AtomOneSdk.Staking.Properties
import AtomOneSdk.Staking.ShareConversion

/-!
Contract: what a slash takes for one redelegation entry.

Owns: what the unbonding entries that followed a redelegation and the moved delegation lose, and
exactly when this is within the slashed part of the entry's initial balance.

Does **not** own: that slashing keeps the staking invariant, which its specification states.
-/

namespace AtomOneSdk.Staking

open Lib Lib.Action

def sampleCreation (operator key : Address) (amount : Int) : Op :=
  .createValidator
    { description := ⟨"node", "", "", "", ""⟩
      commission := ⟨0, Dec.one, Dec.one⟩
      minSelfDelegation := 1
      validatorAddress := operator
      pubkey := ⟨.ed25519, key⟩
      value := ⟨[117], amount⟩ }

/-- A second validator stays unbonded. Its operator delegates to the first one, redelegates to
itself and undelegates what it had put in before. -/
def sampleRedelegation : List Op :=
  [ sampleCreation [1] [11] 3000000, .applyAndReturnValidatorSetUpdates, .beginBlock 2 1,
    sampleCreation [2] [22] 1000000, .delegate ⟨[2], [1], ⟨[117], 2000000⟩⟩,
    .beginRedelegate ⟨[2], [1], [2], ⟨[117], 2000000⟩⟩, .undelegate ⟨[2], [2], ⟨[117], 1000000⟩⟩,
    .applyAndReturnValidatorSetUpdates, .beginBlock 3 2 ]

def narrowParams : Params := { sampleParams with maxValidators := 1 }

def sampleRedelegated : World Unit :=
  (Run.after (Keepers.accepting PubKey.bytes) narrowParams 1 0 () sampleRedelegation).world

/-! ## One redelegation entry -/

/-- The worth of shares does not exceed the deposit they were issued for while the tokens per
share are not above their value after the deposit. -/
theorem Validator.issuedShares_worth_later {v dst : Validator} {amount issued : Int}
    (nonneg : 0 ≤ v.tokens) (covered : v.tokens ≤ v.delegatorShares) (positive : 0 < amount)
    (issues : v.issuedShares amount = some issued) (dstShares : 0 ≤ dst.delegatorShares)
    (rate : dst.tokens * (v.delegatorShares + issued) ≤ (v.tokens + amount) * dst.delegatorShares) :
    issued * dst.tokens ≤ amount * dst.delegatorShares := by
  have issuedPos : 0 < issued := positive.trans_le (le_issuedShares nonneg covered positive issues)
  have worth : issued * v.tokens ≤ v.delegatorShares * amount := by
    rcases nonneg.eq_or_lt with none | some
    · rw [← none, mul_zero]
      exact mul_nonneg (by omega) positive.le
    · exact issuedShares_worth some covered positive issues
  have scaled : 0 < v.delegatorShares + issued := by omega
  apply le_of_mul_le_mul_right _ scaled
  calc issued * dst.tokens * (v.delegatorShares + issued)
      = issued * (dst.tokens * (v.delegatorShares + issued)) := by ring
    _ ≤ issued * ((v.tokens + amount) * dst.delegatorShares) :=
        mul_le_mul_of_nonneg_left rate issuedPos.le
    _ = (issued * v.tokens + issued * amount) * dst.delegatorShares := by ring
    _ ≤ (v.delegatorShares * amount + issued * amount) * dst.delegatorShares :=
        mul_le_mul_of_nonneg_right (by omega) dstShares
    _ = amount * dst.delegatorShares * (v.delegatorShares + issued) := by ring

/-- The slashed part of shares, rounded to nearest, pays out at most the slashed part of what
they were worth: both roundings together stay below one unit if a share is worth at most one
token. -/
theorem Validator.issuedTokens_slashed {dst : Validator} {factor moved shares part : Int}
    (factorNonneg : 0 ≤ factor) (nonneg : 0 ≤ dst.tokens)
    (unit : dst.tokens * Dec.one ≤ dst.delegatorShares)
    (worth : shares * dst.tokens ≤ moved * dst.delegatorShares)
    (partPos : 0 < part) (held : part ≤ dst.delegatorShares)
    (isPart : part ≤ Dec.mul factor shares) :
    dst.issuedTokens part * Dec.one ≤ factor * moved := by
  have sharesPos : 0 < dst.delegatorShares := by omega
  have paid := (issuedTokens_worth nonneg partPos.le held sharesPos).2.2
  have rounded : 2 * (Dec.mul factor shares * Dec.one - factor * shares) ≤ Dec.one :=
    (roundHalfEven_error Dec.one_pos).2
  have cut : part * Dec.one ≤ Dec.mul factor shares * Dec.one :=
    mul_le_mul_of_nonneg_right isPart Dec.one_pos.le
  rcases unit.eq_or_lt with exactly | less
  · -- one token a share: the payout is at most the shares, and these at most the worth
    have tokensPos : 0 < dst.tokens := by
      have : 0 < dst.tokens * Dec.one := by omega
      exact pos_of_mul_pos_left this Dec.one_pos.le
    have paidLe : 2 * (dst.issuedTokens part * Dec.one) ≤ 2 * part + 1 := by
      apply le_of_mul_le_mul_right _ sharesPos
      rw [← exactly] at paid ⊢
      linarith
    have sharesLe : shares ≤ moved * Dec.one := by
      apply le_of_mul_le_mul_right _ tokensPos
      rw [← exactly] at worth
      linarith
    have partLe : 2 * part ≤ 2 * (factor * moved) + 1 := by
      have scaled := mul_le_mul_of_nonneg_left sharesLe factorNonneg
      apply le_of_mul_le_mul_right _ Dec.one_pos
      linarith
    omega
  · have partWorth := mul_le_mul_of_nonneg_right
      (show 2 * (part * Dec.one) ≤ 2 * (factor * shares) + Dec.one by omega) nonneg
    have scaled := mul_le_mul_of_nonneg_left worth factorNonneg
    have paidLt : 2 * (dst.issuedTokens part * Dec.one) < 2 * (factor * moved) + 2 := by
      apply lt_of_mul_lt_mul_right _ sharesPos.le
      linarith
    omega

/-- What the delegator's unbonding entries at the destination of a redelegation and the
destination itself hold. -/
def heldAt (s : StakingState) (red : Redelegation) : Int :=
  balanceAt s.unbondingDelegations ⟨red.delegatorAddress, red.validatorDstAddress⟩
    + tokensAt s red.validatorDstAddress

/-- What the slashable unbonding entries of the delegator at the destination hold. -/
def unbondingAt (s : StakingState) (red : Redelegation) (infractionHeight : Int) : Int :=
  slashableBalance infractionHeight s.blockTime
    ((s.unbondingDelegations.get? ⟨red.delegatorAddress, red.validatorDstAddress⟩).elim []
      UnbondingDelegation.entries)

/-- What shares of the delegator at the destination pay out, up to those held. -/
def worthAt (s : StakingState) (red : Redelegation) (shares : Int) : Int :=
  match s.delegations.get? ⟨red.delegatorAddress, red.validatorDstAddress⟩,
    s.validators.get? red.validatorDstAddress with
  | some d, some dst => dst.issuedTokens (min d.shares shares)
  | _, _ => 0

section Entry

variable {φ σ : Type} {K : Keepers φ σ} {world : World σ} {red : Redelegation}
  {infractionHeight slashFactor : Int} {acc : RedelegationSlash} {entry : RedelegationEntry}

theorem no_fault {fault : Fault (Reason φ)} :
    ¬ FaultIn (fun _ => False) True (fun _ => False) fault := by
  rcases fault with reason | reason <;> cases reason <;> simp [FaultIn]

/-- Without shares nothing is paid out. -/
theorem worthAt_zero (inv : Settled K.consAddress True world.staking) :
    worthAt world.staking red 0 = 0 := by
  unfold worthAt
  split
  next d dst found stored =>
    have heldPos := inv.shares.positive found
    have all := inv.shares.total stored
    have part := inv.shares.shares_le_delegatedTo found
    simp only at all part
    rw [min_eq_right heldPos.le, Validator.issuedTokens, if_neg (by omega)]
    rw [Validator.tokensFromShares, Dec.mulInt, zero_mul, Dec.quo, zero_mul, zero_mul,
      Int.zero_tdiv]
    rfl
  next => rfl

/-- Shares up to those held, but at least one, are unbonded, whether or not the destination is
still there afterwards. -/
theorem slashMovedDelegation_takes {sharesToUnbond : Int} {owed : Bool → Int}
    (calm : HookContract K Phases.trivial fun _ => False)
    (inv : Inv K.consAddress True (fun _ => 0) owed world.staking) (positive : 0 < sharesToUnbond) :
    let takes := fun world' : World σ => heldAt world'.staking red
      = heldAt world.staking red - worthAt world.staking red sharesToUnbond
    Post (slashMovedDelegation K red acc sharesToUnbond) world (fun _ => takes)
      (fun _ => takes) := by
  simp only [slashMovedDelegation, staking_rules, worthAt]
  cases found : world.staking.delegations.get?
      ⟨red.delegatorAddress, red.validatorDstAddress⟩ with
  | none => exact (sub_zero _).symm
  | some d =>
    have heldPos := inv.shares.positive found
    obtain ⟨dst, stored⟩ := inv.shares.home found
    have part : (if d.shares < sharesToUnbond then d.shares else sharesToUnbond)
        = min d.shares sharesToUnbond := by
      rw [min_def]
      split_ifs <;> omega
    simp only [getValidator, staking_rules, stored, part]
    have bounds : 0 < min d.shares sharesToUnbond := lt_min heldPos positive
    refine (@unbond_spec _ _ _ _ _ True owed world (fun _ => False) _ _ calm _ dst inv trivial
      stored bounds fun short => absurd (short d found) (by omega)).mono ?_ ?_
    · rintro paid unbonding ⟨⟨rfl, tokens⟩, -, -, -, frame⟩
      have takes : heldAt unbonding.staking red = heldAt world.staking red
          - dst.issuedTokens (min d.shares sharesToUnbond) := by
        have before : tokensAt world.staking red.validatorDstAddress = dst.tokens := by
          rw [tokensAt, stored]
          rfl
        rw [heldAt, heldAt, frame.unbondings, tokens, before]
        omega
      exact ⟨fun _ _ => takes, fun _ => takes⟩
    · exact fun fault _ impossible => (no_fault impossible).elim

/-- Of a slashable entry the unbonding entries give what they can, and the delegation gives its
share whenever these did not cover all. -/
theorem slashRedelegationEntry_takes (calm : HookContract K Phases.trivial fun _ => False)
    (settled : Settled K.consAddress True world.staking) (factor : 0 ≤ slashFactor)
    (balance : 0 ≤ entry.initialBalance) (moved : 0 ≤ entry.sharesDst)
    (due : ¬ (entry.creationHeight < infractionHeight
      ∨ (entry.isMature world.staking.blockTime ∧ ¬ entry.onHold))) :
    let slashAmount := slashAmountOf slashFactor entry.initialBalance
    let unbonding := unbondingAt world.staking red infractionHeight
    let takes := fun world' : World σ => heldAt world.staking red - heldAt world'.staking red
      = if slashAmount ≤ unbonding then slashAmount
        else unbonding + worthAt world.staking red (Dec.mul slashFactor entry.sharesDst)
    Post (slashRedelegationEntry K red infractionHeight slashFactor acc entry) world
      (fun _ => takes) (fun _ => takes) := by
  intro slashAmount unbonding takes
  simp only [slashRedelegationEntry, staking_rules, if_neg due]
  refine (@slashFollowingUnbonding_spec _ _ _ _ _ True _ world (fun _ => False)
    infractionHeight _ red calm settled trivial (slashAmountOf_nonneg factor balance)).mono ?_ ?_
  · rintro _ middle ⟨rfl, takenNonneg, kept, sameValidators, sameDelegations, given⟩
    have isTaken : takenFromUnbonding world.staking red infractionHeight slashAmount
      = min slashAmount unbonding := rfl
    have left : heldAt middle.staking red
        = heldAt world.staking red - min slashAmount unbonding := by
      rw [heldAt, heldAt, given, tokensAt, tokensAt, sameValidators, ← isTaken]
      exact sub_add_eq_add_sub _ _ _
    have sameWorth : ∀ shares, worthAt middle.staking red shares
        = worthAt world.staking red shares := by
      intro shares
      rw [worthAt, worthAt, sameValidators, sameDelegations]
    have sharesNonneg : 0 ≤ Dec.mul slashFactor entry.sharesDst :=
      roundHalfEven_nonneg Dec.one_pos (mul_nonneg factor moved)
    rw [isTaken, post_ite]
    by_cases covered : slashAmount ≤ unbonding
    · have all : min slashAmount unbonding = slashAmount := min_eq_left covered
      refine ⟨fun _ => ?_, fun more => absurd (.inr (by omega)) more⟩
      show _ - _ = ite _ _ _
      rw [left, all, if_pos covered, sub_sub_cancel]
    · have rest : min slashAmount unbonding = unbonding := min_eq_right (by omega)
      simp only [takes, if_neg covered]
      refine ⟨fun done => ?_, fun more => ?_⟩
      · have noShares : Dec.mul slashFactor entry.sharesDst = 0 := done.resolve_right (by omega)
        show _ - _ = _
        rw [left, rest, noShares, worthAt_zero settled]
        omega
      · refine (slashMovedDelegation_takes calm kept.inv (by omega)).mono ?_ ?_
        all_goals
          intro _ world' taken
          rw [taken, left, rest, sameWorth]
          omega
  · exact fun fault _ impossible => (no_fault impossible).elim

/-- What the destination held can lose for an entry without exceeding the slashed part of its
initial balance: the entry is not slashable any more, or the unbonding entries cover the slash, or
these and the moved shares that are left are not worth more. -/
def SlashFits (s : StakingState) (red : Redelegation) (infractionHeight slashFactor : Int)
    (entry : RedelegationEntry) : Prop :=
  (entry.isMature s.blockTime ∧ ¬ entry.onHold)
    ∨ slashAmountOf slashFactor entry.initialBalance ≤ unbondingAt s red infractionHeight
    ∨ (unbondingAt s red infractionHeight
        + worthAt s red (Dec.mul slashFactor entry.sharesDst)) * Dec.one
      ≤ slashFactor * entry.initialBalance

/-- With nothing unbonding, moved shares whose tokens per share are at most one and not above
their value after the move fit. -/
theorem slashFits_of_nothing_unbonding {before : Validator}
    (settled : Settled K.consAddress True world.staking) (factor : 0 ≤ slashFactor)
    (nonneg : 0 ≤ before.tokens) (covered : before.tokens ≤ before.delegatorShares)
    (positive : 0 < entry.initialBalance)
    (issued : before.issuedShares entry.initialBalance = some entry.sharesDst)
    (rate : ∀ dst, world.staking.validators.get? red.validatorDstAddress = some dst →
      dst.tokens * (before.delegatorShares + entry.sharesDst)
          ≤ (before.tokens + entry.initialBalance) * dst.delegatorShares
        ∧ dst.tokens * Dec.one ≤ dst.delegatorShares)
    (nothing : unbondingAt world.staking red infractionHeight = 0) :
    SlashFits world.staking red infractionHeight slashFactor entry := by
  have sharesPos : 0 < entry.sharesDst :=
    positive.trans_le (Validator.le_issuedShares nonneg covered positive issued)
  have partNonneg : 0 ≤ Dec.mul slashFactor entry.sharesDst :=
    roundHalfEven_nonneg Dec.one_pos (mul_nonneg factor sharesPos.le)
  have wholeNonneg : 0 ≤ slashFactor * entry.initialBalance := mul_nonneg factor positive.le
  refine .inr (.inr ?_)
  rw [nothing, zero_add]
  rcases partNonneg.eq_or_lt with zero | partPos
  · rw [← zero, worthAt_zero settled, zero_mul]
    exact wholeNonneg
  · unfold worthAt
    split
    next d dst found stored =>
      have heldPos := settled.shares.positive found
      have all := settled.shares.total stored
      have part := settled.shares.shares_le_delegatedTo found
      simp only at all part
      obtain ⟨notAbove, unit⟩ := rate dst stored
      exact Validator.issuedTokens_slashed factor (settled.shares.tokensNonneg stored) unit
        (Validator.issuedShares_worth_later nonneg covered positive issued (by omega) notAbove)
        (lt_min heldPos partPos) ((min_le_left _ _).trans (by omega)) (min_le_right _ _)
    next =>
      rw [zero_mul]
      exact wholeNonneg

end Entry

/-- The second validator as it stood before the redelegation. -/
def sampleDestination : Validator :=
  { newValidator [2] ⟨.ed25519, [22]⟩ ⟨"node", "", "", "", ""⟩ with
      tokens := 1000000, delegatorShares := 1000000 * Dec.one }

def sampleMove : RedelegationEntry := ⟨2, 1814400000000001, 2000000, 2000000 * Dec.one, 2, 0⟩

theorem accepting_calm :
    HookContract (Keepers.accepting PubKey.bytes) Phases.trivial fun _ => False := by
  constructor
  all_goals intros
  all_goals first
    | exact True.intro
    | exact fun _ _ => True.intro
    | exact fun _ _ _ => True.intro

end AtomOneSdk.Staking
