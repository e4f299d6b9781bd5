import AtomOneSdk.Gov.TallySpec

/-!
Contract: the value of a tally.

Owns: the states in which a tally is taken, who decides over a delegation (its
delegator, or else the governor the delegator follows), which governors are counted,
and the tally over any arithmetic as the voters' delegations plus what is left to the
governors that are counted.

Does **not** own: the comparison of decimals with exact fractions.
-/

namespace AtomOneSdk.Gov

open Lib Lib.Action Store List
open Staking (Address StakingState Delegation Validator SharesOK SharesSettled)

/-! ## The states a tally is taken in -/

/-- Staking and governor shares add up, and votes and governors are stored under their
keys. Nothing is assumed about who voted or which validators are counted, except that
these have shares. -/
structure TallyReady (s : StakingState) (g : GovState)
    (currValidators : Store Address Validator) : Prop where
  staked : SharesOK (fun _ => 0) s.validators s.delegations
  tracked : Tracked (governorShares s.delegations g.governorOf) g.validatorSharesByGovernor
  governorKey : ∀ {addr governor}, g.governors.get? addr = some governor →
    governor.governorAddress = addr
  filed : VotesFiled g
  haveShares : HaveShares currValidators

def SelfDelegated (g : GovState) : Prop :=
  ∀ addr, isActiveGovernor g addr = true → g.governorOf addr = some addr

/-- Whether the governor at an address is active and meets the minimum self-delegation. -/
def meetsMinSelfDelegation (s : StakingState) (g : GovState) (govAddr : Address) : Bool :=
  (g.governors.get? govAddr).any fun governor =>
    (validateGovernorMinSelfDelegation s governor).value? g = some true

/-- The options of a governor that is counted. -/
def governorVote (s : StakingState) (g : GovState) (proposalId : Nat) (govAddr : Address) :
    Option (List WeightedVoteOption) :=
  if meetsMinSelfDelegation s g govAddr then
    (ballotOn g proposalId govAddr).filter fun options => options ≠ []
  else none

/-- The options that decide over the delegations of an account: its own if it voted, and
otherwise those of the governor it follows. -/
def decidingVote (s : StakingState) (g : GovState) (proposalId : Nat) (delAddr : Address) :
    Option (List WeightedVoteOption) :=
  match ballotOn g proposalId delAddr with
  | some options => some options
  | none => (g.governorOf delAddr).bind (governorVote s g proposalId)

/-! ## Governors that are counted -/

section Eligible

variable {s : StakingState} {g : GovState}

def bondedTokensOf (s : StakingState) (govAddr : Address) : Int :=
  ((delegationsOf s govAddr).map fun d =>
    ((s.validators.get? d.validatorAddress).map fun v =>
      Dec.truncateInt (Dec.quo (Dec.mulInt d.shares v.bondedTokens) v.delegatorShares)).getD 0).sum

theorem getGovernorBondedTokens_value (ok : SharesSettled s) (govAddr : Address) :
    Post (getGovernorBondedTokens s govAddr) g
      (fun tokens g' => g' = g ∧ tokens = bondedTokensOf s govAddr) (fun _ _ => False) := by
  let term : Delegation → Int := fun d =>
    ((s.validators.get? d.validatorAddress).map fun v =>
      Dec.truncateInt (Dec.quo (Dec.mulInt d.shares v.bondedTokens) v.delegatorShares)).getD 0
  rw [getGovernorBondedTokens, getGovernorBondedTokensWithExclusions]
  apply Post.imp (post_foldOver
    (fun rest (acc : Int) g' => g' = g ∧ acc + (rest.map term).sum = bondedTokensOf s govAddr
      ∧ ∀ d ∈ rest, d ∈ delegationsOf s govAddr) ?_ _ _ _ ⟨rfl, ?_, fun _ member => member⟩)
  · rintro tokens g' ⟨same, total, _⟩
    exact ⟨same, by simpa using total⟩
  · rintro d rest acc g' ⟨same, total, members⟩
    obtain ⟨v, present, hasShares⟩ :=
      delegated_validator ok (fun _ => le_refl 0) (members d mem_cons_self)
    have termHere : term d
        = Dec.truncateInt (Dec.quo (Dec.mulInt d.shares v.bondedTokens) v.delegatorShares) := by
      simp only [term, present, Option.map_some, Option.getD_some]
    rw [if_neg (by simp), present, post_bind, post_getOrCrash]
    refine ⟨fun found same => ?_, fun absent => by cases absent⟩
    cases same
    rw [post_bind, post_crashIf]
    refine ⟨fun zero => absurd zero hasShares, fun _ => ⟨by assumption, ?_, ?_⟩⟩
    · rw [← termHere, ← total, map_cons, sum_cons]
      omega
    · exact fun other member => members other (mem_cons_of_mem d member)
  · rw [zero_add]
    rfl

def Meets (s : StakingState) (g : GovState) (governor : Governor) : Prop :=
  governor.isActive = true
    ∧ g.governorOf governor.governorAddress = some governor.governorAddress
    ∧ g.params.minGovernorSelfDelegation ≤ bondedTokensOf s governor.governorAddress

theorem validateGovernorMinSelfDelegation_value
    (ok : SharesSettled s) (governor : Governor) :
    Post (validateGovernorMinSelfDelegation s governor) g
      (fun meets g' => g' = g ∧ (meets = true ↔ Meets s g governor))
      (fun _ _ => governor.isActive = true
        ∧ g.governorOf governor.governorAddress ≠ some governor.governorAddress) := by
  rw [validateGovernorMinSelfDelegation, validateGovernorMinSelfDelegationWithExclusions, post_ite]
  constructor
  · intro inactive
    exact ⟨rfl, by simp [Meets, inactive]⟩
  · intro notInactive
    have active : governor.isActive = true := by simpa using notInactive
    rw [post_bind]
    apply Post.mono (getGovernorBondedTokens_value ok governor.governorAddress)
    · rintro tokens mid ⟨same, isTokens⟩
      rw [same, isTokens, validateGovernorMinSelfDelegationWithTotalBonded, post_bind, post_get,
        if_neg notInactive, post_bind, post_crashIf]
      refine ⟨fun notSelf => ⟨active, notSelf⟩, fun self => ⟨rfl, ?_⟩⟩
      have isSelf : g.governorOf governor.governorAddress = some governor.governorAddress := by
        simpa using self
      simp [Meets, active, isSelf]
    · exact fun _ _ impossible => impossible.elim

/-- The code's check returns true exactly when the minimum is met. -/
theorem meetsMinSelfDelegation_iff (ok : SharesSettled s) {govAddr : Address} :
    meetsMinSelfDelegation s g govAddr = true
      ↔ ∃ governor, g.governors.get? govAddr = some governor ∧ Meets s g governor := by
  have returns : ∀ governor, (validateGovernorMinSelfDelegation s governor).value? g = some true
      ↔ Meets s g governor := by
    intro governor
    have spec : Post (validateGovernorMinSelfDelegation s governor) g _ _ :=
      validateGovernorMinSelfDelegation_value ok governor
    unfold Post at spec
    unfold value?
    cases ran : validateGovernorMinSelfDelegation s governor g with
    | ok meets next =>
      rw [ran] at spec
      constructor
      · intro isTrue
        exact spec.2.mp (Option.some.inj isTrue)
      · intro met
        exact congrArg some (spec.2.mpr met)
    | error fault next =>
      rw [ran] at spec
      constructor
      · intro impossible
        cases impossible
      · intro met
        exact absurd met.2.1 spec.2
  unfold meetsMinSelfDelegation
  cases g.governors.get? govAddr with
  | none => simp
  | some governor => simp [returns]

end Eligible

/-! ## The value of a tally -/

section Value

variable {P : Type} [AddCommGroup P] {A : Arithmetic P} {s : StakingState} {g : GovState}
  {currValidators : Store Address Validator} {proposalId : Nat} {isFinal : Bool}

/-- Shares in a validator of a governor's followers that have not voted. -/
def leftShares (s : StakingState) (g : GovState) (proposalId : Nat) (govAddr valAddr : Address) :
    Int :=
  s.delegations.sum fun key d =>
    if key.snd = valAddr ∧ g.governorOf key.fst = some govAddr
      ∧ ballotOn g proposalId key.fst = none
    then d.shares else 0

/-- Voting power that is left to a governor. -/
def residualPower (A : Arithmetic P) (s : StakingState) (g : GovState)
    (currValidators : Store Address Validator) (proposalId : Nat) (govAddr : Address) : P :=
  (trackedShares g govAddr).sum fun valAddr _ =>
    powerOf A currValidators valAddr (leftShares s g proposalId govAddr valAddr)

/-- What is left to the governors that are counted. -/
def governorsValue (A : Arithmetic P) (s : StakingState) (g : GovState)
    (currValidators : Store Address Validator) (proposalId : Nat) (which : Option VoteOption) : P :=
  g.governors.sum fun govAddr _ =>
    (governorVote s g proposalId govAddr).elim 0 fun options =>
      gain A which options (residualPower A s g currValidators proposalId govAddr)

/-- The voters' own delegations and what is left to the governors. -/
def tallyValue (A : Arithmetic P) (s : StakingState) (g : GovState)
    (currValidators : Store Address Validator) (proposalId : Nat) (which : Option VoteOption) : P :=
  directValue A s currValidators (ballotOn g proposalId) which
    + governorsValue A s g currValidators proposalId which

/-- A governor's shares are those of its followers that voted and of the others. -/
theorem governorShares_eq_voters_add_left (proposalId : Nat) (govAddr valAddr : Address) :
    governorShares s.delegations g.governorOf govAddr valAddr
      = votersShares s g (ballotOn g proposalId) govAddr valAddr
        + leftShares s g proposalId govAddr valAddr := by
  unfold governorShares votersShares leftShares
  rw [← sum_add]
  apply sum_congr
  intro key d _
  cases ballotOn g proposalId key.fst with
  | none => simp
  | some options => simp

variable (ready : TallyReady s g currValidators)

include ready

theorem leftShares_nonneg (govAddr valAddr : Address) :
    0 ≤ leftShares s g proposalId govAddr valAddr := by
  apply Store.sum_nonneg
  intro key d stored
  split_ifs
  · exact le_of_lt (ready.staked.positive stored)
  · exact le_refl 0

/-- After the deductions a governor has the shares of the followers that did not vote. -/
theorem InfoOK.left {govAddr valAddr : Address} {info : GovernorGovInfo} {shares : Int}
    (held : InfoOK s g currValidators (ballotOn g proposalId) govAddr info)
    (present : info.valShares.get? valAddr = some shares)
    (bonded : (currValidators.get? valAddr).isSome) :
    ∃ deduction, info.valSharesDeductions.get? valAddr = some deduction
      ∧ shares - deduction = leftShares s g proposalId govAddr valAddr := by
  rw [held.valShares] at present
  refine ⟨deductedShares s g currValidators (ballotOn g proposalId) govAddr valAddr, ?_, ?_⟩
  · rw [held.deductions, present]
    rfl
  · rw [get?_trackedShares ready.tracked] at present
    obtain ⟨record, stored, isShares⟩ := Option.map_eq_some_iff.mp present
    have total := (ready.tracked.exact stored).1
    rw [isShares, governorShares_eq_voters_add_left proposalId] at total
    rw [deductedShares, if_pos bonded, total]
    omega

theorem getGovernorVotingPower_spec {govAddr : Address} {info : GovernorGovInfo} {state : GovState}
    (held : InfoOK s g currValidators (ballotOn g proposalId) govAddr info) :
    Post (getGovernorVotingPower A currValidators info) state
      (fun power next => next = state
        ∧ power = residualPower A s g currValidators proposalId govAddr)
      (fun _ _ => False) := by
  let term : Address × Int → P := fun entry =>
    powerOf A currValidators entry.1 (leftShares s g proposalId govAddr entry.1)
  rw [getGovernorVotingPower]
  apply Post.imp (post_foldOver
    (fun rest (power : P) next => next = state
      ∧ power + (rest.map term).sum = residualPower A s g currValidators proposalId govAddr
      ∧ ∀ entry ∈ rest, entry ∈ info.valShares.entries) ?_ _ _ _
    ⟨rfl, ?_, fun _ member => member⟩)
  · rintro power next ⟨same, total, _⟩
    exact ⟨same, by simpa using total⟩
  · rintro entry rest power next ⟨same, total, members⟩
    have restMembers : ∀ other ∈ rest, other ∈ info.valShares.entries :=
      fun other member => members other (mem_cons_of_mem entry member)
    rw [map_cons, sum_cons, ← add_assoc] at total
    cases bonded : currValidators.get? entry.1 with
    | none =>
      have zero : term entry = 0 := by simp only [term, powerOf, bonded]
      rw [zero, add_zero] at total
      exact ⟨same, total, restMembers⟩
    | some val =>
      have present := mem_entries.mp (members entry mem_cons_self)
      obtain ⟨deduction, found, left⟩ := held.left ready present (by rw [bonded]; rfl)
      dsimp only
      rw [found, post_bind, post_getOrCrash]
      refine ⟨fun _ isDeduction => ?_, fun absent => by cases absent⟩
      cases isDeduction
      rw [post_bind]
      apply sharesPower_spec (ready.haveShares bonded)
      refine ⟨same, ?_, restMembers⟩
      rw [left, ← total]
      simp only [term, powerOf, bonded]
  · rw [zero_add, residualPower, ← held.valShares]
    rfl

/-- The governors that are counted are those met that meet the minimum and have a vote. -/
theorem getCurrGovernors_spec
    (votes : Store (Pair Nat Address) Vote) (allGovernors : Store Address GovernorGovInfo) :
    Post (getCurrGovernors s allGovernors) { g with votes := votes }
      (fun governors g' => g' = { g with votes := votes }
        ∧ governors = (allGovernors.entries.map Prod.snd).filter fun info =>
            meetsMinSelfDelegation s g info.address && decide (info.vote ≠ []))
      (fun _ _ => ¬ SelfDelegated g) := by
  let counted : GovernorGovInfo → Bool := fun info =>
    meetsMinSelfDelegation s g info.address && decide (info.vote ≠ [])
  rw [getCurrGovernors, post_bind, post_get]
  apply Post.imp (post_foldOver
    (fun rest governors g' => g' = { g with votes := votes }
      ∧ governors ++ rest.filter counted = (allGovernors.entries.map Prod.snd).filter counted)
    ?_ _ _ _ ⟨rfl, rfl⟩)
  · rintro governors g' ⟨same, total⟩
    rw [filter_nil, append_nil] at total
    exact ⟨same, total⟩
  · rintro info rest governors g' ⟨same, total⟩
    -- a governor that does not exist is not active
    have agrees : ∀ meets : Bool,
        (meets = true ↔ Meets s g ((g.governors.get? info.address).getD
          ⟨[], .unspecified, ⟨"", "", "", "", ""⟩, 0⟩)) →
        meets = meetsMinSelfDelegation s g info.address := by
      intro meets met
      rw [Bool.eq_iff_iff, met, meetsMinSelfDelegation_iff ready.staked]
      cases g.governors.get? info.address with
      | none => simp [Meets, Governor.isActive]
      | some governor => simp
    rw [same]
    dsimp only
    rw [post_bind]
    apply Post.mono (validateGovernorMinSelfDelegation_value ready.staked _)
    · rintro meets mid ⟨sameMid, met⟩
      have isMeets := agrees meets met
      refine ⟨sameMid, ?_⟩
      rw [← total]
      by_cases picked : counted info = true
      · rw [filter_cons_of_pos picked, if_pos]
        · simp
        · rw [isMeets]
          simpa [counted] using picked
      · rw [filter_cons_of_neg picked, if_neg]
        rw [isMeets]
        simpa [counted] using picked
    · rintro fault mid ⟨active, notSelf⟩ selfDelegated
      cases present : g.governors.get? info.address with
      | none =>
        rw [present] at active
        cases active
      | some governor =>
        rw [present] at active notSelf
        have address := ready.governorKey present
        apply notSelf
        show g.governorOf governor.governorAddress = some governor.governorAddress
        rw [address]
        exact selfDelegated info.address (isActiveGovernor_iff.mpr ⟨governor, present, active⟩)

theorem meets_self {govAddr : Address} (meets : meetsMinSelfDelegation s g govAddr = true) :
    (g.governors.get? govAddr).isSome ∧ g.governorOf govAddr = some govAddr := by
  obtain ⟨governor, present, met⟩ := (meetsMinSelfDelegation_iff ready.staked).mp meets
  have self := met.2.1
  rw [ready.governorKey present] at self
  exact ⟨by rw [present]; rfl, self⟩

/-- Summing over the governors met is summing over all governors, since those that are
counted have been met. -/
theorem sum_allGovernors
    {allGovernors : Store Address GovernorGovInfo}
    (held : GovernorsOK s g currValidators (ballotOn g proposalId) allGovernors)
    (value : Address → List WeightedVoteOption → P) :
    allGovernors.sum (fun govAddr info =>
        if meetsMinSelfDelegation s g info.address && decide (info.vote ≠ []) then
          value govAddr info.vote
        else 0)
      = g.governors.sum fun govAddr _ =>
          (governorVote s g proposalId govAddr).elim 0 (value govAddr) := by
  apply sum_eq_of_termAt
  intro govAddr
  by_cases meets : meetsMinSelfDelegation s g govAddr = true
  · obtain ⟨stored, self⟩ := meets_self ready meets
    obtain ⟨governor, present⟩ := Option.isSome_iff_exists.mp stored
    rw [termAt_of_some present, governorVote, if_pos meets]
    cases voted : ballotOn g proposalId govAddr with
    | none =>
      -- it may have been met through a follower, but it has no vote
      cases met : allGovernors.get? govAddr with
      | none => rw [termAt_of_none met]; rfl
      | some info =>
        have isInfo := held.infos met
        rw [termAt_of_some met, isInfo.vote, if_pos self, voted]
        simp
    | some options =>
      have isMet := (held.met govAddr).mpr ⟨govAddr, by rw [voted]; rfl, self⟩
      obtain ⟨info, met⟩ := Option.isSome_iff_exists.mp isMet
      have isInfo := held.infos met
      rw [termAt_of_some met, isInfo.vote, if_pos self, voted, isInfo.address, meets]
      by_cases empty : options = []
      · simp [empty, Option.filter]
      · simp [empty, Option.filter]
  · have notCounted : governorVote s g proposalId govAddr = none := if_neg meets
    have right : g.governors.termAt (fun govAddr _ =>
        (governorVote s g proposalId govAddr).elim 0 (value govAddr)) govAddr = 0 := by
      cases present : g.governors.get? govAddr with
      | none => exact termAt_of_none present _
      | some governor => rw [termAt_of_some present, notCounted, Option.elim_none]
    rw [right]
    cases met : allGovernors.get? govAddr with
    | none => exact termAt_of_none met _
    | some info =>
      rw [termAt_of_some met, (held.infos met).address, if_neg]
      simp [meets]

/-- A tally returns its value; it can only stop at an active governor that does not
follow itself. -/
theorem tallyVotes_spec :
    Post (tallyVotes A s proposalId currValidators isFinal) g
      (fun result _ => result.1 = tallyValue A s g currValidators proposalId none
        ∧ result.2 = if isFinal then
            some (fun option => tallyValue A s g currValidators proposalId (some option))
          else none)
      (fun _ _ => ¬ SelfDelegated g) := by
  rw [tallyVotes, post_bind]
  apply Post.mono (countVotes_spec ready.staked ready.tracked ready.haveShares ready.filed
    proposalId)
  swap
  · exact fun _ _ impossible => impossible.elim
  rintro tally g' ⟨⟨votes, same⟩, counted⟩
  rw [same, post_bind]
  apply (getCurrGovernors_spec ready votes tally.allGovernors).imp
  rintro governors g'' ⟨same', isGovernors⟩
  rw [same', post_bind]
  -- every governor in the list was met and reads the ballot
  have infos : ∀ info ∈ governors,
      InfoOK s g currValidators (ballotOn g proposalId) info.address info := by
    intro info member
    rw [isGovernors] at member
    obtain ⟨⟨govAddr, found⟩, entry, rfl⟩ := mem_map.mp (mem_filter.mp member).1
    have held := counted.governors.infos (mem_entries.mp entry)
    show InfoOK s g currValidators (ballotOn g proposalId) found.address found
    rw [held.address]
    exact held
  let value : List GovernorGovInfo → Option VoteOption → P := fun rest which =>
    (rest.map fun info => gain A which info.vote
      (residualPower A s g currValidators proposalId info.address)).sum
  have all : ∀ which, directValue A s currValidators (ballotOn g proposalId) which
        + value governors which
      = tallyValue A s g currValidators proposalId which := by
    intro which
    rw [tallyValue, governorsValue]
    congr 1
    simp only [value]
    rw [← sum_allGovernors ready counted.governors (fun govAddr options =>
        gain A which options (residualPower A s g currValidators proposalId govAddr)),
      isGovernors, filter_map, map_map]
    have filtered := tally.allGovernors.sum_filter_entries
      (fun _ info => meetsMinSelfDelegation s g info.address && decide (info.vote ≠ []))
      (fun govAddr info => gain A which info.vote
        (residualPower A s g currValidators proposalId govAddr))
    rw [← filtered]
    congr 1
    apply map_congr_left
    intro entry member
    have held := counted.governors.infos (mem_entries.mp (mem_filter.mp member).1)
    simp only [Function.comp]
    rw [held.address]
  apply Post.mono (post_foldOver
    (fun rest last _ => (∀ info ∈ rest,
        InfoOK s g currValidators (ballotOn g proposalId) info.address info)
      ∧ ∃ soFar : Option VoteOption → P, Totals isFinal soFar last
        ∧ ∀ which, soFar which + value rest which
            = tallyValue A s g currValidators proposalId which) ?_ _ _ _
    ⟨infos, _, counted.totals, all⟩)
  · rintro last _ ⟨_, soFar, totals, complete⟩
    have final : ∀ which, tallyValue A s g currValidators proposalId which = soFar which := by
      intro which
      rw [← complete which]
      simp [value]
    have done := totals.congr final
    exact ⟨done.total, done.results⟩
  · exact fun _ _ impossible => impossible
  · rintro info rest last state ⟨members, soFar, totals, complete⟩
    rw [post_bind]
    apply Post.mono (getGovernorVotingPower_spec ready (members info mem_cons_self))
    · rintro power next ⟨_, isPower⟩
      refine ⟨fun other member => members other (mem_cons_of_mem info member), _,
        totals.count info.vote power, fun which => ?_⟩
      rw [← complete which, isPower]
      simp only [value, map_cons, sum_cons]
      rw [add_assoc]
    · exact fun _ _ impossible => impossible.elim

end Value

end AtomOneSdk.Gov
