import AtomOneSdk.Gov.KeeperSpec
import AtomOneSdk.Gov.Tally

/-!
Contract: what a tally adds up.

Owns: the running totals as sums over the delegations of the voters met so far, the
deductions from their governors, and what is known of each governor when all votes have
been counted.

Does **not** own: which governors are counted in the end.
-/

namespace AtomOneSdk.Gov

open Lib Lib.Action Store Function List
open Staking (Address StakingState Delegation Validator SharesIn)

/-! ## Running totals -/

section Totals

variable {P : Type} [AddCommGroup P] (A : Arithmetic P)

/-- Voting power of shares in a validator; none unless it is bonded. -/
def powerOf (currValidators : Store Address Validator) (valAddr : Address) (shares : Int) : P :=
  match currValidators.get? valAddr with
  | none => 0
  | some val => A.quotient shares val.bondedTokens val.delegatorShares

/-- The part of a voting power that an option gets. -/
def optionPart (options : List WeightedVoteOption) (option : VoteOption) (power : P) : P :=
  (options.map fun weighted =>
    if weighted.option = option then A.part power weighted.weight else 0).sum

/-- What a voting power adds to the total, or to the result of one option. -/
def gain (which : Option VoteOption) (options : List WeightedVoteOption) (power : P) : P :=
  match which with
  | none => power
  | some option => optionPart A options option power

theorem addToOptions_apply (options : List WeightedVoteOption) (power : P)
    (results : VoteOption → P) (option : VoteOption) :
    addToOptions A options power results option
      = results option + optionPart A options option power := by
  unfold addToOptions optionPart
  induction options generalizing results with
  | nil => simp
  | cons weighted rest ih =>
    rw [foldl_cons, ih, map_cons, sum_cons, ← add_assoc]
    congr 1
    by_cases here : weighted.option = option
    · rw [← here, update_self, if_pos rfl]
    · rw [update_of_ne (Ne.symm here), if_neg here, add_zero]

/-- The totals of a tally are the given values. -/
structure Totals (isFinal : Bool) (value : Option VoteOption → P) (tally : TallyState P) :
    Prop where
  total : tally.totalVotingPower = value none
  results : tally.results = if isFinal then some (fun option => value (some option)) else none

variable {A} {isFinal : Bool} {value : Option VoteOption → P} {tally : TallyState P}

theorem Totals.count (held : Totals isFinal value tally) (options : List WeightedVoteOption)
    (power : P) :
    Totals isFinal (fun which => value which + gain A which options power)
      (tally.count A options power) where
  total := by rw [TallyState.count, held.total]; rfl
  results := by
    rw [TallyState.count, held.results]
    cases isFinal with
    | false => rfl
    | true =>
      show some _ = some _
      congr 1
      funext option
      exact addToOptions_apply A options power _ option

omit [AddCommGroup P] in
theorem Totals.congr (held : Totals isFinal value tally) {value' : Option VoteOption → P}
    (agree : ∀ which, value' which = value which) : Totals isFinal value' tally := by
  have same : value' = value := funext agree
  rw [same]
  exact held

end Totals

/-! ## Deductions -/

section Deductions

variable {currValidators : Store Address Validator} {govAddr : Address}

/-- Shares of a list of delegations in a validator, if it is bonded. -/
def bondedListShares (currValidators : Store Address Validator) (delegations : List Delegation)
    (valAddr : Address) : Int :=
  if (currValidators.get? valAddr).isSome then listShares delegations valAddr else 0

/-- The deductions of a governor grow by the given amounts, nothing else changes. -/
structure Deducted (amount : Address → Int) (info info' : GovernorGovInfo) : Prop where
  address : info'.address = info.address
  valShares : info'.valShares = info.valShares
  vote : info'.vote = info.vote
  deductions : ∀ valAddr, info'.valSharesDeductions.get? valAddr
    = (info.valSharesDeductions.get? valAddr).map (· + amount valAddr)

theorem deducted_deduct (info : GovernorGovInfo) (valAddr : Address) (shares : Int) :
    Deducted (fun val => if valAddr = val then shares else 0) info
      (info.deduct valAddr shares) := by
  unfold GovernorGovInfo.deduct
  cases stored : info.valSharesDeductions.get? valAddr with
  | none =>
    refine ⟨rfl, rfl, rfl, fun val => ?_⟩
    by_cases here : valAddr = val
    · rw [← here, stored]
      rfl
    · simp [here]
  | some deduction =>
    refine ⟨rfl, rfl, rfl, fun val => ?_⟩
    dsimp only
    rw [get?_set]
    by_cases here : val = valAddr
    · rw [if_pos here, here, stored]
      simp
    · have other : ¬ valAddr = val := fun same => here same.symm
      simp [here, other]

/-- Deducting a list of a voter's delegations from its governor. -/
theorem deductList_spec (currValidators : Store Address Validator) (delegations : List Delegation)
    {allGovernors : Store Address GovernorGovInfo} {info : GovernorGovInfo}
    (present : allGovernors.get? govAddr = some info) :
    ∃ info', (delegations.filter fun d => (currValidators.get? d.validatorAddress).isSome).foldl
          (deductFromGovernor (some govAddr)) allGovernors
        = allGovernors.set govAddr info'
      ∧ Deducted (bondedListShares currValidators delegations) info info' := by
  induction delegations generalizing allGovernors info with
  | nil =>
    refine ⟨info, (set_eq_self present).symm, rfl, rfl, rfl, fun valAddr => ?_⟩
    simp [bondedListShares, listShares]
  | cons d rest ih =>
    by_cases bonded : (currValidators.get? d.validatorAddress).isSome
    · rw [filter_cons_of_pos (by simpa using bonded), foldl_cons]
      have first : deductFromGovernor (some govAddr) allGovernors d
          = allGovernors.set govAddr (info.deduct d.validatorAddress d.shares) := by
        simp [deductFromGovernor, present]
      rw [first]
      obtain ⟨last, written, later⟩ := ih (@get?_set_self _ _ _ allGovernors
        govAddr (info.deduct d.validatorAddress d.shares))
      have now := deducted_deduct info d.validatorAddress d.shares
      refine ⟨last, by rw [written, Store.set_set], later.address.trans now.address,
        later.valShares.trans now.valShares, later.vote.trans now.vote, fun valAddr => ?_⟩
      rw [later.deductions, now.deductions, Option.map_map]
      congr 1
      funext deduction
      simp only [Function.comp, bondedListShares, listShares_cons]
      by_cases here : d.validatorAddress = valAddr
      · rw [here] at bonded
        simp [here, bonded]
        omega
      · simp [here]
    · rw [filter_cons_of_neg (by simpa using bonded)]
      obtain ⟨last, written, later⟩ := ih present
      refine ⟨last, written, later.address, later.valShares, later.vote, fun valAddr => ?_⟩
      rw [later.deductions]
      congr 1
      funext deduction
      simp only [bondedListShares, listShares_cons]
      by_cases here : d.validatorAddress = valAddr
      · rw [here] at bonded
        simp [bonded]
      · simp [here]

end Deductions

/-! ## One voter -/

section Voter

variable {P : Type} [AddCommGroup P] {A : Arithmetic P}
  {currValidators : Store Address Validator} {g : GovState} {isFinal : Bool}

/-- Every validator that is counted has shares. -/
def HaveShares (currValidators : Store Address Validator) : Prop :=
  ∀ {addr v}, currValidators.get? addr = some v → 0 < v.delegatorShares

theorem sharesPower_spec {val : Validator} (positive : 0 < val.delegatorShares) {shares : Int}
    {holds : P → GovState → Prop} {stops : Fault GovReason → GovState → Prop}
    (returns : holds (A.quotient shares val.bondedTokens val.delegatorShares) g) :
    Post (sharesPower A val shares) g holds stops := by
  rw [sharesPower, post_bind, post_crashIf]
  exact ⟨fun zero => absurd zero positive.ne', fun _ => returns⟩

/-- All delegations of a voter are counted and deducted from its governor. -/
theorem countDelegations_spec (positive : HaveShares currValidators) (governor : Option Address)
    (options : List WeightedVoteOption) (delegations : List Delegation)
    {value : Option VoteOption → P} {tally : TallyState P} (held : Totals isFinal value tally) :
    Post (foldOver (countDelegation A currValidators governor options) delegations tally) g
      (fun last g' => g' = g
        ∧ Totals isFinal (fun which => value which + (delegations.map fun d =>
            gain A which options (powerOf A currValidators d.validatorAddress d.shares)).sum) last
        ∧ last.allGovernors
          = (delegations.filter fun d => (currValidators.get? d.validatorAddress).isSome).foldl
              (deductFromGovernor governor) tally.allGovernors)
      (fun _ _ => False) := by
  induction delegations generalizing value tally with
  | nil => exact ⟨rfl, held.congr fun which => by simp, rfl⟩
  | cons d rest ih =>
    rw [foldOver, post_bind, countDelegation]
    cases bonded : currValidators.get? d.validatorAddress with
    | none =>
      have skipped := held.count (A := A) options 0
      apply (ih skipped).imp
      rintro last g' ⟨same, totals, governors⟩
      refine ⟨same, totals.congr fun which => ?_, ?_⟩
      · rw [map_cons, sum_cons, powerOf, bonded, ← add_assoc]
      · rw [filter_cons_of_neg (by simp [bonded]), governors]
        rfl
    | some val =>
      rw [post_bind]
      apply sharesPower_spec (positive bonded)
      have inTally : Totals isFinal value
          { tally with allGovernors := deductFromGovernor governor tally.allGovernors d } :=
        ⟨held.total, held.results⟩
      apply (ih (inTally.count (A := A) options _)).imp
      rintro last g' ⟨same, totals, governors⟩
      refine ⟨same, totals.congr fun which => ?_, ?_⟩
      · rw [map_cons, sum_cons, powerOf, bonded, ← add_assoc]
      · rw [filter_cons_of_pos (by simp [bonded]), governors]
        rfl

end Voter

/-! ## The walk over the votes -/

/-- The shares tracked for a governor, by validator. -/
def trackedShares (g : GovState) (govAddr : Address) : Store Address Int :=
  (newGovernorGovInfo govAddr (valSharesOf g govAddr) []).valShares

section Walk

variable {s : StakingState} {g : GovState} {currValidators : Store Address Validator}
  {ballot : Address → Option (List WeightedVoteOption)} {expected : Address → Address → Int}

/-- Shares in a validator of a governor's followers that have voted. -/
def votersShares (s : StakingState) (g : GovState)
    (ballot : Address → Option (List WeightedVoteOption)) (govAddr valAddr : Address) : Int :=
  s.delegations.sum fun key d =>
    if key.snd = valAddr ∧ g.governorOf key.fst = some govAddr ∧ (ballot key.fst).isSome
    then d.shares else 0

/-- Of these, what has been deducted. -/
def deductedShares (s : StakingState) (g : GovState) (currValidators : Store Address Validator)
    (ballot : Address → Option (List WeightedVoteOption)) (govAddr valAddr : Address) : Int :=
  if (currValidators.get? valAddr).isSome then votersShares s g ballot govAddr valAddr else 0

/-- What is recorded of a governor when the votes of a ballot have been counted. -/
structure InfoOK (s : StakingState) (g : GovState) (currValidators : Store Address Validator)
    (ballot : Address → Option (List WeightedVoteOption)) (govAddr : Address)
    (info : GovernorGovInfo) : Prop where
  address : info.address = govAddr
  valShares : info.valShares = trackedShares g govAddr
  deductions : ∀ valAddr, info.valSharesDeductions.get? valAddr
    = ((trackedShares g govAddr).get? valAddr).map fun _ =>
        deductedShares s g currValidators ballot govAddr valAddr
  vote : info.vote = if g.governorOf govAddr = some govAddr then (ballot govAddr).getD [] else []

/-- The governors met are those of the voters. -/
structure GovernorsOK (s : StakingState) (g : GovState) (currValidators : Store Address Validator)
    (ballot : Address → Option (List WeightedVoteOption))
    (allGovernors : Store Address GovernorGovInfo) : Prop where
  met : ∀ govAddr, (allGovernors.get? govAddr).isSome
    ↔ ∃ voter, (ballot voter).isSome ∧ g.governorOf voter = some govAddr
  infos : ∀ {govAddr info}, allGovernors.get? govAddr = some info →
    InfoOK s g currValidators ballot govAddr info

theorem mem_valSharesOf {record : GovernorValShares} {govAddr : Address} :
    record ∈ valSharesOf g govAddr
      ↔ ∃ valAddr, g.validatorSharesByGovernor.get? ⟨govAddr, valAddr⟩ = some record := by
  unfold valSharesOf
  constructor
  · intro member
    obtain ⟨⟨⟨gov, val⟩, found⟩, inEntries, rfl⟩ := mem_map.mp member
    obtain ⟨entry, here⟩ := mem_filter.mp inEntries
    have isGov : gov = govAddr := by simpa using here
    refine ⟨val, ?_⟩
    rw [← isGov]
    exact mem_entries.mp entry
  · rintro ⟨valAddr, stored⟩
    apply mem_map.mpr
    exact ⟨(⟨govAddr, valAddr⟩, record),
      mem_filter.mpr ⟨mem_entries.mpr stored, by simp⟩, rfl⟩

variable (tracked : Tracked expected g.validatorSharesByGovernor)

include tracked

/-- The records of a governor, read into a map by validator. -/
theorem get?_valShares_map {V : Type} (value : GovernorValShares → V) (govAddr valAddr : Address) :
    ((valSharesOf g govAddr).foldl (fun current valShare =>
        current.set valShare.validatorAddress (value valShare)) (∅ : Store Address V)).get? valAddr
      = (g.validatorSharesByGovernor.get? ⟨govAddr, valAddr⟩).map value := by
  have filed : ∀ record ∈ valSharesOf g govAddr,
      g.validatorSharesByGovernor.get? ⟨govAddr, record.validatorAddress⟩ = some record := by
    intro record member
    obtain ⟨val, stored⟩ := mem_valSharesOf.mp member
    have address : record.validatorAddress = val := (tracked.filed stored).2
    rw [address]
    exact stored
  cases stored : g.validatorSharesByGovernor.get? ⟨govAddr, valAddr⟩ with
  | none =>
    rw [get?_foldl_set_of_not_mem GovernorValShares.validatorAddress value]
    · rfl
    · intro record member here
      have present := filed record member
      rw [here, stored] at present
      cases present
  | some record =>
    have address : record.validatorAddress = valAddr := (tracked.filed stored).2
    have member : record ∈ valSharesOf g govAddr := mem_valSharesOf.mpr ⟨valAddr, stored⟩
    rw [← address, get?_foldl_set_of_mem GovernorValShares.validatorAddress value _ _ member]
    · rfl
    · intro other inList same
      have present := filed other inList
      rw [same, filed record member] at present
      rw [Option.some.inj present]

theorem get?_trackedShares (govAddr valAddr : Address) :
    (trackedShares g govAddr).get? valAddr
      = (g.validatorSharesByGovernor.get? ⟨govAddr, valAddr⟩).map GovernorValShares.shares :=
  get?_valShares_map tracked _ govAddr valAddr

/-- A governor that is met for the first time. -/
theorem infoOK_new {govAddr : Address}
    (unmet : ∀ voter, (ballot voter).isSome → g.governorOf voter ≠ some govAddr) :
    InfoOK s g currValidators ballot govAddr
      (newGovernorGovInfo govAddr (valSharesOf g govAddr) []) where
  address := rfl
  valShares := rfl
  deductions := by
    intro valAddr
    have none_ : deductedShares s g currValidators ballot govAddr valAddr = 0 := by
      unfold deductedShares votersShares
      rw [Store.sum_eq_zero]
      · simp
      · intro key d _
        apply if_neg
        rintro ⟨_, follows, voted⟩
        exact unmet key.fst voted follows
    rw [none_, get?_trackedShares tracked, Option.map_map]
    exact get?_valShares_map tracked (fun _ => (0 : Int)) govAddr valAddr
  vote := by
    by_cases self : g.governorOf govAddr = some govAddr
    · rw [if_pos self]
      cases voted : ballot govAddr with
      | none => rfl
      | some options => exact absurd self (unmet govAddr (by rw [voted]; rfl))
    · rw [if_neg self]
      rfl

omit tracked

variable {pending : Address → Int} (ok : SharesIn pending s)

include ok

variable {voter : Address} {info : GovernorGovInfo} {vote : Vote}
  {allGovernors : Store Address GovernorGovInfo}

/-- One more voter: its shares join those of its governor's voters. -/
theorem votersShares_update (fresh : ballot voter = none) (options : List WeightedVoteOption)
    (govAddr valAddr : Address) :
    votersShares s g (Function.update ballot voter (some options)) govAddr valAddr
      = votersShares s g ballot govAddr valAddr
        + if g.governorOf voter = some govAddr then listShares (delegationsOf s voter) valAddr
          else 0 := by
  have own : (if g.governorOf voter = some govAddr then listShares (delegationsOf s voter) valAddr
      else 0) = s.delegations.sum fun key d =>
        if key.fst = voter then
          (if key.snd = valAddr ∧ g.governorOf voter = some govAddr then d.shares else 0)
        else 0 := by
    by_cases follows : g.governorOf voter = some govAddr
    · rw [if_pos follows, listShares, sum_delegationsOf]
      apply sum_congr
      intro key d stored
      simp [follows, (ok.delegationKey stored).2]
    · rw [if_neg follows, Store.sum_eq_zero]
      intro key d _
      simp [follows]
  rw [own]
  unfold votersShares
  rw [← sum_add]
  apply sum_congr
  intro key d _
  by_cases here : key.fst = voter
  · simp [here, fresh]
  · simp [here]

/-- A governor none of whose followers has just voted. -/
theorem InfoOK.unaffected {govAddr : Address} (held : InfoOK s g currValidators ballot govAddr info)
    (fresh : ballot voter = none) (options : List WeightedVoteOption)
    (apart : g.governorOf voter ≠ some govAddr) :
    InfoOK s g currValidators (Function.update ballot voter (some options)) govAddr info where
  address := held.address
  valShares := held.valShares
  deductions := by
    intro valAddr
    rw [held.deductions]
    unfold deductedShares
    rw [votersShares_update ok fresh options, if_neg apart, add_zero]
  vote := by
    rw [held.vote]
    by_cases self : g.governorOf govAddr = some govAddr
    · have other : govAddr ≠ voter := by
        intro same
        rw [same] at self apart
        exact apart self
      rw [if_pos self, if_pos self, update_of_ne other]
    · rw [if_neg self, if_neg self]

/-- The voter's governor, once its record is updated and the voter's delegations deducted. -/
theorem InfoOK.voted {govAddr : Address} {info' : GovernorGovInfo}
    (held : InfoOK s g currValidators ballot govAddr info) (fresh : ballot vote.voter = none)
    (follows : g.governorOf vote.voter = some govAddr)
    (deducted : Deducted (bondedListShares currValidators (delegationsOf s vote.voter))
      (if govAddr = vote.voter then { info with vote := vote.options } else info) info') :
    InfoOK s g currValidators (Function.update ballot vote.voter (some vote.options)) govAddr
      info' where
  address := by
    rw [deducted.address]
    split_ifs <;> exact held.address
  valShares := by
    rw [deducted.valShares]
    split_ifs <;> exact held.valShares
  deductions := by
    intro valAddr
    have before : (if govAddr = vote.voter then { info with vote := vote.options }
        else info).valSharesDeductions = info.valSharesDeductions := by
      split_ifs <;> rfl
    rw [deducted.deductions, before, held.deductions, Option.map_map]
    congr 1
    funext _
    simp only [Function.comp, deductedShares, bondedListShares]
    rw [votersShares_update ok fresh, if_pos follows]
    split_ifs <;> omega
  vote := by
    rw [deducted.vote]
    by_cases self : govAddr = vote.voter
    · subst self
      rw [if_pos rfl, if_pos follows, update_self]
      rfl
    · rw [if_neg self, held.vote, update_of_ne self]

theorem GovernorsOK.unfollowed (held : GovernorsOK s g currValidators ballot allGovernors)
    (fresh : ballot voter = none) (options : List WeightedVoteOption)
    (follows : g.governorOf voter = none) :
    GovernorsOK s g currValidators (Function.update ballot voter (some options)) allGovernors where
  met := by
    intro govAddr
    rw [held.met]
    constructor
    · rintro ⟨other, voted, isGov⟩
      have apart : other ≠ voter := by
        intro same
        rw [same, follows] at isGov
        cases isGov
      exact ⟨other, by rw [update_of_ne apart]; exact voted, isGov⟩
    · rintro ⟨other, voted, isGov⟩
      have apart : other ≠ voter := by
        intro same
        rw [same, follows] at isGov
        cases isGov
      rw [update_of_ne apart] at voted
      exact ⟨other, voted, isGov⟩
  infos := by
    intro govAddr info present
    apply (held.infos present).unaffected ok fresh
    rw [follows]
    exact fun impossible => by cases impossible

theorem GovernorsOK.followed (tracked : Tracked expected g.validatorSharesByGovernor)
    (held : GovernorsOK s g currValidators ballot allGovernors) {govAddr : Address}
    (fresh : ballot vote.voter = none) (follows : g.governorOf vote.voter = some govAddr) :
    GovernorsOK s g currValidators (Function.update ballot vote.voter (some vote.options))
      (((delegationsOf s vote.voter).filter fun d =>
          (currValidators.get? d.validatorAddress).isSome).foldl
        (deductFromGovernor (some govAddr))
        (allGovernors.set govAddr (governorInfo g allGovernors vote govAddr))) := by
  -- the record the voter's governor had, or a new one
  have known : InfoOK s g currValidators ballot govAddr ((allGovernors.get? govAddr).getD
      (newGovernorGovInfo govAddr (valSharesOf g govAddr) [])) := by
    cases present : allGovernors.get? govAddr with
    | some info => exact held.infos present
    | none =>
      apply infoOK_new tracked
      intro voter voted isGov
      have isMet := (held.met govAddr).mpr ⟨voter, voted, isGov⟩
      rw [present] at isMet
      cases isMet
  obtain ⟨info', written, deducted⟩ := deductList_spec currValidators
    (delegationsOf s vote.voter) (@get?_set_self _ _ _ allGovernors govAddr
      (governorInfo g allGovernors vote govAddr))
  rw [written, Store.set_set]
  constructor
  · intro gov
    rw [get?_set]
    by_cases here : gov = govAddr
    · rw [if_pos here, here]
      refine ⟨fun _ => ⟨vote.voter, ?_, follows⟩, fun _ => rfl⟩
      rw [update_self]
      rfl
    · rw [if_neg here, held.met]
      have apart : ∀ {other}, g.governorOf other = some gov → other ≠ vote.voter := by
        intro other isGov same
        rw [same, follows] at isGov
        exact here (Option.some.inj isGov).symm
      constructor
      · rintro ⟨other, voted, isGov⟩
        exact ⟨other, by rw [update_of_ne (apart isGov)]; exact voted, isGov⟩
      · rintro ⟨other, voted, isGov⟩
        rw [update_of_ne (apart isGov)] at voted
        exact ⟨other, voted, isGov⟩
  · intro gov info present
    rcases get?_set_cases present with ⟨here, isInfo⟩ | ⟨apart, old⟩
    · rw [here, isInfo]
      exact known.voted ok fresh follows deducted
    · apply (held.infos old).unaffected ok fresh
      rw [follows]
      exact fun same => apart (Option.some.inj same).symm

/-! ## All votes -/

variable {P : Type} [AddCommGroup P] {A : Arithmetic P} {isFinal : Bool}

/-- What the delegations of the voters add up to. -/
def directValue (A : Arithmetic P) (s : StakingState) (currValidators : Store Address Validator)
    (ballot : Address → Option (List WeightedVoteOption)) (which : Option VoteOption) : P :=
  s.delegations.sum fun key d =>
    (ballot key.fst).elim 0 fun options =>
      gain A which options (powerOf A currValidators key.snd d.shares)

theorem directValue_update (fresh : ballot voter = none) (options : List WeightedVoteOption)
    (which : Option VoteOption) :
    directValue A s currValidators (Function.update ballot voter (some options)) which
      = directValue A s currValidators ballot which
        + ((delegationsOf s voter).map fun d =>
            gain A which options (powerOf A currValidators d.validatorAddress d.shares)).sum := by
  unfold directValue
  rw [sum_delegationsOf, ← sum_add]
  apply sum_congr
  intro key d stored
  by_cases here : key.fst = voter
  · simp [here, fresh, (ok.delegationKey stored).2]
  · simp [here]

/-- The totals and the governors met, after the votes of a ballot. -/
structure Counted (A : Arithmetic P) (s : StakingState) (g : GovState)
    (currValidators : Store Address Validator) (isFinal : Bool)
    (ballot : Address → Option (List WeightedVoteOption)) (tally : TallyState P) : Prop where
  totals : Totals isFinal (directValue A s currValidators ballot) tally
  governors : GovernorsOK s g currValidators ballot tally.allGovernors

theorem countVote_spec (tracked : Tracked expected g.validatorSharesByGovernor)
    (positive : HaveShares currValidators) {votes : Store (Pair Nat Address) Vote}
    {tally : TallyState P} (held : Counted A s g currValidators isFinal ballot tally)
    (fresh : ballot vote.voter = none) :
    Post (countVote A s currValidators isFinal tally vote) { g with votes := votes }
      (fun last g' => (∃ votes', g' = { g with votes := votes' })
        ∧ Counted A s g currValidators isFinal
            (Function.update ballot vote.voter (some vote.options)) last)
      (fun _ _ => False) := by
  -- removing the vote is the only write
  have finished : ∀ (last : TallyState P), Counted A s g currValidators isFinal
        (Function.update ballot vote.voter (some vote.options)) last →
      Post (do
        whenever (isFinal = true)
          (modify fun g => { g with votes := g.votes.delete ⟨vote.proposalId, vote.voter⟩ })
        pure last : GovM (TallyState P)) { g with votes := votes }
      (fun last g' => (∃ votes', g' = { g with votes := votes' })
        ∧ Counted A s g currValidators isFinal
            (Function.update ballot vote.voter (some vote.options)) last)
      (fun _ _ => False) := by
    intro last counted
    rw [post_bind, post_whenever]
    exact ⟨fun _ => ⟨⟨_, rfl⟩, counted⟩, fun _ => ⟨⟨votes, rfl⟩, counted⟩⟩
  rw [countVote, post_bind, post_get]
  dsimp only
  rw [show GovState.governorOf { g with votes := votes } vote.voter
    = g.governorOf vote.voter from rfl, post_bind]
  cases follows : g.governorOf vote.voter with
  | none =>
    apply (countDelegations_spec positive none vote.options (delegationsOf s vote.voter)
      held.totals).imp
    rintro last g' ⟨same, totals, governors⟩
    rw [same]
    apply finished
    refine ⟨totals.congr fun which => directValue_update ok fresh vote.options which, ?_⟩
    have unchanged : last.allGovernors = tally.allGovernors := by
      rw [governors]
      exact foldl_fixed' (fun _ => rfl) _
    rw [unchanged]
    exact held.governors.unfollowed ok fresh vote.options follows
  | some govAddr =>
    have opened : Totals isFinal (directValue A s currValidators ballot)
        { tally with
          allGovernors := tally.allGovernors.set govAddr
            (governorInfo g tally.allGovernors vote govAddr) } :=
      ⟨held.totals.total, held.totals.results⟩
    apply (countDelegations_spec positive (some govAddr) vote.options
      (delegationsOf s vote.voter) opened).imp
    rintro last g' ⟨same, totals, governors⟩
    rw [same]
    apply finished
    refine ⟨totals.congr fun which => directValue_update ok fresh vote.options which, ?_⟩
    rw [governors]
    exact held.governors.followed ok tracked fresh follows

def ballotOn (g : GovState) (proposalId : Nat) (voter : Address) :
    Option (List WeightedVoteOption) :=
  (g.votes.get? ⟨proposalId, voter⟩).map Vote.options

/-- Votes are stored under their proposal and voter. -/
def VotesFiled (g : GovState) : Prop :=
  ∀ {key vote}, g.votes.get? key = some vote → key = ⟨vote.proposalId, vote.voter⟩

omit ok in
theorem mem_votesOn (filed : VotesFiled g) {proposalId : Nat} :
    vote ∈ votesOn g proposalId ↔ g.votes.get? ⟨proposalId, vote.voter⟩ = some vote := by
  unfold votesOn
  constructor
  · intro member
    obtain ⟨⟨key, found⟩, inEntries, rfl⟩ := mem_map.mp member
    obtain ⟨entry, here⟩ := mem_filter.mp inEntries
    have stored := mem_entries.mp entry
    have isKey := filed stored
    have isProposal : key.fst = proposalId := by simpa using here
    show g.votes.get? ⟨proposalId, found.voter⟩ = some found
    rw [← isProposal, show (⟨key.fst, found.voter⟩ : Pair Nat Address) = key by rw [isKey]]
    exact stored
  · intro stored
    apply mem_map.mpr
    exact ⟨(⟨proposalId, vote.voter⟩, vote),
      mem_filter.mpr ⟨mem_entries.mpr stored, by simp⟩, rfl⟩

omit ok in
theorem votesOn_voters_nodup (filed : VotesFiled g) (proposalId : Nat) :
    ((votesOn g proposalId).map Vote.voter).Nodup := by
  unfold votesOn
  rw [map_map, List.Nodup, pairwise_map]
  have apart : g.votes.entries.Pairwise fun left right => left.1 ≠ right.1 :=
    pairwise_map.mp g.votes.keys_nodup
  apply ((apart.filter _).imp_of_mem)
  intro left right inLeft inRight different same
  obtain ⟨leftEntry, leftHere⟩ := mem_filter.mp inLeft
  obtain ⟨rightEntry, rightHere⟩ := mem_filter.mp inRight
  apply different
  have isLeft := filed (mem_entries.mp leftEntry)
  have isRight := filed (mem_entries.mp rightEntry)
  have leftProposal : left.1.fst = proposalId := by simpa using leftHere
  have rightProposal : right.1.fst = proposalId := by simpa using rightHere
  have sameVoter : left.2.voter = right.2.voter := same
  rw [isLeft] at leftProposal
  rw [isRight] at rightProposal
  dsimp only at leftProposal rightProposal
  rw [isLeft, isRight, sameVoter, leftProposal, rightProposal]

/-- After the walk every vote on the proposal has been counted. -/
theorem countVotes_spec
    (tracked : Tracked expected g.validatorSharesByGovernor) (positive : HaveShares currValidators)
    (filed : VotesFiled g) (proposalId : Nat) :
    Post (countVotes A s proposalId currValidators isFinal) g
      (fun tally g' => (∃ votes', g' = { g with votes := votes' })
        ∧ Counted A s g currValidators isFinal (ballotOn g proposalId) tally)
      (fun _ _ => False) := by
  -- what has been counted when some votes are left
  let sofar : List Vote → Address → Option (List WeightedVoteOption) := fun rest voter =>
    if voter ∈ rest.map Vote.voter then none else ballotOn g proposalId voter
  rw [countVotes, post_bind, post_get]
  apply Post.imp (post_foldOver
    (fun rest tally g' => (∃ votes', g' = { g with votes := votes' })
      ∧ Counted A s g currValidators isFinal (sofar rest) tally
      ∧ (rest.map Vote.voter).Nodup
      ∧ ∀ vote ∈ rest, ballotOn g proposalId vote.voter = some vote.options) ?_ _ _ _ ?_)
  · rintro tally g' ⟨same, counted, _, _⟩
    have all : sofar [] = ballotOn g proposalId := by
      funext voter
      simp [sofar]
    rw [all] at counted
    exact ⟨same, counted⟩
  · rintro vote rest tally g' ⟨⟨votes, same⟩, counted, nodup, members⟩
    rw [map_cons, nodup_cons] at nodup
    have fresh : sofar (vote :: rest) vote.voter = none := by
      simp [sofar]
    have next : Function.update (sofar (vote :: rest)) vote.voter (some vote.options)
        = sofar rest := by
      funext voter
      by_cases here : voter = vote.voter
      · rw [here, update_self]
        simp only [sofar, if_neg nodup.1]
        exact (members vote mem_cons_self).symm
      · rw [update_of_ne here]
        simp only [sofar, map_cons, mem_cons, here, false_or]
    rw [same]
    apply (countVote_spec ok tracked positive counted fresh).imp
    rintro last g'' ⟨sameLast, countedLast⟩
    rw [next] at countedLast
    exact ⟨sameLast, countedLast, nodup.2,
      fun other member => members other (mem_cons_of_mem vote member)⟩
  · have nobody : sofar (votesOn g proposalId) = fun _ => none := by
      funext voter
      by_cases member : voter ∈ (votesOn g proposalId).map Vote.voter
      · simp only [sofar, if_pos member]
      · simp only [sofar, if_neg member, ballotOn]
        cases stored : g.votes.get? ⟨proposalId, voter⟩ with
        | none => rfl
        | some vote =>
          have isVoter : voter = vote.voter := congrArg Pair.snd (filed stored)
          rw [isVoter] at member stored
          exact absurd (mem_map.mpr ⟨vote, (mem_votesOn filed).mpr stored, rfl⟩) member
    refine ⟨⟨g.votes, rfl⟩, ?_, votesOn_voters_nodup filed proposalId, ?_⟩
    · rw [nobody]
      constructor
      · have zero : ∀ which, directValue A s currValidators (fun _ => none) which = 0 :=
          fun which => Store.sum_eq_zero fun _ _ _ => rfl
        constructor
        · exact (zero none).symm
        · cases isFinal with
          | false => rfl
          | true =>
            show some _ = some _
            congr 1
            funext option
            exact (zero (some option)).symm
      · constructor
        · intro govAddr
          simp
        · intro govAddr info present
          cases present
    · intro vote member
      rw [ballotOn, (mem_votesOn filed).mp member]
      rfl

end Walk

end AtomOneSdk.Gov
