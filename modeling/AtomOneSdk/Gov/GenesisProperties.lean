import AtomOneSdk.Gov.Genesis
import AtomOneSdk.Gov.TallyValue
import AtomOneSdk.Staking.Properties

/-!
Contract: importing an export of the governors rebuilds the governor collections.

Owns: the invariant of the two loops, which states come back from the round trip, and the
state of a governor that became inactive, which comes back into the index of active
governors.

Does **not** own: how a state comes to satisfy the governor invariants.
-/

namespace AtomOneSdk.Gov

open Lib Lib.Action Store List
open Staking (Address StakingState Delegation Validator SharesOK SharesSettled)

/-! ## What is restored, and when -/

/-- The collections of governors that an import is to restore. -/
structure GovernorsRestored (g h : GovState) : Prop where
  governors : h.governors = g.governors
  delegations : h.governanceDelegations = g.governanceDelegations
  byGovernor : h.governanceDelegationsByGovernor = g.governanceDelegationsByGovernor
  shares : h.validatorSharesByGovernor = g.validatorSharesByGovernor
  index : h.activeGovernorsByDelegatedValidator = g.activeGovernorsByDelegatedValidator
  activeOnly : ∀ {valAddr govAddr},
    (h.activeGovernorsByDelegatedValidator.get? ⟨valAddr, govAddr⟩).isSome →
      isActiveGovernor h govAddr = true

/-- What the import relies on beyond the invariants: the accounts exist, the active
governors meet the present minimum, and a governor that delegates to itself and has stake
is active. -/
structure Importable (s : StakingState) (hasAccount : Address → Bool) (g : GovState) :
    Prop where
  governorAccount : ∀ {addr}, (g.governors.get? addr).isSome → hasAccount addr = true
  delegatorAccount : ∀ {addr}, (g.governanceDelegations.get? addr).isSome → hasAccount addr = true
  minimum : ∀ {addr}, isActiveGovernor g addr = true →
    g.params.minGovernorSelfDelegation ≤ bondedTokensOf s addr
  selfDelegated : ∀ {addr valAddr}, g.governorOf addr = some addr →
    (s.delegations.get? ⟨addr, valAddr⟩).isSome → isActiveGovernor g addr = true

section RoundTrip

variable {s : StakingState} {g : GovState}

/-! ## The invariant of the loops -/

/-- The delegations of the accounts in `done` are restored, and no others. The index is
rebuilt from the self-delegations alone: no status is read. -/
structure Restored (s : StakingState) (hasAccount : Address → Bool) (g : GovState)
    (done : Address → Prop) (h : GovState) : Prop where
  delegations : ∀ {delAddr delegation},
    h.governanceDelegations.get? delAddr = some delegation
      ↔ done delAddr ∧ g.governanceDelegations.get? delAddr = some delegation
  byGovernor : ∀ {govAddr delAddr delegation},
    h.governanceDelegationsByGovernor.get? ⟨govAddr, delAddr⟩ = some delegation
      ↔ done delAddr ∧ g.governanceDelegationsByGovernor.get? ⟨govAddr, delAddr⟩ = some delegation
  index : ∀ {valAddr govAddr},
    (h.activeGovernorsByDelegatedValidator.get? ⟨valAddr, govAddr⟩).isSome
      ↔ done govAddr ∧ g.governorOf govAddr = some govAddr
        ∧ (s.delegations.get? ⟨govAddr, valAddr⟩).isSome
  accounts : ∀ {delAddr}, (h.governanceDelegations.get? delAddr).isSome →
    hasAccount delAddr = true
  shares : Tracked (governorShares s.delegations h.governorOf) h.validatorSharesByGovernor

namespace Restored

variable {hasAccount : Address → Bool} {done done' : Address → Prop} {h h' : GovState}

/-- The invariant is about the accounts, not about how they are described. -/
theorem congr (restored : Restored s hasAccount g done h) (same : ∀ addr, done addr ↔ done' addr) :
    Restored s hasAccount g done' h := by
  have equal : done = done' := funext fun addr => propext (same addr)
  rw [← equal]
  exact restored

theorem setGovernor (restored : Restored s hasAccount g done h) (governor : Governor) :
    Restored s hasAccount g done (h.setGovernor governor) :=
  ⟨restored.delegations, restored.byGovernor, restored.index, restored.accounts, restored.shares⟩

theorem governorOf_eq_none (restored : Restored s hasAccount g done h) {delAddr : Address}
    (fresh : ¬ done delAddr) : h.governorOf delAddr = none := by
  cases found : h.governanceDelegations.get? delAddr with
  | none => simp [GovState.governorOf, found]
  | some delegation => exact absurd (restored.delegations.mp found).1 fresh

end Restored

variable {valAddr addr : Address} {hasAccount : Address → Bool} {governor : Governor}
  {rest : List Governor} {activeGovernors : List Address}

/-- The index lists the active governors under the validators they have stake in; an active
governor is delegated to itself. -/
theorem GovOK.listed_iff (gov : GovSettled s g) :
    (g.activeGovernorsByDelegatedValidator.get? ⟨valAddr, addr⟩).isSome
      ↔ isActiveGovernor g addr = true ∧ g.governorOf addr = some addr
        ∧ (s.delegations.get? ⟨addr, valAddr⟩).isSome := by
  constructor
  · intro listed
    have active := gov.index.active (by simp) listed
    exact ⟨active, gov.registry.self nofun active, gov.index.staked listed⟩
  · rintro ⟨active, _, staked⟩
    exact gov.index.listed nofun active staked

section Delegation

variable {done : Address → Prop} {h h' : GovState} {delAddr govAddr : Address}
  (restored : Restored s hasAccount g done h)
  (stored : g.governanceDelegations.get? delAddr = some ⟨delAddr, govAddr⟩)
  (fresh : ¬ done delAddr)

include restored stored fresh

theorem Restored.byGovernor_delegated (gov : GovSettled s g)
    (delegated : Delegated s delAddr govAddr h h') {other : Address}
    {delegation : GovernanceDelegation} :
    h'.governanceDelegationsByGovernor.get? ⟨other, addr⟩ = some delegation
      ↔ (done addr ∨ addr = delAddr)
        ∧ g.governanceDelegationsByGovernor.get? ⟨other, addr⟩ = some delegation := by
  rw [delegated.byGovernor, get?_set]
  by_cases here : addr = delAddr
  · -- under any other governor the delegator has nothing, before and after
    have mirrored := @RegistryOK.mirror none g gov.registry other delAddr delegation
    rw [stored] at mirrored
    by_cases same : other = govAddr
    · subst here same
      rw [if_pos rfl, gov.registry.mirror.mpr ⟨stored, rfl⟩]
      simp
    · rw [if_neg fun equal => same (congrArg Pair.fst equal), restored.byGovernor, here, mirrored]
      constructor
      · rintro ⟨early, _⟩
        exact absurd early fresh
      · rintro ⟨_, isStored, filed⟩
        rw [← Option.some.inj isStored] at filed
        exact absurd filed.symm same
  · rw [if_neg fun equal => here (congrArg Pair.snd equal), restored.byGovernor]
    simp [here]

theorem Restored.index_delegated (ok : SharesSettled s)
    (delegated : Delegated s delAddr govAddr h h') :
    (h'.activeGovernorsByDelegatedValidator.get? ⟨valAddr, addr⟩).isSome
      ↔ (done addr ∨ addr = delAddr) ∧ g.governorOf addr = some addr
        ∧ (s.delegations.get? ⟨addr, valAddr⟩).isSome := by
  have follows : g.governorOf delAddr = some govAddr := by simp [GovState.governorOf, stored]
  rw [delegated.index]
  by_cases self : delAddr = govAddr
  · rw [if_pos self, get?_foldl_set]
    by_cases here : addr = delAddr
    · -- the keys written are the validators the governor has stake in
      have written := @mem_indexKeys s _ delAddr govAddr ok valAddr delAddr
      have unlisted : ¬ (h.activeGovernorsByDelegatedValidator.get?
          ⟨valAddr, delAddr⟩).isSome := fun early => fresh (restored.index.mp early).1
      rw [here]
      by_cases staked : (s.delegations.get? ⟨delAddr, valAddr⟩).isSome
      · rw [if_pos (written.mpr ⟨self, staked⟩)]
        exact ⟨fun _ => ⟨Or.inr rfl, by rw [follows, self], staked⟩, fun _ => rfl⟩
      · rw [if_neg (fun member => staked (written.mp member).2)]
        simp [staked, unlisted]
    · have notWritten : (⟨valAddr, addr⟩ : Pair Address Address)
          ∉ indexKeys (delegationsOf s delAddr) govAddr := by
        intro member
        exact here (((mem_indexKeys ok).mp member).1.trans self.symm)
      rw [if_neg notWritten, restored.index]
      simp [here]
  · rw [if_neg self, restored.index]
    constructor
    · rintro ⟨early, listed⟩
      exact ⟨Or.inl early, listed⟩
    · rintro ⟨covered, selfDelegated, staked⟩
      cases covered with
      | inl early => exact ⟨early, selfDelegated, staked⟩
      | inr here =>
        rw [here, follows] at selfDelegated
        exact absurd (Option.some.inj selfDelegated).symm self

theorem delegateToGovernor_restores (ok : SharesSettled s) (gov : GovSettled s g)
    (account : hasAccount delAddr = true) :
    Post (delegateToGovernor s delAddr govAddr) h
      (fun _ h' => Restored s hasAccount g (fun addr => done addr ∨ addr = delAddr) h'
        ∧ h'.governors = h.governors) (fun _ _ => False) := by
  apply (delegateToGovernor_spec ok restored.shares (restored.governorOf_eq_none fresh)).imp
  intro _ h' delegated
  refine ⟨⟨?_, restored.byGovernor_delegated stored fresh gov delegated,
    restored.index_delegated stored fresh ok delegated, ?_, delegated.shares⟩, delegated.governors⟩
  · intro addr delegation
    rw [delegated.delegations, get?_set]
    by_cases here : addr = delAddr
    · simp [here, stored]
    · simp [here, restored.delegations]
  · intro addr
    rw [delegated.delegations, get?_set]
    by_cases here : addr = delAddr
    · simp [here, account]
    · simpa [here] using restored.accounts

end Delegation

/-! ## The loop over governors -/

/-- What `InitGenesis` asks of a governor it accepts. -/
def Accepted (s : StakingState) (hasAccount : Address → Bool) (g : GovState)
    (governor : Governor) : Prop :=
  hasAccount governor.governorAddress = true ∧ (governor.isActive = true →
    g.params.minGovernorSelfDelegation ≤ bondedTokensOf s governor.governorAddress)

/-- The governors in `rest` are still to come; the others were accepted, and the active ones
of them have been delegated to themselves. -/
structure GovernorsLoop (s : StakingState) (hasAccount : Address → Bool) (g : GovState)
    (rest : List Governor) (activeGovernors : List Address) (h : GovState) : Prop where
  distinct : (rest.map Governor.governorAddress).Nodup
  members : ∀ governor ∈ rest, g.governors.get? governor.governorAddress = some governor
  governors : ∀ {addr governor}, h.governors.get? addr = some governor
    ↔ g.governors.get? addr = some governor ∧ addr ∉ rest.map Governor.governorAddress
  accepted : ∀ {addr governor}, h.governors.get? addr = some governor →
    Accepted s hasAccount g governor
  active : ∀ {addr}, addr ∈ activeGovernors
    ↔ isActiveGovernor g addr = true ∧ addr ∉ rest.map Governor.governorAddress
  restored : Restored s hasAccount g
    (fun addr => isActiveGovernor g addr = true ∧ addr ∉ rest.map Governor.governorAddress) h

/-- Taking a governor off the list adds it to those that are through. -/
theorem passed_cons (distinct : ((governor :: rest).map Governor.governorAddress).Nodup)
    (addr : Address) :
    addr ∉ rest.map Governor.governorAddress
      ↔ addr ∉ (governor :: rest).map Governor.governorAddress
        ∨ addr = governor.governorAddress := by
  rw [map_cons, nodup_cons] at distinct
  rw [map_cons, mem_cons]
  by_cases here : addr = governor.governorAddress
  · simp [here, distinct.1]
  · simp [here]

/-- The registered governors after the next one is set. -/
theorem GovernorsLoop.setGovernor {h : GovState}
    (loop : GovernorsLoop s hasAccount g (governor :: rest) activeGovernors h) {found : Governor} :
    (h.setGovernor governor).governors.get? addr = some found
      ↔ g.governors.get? addr = some found ∧ addr ∉ rest.map Governor.governorAddress := by
  have stored := loop.members governor mem_cons_self
  rw [passed_cons loop.distinct, GovState.setGovernor, get?_set]
  by_cases here : addr = governor.governorAddress
  · simp [here, stored]
  · simp [here, loop.governors]

theorem GovernorsLoop.setGovernor_accepted {h : GovState}
    (loop : GovernorsLoop s hasAccount g (governor :: rest) activeGovernors h)
    (accepted : Accepted s hasAccount g governor) {found : Governor}
    (stored : (h.setGovernor governor).governors.get? addr = some found) :
    Accepted s hasAccount g found := by
  rw [GovState.setGovernor, get?_set] at stored
  split at stored
  · cases stored
    exact accepted
  · exact loop.accepted stored

theorem Importable.accepted (importable : Importable s hasAccount g)
    (stored : g.governors.get? governor.governorAddress = some governor) :
    Accepted s hasAccount g governor := by
  refine ⟨importable.governorAccount (Option.isSome_of_eq_some stored), fun active => ?_⟩
  exact importable.minimum (isActiveGovernor_iff.mpr ⟨governor, stored, active⟩)

/-- A round accepts its governor, or the state is not importable. -/
theorem initGovernor_spec (ok : SharesSettled s) (gov : GovSettled s g) {h : GovState}
    (loop : GovernorsLoop s hasAccount g (governor :: rest) activeGovernors h) :
    Post (initGovernor s hasAccount g.params.minGovernorSelfDelegation activeGovernors governor) h
      (fun activeGovernors' h' => GovernorsLoop s hasAccount g rest activeGovernors' h')
      (fun _ _ => ¬ Importable s hasAccount g) := by
  have stored := loop.members governor mem_cons_self
  have isActive : isActiveGovernor g governor.governorAddress = governor.isActive := by
    simp [isActiveGovernor, stored]
  have distinct := (nodup_cons.mp loop.distinct).2
  have members : ∀ other ∈ rest, g.governors.get? other.governorAddress = some other :=
    fun other member => loop.members other (mem_cons_of_mem governor member)
  unfold initGovernor
  simp only [post_rules, not_not]
  refine ⟨fun missing importable => missing (importable.accepted stored).1, fun account => ?_⟩
  rw [post_ite]
  constructor
  · intro active
    have activeHere : isActiveGovernor g governor.governorAddress = true := isActive.trans active
    rw [post_bind]
    apply (getGovernorBondedTokens_value ok _).mono _ (fun _ _ => False.elim)
    rintro tokens mid ⟨isMid, counted⟩
    rw [isMid, counted]
    simp only [post_rules, not_lt]
    refine ⟨fun short importable => ?_, fun enough => ?_⟩
    · exact absurd ((importable.accepted stored).2 active) (not_le.mpr short)
    -- the governor follows itself in the exported state, and is new to this one
    have self := gov.registry.self (by simp) activeHere
    obtain ⟨delegation, followed, isSelf⟩ := Option.map_eq_some_iff.mp self
    rw [gov.registry.delegation_eq followed, isSelf] at followed
    have fresh : ¬ (isActiveGovernor g governor.governorAddress = true
        ∧ governor.governorAddress ∉ (governor :: rest).map Governor.governorAddress) := by
      rintro ⟨_, passed⟩
      exact passed mem_cons_self
    apply (delegateToGovernor_restores (loop.restored.setGovernor governor) followed fresh ok gov
      account).mono _ (fun _ _ => False.elim)
    rintro _ h' ⟨restored, sameGovernors⟩
    have through : ∀ addr, (isActiveGovernor g addr = true
        ∧ addr ∉ (governor :: rest).map Governor.governorAddress) ∨ addr = governor.governorAddress
          ↔ isActiveGovernor g addr = true ∧ addr ∉ rest.map Governor.governorAddress := by
      intro addr
      rw [passed_cons loop.distinct]
      by_cases here : addr = governor.governorAddress
      · simp [here, activeHere]
      · simp [here]
    refine ⟨distinct, members, ?_, ?_, ?_, restored.congr through⟩
    · intro addr found
      rw [sameGovernors]
      exact loop.setGovernor
    · intro addr found isStored
      rw [sameGovernors] at isStored
      exact loop.setGovernor_accepted ⟨account, fun _ => enough⟩ isStored
    · intro addr
      rw [mem_cons, loop.active, or_comm]
      exact through addr
  · intro inactive
    have through : ∀ addr, (isActiveGovernor g addr = true
        ∧ addr ∉ (governor :: rest).map Governor.governorAddress)
          ↔ isActiveGovernor g addr = true ∧ addr ∉ rest.map Governor.governorAddress := by
      intro addr
      rw [passed_cons loop.distinct]
      by_cases here : addr = governor.governorAddress
      · simp [here, isActive, inactive]
      · simp [here]
    rw [post_pure]
    exact ⟨distinct, members, loop.setGovernor,
      loop.setGovernor_accepted ⟨account, fun active => absurd active inactive⟩,
      fun {addr} => loop.active.trans (through addr),
      (loop.restored.setGovernor governor).congr through⟩

/-! ## The loop over governance delegations -/

/-- The delegations in `rest` are still to come, those of active governors excepted. -/
structure DelegationsLoop (s : StakingState) (hasAccount : Address → Bool) (g : GovState)
    (rest : List GovernanceDelegation) (h : GovState) : Prop where
  distinct : (rest.map GovernanceDelegation.delegatorAddress).Nodup
  members : ∀ delegation ∈ rest,
    g.governanceDelegations.get? delegation.delegatorAddress = some delegation
  governors : h.governors = g.governors
  restored : Restored s hasAccount g
    (fun addr => isActiveGovernor g addr = true ∨ (g.governanceDelegations.get? addr).isSome
      ∧ addr ∉ rest.map GovernanceDelegation.delegatorAddress) h

/-- A round restores its delegation, or the state is not importable. -/
theorem initGovernanceDelegation_spec (ok : SharesSettled s) (gov : GovSettled s g)
    (active : ∀ {addr}, addr ∈ activeGovernors ↔ isActiveGovernor g addr = true)
    {delegation : GovernanceDelegation} {rest : List GovernanceDelegation} {h : GovState}
    (loop : DelegationsLoop s hasAccount g (delegation :: rest) h) :
    Post (initGovernanceDelegation s hasAccount activeGovernors delegation) h
      (fun _ => DelegationsLoop s hasAccount g rest) (fun _ _ => ¬ Importable s hasAccount g) := by
  have stored := loop.members delegation mem_cons_self
  have follows : g.governorOf delegation.delegatorAddress = some delegation.governorAddress := by
    simp [GovState.governorOf, stored]
  obtain ⟨governor, registered⟩ := gov.registry.target stored
  have distinct := nodup_cons.mp loop.distinct
  have members : ∀ other ∈ rest,
      g.governanceDelegations.get? other.delegatorAddress = some other :=
    fun other member => loop.members other (mem_cons_of_mem delegation member)
  unfold initGovernanceDelegation
  rw [post_whenever]
  constructor
  · intro pendingRound
    -- an active governor follows itself, so its round was skipped
    have notActive : ¬ isActiveGovernor g delegation.delegatorAddress = true := by
      intro isActive
      have self := gov.registry.self (by simp) isActive
      rw [follows] at self
      have same := Option.some.inj self
      exact pendingRound ⟨same.symm, by rw [same]; exact active.mpr isActive⟩
    simp only [post_rules, not_not, not_false_eq_true, true_implies, false_implies,
      loop.governors, registered, reduceCtorEq]
    refine ⟨fun missing importable => ?_, fun account => ?_⟩
    · exact missing (importable.delegatorAccount (Option.isSome_of_eq_some stored))
    refine ⟨fun elsewhere => absurd (active.mp elsewhere.1) notActive, fun _ => ?_⟩
    have fresh : ¬ (isActiveGovernor g delegation.delegatorAddress = true
        ∨ (g.governanceDelegations.get? delegation.delegatorAddress).isSome
          ∧ delegation.delegatorAddress
            ∉ (delegation :: rest).map GovernanceDelegation.delegatorAddress) := by
      intro passed
      cases passed with
      | inl isActive => exact notActive isActive
      | inr listed => exact listed.2 mem_cons_self
    apply (delegateToGovernor_restores loop.restored stored fresh ok gov account).mono _
      (fun _ _ => False.elim)
    rintro _ h' ⟨restored, sameGovernors⟩
    refine ⟨distinct.2, members, sameGovernors.trans loop.governors, restored.congr ?_⟩
    intro addr
    rw [map_cons, mem_cons]
    by_cases here : addr = delegation.delegatorAddress
    · simp [here, stored, distinct.1]
    · simp [here]
  · intro skipped
    have isSelf := not_not.mp skipped
    have isActive : isActiveGovernor g delegation.delegatorAddress = true := by
      rw [isSelf.1]
      exact active.mp isSelf.2
    refine ⟨distinct.2, members, loop.governors, loop.restored.congr ?_⟩
    intro addr
    rw [map_cons, mem_cons]
    by_cases here : addr = delegation.delegatorAddress
    · simp [here, isActive]
    · simp [here]

/-! ## Round trip -/

theorem Tracked.unique {expected : Address → Address → Int}
    {left right : Store (Pair Address Address) GovernorValShares}
    (okLeft : Tracked expected left) (okRight : Tracked expected right) : left = right := by
  apply ext
  rintro ⟨govAddr, valAddr⟩
  cases inLeft : left.get? ⟨govAddr, valAddr⟩ with
  | none =>
    cases inRight : right.get? ⟨govAddr, valAddr⟩ with
    | none => rfl
    | some record =>
      have exactRight := okRight.exact inRight
      exact absurd (exactRight.1.trans (okLeft.absent inLeft)) exactRight.2
  | some record =>
    have exactLeft := okLeft.exact inLeft
    cases inRight : right.get? ⟨govAddr, valAddr⟩ with
    | none => exact absurd (exactLeft.1.trans (okRight.absent inRight)) exactLeft.2
    | some other =>
      have filedLeft := okLeft.filed inLeft
      have filedRight := okRight.filed inRight
      have exactRight := okRight.exact inRight
      obtain ⟨gov, val, shares⟩ := record
      obtain ⟨gov', val', shares'⟩ := other
      simp only at filedLeft filedRight exactLeft exactRight
      rw [filedLeft.1, filedLeft.2, filedRight.1, filedRight.2, exactLeft.1, exactRight.1]

/-- Once every delegation is through, the collections are the exported ones. -/
theorem DelegationsLoop.finished (gov : GovSettled s g) {h : GovState}
    (importable : Importable s hasAccount g) (loop : DelegationsLoop s hasAccount g [] h) :
    GovernorsRestored g h := by
  have through : ∀ {addr}, (g.governanceDelegations.get? addr).isSome →
      isActiveGovernor g addr = true ∨ (g.governanceDelegations.get? addr).isSome
        ∧ addr ∉ ([] : List GovernanceDelegation).map GovernanceDelegation.delegatorAddress :=
    fun followed => Or.inr ⟨followed, not_mem_nil⟩
  have delegations : h.governanceDelegations = g.governanceDelegations := by
    apply ext
    intro addr
    apply Option.ext
    intro delegation
    rw [loop.restored.delegations]
    exact ⟨And.right, fun stored => ⟨through (Option.isSome_of_eq_some stored), stored⟩⟩
  have governorOf : h.governorOf = g.governorOf := by
    funext addr
    rw [GovState.governorOf, delegations]
    rfl
  have index : h.activeGovernorsByDelegatedValidator
      = g.activeGovernorsByDelegatedValidator := by
    apply ext_unit
    rintro ⟨valAddr, addr⟩
    rw [loop.restored.index, gov.listed_iff]
    constructor
    · rintro ⟨_, self, staked⟩
      exact ⟨importable.selfDelegated self staked, self, staked⟩
    · rintro ⟨active, listed⟩
      exact ⟨Or.inl active, listed⟩
  refine ⟨loop.governors, delegations, ?_, ?_, index, ?_⟩
  · apply ext
    rintro ⟨govAddr, delAddr⟩
    apply Option.ext
    intro delegation
    rw [loop.restored.byGovernor]
    constructor
    · exact And.right
    · intro filed
      have stored := (gov.registry.mirror.mp filed).1
      exact ⟨through (Option.isSome_of_eq_some stored), filed⟩
  · have shares := loop.restored.shares
    rw [governorOf] at shares
    exact shares.unique gov.shares
  · intro valAddr govAddr listed
    rw [index] at listed
    rw [isActiveGovernor, loop.governors]
    exact gov.index.active (by simp) listed

/-- What the import had to accept, and what it must not have listed, if it restored the
collections. -/
theorem DelegationsLoop.importable {h : GovState}
    (accepted : ∀ {addr governor}, g.governors.get? addr = some governor →
      Accepted s hasAccount g governor)
    (registry : RegistryOK none g) (loop : DelegationsLoop s hasAccount g [] h)
    (restored : GovernorsRestored g h) : Importable s hasAccount g := by
  refine ⟨?_, ?_, ?_, ?_⟩
  · intro addr isStored
    obtain ⟨governor, stored⟩ := Option.isSome_iff_exists.mp isStored
    rw [← registry.governorKey stored]
    exact (accepted stored).1
  · intro addr isStored
    rw [← restored.delegations] at isStored
    exact loop.restored.accounts isStored
  · intro addr active
    obtain ⟨governor, stored, isActive⟩ := isActiveGovernor_iff.mp active
    rw [← registry.governorKey stored]
    exact (accepted stored).2 isActive
  · intro addr valAddr self staked
    obtain ⟨delegation, stored, _⟩ := Option.map_eq_some_iff.mp self
    have listed := loop.restored.index.mpr
      ⟨Or.inr ⟨Option.isSome_of_eq_some stored, not_mem_nil⟩, self, staked⟩
    have active := restored.activeOnly listed
    rw [isActiveGovernor, loop.governors] at active
    exact active

/-- Before the first round all exported governors are to come. -/
theorem GovernorsLoop.start (registry : RegistryOK none g) (params : GovParams) :
    GovernorsLoop s hasAccount g (exportGenesis g).governors [] (GovState.empty params) := by
  have listed : ∀ {addr governor}, g.governors.get? addr = some governor →
      addr ∈ (exportGenesis g).governors.map Governor.governorAddress := by
    intro addr governor stored
    have key := registry.governorKey stored
    apply mem_map.mpr
    refine ⟨governor, (mem_values_governors registry).mpr ?_, key⟩
    rw [key]
    exact stored
  have noneThrough : ∀ {addr}, ¬ (isActiveGovernor g addr = true
      ∧ addr ∉ (exportGenesis g).governors.map Governor.governorAddress) := by
    rintro addr ⟨active, missing⟩
    obtain ⟨governor, stored, _⟩ := isActiveGovernor_iff.mp active
    exact missing (listed stored)
  refine ⟨governors_distinct registry, fun _ => (mem_values_governors registry).mp, ?_, nofun, ?_,
    ?_⟩
  · intro addr governor
    exact ⟨nofun, fun stored => absurd (listed stored.1) stored.2⟩
  · intro addr
    exact ⟨nofun, fun through => absurd through noneThrough⟩
  · refine ⟨?_, ?_, ?_, nofun, ?_⟩
    · intro addr delegation
      exact ⟨nofun, fun through => absurd through.1 noneThrough⟩
    · intro govAddr delAddr delegation
      exact ⟨nofun, fun through => absurd through.1 noneThrough⟩
    · intro valAddr govAddr
      exact ⟨nofun, fun through => absurd through.1 noneThrough⟩
    · refine ⟨nofun, nofun, ?_⟩
      intro govAddr valAddr _
      -- nobody follows anybody yet
      apply Store.sum_eq_zero
      intro key d _
      simp [GovState.governorOf, GovState.empty]

/-- Before the second loop the active governors are through. -/
theorem DelegationsLoop.start (registry : RegistryOK none g) {h : GovState}
    (loop : GovernorsLoop s hasAccount g [] activeGovernors h) :
    DelegationsLoop s hasAccount g (exportGenesis g).governanceDelegations h := by
  refine ⟨exported_delegators_distinct registry, fun _ => (mem_exportGenesis registry).mp, ?_,
    loop.restored.congr ?_⟩
  · apply ext
    intro addr
    apply Option.ext
    intro governor
    rw [loop.governors]
    simp
  · intro addr
    constructor
    · exact fun through => Or.inl through.1
    · intro through
      cases through with
      | inl active => exact ⟨active, not_mem_nil⟩
      | inr missing =>
        obtain ⟨delegation, stored⟩ := Option.isSome_iff_exists.mp missing.1
        have key := registry.delegationKey stored
        have member : addr ∈ (exportGenesis g).governanceDelegations.map
            GovernanceDelegation.delegatorAddress := by
          apply mem_map.mpr
          refine ⟨delegation, (mem_exportGenesis registry).mpr ?_, key⟩
          rw [key]
          exact stored
        exact absurd member missing.2

/-- The import replays the whole export, or the state is not importable. -/
theorem initGenesis_spec (ok : SharesSettled s) (gov : GovSettled s g) (params : GovParams) :
    Post (initGenesis s hasAccount (exportGenesis g)) (GovState.empty params)
      (fun _ h => DelegationsLoop s hasAccount g [] h
        ∧ ∀ {addr governor}, g.governors.get? addr = some governor →
          Accepted s hasAccount g governor)
      (fun _ _ => ¬ Importable s hasAccount g) := by
  unfold initGenesis
  rw [post_bind, post_modify, post_bind]
  apply (post_foldOver (GovernorsLoop s hasAccount g)
    (fun _ _ _ _ loop => initGovernor_spec ok gov loop) _ _ _
    (GovernorsLoop.start gov.registry _)).imp
  intro activeGovernors mid loop
  have active : ∀ {addr}, addr ∈ activeGovernors ↔ isActiveGovernor g addr = true := by
    intro addr
    rw [loop.active]
    simp
  apply (post_forEach (DelegationsLoop s hasAccount g)
    (fun _ _ _ loop => initGovernanceDelegation_spec ok gov active loop) _ _
    (DelegationsLoop.start gov.registry loop)).imp
  intro _ h finished
  refine ⟨finished, fun stored => loop.accepted (loop.governors.mpr ⟨stored, not_mem_nil⟩)⟩

/-- Importing an export succeeds and restores the governor collections exactly if the state
is importable. -/
theorem import_of_export_restores_governors_iff
    (ok : SharesOK (fun _ => 0) s.validators s.delegations)
    (gov : GovOK s.delegations s.delegations g) (hasAccount : Address → Bool) (params : GovParams) :
    Post (initGenesis s hasAccount (exportGenesis g)) (GovState.empty params)
        (fun _ h => GovernorsRestored g h) (fun _ _ => False)
      ↔ Importable s hasAccount g := by
  have imported := @initGenesis_spec s g hasAccount ok gov params
  constructor
  · intro restores
    obtain ⟨_, h, ran, restored⟩ := restores.returns
    obtain ⟨loop, accepted⟩ := imported.of_ok ran
    exact loop.importable accepted gov.registry restored
  · intro importable
    apply imported.mono
    · rintro _ h ⟨loop, _⟩
      exact loop.finished gov importable
    · intro _ _ failed
      exact failed importable

end RoundTrip

/-! ## One governor with stake -/

/-- A governor's account that delegates to the only validator. -/
def sampleStaking : StakingState :=
  let validator : Validator :=
    { operatorAddress := [2], consensusPubkey := ⟨.ed25519, [11]⟩, jailed := false,
      status := .bonded, tokens := 5, delegatorShares := Dec.ofInt 5,
      description := ⟨"node", "", "", "", ""⟩, unbondingHeight := 0, unbondingTime := 0,
      commission := ⟨⟨0, Dec.one, Dec.one⟩, 0⟩, minSelfDelegation := 1,
      unbondingOnHoldRefCount := 0, unbondingIds := [] }
  { StakingState.empty Staking.sampleParams 1 0 with
    validators := (∅ : Store Address Validator).set [2] validator
    delegations := (∅ : Stakes).set ⟨[1], [2]⟩ ⟨[1], [2], Dec.ofInt 5⟩ }

/-- The governor, delegated to itself; active governors are listed under their
validator. -/
def sampleGovernor (status : GovernorStatus) : GovState where
  params := ⟨1, 0⟩
  governors := (∅ : Store Address Governor).set [1] ⟨[1], status, ⟨"governor", "", "", "", ""⟩, 0⟩
  governanceDelegations := (∅ : Store Address GovernanceDelegation).set [1] ⟨[1], [1]⟩
  governanceDelegationsByGovernor :=
    (∅ : Store (Pair Address Address) GovernanceDelegation).set ⟨[1], [1]⟩ ⟨[1], [1]⟩
  validatorSharesByGovernor :=
    (∅ : Store (Pair Address Address) GovernorValShares).set ⟨[1], [2]⟩ ⟨[1], [2], Dec.ofInt 5⟩
  activeGovernorsByDelegatedValidator :=
    if status = .active then (∅ : Store (Pair Address Address) Unit).set ⟨[2], [1]⟩ () else ∅
  votes := ∅

theorem sampleStaking_sharesOK :
    SharesSettled sampleStaking where
  validatorKey := by
    intro addr v stored
    obtain ⟨isKey, isValue⟩ := get?_one.mp stored
    rw [isKey, isValue]
  delegationKey := by
    intro key d stored
    obtain ⟨isKey, isValue⟩ := get?_one.mp stored
    rw [isKey, isValue]
    exact ⟨rfl, rfl⟩
  positive := by
    intro key d stored
    rw [(get?_one.mp stored).2]
    decide
  home := by
    intro key d stored
    rw [(get?_one.mp stored).1]
    exact ⟨_, rfl⟩
  total := by
    intro addr v stored
    obtain ⟨isKey, isValue⟩ := get?_one.mp stored
    rw [isKey, isValue]
    decide
  tokensNonneg := by
    intro addr v stored
    rw [(get?_one.mp stored).2]
    decide
  covered := by
    intro addr v stored
    rw [(get?_one.mp stored).2]
    decide

theorem sampleGovernor_active_iff (status : GovernorStatus) {addr : Address} :
    isActiveGovernor (sampleGovernor status) addr = true ↔ addr = [1] ∧ status = .active := by
  rw [isActiveGovernor_iff]
  constructor
  · rintro ⟨governor, stored, active⟩
    obtain ⟨isKey, isValue⟩ := get?_one.mp stored
    rw [isValue] at active
    exact ⟨isKey, by simpa [Governor.isActive] using active⟩
  · rintro ⟨isKey, active⟩
    refine ⟨_, get?_one.mpr ⟨isKey, rfl⟩, ?_⟩
    simp [Governor.isActive, active]

theorem sampleGovernor_listed_iff (status : GovernorStatus) {valAddr govAddr : Address} :
    ((sampleGovernor status).activeGovernorsByDelegatedValidator.get? ⟨valAddr, govAddr⟩).isSome
      ↔ status = .active ∧ valAddr = [2] ∧ govAddr = [1] := by
  unfold sampleGovernor
  by_cases active : status = .active
  · simp [active, Option.isSome_iff_exists, get?_one]
  · simp [active]

theorem sampleStaking_staked_iff {valAddr delAddr : Address} :
    (sampleStaking.delegations.get? ⟨delAddr, valAddr⟩).isSome
      ↔ delAddr = [1] ∧ valAddr = [2] := by
  simp [sampleStaking, Option.isSome_iff_exists, get?_one]

theorem sampleGovernor_registryOK (status : GovernorStatus) :
    RegistryOK none (sampleGovernor status) where
  governorKey := by
    intro addr governor stored
    obtain ⟨isKey, isValue⟩ := get?_one.mp stored
    rw [isKey, isValue]
  delegationKey := by
    intro delAddr delegation stored
    obtain ⟨isKey, isValue⟩ := get?_one.mp stored
    rw [isKey, isValue]
  mirror := by
    intro govAddr delAddr delegation
    simp only [sampleGovernor, get?_one, Pair.mk.injEq]
    constructor
    · rintro ⟨⟨isGov, isDel⟩, isValue⟩
      exact ⟨⟨isDel, isValue⟩, by rw [isGov, isValue]⟩
    · rintro ⟨⟨isDel, isValue⟩, filed⟩
      exact ⟨⟨by rw [← filed, isValue], isDel⟩, isValue⟩
  target := by
    intro delAddr delegation stored
    rw [(get?_one.mp stored).2]
    exact ⟨_, rfl⟩
  self := by
    intro addr _ active
    rw [((sampleGovernor_active_iff status).mp active).1]
    rfl

theorem sampleGovernor_govOK (status : GovernorStatus) :
    GovSettled sampleStaking (sampleGovernor status) where
  registry := sampleGovernor_registryOK status
  index := by
    refine ⟨?_, ?_, ?_⟩
    · intro valAddr govAddr listed
      obtain ⟨_, isVal, isGov⟩ := (sampleGovernor_listed_iff status).mp listed
      exact sampleStaking_staked_iff.mpr ⟨isGov, isVal⟩
    · intro valAddr govAddr _ listed
      obtain ⟨active, _, isGov⟩ := (sampleGovernor_listed_iff status).mp listed
      exact (sampleGovernor_active_iff status).mpr ⟨isGov, active⟩
    · intro valAddr govAddr _ active staked
      obtain ⟨isGov, isVal⟩ := sampleStaking_staked_iff.mp staked
      have isActive := ((sampleGovernor_active_iff status).mp active).2
      exact (sampleGovernor_listed_iff status).mpr ⟨isActive, isVal, isGov⟩
  shares := by
    refine ⟨?_, ?_, ?_⟩
    · intro key record stored
      obtain ⟨isKey, isValue⟩ := get?_one.mp stored
      rw [isKey, isValue]
      exact ⟨rfl, rfl⟩
    · intro govAddr valAddr record stored
      obtain ⟨isKey, isValue⟩ := get?_one.mp stored
      cases isKey
      rw [isValue]
      constructor
      · rfl
      · decide
    · intro govAddr valAddr missing
      -- the only delegation is the governor's, and it is tracked
      apply Store.sum_eq_zero
      intro key d stored
      obtain ⟨isKey, _⟩ := get?_one.mp stored
      rw [if_neg]
      rintro ⟨isVal, follows⟩
      rw [isKey] at isVal follows
      have isGov : govAddr = [1] := (Option.some.inj follows).symm
      rw [isGov, ← isVal] at missing
      cases missing

/-- The active governor is restored with its index entry. -/
theorem active_governor_is_restored :
    Post (initGenesis sampleStaking (fun _ => true) (exportGenesis (sampleGovernor .active)))
      (GovState.empty ⟨1, 0⟩)
      (fun _ h => GovernorsRestored (sampleGovernor .active) h) (fun _ _ => False) := by
  apply (import_of_export_restores_governors_iff sampleStaking_sharesOK
    (sampleGovernor_govOK .active) (fun _ => true) ⟨1, 0⟩).mpr
  refine ⟨fun _ => rfl, fun _ => rfl, ?_, ?_⟩
  · intro addr active
    rw [((sampleGovernor_active_iff .active).mp active).1]
    decide +kernel
  · intro addr valAddr _ staked
    exact (sampleGovernor_active_iff .active).mpr ⟨(sampleStaking_staked_iff.mp staked).1, rfl⟩

/-- A governor that has become inactive keeps its self-delegation. Its state satisfies
every invariant, and the import lists it among the active governors of its validator. -/
theorem inactive_governor_is_listed :
    SharesOK (fun _ => 0) sampleStaking.validators sampleStaking.delegations
      ∧ GovOK sampleStaking.delegations sampleStaking.delegations (sampleGovernor .inactive)
      ∧ Post (initGenesis sampleStaking (fun _ => true)
            (exportGenesis (sampleGovernor .inactive))) (GovState.empty ⟨1, 0⟩)
          (fun _ h => ¬ GovernorsRestored (sampleGovernor .inactive) h
            ∧ isActiveGovernor h [1] = false
            ∧ (h.activeGovernorsByDelegatedValidator.get? ⟨[2], [1]⟩).isSome)
          (fun _ _ => False) := by
  refine ⟨sampleStaking_sharesOK, sampleGovernor_govOK .inactive, ?_⟩
  have imported : ∃ h, initGenesis sampleStaking (fun _ => true)
      (exportGenesis (sampleGovernor .inactive)) (GovState.empty ⟨1, 0⟩) = .ok () h
        ∧ isActiveGovernor h [1] = false
        ∧ (h.activeGovernorsByDelegatedValidator.get? ⟨[2], [1]⟩).isSome := ⟨_, rfl, rfl, rfl⟩
  obtain ⟨h, ran, inactive, listed⟩ := imported
  rw [Post, ran]
  refine ⟨fun restored => ?_, inactive, listed⟩
  rw [restored.activeOnly listed] at inactive
  cases inactive

end AtomOneSdk.Gov
