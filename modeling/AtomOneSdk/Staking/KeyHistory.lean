import AtomOneSdk.Staking.Contract

/-!
Contract: the keys a validator has held since its creation.

Owns: the lookup by consensus address ending on every address, the chain that the
keys of a stored validator form in the maps on consensus addresses, that each key
of the chain resolves to the validator, and what creations, rotations and the
other operations do to the chains.

Does **not** own: the operations themselves.
-/

namespace AtomOneSdk.Staking

open Lib Store Function List

/-! ## The lookup ends -/

/-- A walk that has visited distinct rotated addresses has budget left for the
addresses it has not visited. -/
theorem walkConsAddr_ends (s : StakingState) :
    ∀ (budget : Nat) (visited : List Address) (current : Address),
      (current :: visited).Nodup →
      (∀ addr ∈ visited, addr ∈ s.oldToNewConsAddr.keys) →
      s.oldToNewConsAddr.keys.length + 1 ≤ budget + visited.length →
      walkConsAddr s budget visited current ≠ none
  | 0, visited, current, distinct, rotated, enough => by
    have bound := (nodup_cons.mp distinct).2.length_le_of_subset rotated
    omega
  | budget + 1, visited, current, distinct, rotated, enough => by
    rw [walkConsAddr]
    cases holder : s.validatorByConsAddr.get? current with
    | some operator => exact Option.some_ne_none _
    | none =>
      cases link : s.oldToNewConsAddr.get? current with
      | none => exact Option.some_ne_none _
      | some next =>
        dsimp only
        split_ifs with seen
        · exact Option.some_ne_none _
        · apply walkConsAddr_ends s budget (current :: visited) next
          · exact nodup_cons.mpr ⟨seen, distinct⟩
          · intro addr member
            rcases mem_cons.mp member with here | earlier
            · rw [here, Store.mem_keys, link]
              rfl
            · exact rotated addr earlier
          · rw [length_cons]
            omega

/-- The lookup returns on every address. -/
theorem consAddrLookup_ends (s : StakingState) (consAddr : Address) :
    walkConsAddr s (consAddrBudget s) [] consAddr ≠ none := by
  apply walkConsAddr_ends
  · exact nodup_singleton consAddr
  · exact fun _ none => absurd none not_mem_nil
  · simp [consAddrBudget, Store.keys]

/-! ## Chains of keys -/

section Chains

variable {consAddress : PubKey → Address}

/-- The keys of one validator, oldest first: each old address leads to the next one,
only the last is listed as current, and the first is the identifier of all others. -/
structure Chain (consAddress : PubKey → Address) (view : KeyView) (keys : List PubKey) :
    Prop where
  linked : keys.IsChain fun old new => view.oldToNew.get? (consAddress old) = some (consAddress new)
  left : ∀ key ∈ keys.dropLast, view.byCons.get? (consAddress key) = none
  distinct : (keys.map consAddress).Nodup
  first : ∀ {key}, keys.head? = some key → view.identifier.get? (consAddress key) = none
  later : ∀ {first key}, keys.head? = some first → key ∈ keys.tail →
    view.identifier.get? (consAddress key) = some (consAddress first)

/-- A walk along a chain reaches the validator that holds its last key. -/
theorem walkConsAddr_chain (s : StakingState) {operator : Address} {v : Validator}
    (stored : s.validators.get? operator = some v) :
    ∀ (keys : List PubKey) (key : PubKey) (budget : Nat) (visited : List Address),
      (key :: keys).length ≤ budget →
      (key :: keys).IsChain (fun old new =>
        s.oldToNewConsAddr.get? (consAddress old) = some (consAddress new)) →
      (∀ k ∈ (key :: keys).dropLast, s.validatorByConsAddr.get? (consAddress k) = none) →
      ((key :: keys).map consAddress ++ visited).Nodup →
      (∀ last, (key :: keys).getLast? = some last →
        s.validatorByConsAddr.get? (consAddress last) = some operator) →
      walkConsAddr s budget visited (consAddress key) = some (some v)
  | _, _, 0, _, enough, _, _, _, _ => by simp at enough
  | [], key, budget + 1, visited, _, _, _, _, holds => by
    rw [walkConsAddr, holds key rfl]
    exact congrArg some stored
  | next :: rest, key, budget + 1, visited, enough, linked, left, distinct, holds => by
    obtain ⟨link, linkedRest⟩ := isChain_cons_cons.mp linked
    have gone : s.validatorByConsAddr.get? (consAddress key) = none :=
      left key (by simp)
    have unseen : consAddress next ∉ consAddress key :: visited := by
      simp only [map_cons, cons_append, nodup_cons, mem_cons,
        mem_append, not_or] at distinct
      simp only [mem_cons, not_or]
      exact ⟨fun same => distinct.1.1 same.symm, distinct.2.1.2⟩
    rw [walkConsAddr, gone]
    dsimp only
    rw [link]
    dsimp only
    rw [if_neg unseen]
    apply walkConsAddr_chain s stored rest next budget (consAddress key :: visited)
    · simpa using enough
    · exact linkedRest
    · intro k member
      apply left k
      rw [dropLast_cons_cons]
      exact mem_cons_of_mem key member
    · refine (Perm.nodup_iff ?_).mp distinct
      exact perm_middle.symm
    · intro last isLast
      apply holds last
      rw [getLast?_cons_cons]
      exact isLast

/-- The links out of a list only matter for the keys that have a successor in it. -/
theorem isChain_congr_dropLast {next next' : PubKey → PubKey → Prop} :
    ∀ {keys : List PubKey}, (∀ key ∈ keys.dropLast, ∀ other, next key other → next' key other) →
      keys.IsChain next → keys.IsChain next'
  | [], _, _ => List.IsChain.nil
  | [key], _, _ => List.IsChain.singleton key
  | key :: second :: rest, same, linked => by
    obtain ⟨link, linkedRest⟩ := isChain_cons_cons.mp linked
    rw [dropLast_cons_cons] at same
    refine isChain_cons_cons.mpr ⟨same key mem_cons_self second link, ?_⟩
    apply isChain_congr_dropLast _ linkedRest
    exact fun other member => same other (mem_cons_of_mem key member)

/-- Every key but the last leads somewhere. -/
theorem Chain.rotated {view : KeyView} :
    ∀ {keys : List PubKey}, (keys.IsChain fun old new =>
        view.oldToNew.get? (consAddress old) = some (consAddress new)) →
      ∀ key ∈ keys.dropLast, consAddress key ∈ view.oldToNew.keys
  | [], _, _, member => by simp at member
  | [_], _, _, member => by simp at member
  | head :: second :: rest, linked, key, member => by
    obtain ⟨link, linkedRest⟩ := isChain_cons_cons.mp linked
    rw [dropLast_cons_cons] at member
    rcases mem_cons.mp member with here | later
    · rw [here, Store.mem_keys, link]
      rfl
    · exact Chain.rotated linkedRest key later

theorem KeyView.rotate_keys_self (view : KeyView) (rotation : ConsPubKeyRotationHistory) :
    (view.rotate consAddress rotation).keys rotation.operatorAddress
      = some rotation.newConsPubkey :=
  update_self _ _ _

theorem KeyView.rotate_keys_of_ne (view : KeyView) {rotation : ConsPubKeyRotationHistory}
    {other : Address} (different : other ≠ rotation.operatorAddress) :
    (view.rotate consAddress rotation).keys other = view.keys other :=
  update_of_ne different _ _

/-! ## Logs -/

/-- A log of the keys of all stored validators, given what is left of the rotations of
the current block: chains of different validators do not meet, and no pending rotation
leads to a key on a chain. -/
structure Logged (consAddress : PubKey → Address) (log : Address → List PubKey) (view : KeyView)
    (pending : List ConsPubKeyRotationHistory) : Prop where
  chain : ∀ {operator key}, view.keys operator = some key →
    Chain consAddress view (log operator) ∧ (log operator).getLast? = some key
  held : ∀ {operator key}, view.keys operator = some key →
    view.byCons.get? (consAddress key) = some operator
  holds : ∀ {addr operator}, view.byCons.get? addr = some operator →
    ∃ key, view.keys operator = some key ∧ consAddress key = addr
  disjoint : ∀ {left right key key'}, view.keys left = some key → view.keys right = some key' →
    left ≠ right → ∀ addr ∈ (log left).map consAddress, addr ∉ (log right).map consAddress
  fresh : ∀ rotation ∈ pending, ∀ {operator key}, view.keys operator = some key →
    consAddress rotation.newConsPubkey ∉ (log operator).map consAddress

namespace Logged

variable {log : Address → List PubKey} {view : KeyView}
  {pending : List ConsPubKeyRotationHistory}

variable {operator : Address} {key : PubKey} {view' : KeyView}
  {rotation : ConsPubKeyRotationHistory} {keys : List PubKey}

/-- Each key on the chain of a stored validator resolves to it. -/
theorem resolves {s : StakingState} (ok : Logged consAddress log (keyView s) pending)
    {v : Validator} (stored : s.validators.get? operator = some v) (member : key ∈ log operator) :
    getValidatorByConsAddr s (consAddress key) = some v := by
  have current : (keyView s).keys operator = some v.consensusPubkey := by
    simp [keyView, stored]
  obtain ⟨chain, last⟩ := ok.chain current
  obtain ⟨before, after, split⟩ := append_of_mem member
  have linked := chain.linked
  have left := chain.left
  have distinct := chain.distinct
  rw [split] at linked left distinct last
  have linkedHere := (isChain_append.mp linked).2.1
  have distinctHere : ((key :: after).map consAddress).Nodup := by
    rw [map_append] at distinct
    exact (nodup_append.mp distinct).2.1
  have enough : (key :: after).length ≤ consAddrBudget s := by
    have rotated := Chain.rotated linkedHere
    have subset : (key :: after).dropLast.map consAddress ⊆ s.oldToNewConsAddr.keys := by
      intro addr inside
      obtain ⟨k, inDropLast, rfl⟩ := mem_map.mp inside
      exact rotated k inDropLast
    have shorter : ((key :: after).dropLast.map consAddress).Nodup :=
      distinctHere.sublist ((dropLast_sublist _).map _)
    have bound := shorter.length_le_of_subset subset
    simp only [length_map, length_dropLast, Store.keys] at bound
    simp only [consAddrBudget]
    omega
  have walk := walkConsAddr_chain s stored after key (consAddrBudget s) [] enough linkedHere
    (by
      intro k inDropLast
      apply left k
      rw [dropLast_append_of_ne_nil (cons_ne_nil _ _)]
      exact mem_append_right before inDropLast)
    (by rwa [append_nil])
    (by
      intro k isLast
      rw [getLast?_append, isLast, Option.some_or] at last
      rw [Option.some.inj last]
      exact ok.held current)
  rw [getValidatorByConsAddr, walk]
  rfl

/-- An address that resolves to nobody is on no chain. -/
theorem not_mem_of_unresolved {s : StakingState} (ok : Logged consAddress log (keyView s) pending)
    {addr : Address} (unresolved : getValidatorByConsAddr s addr = none)
    (current : (keyView s).keys operator = some key) : addr ∉ (log operator).map consAddress := by
  intro member
  obtain ⟨k, inLog, rfl⟩ := mem_map.mp member
  obtain ⟨v, stored, _⟩ := Option.map_eq_some_iff.mp current
  rw [ok.resolves stored inLog] at unresolved
  cases unresolved

theorem shrink (ok : Logged consAddress log view pending)
    (kept : ∀ {operator key}, view'.keys operator = some key → view.keys operator = some key)
    (held : ∀ {operator key}, view'.keys operator = some key →
      view'.byCons.get? (consAddress key) = some operator)
    (holds : ∀ {addr operator}, view'.byCons.get? addr = some operator →
      ∃ key, view'.keys operator = some key ∧ consAddress key = addr)
    (oldToNew : view'.oldToNew = view.oldToNew) (identifier : view'.identifier = view.identifier) :
    Logged consAddress log view' pending where
  chain := by
    intro operator key current
    obtain ⟨chain, last⟩ := ok.chain (kept current)
    refine ⟨⟨?_, ?_, chain.distinct, ?_, ?_⟩, last⟩
    · rw [oldToNew]
      exact chain.linked
    · intro k inDropLast
      cases listed : view'.byCons.get? (consAddress k) with
      | none => rfl
      | some holder =>
        obtain ⟨k', current', sameAddress⟩ := holds listed
        have before := ok.held (kept current')
        rw [sameAddress, chain.left k inDropLast] at before
        cases before
    · rw [identifier]
      exact chain.first
    · rw [identifier]
      exact chain.later
  held := held
  holds := holds
  disjoint := fun left right => ok.disjoint (kept left) (kept right)
  fresh := fun rotation member _ _ current => ok.fresh rotation member (kept current)

theorem forget {pending' : List ConsPubKeyRotationHistory}
    (ok : Logged consAddress log view pending) (fewer : pending' ⊆ pending) :
    Logged consAddress log view pending' :=
  { ok with fresh := fun rotation member => ok.fresh rotation (fewer member) }

/-- A validator is created with a key on no chain. -/
theorem create (ok : Logged consAddress log view pending) (absent : view.keys operator = none)
    (unmet : ∀ {other k}, view.keys other = some k → consAddress key ∉ (log other).map consAddress)
    (unidentified : view.identifier.get? (consAddress key) = none)
    (unannounced : ∀ rotation ∈ pending, consAddress rotation.newConsPubkey ≠ consAddress key)
    (keys : view'.keys = Function.update view.keys operator (some key))
    (byCons : view'.byCons = view.byCons.set (consAddress key) operator)
    (oldToNew : view'.oldToNew = view.oldToNew) (identifier : view'.identifier = view.identifier) :
    Logged consAddress (Function.update log operator [key]) view' pending := by
  have others : ∀ {other k}, other ≠ operator → view'.keys other = some k →
      view.keys other = some k := by
    intro other k different current
    rwa [keys, update_of_ne different] at current
  have here : ∀ {k}, view'.keys operator = some k → k = key := by
    intro k current
    rw [keys, update_self] at current
    exact (Option.some.inj current).symm
  have unheld : ∀ {other k}, view.keys other = some k → consAddress k ≠ consAddress key := by
    intro other k current same
    apply unmet current
    rw [← same]
    exact mem_map_of_mem (mem_of_getLast? (ok.chain current).2)
  constructor
  · intro other k current
    by_cases same : other = operator
    · subst same
      rw [update_self, here current]
      refine ⟨⟨List.IsChain.singleton key, ?_, nodup_singleton _, ?_, ?_⟩, rfl⟩
      · exact fun _ none => by simp at none
      · intro first isFirst
        rw [identifier, ← Option.some.inj isFirst]
        exact unidentified
      · exact fun _ none => by simp at none
    · rw [update_of_ne same]
      obtain ⟨chain, last⟩ := ok.chain (others same current)
      refine ⟨⟨by rw [oldToNew]; exact chain.linked, ?_, chain.distinct,
        by rw [identifier]; exact chain.first, by rw [identifier]; exact chain.later⟩, last⟩
      intro old inDropLast
      have different : consAddress old ≠ consAddress key := by
        intro sameAddress
        apply unmet (others same current)
        rw [← sameAddress]
        exact mem_map_of_mem ((dropLast_sublist _).subset inDropLast)
      rw [byCons, get?_set_of_ne different]
      exact chain.left old inDropLast
  · intro other k current
    by_cases same : other = operator
    · subst same
      rw [here current, byCons, get?_set_self]
    · have before := others same current
      rw [byCons, get?_set_of_ne (unheld before)]
      exact ok.held before
  · intro addr other listed
    rw [byCons] at listed
    rcases get?_set_cases listed with ⟨rfl, rfl⟩ | ⟨_, before⟩
    · exact ⟨key, by rw [keys, update_self], rfl⟩
    · obtain ⟨k, current, sameAddress⟩ := ok.holds before
      have different : other ≠ operator := by
        intro same
        rw [same, absent] at current
        cases current
      exact ⟨k, by rw [keys, update_of_ne different, current], sameAddress⟩
  · intro left right k k' currentLeft currentRight apart addr onLeft onRight
    by_cases isLeft : left = operator
    · subst isLeft
      rw [update_self] at onLeft
      rw [update_of_ne (Ne.symm apart)] at onRight
      rw [mem_singleton.mp onLeft] at onRight
      exact unmet (others (Ne.symm apart) currentRight) onRight
    · rw [update_of_ne isLeft] at onLeft
      by_cases isRight : right = operator
      · subst isRight
        rw [update_self] at onRight
        rw [mem_singleton.mp onRight] at onLeft
        exact unmet (others isLeft currentLeft) onLeft
      · rw [update_of_ne isRight] at onRight
        exact ok.disjoint (others isLeft currentLeft) (others isRight currentRight) apart addr
          onLeft onRight
  · intro rotation member other k current
    by_cases same : other = operator
    · subst same
      rw [update_self]
      intro onChain
      exact unannounced rotation member (mem_singleton.mp onChain)
    · rw [update_of_ne same]
      exact ok.fresh rotation member (others same current)

def extend (log : Address → List PubKey) (rotation : ConsPubKeyRotationHistory) :
    Address → List PubKey :=
  Function.update log rotation.operatorAddress
    (log rotation.operatorAddress ++ [rotation.newConsPubkey])

/-- The chain of the rotated validator grows by the new key. -/
theorem rotate_self (chain : Chain consAddress view keys)
    (last : keys.getLast? = some rotation.oldConsPubkey)
    (unmet : consAddress rotation.newConsPubkey ∉ keys.map consAddress) :
    Chain consAddress (view.rotate consAddress rotation) (keys ++ [rotation.newConsPubkey]) := by
  have notNew : ∀ {key}, key ∈ keys → consAddress key ≠ consAddress rotation.newConsPubkey :=
    fun member same => unmet (same ▸ mem_map_of_mem member)
  have split : keys = keys.dropLast ++ [rotation.oldConsPubkey] :=
    (dropLast_append_getLast? _ last).symm
  have notOld : ∀ {key}, key ∈ keys.dropLast →
      consAddress key ≠ consAddress rotation.oldConsPubkey := by
    intro key member same
    have distinct := chain.distinct
    rw [split, map_append, nodup_append] at distinct
    exact distinct.2.2 _ (mem_map_of_mem member) _ (mem_singleton.mpr rfl) same
  constructor
  · apply IsChain.append
    · apply isChain_congr_dropLast _ chain.linked
      intro key member other link
      show (view.oldToNew.set _ _).get? _ = _
      rw [get?_set_of_ne (notOld member)]
      exact link
    · exact List.IsChain.singleton _
    · intro key isLast other isNew
      rw [last] at isLast
      rw [← Option.some.inj isLast, ← Option.some.inj isNew]
      exact get?_set_self
  · intro key member
    rw [dropLast_concat] at member
    show ((view.byCons.delete _).set _ _).get? _ = none
    rw [get?_set_of_ne (notNew member), get?_delete]
    split_ifs with isOld
    · rfl
    · rw [split] at member
      rcases mem_append.mp member with earlier | lastKey
      · exact chain.left key earlier
      · exact absurd (congrArg consAddress (mem_singleton.mp lastKey)) isOld
  · rw [map_append, nodup_append]
    refine ⟨chain.distinct, nodup_singleton _, ?_⟩
    intro addr member other isNew same
    rw [mem_singleton.mp isNew] at same
    exact unmet (same ▸ member)
  · intro key isFirst
    obtain ⟨first, tail, rfl⟩ : ∃ first tail, keys = first :: tail := by
      cases keys with
      | nil => simp at last
      | cons first tail => exact ⟨first, tail, rfl⟩
    obtain rfl := Option.some.inj isFirst
    show (view.identifier.set _ _).get? _ = none
    rw [get?_set_of_ne (notNew mem_cons_self)]
    exact chain.first rfl
  · intro first key isFirst inTail
    obtain ⟨head, tail, rfl⟩ : ∃ head tail, keys = head :: tail := by
      cases keys with
      | nil => simp at last
      | cons head tail => exact ⟨head, tail, rfl⟩
    obtain rfl := Option.some.inj isFirst
    show (view.identifier.set _ _).get? _ = _
    rcases mem_append.mp inTail with earlier | isNew
    · rw [get?_set_of_ne (notNew (mem_cons_of_mem _ earlier))]
      exact chain.later rfl earlier
    · rw [mem_singleton.mp isNew, get?_set_self]
      -- the identifier is inherited from the old key, or is the old key itself
      cases tail with
      | nil =>
        obtain rfl := Option.some.inj last
        rw [chain.first rfl, Option.getD_none]
      | cons second rest =>
        have oldLater : rotation.oldConsPubkey ∈ second :: rest := by
          rw [getLast?_cons_cons] at last
          exact mem_of_getLast? last
        rw [chain.later rfl oldLater, Option.getD_some]

/-- A rotation elsewhere leaves a chain alone that meets neither of its keys. -/
theorem rotate_other (chain : Chain consAddress view keys)
    (notOld : consAddress rotation.oldConsPubkey ∉ keys.map consAddress)
    (notNew : consAddress rotation.newConsPubkey ∉ keys.map consAddress) :
    Chain consAddress (view.rotate consAddress rotation) keys := by
  have differsOld : ∀ {key}, key ∈ keys → consAddress key ≠ consAddress rotation.oldConsPubkey :=
    fun member same => notOld (same ▸ mem_map_of_mem member)
  have differsNew : ∀ {key}, key ∈ keys → consAddress key ≠ consAddress rotation.newConsPubkey :=
    fun member same => notNew (same ▸ mem_map_of_mem member)
  have inKeys : ∀ {key}, key ∈ keys.dropLast → key ∈ keys :=
    fun member => (dropLast_sublist _).subset member
  constructor
  · apply isChain_congr_dropLast _ chain.linked
    intro key member other link
    show (view.oldToNew.set _ _).get? _ = _
    rw [get?_set_of_ne (differsOld (inKeys member))]
    exact link
  · intro key member
    show ((view.byCons.delete _).set _ _).get? _ = none
    rw [get?_set_of_ne (differsNew (inKeys member)),
      get?_delete_of_ne (differsOld (inKeys member))]
    exact chain.left key member
  · exact chain.distinct
  · intro key isFirst
    show (view.identifier.set _ _).get? _ = none
    rw [get?_set_of_ne (differsNew (mem_of_head? isFirst))]
    exact chain.first isFirst
  · intro first key isFirst inTail
    show (view.identifier.set _ _).get? _ = _
    rw [get?_set_of_ne (differsNew (mem_of_mem_tail inTail))]
    exact chain.later isFirst inTail

theorem rotate {rotation : ConsPubKeyRotationHistory} {rest : List ConsPubKeyRotationHistory}
    (ok : Logged consAddress log view (rotation :: rest))
    (current : view.keys rotation.operatorAddress = some rotation.oldConsPubkey)
    (apart : ∀ other ∈ rest, consAddress other.newConsPubkey ≠ consAddress rotation.newConsPubkey) :
    Logged consAddress (extend log rotation) (view.rotate consAddress rotation) rest := by
  obtain ⟨chainHere, lastHere⟩ := ok.chain current
  have unmet : ∀ {other key}, view.keys other = some key →
      consAddress rotation.newConsPubkey ∉ (log other).map consAddress :=
    fun stored => ok.fresh rotation mem_cons_self stored
  have oldHere : consAddress rotation.oldConsPubkey
      ∈ (log rotation.operatorAddress).map consAddress :=
    mem_map_of_mem (mem_of_getLast? lastHere)
  have oldApart : ∀ {other key}, view.keys other = some key → other ≠ rotation.operatorAddress →
      consAddress rotation.oldConsPubkey ∉ (log other).map consAddress :=
    fun stored different => ok.disjoint current stored (Ne.symm different) _ oldHere
  have others : ∀ {other key}, other ≠ rotation.operatorAddress →
      (view.rotate consAddress rotation).keys other = some key → view.keys other = some key := by
    intro other key different stored
    rwa [KeyView.rotate_keys_of_ne _ different] at stored
  have lastIn : ∀ {other key}, view.keys other = some key →
      consAddress key ∈ (log other).map consAddress :=
    fun stored => mem_map_of_mem (mem_of_getLast? (ok.chain stored).2)
  have extended : ∀ {other key addr}, view.keys other = some key →
      addr ∈ (extend log rotation other).map consAddress →
      addr ∈ (log other).map consAddress
        ∨ (other = rotation.operatorAddress ∧ addr = consAddress rotation.newConsPubkey) := by
    intro other key addr _ member
    by_cases same : other = rotation.operatorAddress
    · subst same
      rw [extend, update_self, map_append, mem_append] at member
      exact member.imp_right fun isNew => ⟨rfl, mem_singleton.mp isNew⟩
    · rw [extend, update_of_ne same] at member
      exact .inl member
  have existed : ∀ {other key}, (view.rotate consAddress rotation).keys other = some key →
      ∃ k, view.keys other = some k := by
    intro other key stored
    by_cases same : other = rotation.operatorAddress
    · subst same
      exact ⟨_, current⟩
    · exact ⟨key, others same stored⟩
  constructor
  · intro other key stored
    by_cases same : other = rotation.operatorAddress
    · subst same
      rw [KeyView.rotate_keys_self] at stored
      rw [extend, update_self, ← Option.some.inj stored]
      exact ⟨rotate_self chainHere lastHere (unmet current), getLast?_concat⟩
    · have before := others same stored
      rw [extend, update_of_ne same]
      obtain ⟨chain, last⟩ := ok.chain before
      exact ⟨rotate_other chain (oldApart before same) (unmet before), last⟩
  · intro other key stored
    show ((view.byCons.delete _).set _ _).get? _ = _
    by_cases same : other = rotation.operatorAddress
    · subst same
      rw [KeyView.rotate_keys_self] at stored
      rw [← Option.some.inj stored, get?_set_self]
    · have before := others same stored
      have notNew : consAddress key ≠ consAddress rotation.newConsPubkey :=
        fun sameAddress => unmet before (sameAddress ▸ lastIn before)
      have notOld : consAddress key ≠ consAddress rotation.oldConsPubkey :=
        fun sameAddress => oldApart before same (sameAddress ▸ lastIn before)
      rw [get?_set_of_ne notNew, get?_delete_of_ne notOld]
      exact ok.held before
  · intro addr other listed
    have listed' : ((view.byCons.delete (consAddress rotation.oldConsPubkey)).set
      (consAddress rotation.newConsPubkey) rotation.operatorAddress).get? addr = some other :=
      listed
    rcases get?_set_cases listed' with ⟨rfl, rfl⟩ | ⟨_, kept⟩
    · exact ⟨rotation.newConsPubkey, view.rotate_keys_self rotation, rfl⟩
    · obtain ⟨notOld, before⟩ := get?_delete_some kept
      obtain ⟨key, stored, sameAddress⟩ := ok.holds before
      have different : other ≠ rotation.operatorAddress := by
        intro same
        rw [same, current] at stored
        exact notOld (by rw [← sameAddress, Option.some.inj stored])
      exact ⟨key, by rw [KeyView.rotate_keys_of_ne _ different, stored], sameAddress⟩
  · intro left right key key' storedLeft storedRight apartOperators addr onLeft onRight
    obtain ⟨k, beforeLeft⟩ := existed storedLeft
    obtain ⟨k', beforeRight⟩ := existed storedRight
    rcases extended beforeLeft onLeft with wasLeft | ⟨rfl, rfl⟩
    · rcases extended beforeRight onRight with wasRight | ⟨rfl, rfl⟩
      · exact ok.disjoint beforeLeft beforeRight apartOperators addr wasLeft wasRight
      · exact unmet beforeLeft wasLeft
    · rcases extended beforeRight onRight with wasRight | ⟨same, _⟩
      · exact unmet beforeRight wasRight
      · exact apartOperators same.symm
  · intro other member operator key stored onChain
    obtain ⟨k, before⟩ := existed stored
    rcases extended before onChain with was | ⟨_, same⟩
    · exact ok.fresh other (mem_cons_of_mem rotation member) before was
    · exact apart other member same

/-- The rotations of a block, some of which are dropped. -/
theorem rotateAll {applied : List ConsPubKeyRotationHistory} (sublist : applied.Sublist pending) :
    ∀ {log : Address → List PubKey} {view : KeyView}, Logged consAddress log view pending →
      (∀ rotation ∈ pending, view.keys rotation.operatorAddress = some rotation.oldConsPubkey) →
      (pending.map ConsPubKeyRotationHistory.operatorAddress).Nodup →
      (pending.map fun rotation => consAddress rotation.newConsPubkey).Nodup →
      Logged consAddress (applied.foldl extend log)
        (applied.foldl (KeyView.rotate consAddress) view) [] := by
  induction sublist with
  | slnil =>
    intro log view ok _ _ _
    exact ok
  | cons rotation _ ih =>
    intro log view ok holders once newOnce
    apply ih (ok.forget (subset_cons_self _ _))
    · exact fun other member => holders other (mem_cons_of_mem rotation member)
    · exact (nodup_cons.mp once).2
    · exact (nodup_cons.mp newOnce).2
  | cons_cons rotation _ ih =>
    intro log view ok holders once newOnce
    have distinctNew := fun (other : ConsPubKeyRotationHistory) member
        (same : consAddress other.newConsPubkey = consAddress rotation.newConsPubkey) =>
      (nodup_cons.mp newOnce).1 (mem_map.mpr ⟨other, member, same⟩)
    apply ih (ok.rotate (holders rotation mem_cons_self) distinctNew)
    · intro other member
      have different : other.operatorAddress ≠ rotation.operatorAddress := fun same =>
        (nodup_cons.mp once).1 (mem_map.mpr ⟨other, member, same⟩)
      rw [KeyView.rotate_keys_of_ne _ different]
      exact holders other (mem_cons_of_mem rotation member)
    · exact (nodup_cons.mp once).2
    · exact (nodup_cons.mp newOnce).2

theorem congr {log' : Address → List PubKey} (ok : Logged consAddress log view pending)
    (same : ∀ {operator key}, view.keys operator = some key → log' operator = log operator) :
    Logged consAddress log' view pending where
  chain := by
    intro operator key current
    rw [same current]
    exact ok.chain current
  held := ok.held
  holds := ok.holds
  disjoint := by
    intro left right key key' storedLeft storedRight
    rw [same storedLeft, same storedRight]
    exact ok.disjoint storedLeft storedRight
  fresh := by
    intro rotation member operator key current
    rw [same current]
    exact ok.fresh rotation member current

end Logged

theorem rotateAll_cases (applied : List ConsPubKeyRotationHistory)
    (once : (applied.map ConsPubKeyRotationHistory.operatorAddress).Nodup) (operator : Address) :
    ∀ (log : Address → List PubKey) (view : KeyView),
      (∃ rotation ∈ applied, rotation.operatorAddress = operator
        ∧ applied.foldl Logged.extend log operator = log operator ++ [rotation.newConsPubkey]
        ∧ (applied.foldl (KeyView.rotate consAddress) view).keys operator
            = some rotation.newConsPubkey)
      ∨ (applied.foldl Logged.extend log operator = log operator
        ∧ (applied.foldl (KeyView.rotate consAddress) view).keys operator
          = view.keys operator) := by
  induction applied with
  | nil => exact fun _ _ => .inr ⟨rfl, rfl⟩
  | cons rotation rest ih =>
    intro log view
    obtain ⟨notAgain, restOnce⟩ := nodup_cons.mp once
    rcases ih restOnce (Logged.extend log rotation) (view.rotate consAddress rotation) with
      ⟨later, member, isHere, logged, keys⟩ | ⟨logged, keys⟩
    · have different : operator ≠ rotation.operatorAddress := fun same =>
        notAgain (mem_map.mpr ⟨later, member, isHere.trans same⟩)
      refine .inl ⟨later, mem_cons_of_mem rotation member, isHere, ?_, keys⟩
      rw [foldl_cons, logged, Logged.extend, update_of_ne different]
    · by_cases same : operator = rotation.operatorAddress
      · subst same
        refine .inl ⟨rotation, mem_cons_self, rfl, ?_, ?_⟩
        · rw [foldl_cons, logged, Logged.extend, update_self]
        · rw [foldl_cons, keys, KeyView.rotate_keys_self]
      · refine .inr ⟨?_, ?_⟩
        · rw [foldl_cons, logged, Logged.extend, update_of_ne same]
        · rw [foldl_cons, keys, KeyView.rotate_keys_of_ne _ same]

/-! ## Observed keys -/

/-- The log of keys after a step, from the validators before and after it: a new
validator starts a log, a changed key is appended. -/
def observeKeys (log : Address → List PubKey) (s s' : StakingState) (operator : Address) :
    List PubKey :=
  match s.validators.get? operator, s'.validators.get? operator with
  | _, none => []
  | none, some v => [v.consensusPubkey]
  | some v, some v' =>
    if v'.consensusPubkey = v.consensusPubkey then log operator
    else log operator ++ [v'.consensusPubkey]

theorem observeKeys_same {log : Address → List PubKey} {s s' : StakingState} {operator : Address}
    {v v' : Validator} (stored : s.validators.get? operator = some v)
    (stored' : s'.validators.get? operator = some v')
    (same : v'.consensusPubkey = v.consensusPubkey) :
    observeKeys log s s' operator = log operator := by
  simp [observeKeys, stored, stored', same]

end Chains

end AtomOneSdk.Staking
