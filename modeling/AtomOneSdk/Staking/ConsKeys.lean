import AtomOneSdk.Staking.MsgServer

/-!
Contract: validators and the index of current consensus addresses.

Owns: the invariant that the index maps exactly the current consensus address of
each stored validator to its operator, how each kind of validator write changes
it, and that every lookup by consensus address ends within its step budget.

Does **not** own: rotated addresses, which need the history of a run.
-/

namespace AtomOneSdk.Staking

open Lib Store List

/-- The index by consensus address lists each validator under its current key and
nothing else. -/
structure ConsOK (consAddress : PubKey → Address) (vals : Store Address Validator)
    (byCons : Store Address Address) : Prop where
  resolves : ∀ {operator v}, vals.get? operator = some v →
    byCons.get? (consAddress v.consensusPubkey) = some operator
  held : ∀ {consAddr operator}, byCons.get? consAddr = some operator →
    ∃ v, vals.get? operator = some v ∧ consAddress v.consensusPubkey = consAddr

namespace ConsOK

variable {consAddress : PubKey → Address} {vals : Store Address Validator}
  {byCons : Store Address Address}

variable (ok : ConsOK consAddress vals byCons)

include ok

theorem operator_unique {left right : Address} {v w : Validator}
    (storedLeft : vals.get? left = some v) (storedRight : vals.get? right = some w)
    (same : consAddress v.consensusPubkey = consAddress w.consensusPubkey) : left = right := by
  have resolvesLeft := ok.resolves storedLeft
  rw [same, ok.resolves storedRight] at resolvesLeft
  exact (Option.some.inj resolvesLeft).symm

theorem setValidator_same {operator : Address} {v v' : Validator}
    (stored : vals.get? operator = some v) (sameKey : v'.consensusPubkey = v.consensusPubkey) :
    ConsOK consAddress (vals.set operator v') byCons where
  resolves := forall_set ok.resolves (sameKey ▸ ok.resolves stored)
  held := by
    intro consAddr other listed
    obtain ⟨w, present, key⟩ := ok.held listed
    by_cases here : other = operator
    · subst here
      have same : w = v := some_unique present stored
      exact ⟨v', get?_set_self, by rw [sameKey, ← same, key]⟩
    · exact ⟨w, by rw [get?_set_of_ne here, present], key⟩

theorem createValidator {operator : Address} {v : Validator} (absent : vals.get? operator = none)
    (unused : byCons.get? (consAddress v.consensusPubkey) = none) :
    ConsOK consAddress (vals.set operator v)
      (byCons.set (consAddress v.consensusPubkey) operator) where
  resolves := by
    intro other w found
    rcases get?_set_cases found with ⟨rfl, rfl⟩ | ⟨apart, present⟩
    · exact get?_set_self
    · have listed := ok.resolves present
      rw [get?_set_of_ne ?_, listed]
      intro same
      rw [same, unused] at listed
      cases listed
  held := by
    intro consAddr other listed
    rcases get?_set_cases listed with ⟨rfl, rfl⟩ | ⟨_, before⟩
    · exact ⟨v, get?_set_self, rfl⟩
    · obtain ⟨w, present, key⟩ := ok.held before
      have apart : other ≠ operator := by
        intro here
        rw [here, absent] at present
        cases present
      exact ⟨w, by rw [get?_set_of_ne apart, present], key⟩

theorem removeValidator {operator : Address} {v : Validator}
    (stored : vals.get? operator = some v) :
    ConsOK consAddress (vals.delete operator)
      (byCons.delete (consAddress v.consensusPubkey)) where
  resolves := by
    intro other w found
    obtain ⟨apart, present⟩ := get?_delete_some found
    rw [get?_delete_of_ne ?_, ok.resolves present]
    intro same
    exact apart (ok.operator_unique present stored same)
  held := by
    intro consAddr other listed
    obtain ⟨notOld, before⟩ := get?_delete_some listed
    obtain ⟨w, present, key⟩ := ok.held before
    have apart : other ≠ operator := by
      intro here
      subst here
      have same : w = v := some_unique present stored
      exact notOld (by rw [← key, same])
    exact ⟨w, by rw [get?_delete_of_ne apart, present], key⟩

/-- Moving a validator to a key whose address nobody holds. -/
theorem rekey {operator : Address} {v v' : Validator} (stored : vals.get? operator = some v)
    (unused : byCons.get? (consAddress v'.consensusPubkey) = none) :
    ConsOK consAddress (vals.set operator v')
      ((byCons.delete (consAddress v.consensusPubkey)).set (consAddress v'.consensusPubkey)
        operator) := by
  have unusedAfter :
      (byCons.delete (consAddress v.consensusPubkey)).get? (consAddress v'.consensusPubkey)
        = none := by
    rw [get?_delete]
    split_ifs
    · rfl
    · exact unused
  have removed := ok.removeValidator stored
  have created := removed.createValidator (get?_delete_self) unusedAfter
  rwa [set_delete] at created

end ConsOK

/-! ## Rotations of the current block -/

/-- The rotation a validator has announced in the current block. -/
def pendingRotation (s : StakingState) (addr : Address) : Option ConsPubKeyRotationHistory :=
  s.blockRotationHistory.get? ⟨s.blockHeight, addr⟩

/-- Announced rotations are filed under their height and operator; those of the
current block are from the current key of a bonded validator to keys nobody holds,
and no two of them share a new key. -/
structure RotationsOK (consAddress : PubKey → Address) (s : StakingState) : Prop where
  filed : ∀ {key rotation}, s.blockRotationHistory.get? key = some rotation →
    rotation.operatorAddress = key.snd ∧ key.fst ≤ s.blockHeight
  holder : ∀ {addr rotation}, pendingRotation s addr = some rotation →
    ∃ v, s.validators.get? addr = some v ∧ v.isBonded = true
      ∧ v.consensusPubkey = rotation.oldConsPubkey
  unused : ∀ {addr rotation}, pendingRotation s addr = some rotation →
    s.validatorByConsAddr.get? (consAddress rotation.newConsPubkey) = none
  apart : ∀ {left right rotation rotation'}, pendingRotation s left = some rotation →
    pendingRotation s right = some rotation' →
    consAddress rotation.newConsPubkey = consAddress rotation'.newConsPubkey → left = right

namespace RotationsOK

variable {consAddress : PubKey → Address} {s : StakingState}

variable (ok : RotationsOK consAddress s)

include ok

/-- The rotations the end of the block goes through are the pending ones. -/
theorem mem_block {rotation : ConsPubKeyRotationHistory} :
    rotation ∈ getBlockConsPubKeyRotationHistory s
      ↔ pendingRotation s rotation.operatorAddress = some rotation := by
  unfold getBlockConsPubKeyRotationHistory pendingRotation
  constructor
  · intro member
    obtain ⟨⟨key, found⟩, inEntries, rfl⟩ := mem_map.mp member
    obtain ⟨entry, now⟩ := mem_filter.mp inEntries
    have stored := mem_entries.mp entry
    obtain ⟨operator, _⟩ := ok.filed stored
    have height : key.fst = s.blockHeight := by simpa using now
    rw [operator, ← height]
    exact stored
  · intro stored
    refine mem_map.mpr ⟨(⟨s.blockHeight, rotation.operatorAddress⟩, rotation), ?_, rfl⟩
    refine mem_filter.mpr ⟨mem_entries.mpr stored, ?_⟩
    simp

theorem operators_nodup :
    ((getBlockConsPubKeyRotationHistory s).map
      ConsPubKeyRotationHistory.operatorAddress).Nodup := by
  unfold getBlockConsPubKeyRotationHistory
  rw [map_map]
  refine Nodup.map_on ?_ (s.blockRotationHistory.entries_nodup.filter _)
  rintro ⟨key, rotation⟩ member ⟨key', rotation'⟩ member' same
  obtain ⟨entry, now⟩ := mem_filter.mp member
  obtain ⟨entry', now'⟩ := mem_filter.mp member'
  have stored := mem_entries.mp entry
  have stored' := mem_entries.mp entry'
  have operator : rotation.operatorAddress = key.snd := (ok.filed stored).1
  have operator' : rotation'.operatorAddress = key'.snd := (ok.filed stored').1
  have sameOperator : rotation.operatorAddress = rotation'.operatorAddress := same
  have sameHeight : key.fst = key'.fst := by
    have height : key.fst = s.blockHeight := by simpa using now
    have height' : key'.fst = s.blockHeight := by simpa using now'
    rw [height, height']
  have sameKey : key = key' := by
    cases key
    cases key'
    simp only at sameHeight operator operator'
    rw [sameHeight, ← operator, ← operator', sameOperator]
  subst sameKey
  rw [some_unique stored stored']

theorem newAddresses_nodup :
    ((getBlockConsPubKeyRotationHistory s).map fun rotation =>
      consAddress rotation.newConsPubkey).Nodup := by
  refine Nodup.map_on ?_ ok.operators_nodup.of_map
  intro rotation member rotation' member' same
  have pending := ok.mem_block.mp member
  have pending' := ok.mem_block.mp member'
  have sameOperator := ok.apart pending pending' same
  rw [sameOperator] at pending
  exact some_unique pending pending'

theorem newKeys_nodup :
    ((getBlockConsPubKeyRotationHistory s).map
      ConsPubKeyRotationHistory.newConsPubkey).Nodup := by
  refine Nodup.of_map consAddress ?_
  rw [map_map]
  exact ok.newAddresses_nodup

end RotationsOK

/-- What rotations change: the key of each validator and the three maps on
consensus addresses. -/
structure KeyView where
  keys : Address → Option PubKey
  byCons : Store Address Address
  oldToNew : Store Address Address
  identifier : Store Address Address

def keyView (s : StakingState) : KeyView where
  keys := fun addr => (s.validators.get? addr).map Validator.consensusPubkey
  byCons := s.validatorByConsAddr
  oldToNew := s.oldToNewConsAddr
  identifier := s.consAddrToIdentifier

def KeyView.rotate (consAddress : PubKey → Address) (view : KeyView)
    (rotation : ConsPubKeyRotationHistory) : KeyView where
  keys := Function.update view.keys rotation.operatorAddress (some rotation.newConsPubkey)
  byCons := (view.byCons.delete (consAddress rotation.oldConsPubkey)).set
    (consAddress rotation.newConsPubkey) rotation.operatorAddress
  oldToNew := view.oldToNew.set (consAddress rotation.oldConsPubkey)
    (consAddress rotation.newConsPubkey)
  identifier := view.identifier.set (consAddress rotation.newConsPubkey)
    ((view.identifier.get? (consAddress rotation.oldConsPubkey)).getD
      (consAddress rotation.oldConsPubkey))

/-! ## The lookup ends -/

theorem walkConsAddr_stored (s : StakingState) :
    ∀ (budget : Nat) (visited : List Address) (current : Address) {v : Validator},
      walkConsAddr s budget visited current = some (some v) →
      ∃ operator, s.validators.get? operator = some v
  | 0, _, _, _, found => by cases found
  | budget + 1, visited, current, v, found => by
    rw [walkConsAddr] at found
    cases holder : s.validatorByConsAddr.get? current with
    | some operator =>
      rw [holder] at found
      exact ⟨operator, Option.some.inj found⟩
    | none =>
      rw [holder] at found
      cases link : s.oldToNewConsAddr.get? current with
      | none =>
        rw [link] at found
        cases found
      | some next =>
        rw [link] at found
        dsimp only at found
        split_ifs at found with again
        · cases Option.some.inj found
        exact walkConsAddr_stored s budget _ next found

theorem getValidatorByConsAddr_stored {s : StakingState} {consAddr : Address} {v : Validator}
    (found : getValidatorByConsAddr s consAddr = some v) :
    ∃ operator, s.validators.get? operator = some v :=
  walkConsAddr_stored s _ [] consAddr (Option.join_eq_some_iff.mp found)

end AtomOneSdk.Staking
