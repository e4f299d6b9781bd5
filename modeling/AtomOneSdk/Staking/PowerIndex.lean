import AtomOneSdk.Staking.Delegation

/-!
Contract: the validators-by-power index and the record of last powers.

Owns: the invariant that the power index holds exactly one entry for each
validator that is not jailed, filed under its current tokens, with the effect of
every kind of validator write on it; and the invariant that last powers are
recorded exactly for the bonded validators and add up to the last total power.

Does **not** own: `ApplyAndReturnValidatorSetUpdates`, which recomputes the last
powers.
-/

namespace AtomOneSdk.Staking

open Lib Store

/-! ## Keys of the power index -/

theorem powerIndexKey_operator {v w : Validator} (same : powerIndexKey v = powerIndexKey w) :
    v.operatorAddress = w.operatorAddress := by
  have inverted : v.operatorAddress.map Fin.rev = w.operatorAddress.map Fin.rev :=
    congrArg (fun key => key.snd.snd) same
  exact List.map_injective_iff.mpr Fin.rev_injective inverted

theorem powerIndexKey_congr {v w : Validator} (sameKey : v.operatorAddress = w.operatorAddress)
    (sameTokens : v.tokens = w.tokens) : powerIndexKey v = powerIndexKey w := by
  simp [powerIndexKey, sameKey, sameTokens]

/-! ## The index invariant -/

/-- The index has an entry for each validator out of jail, under the key of its
current record, and no other entry. -/
structure IndexOK (vals : Store Address Validator) (index : Store PowerKey Address) : Prop where
  listed : ∀ {addr v}, vals.get? addr = some v → v.jailed = false →
    index.get? (powerIndexKey v) = some addr
  only : ∀ {key addr}, index.get? key = some addr →
    ∃ v, vals.get? addr = some v ∧ v.operatorAddress = addr ∧ v.jailed = false
      ∧ powerIndexKey v = key

namespace IndexOK

variable {vals : Store Address Validator} {index : Store PowerKey Address}

variable (ok : IndexOK vals index)

include ok

variable {addr : Address} {v v' : Validator}

theorem unique {left right : PowerKey} (foundLeft : index.get? left = some addr)
    (foundRight : index.get? right = some addr) :
    left = right := by
  obtain ⟨v, stored, -, -, leftKey⟩ := ok.only foundLeft
  obtain ⟨w, stored', -, -, rightKey⟩ := ok.only foundRight
  have same : v = w := some_unique stored stored'
  rw [← leftKey, ← rightKey, same]

/-- No entry is filed under the key of a record whose operator has no entry. -/
theorem key_owner {found : Address} (sameKey : v.operatorAddress = addr)
    (filed : index.get? (powerIndexKey v) = some found) :
    found = addr := by
  obtain ⟨w, -, operator, -, key⟩ := ok.only filed
  rw [← operator, powerIndexKey_operator key, sameKey]

theorem values_nodup : index.values.Nodup := by
  refine List.Nodup.map_on ?_ index.entries_nodup
  rintro ⟨left, addr⟩ memberLeft ⟨right, addr'⟩ memberRight same
  simp only at same
  subst same
  rw [ok.unique (mem_entries.mp memberLeft) (mem_entries.mp memberRight)]

theorem mem_values (member : addr ∈ index.values) :
    ∃ v, vals.get? addr = some v ∧ v.operatorAddress = addr ∧ v.jailed = false := by
  obtain ⟨⟨key, found⟩, entry, rfl⟩ := List.mem_map.mp member
  obtain ⟨v, stored, operator, free, -⟩ := ok.only (mem_entries.mp entry)
  exact ⟨v, stored, operator, free⟩

/-! ### Writes -/

variable (stored : vals.get? addr = some v) (oldKey : v.operatorAddress = addr)
  (newKey : v'.operatorAddress = addr)

include stored oldKey newKey

/-- Dropping the old key, writing the record and filing it anew unless jailed. -/
theorem reindex :
    IndexOK (vals.set addr v')
      (if v'.jailed then index.delete (powerIndexKey v)
        else (index.delete (powerIndexKey v)).set (powerIndexKey v') v'.operatorAddress) where
  listed := by
    intro other w found free
    rcases get?_set_cases found with ⟨rfl, rfl⟩ | ⟨apart, present⟩
    · rw [if_neg (by simp [free]), get?_set_self, newKey]
    · have filed := ok.listed present free
      have notNew : powerIndexKey w ≠ powerIndexKey v := by
        intro same
        exact apart (ok.key_owner oldKey (same ▸ filed))
      have kept : (index.delete (powerIndexKey v)).get? (powerIndexKey w) = some other := by
        rw [get?_delete_of_ne notNew, filed]
      split_ifs with jailed
      · exact kept
      · rw [get?_set_of_ne ?_, kept]
        intro same
        exact apart (ok.key_owner newKey (same ▸ filed))
  only := by
    intro key other filed
    have survivor : (index.delete (powerIndexKey v)).get? key = some other →
        ∃ w, (vals.set addr v').get? other = some w ∧ w.operatorAddress = other
          ∧ w.jailed = false ∧ powerIndexKey w = key := by
      intro kept
      obtain ⟨notOld, before⟩ := get?_delete_some kept
      obtain ⟨w, present, operator, free, filedUnder⟩ := ok.only before
      have apart : other ≠ addr := by
        intro here
        subst here
        have same : w = v := some_unique present stored
        exact notOld (by rw [← filedUnder, same])
      exact ⟨w, by rw [get?_set_of_ne apart, present], operator, free, filedUnder⟩
    split_ifs at filed with jailed
    · exact survivor filed
    · rcases get?_set_cases filed with ⟨rfl, rfl⟩ | ⟨_, kept⟩
      · refine ⟨v', ?_, rfl, by simpa using jailed, rfl⟩
        rw [newKey, get?_set_self]
      · exact survivor kept

/-- A write that changes neither tokens nor jailing leaves the index as it is. -/
theorem setValidator_same (sameTokens : v'.tokens = v.tokens) (sameJail : v'.jailed = v.jailed) :
    IndexOK (vals.set addr v') index := by
  have sameIndexKey : powerIndexKey v' = powerIndexKey v :=
    powerIndexKey_congr (newKey.trans oldKey.symm) sameTokens
  have moved := ok.reindex stored oldKey newKey
  cases jailed : v.jailed with
  | true =>
    rw [sameJail, jailed, if_pos rfl, delete_eq_self] at moved
    · exact moved
    · cases filed : index.get? (powerIndexKey v) with
      | none => rfl
      | some found =>
        have owner := ok.key_owner oldKey filed
        obtain ⟨w, present, -, free, -⟩ := ok.only filed
        rw [owner, stored] at present
        cases present
        rw [jailed] at free
        cases free
  | false =>
    rw [sameJail, jailed, if_neg (by simp), sameIndexKey, set_delete, newKey,
      set_eq_self (ok.listed stored jailed)] at moved
    exact moved

theorem jail (sameTokens : v'.tokens = v.tokens) (jailed : v'.jailed = true) :
    IndexOK (vals.set addr v') (index.delete (powerIndexKey v')) := by
  have moved := ok.reindex stored oldKey newKey
  rwa [jailed, if_pos rfl,
    ← powerIndexKey_congr (newKey.trans oldKey.symm) sameTokens] at moved

theorem unjail (sameTokens : v'.tokens = v.tokens) (free : v'.jailed = false) :
    IndexOK (vals.set addr v') (index.set (powerIndexKey v') v'.operatorAddress) := by
  have moved := ok.reindex stored oldKey newKey
  rwa [free, if_neg (by simp),
    ← powerIndexKey_congr (newKey.trans oldKey.symm) sameTokens, set_delete] at moved

omit stored oldKey newKey

theorem createValidator (absent : vals.get? addr = none) (sameKey : v.operatorAddress = addr)
    (free : v.jailed = false) :
    IndexOK (vals.set addr v) (index.set (powerIndexKey v) v.operatorAddress) where
  listed := by
    intro other w found freeW
    rcases get?_set_cases found with ⟨rfl, rfl⟩ | ⟨apart, present⟩
    · rw [get?_set_self, sameKey]
    · have filed := ok.listed present freeW
      rw [get?_set_of_ne ?_, filed]
      intro same
      exact apart (ok.key_owner sameKey (same ▸ filed))
  only := by
    intro key other filed
    rcases get?_set_cases filed with ⟨rfl, rfl⟩ | ⟨_, kept⟩
    · exact ⟨v, by rw [sameKey, get?_set_self], rfl, free, rfl⟩
    · obtain ⟨w, present, operator, freeW, filedUnder⟩ := ok.only kept
      have apart : other ≠ addr := by
        intro here
        rw [here, absent] at present
        cases present
      exact ⟨w, by rw [get?_set_of_ne apart, present], operator, freeW, filedUnder⟩

theorem removeValidator (stored : vals.get? addr = some v) (oldKey : v.operatorAddress = addr) :
    IndexOK (vals.delete addr) (index.delete (powerIndexKey v)) where
  listed := by
    intro other w found free
    obtain ⟨apart, present⟩ := get?_delete_some found
    have filed := ok.listed present free
    rw [get?_delete_of_ne ?_, filed]
    intro same
    exact apart (ok.key_owner oldKey (same ▸ filed))
  only := by
    intro key other filed
    obtain ⟨notOld, before⟩ := get?_delete_some filed
    obtain ⟨w, present, operator, free, filedUnder⟩ := ok.only before
    have apart : other ≠ addr := by
      intro here
      subst here
      have same : w = v := some_unique present stored
      exact notOld (by rw [← filedUnder, same])
    exact ⟨w, by rw [get?_delete_of_ne apart, present], operator, free, filedUnder⟩

end IndexOK

/-! ## Last powers -/

/-- Last powers are recorded exactly for the bonded validators, are positive and
add up to the last total power. -/
structure LastOK (vals : Store Address Validator) (last : Store Address Int) (total : Int) :
    Prop where
  bonded : ∀ {addr power}, last.get? addr = some power →
    ∃ v, vals.get? addr = some v ∧ v.status = .bonded
  recorded : ∀ {addr v}, vals.get? addr = some v → v.status = .bonded →
    ∃ power, last.get? addr = some power
  powerPos : ∀ {addr power}, last.get? addr = some power → 0 < power
  total_eq : total = last.sum fun _ power => power

namespace LastOK

variable {vals : Store Address Validator} {last : Store Address Int} {total : Int}

/-- A write that keeps a record bonded or not bonded. -/
theorem setValidator (ok : LastOK vals last total) {addr : Address} {v v' : Validator}
    (stored : vals.get? addr = some v) (sameBonded : v'.isBonded = v.isBonded) :
    LastOK (vals.set addr v') last total where
  bonded := by
    intro other power found
    obtain ⟨w, present, isBonded⟩ := ok.bonded found
    by_cases here : other = addr
    · subst here
      have same : w = v := some_unique present stored
      exact ⟨v', get?_set_self, by simpa [Validator.isBonded, ← same, isBonded] using sameBonded⟩
    · exact ⟨w, by rw [get?_set_of_ne here, present], isBonded⟩
  recorded := by
    intro other w found isBonded
    rcases get?_set_cases found with ⟨rfl, rfl⟩ | ⟨_, present⟩
    · exact ok.recorded stored (by simpa [Validator.isBonded, isBonded] using sameBonded.symm)
    · exact ok.recorded present isBonded
  powerPos := ok.powerPos
  total_eq := ok.total_eq

/-- A write to a record that is not bonded before or after, or a new such record. -/
theorem setValidator_notBonded (ok : LastOK vals last total) {addr : Address} {v' : Validator}
    (before : ∀ v, vals.get? addr = some v → v.status ≠ .bonded) (after : v'.status ≠ .bonded) :
    LastOK (vals.set addr v') last total where
  bonded := by
    intro other power found
    obtain ⟨w, present, isBonded⟩ := ok.bonded found
    have apart : other ≠ addr := by
      intro here
      exact before w (here ▸ present) isBonded
    exact ⟨w, by rw [get?_set_of_ne apart, present], isBonded⟩
  recorded := by
    intro other w found isBonded
    rcases get?_set_cases found with ⟨rfl, rfl⟩ | ⟨_, present⟩
    · exact absurd isBonded after
    · exact ok.recorded present isBonded
  powerPos := ok.powerPos
  total_eq := ok.total_eq

theorem removeValidator (ok : LastOK vals last total) {addr : Address} {v : Validator}
    (stored : vals.get? addr = some v) (notBonded : v.status ≠ .bonded) :
    LastOK (vals.delete addr) last total where
  bonded := by
    intro other power found
    obtain ⟨w, present, isBonded⟩ := ok.bonded found
    have apart : other ≠ addr := by
      intro here
      subst here
      have same : w = v := some_unique present stored
      exact notBonded (same ▸ isBonded)
    exact ⟨w, by rw [get?_delete_of_ne apart, present], isBonded⟩
  recorded := by
    intro other w found isBonded
    obtain ⟨_, present⟩ := get?_delete_some found
    exact ok.recorded present isBonded
  powerPos := ok.powerPos
  total_eq := ok.total_eq

end LastOK

end AtomOneSdk.Staking
