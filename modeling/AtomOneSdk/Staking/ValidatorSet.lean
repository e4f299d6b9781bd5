import AtomOneSdk.Staking.StakeSpec

/-!
Contract: the validator set handed to CometBFT.

Owns: what a list of updates does to the set CometBFT holds, when that set agrees
with the staking records, and the invariants of the three loops that compute the
updates: validators entering, validators leaving, keys rotating.

Does **not** own: the keeper calls around these loops.
-/

namespace AtomOneSdk.Staking

open Lib Store List

/-! ## Updates -/

/-- Power CometBFT gives to each key, zero for keys outside the set. -/
abbrev CometSet := PubKey → Int

def applyUpdates (set : CometSet) (updates : List ValidatorUpdate) : CometSet :=
  updates.foldl (fun set update => Function.update set update.pubKey update.power) set

theorem applyUpdates_append (set : CometSet) (first second : List ValidatorUpdate) :
    applyUpdates set (first ++ second) = applyUpdates (applyUpdates set first) second :=
  foldl_append

theorem applyUpdates_of_not_mem {key : PubKey} :
    ∀ {updates : List ValidatorUpdate} {set : CometSet},
      key ∉ updates.map ValidatorUpdate.pubKey → applyUpdates set updates key = set key
  | [], _, _ => rfl
  | head :: tail, start, apart => by
    simp only [map_cons, mem_cons, not_or] at apart
    show applyUpdates (Function.update start head.pubKey head.power) tail key = start key
    rw [applyUpdates_of_not_mem apart.2, Function.update_of_ne apart.1]

/-- The set agrees with the records: each stored validator has its last power under
its current key, and no other key has power. -/
structure Tracks (set : CometSet) (vals : Store Address Validator) (last : Store Address Int) :
    Prop where
  stored : ∀ {addr v}, vals.get? addr = some v →
    set v.consensusPubkey = (last.get? addr).getD 0
  absent : ∀ {key}, (∀ {addr v}, vals.get? addr = some v → v.consensusPubkey ≠ key) →
    set key = 0

/-- What CometBFT requires of a list of updates: no key twice, and only keys of its
set are removed. -/
structure Acceptable (set : CometSet) (updates : List ValidatorUpdate) : Prop where
  nodup : (updates.map ValidatorUpdate.pubKey).Nodup
  zero : ∀ update ∈ updates, update.power = 0 → set update.pubKey ≠ 0

namespace Acceptable

variable {set : CometSet} {updates : List ValidatorUpdate}

theorem append (ok : Acceptable set updates) {update : ValidatorUpdate}
    (apart : update.pubKey ∉ updates.map ValidatorUpdate.pubKey)
    (present : update.power = 0 → set update.pubKey ≠ 0) :
    Acceptable set (updates ++ [update]) where
  nodup := by
    rw [map_append, nodup_append]
    refine ⟨ok.nodup, nodup_singleton _, ?_⟩
    intro key member other single same
    rw [mem_singleton.mp single] at same
    exact apart (same ▸ member)
  zero := by
    intro other member
    rcases mem_append.mp member with old | new
    · exact ok.zero other old
    · rw [mem_singleton.mp new]
      exact present

end Acceptable

theorem applyUpdates_append_self {set : CometSet} {updates : List ValidatorUpdate}
    (update : ValidatorUpdate) :
    applyUpdates set (updates ++ [update]) update.pubKey = update.power := by
  rw [applyUpdates_append]
  exact Function.update_self _ _ _

theorem applyUpdates_append_of_ne {set : CometSet} {updates : List ValidatorUpdate}
    {update : ValidatorUpdate} {key : PubKey} (apart : key ≠ update.pubKey) :
    applyUpdates set (updates ++ [update]) key = applyUpdates set updates key := by
  rw [applyUpdates_append]
  exact Function.update_of_ne apart _ _

/-! ## Entering and leaving -/

/-- Invariant of the first two loops. `rest` is the part of the power index still to
be visited, `remaining` the previous set without the validators met so far, and
`total` the power counted so far. A bonded validator that rotates its key has no
update yet. -/
structure LoopOK (set : CometSet) (rotating rest : List Address) (remaining : Store Address Int)
    (total : Int) (updates : List ValidatorUpdate) (vals : Store Address Validator)
    (last : Store Address Int) : Prop extends Acceptable set updates where
  old : ∀ {addr power}, remaining.get? addr = some power → last.get? addr = some power
  bonded : ∀ {addr power}, last.get? addr = some power →
    ∃ v, vals.get? addr = some v ∧ v.status = .bonded
      ∧ (remaining.get? addr = none → power = v.consensusPower ∧ v.jailed = false)
  recorded : ∀ {addr v}, vals.get? addr = some v → v.status = .bonded →
    ∃ power, last.get? addr = some power
  powerPos : ∀ {addr power}, last.get? addr = some power → 0 < power
  total_eq : (last.sum fun _ power => power) = (remaining.sum fun _ power => power) + total
  ahead : ∀ addr ∈ rest, last.get? addr = remaining.get? addr
  owner : ∀ update ∈ updates, ∃ addr v, vals.get? addr = some v
    ∧ v.consensusPubkey = update.pubKey ∧ addr ∉ rest ∧ remaining.get? addr = none
  inSet : ∀ {addr power v}, remaining.get? addr = some power → vals.get? addr = some v →
    set v.consensusPubkey = power
  tracked : ∀ {addr v}, vals.get? addr = some v → (addr ∉ rotating ∨ v.status ≠ .bonded) →
    applyUpdates set updates v.consensusPubkey = (last.get? addr).getD 0
  waiting : ∀ {addr v}, vals.get? addr = some v → addr ∈ rotating → v.status = .bonded →
    v.consensusPubkey ∉ updates.map ValidatorUpdate.pubKey ∧ set v.consensusPubkey ≠ 0
  absent : ∀ {key}, (∀ {addr v}, vals.get? addr = some v → v.consensusPubkey ≠ key) →
    set key = 0
  unvisited : ∀ addr ∈ rest, addr ∈ rotating → ∃ power, remaining.get? addr = some power

/-- Keys are apart: different operators hold different keys. -/
def KeysApart (vals : Store Address Validator) : Prop :=
  ∀ {left right v w}, vals.get? left = some v → vals.get? right = some w →
    v.consensusPubkey = w.consensusPubkey → left = right

theorem ConsOK.keysApart {consAddress : PubKey → Address} {vals : Store Address Validator}
    {byCons : Store Address Address} (ok : ConsOK consAddress vals byCons) : KeysApart vals :=
  fun storedLeft storedRight same =>
    ok.operator_unique storedLeft storedRight (congrArg consAddress same)

namespace LoopOK

variable {set : CometSet} {rotating rest : List Address} {remaining : Store Address Int}
  {total : Int} {updates : List ValidatorUpdate} {vals : Store Address Validator}
  {last : Store Address Int}

theorem start {lastTotal : Int} (ok : LastOK vals last lastTotal) (tracks : Tracks set vals last)
    (isBonded : ∀ addr ∈ rotating, ∃ v, vals.get? addr = some v ∧ v.status = .bonded) :
    LoopOK set rotating rest last 0 [] vals last where
  nodup := nodup_nil
  zero := fun _ none => absurd none not_mem_nil
  old := fun found => found
  bonded := by
    intro addr power found
    obtain ⟨v, stored, status⟩ := ok.bonded found
    refine ⟨v, stored, status, ?_⟩
    intro absent
    rw [found] at absent
    cases absent
  recorded := ok.recorded
  powerPos := ok.powerPos
  total_eq := (add_zero _).symm
  ahead := fun _ _ => rfl
  owner := fun _ none => absurd none not_mem_nil
  inSet := by
    intro addr power v found stored
    rw [tracks.stored stored, found, Option.getD_some]
  tracked := fun stored _ => tracks.stored stored
  waiting := by
    intro addr v stored _ status
    refine ⟨not_mem_nil, ?_⟩
    obtain ⟨power, found⟩ := ok.recorded stored status
    have positive := ok.powerPos found
    rw [tracks.stored stored, found, Option.getD_some]
    omega
  absent := tracks.absent
  unvisited := by
    intro addr _ rotates
    obtain ⟨v, stored, status⟩ := isBonded addr rotates
    exact ok.recorded stored status

/-- Nobody has an update under the key of a validator that was not met yet. -/
theorem key_fresh (ok : LoopOK set rotating rest remaining total updates vals last)
    (apart : KeysApart vals) {addr : Address} {v : Validator} (stored : vals.get? addr = some v)
    (unmet : addr ∈ rest ∨ remaining.get? addr ≠ none) :
    v.consensusPubkey ∉ updates.map ValidatorUpdate.pubKey := by
  intro member
  obtain ⟨update, listed, same⟩ := mem_map.mp member
  obtain ⟨other, w, storedOther, key, met, gone⟩ := ok.owner update listed
  have here : other = addr := apart storedOther stored (key.trans same)
  subst here
  rcases unmet with ahead | present
  · exact met ahead
  · exact present gone

/-- A round that meets the validator at `addr`: its record keeps the key, only its own last
power changes and only its own update may be added. -/
theorem meet {rest' : List Address} {addr : Address} {v v' : Validator} {total' : Int}
    {updates' : List ValidatorUpdate} {last' : Store Address Int}
    (ok : LoopOK set rotating rest remaining total updates vals last) (apart : KeysApart vals)
    (stored : vals.get? addr = some v) (sameKey : v'.consensusPubkey = v.consensusPubkey)
    (unmet : addr ∈ rest ∨ remaining.get? addr ≠ none)
    (shorter : ∀ other, other ∈ rest' ↔ other ∈ rest ∧ other ≠ addr)
    (acceptable : Acceptable set updates') (listed : ∀ update ∈ updates', update ∈ updates
      ∨ update.pubKey = v'.consensusPubkey ∧ (addr ∈ rotating → v'.status ≠ .bonded))
    (others : ∀ key ≠ v'.consensusPubkey,
      applyUpdates set updates' key = applyUpdates set updates key)
    (sameLast : ∀ other ≠ addr, last'.get? other = last.get? other)
    (power : ∀ recorded, last'.get? addr = some recorded → v'.status = .bonded ∧ 0 < recorded
      ∧ recorded = v'.consensusPower ∧ v'.jailed = false)
    (onRecord : v'.status = .bonded → ∃ recorded, last'.get? addr = some recorded)
    (total_eq : (last'.sum fun _ recorded => recorded)
      = ((remaining.delete addr).sum fun _ recorded => recorded) + total')
    (updated : addr ∉ rotating ∨ v'.status ≠ .bonded →
      applyUpdates set updates' v'.consensusPubkey = (last'.get? addr).getD 0)
    (inSet : addr ∈ rotating → v'.status = .bonded → set v'.consensusPubkey ≠ 0) :
    LoopOK set rotating rest' (remaining.delete addr) total' updates' (vals.set addr v') last' := by
  have keyFresh := ok.key_fresh apart stored unmet
  rw [← sameKey] at keyFresh
  have elsewhere : ∀ {other w}, vals.get? other = some w → other ≠ addr →
      w.consensusPubkey ≠ v'.consensusPubkey := by
    intro other w present different same
    exact different (apart present stored (same.trans sameKey))
  exact
    { acceptable with
      old := by
        intro other recorded found
        obtain ⟨different, before⟩ := get?_delete_some found
        rw [sameLast other different]
        exact ok.old before
      bonded := by
        intro other recorded found
        by_cases here : other = addr
        · subst here
          obtain ⟨isBonded, _, isPower, free⟩ := power recorded found
          exact ⟨v', get?_set_self, isBonded, fun _ => ⟨isPower, free⟩⟩
        · rw [sameLast other here] at found
          obtain ⟨w, present, status, exact'⟩ := ok.bonded found
          refine ⟨w, by rw [get?_set_of_ne here, present], status, ?_⟩
          intro gone
          rw [get?_delete_of_ne here] at gone
          exact exact' gone
      recorded := by
        intro other w found status
        rcases get?_set_cases found with ⟨rfl, rfl⟩ | ⟨different, present⟩
        · exact onRecord status
        · rw [sameLast other different]
          exact ok.recorded present status
      powerPos := by
        intro other recorded found
        by_cases here : other = addr
        · subst here
          exact (power recorded found).2.1
        · rw [sameLast other here] at found
          exact ok.powerPos found
      total_eq := total_eq
      ahead := by
        intro other member
        obtain ⟨inRest, different⟩ := (shorter other).mp member
        rw [sameLast other different, get?_delete_of_ne different]
        exact ok.ahead other inRest
      owner := by
        intro update member
        rcases listed update member with before | ⟨isKey, _⟩
        · obtain ⟨other, w, present, key, met, gone⟩ := ok.owner update before
          have different : other ≠ addr := by
            intro here
            subst here
            rcases unmet with ahead | present'
            · exact met ahead
            · exact present' gone
          refine ⟨other, w, by rw [get?_set_of_ne different, present], key,
            fun ahead => met ((shorter other).mp ahead).1, ?_⟩
          rw [get?_delete_of_ne different, gone]
        · exact ⟨addr, v', get?_set_self, isKey.symm,
            fun ahead => ((shorter addr).mp ahead).2 rfl, get?_delete_self⟩
      inSet := by
        intro other recorded w found present
        obtain ⟨different, before⟩ := get?_delete_some found
        rw [get?_set_of_ne different] at present
        exact ok.inSet before present
      tracked := by
        intro other w found settled
        rcases get?_set_cases found with ⟨rfl, rfl⟩ | ⟨different, present⟩
        · exact updated settled
        · rw [others _ (elsewhere present different), sameLast other different]
          exact ok.tracked present settled
      waiting := by
        intro other w found rotates status
        -- no update under the key of a validator that waits for its rotation
        have unlisted : w.consensusPubkey ∉ updates.map ValidatorUpdate.pubKey →
            (w.consensusPubkey = v'.consensusPubkey → other = addr ∧ w = v') →
            w.consensusPubkey ∉ updates'.map ValidatorUpdate.pubKey := by
          intro before onlyHere member
          obtain ⟨update, inList, same⟩ := mem_map.mp member
          rcases listed update inList with old | ⟨isKey, steady⟩
          · exact before (mem_map.mpr ⟨update, old, same⟩)
          · obtain ⟨rfl, rfl⟩ := onlyHere (same.symm.trans isKey)
            exact steady rotates status
        rcases get?_set_cases found with ⟨rfl, rfl⟩ | ⟨different, present⟩
        · exact ⟨unlisted keyFresh fun _ => ⟨rfl, rfl⟩, inSet rotates status⟩
        · obtain ⟨before, inSet'⟩ := ok.waiting present rotates status
          exact ⟨unlisted before fun same => absurd same (elsewhere present different), inSet'⟩
      absent := by
        intro key unheld
        refine ok.absent ?_
        intro other w present
        by_cases same : other = addr
        · subst same
          rw [some_unique present stored, ← sameKey]
          exact unheld get?_set_self
        · exact unheld (by rw [get?_set_of_ne same, present])
      unvisited := by
        intro other member rotates
        obtain ⟨inRest, different⟩ := (shorter other).mp member
        rw [get?_delete_of_ne different]
        exact ok.unvisited other inRest rotates }

/-- One round of the first loop: the validator at `addr` is bonded, its power is
recorded and, unless it rotates its key, an update is listed if the power changed. -/
theorem enter {addr : Address} {v v' : Validator}
    (ok : LoopOK set rotating (addr :: rest) remaining total updates vals last)
    (apart : KeysApart vals) (once : addr ∉ rest) (stored : vals.get? addr = some v)
    (sameKey : v'.consensusPubkey = v.consensusPubkey) (isBonded : v'.status = .bonded)
    (free : v'.jailed = false) (power : 0 < v'.consensusPower) :
    LoopOK set rotating rest (remaining.delete addr) (total + v'.consensusPower)
      (if remaining.get? addr ≠ some v'.consensusPower ∧ addr ∉ rotating
        then updates ++ [v'.abciValidatorUpdate] else updates)
      (vals.set addr v')
      (if remaining.get? addr ≠ some v'.consensusPower then last.set addr v'.consensusPower
        else last) := by
  have sameLast : last.get? addr = remaining.get? addr := ok.ahead addr mem_cons_self
  have keyFresh := ok.key_fresh apart stored (.inl mem_cons_self)
  rw [← sameKey] at keyFresh
  -- an unchanged power is already on record
  have written : (if remaining.get? addr ≠ some v'.consensusPower
      then last.set addr v'.consensusPower else last) = last.set addr v'.consensusPower := by
    split_ifs with changed
    · rfl
    · rw [not_not] at changed
      exact (set_eq_self (sameLast.trans changed)).symm
  rw [written]
  apply ok.meet apart stored sameKey (.inl mem_cons_self)
  case shorter =>
    intro other
    rw [mem_cons]
    constructor
    · exact fun later => ⟨.inr later, fun same => once (same ▸ later)⟩
    · rintro ⟨either, different⟩
      exact either.resolve_left different
  case acceptable =>
    split_ifs
    · refine ok.toAcceptable.append keyFresh ?_
      intro zero
      exact absurd zero (show v'.consensusPower ≠ 0 by omega)
    · exact ok.toAcceptable
  case listed =>
    intro update member
    split_ifs at member with appended
    · rcases mem_append.mp member with before | new
      · exact .inl before
      · rw [mem_singleton.mp new]
        exact .inr ⟨rfl, fun rotates => absurd rotates appended.2⟩
    · exact .inl member
  case others =>
    intro key different
    split_ifs
    · exact applyUpdates_append_of_ne different
    · rfl
  case sameLast => exact fun other different => get?_set_of_ne different
  case power =>
    intro recorded found
    rw [get?_set_self] at found
    cases found
    exact ⟨isBonded, power, rfl, free⟩
  case onRecord => exact fun _ => ⟨_, get?_set_self⟩
  case total_eq =>
    have totals := ok.total_eq
    rw [Store.sum_set, sum_delete, Store.termAt, Store.termAt, sameLast]
    omega
  case updated =>
    intro settled
    have steady : addr ∉ rotating := settled.resolve_right (absurd isBonded)
    rw [get?_set_self, Option.getD_some]
    split_ifs with appended
    · exact applyUpdates_append_self v'.abciValidatorUpdate
    · have unchanged : remaining.get? addr = some v'.consensusPower := by
        by_contra changed
        exact appended ⟨changed, steady⟩
      rw [sameKey, ok.tracked stored (.inl steady), sameLast, unchanged, Option.getD_some]
  case inSet =>
    intro rotates _
    obtain ⟨recorded, before⟩ := ok.unvisited addr mem_cons_self rotates
    have positive := ok.powerPos (ok.old before)
    rw [sameKey, ok.inSet before stored]
    omega

/-- The first loop may end before the index does. -/
theorem stop (ok : LoopOK set rotating rest remaining total updates vals last) :
    LoopOK set rotating [] remaining total updates vals last :=
  { ok with
    ahead := fun _ none => absurd none not_mem_nil
    owner := by
      intro update member
      obtain ⟨addr, v, stored, key, _, gone⟩ := ok.owner update member
      exact ⟨addr, v, stored, key, not_mem_nil, gone⟩
    unvisited := fun _ none => absurd none not_mem_nil }

/-- One round of the second loop: a validator of the previous set that was not met
starts to unbond and is removed from the set. -/
theorem leave {addr : Address} {power : Int} {v v' : Validator}
    (ok : LoopOK set rotating [] remaining total updates vals last) (apart : KeysApart vals)
    (unmet : remaining.get? addr = some power) (stored : vals.get? addr = some v)
    (sameKey : v'.consensusPubkey = v.consensusPubkey) (notBonded : v'.status ≠ .bonded) :
    LoopOK set rotating [] (remaining.delete addr) total
      (updates ++ [v'.abciValidatorUpdateZero]) (vals.set addr v') (last.delete addr) := by
  have onRecord := ok.old unmet
  have positive := ok.powerPos onRecord
  have inSet := ok.inSet unmet stored
  have stillThere : remaining.get? addr ≠ none := by simp [unmet]
  have keyFresh := ok.key_fresh apart stored (.inr stillThere)
  rw [← sameKey] at keyFresh inSet
  apply ok.meet apart stored sameKey (.inr stillThere)
  case shorter => simp
  case acceptable =>
    refine ok.toAcceptable.append keyFresh ?_
    intro _
    show set v'.consensusPubkey ≠ 0
    omega
  case listed =>
    intro update member
    rcases mem_append.mp member with before | new
    · exact .inl before
    · rw [mem_singleton.mp new]
      exact .inr ⟨rfl, fun _ => notBonded⟩
  case others => exact fun key different => applyUpdates_append_of_ne different
  case sameLast => exact fun other different => get?_delete_of_ne different
  case power =>
    intro recorded found
    rw [get?_delete_self] at found
    cases found
  case onRecord => exact fun isBonded => absurd isBonded notBonded
  case total_eq =>
    have totals := ok.total_eq
    rw [sum_delete, sum_delete, termAt_of_some onRecord,
      termAt_of_some unmet]
    omega
  case updated =>
    intro _
    rw [get?_delete_self]
    exact applyUpdates_append_self v'.abciValidatorUpdateZero
  case inSet => exact fun _ isBonded => absurd isBonded notBonded

end LoopOK

/-! ## Rotating -/

/-- Invariant of the loop over the rotations of a block; `rest` are those still to be
applied. -/
structure RotateOK (set : CometSet) (rest : List ConsPubKeyRotationHistory)
    (updates : List ValidatorUpdate) (vals : Store Address Validator)
    (last : Store Address Int) : Prop extends Acceptable set updates where
  powers : ∀ {addr power}, last.get? addr = some power →
    ∃ v, vals.get? addr = some v ∧ v.status = .bonded ∧ power = v.consensusPower
      ∧ v.jailed = false
  recorded : ∀ {addr v}, vals.get? addr = some v → v.status = .bonded →
    ∃ power, last.get? addr = some power
  powerPos : ∀ {addr power}, last.get? addr = some power → 0 < power
  tracked : ∀ {addr v}, vals.get? addr = some v →
    (addr ∉ rest.map ConsPubKeyRotationHistory.operatorAddress ∨ v.status ≠ .bonded) →
    applyUpdates set updates v.consensusPubkey = (last.get? addr).getD 0
  waiting : ∀ history ∈ rest, ∃ v, vals.get? history.operatorAddress = some v
    ∧ v.consensusPubkey = history.oldConsPubkey
    ∧ (v.status = .bonded → v.consensusPubkey ∉ updates.map ValidatorUpdate.pubKey
        ∧ set v.consensusPubkey ≠ 0)
  fresh : ∀ history ∈ rest, history.newConsPubkey ∉ updates.map ValidatorUpdate.pubKey
    ∧ ∀ {addr v}, vals.get? addr = some v → v.consensusPubkey ≠ history.newConsPubkey
  absent : ∀ {key}, (∀ {addr v}, vals.get? addr = some v → v.consensusPubkey ≠ key) →
    applyUpdates set updates key = 0
  once : (rest.map ConsPubKeyRotationHistory.operatorAddress).Nodup
  newOnce : (rest.map ConsPubKeyRotationHistory.newConsPubkey).Nodup

namespace RotateOK

variable {set : CometSet} {rest : List ConsPubKeyRotationHistory}
  {history : ConsPubKeyRotationHistory} {updates : List ValidatorUpdate}
  {vals : Store Address Validator} {last : Store Address Int}

theorem start {remaining : Store Address Int} {total : Int}
    (ok : LoopOK set (rest.map ConsPubKeyRotationHistory.operatorAddress) [] remaining total
      updates vals last)
    (met : ∀ addr, remaining.get? addr = none)
    (holds : ∀ history ∈ rest, ∃ v, vals.get? history.operatorAddress = some v
      ∧ v.consensusPubkey = history.oldConsPubkey)
    (unheld : ∀ history ∈ rest, ∀ {addr v}, vals.get? addr = some v →
      v.consensusPubkey ≠ history.newConsPubkey)
    (once : (rest.map ConsPubKeyRotationHistory.operatorAddress).Nodup)
    (newOnce : (rest.map ConsPubKeyRotationHistory.newConsPubkey).Nodup) :
    RotateOK set rest updates vals last := by
  have unlisted : ∀ {key}, (∀ {addr v}, vals.get? addr = some v → v.consensusPubkey ≠ key) →
      key ∉ updates.map ValidatorUpdate.pubKey := by
    intro key nobody member
    obtain ⟨update, inList, same⟩ := mem_map.mp member
    obtain ⟨addr, v, stored, held, _⟩ := ok.owner update inList
    exact nobody stored (held.trans same)
  exact
    { ok.toAcceptable with
      powers := by
        intro addr power found
        obtain ⟨v, stored, status, exact'⟩ := ok.bonded found
        exact ⟨v, stored, status, exact' (met addr)⟩
      recorded := ok.recorded
      powerPos := ok.powerPos
      tracked := ok.tracked
      waiting := by
        intro history member
        obtain ⟨v, stored, held⟩ := holds history member
        exact ⟨v, stored, held, ok.waiting stored (mem_map_of_mem member)⟩
      fresh := fun history member => ⟨unlisted (unheld history member), unheld history member⟩
      absent := by
        intro key nobody
        rw [applyUpdates_of_not_mem (unlisted nobody)]
        exact ok.absent nobody
      once := once
      newOnce := newOnce }

/-- A rotation of a validator that left the set is dropped. -/
theorem skip (ok : RotateOK set (history :: rest) updates vals last) {v : Validator}
    (stored : vals.get? history.operatorAddress = some v) (notBonded : v.status ≠ .bonded) :
    RotateOK set rest updates vals last :=
  { ok with
    tracked := by
      intro addr w present settled
      by_cases here : addr = history.operatorAddress
      · subst here
        have same : w = v := some_unique present stored
        exact ok.tracked present (.inr (same ▸ notBonded))
      · refine ok.tracked present (settled.imp_left ?_)
        intro later member
        rcases mem_cons.mp member with first | inRest
        · exact here first
        · exact later inRest
    waiting := fun other member => ok.waiting other (mem_cons_of_mem history member)
    fresh := fun other member => ok.fresh other (mem_cons_of_mem history member)
    once := (nodup_cons.mp ok.once).2
    newOnce := (nodup_cons.mp ok.newOnce).2 }

/-- A rotation of a validator in the set: the old key is removed, the new one added
with the validator's power. -/
theorem rotate (ok : RotateOK set (history :: rest) updates vals last) (apart : KeysApart vals)
    {v v' : Validator} (stored : vals.get? history.operatorAddress = some v)
    (isBonded : v.status = .bonded) (newKey : v'.consensusPubkey = history.newConsPubkey)
    (sameStatus : v'.status = v.status) (samePower : v'.consensusPower = v.consensusPower)
    (sameJail : v'.jailed = v.jailed) :
    RotateOK set rest
      (updates ++ [⟨history.oldConsPubkey, 0⟩, ⟨history.newConsPubkey, v.consensusPower⟩])
      (vals.set history.operatorAddress v') last := by
  obtain ⟨w, storedW, oldKey, inSet⟩ := ok.waiting history mem_cons_self
  obtain rfl : w = v := some_unique storedW stored
  obtain ⟨oldUnlisted, oldInSet⟩ := inSet isBonded
  obtain ⟨newUnlisted, newUnheld⟩ := ok.fresh history mem_cons_self
  obtain ⟨power, onRecord⟩ := ok.recorded stored isBonded
  obtain ⟨u, storedU, _, powerEq, _⟩ := ok.powers onRecord
  obtain rfl : u = w := some_unique storedU stored
  have positive := ok.powerPos onRecord
  rw [oldKey] at oldUnlisted oldInSet
  have keysDiffer : history.newConsPubkey ≠ history.oldConsPubkey := by
    rw [← oldKey]
    exact (newUnheld stored).symm
  have split : updates ++ [⟨history.oldConsPubkey, 0⟩, ⟨history.newConsPubkey, u.consensusPower⟩]
      = (updates ++ [⟨history.oldConsPubkey, 0⟩])
        ++ [⟨history.newConsPubkey, u.consensusPower⟩] := by simp
  have elsewhere : ∀ {other x}, vals.get? other = some x → other ≠ history.operatorAddress →
      x.consensusPubkey ≠ history.oldConsPubkey := by
    intro other x present different same
    exact different (apart present stored (same.trans oldKey.symm))
  have unlisted : ∀ {key}, key ∉ updates.map ValidatorUpdate.pubKey → key ≠ history.oldConsPubkey →
      key ≠ history.newConsPubkey → key ∉ List.map ValidatorUpdate.pubKey
        (updates ++ [⟨history.oldConsPubkey, 0⟩,
          ⟨history.newConsPubkey, u.consensusPower⟩]) := by
    intro key before notOld notNew
    simp only [map_append, map_cons, map_nil, mem_append, mem_cons,
      not_mem_nil, or_false, not_or]
    exact ⟨before, notOld, notNew⟩
  have others : ∀ {key}, key ≠ history.oldConsPubkey → key ≠ history.newConsPubkey →
      applyUpdates set (updates ++ [⟨history.oldConsPubkey, 0⟩,
        ⟨history.newConsPubkey, u.consensusPower⟩]) key = applyUpdates set updates key := by
    intro key notOld notNew
    rw [split, applyUpdates_append_of_ne notNew, applyUpdates_append_of_ne notOld]
  have acceptable : Acceptable set (updates ++ [⟨history.oldConsPubkey, 0⟩,
      ⟨history.newConsPubkey, u.consensusPower⟩]) := by
    rw [split]
    refine (ok.toAcceptable.append oldUnlisted fun _ => oldInSet).append ?_ ?_
    · simp only [map_append, map_cons, map_nil, mem_append,
        mem_singleton, not_or]
      exact ⟨newUnlisted, keysDiffer⟩
    · intro zero
      exact absurd zero (show u.consensusPower ≠ 0 by omega)
  exact
    { acceptable with
      powers := by
        intro addr recorded found
        obtain ⟨x, present, status, exact', free⟩ := ok.powers found
        by_cases here : addr = history.operatorAddress
        · subst here
          have same : x = u := some_unique present stored
          subst same
          exact ⟨v', get?_set_self, sameStatus.trans status,
            exact'.trans samePower.symm, sameJail.trans free⟩
        · exact ⟨x, by rw [get?_set_of_ne here, present], status, exact', free⟩
      recorded := by
        intro addr x found status
        rcases get?_set_cases found with ⟨rfl, rfl⟩ | ⟨_, present⟩
        · exact ⟨power, onRecord⟩
        · exact ok.recorded present status
      powerPos := ok.powerPos
      tracked := by
        intro addr x found settled
        rcases get?_set_cases found with ⟨rfl, rfl⟩ | ⟨different, present⟩
        · rw [newKey, split, onRecord, Option.getD_some, powerEq]
          exact applyUpdates_append_self
            (⟨history.newConsPubkey, u.consensusPower⟩ : ValidatorUpdate)
        · rw [others (elsewhere present different) (newUnheld present)]
          refine ok.tracked present (settled.imp_left ?_)
          intro later member
          rcases mem_cons.mp member with first | inRest
          · exact different first
          · exact later inRest
      waiting := by
        intro other member
        obtain ⟨x, present, held, inSetOther⟩ :=
          ok.waiting other (mem_cons_of_mem history member)
        have different : other.operatorAddress ≠ history.operatorAddress := by
          intro same
          have notAgain := (nodup_cons.mp ok.once).1
          exact notAgain (same ▸ mem_map_of_mem member)
        refine ⟨x, by rw [get?_set_of_ne different, present], held, ?_⟩
        intro status
        obtain ⟨before, inSetX⟩ := inSetOther status
        exact ⟨unlisted before (elsewhere present different) (newUnheld present), inSetX⟩
      fresh := by
        intro other member
        obtain ⟨before, nobody⟩ := ok.fresh other (mem_cons_of_mem history member)
        have notNew : other.newConsPubkey ≠ history.newConsPubkey := by
          intro same
          have notAgain := (nodup_cons.mp ok.newOnce).1
          exact notAgain (same ▸ mem_map_of_mem member)
        have notOld : other.newConsPubkey ≠ history.oldConsPubkey := by
          rw [← oldKey]
          exact (nobody stored).symm
        refine ⟨unlisted before notOld notNew, ?_⟩
        intro addr x found
        rcases get?_set_cases found with ⟨_, rfl⟩ | ⟨_, present⟩
        · rw [newKey]
          exact notNew.symm
        · exact nobody present
      absent := by
        intro key nobody
        have notNew : key ≠ history.newConsPubkey := by
          rw [← newKey]
          exact (nobody get?_set_self).symm
        by_cases isOld : key = history.oldConsPubkey
        · rw [split, applyUpdates_append_of_ne notNew, isOld]
          exact applyUpdates_append_self (⟨history.oldConsPubkey, 0⟩ : ValidatorUpdate)
        · rw [others isOld notNew]
          refine ok.absent ?_
          intro addr x present
          by_cases here : addr = history.operatorAddress
          · subst here
            rw [some_unique present stored, oldKey]
            exact Ne.symm isOld
          · exact nobody (by rw [get?_set_of_ne here, present])
      once := (nodup_cons.mp ok.once).2
      newOnce := (nodup_cons.mp ok.newOnce).2 }

/-- After the last rotation the updated set agrees with the records. -/
theorem finish (ok : RotateOK set [] updates vals last) :
    Tracks (applyUpdates set updates) vals last :=
  ⟨fun stored => ok.tracked stored (.inl not_mem_nil), ok.absent⟩

end RotateOK


end AtomOneSdk.Staking
