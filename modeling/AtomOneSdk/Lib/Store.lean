import Mathlib.Algebra.BigOperators.Group.List.Lemmas
import Mathlib.Algebra.Order.BigOperators.Group.List
import Mathlib.Data.List.Lex
import Mathlib.Data.Prod.Lex
import Mathlib.Tactic

/-!
Contract: finite key-value stores iterated in key order.

Owns: the store type (its entries are strictly sorted by key, so a key has at
most one entry and equal lookups mean equal stores), the operations `get?`,
`set` and `delete` with their lookup laws, sums of a function over all entries
with the laws that say how a write changes such a sum, and lexicographically
ordered key pairs, and point changes of integer-valued functions.

Does **not** own: any particular key, value or prefix scheme.
-/

namespace AtomOneSdk.Lib

open List

theorem some_unique {α : Type} {found : Option α} {a b : α} (first : found = some a)
    (second : found = some b) : a = b :=
  Option.some.inj (first.symm.trans second)

/-! ## Key pairs -/

/-- A key made of two parts, compared by the first and then by the second. -/
structure Pair (α β : Type) where
  fst : α
  snd : β
deriving DecidableEq, Repr

instance {α β : Type} [LinearOrder α] [LinearOrder β] : LinearOrder (Pair α β) :=
  LinearOrder.lift' (fun pair => toLex (pair.fst, pair.snd)) (by
    rintro ⟨a, b⟩ ⟨c, d⟩ same
    simpa using same)

/-! ## Point changes -/

section Shift

variable {K : Type} [DecidableEq K]

/-- Add an amount to one value of a function. -/
def shift (f : K → Int) (key : K) (amount : Int) : K → Int :=
  fun other => f other + if other = key then amount else 0

@[simp] theorem shift_self (f : K → Int) (key : K) (amount : Int) :
    shift f key amount key = f key + amount := by
  simp [shift]

theorem shift_of_ne (f : K → Int) {key other : K} (amount : Int) (apart : other ≠ key) :
    shift f key amount other = f other := by
  simp [shift, apart]

@[simp] theorem shift_shift (f : K → Int) (key : K) (first second : Int) :
    shift (shift f key first) key second = shift f key (first + second) := by
  funext other
  simp only [shift]
  split_ifs <;> omega

@[simp] theorem shift_zero (f : K → Int) (key : K) : shift f key 0 = f := by
  funext other
  simp [shift]

end Shift

/-! ## Entry lists -/

section Entries

variable {K V : Type} [LinearOrder K]

def lookupEntry (key : K) : List (K × V) → Option V
  | [] => none
  | (head, value) :: rest => if key = head then some value else lookupEntry key rest

/-- Insertion at the key's place, replacing an entry with the same key. -/
def insertEntry (key : K) (value : V) : List (K × V) → List (K × V)
  | [] => [(key, value)]
  | (head, old) :: rest =>
    if key < head then (key, value) :: (head, old) :: rest
    else if key = head then (key, value) :: rest
    else (head, old) :: insertEntry key value rest

theorem lookupEntry_insertEntry (key other : K) (value : V) :
    ∀ entries : List (K × V),
      lookupEntry other (insertEntry key value entries)
        = if other = key then some value else lookupEntry other entries
  | [] => by simp [insertEntry, lookupEntry]
  | (head, old) :: rest => by
    have tail := lookupEntry_insertEntry key other value rest
    rw [insertEntry]
    by_cases before : key < head
    · simp [before, lookupEntry]
    by_cases same : key = head
    · subst same
      simp only [lt_irrefl, if_false, if_true, lookupEntry]
      split_ifs <;> rfl
    by_cases here : other = key
    · subst here
      simpa [before, same, lookupEntry] using tail
    · simp [before, same, lookupEntry, tail, here]

theorem mem_insertEntry {key : K} {value : V} {entry : K × V} :
    ∀ {entries : List (K × V)},
      entry ∈ insertEntry key value entries → entry = (key, value) ∨ entry ∈ entries
  | [], member => by simpa [insertEntry] using member
  | (head, old) :: rest, member => by
    rw [insertEntry] at member
    split_ifs at member with before same
    · simpa using member
    · rcases mem_cons.mp member with here | there
      · exact Or.inl here
      · exact Or.inr (mem_cons_of_mem _ there)
    · rcases mem_cons.mp member with here | there
      · exact Or.inr (here ▸ mem_cons_self)
      · exact (mem_insertEntry there).imp_right (mem_cons_of_mem _)

theorem insertEntry_sorted (key : K) (value : V) :
    ∀ {entries : List (K × V)}, entries.Pairwise (fun a b => a.1 < b.1) →
      (insertEntry key value entries).Pairwise (fun a b => a.1 < b.1)
  | [], _ => by simp [insertEntry]
  | (head, old) :: rest, sorted => by
    have above := (pairwise_cons.mp sorted).1
    rw [insertEntry]
    split_ifs with before same
    · refine pairwise_cons.mpr ⟨?_, sorted⟩
      intro entry member
      rcases mem_cons.mp member with here | there
      · exact here ▸ before
      · exact before.trans (above entry there)
    · exact pairwise_cons.mpr ⟨same ▸ above, sorted.of_cons⟩
    · refine pairwise_cons.mpr ⟨?_, insertEntry_sorted key value sorted.of_cons⟩
      intro entry member
      rcases mem_insertEntry member with here | there
      · exact here ▸ lt_of_le_of_ne (not_lt.mp before) (Ne.symm same)
      · exact above entry there

theorem lookupEntry_eq_some_iff {key : K} {value : V} :
    ∀ {entries : List (K × V)}, entries.Pairwise (fun a b => a.1 < b.1) →
      (lookupEntry key entries = some value ↔ (key, value) ∈ entries)
  | [], _ => by simp [lookupEntry]
  | (head, old) :: rest, sorted => by
    have above := (pairwise_cons.mp sorted).1
    have tail : lookupEntry key rest = some value ↔ (key, value) ∈ rest :=
      lookupEntry_eq_some_iff sorted.of_cons
    rw [lookupEntry]
    split_ifs with same
    · subst same
      have absent : (key, value) ∉ rest := fun member =>
        lt_irrefl key (above (key, value) member)
      simp [absent, eq_comm]
    · simp [tail, same]

theorem lookupEntry_tail {head : K} {value : V} {rest : List (K × V)}
    (sorted : ((head, value) :: rest).Pairwise fun a b => a.1 < b.1) :
    lookupEntry head rest = none := by
  obtain ⟨later, restSorted⟩ := pairwise_cons.mp sorted
  cases found : lookupEntry head rest with
  | none => rfl
  | some other =>
    have member := (lookupEntry_eq_some_iff restSorted).mp found
    exact absurd (later (head, other) member) (lt_irrefl head)

end Entries

/-! ## Stores -/

/-- A finite map whose entries are held in strictly ascending key order. -/
structure Store (K V : Type) [LinearOrder K] where
  entries : List (K × V)
  sorted : entries.Pairwise (fun a b => a.1 < b.1)
deriving DecidableEq

namespace Store

variable {K V : Type} [LinearOrder K]

instance : EmptyCollection (Store K V) := ⟨⟨[], List.Pairwise.nil⟩⟩

instance : Inhabited (Store K V) := ⟨∅⟩

def get? (store : Store K V) (key : K) : Option V :=
  lookupEntry key store.entries

def has (store : Store K V) (key : K) : Bool :=
  (store.get? key).isSome

def set (store : Store K V) (key : K) (value : V) : Store K V :=
  ⟨insertEntry key value store.entries, insertEntry_sorted key value store.sorted⟩

/-- Remove a key; nothing happens when it is absent. -/
def delete (store : Store K V) (key : K) : Store K V :=
  ⟨store.entries.filter (fun entry => entry.1 ≠ key), store.sorted.filter _⟩

def keys (store : Store K V) : List K :=
  store.entries.map Prod.fst

def values (store : Store K V) : List V :=
  store.entries.map Prod.snd

variable {store : Store K V} {key other : K} {value found : V}

theorem mem_entries :
    (key, value) ∈ store.entries ↔ store.get? key = some value :=
  (lookupEntry_eq_some_iff store.sorted).symm

theorem entries_nodup (store : Store K V) : store.entries.Nodup :=
  store.sorted.imp (fun before same => absurd (congrArg Prod.fst same) before.ne)

theorem keys_nodup (store : Store K V) : store.keys.Nodup :=
  pairwise_map.mpr (store.sorted.imp fun before => before.ne)

theorem mem_keys : key ∈ store.keys ↔ (store.get? key).isSome := by
  simp only [keys, mem_map, Option.isSome_iff_exists]
  constructor
  · rintro ⟨⟨found, value⟩, member, rfl⟩
    exact ⟨value, mem_entries.mp member⟩
  · rintro ⟨value, stored⟩
    exact ⟨(key, value), mem_entries.mpr stored, rfl⟩

@[simp] theorem get?_empty (key : K) : (∅ : Store K V).get? key = none := rfl

theorem get?_set (store : Store K V) (key other : K) (value : V) :
    (store.set key value).get? other = if other = key then some value else store.get? other :=
  lookupEntry_insertEntry key other value store.entries

@[simp] theorem get?_set_self :
    (store.set key value).get? key = some value := by
  simp [get?_set]

theorem get?_set_of_ne (apart : other ≠ key) :
    (store.set key value).get? other = store.get? other := by
  simp [get?_set, apart]

theorem get?_delete (store : Store K V) (key other : K) :
    (store.delete key).get? other = if other = key then none else store.get? other := by
  apply Option.ext
  intro value
  rw [← mem_entries]
  split_ifs with same
  · simp [delete, same]
  · simp [delete, same, mem_entries]

@[simp] theorem get?_delete_self :
    (store.delete key).get? key = none := by
  simp [get?_delete]

theorem get?_delete_of_ne (apart : other ≠ key) :
    (store.delete key).get? other = store.get? other := by
  simp [get?_delete, apart]

theorem view_set {W : Type} [DecidableEq K] (view : Option V → W) (store : Store K V) (key : K)
    (value : V) :
    (fun other => view ((store.set key value).get? other))
      = Function.update (fun other => view (store.get? other)) key (view (some value)) := by
  funext other
  rw [get?_set, Function.update_apply]
  split_ifs
  · rfl
  · rfl

theorem view_delete {W : Type} [DecidableEq K] (view : Option V → W) (store : Store K V) (key : K) :
    (fun other => view ((store.delete key).get? other))
      = Function.update (fun other => view (store.get? other)) key (view none) := by
  funext other
  rw [get?_delete, Function.update_apply]
  split_ifs
  · rfl
  · rfl

/-- A stored key is not one that is absent. -/
theorem ne_of_absent (stored : store.get? other = some value) (absent : store.get? key = none) :
    other ≠ key := by
  intro same
  rw [same, absent] at stored
  cases stored

theorem get?_foldl_delete (key : K) :
    ∀ (deleted : List K) (store : Store K V),
      (deleted.foldl delete store).get? key = if key ∈ deleted then none else store.get? key
  | [], store => by simp
  | head :: tail, store => by
    rw [foldl_cons, get?_foldl_delete key tail, get?_delete]
    by_cases inTail : key ∈ tail
    · simp [inTail]
    · by_cases here : key = head
      · simp [here]
      · simp [inTail, here]

/-- Writing one value under a list of keys in turn. -/
theorem get?_foldl_set (key : K) (value : V) :
    ∀ (written : List K) (store : Store K V),
      (written.foldl (fun current head => current.set head value) store).get? key
        = if key ∈ written then some value else store.get? key
  | [], store => by simp
  | head :: tail, store => by
    rw [foldl_cons, get?_foldl_set key value tail, get?_set]
    by_cases inTail : key ∈ tail
    · simp [inTail]
    · by_cases atHead : key = head
      · simp [atHead]
      · simp [inTail, atHead]

/-- Writing a list of entries leaves the other keys alone. -/
theorem get?_foldl_set_of_not_mem {I : Type} (name : I → K) (value : I → V) :
    ∀ (items : List I) (store : Store K V), (∀ item ∈ items, name item ≠ key) →
      (items.foldl (fun current item => current.set (name item) (value item)) store).get? key
        = store.get? key
  | [], _, _ => rfl
  | item :: rest, store, apart => by
    rw [foldl_cons, get?_foldl_set_of_not_mem name value rest _
      (fun other member => apart other (mem_cons_of_mem item member))]
    exact get?_set_of_ne (Ne.symm (apart item mem_cons_self))

/-- A list of entries with one value for each key is read back. -/
theorem get?_foldl_set_of_mem {I : Type} (name : I → K) (value : I → V) {picked : I} :
    ∀ (items : List I) (store : Store K V), picked ∈ items →
      (∀ item ∈ items, name item = name picked → value item = value picked) →
      (items.foldl (fun current item => current.set (name item) (value item)) store).get?
          (name picked)
        = some (value picked)
  | item :: rest, store, member, unique => by
    rw [foldl_cons]
    by_cases later : ∃ other ∈ rest, name other = name picked
    · obtain ⟨other, inRest, same⟩ := later
      have sameValue := unique other (mem_cons_of_mem item inRest) same
      rw [← same, ← sameValue]
      apply get?_foldl_set_of_mem name value rest _ inRest
      intro third inTail sameName
      rw [sameValue]
      exact unique third (mem_cons_of_mem item inTail) (sameName.trans same)
    · have apart : ∀ other ∈ rest, name other ≠ name picked :=
        fun other inRest same => later ⟨other, inRest, same⟩
      rw [get?_foldl_set_of_not_mem name value rest _ apart]
      have here : picked = item := by
        rcases mem_cons.mp member with same | inRest
        · exact same
        · exact absurd rfl (apart picked inRest)
      rw [here, get?_set_self]

/-- What is found after a write is what was written or was there before. -/
theorem get?_set_cases (present : (store.set key value).get? other = some found) :
    (other = key ∧ found = value) ∨ (other ≠ key ∧ store.get? other = some found) := by
  rw [get?_set] at present
  split_ifs at present with same
  · exact Or.inl ⟨same, (Option.some.inj present).symm⟩
  · exact Or.inr ⟨same, present⟩

theorem get?_one {key other : K} {value found : V} :
    ((∅ : Store K V).set key value).get? other = some found ↔ other = key ∧ found = value := by
  constructor
  · intro present
    cases get?_set_cases present with
    | inl here => exact here
    | inr elsewhere => cases elsewhere.2
  · rintro ⟨isKey, isValue⟩
    rw [isKey, isValue, get?_set_self]

/-- What holds of the written entry and of the entries before holds of every entry. -/
theorem forall_set {store : Store K V} {key : K} {value : V} {holds : K → V → Prop}
    (before : ∀ {k v}, store.get? k = some v → holds k v) (written : holds key value) {other : K}
    {found : V} (present : (store.set key value).get? other = some found) : holds other found := by
  rcases get?_set_cases present with ⟨rfl, rfl⟩ | ⟨_, old⟩
  · exact written
  · exact before old

/-- What is found after a removal was there before, under another key. -/
theorem get?_delete_some (present : (store.delete key).get? other = some found) :
    other ≠ key ∧ store.get? other = some found := by
  rw [get?_delete] at present
  split_ifs at present with same
  exact ⟨same, present⟩

@[ext] theorem ext {left right : Store K V}
    (agree : ∀ key, left.get? key = right.get? key) : left = right := by
  have sameEntries : left.entries = right.entries := by
    refine Perm.eq_of_pairwise ?_ left.sorted right.sorted ?_
    · intro a b _ _ before after
      exact absurd before after.not_gt
    · rw [perm_ext_iff_of_nodup left.entries_nodup right.entries_nodup]
      rintro ⟨key, value⟩
      rw [mem_entries, mem_entries, agree key]
  cases left
  cases right
  simpa using sameEntries

/-- A set of keys is determined by its members. -/
theorem ext_unit {left right : Store K Unit}
    (agree : ∀ key, (left.get? key).isSome ↔ (right.get? key).isSome) : left = right := by
  apply ext
  intro key
  have same := agree key
  cases inLeft : left.get? key with
  | none => cases inRight : right.get? key <;> simp [inLeft, inRight] at same ⊢
  | some _ => cases inRight : right.get? key <;> simp [inLeft, inRight] at same ⊢

theorem set_set (store : Store K V) (key : K) (first second : V) :
    (store.set key first).set key second = store.set key second := by
  ext1 other
  simp only [get?_set]
  split_ifs <;> rfl

theorem delete_set (store : Store K V) (key : K) (value : V) :
    (store.set key value).delete key = store.delete key := by
  ext1 other
  simp only [get?_set, get?_delete]
  split_ifs <;> rfl

theorem set_delete (store : Store K V) (key : K) (value : V) :
    (store.delete key).set key value = store.set key value := by
  ext1 other
  simp only [get?_set, get?_delete]
  split_ifs <;> rfl

theorem set_eq_self (stored : store.get? key = some value) : store.set key value = store := by
  ext1 other
  rw [get?_set]
  split_ifs with same
  · rw [same, stored]
  · rfl

theorem delete_eq_self (absent : store.get? key = none) : store.delete key = store := by
  ext1 other
  rw [get?_delete]
  split_ifs with same
  · rw [same, absent]
  · rfl

/-! ## Sums over all entries -/

section Sum

variable {M : Type} [AddCommMonoid M]

/-- The sum of a function over every entry. -/
def sum (store : Store K V) (f : K → V → M) : M :=
  (store.entries.map fun entry => f entry.1 entry.2).sum

/-- The contribution of one key to a sum. -/
def termAt (store : Store K V) (f : K → V → M) (key : K) : M :=
  (store.get? key).elim 0 (f key)

@[simp] theorem sum_empty (f : K → V → M) : (∅ : Store K V).sum f = 0 := rfl

theorem termAt_of_some (stored : store.get? key = some value) (f : K → V → M) :
    store.termAt f key = f key value := by
  simp [termAt, stored]

theorem termAt_of_none (absent : store.get? key = none) (f : K → V → M) :
    store.termAt f key = 0 := by
  simp [termAt, absent]

private theorem sum_entries_split (f : K → V → M) (key : K) :
    ∀ {entries : List (K × V)}, entries.Pairwise (fun a b => a.1 < b.1) →
      (entries.map fun entry => f entry.1 entry.2).sum
        = (lookupEntry key entries).elim 0 (f key)
          + ((entries.filter fun entry => entry.1 ≠ key).map fun entry =>
              f entry.1 entry.2).sum
  | [], _ => by simp [lookupEntry]
  | (head, value) :: rest, sorted => by
    have above := (pairwise_cons.mp sorted).1
    by_cases same : key = head
    · subst same
      have others : rest.filter (fun entry => entry.1 ≠ key) = rest := by
        rw [filter_eq_self]
        intro entry member
        simpa using (above entry member).ne'
      simp only [lookupEntry, if_true, map_cons, sum_cons, Option.elim_some]
      rw [filter_cons_of_neg (by simp), others]
    · rw [filter_cons_of_pos (by simpa using Ne.symm same)]
      simp only [lookupEntry, same, if_false, map_cons, sum_cons]
      rw [sum_entries_split f key sorted.of_cons, add_left_comm]

/-- A sum is one key's contribution plus the sum without that key. -/
theorem sum_eq_termAt_add (store : Store K V) (f : K → V → M) (key : K) :
    store.sum f = store.termAt f key + (store.delete key).sum f :=
  sum_entries_split f key store.sorted

theorem sum_set_eq_add (store : Store K V) (f : K → V → M) (key : K) (value : V) :
    (store.set key value).sum f = f key value + (store.delete key).sum f := by
  rw [sum_eq_termAt_add _ f key, delete_set, termAt_of_some get?_set_self]

theorem sum_congr {f g : K → V → M}
    (agree : ∀ key value, store.get? key = some value → f key value = g key value) :
    store.sum f = store.sum g := by
  unfold sum
  congr 1
  refine map_congr_left ?_
  rintro ⟨key, value⟩ member
  exact agree key value (mem_entries.mp member)

theorem sum_eq_zero {f : K → V → M}
    (vanish : ∀ key value, store.get? key = some value → f key value = 0) :
    store.sum f = 0 := by
  rw [sum_congr vanish, sum]
  simp

theorem sum_add (store : Store K V) (f g : K → V → M) :
    store.sum (fun key value => f key value + g key value) = store.sum f + store.sum g := by
  simp only [sum, sum_map_add]

/-- The sum over the entries picked by a predicate, as a sum over all of them. -/
theorem sum_filter_entries (store : Store K V) (p : K → V → Bool) (f : K → V → M) :
    ((store.entries.filter fun entry => p entry.1 entry.2).map fun entry =>
        f entry.1 entry.2).sum
      = store.sum (fun key value => if p key value then f key value else 0) := by
  unfold sum
  induction store.entries with
  | nil => rfl
  | cons head tail inductionHypothesis =>
    by_cases picked : p head.1 head.2
    · simp [picked, inductionHypothesis]
    · simp [picked, inductionHypothesis]

/-- A sum over the entries is a sum over the finite set of keys. -/
theorem sum_eq_finset (store : Store K V) (f : K → V → M) :
    store.sum f = ∑ key ∈ store.keys.toFinset, store.termAt f key := by
  rw [sum_toFinset _ store.keys_nodup]
  unfold sum keys
  rw [map_map]
  congr 1
  apply map_congr_left
  intro entry member
  exact (termAt_of_some (mem_entries.mp member) f).symm

/-- Sums over two stores agree when every key contributes the same to both. -/
theorem sum_eq_of_termAt {W : Type} {left : Store K V} {right : Store K W} {f : K → V → M}
    {g : K → W → M} (agree : ∀ key, left.termAt f key = right.termAt g key) :
    left.sum f = right.sum g := by
  have outside : ∀ {U : Type} (store : Store K U) (h : K → U → M) (key : K),
      key ∉ store.keys.toFinset → store.termAt h key = 0 := by
    intro U store h key absent
    apply termAt_of_none
    simpa [mem_keys] using absent
  have inLeft : left.keys.toFinset ⊆ left.keys.toFinset ∪ right.keys.toFinset :=
    Finset.subset_union_left
  have inRight : right.keys.toFinset ⊆ left.keys.toFinset ∪ right.keys.toFinset :=
    Finset.subset_union_right
  rw [sum_eq_finset, sum_eq_finset,
    Finset.sum_subset inLeft fun key _ absent => outside left f key absent,
    Finset.sum_subset inRight fun key _ absent => outside right g key absent]
  exact Finset.sum_congr rfl fun key _ => agree key

theorem sum_comm {L W : Type} [LinearOrder L] (left : Store K V) (right : Store L W)
    (f : K → V → L → W → M) :
    left.sum (fun key value => right.sum (f key value))
      = right.sum (fun key' value' => left.sum fun key value => f key value key' value') := by
  unfold sum
  have swapped := @Multiset.sum_map_sum_map _ _ _ _ (left.entries : Multiset (K × V))
    (right.entries : Multiset (L × W)) fun entry entry' => f entry.1 entry.2 entry'.1 entry'.2
  simpa using swapped

theorem sum_single {p : K → Prop} [DecidablePred p] (picks : ∀ other, p other ↔ other = key)
    (store : Store K V) (f : K → V → M) :
    store.sum (fun other value => if p other then f other value else 0) = store.termAt f key := by
  rw [sum_eq_termAt_add _ _ key, sum_eq_zero]
  · cases stored : store.get? key with
    | none => rw [termAt_of_none stored, termAt_of_none stored, add_zero]
    | some value =>
      rw [termAt_of_some stored, termAt_of_some stored, add_zero]
      exact if_pos ((picks key).mpr rfl)
  · intro other value present
    exact if_neg fun picked => (get?_delete_some present).1 ((picks other).mp picked)

theorem map_sum {N : Type} [AddCommMonoid N] (store : Store K V) (f : K → V → M) (h : M →+ N) :
    h (store.sum f) = store.sum fun key value => h (f key value) := by
  unfold sum
  rw [map_list_sum, map_map]
  rfl

end Sum

section GroupSum

variable {M : Type} [AddCommGroup M]

theorem sum_set (store : Store K V) (f : K → V → M) (key : K) (value : V) :
    (store.set key value).sum f = store.sum f - store.termAt f key + f key value := by
  rw [sum_set_eq_add, sum_eq_termAt_add store f key]
  abel

theorem sum_delete (store : Store K V) (f : K → V → M) (key : K) :
    (store.delete key).sum f = store.sum f - store.termAt f key := by
  rw [sum_eq_termAt_add store f key]
  abel

end GroupSum

section OrderedSum

variable {M : Type} [AddCommGroup M] [PartialOrder M] [IsOrderedAddMonoid M]

theorem sum_nonneg {f : K → V → M}
    (nonneg : ∀ key value, store.get? key = some value → 0 ≤ f key value) :
    0 ≤ store.sum f := by
  refine List.sum_nonneg ?_
  intro term member
  obtain ⟨⟨key, value⟩, stored, rfl⟩ := mem_map.mp member
  exact nonneg key value (mem_entries.mp stored)

theorem sum_le_sum {f g : K → V → M}
    (le : ∀ key value, store.get? key = some value → f key value ≤ g key value) :
    store.sum f ≤ store.sum g := by
  refine List.sum_le_sum ?_
  rintro ⟨key, value⟩ member
  exact le key value (mem_entries.mp member)

/-- One entry's contribution is at most the sum when no contribution is negative. -/
theorem le_sum {f : K → V → M} (stored : store.get? key = some value)
    (nonneg : ∀ other found, store.get? other = some found → 0 ≤ f other found) :
    f key value ≤ store.sum f := by
  rw [sum_eq_termAt_add store f key, termAt_of_some stored]
  refine le_add_of_nonneg_right (sum_nonneg ?_)
  intro other found present
  rw [get?_delete] at present
  split_ifs at present with same
  exact nonneg other found present

end OrderedSum

section FieldSum

variable {F : Type} [Field F]

theorem sum_mul (store : Store K V) (f : K → V → F) (factor : F) :
    store.sum f * factor = store.sum fun key value => f key value * factor :=
  store.map_sum f (AddMonoidHom.mulRight factor)

theorem cast_sum (store : Store K V) (f : K → V → Int) :
    ((store.sum f : Int) : F) = store.sum fun key value => (f key value : F) :=
  store.map_sum f (Int.castAddHom F)

/-- Two sums differ by at most the sum of the differences. -/
theorem abs_sum_sub_sum_le [LinearOrder F] [IsStrictOrderedRing F] {f g bound : K → V → F}
    (close : ∀ key value, store.get? key = some value →
      |f key value - g key value| ≤ bound key value) :
    |store.sum f - store.sum g| ≤ store.sum bound := by
  have above : store.sum f ≤ store.sum g + store.sum bound := by
    rw [← sum_add]
    apply sum_le_sum
    intro key value stored
    have near := (abs_le.mp (close key value stored)).2
    linarith
  have below : store.sum g ≤ store.sum f + store.sum bound := by
    rw [← sum_add]
    apply sum_le_sum
    intro key value stored
    have near := (abs_le.mp (close key value stored)).1
    linarith
  apply abs_le.mpr
  constructor <;> linarith

theorem length_filter_entries (store : Store K V) (p : K → V → Bool) :
    ((store.entries.filter fun entry => p entry.1 entry.2).length : F)
      = store.sum fun key value => if p key value then 1 else 0 := by
  rw [← store.sum_filter_entries p fun _ _ => (1 : F)]
  simp

end FieldSum

end Store

end AtomOneSdk.Lib
