import AtomOneSdk.Lib.Store

/-!
Contract: an index from identifiers to the records that list them.

Owns: when an index is exact, numbers that are given out one after the other as
identifiers, and that both stay so when a record gets a fresh identifier or loses some.

Does **not** own: what a record is.
-/

namespace AtomOneSdk.Lib

open Function List

section Index

variable {I R : Type} [LinearOrder I]

/-- The index leads from every identifier to the record that lists it, and has no other
entries. -/
def Indexed (lists : R → List I) (index : Store I R) : Prop :=
  ∀ id record, index.get? id = some record ↔ id ∈ lists record

namespace Indexed

variable {lists : R → List I} {index : Store I R} (indexed : Indexed lists index) {id : I}

include indexed

theorem unique {first second : R} (inFirst : id ∈ lists first) (inSecond : id ∈ lists second) :
    first = second := by
  have toFirst := (indexed id first).mpr inFirst
  have toSecond := (indexed id second).mpr inSecond
  rw [toFirst] at toSecond
  exact Option.some.inj toSecond

variable [DecidableEq R]

theorem add (record : R) (fresh : ∀ other, id ∉ lists other) :
    Indexed (Function.update lists record (lists record ++ [id])) (index.set id record) := by
  intro other owner
  rw [Store.get?_set, update_apply]
  by_cases isNew : other = id
  · rw [if_pos isNew, isNew]
    by_cases isOwner : owner = record
    · simp [isOwner]
    · simp [isOwner, fresh owner, Ne.symm isOwner]
  · rw [if_neg isNew, indexed other owner]
    by_cases isOwner : owner = record
    · simp [isOwner, isNew]
    · simp [isOwner]

theorem drop {record : R} {kept dropped : List I}
    (split : ∀ id, id ∈ lists record ↔ id ∈ kept ∨ id ∈ dropped)
    (apart : ∀ id ∈ kept, id ∉ dropped) :
    Indexed (Function.update lists record kept) (dropped.foldl Store.delete index) := by
  intro id owner
  rw [Store.get?_foldl_delete, update_apply]
  by_cases isOwner : owner = record
  · rw [if_pos isOwner, isOwner]
    split_ifs with isDropped
    · exact ⟨(nomatch ·), fun isKept => absurd isDropped (apart id isKept)⟩
    · rw [indexed id record, split id]
      exact ⟨fun either => either.resolve_right isDropped, .inl⟩
  · rw [if_neg isOwner]
    split_ifs with isDropped
    · -- a dropped identifier belongs to the record alone
      refine ⟨(nomatch ·), fun isOther => ?_⟩
      exact absurd (indexed.unique isOther ((split id).mpr (.inr isDropped))) isOwner
    · exact indexed id owner

end Indexed

end Index

/-! ## Numbers as identifiers -/

section Numbers

variable {R : Type}

/-- The identifiers up to `last` were given out, none of them twice. -/
structure Numbered (lists : R → List Nat) (index : Store Nat R) (last : Nat) : Prop where
  indexed : Indexed lists index
  distinct : ∀ record, (lists record).Nodup
  used : ∀ record, ∀ id ∈ lists record, id ≤ last

namespace Numbered

variable {lists : R → List Nat} {index : Store Nat R} {last : Nat}
  (numbered : Numbered lists index last)

include numbered

theorem skip : Numbered lists index (last + 1) :=
  ⟨numbered.indexed, numbered.distinct, fun record id member =>
    (numbered.used record id member).trans (Nat.le_succ last)⟩

theorem fresh (record : R) : last + 1 ∉ lists record :=
  fun member => absurd (numbered.used record _ member) (Nat.not_succ_le_self last)

variable [DecidableEq R]

theorem add (record : R) :
    Numbered (Function.update lists record (lists record ++ [last + 1]))
      (index.set (last + 1) record) (last + 1) := by
  refine ⟨numbered.indexed.add record numbered.fresh, ?_, ?_⟩
  · intro other
    rw [update_apply]
    split_ifs
    · rw [nodup_append_comm, singleton_append, nodup_cons]
      exact ⟨numbered.fresh record, numbered.distinct record⟩
    · exact numbered.distinct other
  · intro other id member
    rw [update_apply] at member
    split_ifs at member
    · rcases mem_append.mp member with older | isNew
      · exact numbered.skip.used record id older
      · exact (mem_singleton.mp isNew).le
    · exact numbered.skip.used other id member

/-- A record loses the numbers of the entries that are done. -/
theorem drop {α : Type} {record : R} {entries : List α} {number : α → Nat}
    (isList : lists record = entries.map number) (done : α → Bool) :
    Numbered (Function.update lists record ((entries.filter fun entry => ¬ done entry).map number))
      (((entries.filter done).map number).foldl Store.delete index) last := by
  have distinct := numbered.distinct record
  rw [isList] at distinct
  have kept : ((entries.filter fun entry => ¬ done entry).map number).Sublist (lists record) := by
    rw [isList]
    exact filter_sublist.map number
  refine ⟨numbered.indexed.drop ?_ ?_, ?_, ?_⟩
  · intro id
    rw [isList]
    simp only [mem_map, mem_filter]
    constructor
    · intro found
      obtain ⟨entry, member, isId⟩ := found
      cases isDone : done entry with
      | true => exact .inr ⟨entry, ⟨member, isDone⟩, isId⟩
      | false => exact .inl ⟨entry, ⟨member, by simp [isDone]⟩, isId⟩
    · intro found
      rcases found with ⟨entry, member, isId⟩ | ⟨entry, member, isId⟩
      · exact ⟨entry, member.1, isId⟩
      · exact ⟨entry, member.1, isId⟩
  · intro id isKept isDropped
    obtain ⟨entry, member, isId⟩ := mem_map.mp isKept
    obtain ⟨other, member', isId'⟩ := mem_map.mp isDropped
    have same : entry = other := inj_on_of_nodup_map distinct
      (mem_filter.mp member).1 (mem_filter.mp member').1 (isId.trans isId'.symm)
    have isDone := (mem_filter.mp member').2
    rw [← same] at isDone
    simp [isDone] at member
  · intro other
    rw [update_apply]
    split_ifs
    · exact (numbered.distinct record).sublist kept
    · exact numbered.distinct other
  · intro other id member
    rw [update_apply] at member
    split_ifs at member
    · exact numbered.used record id (kept.subset member)
    · exact numbered.used other id member

theorem clear (record : R) :
    Numbered (Function.update lists record []) ((lists record).foldl Store.delete index) last := by
  have dropped := numbered.drop (map_id (lists record)).symm fun _ => true
  simpa using dropped

end Numbered

end Numbers

end AtomOneSdk.Lib
