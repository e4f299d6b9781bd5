import AtomOneSdk.Lib.Store

/-!
Contract: branches of a store.

Owns: a branch as the changed keys over a parent, its reads, its writes and the flush into
the parent, and that a flush amounts to the writes in the order they were made.

Does **not** own: which branch is flushed.
-/

namespace AtomOneSdk.Lib

variable {K V : Type} [LinearOrder K]

/-- One write of a store. -/
inductive Write (K V : Type) where
  | set (key : K) (value : V)
  | delete (key : K)
deriving DecidableEq, Repr

def Write.applyTo (store : Store K V) : Write K V → Store K V
  | .set key value => store.set key value
  | .delete key => store.delete key

def applyWrites (writes : List (Write K V)) (store : Store K V) : Store K V :=
  writes.foldl Write.applyTo store

@[simp] theorem applyWrites_nil (store : Store K V) : applyWrites [] store = store := rfl

theorem applyWrites_append (first second : List (Write K V)) (store : Store K V) :
    applyWrites (first ++ second) store = applyWrites second (applyWrites first store) :=
  List.foldl_append

/-- A branch: the keys written since it was made, with their value or their removal. -/
structure CacheStore (K V : Type) [LinearOrder K] where
  parent : Store K V
  dirty : Store K (Option V)

namespace CacheStore

def branch (parent : Store K V) : CacheStore K V := ⟨parent, ∅⟩

/-- Reads of unchanged keys go to the parent. -/
def get? (cache : CacheStore K V) (key : K) : Option V :=
  match cache.dirty.get? key with
  | some changed => changed
  | none => cache.parent.get? key

def apply (cache : CacheStore K V) : Write K V → CacheStore K V
  | .set key value => { cache with dirty := cache.dirty.set key (some value) }
  | .delete key => { cache with dirty := cache.dirty.set key none }

def applyAll (cache : CacheStore K V) (writes : List (Write K V)) : CacheStore K V :=
  writes.foldl apply cache

def flush (store : Store K V) (entry : K × Option V) : Store K V :=
  match entry.2 with
  | some value => store.set entry.1 value
  | none => store.delete entry.1

/-- The parent after `Write`: the changed keys are flushed in key order. -/
def write (cache : CacheStore K V) : Store K V :=
  cache.dirty.entries.foldl flush cache.parent

theorem get?_flush (store : Store K V) (entry : K × Option V) (key : K) :
    (flush store entry).get? key = if key = entry.1 then entry.2 else store.get? key := by
  obtain ⟨name, changed⟩ := entry
  cases changed with
  | none => exact Store.get?_delete store name key
  | some value => exact Store.get?_set store name key value

theorem get?_flushAll (key : K) :
    ∀ (entries : List (K × Option V)) (store : Store K V),
      entries.Pairwise (fun first second => first.1 < second.1) →
      (entries.foldl flush store).get? key = (lookupEntry key entries).getD (store.get? key)
  | [], _, _ => rfl
  | entry :: rest, store, sorted => by
    rw [List.foldl_cons, get?_flushAll key rest _ sorted.of_cons, get?_flush, lookupEntry]
    by_cases here : key = entry.1
    · rw [if_pos here, if_pos here, here, lookupEntry_tail sorted]
      rfl
    · rw [if_neg here, if_neg here]

theorem get?_write (cache : CacheStore K V) (key : K) : cache.write.get? key = cache.get? key := by
  rw [write, get?_flushAll key _ _ cache.dirty.sorted, get?]
  show (cache.dirty.get? key).getD _ = _
  cases cache.dirty.get? key with
  | none => rfl
  | some changed => rfl

@[simp] theorem write_branch (parent : Store K V) : (branch parent).write = parent := rfl

theorem get?_apply (cache : CacheStore K V) (change : Write K V) (key : K) :
    (cache.apply change).get? key = (change.applyTo cache.write).get? key := by
  cases change with
  | set name value =>
    show CacheStore.get? ⟨cache.parent, cache.dirty.set name (some value)⟩ key = _
    rw [get?, Store.get?_set, Write.applyTo, Store.get?_set, get?_write, get?]
    split_ifs <;> rfl
  | delete name =>
    show CacheStore.get? ⟨cache.parent, cache.dirty.set name none⟩ key = _
    rw [get?, Store.get?_set, Write.applyTo, Store.get?_delete, get?_write, get?]
    split_ifs <;> rfl

theorem write_apply (cache : CacheStore K V) (change : Write K V) :
    (cache.apply change).write = change.applyTo cache.write := by
  apply Store.ext
  intro key
  rw [get?_write, get?_apply]

/-- A flush amounts to the writes in the order they were made. -/
@[simp] theorem write_applyAll :
    ∀ (writes : List (Write K V)) (cache : CacheStore K V),
      (cache.applyAll writes).write = applyWrites writes cache.write
  | [], _ => rfl
  | change :: rest, cache => by
    show ((cache.apply change).applyAll rest).write = applyWrites rest (change.applyTo cache.write)
    rw [write_applyAll rest, write_apply]

end CacheStore

end AtomOneSdk.Lib
