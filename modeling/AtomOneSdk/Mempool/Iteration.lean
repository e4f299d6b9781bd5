import AtomOneSdk.Mempool.PriorityNonce

/-!
Contract: what an iteration over an unchanged pool returns.

Owns: what the iterator needs of the indices, the invariant that the next transaction of
every sender still has its node ahead, and from it that an iteration returns every
transaction of every sender, in nonce order, and ends.

Does **not** own: how the indices come to agree.
-/

namespace AtomOneSdk.Mempool

open Lib Store List

variable {C Tx : Type} [LinearOrder C]

/-! ## The order of nodes -/

/-- A node has at least the priority of the nodes behind it, and for equal priorities at
least their weight. -/
theorem TxMeta.before {first second : TxMeta C} (ordered : first < second) :
    second.priority ≤ first.priority
      ∧ (first.priority = second.priority → second.weight ≤ first.weight) := by
  have lexed : toLex (second.priority,
      (⟨second.weight, ⟨second.sender, second.nonce⟩⟩ : Pair C (Pair Sender Nat)))
        < toLex (first.priority, ⟨first.weight, ⟨first.sender, first.nonce⟩⟩) := ordered
  rw [Prod.Lex.toLex_lt_toLex] at lexed
  rcases lexed with higher | tie
  · exact ⟨higher.le, fun same => absurd same higher.ne'⟩
  · obtain ⟨samePriority, lexedRest⟩ := tie
    have inner : toLex (second.weight, (⟨second.sender, second.nonce⟩ : Pair Sender Nat))
        < toLex (first.weight, ⟨first.sender, first.nonce⟩) := lexedRest
    rw [Prod.Lex.toLex_lt_toLex] at inner
    refine ⟨samePriority.le, fun _ => ?_⟩
    rcases inner with heavier | sameWeight
    · exact heavier.le
    · exact sameWeight.1.le

section Iteration

variable [Inhabited C] {cfg : Config C Tx} {mp : Pool C Tx}

abbrev Element (C Tx : Type) := Nat × TxMeta C × Tx

/-- `node` is the node of an element: it is ranked no higher than the element's key says. -/
structure IsNode (mp : Pool C Tx) (element : Element C Tx) (node : TxMeta C) : Prop where
  sender : node.sender = element.2.1.sender
  priority : node.priority ≤ element.2.1.priority
  weight : mp.weight element.2.1.sender element.2.1.nonce = node.weight

/-- What the iterator needs of the indices. -/
structure Linked (cfg : Config C Tx) (mp : Pool C Tx) : Prop where
  least : ∀ priority : C, cfg.minValue ≤ priority
  keyed : ∀ {sender : Sender} {element : Element C Tx},
    element ∈ (mp.senderIndex sender).entries → element.2.1.sender = sender
  node : ∀ {sender : Sender} {element : Element C Tx},
    element ∈ (mp.senderIndex sender).entries →
    ∃ node ∈ mp.priorityIndex.entries, IsNode mp element node.1

/-- An element whose node was reached is not outranked. -/
theorem not_outranked (linked : Linked cfg mp) {element : Element C Tx} {node : TxMeta C}
    (isNode : IsNode mp element node) {behind : List (TxMeta C × Tx)}
    (reached : ∀ next ∈ behind, node < next.1) :
    mp.outranked cfg element.2.1 behind = false := by
  cases behind with
  | nil => simpa [Pool.outranked] using linked.least _
  | cons next rest =>
    obtain ⟨priority, weight⟩ := TxMeta.before (reached next mem_cons_self)
    have least : next.1.priority ≤ element.2.1.priority := priority.trans isNode.priority
    simp only [Pool.outranked, Bool.or_eq_false_iff, Bool.and_eq_false_iff, decide_eq_false_iff_not,
      not_lt]
    refine ⟨least, ?_⟩
    by_cases tie : element.2.1.priority = next.1.priority
    · right
      rw [isNode.weight]
      exact weight (le_antisymm (isNode.priority.trans tie.le) priority)
    · exact Or.inl tie

/-! ## The invariant -/

/-- What is ahead of the cursors is stored. -/
def Stored (mp : Pool C Tx) (cursors : Store Sender (List (Element C Tx))) : Prop :=
  ∀ sender, ∀ element ∈ mp.ahead cursors sender, element ∈ (mp.senderIndex sender).entries

/-- The next element of a sender has its node in a list. -/
def NodeIn (mp : Pool C Tx) (cursors : Store Sender (List (Element C Tx)))
    (nodes : List (TxMeta C × Tx)) (sender : Sender) : Prop :=
  ∀ element later, mp.ahead cursors sender = element :: later →
    ∃ node ∈ nodes, IsNode mp element node.1

/-- The node of every sender's next element is ahead, that of the current sender apart. -/
def Waiting (mp : Pool C Tx) (cursors : Store Sender (List (Element C Tx))) :
    List (TxMeta C × Tx) → Prop
  | [] => ∀ sender, mp.ahead cursors sender = []
  | node :: behind => ∀ sender, sender ≠ node.1.sender → NodeIn mp cursors behind sender

variable {cursors : Store Sender (List (Element C Tx))} {nodes : List (TxMeta C × Tx)}

/-- A node of another sender is not the first of a list. -/
theorem NodeIn.tail (linked : Linked cfg mp) (stored : Stored mp cursors) {first : TxMeta C × Tx}
    {rest : List (TxMeta C × Tx)} {sender : Sender} (other : sender ≠ first.1.sender)
    (held : NodeIn mp cursors (first :: rest) sender) : NodeIn mp cursors rest sender := by
  intro element later isAhead
  obtain ⟨node, member, isNode⟩ := held element later isAhead
  rcases mem_cons.mp member with here | further
  · exfalso
    have owned := linked.keyed (stored sender element (by rw [isAhead]; exact mem_cons_self))
    rw [here] at isNode
    exact other (owned.symm.trans isNode.sender.symm)
  · exact ⟨node, further, isNode⟩

theorem waiting_of_nodeIn (linked : Linked cfg mp) (stored : Stored mp cursors)
    (held : ∀ sender, NodeIn mp cursors nodes sender) : Waiting mp cursors nodes := by
  cases nodes with
  | nil =>
    intro sender
    cases isAhead : mp.ahead cursors sender with
    | nil => rfl
    | cons element later =>
      obtain ⟨node, member, _⟩ := held sender element later isAhead
      cases member
  | cons node behind =>
    intro sender other
    exact (held sender).tail linked stored other

/-! ## One step -/

/-- What a step of the iterator returns. -/
structure Returned (mp : Pool C Tx) (cursors : Store Sender (List (Element C Tx)))
    (i : Iterator C Tx) (element : Element C Tx) (later : List (Element C Tx)) : Prop where
  ahead : mp.ahead cursors i.sender = element :: later
  cursors : i.senderCursors = cursors.set i.sender (element :: later)
  nodes : ∃ passed, mp.priorityIndex.entries = passed ++ i.priorityNode
  waiting : Waiting mp i.senderCursors i.priorityNode

omit [Inhabited C] in
theorem ahead_set (cursors : Store Sender (List (Element C Tx))) (sender other : Sender)
    (element : Element C Tx) (later : List (Element C Tx)) :
    mp.ahead (cursors.set sender (element :: later)) other
      = if other = sender then later else mp.ahead cursors other := by
  unfold Pool.ahead
  rw [get?_set]
  split_ifs <;> rfl

/-- A step returns the next element of some sender, or everything was returned. -/
theorem next_spec (linked : Linked cfg mp) {cursors : Store Sender (List (Element C Tx))}
    (stored : Stored mp cursors) :
    ∀ (nodes passed : List (TxMeta C × Tx)), mp.priorityIndex.entries = passed ++ nodes →
      Waiting mp cursors nodes →
      (mp.next cfg cursors nodes = none ∧ ∀ sender, mp.ahead cursors sender = [])
        ∨ ∃ i element later, mp.next cfg cursors nodes = some i
            ∧ Returned mp cursors i element later
  | [], _, _, waiting => Or.inl ⟨rfl, waiting⟩
  | node :: behind, passed, split, waiting => by
    have sorted : (passed ++ node :: behind).Pairwise fun a b => a.1 < b.1 := by
      rw [← split]
      exact mp.priorityIndex.sorted
    have splitNext : mp.priorityIndex.entries = (passed ++ [node]) ++ behind := by
      rw [split, append_assoc]
      rfl
    rw [Pool.next]
    cases isAhead : mp.ahead cursors node.1.sender with
    | nil =>
      -- the sender has nothing left
      have allIn : ∀ sender, NodeIn mp cursors behind sender := by
        intro sender element later another
        by_cases same : sender = node.1.sender
        · rw [same, isAhead] at another
          cases another
        · exact waiting sender same element later another
      exact next_spec linked stored behind _ splitNext
        (waiting_of_nodeIn linked stored allIn)
    | cons element later =>
      obtain ⟨nonce, key, tx⟩ := element
      dsimp only
      by_cases outranked : mp.outranked cfg key behind
      · -- the element's node is not reached yet, so it is behind this one
        rw [if_pos outranked]
        have member := stored node.1.sender (nonce, key, tx)
          (by rw [isAhead]; exact mem_cons_self)
        obtain ⟨own, inIndex, isNode⟩ := linked.node member
        have behindThis : own ∈ behind := by
          rw [split] at inIndex
          rcases mem_append.mp inIndex with before | fromHere
          · exfalso
            have reached := (pairwise_append.mp sorted).2.2 own before
            have never := not_outranked linked isNode fun next later_ =>
              reached next (mem_cons_of_mem node later_)
            rw [never] at outranked
            cases outranked
          · rcases mem_cons.mp fromHere with here | further
            · exfalso
              have reached :=
                (pairwise_cons.mp (pairwise_append.mp sorted).2.1).1
              rw [here] at isNode
              rw [not_outranked linked isNode reached] at outranked
              cases outranked
            · exact further
        have allIn : ∀ sender, NodeIn mp cursors behind sender := by
          intro sender element' later' another
          by_cases same : sender = node.1.sender
          · rw [same, isAhead] at another
            cases another
            exact ⟨own, behindThis, isNode⟩
          · exact waiting sender same element' later' another
        exact next_spec linked stored behind _ splitNext
          (waiting_of_nodeIn linked stored allIn)
      · rw [if_neg outranked]
        refine Or.inr ⟨_, (nonce, key, tx), later, rfl, isAhead, rfl, ⟨passed, split⟩, ?_⟩
        intro sender other element' later' another
        rw [ahead_set, if_neg other] at another
        exact waiting sender other element' later' another

/-! ## A whole iteration -/

def remaining (mp : Pool C Tx) (cursors : Store Sender (List (Element C Tx))) : Nat :=
  mp.senderIndices.sum fun sender _ => (mp.ahead cursors sender).length

section Returned

variable {i : Iterator C Tx} {element : Element C Tx} {later : List (Element C Tx)}
  (returned : Returned mp cursors i element later)

include returned

theorem Returned.stored (stored : Stored mp cursors) :
    Stored mp i.senderCursors := by
  intro sender element' member
  rw [returned.cursors, ahead_set] at member
  split_ifs at member with same
  · rw [same]
    apply stored
    rw [returned.ahead]
    exact mem_cons_of_mem element member
  · exact stored sender element' member

theorem Returned.remaining (stored : Stored mp cursors) :
    remaining mp cursors = remaining mp i.senderCursors + 1 := by
  have member := stored i.sender element (by rw [returned.ahead]; exact mem_cons_self)
  obtain ⟨index, found⟩ : ∃ index, mp.senderIndices.get? i.sender = some index := by
    cases lookup : mp.senderIndices.get? i.sender with
    | none =>
      rw [Pool.senderIndex, lookup] at member
      cases member
    | some index => exact ⟨index, rfl⟩
  have others : (mp.senderIndices.delete i.sender).sum
        (fun sender _ => (mp.ahead cursors sender).length)
      = (mp.senderIndices.delete i.sender).sum
        (fun sender _ => (mp.ahead i.senderCursors sender).length) := by
    apply sum_congr
    intro sender index' kept
    rw [returned.cursors, ahead_set, if_neg (get?_delete_some kept).1]
  have before : Mempool.remaining mp cursors
      = (element :: later).length + (mp.senderIndices.delete i.sender).sum
          fun sender _ => (mp.ahead cursors sender).length := by
    rw [Mempool.remaining, sum_eq_termAt_add _ _ i.sender, termAt_of_some found,
      returned.ahead]
  have after : Mempool.remaining mp i.senderCursors
      = later.length + (mp.senderIndices.delete i.sender).sum
          fun sender _ => (mp.ahead i.senderCursors sender).length := by
    rw [Mempool.remaining, sum_eq_termAt_add _ _ i.sender, termAt_of_some found,
      returned.cursors, ahead_set, if_pos rfl]
  rw [before, after, others, length_cons]
  omega

theorem Returned.tx : i.tx = some element.2.2 := by
  rw [Iterator.tx, returned.cursors, get?_set_self]
  rfl

end Returned

/-- The sender of a transaction: its first signer. -/
def senderOf (cfg : Config C Tx) (tx : Tx) : Option Sender :=
  match cfg.getSigners tx with
  | .ok (sig :: _) => some sig.signer
  | _ => none

/-- The transactions of a sender in a list. -/
def ofSender (cfg : Config C Tx) (sender : Sender) (txs : List Tx) : List Tx :=
  txs.filter fun tx => senderOf cfg tx = some sender

/-- Each element holds a transaction of the sender whose index it is in. -/
def Owned (cfg : Config C Tx) (mp : Pool C Tx) : Prop :=
  ∀ sender, ∀ element ∈ (mp.senderIndex sender).entries, senderOf cfg element.2.2 = some sender

/-- With `count` calls the iteration from a node returns, for every sender, what is ahead. -/
def Drains (cfg : Config C Tx) (mp : Pool C Tx) (count : Nat)
    (cursors : Store Sender (List (Element C Tx))) (nodes : List (TxMeta C × Tx)) : Prop :=
  ∃ txs, (∀ fuel ≥ count, mp.drain cfg fuel (mp.next cfg cursors nodes) = some txs)
    ∧ (∀ sender, ofSender cfg sender txs
        = (mp.ahead cursors sender).map fun element => element.2.2)
    ∧ ∀ tx ∈ txs, senderOf cfg tx ≠ none

theorem drains_of_ended (count : Nat) (isNone : mp.next cfg cursors nodes = none)
    (empty : ∀ sender, mp.ahead cursors sender = []) : Drains cfg mp count cursors nodes := by
  refine ⟨[], fun fuel _ => ?_, fun sender => ?_, fun tx member => nomatch member⟩
  · rw [isNone]
    cases fuel <;> rfl
  · rw [empty sender]
    rfl

/-- From any point of an iteration, the rest of it returns what is ahead. -/
theorem drain_spec (linked : Linked cfg mp) (owned : Owned cfg mp) (count : Nat) :
    ∀ (cursors : Store Sender (List (Element C Tx))) (nodes passed : List (TxMeta C × Tx)),
      remaining mp cursors = count → Stored mp cursors →
      mp.priorityIndex.entries = passed ++ nodes → Waiting mp cursors nodes →
      Drains cfg mp count cursors nodes := by
  -- on the number of elements ahead: every step returns one of them
  induction count with
  | zero =>
    intro cursors nodes passed counted stored split waiting
    rcases next_spec linked stored nodes passed split waiting with ended | returned
    · exact drains_of_ended _ ended.1 ended.2
    · exfalso
      obtain ⟨i, element, later, _, returned⟩ := returned
      have := returned.remaining stored
      omega
  | succ count ih =>
    intro cursors nodes passed counted stored split waiting
    rcases next_spec linked stored nodes passed split waiting with ended | returned
    · exact drains_of_ended _ ended.1 ended.2
    · obtain ⟨i, element, later, isSome, returned⟩ := returned
      obtain ⟨passed', split'⟩ := returned.nodes
      have counted' := returned.remaining stored
      obtain ⟨rest, drained, complete, signed⟩ := ih i.senderCursors i.priorityNode passed'
        (by omega) (returned.stored stored) split' returned.waiting
      have own : senderOf cfg element.2.2 = some i.sender := by
        apply owned
        apply stored
        rw [returned.ahead]
        exact mem_cons_self
      refine ⟨element.2.2 :: rest, fun fuel enough => ?_, fun sender => ?_, ?_⟩
      · obtain ⟨less, rfl⟩ : ∃ less, fuel = less + 1 := ⟨fuel - 1, by omega⟩
        rw [isSome, Pool.drain, returned.tx, Pool.nextOf, drained less (by omega)]
        rfl
      · have behind := complete sender
        rw [returned.cursors, ahead_set] at behind
        by_cases same : sender = i.sender
        · rw [if_pos same] at behind
          rw [ofSender, filter_cons_of_pos (by simpa [same] using own), same,
            returned.ahead, map_cons, ← behind, same]
          rfl
        · rw [if_neg same] at behind
          have foreign : ¬ senderOf cfg element.2.2 = some sender := by
            rw [own]
            intro equal
            exact same (Option.some.inj equal).symm
          rw [ofSender, filter_cons_of_neg (by simpa using foreign)]
          exact behind
      · intro tx member
        rcases mem_cons.mp member with here | further
        · rw [here, own]
          exact Option.some_ne_none _
        · exact signed tx further

/-- An iteration from the start returns the index of every sender. -/
theorem drain_from_start (linked : Linked cfg mp) (owned : Owned cfg mp) :
    ∃ txs,
      (∀ fuel ≥ mp.senderIndices.sum fun sender _ => (mp.senderIndex sender).entries.length,
        mp.drain cfg fuel (mp.next cfg ∅ mp.priorityIndex.entries) = some txs)
      ∧ (∀ sender, ofSender cfg sender txs
          = (mp.senderIndex sender).entries.map fun element => element.2.2)
      ∧ ∀ tx ∈ txs, senderOf cfg tx ≠ none := by
  have stored : Stored mp ∅ := fun _ _ member => member
  apply drain_spec linked owned _ ∅ mp.priorityIndex.entries [] rfl stored rfl
  apply waiting_of_nodeIn linked stored
  intro sender element later isAhead
  apply linked.node
  apply stored sender
  rw [isAhead]
  exact mem_cons_self

end Iteration

end AtomOneSdk.Mempool
