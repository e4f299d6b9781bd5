import AtomOneSdk.Types.Coins

/-!
Contract: coin sets as amounts per denomination.

Owns: the total of a denomination in a list of coins, what validity gives, and one
specification per operation: on valid sets it does not panic, it returns a valid set,
and it acts on the totals.

Does **not** own: what the operations do on lists that are not sorted.
-/

namespace AtomOneSdk.Types

open Lib List
open Staking (Denom Coin)

namespace Coins

/-- Amount of a denomination over the whole list. -/
def total (coins : Coins) (denom : Denom) : Int :=
  (coins.map fun coin => if coin.denom = denom then coin.amount else 0).sum

@[simp] theorem total_nil (denom : Denom) : total [] denom = 0 := rfl

@[simp] theorem total_cons (coin : Coin) (rest : Coins) (denom : Denom) :
    total (coin :: rest) denom
      = (if coin.denom = denom then coin.amount else 0) + total rest denom := by
  simp [total]

theorem total_append (coins coinsB : Coins) (denom : Denom) :
    total (coins ++ coinsB) denom = total coins denom + total coinsB denom := by
  simp [total]

variable {coins rest : Coins} {denom : Denom} {coin : Coin}

theorem total_of_forall_ne (apart : ∀ coin ∈ coins, coin.denom ≠ denom) :
    total coins denom = 0 := by
  induction coins with
  | nil => rfl
  | cons coin rest ih =>
    rw [total_cons, if_neg (apart coin mem_cons_self),
      ih fun other member => apart other (mem_cons_of_mem coin member)]
    rfl

theorem total_nonneg (nonneg : ∀ coin ∈ coins, 0 ≤ coin.amount) (denom : Denom) :
    0 ≤ total coins denom := by
  induction coins with
  | nil => exact le_refl 0
  | cons coin rest ih =>
    have head := nonneg coin mem_cons_self
    have tail := ih fun other member => nonneg other (mem_cons_of_mem coin member)
    rw [total_cons]
    split_ifs <;> omega

/-! ## Validity -/

def Increasing (coins : Coins) : Prop :=
  coins.Pairwise fun a b => a.denom < b.denom

/-- What `IsValid` checks. -/
structure Valid (coins : Coins) : Prop where
  increasing : Increasing coins
  denoms : ∀ coin ∈ coins, validateDenom coin.denom = true
  positive : ∀ coin ∈ coins, 0 < coin.amount

theorem isValidAfter_iff {lowDenom : Denom} :
    isValidAfter lowDenom coins = true
      ↔ Valid coins ∧ ∀ coin ∈ coins, lowDenom < coin.denom := by
  induction coins generalizing lowDenom with
  | nil =>
    simp only [isValidAfter, not_mem_nil, false_implies, implies_true, and_true, true_iff]
    exact ⟨List.Pairwise.nil, by simp, by simp⟩
  | cons coin rest ih =>
    rw [isValidAfter]
    simp only [Bool.and_eq_true, decide_eq_true_eq, ih]
    constructor
    · intro checked
      obtain ⟨⟨⟨denom, low⟩, positive⟩, tail, later⟩ := checked
      have lows : ∀ other ∈ rest, lowDenom < other.denom :=
        fun other member => low.trans (later other member)
      refine ⟨⟨pairwise_cons.mpr ⟨later, tail.increasing⟩, ?_, ?_⟩, ?_⟩
      · exact forall_mem_cons.mpr ⟨denom, tail.denoms⟩
      · exact forall_mem_cons.mpr ⟨positive, tail.positive⟩
      · exact forall_mem_cons.mpr ⟨low, lows⟩
    · intro given
      obtain ⟨valid, low⟩ := given
      obtain ⟨later, increasing⟩ := pairwise_cons.mp valid.increasing
      obtain ⟨denom, denoms⟩ := forall_mem_cons.mp valid.denoms
      obtain ⟨positive, positives⟩ := forall_mem_cons.mp valid.positive
      exact ⟨⟨⟨denom, low coin mem_cons_self⟩, positive⟩, ⟨increasing, denoms, positives⟩,
        later⟩

theorem isValid_iff : isValid coins = true ↔ Valid coins := by
  cases coins with
  | nil => exact ⟨fun _ => ⟨List.Pairwise.nil, by simp, by simp⟩, fun _ => rfl⟩
  | cons coin rest =>
    rw [isValid]
    simp only [Bool.and_eq_true, decide_eq_true_eq, isValidAfter_iff]
    constructor
    · intro checked
      obtain ⟨⟨denom, positive⟩, tail, later⟩ := checked
      exact ⟨pairwise_cons.mpr ⟨later, tail.increasing⟩,
        forall_mem_cons.mpr ⟨denom, tail.denoms⟩,
        forall_mem_cons.mpr ⟨positive, tail.positive⟩⟩
    · intro valid
      obtain ⟨later, increasing⟩ := pairwise_cons.mp valid.increasing
      obtain ⟨denom, denoms⟩ := forall_mem_cons.mp valid.denoms
      obtain ⟨positive, positives⟩ := forall_mem_cons.mp valid.positive
      exact ⟨⟨denom, positive⟩, ⟨increasing, denoms, positives⟩, later⟩

theorem Valid.nil : Valid [] := ⟨List.Pairwise.nil, by simp, by simp⟩

theorem Valid.singleton (denom : validateDenom coin.denom = true) (positive : 0 < coin.amount) :
    Valid [coin] :=
  ⟨pairwise_singleton _ _, by simpa using denom, by simpa using positive⟩

theorem Valid.tail (valid : Valid (coin :: rest)) : Valid rest :=
  ⟨(pairwise_cons.mp valid.increasing).2, (forall_mem_cons.mp valid.denoms).2,
    (forall_mem_cons.mp valid.positive).2⟩

theorem Valid.total_nonneg {coins : Coins} (valid : Valid coins) (denom : Denom) :
    0 ≤ total coins denom :=
  Coins.total_nonneg (fun coin member => (valid.positive coin member).le) denom

theorem Increasing.not_mem_tail (increasing : Increasing (coin :: rest)) :
    total rest coin.denom = 0 := by
  apply total_of_forall_ne
  intro other member
  exact ((pairwise_cons.mp increasing).1 other member).ne'

/-- The total of a denomination that occurs is the amount of its coin. -/
theorem Increasing.total_of_mem (increasing : Increasing coins) (member : coin ∈ coins) :
    total coins coin.denom = coin.amount := by
  induction coins with
  | nil => cases member
  | cons head rest ih =>
    obtain ⟨later, tail⟩ := pairwise_cons.mp increasing
    rcases mem_cons.mp member with here | further
    · rw [here, total_cons, if_pos rfl, increasing.not_mem_tail, add_zero]
    · rw [total_cons, if_neg (later coin further).ne, zero_add]
      exact ih tail further

theorem Valid.total_pos_of_mem (valid : Valid coins) (member : coin ∈ coins) :
    0 < total coins coin.denom := by
  rw [valid.increasing.total_of_mem member]
  exact valid.positive coin member

theorem exists_mem_of_total_ne_zero (nonzero : total coins denom ≠ 0) :
    ∃ coin ∈ coins, coin.denom = denom := by
  by_contra absent
  apply nonzero
  apply total_of_forall_ne
  intro coin member same
  exact absent ⟨coin, member, same⟩

theorem Valid.mem_iff (valid : Valid coins) :
    coin ∈ coins ↔ total coins coin.denom = coin.amount ∧ coin.amount ≠ 0 := by
  constructor
  · intro member
    exact ⟨valid.increasing.total_of_mem member, (valid.positive coin member).ne'⟩
  · rintro ⟨isTotal, nonzero⟩
    rw [← isTotal] at nonzero
    obtain ⟨other, member, sameDenom⟩ := exists_mem_of_total_ne_zero nonzero
    have sameAmount : other.amount = coin.amount := by
      rw [← valid.increasing.total_of_mem member, sameDenom, isTotal]
    have same : other = coin := by
      cases other
      cases coin
      cases sameDenom
      cases sameAmount
      rfl
    rwa [← same]

/-- Valid sets are determined by their totals. -/
theorem Valid.eq_of_total (left : Valid coins) (right : Valid coinsB)
    (same : ∀ denom, total coins denom = total coinsB denom) : coins = coinsB := by
  have distinct : ∀ {coins : Coins}, Valid coins → coins.Nodup :=
    fun valid => valid.increasing.imp fun below isSame => below.ne (congrArg Coin.denom isSame)
  apply Perm.eq_of_pairwise (fun a b _ _ below above => absurd below above.asymm)
    left.increasing right.increasing
  rw [perm_ext_iff_of_nodup (distinct left) (distinct right)]
  intro coin
  rw [left.mem_iff, right.mem_iff, same]

/-! ## Search -/

theorem split_at {index : Nat} (found : coins[index]? = some coin) :
    coins = coins.take index ++ coin :: coins.drop (index + 1) := by
  obtain ⟨inside, same⟩ := List.getElem?_eq_some_iff.mp found
  conv_lhs => rw [← take_append_drop index coins, drop_eq_getElem_cons inside, same]

/-- Binary search finds the total of a sorted list. -/
theorem Increasing.amountOf_eq (increasing : Increasing coins) (denom : Denom) :
    amountOfNoDenomValidation coins denom = total coins denom := by
  unfold amountOfNoDenomValidation
  fun_induction find denom coins with
  | case1 coins small =>
    match coins, small with
    | [], _ => rfl
    | [coin], _ =>
      by_cases same : coin.denom = denom
      · simp [same, Option.filter]
      · simp [same, Option.filter]
  | case2 coins big midIdx outside =>
    have inside : coins.length / 2 < coins.length := by omega
    rw [getElem?_eq_getElem inside] at outside
    cases outside
  | case3 coins big midIdx coin found low ih =>
    -- everything from the middle on is above the denomination
    rw [split_at found] at increasing
    obtain ⟨below, fromMiddle, _⟩ := pairwise_append.mp increasing
    have above : ∀ other ∈ coin :: coins.drop (midIdx + 1), other.denom ≠ denom := by
      intro other member
      rcases mem_cons.mp member with here | later
      · rw [here]
        exact low.ne'
      · exact (low.trans ((pairwise_cons.mp fromMiddle).1 other later)).ne'
    conv_rhs => rw [split_at found]
    rw [total_append, total_of_forall_ne above, add_zero]
    exact ih below
  | case4 coins big midIdx coin found notLow same =>
    have member : coin ∈ coins := mem_of_getElem? found
    rw [same]
    exact (increasing.total_of_mem member).symm
  | case5 coins big midIdx coin found notLow apart ih =>
    -- everything up to the middle is below the denomination
    have high : coin.denom < denom := lt_of_le_of_ne (not_lt.mp notLow) (Ne.symm apart)
    rw [split_at found] at increasing
    obtain ⟨_, fromMiddle, across⟩ := pairwise_append.mp increasing
    have below : ∀ other ∈ coins.take midIdx, other.denom ≠ denom := by
      intro other member
      exact ((across other member coin mem_cons_self).trans high).ne
    conv_rhs => rw [split_at found]
    rw [total_append, total_of_forall_ne below, zero_add, total_cons, if_neg (Ne.symm apart),
      zero_add]
    exact ih (pairwise_cons.mp fromMiddle).2

theorem Increasing.amountOf_some (increasing : Increasing coins)
    (valid : validateDenom denom = true) : amountOf coins denom = some (total coins denom) := by
  rw [amountOf, if_pos valid, increasing.amountOf_eq]

end Coins

/-! ## Maps -/

namespace MapCoins

theorem amountOf_add (m : MapCoins) (coins : Coins) (denom : Denom) :
    (m.add coins).amountOf denom = m.amountOf denom + coins.total denom := by
  induction coins generalizing m with
  | nil => simp [add]
  | cons coin rest ih =>
    show (MapCoins.add (m.set coin.denom (m.amountOf coin.denom + coin.amount)) rest).amountOf denom
      = _
    rw [ih, Coins.total_cons]
    by_cases same : coin.denom = denom
    · simp only [amountOf, Store.get?_set, same, if_true, Option.getD_some]
      omega
    · simp only [amountOf, Store.get?_set, if_neg same, if_neg (Ne.symm same)]
      omega

variable {m : MapCoins} {denom : Denom} {amount : Int} {sets : List Coins}

theorem mem_add {coins : Coins} (found : (m.add coins).get? denom = some amount) :
    (∃ before, m.get? denom = some before) ∨ ∃ coin ∈ coins, coin.denom = denom := by
  induction coins generalizing m with
  | nil => exact Or.inl ⟨amount, found⟩
  | cons coin rest ih =>
    rcases ih found with present | later
    · obtain ⟨before, present⟩ := present
      by_cases same : coin.denom = denom
      · exact Or.inr ⟨coin, mem_cons_self, same⟩
      · rw [Store.get?_set_of_ne (Ne.symm same)] at present
        exact Or.inl ⟨before, present⟩
    · obtain ⟨other, member, same⟩ := later
      exact Or.inr ⟨other, mem_cons_of_mem coin member, same⟩

theorem mem_nonZero {coin : Coin} :
    coin ∈ m.nonZero ↔ m.get? coin.denom = some coin.amount ∧ coin.amount ≠ 0 := by
  unfold nonZero
  simp only [mem_map, mem_filter, decide_eq_true_eq]
  constructor
  · intro listed
    obtain ⟨entry, ⟨member, nonzero⟩, same⟩ := listed
    cases same
    exact ⟨Store.mem_entries.mp member, nonzero⟩
  · intro stored
    exact ⟨(coin.denom, coin.amount), ⟨Store.mem_entries.mpr stored.1, stored.2⟩, rfl⟩

theorem nonZero_increasing (m : MapCoins) : m.nonZero.Increasing := by
  unfold nonZero Coins.Increasing
  rw [pairwise_map]
  exact m.sorted.sublist filter_sublist

theorem total_nonZero (m : MapCoins) (denom : Denom) :
    m.nonZero.total denom = m.amountOf denom := by
  by_cases zero : m.amountOf denom = 0
  · rw [zero]
    apply Coins.total_of_forall_ne
    intro coin member same
    obtain ⟨stored, nonzero⟩ := mem_nonZero.mp member
    rw [amountOf, ← same, stored] at zero
    exact nonzero zero
  · have member : (⟨denom, m.amountOf denom⟩ : Coin) ∈ m.nonZero := by
      rw [mem_nonZero]
      refine ⟨?_, zero⟩
      unfold amountOf at zero ⊢
      cases found : m.get? denom with
      | none =>
        rw [found] at zero
        exact absurd rfl zero
      | some amount => rfl
    exact m.nonZero_increasing.total_of_mem member

theorem toCoins_some (denoms : ∀ denom amount, m.get? denom = some amount →
    validateDenom denom = true) (nonneg : ∀ denom, 0 ≤ m.amountOf denom) :
    m.toCoins = some m.nonZero ∧ m.nonZero.Valid := by
  have nonnegAmounts : ∀ coin ∈ m.nonZero, 0 ≤ coin.amount := by
    intro coin member
    have amount := nonneg coin.denom
    rw [amountOf, (mem_nonZero.mp member).1] at amount
    exact amount
  have validDenoms : ∀ coin ∈ m.nonZero, validateDenom coin.denom = true :=
    fun coin member => denoms _ _ (mem_nonZero.mp member).1
  have passes : m.nonZero.all isValidCoin = true := by
    rw [all_eq_true]
    intro coin member
    simp [isValidCoin, validDenoms coin member, nonnegAmounts coin member]
  refine ⟨?_, m.nonZero_increasing, validDenoms, ?_⟩
  · rw [toCoins]
    exact if_pos passes
  · intro coin member
    exact lt_of_le_of_ne (nonnegAmounts coin member) (Ne.symm (mem_nonZero.mp member).2)

theorem amountOf_addAll (sets : List Coins) (m : MapCoins) (denom : Denom) :
    (sets.foldl MapCoins.add m).amountOf denom
      = m.amountOf denom + (sets.map fun coins => coins.total denom).sum := by
  induction sets generalizing m with
  | nil => simp
  | cons coins rest ih =>
    show (rest.foldl MapCoins.add (m.add coins)).amountOf denom = _
    rw [ih, amountOf_add, map_cons, sum_cons, add_assoc]

theorem mem_addAll (found : (sets.foldl MapCoins.add m).get? denom = some amount) :
    (∃ before, m.get? denom = some before)
      ∨ ∃ coins ∈ sets, ∃ coin ∈ coins, coin.denom = denom := by
  induction sets generalizing m with
  | nil => exact Or.inl ⟨amount, found⟩
  | cons coins rest ih =>
    rcases ih found with present | later
    · obtain ⟨before, present⟩ := present
      rcases mem_add present with earlier | here
      · exact Or.inl earlier
      · exact Or.inr ⟨coins, mem_cons_self, here⟩
    · obtain ⟨other, member, listed⟩ := later
      exact Or.inr ⟨other, mem_cons_of_mem coins member, listed⟩

theorem toCoins_addAll (valid : ∀ coins ∈ sets, coins.Valid) :
    ∃ sum, (sets.foldl MapCoins.add ∅).toCoins = some sum ∧ sum.Valid
      ∧ ∀ denom, sum.total denom = (sets.map fun coins => coins.total denom).sum := by
  have amounts : ∀ denom, (sets.foldl MapCoins.add ∅).amountOf denom
      = (sets.map fun coins => coins.total denom).sum := by
    intro denom
    rw [amountOf_addAll]
    exact zero_add _
  have nonneg : ∀ denom, 0 ≤ (sets.foldl MapCoins.add ∅).amountOf denom := by
    intro denom
    rw [amounts]
    apply sum_nonneg
    intro amount member
    obtain ⟨coins, inside, same⟩ := mem_map.mp member
    rw [← same]
    exact (valid coins inside).total_nonneg denom
  have denoms : ∀ denom amount, (sets.foldl MapCoins.add ∅).get? denom = some amount →
      validateDenom denom = true := by
    intro denom amount found
    rcases mem_addAll found with absent | listed
    · obtain ⟨_, absent⟩ := absent
      cases absent
    · obtain ⟨coins, inside, coin, member, same⟩ := listed
      rw [← same]
      exact (valid coins inside).denoms coin member
  obtain ⟨converted, isValid⟩ := toCoins_some denoms nonneg
  refine ⟨_, converted, isValid, fun denom => ?_⟩
  rw [total_nonZero, amounts]

end MapCoins

/-! ## Arithmetic -/

namespace Coins

theorem Increasing.isSorted {coins : Coins} (increasing : Increasing coins) :
    isSorted coins = true := by
  induction coins with
  | nil => rfl
  | cons first rest ih =>
    obtain ⟨later, tail⟩ := pairwise_cons.mp increasing
    cases rest with
    | nil => rfl
    | cons second further =>
      simp [Coins.isSorted, ih tail, (later second mem_cons_self).le]

variable {coins coinsB : Coins} {coin : Coin}

theorem Increasing.sort_eq (increasing : Increasing coins) : sort coins = coins := by
  apply Pairwise.insertionSort_eq
  exact increasing.imp fun below => below.le

theorem safeAdd_spec (left : Increasing coins) (right : Increasing coinsB) :
    ∃ sum, safeAdd coins coinsB = some sum ∧ Increasing sum
      ∧ (∀ denom, total sum denom = total coins denom + total coinsB denom)
      ∧ ∀ coin ∈ sum, coin.amount ≠ 0 ∧ ((∃ other ∈ coins, other.denom = coin.denom)
          ∨ ∃ other ∈ coinsB, other.denom = coin.denom) := by
  refine ⟨MapCoins.nonZero ((MapCoins.add ∅ coins).add coinsB), ?_, MapCoins.nonZero_increasing _,
    ?_, ?_⟩
  · rw [safeAdd, left.isSorted, right.isSorted]
    rfl
  · intro denom
    rw [MapCoins.total_nonZero, MapCoins.amountOf_add, MapCoins.amountOf_add]
    show 0 + total coins denom + total coinsB denom = _
    omega
  · intro coin member
    obtain ⟨stored, nonzero⟩ := MapCoins.mem_nonZero.mp member
    refine ⟨nonzero, ?_⟩
    rcases MapCoins.mem_add stored with before | added
    · obtain ⟨amount, before⟩ := before
      rcases MapCoins.mem_add before with absent | first
      · obtain ⟨_, absent⟩ := absent
        cases absent
      · exact Or.inl first
    · exact Or.inr added

theorem Valid.add (left : Valid coins) (right : Valid coinsB) :
    ∃ sum, safeAdd coins coinsB = some sum ∧ Valid sum
      ∧ ∀ denom, total sum denom = total coins denom + total coinsB denom := by
  obtain ⟨sum, added, increasing, totals, origin⟩ := safeAdd_spec left.increasing right.increasing
  refine ⟨sum, added, ⟨increasing, ?_, ?_⟩, totals⟩
  · intro coin member
    rcases (origin coin member).2 with first | second
    · obtain ⟨other, inFirst, same⟩ := first
      rw [← same]
      exact left.denoms other inFirst
    · obtain ⟨other, inSecond, same⟩ := second
      rw [← same]
      exact right.denoms other inSecond
  · intro coin member
    have amount := increasing.total_of_mem member
    rw [totals] at amount
    have leftNonneg := left.total_nonneg coin.denom
    have rightNonneg := right.total_nonneg coin.denom
    have nonzero := (origin coin member).1
    omega

/-- Sanitizing drops the zero amounts of a sorted list. -/
theorem newCoins_spec (increasing : Increasing coins)
    (denoms : ∀ coin ∈ coins, validateDenom coin.denom = true)
    (nonneg : ∀ coin ∈ coins, 0 ≤ coin.amount) :
    ∃ sanitized, newCoins coins = some sanitized ∧ Valid sanitized
      ∧ ∀ denom, total sanitized denom = total coins denom := by
  have kept : Increasing (coins.filter fun coin => coin.amount ≠ 0) :=
    Pairwise.sublist filter_sublist increasing
  have valid : Valid (coins.filter fun coin => coin.amount ≠ 0) := by
    refine ⟨kept, ?_, ?_⟩
    · intro coin member
      exact denoms coin (mem_filter.mp member).1
    · intro coin member
      obtain ⟨inside, nonzero⟩ := mem_filter.mp member
      exact lt_of_le_of_ne (nonneg coin inside) (Ne.symm (by simpa using nonzero))
  refine ⟨coins.filter fun coin => coin.amount ≠ 0, ?_, valid, ?_⟩
  · rw [newCoins, kept.sort_eq]
    exact if_pos (isValid_iff.mpr valid)
  · intro denom
    clear valid kept denoms nonneg increasing
    induction coins with
    | nil => rfl
    | cons coin rest ih =>
      by_cases zero : coin.amount = 0
      · rw [filter_cons_of_neg (by simp [zero]), ih, total_cons, zero, ite_self,
          zero_add]
      · rw [filter_cons_of_pos (by simp [zero]), total_cons, total_cons, ih]

theorem Valid.newCoins {coins : Coins} (valid : Valid coins) : newCoins coins = some coins := by
  have kept : coins.filter (fun coin => coin.amount ≠ 0) = coins := by
    rw [filter_eq_self]
    intro coin member
    simpa using (valid.positive coin member).ne'
  rw [Coins.newCoins, kept, valid.increasing.sort_eq]
  exact if_pos (isValid_iff.mpr valid)

/-- Sorting coins of distinct denominations makes a valid set of them. -/
theorem newCoins_of_distinct (distinct : coins.Pairwise fun a b => a.denom ≠ b.denom)
    (denoms : ∀ coin ∈ coins, validateDenom coin.denom = true)
    (positive : ∀ coin ∈ coins, 0 < coin.amount) :
    newCoins coins = some (sort coins) ∧ Valid (sort coins) := by
  have permuted : (sort coins).Perm coins := perm_insertionSort _ coins
  have total : Std.Total fun a b : Coin => a.denom ≤ b.denom := ⟨fun a b => le_total _ _⟩
  have transitive : IsTrans Coin fun a b => a.denom ≤ b.denom := ⟨fun a b c => le_trans⟩
  have ordered : (sort coins).Pairwise fun a b => a.denom ≤ b.denom :=
    pairwise_insertionSort _ coins
  have apart : (sort coins).Pairwise fun a b => a.denom ≠ b.denom :=
    permuted.symm.pairwise distinct fun different => different.symm
  have valid : Valid (sort coins) := by
    refine ⟨?_, ?_, ?_⟩
    · exact ordered.imp₂ (fun a b below different => lt_of_le_of_ne below different) apart
    · exact fun coin member => denoms coin (permuted.mem_iff.mp member)
    · exact fun coin member => positive coin (permuted.mem_iff.mp member)
  have kept : coins.filter (fun coin => coin.amount ≠ 0) = coins := by
    rw [filter_eq_self]
    intro coin member
    simpa using (positive coin member).ne'
  refine ⟨?_, valid⟩
  rw [Coins.newCoins, kept]
  exact if_pos (isValid_iff.mpr valid)

theorem mem_sort : coin ∈ sort coins ↔ coin ∈ coins :=
  (perm_insertionSort _ coins).mem_iff

theorem total_negative (coins : Coins) (denom : Denom) :
    total (negative coins) denom = - total coins denom := by
  induction coins with
  | nil => rfl
  | cons coin rest ih =>
    show total (⟨coin.denom, -coin.amount⟩ :: negative rest) denom = _
    rw [total_cons, total_cons, ih]
    dsimp only
    split_ifs <;> omega

theorem Increasing.negative {coins : Coins} (increasing : Increasing coins) :
    Increasing (negative coins) := by
  unfold Increasing Coins.negative at *
  rw [pairwise_map]
  exact increasing

theorem isAnyNegative_iff (increasing : Increasing coins) :
    isAnyNegative coins = true ↔ ∃ denom, total coins denom < 0 := by
  unfold isAnyNegative
  simp only [any_eq_true, decide_eq_true_eq]
  constructor
  · intro listed
    obtain ⟨coin, member, negative⟩ := listed
    exact ⟨coin.denom, by rwa [increasing.total_of_mem member]⟩
  · intro short
    obtain ⟨denom, negative⟩ := short
    obtain ⟨coin, member, same⟩ := exists_mem_of_total_ne_zero negative.ne
    rw [← same, increasing.total_of_mem member] at negative
    exact ⟨coin, member, negative⟩

/-- Subtraction of a sorted list of nonnegative coins from a sorted list. -/
theorem safeSub_spec (left : Increasing coins) (right : Increasing coinsB)
    (denoms : ∀ coin ∈ coinsB, validateDenom coin.denom = true)
    (nonneg : ∀ coin ∈ coinsB, 0 ≤ coin.amount) :
    ∃ diff hasNeg, safeSub coins coinsB = some (diff, hasNeg) ∧ Increasing diff
      ∧ (∀ denom, total diff denom = total coins denom - total coinsB denom)
      ∧ (hasNeg = true ↔ ∃ denom, total coins denom < total coinsB denom)
      ∧ ∀ coin ∈ diff, coin.amount ≠ 0 ∧ ((∃ other ∈ coins, other.denom = coin.denom)
          ∨ validateDenom coin.denom = true) := by
  obtain ⟨sanitized, isSanitized, valid, sameTotals⟩ := newCoins_spec right denoms nonneg
  obtain ⟨diff, added, increasing, totals, origin⟩ :=
    safeAdd_spec left valid.increasing.negative
  have totals' : ∀ denom, total diff denom = total coins denom - total coinsB denom := by
    intro denom
    rw [totals, total_negative, sameTotals]
    omega
  refine ⟨diff, isAnyNegative diff, ?_, increasing, totals', ?_, ?_⟩
  · simp only [safeSub, isSanitized, added, some_bind, pure]
  · rw [isAnyNegative_iff increasing]
    constructor
    · intro short
      obtain ⟨denom, negative⟩ := short
      rw [totals'] at negative
      exact ⟨denom, by omega⟩
    · intro short
      obtain ⟨denom, less⟩ := short
      exact ⟨denom, by rw [totals']; omega⟩
  · intro coin member
    refine ⟨(origin coin member).1, ?_⟩
    rcases (origin coin member).2 with first | second
    · exact Or.inl first
    · obtain ⟨other, listed, same⟩ := second
      obtain ⟨positive, inSanitized, isNegative⟩ := mem_map.mp listed
      rw [← same, ← isNegative]
      exact Or.inr (valid.denoms positive inSanitized)

theorem Valid.sub {coins coinsB : Coins} (left : Valid coins) (right : Increasing coinsB)
    (denoms : ∀ coin ∈ coinsB, validateDenom coin.denom = true)
    (nonneg : ∀ coin ∈ coinsB, 0 ≤ coin.amount)
    (enough : ∀ denom, total coinsB denom ≤ total coins denom) :
    ∃ diff, sub coins coinsB = some diff ∧ Valid diff
      ∧ ∀ denom, total diff denom = total coins denom - total coinsB denom := by
  obtain ⟨diff, hasNeg, subtracted, increasing, totals, negative, origin⟩ :=
    safeSub_spec left.increasing right denoms nonneg
  have covered : hasNeg = false := by
    rw [← Bool.not_eq_true, negative]
    intro short
    obtain ⟨denom, less⟩ := short
    have within := enough denom
    omega
  refine ⟨diff, ?_, ⟨increasing, ?_, ?_⟩, totals⟩
  · simp only [Coins.sub, subtracted, covered, some_bind]
    rfl
  · intro coin member
    rcases (origin coin member).2 with first | valid
    · obtain ⟨other, inside, same⟩ := first
      rw [← same]
      exact left.denoms other inside
    · exact valid
  · intro coin member
    have amount := increasing.total_of_mem member
    rw [totals] at amount
    have within := enough coin.denom
    have nonzero := (origin coin member).1
    omega

theorem Valid.sub_valid (left : Valid coins) (right : Valid coinsB)
    (enough : ∀ denom, total coinsB denom ≤ total coins denom) :
    ∃ diff, Coins.sub coins coinsB = some diff ∧ Valid diff
      ∧ ∀ denom, total diff denom = total coins denom - total coinsB denom :=
  left.sub right.increasing right.denoms (fun coin member => (right.positive coin member).le) enough

/-! ## Minimum -/

theorem min_coin {coinA coinB : Coin} (same : coinA.denom = coinB.denom) :
    (if coinB.amount < coinA.amount then coinB else coinA).denom = coinA.denom
      ∧ (if coinB.amount < coinA.amount then coinB else coinA).amount
        = Min.min coinA.amount coinB.amount := by
  split_ifs with less
  · exact ⟨same.symm, (min_eq_right less.le).symm⟩
  · exact ⟨rfl, (min_eq_left (not_lt.mp less)).symm⟩

/-- The denominations of the walk are those of the first list, and its amounts are
positive. -/
theorem mem_minimum (left : ∀ other ∈ coins, 0 < other.amount)
    (right : ∀ other ∈ coinsB, 0 < other.amount) (member : coin ∈ minimum coins coinsB) :
    0 < coin.amount ∧ ∃ other ∈ coins, other.denom = coin.denom := by
  fun_induction minimum coins coinsB with
  | case1 => cases member
  | case2 => cases member
  | case3 coinA restA coinB restB low ih =>
    obtain ⟨positive, other, inside, same⟩ :=
      ih (forall_mem_cons.mp left).2 right member
    exact ⟨positive, other, mem_cons_of_mem coinA inside, same⟩
  | case4 coinA restA coinB restB notLow same minCoin nonzero ih =>
    obtain ⟨leftHead, leftTail⟩ := forall_mem_cons.mp left
    obtain ⟨rightHead, rightTail⟩ := forall_mem_cons.mp right
    rcases mem_cons.mp member with here | later
    · obtain ⟨denom, amount⟩ := min_coin same
      rw [here]
      exact ⟨lt_of_lt_of_eq (lt_min leftHead rightHead) amount.symm, coinA,
        mem_cons_self, denom.symm⟩
    · obtain ⟨positive, other, inside, same⟩ := ih leftTail rightTail later
      exact ⟨positive, other, mem_cons_of_mem coinA inside, same⟩
  | case5 coinA restA coinB restB notLow same minCoin zero ih =>
    obtain ⟨positive, other, inside, same⟩ := ih (forall_mem_cons.mp left).2
      (forall_mem_cons.mp right).2 member
    exact ⟨positive, other, mem_cons_of_mem coinA inside, same⟩
  | case6 coinA restA coinB restB notLow apart ih =>
    exact ih left (forall_mem_cons.mp right).2 member

theorem total_of_below {denom : Denom} (below : ∀ coin ∈ coins, denom < coin.denom) :
    total coins denom = 0 :=
  total_of_forall_ne fun coin member => (below coin member).ne'

/-- The walk is sorted and takes the minimum of every denomination. -/
theorem minimum_spec (left : Valid coins) (right : Valid coinsB) :
    Increasing (minimum coins coinsB)
      ∧ ∀ denom, total (minimum coins coinsB) denom
          = Min.min (total coins denom) (total coinsB denom) := by
  fun_induction minimum coins coinsB with
  | case1 coinsB =>
    refine ⟨List.Pairwise.nil, fun denom => ?_⟩
    have nonneg := right.total_nonneg denom
    rw [total_nil]
    omega
  | case2 coinA restA =>
    refine ⟨List.Pairwise.nil, fun denom => ?_⟩
    have nonneg := left.total_nonneg denom
    rw [total_nil]
    omega
  | case3 coinA restA coinB restB low ih =>
    obtain ⟨increasing, totals⟩ := ih left.tail right
    refine ⟨increasing, fun denom => ?_⟩
    rw [totals, total_cons coinA]
    split_ifs with same
    · -- the first list's denomination is below all of the second list's
      have absent : total (coinB :: restB) denom = 0 := by
        apply total_of_below
        intro other member
        rw [← same]
        rcases mem_cons.mp member with here | later
        · rw [here]
          exact low
        · exact low.trans ((pairwise_cons.mp right.increasing).1 other later)
      have positive := left.positive coinA mem_cons_self
      have nonneg := left.tail.total_nonneg denom
      omega
    · omega
  | case4 coinA restA coinB restB notLow same minCoin nonzero ih =>
    obtain ⟨increasing, totals⟩ := ih left.tail right.tail
    obtain ⟨denomEq, amountEq⟩ := min_coin same
    constructor
    · apply pairwise_cons.mpr
      refine ⟨fun coin member => ?_, increasing⟩
      obtain ⟨_, other, inside, sameDenom⟩ :=
        mem_minimum left.tail.positive right.tail.positive member
      rw [← sameDenom]
      exact lt_of_eq_of_lt denomEq ((pairwise_cons.mp left.increasing).1 other inside)
    · intro denom
      rw [total_cons, total_cons, total_cons, totals]
      have denomEq' : minCoin.denom = coinA.denom := denomEq
      have amountEq' : minCoin.amount = Min.min coinA.amount coinB.amount := amountEq
      rw [denomEq', amountEq', ← same]
      split_ifs with here
      · have first := left.increasing.not_mem_tail
        have second := right.increasing.not_mem_tail
        rw [← here, first]
        rw [← same] at second
        rw [second]
        omega
      · omega
  | case5 coinA restA coinB restB notLow same minCoin zero ih =>
    obtain ⟨_, amountEq⟩ := min_coin same
    have positive := lt_min (left.positive coinA mem_cons_self)
      (right.positive coinB mem_cons_self)
    rw [← amountEq] at positive
    exact absurd positive.ne' zero
  | case6 coinA restA coinB restB notLow apart ih =>
    have low : coinB.denom < coinA.denom := lt_of_le_of_ne (not_lt.mp notLow) (Ne.symm apart)
    obtain ⟨increasing, totals⟩ := ih left right.tail
    refine ⟨increasing, fun denom => ?_⟩
    rw [totals, total_cons coinB]
    split_ifs with same
    · -- the second list's denomination is below all of the first list's
      have absent : total (coinA :: restA) denom = 0 := by
        apply total_of_below
        intro other member
        rw [← same]
        rcases mem_cons.mp member with here | later
        · rw [here]
          exact low
        · exact low.trans ((pairwise_cons.mp left.increasing).1 other later)
      have positive := right.positive coinB mem_cons_self
      have nonneg := right.tail.total_nonneg denom
      omega
    · omega

theorem Valid.min {coins coinsB : Coins} (left : Valid coins) (right : Valid coinsB) :
    ∃ least, Coins.min coins coinsB = some least ∧ Valid least
      ∧ ∀ denom, total least denom = Min.min (total coins denom) (total coinsB denom) := by
  obtain ⟨increasing, totals⟩ := minimum_spec left right
  have valid : Valid (minimum coins coinsB) := by
    refine ⟨increasing, ?_, ?_⟩
    · intro coin member
      obtain ⟨_, other, inside, same⟩ := mem_minimum left.positive right.positive member
      rw [← same]
      exact left.denoms other inside
    · intro coin member
      exact (mem_minimum left.positive right.positive member).1
  exact ⟨minimum coins coinsB, valid.newCoins, valid, totals⟩

/-! ## Comparison -/

theorem Increasing.eq_of_equal (left : Increasing coins) (right : Increasing coinsB)
    (same : equal coins coinsB = true) : coins = coinsB := by
  unfold equal at same
  rw [left.sort_eq, right.sort_eq] at same
  simp only [Bool.and_eq_true, decide_eq_true_eq] at same
  exact same.2

theorem isAllGTELoop_spec (left : Increasing coins)
    (passed : isAllGTELoop coins coinsB = some true) :
    ∀ coin ∈ coinsB, coin.amount ≤ total coins coin.denom := by
  induction coinsB with
  | nil =>
    intro coin member
    cases member
  | cons head rest ih =>
    rw [isAllGTELoop, amountOf] at passed
    split_ifs at passed with valid
    · simp only [some_bind, left.amountOf_eq] at passed
      split_ifs at passed with short
      · cases passed
      · exact forall_mem_cons.mpr ⟨not_lt.mp short, ih passed⟩
    · cases passed

/-- A passed comparison with a valid set bounds every total. -/
theorem total_le_of_isAllLTE (left : Valid coins) (right : Valid coinsB)
    (passed : isAllLTE coins coinsB = some true) (denom : Denom) :
    total coins denom ≤ total coinsB denom := by
  by_cases zero : total coins denom = 0
  · rw [zero]
    exact right.total_nonneg denom
  · obtain ⟨coin, member, same⟩ := exists_mem_of_total_ne_zero zero
    unfold isAllLTE isAllGTE at passed
    have nonempty : coins.isEmpty = false := by
      cases coins with
      | nil => cases member
      | cons head rest => rfl
    rw [nonempty] at passed
    simp only [Bool.false_eq_true, if_false] at passed
    split_ifs at passed with empty
    · cases passed
    · rw [← same, left.increasing.total_of_mem member]
      exact isAllGTELoop_spec right.increasing passed coin member

end Coins

end AtomOneSdk.Types
