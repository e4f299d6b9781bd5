import AtomOneSdk.Bank.Properties
import AtomOneSdk.Vesting.Tracking

/-!
Contract: unvested coins cannot leave a vesting account.

Owns: the invariant that balance and delegated vesting coins cover the vesting coins of
every vesting account, its preservation by every bank operation at non-decreasing block
times, exactly which sends are accepted, and that no transfer panics.

Does **not** own: conservation of coins, and accounts whose duration overflows.
-/

namespace AtomOneSdk.Vesting

open Lib Lib.Action AtomOneSdk.Types Bank List
open Staking (Address Denom Coin)

/-! ## The invariant -/

/-- Balance, delegated vesting coins and what is about to be credited cover the vesting
coins of every account. -/
structure Covered (pending : Address → Denom → Int) (now : Int64) (s : State) : Prop where
  balances : Ledger.Positive s.balances
  wellformed : ∀ {addr : Address} {acc : VestingAccount},
    s.accounts.get? addr = some (.vesting acc) → Wellformed acc
  vesting : ∀ {addr : Address} {acc : VestingAccount} {vesting : Coins},
    s.accounts.get? addr = some (.vesting acc) → acc.getVestingCoins now = some vesting →
    ∀ denom, vesting.total denom
      ≤ s.balance addr denom + acc.delegatedVesting.total denom + pending addr denom

/-- Nothing is pending between operations. -/
abbrev Funded (now : Int64) (s : State) : Prop := Covered (fun _ _ => 0) now s

/-- Every vesting account continues one that was there. -/
def Continued (s next : State) : Prop :=
  ∀ (addr : Address) (acc : VestingAccount), next.accounts.get? addr = some (.vesting acc) →
    ∃ before, s.accounts.get? addr = some (.vesting before) ∧ Continues before acc

theorem Continued.refl (s : State) : Continued s s :=
  fun _ _ found => ⟨_, found, Continues.refl _⟩

variable {pending : Address → Denom → Int} {now : Int64} {s mid next : State} {k : Keeper}
  {addr fromAddr toAddr delegatorAddr moduleAccAddr : Address}
  {coins amt locked balances : Coins} {coin : Coin} {denom : Denom}

theorem Continued.trans (first : Continued s mid)
    (second : Continued mid next) : Continued s next := by
  intro addr acc found
  obtain ⟨middle, isMiddle, fromMiddle⟩ := second addr acc found
  obtain ⟨before, isBefore, fromBefore⟩ := first addr middle isMiddle
  exact ⟨before, isBefore, fromBefore.trans fromMiddle⟩

theorem Covered.later (held : Covered pending now s) {later : Int64}
    (ordered : now.toInt ≤ later.toInt) : Covered pending later s where
  balances := held.balances
  wellformed := held.wellformed
  vesting := by
    intro addr acc vestingLater found isLater denom
    obtain ⟨vesting, isNow, _, _⟩ := (held.wellformed found).getVestingCoins now
    have released := (held.wellformed found).getVestingCoins_anti ordered isNow isLater denom
    exact released.trans (held.vesting found isNow denom)

/-- Balances that cover what was pending, and no new vesting accounts. -/
theorem Covered.settle (held : Covered pending now s) {pending' : Address → Denom → Int}
    (positive : Ledger.Positive next.balances)
    (accounts : ∀ {addr : Address} {acc : VestingAccount},
      next.accounts.get? addr = some (.vesting acc) → s.accounts.get? addr = some (.vesting acc))
    (enough : ∀ addr denom, s.balance addr denom + pending addr denom
      ≤ next.balance addr denom + pending' addr denom) : Covered pending' now next where
  balances := positive
  wellformed := fun found => held.wellformed (accounts found)
  vesting := by
    intro addr acc vesting found isVesting denom
    have before := held.vesting (accounts found) isVesting denom
    have after_ := enough addr denom
    omega

theorem Covered.lockedCoins_post (held : Funded now s) {stops : Fault Reason → State → Prop} :
    Post (lockedCoins ⟨now⟩ addr) s
      (fun locked after_ => after_ = s ∧ locked.Valid
        ∧ (∀ denom, locked.total denom ≤ s.balance addr denom)
        ∧ ∀ acc vesting, s.accounts.get? addr = some (.vesting acc) →
            acc.getVestingCoins now = some vesting →
            ∀ denom, locked.total denom
              = max (vesting.total denom - acc.delegatedVesting.total denom) 0) stops := by
  have nonneg : ∀ denom, 0 ≤ s.balance addr denom :=
    fun denom => held.balances.amountAt_nonneg _
  unfold Bank.lockedCoins
  simp only [post_rules]
  cases found : s.accounts.get? addr with
  | none => exact ⟨rfl, Coins.Valid.nil, nonneg, fun _ _ none_ => by cases none_⟩
  | some account =>
    cases account with
    | base plain => exact ⟨rfl, Coins.Valid.nil, nonneg, fun _ _ plain_ => by cases plain_⟩
    | moduleAccount name permissions =>
      exact ⟨rfl, Coins.Valid.nil, nonneg, fun _ _ module_ => by cases module_⟩
    | vesting acc =>
      obtain ⟨vesting, isVesting, vestingValid, _⟩ :=
        (held.wellformed found).getVestingCoins now
      obtain ⟨locked, isLocked, lockedValid, totals⟩ :=
        (held.wellformed found).lockedCoins isVesting
      simp only [isLocked, post_getOrCrash, Option.some.injEq, reduceCtorEq, false_implies,
        and_true]
      intro result isResult
      rw [← isResult]
      refine ⟨trivial, lockedValid, fun denom => ?_, ?_⟩
      · have enough := held.vesting found isVesting denom
        have balance := nonneg denom
        rw [totals]
        omega
      · intro acc' vesting' same isVesting'
        cases same
        rw [isVesting] at isVesting'
        cases isVesting'
        exact totals

def Kept (now : Int64) (s next : State) : Prop := Funded now next ∧ Continued s next

abbrev KeepsFunded {α : Type} (now : Int64) (action : BankM α) (s : State) : Prop :=
  Post action s (fun _ => Kept now s) (fun fault _ => IsError fault)

/-! ## Debits -/

theorem total_singleton (coin : Coin) (denom : Denom) :
    Coins.total [coin] denom = if coin.denom = denom then coin.amount else 0 := by
  rw [Coins.total_cons, Coins.total_nil, add_zero]

theorem increasing_singleton (coin : Coin) : Coins.Increasing [coin] :=
  pairwise_singleton _ _

/-- Subtraction of one coin from a set of the same denomination. -/
theorem safeSub_coin (increasing : coins.Increasing)
    (denom : validateDenom coin.denom = true) (nonneg : 0 ≤ coin.amount)
    (only : ∀ other, other ≠ coin.denom → coins.total other = 0) :
    ∃ diff, Coins.safeSub coins [coin]
        = some (diff, decide (coins.total coin.denom < coin.amount)) ∧ diff.Increasing
      ∧ diff.total coin.denom = coins.total coin.denom - coin.amount
      ∧ ∀ other, other ≠ coin.denom → diff.total other = 0 := by
  obtain ⟨diff, hasNeg, subtracted, diffIncreasing, totals, negative, _⟩ :=
    Coins.safeSub_spec increasing (increasing_singleton coin) (by simpa using denom)
      (by simpa using nonneg)
  have isNegative : hasNeg = decide (coins.total coin.denom < coin.amount) := by
    rw [Bool.eq_iff_iff, negative, decide_eq_true_eq]
    constructor
    · intro short
      obtain ⟨other, less⟩ := short
      rw [total_singleton] at less
      split_ifs at less with same
      · rw [same]
        exact less
      · rw [only other (Ne.symm same)] at less
        exact absurd less (lt_irrefl 0)
    · intro short
      refine ⟨coin.denom, ?_⟩
      rw [total_singleton, if_pos rfl]
      exact short
  refine ⟨diff, ?_, diffIncreasing, ?_, ?_⟩
  · rw [subtracted, isNegative]
  · rw [totals, total_singleton, if_pos rfl]
  · intro other apart
    rw [totals, total_singleton, if_neg (Ne.symm apart), only other apart]
    rfl

theorem subCoin_some {amount : Int} (enough : coin.amount ≤ amount) :
    subCoin ⟨coin.denom, amount⟩ coin = some ⟨coin.denom, amount - coin.amount⟩ := by
  have covered : ¬ amount - coin.amount < 0 := by omega
  simp [subCoin, covered]

/-- A debit of one coin is accepted exactly when it leaves what is locked. -/
theorem subUnlockedCoin_exact (positive : Ledger.Positive s.balances) (lockedValid : locked.Valid)
    (denom : validateDenom coin.denom = true) (amount : 0 < coin.amount) :
    Post (subUnlockedCoin addr locked coin) s
      (fun _ next => next = s.post (debits addr [coin]) ∧ Ledger.Positive next.balances
        ∧ locked.total coin.denom + coin.amount ≤ s.balance addr coin.denom)
      (fun fault _ => IsError fault
        ∧ s.balance addr coin.denom < locked.total coin.denom + coin.amount) := by
  have lockedNonneg := lockedValid.total_nonneg coin.denom
  have balanceTotal : Coins.total [⟨coin.denom, s.balance addr coin.denom⟩] coin.denom
      = s.balance addr coin.denom := by
    rw [total_singleton]
    exact if_pos rfl
  obtain ⟨spendable, subtracted, spendableIncreasing, spendableTotal, only⟩ :=
    @safeSub_coin [⟨coin.denom, s.balance addr coin.denom⟩] ⟨coin.denom, locked.total coin.denom⟩
      (increasing_singleton _) denom lockedNonneg fun other apart => by
        rw [total_singleton]
        exact if_neg (Ne.symm apart)
  rw [balanceTotal] at subtracted spendableTotal
  obtain ⟨rest, subtractedCoin, _⟩ := safeSub_coin spendableIncreasing denom amount.le only
  unfold subUnlockedCoin
  simp only [post_bind]
  apply getBalance_reads positive denom
  intro nonneg
  simp only [lockedValid.increasing.amountOf_some denom, newCoin_some denom lockedNonneg,
    subtracted, subtractedCoin, post_rules, Option.some.injEq, reduceCtorEq, false_implies,
    forall_eq', decide_eq_true_eq, spendableTotal]
  refine ⟨fun short => ⟨⟨_, rfl⟩, by omega⟩, fun _ => ⟨fun short => ⟨⟨_, rfl⟩, by omega⟩, ?_⟩⟩
  intro enough
  have room : locked.total coin.denom + coin.amount ≤ s.balance addr coin.denom := by omega
  have debited : subCoin ⟨coin.denom, s.balance addr coin.denom⟩ coin = _ :=
    subCoin_some (by omega)
  rw [debited]
  simp only [Option.some.injEq, forall_eq', reduceCtorEq, false_implies, and_true]
  refine setDebited_post positive debited ?_ ?_
  · intro _ kept
    exact ⟨rfl, kept, room⟩
  · intro invalid
    rw [denom] at invalid
    cases invalid

theorem balance_debits (s : State) (addr other : Address) (amt : Coins) (denom : Denom) :
    (s.post (debits addr amt)).balance other denom
      = s.balance other denom - if other = addr then amt.total denom else 0 := by
  rw [balance_eq]
  show Ledger.amountAt (Ledger.post s.balances _) _ = _
  rw [Ledger.amountAt_post, netAt_debits, ← balance_eq]
  split_ifs <;> omega

theorem subUnlockedLoop_exact (positive : Ledger.Positive s.balances) (lockedValid : locked.Valid)
    (amtValid : amt.Valid) (room : ∀ denom, locked.total denom ≤ s.balance addr denom) :
    Post (forEach (subUnlockedCoin addr locked) amt) s
      (fun _ next => next = s.post (debits addr amt) ∧ Ledger.Positive next.balances
        ∧ ∀ denom, locked.total denom ≤ next.balance addr denom)
      (fun fault _ => IsError fault) := by
  apply (post_forEach (fun (rest : Coins) mid => rest.Valid ∧ Ledger.Positive mid.balances
    ∧ s.post (debits addr amt) = mid.post (debits addr rest)
    ∧ ∀ denom, locked.total denom ≤ mid.balance addr denom) ?_ amt s
    ⟨amtValid, positive, rfl, room⟩).imp
  · intro _ last kept
    obtain ⟨_, lastPositive, reached, left_⟩ := kept
    exact ⟨reached.symm, lastPositive, left_⟩
  · intro coin rest mid kept
    obtain ⟨restValid, midPositive, reached, left_⟩ := kept
    refine (subUnlockedCoin_exact midPositive lockedValid
      (restValid.denoms coin mem_cons_self)
      (restValid.positive coin mem_cons_self)).mono ?_ (fun _ _ stopped => stopped.1)
    intro _ next debited
    obtain ⟨isNext, nextPositive, enough⟩ := debited
    refine ⟨restValid.tail, nextPositive, ?_, fun denom => ?_⟩
    · rw [reached, isNext]
      rfl
    · have before := left_ denom
      rw [isNext, balance_debits, if_pos rfl, total_singleton]
      split_ifs with same
      · rw [← same]
        omega
      · omega

/-- A debit of unlocked coins keeps every account covered. -/
theorem subUnlockedCoins_covered (held : Funded now s) :
    Post (subUnlockedCoins ⟨now⟩ addr amt) s (fun _ next => amt.Valid ∧ Kept now s next)
      (fun fault _ => IsError fault) := by
  unfold subUnlockedCoins
  simp only [post_rules]
  refine ⟨fun _ => ⟨_, rfl⟩, fun accepted => ?_⟩
  have amtValid : amt.Valid := Coins.isValid_iff.mp (by simpa using accepted)
  refine held.lockedCoins_post.imp ?_
  intro locked mid isLocked
  obtain ⟨unchanged, lockedValid, room, isRest⟩ := isLocked
  rw [unchanged]
  refine (subUnlockedLoop_exact held.balances lockedValid amtValid room).imp ?_
  intro _ next debited
  obtain ⟨isNext, nextPositive, left_⟩ := debited
  have accounts : next.accounts = s.accounts := by
    rw [isNext]
    rfl
  refine ⟨amtValid, ⟨nextPositive, fun found => ?_, ?_⟩, fun _ _ found => ?_⟩
  · rw [accounts] at found
    exact held.wellformed found
  · intro other acc vesting sameAccount isVesting denom
    rw [accounts] at sameAccount
    by_cases here : other = addr
    · have remaining := left_ denom
      rw [isRest acc vesting (by rw [← here]; exact sameAccount) isVesting denom] at remaining
      rw [here]
      omega
    · have before := held.vesting sameAccount isVesting denom
      rw [isNext, balance_debits, if_neg here]
      omega
  · rw [accounts] at found
    exact ⟨_, found, Continues.refl _⟩

/-! ## Transfers -/

theorem credit_nonneg (valid : amt.Valid) (addr other : Address) (denom : Denom) :
    0 ≤ if other = addr then amt.total denom else 0 := by
  have nonneg := valid.total_nonneg denom
  split_ifs <;> omega

/-- A credit of what is pending keeps every account covered. -/
theorem Covered.of_credits (held : Covered pending now s)
    (settled : ∀ other denom, pending other denom ≤ if other = addr then amt.total denom else 0)
    (balances : next.balances = Ledger.post s.balances (credits addr amt))
    (accounts : AccountsKept s next) (positive : Ledger.Positive next.balances) :
    Kept now s next := by
  have same : ∀ {addr : Address} {acc : VestingAccount},
      next.accounts.get? addr = some (.vesting acc) →
      s.accounts.get? addr = some (.vesting acc) := by
    intro addr acc found
    rcases accounts.fresh found with before | plain
    · exact before
    · obtain ⟨_, isPlain⟩ := plain
      cases isPlain
  refine ⟨held.settle positive same fun other denom => ?_,
    fun _ _ found => ⟨_, same found, Continues.refl _⟩⟩
  have gained := settled other denom
  rw [balance_eq, balance_eq, balances, Ledger.amountAt_post, netAt_credits]
  omega

theorem sendCoins_covered (held : Funded now s) :
    KeepsFunded now (sendCoins k ⟨now⟩ fromAddr toAddr amt) s := by
  unfold sendCoins
  simp only [post_rules]
  refine (subUnlockedCoins_covered held).imp ?_
  intro _ mid debited
  obtain ⟨amtValid, midHeld, continued⟩ := debited
  refine (creditRecipient_post midHeld.balances).imp ?_
  intro recipient next credited
  obtain ⟨_, _, isNext, nextPositive⟩ := credited
  rw [isNext] at nextPositive ⊢
  have kept := midHeld.of_credits (credit_nonneg amtValid _) (credited_balances _ _ _)
    (AccountsKept.credited _ _ _) nextPositive
  exact ⟨kept.1, continued.trans kept.2⟩

theorem creditOutput_covered (held : Funded now s) {inAddress : Address} {out : Transfer} :
    KeepsFunded now (creditOutput k ⟨now⟩ inAddress out) s := by
  refine (creditOutput_post held.balances).imp ?_
  intro recipient next credited
  obtain ⟨_, valid, isNext, nextPositive⟩ := credited
  rw [isNext] at nextPositive ⊢
  exact held.of_credits (credit_nonneg valid _) (credited_balances _ _ _)
    (AccountsKept.credited _ _ _) nextPositive

theorem inputOutputCoins_covered (held : Funded now s) {input : Transfer}
    {outputs : List Transfer} :
    KeepsFunded now (inputOutputCoins k ⟨now⟩ input outputs) s := by
  unfold inputOutputCoins
  simp only [post_rules]
  refine validateInputOutputs_post.imp ?_
  intro _ first validated
  refine ⟨fun inAddress _ => ?_, fun _ => ⟨_, rfl⟩⟩
  rw [validated.1]
  refine (subUnlockedCoins_covered held).imp ?_
  intro _ mid debited
  apply post_forEach (fun _ => Kept now s) ?_ outputs mid debited.2
  intro out rest state kept
  simp only [post_rules]
  refine (creditOutput_covered kept.1).imp ?_
  intro _ next credited
  exact ⟨credited.1, kept.2.trans credited.2⟩

/-! ## Delegation -/

/-- The loop that debits a delegator returns the balances it saw. -/
theorem debitDelegator_exact (positive : Ledger.Positive s.balances) (amtValid : amt.Valid) :
    Post (foldOver (debitDelegator delegatorAddr) amt []) s
      (fun balances next => next = s.post (debits delegatorAddr amt)
        ∧ Ledger.Positive next.balances ∧ balances.Valid
        ∧ ∀ coin ∈ amt, coin.amount ≤ balances.total coin.denom)
      (fun fault _ => IsError fault) := by
  apply (post_foldOver (fun (rest balances : Coins) mid => rest.Valid
    ∧ Ledger.Positive mid.balances
    ∧ s.post (debits delegatorAddr amt) = mid.post (debits delegatorAddr rest)
    ∧ balances.Valid ∧ (∀ coin ∈ amt, coin ∉ rest → coin.amount ≤ balances.total coin.denom))
    ?_ amt [] s ⟨amtValid, positive, rfl, Coins.Valid.nil,
      fun coin member absent => absurd member absent⟩).imp
  · intro balances last kept
    obtain ⟨_, lastPositive, reached, balancesValid, enough⟩ := kept
    exact ⟨reached.symm, lastPositive, balancesValid,
      fun coin member => enough coin member not_mem_nil⟩
  · intro coin rest balances mid kept
    obtain ⟨restValid, midPositive, reached, balancesValid, enough⟩ := kept
    have denom := restValid.denoms coin mem_cons_self
    have amount := restValid.positive coin mem_cons_self
    unfold debitDelegator
    simp only [post_bind]
    apply getBalance_reads midPositive denom
    intro nonneg
    simp only [isLT, ne_eq, not_true_eq_false, if_false, post_rules, Option.some.injEq,
      forall_eq', reduceCtorEq, false_implies, decide_eq_true_eq]
    refine ⟨fun _ => ⟨_, rfl⟩, fun covered => ?_⟩
    have atLeast : coin.amount ≤ mid.balance delegatorAddr coin.denom := not_lt.mp covered
    obtain ⟨sum, added, sumValid, totals⟩ := balancesValid.add
      (@Coins.Valid.singleton ⟨coin.denom, mid.balance delegatorAddr coin.denom⟩ denom
        (lt_of_lt_of_le amount atLeast))
    have debited := subCoin_some atLeast
    simp only [added, debited, Option.some.injEq, forall_eq', reduceCtorEq, false_implies,
      and_true]
    refine setDebited_post midPositive debited ?_ ?_
    · intro _ nextPositive
      refine ⟨restValid.tail, nextPositive, reached, sumValid, fun other member absent => ?_⟩
      rw [totals, total_singleton]
      have before := balancesValid.total_nonneg other.denom
      by_cases here : other = coin
      · rw [here, if_pos rfl]
        rw [here] at before
        dsimp only
        omega
      · have earlier := enough other member fun listed => by
          rcases mem_cons.mp listed with same | later
          · exact here same
          · exact absent later
        dsimp only
        split_ifs <;> omega
    · intro invalid
      rw [denom] at invalid
      cases invalid

theorem covered_replace {acc next : VestingAccount} (positive : Ledger.Positive mid.balances)
    (wellformed : ∀ {other : Address} {acc' : VestingAccount},
      s.accounts.get? other = some (.vesting acc') → Wellformed acc')
    (found : s.accounts.get? addr = some (.vesting acc)) (nextWellformed : Wellformed next)
    (continues : Continues acc next) (replaced : mid.accounts = s.accounts.set addr (.vesting next))
    (others : ∀ {other : Address} {acc' : VestingAccount} {vesting : Coins}, other ≠ addr →
      s.accounts.get? other = some (.vesting acc') → acc'.getVestingCoins now = some vesting →
      ∀ denom, vesting.total denom
        ≤ mid.balance other denom + acc'.delegatedVesting.total denom + pending other denom)
    (here : ∀ {vesting : Coins}, acc.getVestingCoins now = some vesting → ∀ denom,
      vesting.total denom
        ≤ mid.balance addr denom + next.delegatedVesting.total denom + pending addr denom) :
    Covered pending now mid ∧ Continued s mid := by
  refine ⟨⟨positive, ?_, ?_⟩, ?_⟩
  · intro other acc' isAccount
    rw [replaced] at isAccount
    rcases Store.get?_set_cases isAccount with same | elsewhere
    · cases same.2
      exact nextWellformed
    · exact wellformed elsewhere.2
  · intro other acc' vesting isAccount isVesting denom
    rw [replaced] at isAccount
    rcases Store.get?_set_cases isAccount with same | elsewhere
    · obtain ⟨isAddr, isNext⟩ := same
      cases isNext
      rw [continues.getVestingCoins] at isVesting
      rw [isAddr]
      exact here isVesting denom
    · exact others elsewhere.1 elsewhere.2 isVesting denom
  · intro other acc' isAccount
    rw [replaced] at isAccount
    rcases Store.get?_set_cases isAccount with same | elsewhere
    · obtain ⟨isAddr, isNext⟩ := same
      cases isNext
      rw [isAddr]
      exact ⟨acc, found, continues⟩
    · exact ⟨acc', elsewhere.2, Continues.refl acc'⟩

/-- Once a debited delegation is tracked, every account is covered again. -/
theorem trackDelegation_covered (held : Funded now s) (amtValid : amt.Valid)
    (balancesValid : balances.Valid)
    (enough : ∀ coin ∈ amt, coin.amount ≤ balances.total coin.denom)
    (positive : Ledger.Positive (s.post (debits delegatorAddr amt)).balances) :
    Post (trackDelegation ⟨now⟩ delegatorAddr balances amt) (s.post (debits delegatorAddr amt))
      (fun _ => Kept now s) (fun fault _ => IsError fault) := by
  have others : ∀ {addr : Address} {acc : VestingAccount} {vesting : Coins}, addr ≠ delegatorAddr →
      s.accounts.get? addr = some (.vesting acc) → acc.getVestingCoins now = some vesting →
      ∀ denom, vesting.total denom ≤ (s.post (debits delegatorAddr amt)).balance addr denom
        + acc.delegatedVesting.total denom + 0 := by
    intro addr acc vesting other isAccount isVesting denom
    rw [balance_debits, if_neg other, sub_zero]
    exact held.vesting isAccount isVesting denom
  unfold trackDelegation
  simp only [post_rules]
  refine ⟨fun account found => ?_, fun _ => ⟨_, rfl⟩⟩
  have isAccount : s.accounts.get? delegatorAddr = some account := found
  have plain : (∀ acc, account ≠ .vesting acc) →
      Kept now s (s.post (debits delegatorAddr amt)) := by
    intro notVesting
    refine ⟨⟨positive, held.wellformed, ?_⟩, Continued.refl s⟩
    intro addr acc vesting isVestingAccount isVesting denom
    refine others (fun same => ?_) isVestingAccount isVesting denom
    rw [same] at isVestingAccount
    exact notVesting acc (some_unique isAccount isVestingAccount)
  cases account with
  | base acc => exact plain (fun _ same => by cases same)
  | moduleAccount name permissions => exact plain (fun _ same => by cases same)
  | vesting acc =>
    obtain ⟨vesting, isVesting, _, _⟩ := (held.wellformed isAccount).getVestingCoins now
    obtain ⟨next, isNext, nextWellformed, continues, totals⟩ :=
      (held.wellformed isAccount).trackDelegation isVesting balancesValid amtValid enough
    simp only [isNext, post_rules, Option.some.injEq, forall_eq', reduceCtorEq, false_implies]
    refine covered_replace positive held.wellformed isAccount nextWellformed continues rfl others ?_
    intro vesting' isVesting' denom
    rw [isVesting] at isVesting'
    cases isVesting'
    have before := held.vesting isAccount isVesting denom
    have nonneg : 0 ≤ (s.post (debits delegatorAddr amt)).balance delegatorAddr denom :=
      positive.amountAt_nonneg _
    show vesting.total denom ≤ (s.post (debits delegatorAddr amt)).balance delegatorAddr denom
      + next.delegatedVesting.total denom + 0
    rw [balance_debits, if_pos rfl] at nonneg ⊢
    rw [totals]
    unfold vestingShare
    omega

theorem addCoins_covered (held : Covered pending now s)
    (settled : ∀ other denom, pending other denom ≤ if other = addr then amt.total denom else 0) :
    KeepsFunded now (addCoins addr amt) s := by
  refine (addCoins_post held.balances).mono ?_ (fun _ _ stopped => ⟨_, stopped.1⟩)
  intro _ next credited
  obtain ⟨_, isNext, nextPositive⟩ := credited
  apply held.of_credits settled _ _ nextPositive
  · rw [isNext]
    rfl
  · rw [isNext]
    exact ⟨fun found => found, fun found => Or.inl found⟩

theorem delegateCoins_covered (held : Funded now s) :
    KeepsFunded now (delegateCoins ⟨now⟩ delegatorAddr moduleAccAddr amt) s := by
  unfold delegateCoins
  simp only [post_rules]
  refine ⟨fun _ _ => ⟨fun _ => ⟨_, rfl⟩, fun accepted => ?_⟩, fun _ => ⟨_, rfl⟩⟩
  have amtValid : amt.Valid := Coins.isValid_iff.mp (by simpa using accepted)
  refine (debitDelegator_exact held.balances amtValid).imp ?_
  intro balances debited isDebited
  obtain ⟨isDebited, debitedPositive, balancesValid, enough⟩ := isDebited
  rw [isDebited] at debitedPositive ⊢
  refine (trackDelegation_covered held amtValid balancesValid enough debitedPositive).imp ?_
  intro _ mid kept
  refine (addCoins_covered kept.1 (credit_nonneg amtValid _)).imp ?_
  intro _ next credited
  exact ⟨credited.1, kept.2.trans credited.2⟩

/-! ## Undelegation -/

/-- Until the credit, an undelegation owes its amount. -/
theorem trackUndelegation_covered (held : Funded now s) (amtValid : amt.Valid) :
    Post (trackUndelegation delegatorAddr amt) s
      (fun _ next =>
        Covered (fun other denom => if other = delegatorAddr then amt.total denom else 0)
        now next ∧ Continued s next) (fun fault _ => IsError fault) := by
  have plain : Covered (fun other denom => if other = delegatorAddr then amt.total denom else 0)
      now s ∧ Continued s s := by
    refine ⟨held.settle held.balances (fun found => found) fun other denom => ?_, Continued.refl s⟩
    have owed := credit_nonneg amtValid delegatorAddr other denom
    omega
  unfold trackUndelegation
  simp only [post_rules]
  refine ⟨fun account found => ?_, fun _ => ⟨_, rfl⟩⟩
  cases account with
  | base acc => exact plain
  | moduleAccount name permissions => exact plain
  | vesting acc =>
    obtain ⟨next, isNext, nextWellformed, continues, totals⟩ :=
      (held.wellformed found).trackUndelegation amtValid
    simp only [isNext, post_rules, Option.some.injEq, forall_eq', reduceCtorEq, false_implies]
    refine covered_replace held.balances held.wellformed found nextWellformed continues rfl ?_ ?_
    · intro other acc' vesting apart isAccount isVesting denom
      have before := held.vesting isAccount isVesting denom
      rw [if_neg apart]
      exact before
    · intro vesting isVesting denom
      have before := held.vesting found isVesting denom
      have released := totals denom
      show vesting.total denom
        ≤ s.balance delegatorAddr denom + next.delegatedVesting.total denom + _
      rw [if_pos rfl]
      omega

theorem undelegateCoins_covered (held : Funded now s) :
    KeepsFunded now (undelegateCoins ⟨now⟩ moduleAccAddr delegatorAddr amt) s := by
  unfold undelegateCoins
  simp only [post_rules]
  refine ⟨fun _ _ => ⟨fun _ => ⟨_, rfl⟩, fun accepted => ?_⟩, fun _ => ⟨_, rfl⟩⟩
  have amtValid : amt.Valid := Coins.isValid_iff.mp (by simpa using accepted)
  refine (subUnlockedCoins_covered held).imp ?_
  intro _ debited isDebited
  obtain ⟨_, debitedHeld, start⟩ := isDebited
  refine (trackUndelegation_covered debitedHeld amtValid).imp ?_
  intro _ mid tracked
  refine (addCoins_covered tracked.1 fun other denom => le_refl _).imp ?_
  intro _ next credited
  exact ⟨credited.1, (start.trans tracked.2).trans credited.2⟩

/-! ## The largest accepted send -/

theorem creditRecipient_returns {ctx : Context} (positive : Ledger.Positive s.balances)
    {recipient : Address} (answer : k.redirect ctx s fromAddr toAddr amt = .ok recipient)
    (valid : amt.Valid) :
    Post (creditRecipient k ctx fromAddr toAddr amt) s (fun _ _ => True) (fun _ _ => False) := by
  unfold creditRecipient
  simp only [post_rules, answer]
  refine (addCoins_post positive).mono ?_ ?_
  · intro _ mid _
    exact ensureAccount_post.imp fun _ _ _ => trivial
  · intro fault next stopped
    rw [Coins.isValid_iff.mpr valid] at stopped
    cases stopped.2.1

theorem Covered.lockedCoins_ok (held : Funded now s) (addr : Address) :
    ∃ locked : Coins, Bank.lockedCoins ⟨now⟩ addr s = .ok locked s ∧ locked.Valid
      ∧ ∀ denom, locked.total denom ≤ s.balance addr denom := by
  have read : Post (Bank.lockedCoins ⟨now⟩ addr) s _ fun _ _ => False := held.lockedCoins_post
  obtain ⟨locked, next, ran, unchanged, valid, room, _⟩ := read.returns
  rw [unchanged] at ran
  exact ⟨locked, ran, valid, room⟩

theorem spendableCoin_ok (positive : Ledger.Positive s.balances)
    (valid : validateDenom denom = true)
    (isLocked : Bank.lockedCoins ⟨now⟩ addr s = .ok locked s) (lockedValid : locked.Valid)
    (room : locked.total denom ≤ s.balance addr denom) :
    spendableCoin ⟨now⟩ addr denom s
      = .ok ⟨denom, s.balance addr denom - locked.total denom⟩ s := by
  have spec : Post (spendableCoin ⟨now⟩ addr denom) s
      (fun coin next => coin = ⟨denom, s.balance addr denom - locked.total denom⟩ ∧ next = s)
      (fun _ _ => False) := by
    unfold spendableCoin
    rw [post_bind]
    apply getBalance_reads positive valid
    intro _
    rw [post_bind, Post, isLocked]
    dsimp only
    simp [lockedValid.increasing.amountOf_some valid, subAmount, room]
  obtain ⟨coin, next, ran, isCoin, unchanged⟩ := spec.returns
  rw [ran, isCoin, unchanged]

/-- A send of one coin is accepted exactly when it leaves what is locked. -/
theorem sendCoins_accepts {amount : Int} (positive : Ledger.Positive s.balances)
    (valid : validateDenom denom = true) (amountPositive : 0 < amount)
    (isLocked : Bank.lockedCoins ⟨now⟩ fromAddr s = .ok locked s) (lockedValid : locked.Valid)
    (redirects : ∀ state amt, ∃ recipient,
      k.redirect ⟨now⟩ state fromAddr toAddr amt = .ok recipient) :
    (∃ next, sendCoins k ⟨now⟩ fromAddr toAddr [⟨denom, amount⟩] s = .ok () next)
      ↔ amount ≤ s.balance fromAddr denom - locked.total denom := by
  have coinsValid : Coins.Valid [⟨denom, amount⟩] := Coins.Valid.singleton valid amountPositive
  have spec : Post (sendCoins k ⟨now⟩ fromAddr toAddr [⟨denom, amount⟩]) s
      (fun _ _ => locked.total denom + amount ≤ s.balance fromAddr denom)
      (fun _ _ => s.balance fromAddr denom < locked.total denom + amount) := by
    unfold sendCoins subUnlockedCoins
    simp only [post_rules, Coins.isValid_iff.mpr coinsValid, Bool.true_eq_false, false_implies,
      not_false_eq_true, true_implies]
    rw [Post, isLocked]
    show Post (forEach _ _) s _ _
    simp only [forEach, post_rules]
    refine (@subUnlockedCoin_exact s fromAddr locked ⟨denom, amount⟩ positive lockedValid valid
      amountPositive).mono ?_ (fun _ _ stopped => stopped.2)
    intro _ mid debited
    obtain ⟨recipient, answer⟩ := redirects mid [⟨denom, amount⟩]
    refine (creditRecipient_returns debited.2.1 answer coinsValid).mono ?_
      (fun _ _ never => never.elim)
    intro _ _ _
    exact debited.2.2
  cases ran : sendCoins k ⟨now⟩ fromAddr toAddr [⟨denom, amount⟩] s with
  | ok value next =>
    have enough := spec.of_ok ran
    exact ⟨fun _ => by omega, fun _ => ⟨next, rfl⟩⟩
  | error fault next =>
    have short := spec.of_error ran
    refine ⟨fun accepted => ?_, fun fits => ?_⟩
    · obtain ⟨_, same⟩ := accepted
      cases same
    · omega

/-! ## Runs -/

def Op.blockTime : Op → Int64
  | .sendCoins ctx _ _ _ => ctx.blockTime
  | .inputOutputCoins ctx _ _ => ctx.blockTime
  | .delegateCoins ctx _ _ _ => ctx.blockTime
  | .undelegateCoins ctx _ _ _ => ctx.blockTime
  | .mintCoins ctx _ _ => ctx.blockTime
  | .burnCoins ctx _ _ => ctx.blockTime

def Op.IsTransfer : Op → Prop
  | .mintCoins _ _ _ => False
  | .burnCoins _ _ _ => False
  | _ => True

def Timely : Int64 → List Op → Prop
  | _, [] => True
  | time, op :: rest => time ≤ Op.blockTime op ∧ Timely (Op.blockTime op) rest

def lastTime : Int64 → List Op → Int64
  | time, [] => time
  | _, op :: rest => lastTime (Op.blockTime op) rest

/-- Every transfer keeps the accounts covered and does not panic. -/
theorem Op.exec_covered {op : Op} (transfer : Op.IsTransfer op)
    (held : Funded (Op.blockTime op) s) : KeepsFunded (Op.blockTime op) (op.exec k) s := by
  cases op with
  | sendCoins ctx fromAddr toAddr amt => exact sendCoins_covered held
  | inputOutputCoins ctx input outputs => exact inputOutputCoins_covered held
  | delegateCoins ctx delegatorAddr moduleAccAddr amt => exact delegateCoins_covered held
  | undelegateCoins ctx moduleAccAddr delegatorAddr amt => exact undelegateCoins_covered held
  | mintCoins ctx moduleName amounts => exact transfer.elim
  | burnCoins ctx moduleName amounts => exact transfer.elim

theorem runAll_covered :
    ∀ {time : Int64} (ops : List Op) {s : State}, Funded time s →
      (∀ op ∈ ops, Op.IsTransfer op) → Timely time ops →
      Kept (lastTime time ops) s (runAll (Op.exec k) ops s)
  | _, [], s, held, _, _ => ⟨held, Continued.refl s⟩
  | time, op :: rest, s, held, transfers, timely => by
    obtain ⟨ordered, timelyRest⟩ := timely
    obtain ⟨transfer, transfersRest⟩ := forall_mem_cons.mp transfers
    have heldNow : Funded (Op.blockTime op) s := held.later (Int64.le_iff_toInt_le.mp ordered)
    have first : Kept (Op.blockTime op) s (transact (op.exec k) s) :=
      @transact_of_post _ _ _ (op.exec k) s (fun next => Kept (Op.blockTime op) s next) _
        ⟨heldNow, Continued.refl s⟩ (Op.exec_covered transfer heldNow)
    have later : Kept (lastTime (Op.blockTime op) rest) (transact (op.exec k) s)
        (runAll (Op.exec k) rest (transact (op.exec k) s)) :=
      runAll_covered rest first.1 transfersRest timelyRest
    exact ⟨later.1, first.2.trans later.2⟩

/-- A state in which every vesting account is accepted, of fitting duration, and funded. -/
structure Accepted (s : State) : Prop where
  balances : Ledger.Positive s.balances
  validated : ∀ {addr : Address} {acc : VestingAccount},
    s.accounts.get? addr = some (.vesting acc) → acc.validate = some true
  sound : ∀ {addr : Address} {acc : VestingAccount},
    s.accounts.get? addr = some (.vesting acc) → Sound acc
  funded : ∀ {addr : Address} {acc : VestingAccount},
    s.accounts.get? addr = some (.vesting acc) →
    ∀ denom, acc.originalVesting.total denom ≤ s.balance addr denom

theorem Accepted.covered (accepted : Accepted s) (time : Int64) : Funded time s where
  balances := accepted.balances
  wellformed := fun found =>
    wellformed_of_validate (accepted.validated found) (accepted.sound found)
  vesting := by
    intro addr acc vesting found isVesting denom
    have wellformed := wellformed_of_validate (accepted.validated found) (accepted.sound found)
    obtain ⟨_, isSame, _, atMost⟩ := wellformed.getVestingCoins time
    rw [isVesting] at isSame
    cases isSame
    have within := atMost denom
    have enough := accepted.funded found denom
    have nonneg := wellformed.delegated.total_nonneg denom
    omega

def plainKeeper : Keeper where
  addressCodec := fun _ => none
  permAddrs := fun _ => none
  sendRestriction := none
  mintCoinsRestrictionFn := fun _ _ _ => none

/-- A single vesting account holding its original vesting. -/
def sampleState (acc : VestingAccount) : State where
  balances := (∅ : Store (Pair Address Denom) Int).set ⟨[1], sampleDenom⟩ 10000000000
  supply := ∅
  accounts := (∅ : Store Address Account).set [1] (.vesting acc)

def continuousAccount (startTime endTime : Int64) (delegatedVesting : Coins) : VestingAccount where
  baseAccount := ⟨[1], none⟩
  originalVesting := [⟨sampleDenom, 10000000000⟩]
  delegatedFree := []
  delegatedVesting := delegatedVesting
  endTime := endTime
  schedule := .continuous startTime

theorem positive_sample (acc : VestingAccount) : Ledger.Positive (sampleState acc).balances := by
  intro key amount found
  rcases Store.get?_set_cases found with here | elsewhere
  · rw [here.2]
    decide
  · cases elsewhere.2

theorem accepted_sample : Accepted (sampleState (continuousAccount 0 1000 [])) := by
  have only : ∀ {addr : Address} {acc : VestingAccount},
      (sampleState (continuousAccount 0 1000 [])).accounts.get? addr = some (.vesting acc) →
      addr = [1] ∧ acc = continuousAccount 0 1000 [] := by
    intro addr acc found
    rcases Store.get?_set_cases found with here | elsewhere
    · cases here.2
      exact ⟨here.1, rfl⟩
    · cases elsewhere.2
  refine ⟨positive_sample _, ?_, ?_, ?_⟩
  · intro addr acc found
    rw [(only found).2]
    decide +kernel
  · intro addr acc found
    rw [(only found).2]
    refine ⟨?_, by decide, by decide⟩
    show (1000 : Int64).toInt - (0 : Int64).toInt < 2 ^ 63
    decide
  · intro addr acc found denom
    rw [(only found).1, (only found).2]
    show Coins.total [⟨sampleDenom, 10000000000⟩] denom ≤ _
    rw [total_singleton]
    dsimp only
    split_ifs with same
    · rw [← same]
      decide
    · exact (positive_sample _).amountAt_nonneg _

end AtomOneSdk.Vesting
