import AtomOneSdk.Bank.Keeper
import AtomOneSdk.Lib.Ledger
import AtomOneSdk.Types.CoinsSpec

/-!
Contract: coins are conserved.

Owns: every balance operation as a list of changes posted to the balances, the
invariant that the supply is the sum of the balances with nothing zero or negative
stored, its preservation by every operation and in every run, and what a send changes.

Does **not** own: how much of a balance may be spent.
-/

namespace AtomOneSdk.Bank

open Lib Lib.Action AtomOneSdk.Types Vesting List
open Staking (Address Denom Coin)

/-! ## Changes of balances -/

abbrev BalanceKey := Pair Address Denom

def credits (addr : Address) (coins : Coins) : List (BalanceKey × Int) :=
  coins.map fun coin => (⟨addr, coin.denom⟩, coin.amount)

def debits (addr : Address) (coins : Coins) : List (BalanceKey × Int) :=
  credits addr coins.negative

def OfDenom (denom : Denom) (key : BalanceKey) : Prop := key.snd = denom

instance (denom : Denom) : DecidablePred (OfDenom denom) :=
  fun key => inferInstanceAs (Decidable (key.snd = denom))

theorem netAt_credits (addr other : Address) (coins : Coins) (denom : Denom) :
    Ledger.netAt (credits addr coins) ⟨other, denom⟩
      = if other = addr then coins.total denom else 0 := by
  induction coins with
  | nil => simp [credits]
  | cons coin rest ih =>
    show Ledger.netAt ((⟨addr, coin.denom⟩, coin.amount) :: credits addr rest) _ = _
    rw [Ledger.netAt_cons, ih, Coins.total_cons]
    simp only [Pair.mk.injEq, eq_comm (a := denom)]
    by_cases here : other = addr
    · simp [here]
    · simp [here]

theorem netAt_debits (addr other : Address) (coins : Coins) (denom : Denom) :
    Ledger.netAt (debits addr coins) ⟨other, denom⟩
      = if other = addr then - coins.total denom else 0 := by
  rw [debits, netAt_credits, Coins.total_negative]

theorem net_credits_denom (addr : Address) (coins : Coins) (denom : Denom) :
    Ledger.net (OfDenom denom) (credits addr coins) = coins.total denom := by
  induction coins with
  | nil => simp [credits]
  | cons coin rest ih =>
    show Ledger.net _ ((⟨addr, coin.denom⟩, coin.amount) :: credits addr rest) = _
    rw [Ledger.net_cons, ih, Coins.total_cons]
    rfl

theorem net_debits_denom (addr : Address) (coins : Coins) (denom : Denom) :
    Ledger.net (OfDenom denom) (debits addr coins) = - coins.total denom := by
  rw [debits, net_credits_denom, Coins.total_negative]

/-! ## Reading and writing balances -/

/-- The state with changes posted to its balances. -/
def State.post (s : State) (changes : List (BalanceKey × Int)) : State :=
  { s with balances := Ledger.post s.balances changes }

theorem balance_eq (s : State) (addr : Address) (denom : Denom) :
    s.balance addr denom = Ledger.amountAt s.balances ⟨addr, denom⟩ := rfl

variable {s next mid : State} {addr fromAddr toAddr delegatorAddr moduleAccAddr : Address}
  {denom : Denom} {stops : Fault Reason → State → Prop} {coin amount : Coin}
  {holds : Unit → State → Prop} {amt amounts : Coins} {ctx : Context}
  {changes : List (BalanceKey × Int)} {k : Keeper} {input : Transfer} {outputs : List Transfer}
  {body : Coin → BankM Unit} {change : Coin → Int} {moduleName : String}

theorem getBalance_post {holds : Coin → State → Prop} (read : holds ⟨denom, s.balance addr denom⟩ s)
    (panics : isValidCoin ⟨denom, s.balance addr denom⟩ = false →
      stops (.panic .coinArithmetic) s) :
    Post (getBalance addr denom) s holds stops := by
  unfold getBalance newCoin
  simp only [post_rules]
  constructor
  · intro found isFound
    split_ifs at isFound
    cases isFound
    exact read
  · intro missing
    split_ifs at missing with valid
    exact panics (by simpa using valid)

theorem setBalance_post (written : isValidCoin coin = true →
      holds () { s with balances := Ledger.write s.balances ⟨addr, coin.denom⟩ coin.amount })
    (refused : isValidCoin coin = false → stops (.error .invalidCoins) s) :
    Post (setBalance addr coin) s holds stops := by
  unfold setBalance
  simp only [post_rules, post_ite]
  refine ⟨refused, fun accepted => ?_⟩
  have valid := written (by simpa using accepted)
  unfold Ledger.write at valid
  constructor
  · intro zero
    rwa [if_pos zero] at valid
  · intro nonzero
    rwa [if_neg nonzero] at valid

variable (positive : Ledger.Positive s.balances)

include positive

/-- The balance of a valid denomination is a coin. -/
theorem getBalance_reads {holds : Coin → State → Prop} (valid : validateDenom denom = true)
    (read : 0 ≤ s.balance addr denom → holds ⟨denom, s.balance addr denom⟩ s) :
    Post (getBalance addr denom) s holds stops := by
  have nonneg : 0 ≤ s.balance addr denom := positive.amountAt_nonneg _
  apply getBalance_post (read nonneg)
  intro invalid
  simp [isValidCoin, valid, nonneg] at invalid

theorem addBalance_post (denom : validateDenom coin.denom = true) (amount : 0 ≤ coin.amount) :
    Post (addBalance addr coin) s (fun _ next => next = s.post (credits addr [coin])) stops := by
  unfold addBalance
  simp only [post_bind]
  apply getBalance_reads positive denom
  intro nonneg
  simp only [addCoin, ne_eq, not_true_eq_false, if_false, post_getOrCrash]
  constructor
  · intro found isFound
    cases isFound
    apply setBalance_post
    · intro _
      rfl
    · intro invalid
      have total : 0 ≤ s.balance addr coin.denom + coin.amount := by omega
      simp [isValidCoin, denom, total] at invalid
  · intro missing
    cases missing

theorem addCoins_post :
    Post (addCoins addr amt) s
      (fun _ next => amt.Valid ∧ next = s.post (credits addr amt)
        ∧ Ledger.Positive next.balances)
      (fun fault next => fault = .error .invalidCoins ∧ amt.isValid = false ∧ next = s) := by
  unfold addCoins
  simp only [post_rules]
  refine ⟨fun invalid => invalid, fun accepted => ?_⟩
  have valid : amt.Valid := Coins.isValid_iff.mp (by simpa using accepted)
  -- what is still to be credited, from the state reached
  apply (post_forEach (fun (rest : Coins) mid => rest.Valid ∧ Ledger.Positive mid.balances
    ∧ s.post (credits addr amt) = mid.post (credits addr rest)) ?_ amt s
    ⟨valid, positive, rfl⟩).imp
  · intro _ last kept
    obtain ⟨_, lastPositive, reached⟩ := kept
    exact ⟨valid, reached.symm, lastPositive⟩
  · intro coin rest mid kept
    obtain ⟨restValid, midPositive, reached⟩ := kept
    have denom := restValid.denoms coin mem_cons_self
    have amount := (restValid.positive coin mem_cons_self).le
    refine (addBalance_post midPositive denom amount).imp ?_
    intro _ next isNext
    refine ⟨restValid.tail, ?_, ?_⟩
    · rw [isNext]
      exact midPositive.post (by simpa [credits] using amount)
    · rw [reached, isNext]
      rfl

theorem setDebited_post {newBalance : Coin}
    (debited : subCoin ⟨coin.denom, s.balance addr coin.denom⟩ coin = some newBalance)
    (written : coin.amount ≤ s.balance addr coin.denom →
      Ledger.Positive (s.post (debits addr [coin])).balances →
        holds () (s.post (debits addr [coin])))
    (refused : validateDenom coin.denom = false → stops (.error .invalidCoins) s) :
    Post (setBalance addr newBalance) s holds stops := by
  unfold subCoin at debited
  simp only [ne_eq, not_true_eq_false, if_false] at debited
  split_ifs at debited with short
  cases debited
  have covered : coin.amount ≤ s.balance addr coin.denom := by omega
  have kept : Ledger.Positive (s.post (debits addr [coin])).balances := by
    apply positive.adjust
    rw [← balance_eq]
    dsimp only
    omega
  apply setBalance_post
  · intro _
    exact written covered kept
  · intro invalid
    apply refused
    have nonneg : coin.amount ≤ s.balance addr coin.denom := covered
    simpa [isValidCoin, nonneg] using invalid

theorem subUnlockedCoin_post {locked : Coins} :
    Ensures (subUnlockedCoin addr locked coin) s
      fun _ next => next = s.post (debits addr [coin]) ∧ Ledger.Positive next.balances := by
  unfold subUnlockedCoin
  simp only [post_bind]
  apply getBalance_post
  · simp only [post_rules]
    intro _ _ _ _ _ _ _ _ _ _ newBalance debited
    exact setDebited_post positive debited (fun _ kept => ⟨rfl, kept⟩) (fun _ => trivial)
  · intro _
    trivial

omit positive

theorem lockedCoins_post :
    Ensures (lockedCoins ctx addr) s fun _ next => next = s := by
  unfold lockedCoins
  simp only [post_rules]
  split
  · simp
  · simp

theorem subUnlockedCoins_post (positive : Ledger.Positive s.balances) :
    Ensures (subUnlockedCoins ctx addr amt) s fun _ next =>
      amt.Valid ∧ next = s.post (debits addr amt) ∧ Ledger.Positive next.balances := by
  unfold subUnlockedCoins
  simp only [post_rules]
  intro accepted
  have valid : amt.Valid := Coins.isValid_iff.mp (by simpa using accepted)
  refine lockedCoins_post.imp ?_
  intro locked mid unchanged
  rw [unchanged]
  apply (post_forEach (fun (rest : Coins) mid => Ledger.Positive mid.balances
    ∧ s.post (debits addr amt) = mid.post (debits addr rest)) ?_ amt s ⟨positive, rfl⟩).imp
  · intro _ last kept
    exact ⟨valid, kept.2.symm, kept.1⟩
  · intro coin rest mid kept
    obtain ⟨midPositive, reached⟩ := kept
    refine (subUnlockedCoin_post midPositive).imp ?_
    intro _ next isNext
    refine ⟨isNext.2, ?_⟩
    rw [reached, isNext.1]
    rfl

/-! ## The invariant -/

/-- The supply is the sum of the balances, and nothing zero or negative is stored. -/
structure Conserved (s : State) : Prop where
  supply : ∀ denom, s.supplyOf denom = Ledger.total (OfDenom denom) s.balances
  balances : Ledger.Positive s.balances
  supplies : Ledger.Positive s.supply

/-- Equal changes of the balances and of the supply keep the invariant. -/
theorem Conserved.of_posts (held : Conserved s) {supplies : List (Denom × Int)}
    (agree : ∀ denom, Ledger.net (OfDenom denom) changes = Ledger.netAt supplies denom)
    (balances : next.balances = Ledger.post s.balances changes)
    (supply : next.supply = Ledger.post s.supply supplies)
    (positive : Ledger.Positive next.balances) (positives : Ledger.Positive next.supply) :
    Conserved next where
  supply := by
    intro denom
    show Ledger.amountAt next.supply denom = _
    have before : Ledger.amountAt s.supply denom = Ledger.total (OfDenom denom) s.balances :=
      held.supply denom
    rw [supply, balances, Ledger.amountAt_post, Ledger.total_post, agree, before]
  balances := positive
  supplies := positives

/-- Changes that cancel out in every denomination keep the invariant. -/
theorem Conserved.of_post (held : Conserved s)
    (cancel : ∀ denom, Ledger.net (OfDenom denom) changes = 0)
    (balances : next.balances = Ledger.post s.balances changes) (supply : next.supply = s.supply)
    (positive : Ledger.Positive next.balances) : Conserved next := by
  apply held.of_posts cancel balances (show _ = Ledger.post s.supply [] from supply) positive
  rw [supply]
  exact held.supplies

/-- A transfer: debit, possible changes of accounts, credit. -/
theorem net_transfer (fromAddr toAddr : Address) (amt : Coins) (denom : Denom) :
    Ledger.net (OfDenom denom) (debits fromAddr amt ++ credits toAddr amt) = 0 := by
  rw [Ledger.net_append, net_debits_denom, net_credits_denom]
  omega

/-! ## Recipients -/

/-- Stored accounts stay as they are; only plain accounts appear. -/
structure AccountsKept (s next : State) : Prop where
  kept : ∀ {addr : Address} {acc : Account}, s.accounts.get? addr = some acc →
    next.accounts.get? addr = some acc
  fresh : ∀ {addr : Address} {acc : Account}, next.accounts.get? addr = some acc →
    s.accounts.get? addr = some acc ∨ ∃ plain, acc = .base plain

theorem AccountsKept.refl (s : State) : AccountsKept s s :=
  ⟨fun found => found, fun found => Or.inl found⟩

def IsError (fault : Fault Reason) : Prop := ∃ reason, fault = .error reason

/-- A recipient without an account gets one. -/
def State.withAccount (s : State) (addr : Address) : State :=
  if (s.accounts.get? addr).isNone = true then
    { s with accounts := s.accounts.set addr (.base ⟨addr, none⟩) }
  else s

theorem ensureAccount_post :
    Post (ensureAccount addr) s (fun _ next => next = s.withAccount addr) stops := by
  unfold ensureAccount State.withAccount
  simp only [post_rules]
  exact ⟨fun absent => (if_pos absent).symm, fun present => (if_neg present).symm⟩

theorem AccountsKept.withAccount (s : State) (addr : Address) :
    AccountsKept s (s.withAccount addr) := by
  unfold State.withAccount
  split_ifs with absent
  · constructor
    · intro other acc found
      rw [Store.get?_set_of_ne ?_]
      · exact found
      · intro same
        rw [← same, found] at absent
        cases absent
    · intro other acc found
      rcases Store.get?_set_cases found with here | elsewhere
      · exact Or.inr ⟨_, here.2⟩
      · exact Or.inl elsewhere.2
  · exact AccountsKept.refl s

/-- The state after coins are credited to a recipient. -/
def State.credited (s : State) (recipient : Address) (amt : Coins) : State :=
  (s.post (credits recipient amt)).withAccount recipient

theorem credited_balances (s : State) (recipient : Address) (amt : Coins) :
    (s.credited recipient amt).balances = Ledger.post s.balances (credits recipient amt) := by
  unfold State.credited State.withAccount
  split_ifs <;> rfl

theorem credited_supply (s : State) (recipient : Address) (amt : Coins) :
    (s.credited recipient amt).supply = s.supply := by
  unfold State.credited State.withAccount
  split_ifs <;> rfl

theorem AccountsKept.credited (s : State) (recipient : Address) (amt : Coins) :
    AccountsKept s (s.credited recipient amt) :=
  have kept := AccountsKept.withAccount (s.post (credits recipient amt)) recipient
  ⟨kept.kept, kept.fresh⟩

theorem creditRecipient_post (positive : Ledger.Positive s.balances) :
    Post (creditRecipient k ctx fromAddr toAddr amt) s
      (fun recipient next => k.redirect ctx s fromAddr toAddr amt = .ok recipient ∧ amt.Valid
        ∧ next = s.credited recipient amt ∧ Ledger.Positive next.balances)
      (fun fault _ => IsError fault) := by
  unfold creditRecipient
  simp only [post_rules]
  cases answer : k.redirect ctx s fromAddr toAddr amt with
  | error reason =>
    simp only [post_fail]
    exact ⟨_, rfl⟩
  | ok recipient =>
    simp only [post_rules]
    refine (addCoins_post positive).mono ?_ (fun fault next stopped => ⟨_, stopped.1⟩)
    intro _ mid credited
    obtain ⟨valid, isMid, midPositive⟩ := credited
    refine ensureAccount_post.imp ?_
    intro _ next ensured
    rw [isMid] at ensured midPositive
    have isNext : next = s.credited recipient amt := ensured
    rw [isNext, credited_balances]
    exact ⟨valid, rfl, midPositive⟩

/-! ## Sends -/

theorem sendCoins_post (positive : Ledger.Positive s.balances) :
    Ensures (sendCoins k ctx fromAddr toAddr amt) s fun _ next => ∃ recipient,
      k.redirect ctx (s.post (debits fromAddr amt)) fromAddr toAddr amt = .ok recipient
        ∧ next.balances = Ledger.post s.balances (debits fromAddr amt ++ credits recipient amt)
        ∧ next.supply = s.supply ∧ Ledger.Positive next.balances := by
  unfold sendCoins
  simp only [post_rules]
  refine (subUnlockedCoins_post positive).imp ?_
  intro _ mid debited
  obtain ⟨_, isMid, midPositive⟩ := debited
  refine (creditRecipient_post midPositive).ensures ?_
  intro recipient next credited
  obtain ⟨answer, _, isNext, nextPositive⟩ := credited
  rw [isMid] at answer isNext
  refine ⟨recipient, answer, ?_, ?_, nextPositive⟩
  · rw [isNext, credited_balances, Ledger.post_append]
    rfl
  · rw [isNext, credited_supply]
    rfl

/-! ## Multi sends -/

/-- The recipients of the outputs: each decoded address as the send restriction redirects it
in the state with the outputs before it credited. -/
def recipients (k : Keeper) (ctx : Context) (inAddress : Address) :
    List Transfer → State → List Address
  | [], _ => []
  | out :: rest, s =>
    match (k.addressCodec out.address).map (k.redirect ctx s inAddress · out.coins) with
    | some (.ok recipient) =>
      recipient :: recipients k ctx inAddress rest (s.credited recipient out.coins)
    | _ => []

/-- The credits of outputs, each to its recipient. -/
def directed (addrs : List Address) (outputs : List Transfer) : List (BalanceKey × Int) :=
  (List.zipWith (fun recipient out => credits recipient out.coins) addrs outputs).flatten

def received (addr : Address) (denom : Denom) (addrs : List Address) (outputs : List Transfer) :
    Int :=
  (List.zipWith (fun recipient out => if addr = recipient then out.coins.total denom else 0)
    addrs outputs).sum

theorem netAt_directed (addr : Address) (denom : Denom) (outputs : List Transfer) :
    ∀ addrs : List Address,
      Ledger.netAt (directed addrs outputs) ⟨addr, denom⟩ = received addr denom addrs outputs := by
  induction outputs with
  | nil =>
    intro addrs
    simp [directed, received]
  | cons out rest ih =>
    intro addrs
    cases addrs with
    | nil => rfl
    | cons recipient others =>
      show Ledger.netAt (credits recipient out.coins ++ directed others rest) _ = _
      rw [Ledger.netAt_append, netAt_credits, ih]
      rfl

theorem net_directed_denom (denom : Denom) (outputs : List Transfer) :
    ∀ addrs : List Address, addrs.length = outputs.length →
      Ledger.net (OfDenom denom) (directed addrs outputs)
        = (outputs.map fun out => out.coins.total denom).sum := by
  induction outputs with
  | nil =>
    intro addrs _
    simp [directed]
  | cons out rest ih =>
    intro addrs sameLength
    cases addrs with
    | nil => cases sameLength
    | cons recipient others =>
      show Ledger.net _ (credits recipient out.coins ++ directed others rest) = _
      rw [Ledger.net_append, net_credits_denom, ih others (Nat.succ.inj sameLength)]
      rfl

theorem creditOutput_post {inAddress : Address} {out : Transfer}
    (positive : Ledger.Positive s.balances) :
    Post (creditOutput k ctx inAddress out) s
      (fun recipient next =>
        (k.addressCodec out.address).map (k.redirect ctx s inAddress · out.coins)
            = some (.ok recipient)
          ∧ out.coins.Valid ∧ next = s.credited recipient out.coins
          ∧ Ledger.Positive next.balances)
      (fun fault _ => IsError fault) := by
  unfold creditOutput
  simp only [post_rules]
  constructor
  · intro outAddress decoded
    refine (creditRecipient_post positive).imp ?_
    intro recipient next credited
    rw [decoded]
    exact ⟨congrArg some credited.1, credited.2⟩
  · intro _
    exact ⟨_, rfl⟩

theorem creditOutputs_post {k : Keeper} {ctx : Context} {inAddress : Address} :
    ∀ (outputs : List Transfer) (s : State), Ledger.Positive s.balances →
      Post (forEach (fun out => do let _ ← creditOutput k ctx inAddress out) outputs) s
        (fun _ next => (recipients k ctx inAddress outputs s).length = outputs.length
          ∧ next.balances = Ledger.post s.balances
              (directed (recipients k ctx inAddress outputs s) outputs)
          ∧ next.supply = s.supply ∧ Ledger.Positive next.balances)
        (fun fault _ => IsError fault)
  | [], s, positive => ⟨rfl, rfl, rfl, positive⟩
  | out :: rest, s, positive => by
    rw [forEach]
    simp only [post_rules]
    refine (creditOutput_post positive).imp ?_
    intro recipient mid credited
    obtain ⟨answer, _, isMid, midPositive⟩ := credited
    refine (creditOutputs_post rest mid midPositive).imp ?_
    intro _ next finished
    obtain ⟨sameLength, nextBalances, nextSupply, nextPositive⟩ := finished
    have listed : recipients k ctx inAddress (out :: rest) s
        = recipient :: recipients k ctx inAddress rest mid := by
      rw [recipients, answer, isMid]
    refine ⟨?_, ?_, ?_, nextPositive⟩
    · rw [listed, length_cons, sameLength, length_cons]
    · rw [listed, nextBalances, isMid, credited_balances, ← Ledger.post_append]
      rfl
    · rw [nextSupply, isMid, credited_supply]

theorem validateBasic_post {transfer : Transfer} :
    Post (transfer.validateBasic k) s
      (fun _ next => next = s ∧ k.addressCodec transfer.address ≠ none ∧ transfer.coins.Valid)
      (fun fault _ => IsError fault) := by
  unfold Transfer.validateBasic
  simp only [post_rules]
  refine ⟨fun _ => ⟨_, rfl⟩, fun decoded => ⟨fun _ => ⟨_, rfl⟩, fun valid => ⟨fun _ => ⟨_, rfl⟩,
    fun _ => ⟨decoded, ?_⟩⟩⟩⟩
  exact Coins.isValid_iff.mp (by simpa using valid)

theorem validateInputOutputs_post :
    Post (validateInputOutputs k input outputs) s
      (fun _ next => next = s ∧ input.coins.Valid
        ∧ ∀ denom, input.coins.total denom = (outputs.map fun out => out.coins.total denom).sum)
      (fun fault _ => IsError fault) := by
  unfold validateInputOutputs
  simp only [post_bind]
  refine validateBasic_post.imp ?_
  intro _ first checked
  obtain ⟨unchanged, _, inputValid⟩ := checked
  rw [unchanged]
  refine ((post_forEach (fun rest mid => mid = s ∧ (∀ out ∈ rest, out ∈ outputs)
    ∧ ∀ out ∈ outputs, out ∉ rest → out.coins.Valid) ?_ outputs s
    ⟨rfl, fun _ member => member, fun _ member absent => absurd member absent⟩).imp ?_)
  · intro out rest mid kept
    obtain ⟨midUnchanged, within, done⟩ := kept
    refine validateBasic_post.imp ?_
    intro _ next outChecked
    refine ⟨outChecked.1.trans midUnchanged, fun other member =>
      within other (mem_cons_of_mem out member), fun other member absent => ?_⟩
    by_cases here : other = out
    · rw [here]
      exact outChecked.2.2
    · exact done other member fun listed => by
        rcases mem_cons.mp listed with same | later
        · exact here same
        · exact absent later
  · intro _ last kept
    obtain ⟨lastUnchanged, _, valid⟩ := kept
    have setsValid : ∀ coins ∈ outputs.map (fun out => out.coins), coins.Valid := by
      intro coins member
      obtain ⟨out, inside, same⟩ := mem_map.mp member
      rw [← same]
      exact valid out inside (not_mem_nil)
    obtain ⟨sum, converted, sumValid, totals⟩ := MapCoins.toCoins_addAll setsValid
    rw [foldl_map] at converted
    simp only [converted, post_rules, Option.some.injEq, reduceCtorEq, false_implies]
    intro found isFound
    cases isFound
    refine ⟨fun _ => ⟨_, rfl⟩, fun accepted => ⟨lastUnchanged, inputValid, fun denom => ?_⟩⟩
    have same := inputValid.increasing.eq_of_equal sumValid.increasing (by simpa using accepted)
    rw [same, totals, map_map]
    rfl

theorem inputOutputCoins_post (positive : Ledger.Positive s.balances) :
    Ensures (inputOutputCoins k ctx input outputs) s fun _ next =>
      ∃ inAddress, k.addressCodec input.address = some inAddress
        ∧ next.balances = Ledger.post s.balances (debits inAddress input.coins
            ++ directed (recipients k ctx inAddress outputs (s.post (debits inAddress input.coins)))
              outputs)
        ∧ (∀ denom, Ledger.net (OfDenom denom) (debits inAddress input.coins
            ++ directed (recipients k ctx inAddress outputs (s.post (debits inAddress input.coins)))
              outputs) = 0)
        ∧ next.supply = s.supply ∧ Ledger.Positive next.balances := by
  unfold inputOutputCoins
  simp only [post_rules]
  refine validateInputOutputs_post.ensures ?_
  intro _ first validated
  obtain ⟨unchanged, _, totals⟩ := validated
  intro inAddress decoded
  rw [unchanged]
  refine (subUnlockedCoins_post positive).imp ?_
  intro _ mid debited
  obtain ⟨_, isMid, midPositive⟩ := debited
  refine (creditOutputs_post outputs mid midPositive).ensures ?_
  intro _ next credited
  obtain ⟨sameLength, balances, supply, nextPositive⟩ := credited
  rw [isMid] at sameLength balances supply
  refine ⟨inAddress, decoded, ?_, ?_, supply, nextPositive⟩
  · rw [balances, Ledger.post_append]
    rfl
  · intro denom
    rw [Ledger.net_append, net_debits_denom, net_directed_denom denom outputs _ sameLength, totals]
    omega

/-! ## Delegation -/

theorem debitDelegator_post (positive : Ledger.Positive s.balances) :
    Ensures (foldOver (debitDelegator delegatorAddr) amt []) s
      fun _ next => next = s.post (debits delegatorAddr amt) ∧ Ledger.Positive next.balances := by
  apply (post_foldOver (fun (rest : Coins) (_ : Coins) mid => Ledger.Positive mid.balances
    ∧ s.post (debits delegatorAddr amt) = mid.post (debits delegatorAddr rest)) ?_ amt [] s
    ⟨positive, rfl⟩).imp
  · intro _ last kept
    exact ⟨kept.2.symm, kept.1⟩
  · intro coin rest acc mid kept
    obtain ⟨midPositive, reached⟩ := kept
    unfold debitDelegator
    simp only [post_bind]
    apply getBalance_post
    · simp only [post_rules]
      intro _ _ _ _ _ newBalance debited
      refine setDebited_post midPositive debited ?_ (fun _ => trivial)
      intro _ nextPositive
      exact ⟨nextPositive, reached⟩
    · intro _
      trivial

abbrev KeepsCoins {α : Type} (action : BankM α) (s : State) : Prop :=
  Ensures action s fun _ next => next.balances = s.balances ∧ next.supply = s.supply

theorem trackDelegation_post {balance : Coins} :
    KeepsCoins (trackDelegation ctx addr balance amt) s := by
  unfold trackDelegation
  simp only [post_rules]
  intro acc _
  cases acc <;> simp

theorem trackUndelegation_post : KeepsCoins (trackUndelegation addr amt) s := by
  unfold trackUndelegation
  simp only [post_rules]
  intro acc _
  cases acc <;> simp

/-- The credit at the end of a transfer whose accounts changed in between. -/
theorem Conserved.credit {debited : State} (held : Conserved s)
    (isDebited : debited = s.post (debits fromAddr amt))
    (positive : Ledger.Positive debited.balances) (balances : mid.balances = debited.balances)
    (supply : mid.supply = debited.supply) :
    Ensures (addCoins toAddr amt) mid fun _ => Conserved := by
  rw [← balances] at positive
  refine (addCoins_post positive).ensures ?_
  intro _ next added
  obtain ⟨_, credited, nextPositive⟩ := added
  refine held.of_post (net_transfer fromAddr toAddr amt) ?_ ?_ nextPositive
  · rw [credited, Ledger.post_append]
    show Ledger.post mid.balances _ = _
    rw [balances, isDebited]
    rfl
  · rw [credited]
    show mid.supply = _
    rw [supply, isDebited]
    rfl

theorem delegateCoins_keeps (held : Conserved s) :
    Ensures (delegateCoins ctx delegatorAddr moduleAccAddr amt) s fun _ => Conserved := by
  unfold delegateCoins
  simp only [post_rules]
  intro _ _ _
  refine (debitDelegator_post held.balances).imp ?_
  intro total debited isDebited
  obtain ⟨isDebited, debitedPositive⟩ := isDebited
  refine trackDelegation_post.imp ?_
  intro _ mid tracked
  exact held.credit isDebited debitedPositive tracked.1 tracked.2

theorem undelegateCoins_keeps (held : Conserved s) :
    Ensures (undelegateCoins ctx moduleAccAddr delegatorAddr amt) s fun _ => Conserved := by
  unfold undelegateCoins
  simp only [post_rules]
  intro _ _ _
  refine (subUnlockedCoins_post held.balances).imp ?_
  intro _ debited isDebited
  obtain ⟨_, isDebited, debitedPositive⟩ := isDebited
  refine trackUndelegation_post.imp ?_
  intro _ mid tracked
  exact held.credit isDebited debitedPositive tracked.1 tracked.2

/-! ## Supply -/

def supplied (amounts : Coins) : List (Denom × Int) :=
  amounts.map fun amount => (amount.denom, amount.amount)

theorem netAt_supplied (amounts : Coins) (denom : Denom) :
    Ledger.netAt (supplied amounts) denom = amounts.total denom := by
  induction amounts with
  | nil => rfl
  | cons amount rest ih =>
    show Ledger.netAt ((amount.denom, amount.amount) :: supplied rest) _ = _
    rw [Ledger.netAt_cons, ih, Coins.total_cons]
    simp only [eq_comm (a := denom)]

theorem setSupply_post
    (written : holds () { s with supply := Ledger.write s.supply coin.denom coin.amount }) :
    Post (setSupply coin) s holds stops := by
  unfold setSupply
  unfold Ledger.write at written
  rw [post_ite]
  constructor
  · intro zero
    rwa [if_pos zero] at written
  · intro nonzero
    rwa [if_neg nonzero] at written

theorem getSupply_post {holds : Coin → State → Prop} (read : holds ⟨denom, s.supplyOf denom⟩ s) :
    Ensures (getSupply denom) s holds := by
  unfold getSupply newCoin
  simp only [post_rules]
  intro found isFound
  split_ifs at isFound
  cases isFound
  exact read

/-- An action that changes the supply of one denomination, and nothing else. -/
abbrev Resupplies (action : BankM Unit) (denom : Denom) (change : Int) (s : State) : Prop :=
  Ensures action s fun _ next => next.balances = s.balances
    ∧ next.supply = Ledger.adjust s.supply denom change ∧ Ledger.Positive next.supply

theorem supply_round (positive : Ledger.Positive s.supply) {change : Int}
    (sameDenom : coin.denom = amount.denom)
    (isChange : coin.amount = s.supplyOf amount.denom + change) (nonneg : 0 ≤ coin.amount) :
    Resupplies (setSupply coin) amount.denom change s := by
  apply setSupply_post
  refine ⟨rfl, ?_, positive.write coin.denom nonneg⟩
  show Ledger.write s.supply coin.denom coin.amount = _
  rw [sameDenom, isChange]
  rfl

theorem mintSupply_post (positive : Ledger.Positive s.supply) (nonneg : 0 ≤ amount.amount) :
    Resupplies (mintSupply amount) amount.denom amount.amount s := by
  have before : 0 ≤ s.supplyOf amount.denom := positive.amountAt_nonneg _
  unfold mintSupply
  simp only [post_rules]
  apply getSupply_post
  intro coin added
  simp only [addCoin, ne_eq, not_true_eq_false, if_false, Option.some.injEq] at added
  rw [← added]
  exact supply_round positive rfl rfl (by dsimp only; omega)

theorem burnSupply_post (positive : Ledger.Positive s.supply) :
    Resupplies (burnSupply amount) amount.denom (-amount.amount) s := by
  unfold burnSupply
  simp only [post_rules]
  apply getSupply_post
  intro coin removed
  simp only [subCoin, ne_eq, not_true_eq_false, if_false] at removed
  split_ifs at removed with short
  cases removed
  exact supply_round positive rfl rfl (by dsimp only; omega)

/-- The loop over the amounts, whatever one round adds to the supply. -/
theorem supplyLoop_post (round : ∀ amount ∈ amounts, ∀ mid : State, Ledger.Positive mid.supply →
      Resupplies (body amount) amount.denom (change amount) mid)
    (positive : Ledger.Positive s.supply) :
    Ensures (forEach body amounts) s fun _ next => next.balances = s.balances
      ∧ next.supply = Ledger.post s.supply (amounts.map fun amount => (amount.denom, change amount))
      ∧ Ledger.Positive next.supply := by
  induction amounts generalizing s with
  | nil => exact ⟨rfl, rfl, positive⟩
  | cons amount rest ih =>
    rw [forEach]
    refine (round amount mem_cons_self s positive).bind ?_
    intro _ mid first
    obtain ⟨balances, supply, midPositive⟩ := first
    refine (ih (fun other member => round other (mem_cons_of_mem amount member))
      midPositive).imp ?_
    intro _ next finished
    obtain ⟨nextBalances, nextSupply, nextPositive⟩ := finished
    refine ⟨nextBalances.trans balances, ?_, nextPositive⟩
    rw [nextSupply, supply]
    rfl

theorem getModuleAccount_post : KeepsCoins (getModuleAccount k moduleName) s := by
  unfold getModuleAccount
  simp only [post_rules]
  intro registered _
  split
  · simp
  · simp
  · simp

theorem Conserved.of_same (held : Conserved s)
    (same : next.balances = s.balances ∧ next.supply = s.supply) : Conserved next := by
  refine @Conserved.of_post s next [] held (fun _ => rfl) same.1 same.2 ?_
  rw [same.1]
  exact held.balances

/-- A change of the balances followed by the loop that changes the supply as much. -/
theorem Conserved.resupplied (held : Conserved s) (isMid : mid = s.post changes)
    (midPositive : Ledger.Positive mid.balances)
    (round : ∀ amount ∈ amounts, ∀ current : State, Ledger.Positive current.supply →
      Resupplies (body amount) amount.denom (change amount) current)
    (agree : ∀ denom, Ledger.net (OfDenom denom) changes
      = Ledger.netAt (amounts.map fun amount => (amount.denom, change amount)) denom) :
    Ensures (forEach body amounts) mid fun _ => Conserved := by
  have midSupply : mid.supply = s.supply := by rw [isMid]; rfl
  refine (supplyLoop_post round (by rw [midSupply]; exact held.supplies)).imp ?_
  rintro _ next ⟨balances, supply, positives⟩
  refine held.of_posts agree ?_ ?_ ?_ positives
  · rw [balances, isMid]
    rfl
  · rw [supply, midSupply]
  · rw [balances]
    exact midPositive

theorem mintCoins_keeps (held : Conserved s) :
    Ensures (mintCoins k ctx moduleName amounts) s fun _ => Conserved := by
  unfold mintCoins
  simp only [post_rules]
  cases k.mintCoinsRestrictionFn ctx s amounts with
  | some reason => simp
  | none =>
    refine getModuleAccount_post.bind ?_
    intro account first unchanged
    simp only [post_rules]
    intro _
    have heldFirst := held.of_same unchanged
    refine (addCoins_post heldFirst.balances).ensures ?_
    intro _ mid credited
    obtain ⟨valid, isMid, midPositive⟩ := credited
    refine heldFirst.resupplied isMid midPositive (fun amount member state positive =>
      mintSupply_post positive (valid.positive amount member).le) ?_
    intro denom
    rw [net_credits_denom]
    exact (netAt_supplied amounts denom).symm

theorem burnCoins_keeps (held : Conserved s) :
    Ensures (burnCoins k ctx moduleName amounts) s fun _ => Conserved := by
  unfold burnCoins
  refine getModuleAccount_post.bind ?_
  intro account first unchanged
  simp only [post_rules]
  intro _
  have heldFirst := held.of_same unchanged
  refine (subUnlockedCoins_post heldFirst.balances).imp ?_
  intro _ mid debited
  obtain ⟨_, isMid, midPositive⟩ := debited
  refine heldFirst.resupplied isMid midPositive
    (fun amount _ state positive => burnSupply_post positive) ?_
  intro denom
  have negated := netAt_supplied amounts.negative denom
  rw [supplied, Coins.negative, map_map] at negated
  rw [debits, net_credits_denom]
  exact negated.symm

/-! ## Runs -/

/-- Every operation keeps the invariant. -/
theorem Op.exec_keeps (k : Keeper) (op : Op) (held : Conserved s) :
    Ensures (op.exec k) s fun _ => Conserved := by
  cases op with
  | sendCoins ctx fromAddr toAddr amt =>
    refine (sendCoins_post held.balances).imp ?_
    intro _ next sent
    obtain ⟨recipient, _, balances, supply, positive⟩ := sent
    exact held.of_post (net_transfer fromAddr recipient amt) balances supply positive
  | inputOutputCoins ctx input outputs =>
    refine (inputOutputCoins_post held.balances).imp ?_
    intro _ next sent
    obtain ⟨_, _, balances, cancel, supply, positive⟩ := sent
    exact held.of_post cancel balances supply positive
  | delegateCoins ctx delegatorAddr moduleAccAddr amt => exact delegateCoins_keeps held
  | undelegateCoins ctx moduleAccAddr delegatorAddr amt => exact undelegateCoins_keeps held
  | mintCoins ctx moduleName amounts => exact mintCoins_keeps held
  | burnCoins ctx moduleName amounts => exact burnCoins_keeps held

/-- In every run the supply stays the sum of the balances and nothing zero or negative is
stored; and from every state reached, a send or a multi send that succeeds changes no
supply, and gives every account other than the sender exactly the coins directed to it. -/
theorem coins_are_conserved (k : Keeper) (start : State) (held : Conserved start) (ops : List Op) :
    let s := runAll (Op.exec k) ops start
    Conserved s
      ∧ (∀ (ctx : Context) (fromAddr toAddr : Address) (amt : Coins) (next : State),
          sendCoins k ctx fromAddr toAddr amt s = .ok () next →
          next.supply = s.supply ∧ ∃ recipient,
            k.redirect ctx (s.post (debits fromAddr amt)) fromAddr toAddr amt = .ok recipient
            ∧ ∀ addr, addr ≠ fromAddr → ∀ denom, next.balance addr denom
                = s.balance addr denom + if addr = recipient then amt.total denom else 0)
      ∧ ∀ (ctx : Context) (input : Transfer) (outputs : List Transfer) (next : State),
          inputOutputCoins k ctx input outputs s = .ok () next →
          next.supply = s.supply ∧ ∃ inAddress, k.addressCodec input.address = some inAddress
            ∧ ∀ addr, addr ≠ inAddress → ∀ denom, next.balance addr denom
                = s.balance addr denom + received addr denom
                    (recipients k ctx inAddress outputs (s.post (debits inAddress input.coins)))
                    outputs := by
  intro s
  have reached : Conserved s :=
    runAll_invariant (fun op state kept => Op.exec_keeps k op kept) ops start held
  refine ⟨reached, ?_, ?_⟩
  · intro ctx fromAddr toAddr amt next ran
    obtain ⟨recipient, answer, balances, supply, _⟩ :=
      (sendCoins_post reached.balances).of_ok ran
    refine ⟨supply, recipient, answer, fun addr other denom => ?_⟩
    rw [balance_eq, balances, Ledger.amountAt_post, Ledger.netAt_append, netAt_debits,
      netAt_credits, if_neg other, zero_add]
    rfl
  · intro ctx input outputs next ran
    obtain ⟨inAddress, decoded, balances, _, supply, _⟩ :=
      (inputOutputCoins_post reached.balances).of_ok ran
    refine ⟨supply, inAddress, decoded, fun addr other denom => ?_⟩
    rw [balance_eq, balances, Ledger.amountAt_post, Ledger.netAt_append, netAt_debits,
      netAt_directed, if_neg other, zero_add]
    rfl

/-! ## A concrete run -/

/-- A keeper that redirects what is sent to address 3 to address 4. -/
def sampleKeeper : Keeper where
  addressCodec := fun text =>
    if text = "sender" then some [1] else if text = "other" then some [3] else none
  permAddrs := fun name => if name = "mint" then some ([9], [.minter, .burner]) else none
  sendRestriction := some fun _ _ _ toAddr _ => .ok (if toAddr = [3] then [4] else toAddr)
  mintCoinsRestrictionFn := fun _ _ _ => none

def sampleDenom : Denom := [97, 97, 97]

/-- Mint, send, and a multi send with two outputs to one redirected address. -/
def sampleOps : List Op :=
  [.mintCoins ⟨0⟩ "mint" [⟨sampleDenom, 10⟩],
    .sendCoins ⟨0⟩ [9] [1] [⟨sampleDenom, 7⟩],
    .inputOutputCoins ⟨0⟩ ⟨"sender", [⟨sampleDenom, 5⟩]⟩
      [⟨"other", [⟨sampleDenom, 2⟩]⟩, ⟨"other", [⟨sampleDenom, 3⟩]⟩],
    .burnCoins ⟨0⟩ "mint" [⟨sampleDenom, 1⟩]]

theorem conserved_empty : Conserved ⟨∅, ∅, ∅⟩ := by
  refine ⟨fun denom => rfl, ?_, ?_⟩
  · intro key amount found
    cases found
  · intro denom amount found
    cases found

theorem coins_conserved_after_multi_send :
    let s := runAll (Op.exec sampleKeeper) sampleOps ⟨∅, ∅, ∅⟩
    Conserved s ∧ s.balance [4] sampleDenom = 5 ∧ s.balance [1] sampleDenom = 2
      ∧ s.balance [9] sampleDenom = 2 ∧ s.supplyOf sampleDenom = 9 := by
  intro s
  have held := coins_are_conserved sampleKeeper ⟨∅, ∅, ∅⟩ conserved_empty sampleOps
  exact ⟨held.1, by decide +kernel, by decide +kernel, by decide +kernel, by decide +kernel⟩

end AtomOneSdk.Bank
