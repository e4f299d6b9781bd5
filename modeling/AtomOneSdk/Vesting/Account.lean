import AtomOneSdk.Types.Coins

/-!
Contract: the vesting accounts of `x/auth/vesting/types`.

Owns: the four schedules with their checks, vested, vesting and locked coins at a block
time, and the tracking of delegations.

Does **not** own: creation of accounts and the store. Times are counts of seconds in 64
bits, with their wraparound; functions that panic return `none`.
-/

namespace AtomOneSdk.Vesting

open Lib AtomOneSdk.Types
open Staking (Address Denom Coin)

structure BaseAccount where
  address : Address
  /-- Address of the public key, once it is known. -/
  pubKeyAddress : Option Address
deriving DecidableEq, Repr

def BaseAccount.validate (acc : BaseAccount) : Bool :=
  match acc.pubKeyAddress with
  | none => true
  | some keyAddress => acc.address = [] || keyAddress = acc.address

structure BaseVestingAccount where
  baseAccount : BaseAccount
  originalVesting : Coins
  delegatedFree : Coins
  delegatedVesting : Coins
  endTime : Int64
deriving DecidableEq, Repr

structure Period where
  length : Int64
  amount : Coins
deriving DecidableEq, Repr

/-- The account type, with the fields the others do not have. -/
inductive Schedule where
  | continuous (startTime : Int64)
  | delayed
  | periodic (startTime : Int64) (vestingPeriods : List Period)
  | permanentLocked
deriving DecidableEq, Repr

structure VestingAccount extends BaseVestingAccount where
  schedule : Schedule
deriving DecidableEq, Repr

/-! ## Validation -/

/-- `none` is a panic in the comparison of coins. -/
def BaseVestingAccount.validate (bva : BaseVestingAccount) : Option Bool :=
  if bva.endTime < 0 then some false
  else if !bva.originalVesting.isValid || !bva.originalVesting.isAllPositive then some false
  else do
    let covered ← Coins.isAllLTE bva.delegatedVesting bva.originalVesting
    pure (covered && bva.baseAccount.validate)

/-- `Periods.TotalAmount`. -/
def totalAmount (periods : List Period) : Option Coins :=
  MapCoins.toCoins (periods.foldl (fun m period => m.add period.amount) ∅)

def periodsEnd (startTime : Int64) (periods : List Period) : Int64 :=
  periods.foldl (fun endTime period => endTime + period.length) startTime

def Period.validate (period : Period) : Bool :=
  0 ≤ period.length && period.amount.isValid && period.amount.isAllPositive

def VestingAccount.validate (acc : VestingAccount) : Option Bool :=
  match acc.schedule with
  | .continuous startTime =>
    if acc.endTime ≤ startTime then some false else acc.toBaseVestingAccount.validate
  | .delayed => acc.toBaseVestingAccount.validate
  | .periodic startTime vestingPeriods =>
    if acc.endTime ≤ startTime then some false
    else if !vestingPeriods.all Period.validate then some false
    else if periodsEnd startTime vestingPeriods ≠ acc.endTime then some false
    else if periodsEnd startTime vestingPeriods < startTime then some false
    else do
      let originalVesting ← totalAmount vestingPeriods
      if originalVesting.equal acc.originalVesting then acc.toBaseVestingAccount.validate
      else pure false
  | .permanentLocked =>
    if 0 < acc.endTime then some false else acc.toBaseVestingAccount.validate

/-! ## Vested, vesting and locked coins -/

/-- Vested part of one coin for the vesting scalar `s`. -/
def vestedPart (s : Int) (ovc : Coin) : Option Coin :=
  newCoin ovc.denom (Dec.roundInt (Dec.mul (Dec.ofInt ovc.amount) s))

def addVestedPeriods (blockTime : Int64) : List Period → Int64 → MapCoins → MapCoins
  | [], _, m => m
  | period :: rest, currentPeriodStartTime, m =>
    if blockTime - currentPeriodStartTime < period.length then m
    else addVestedPeriods blockTime rest (currentPeriodStartTime + period.length)
      (m.add period.amount)

def VestingAccount.getVestedCoins (acc : VestingAccount) (blockTime : Int64) : Option Coins :=
  match acc.schedule with
  | .continuous startTime =>
    if blockTime ≤ startTime then some []
    else if acc.endTime ≤ blockTime then some acc.originalVesting
    else
      let x := blockTime - startTime
      let y := acc.endTime - startTime
      if y = 0 then none
      else acc.originalVesting.mapM (vestedPart (Dec.quo (Dec.ofInt x.toInt) (Dec.ofInt y.toInt)))
  | .delayed => if acc.endTime ≤ blockTime then some acc.originalVesting else some []
  | .periodic startTime vestingPeriods =>
    if blockTime ≤ startTime then some []
    else if acc.endTime ≤ blockTime then some acc.originalVesting
    else MapCoins.toCoins (addVestedPeriods blockTime vestingPeriods startTime ∅)
  | .permanentLocked => some []

def VestingAccount.getVestingCoins (acc : VestingAccount) (blockTime : Int64) : Option Coins :=
  match acc.schedule with
  | .permanentLocked => some acc.originalVesting
  | _ => do
    let vested ← acc.getVestedCoins blockTime
    acc.originalVesting.sub vested

def BaseVestingAccount.lockedCoinsFromVesting (bva : BaseVestingAccount) (vestingCoins : Coins) :
    Option Coins := do
  let delegated ← vestingCoins.min bva.delegatedVesting
  vestingCoins.sub delegated

def VestingAccount.lockedCoins (acc : VestingAccount) (blockTime : Int64) : Option Coins := do
  let vestingCoins ← acc.getVestingCoins blockTime
  acc.lockedCoinsFromVesting vestingCoins

/-! ## Delegations -/

/-- Add a coin unless its amount is zero. -/
def addUnlessZero (coins : Coins) (denom : Denom) (amount : Int) : Option Coins :=
  if amount ≠ 0 then do
    let coin ← newCoin denom amount
    coins.safeAdd [coin]
  else some coins

/-- Subtract a coin unless its amount is zero. -/
def subUnlessZero (coins : Coins) (denom : Denom) (amount : Int) : Option Coins :=
  if amount ≠ 0 then do
    let coin ← newCoin denom amount
    coins.sub [coin]
  else some coins

/-- One round of `TrackDelegation`. -/
def trackDelegatedCoin (balance vestingCoins : Coins) (bva : BaseVestingAccount) (coin : Coin) :
    Option BaseVestingAccount := do
  let baseAmt ← balance.amountOf coin.denom
  let vestingAmt ← vestingCoins.amountOf coin.denom
  let delVestingAmt ← bva.delegatedVesting.amountOf coin.denom
  if coin.amount = 0 ∨ baseAmt < coin.amount then none
  else do
    let x := min (max (vestingAmt - delVestingAmt) 0) coin.amount
    let y := coin.amount - x
    let delegatedVesting ← addUnlessZero bva.delegatedVesting coin.denom x
    let delegatedFree ← addUnlessZero bva.delegatedFree coin.denom y
    pure { bva with delegatedVesting := delegatedVesting, delegatedFree := delegatedFree }

def BaseVestingAccount.trackDelegation (bva : BaseVestingAccount)
    (balance vestingCoins amount : Coins) : Option BaseVestingAccount :=
  amount.foldlM (trackDelegatedCoin balance vestingCoins) bva

/-- One round of `TrackUndelegation`. -/
def trackUndelegatedCoin (bva : BaseVestingAccount) (coin : Coin) : Option BaseVestingAccount :=
  if coin.amount = 0 then none
  else do
    let delegatedFree ← bva.delegatedFree.amountOf coin.denom
    let delegatedVesting ← bva.delegatedVesting.amountOf coin.denom
    let x := min delegatedFree coin.amount
    let y := min delegatedVesting (coin.amount - x)
    let newFree ← subUnlessZero bva.delegatedFree coin.denom x
    let newVesting ← subUnlessZero bva.delegatedVesting coin.denom y
    pure { bva with delegatedFree := newFree, delegatedVesting := newVesting }

def BaseVestingAccount.trackUndelegation (bva : BaseVestingAccount) (amount : Coins) :
    Option BaseVestingAccount :=
  amount.foldlM trackUndelegatedCoin bva

def VestingAccount.trackDelegation (acc : VestingAccount) (blockTime : Int64)
    (balance amount : Coins) : Option VestingAccount := do
  let vestingCoins ← acc.getVestingCoins blockTime
  let bva ← acc.toBaseVestingAccount.trackDelegation balance vestingCoins amount
  pure { acc with toBaseVestingAccount := bva }

def VestingAccount.trackUndelegation (acc : VestingAccount) (amount : Coins) :
    Option VestingAccount := do
  let bva ← acc.toBaseVestingAccount.trackUndelegation amount
  pure { acc with toBaseVestingAccount := bva }

end AtomOneSdk.Vesting
