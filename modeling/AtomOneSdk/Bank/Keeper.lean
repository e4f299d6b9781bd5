import AtomOneSdk.Lib.Action
import AtomOneSdk.Vesting.Account

/-!
Contract: balances and supply of `x/bank/keeper`.

Owns: reading and writing balances, locked and spendable coins, single and multi
sends with send restrictions, delegation and undelegation of coins, minting and burning,
and the operations of a run.

Does **not** own: events, denomination metadata, send-enabled flags, parameters, account
numbers, and the decoding of addresses, which is a parameter. Amounts are unbounded.
-/

namespace AtomOneSdk.Bank

open Lib Lib.Action AtomOneSdk.Types Vesting
open Staking (Address Denom Coin)

/-! ## State -/

inductive Permission where
  | minter
  | burner
  | staking
deriving DecidableEq, Repr

inductive Account where
  | base (acc : BaseAccount)
  | moduleAccount (name : String) (permissions : List Permission)
  | vesting (acc : VestingAccount)
deriving DecidableEq, Repr

/-- The stores of the bank and the accounts of `x/auth`. -/
structure State where
  balances : Store (Pair Address Denom) Int
  supply : Store Denom Int
  accounts : Store Address Account
deriving DecidableEq

/-- What an operation reads from its context. -/
structure Context where
  /-- Block time in seconds. -/
  blockTime : Int64
deriving DecidableEq, Repr

inductive Reason where
  | invalidCoins
  | insufficientFunds
  | unknownAddress
  | invalidAddress
  | unauthorized
  | inputOutputMismatch
  /-- A send or mint restriction refused. -/
  | restricted (reason : String)
  /-- Panics of the arithmetic on coins and of the tracking of delegations. -/
  | coinArithmetic
  | notModuleAccount
deriving DecidableEq, Repr

abbrev BankM (α : Type) := Action Reason State α

/-! ## Restrictions -/

/-- A send restriction refuses a transfer or returns the recipient to use. -/
abbrev SendRestrictionFn := Context → State → Address → Address → Coins → Except String Address

/-- A minting restriction returns the error with which it refuses. -/
abbrev MintingRestrictionFn := Context → State → Coins → Option String

/-- What the keeper is built with. -/
structure Keeper where
  addressCodec : String → Option Address
  /-- Address and permissions of the registered module accounts. -/
  permAddrs : String → Option (Address × List Permission)
  sendRestriction : Option SendRestrictionFn
  mintCoinsRestrictionFn : MintingRestrictionFn

/-! ## Balances -/

def State.balance (s : State) (addr : Address) (denom : Denom) : Int :=
  (s.balances.get? ⟨addr, denom⟩).getD 0

def State.supplyOf (s : State) (denom : Denom) : Int :=
  (s.supply.get? denom).getD 0

def getBalance (addr : Address) (denom : Denom) : BankM Coin := do
  let s ← get
  getOrCrash (newCoin denom (s.balance addr denom)) .coinArithmetic

/-- Zero balances are not stored. -/
def setBalance (addr : Address) (balance : Coin) : BankM Unit := do
  failIf (isValidCoin balance = false) .invalidCoins
  if balance.amount = 0 then
    modify fun s => { s with balances := s.balances.delete ⟨addr, balance.denom⟩ }
  else
    modify fun s => { s with balances := s.balances.set ⟨addr, balance.denom⟩ balance.amount }

def lockedCoins (ctx : Context) (addr : Address) : BankM Coins := do
  let s ← get
  match s.accounts.get? addr with
  | some (.vesting vacc) => getOrCrash (vacc.lockedCoins ctx.blockTime) .coinArithmetic
  | _ => pure []

def spendableCoin (ctx : Context) (addr : Address) (denom : Denom) : BankM Coin := do
  let balance ← getBalance addr denom
  let locked ← lockedCoins ctx addr
  let amount ← getOrCrash (locked.amountOf denom) .coinArithmetic
  getOrCrash (subAmount balance amount) .coinArithmetic

/-- One round of the loop of `subUnlockedCoins`. -/
def subUnlockedCoin (addr : Address) (locked : Coins) (coin : Coin) : BankM Unit := do
  let balance ← getBalance addr coin.denom
  let lockedAmt ← getOrCrash (locked.amountOf coin.denom) .coinArithmetic
  let lockedCoin ← getOrCrash (newCoin coin.denom lockedAmt) .coinArithmetic
  let (spendable, hasNeg) ← getOrCrash (Coins.safeSub [balance] [lockedCoin]) .coinArithmetic
  failIf (hasNeg = true) .insufficientFunds
  let (_, hasNeg) ← getOrCrash (Coins.safeSub spendable [coin]) .coinArithmetic
  failIf (hasNeg = true) .insufficientFunds
  let newBalance ← getOrCrash (subCoin balance coin) .coinArithmetic
  setBalance addr newBalance

def subUnlockedCoins (ctx : Context) (addr : Address) (amt : Coins) : BankM Unit := do
  failIf (amt.isValid = false) .invalidCoins
  let locked ← lockedCoins ctx addr
  forEach (subUnlockedCoin addr locked) amt

/-- One round of the loop of `addCoins`. -/
def addBalance (addr : Address) (coin : Coin) : BankM Unit := do
  let balance ← getBalance addr coin.denom
  let newBalance ← getOrCrash (addCoin balance coin) .coinArithmetic
  setBalance addr newBalance

def addCoins (addr : Address) (amt : Coins) : BankM Unit := do
  failIf (amt.isValid = false) .invalidCoins
  forEach (addBalance addr) amt

/-! ## Sends -/

/-- `sendRestriction.apply`. -/
def Keeper.redirect (k : Keeper) : SendRestrictionFn := fun ctx s fromAddr toAddr amt =>
  match k.sendRestriction with
  | none => .ok toAddr
  | some restriction => restriction ctx s fromAddr toAddr amt

/-- Create the account of a recipient that has none. -/
def ensureAccount (addr : Address) : BankM Unit := do
  let s ← get
  whenever ((s.accounts.get? addr).isNone = true)
    (modify fun s => { s with accounts := s.accounts.set addr (.base ⟨addr, none⟩) })

def creditRecipient (k : Keeper) (ctx : Context) (fromAddr toAddr : Address) (amt : Coins) :
    BankM Address := do
  match k.redirect ctx (← get) fromAddr toAddr amt with
  | .error reason => fail (.restricted reason)
  | .ok toAddr =>
    addCoins toAddr amt
    ensureAccount toAddr
    pure toAddr

def sendCoins (k : Keeper) (ctx : Context) (fromAddr toAddr : Address) (amt : Coins) :
    BankM Unit := do
  subUnlockedCoins ctx fromAddr amt
  let _ ← creditRecipient k ctx fromAddr toAddr amt

/-- An input or an output of a multi send. -/
structure Transfer where
  address : String
  coins : Coins
deriving DecidableEq, Repr

/-- `Input.ValidateBasic` and `Output.ValidateBasic`. -/
def Transfer.validateBasic (k : Keeper) (transfer : Transfer) : BankM Unit := do
  failIf (k.addressCodec transfer.address = none) .invalidAddress
  failIf (transfer.coins.isValid = false) .invalidCoins
  failIf (transfer.coins.isAllPositive = false) .invalidCoins

def validateInputOutputs (k : Keeper) (input : Transfer) (outputs : List Transfer) :
    BankM Unit := do
  input.validateBasic k
  forEach (Transfer.validateBasic k) outputs
  let m := outputs.foldl (fun m out => MapCoins.add m out.coins) (∅ : MapCoins)
  let totalOut ← getOrCrash m.toCoins .coinArithmetic
  failIf (input.coins.equal totalOut = false) .inputOutputMismatch

/-- One round of the loop over the outputs; returns the recipient. -/
def creditOutput (k : Keeper) (ctx : Context) (inAddress : Address) (out : Transfer) :
    BankM Address := do
  let outAddress ← getOrFail (k.addressCodec out.address) .invalidAddress
  creditRecipient k ctx inAddress outAddress out.coins

def inputOutputCoins (k : Keeper) (ctx : Context) (input : Transfer) (outputs : List Transfer) :
    BankM Unit := do
  validateInputOutputs k input outputs
  let inAddress ← getOrFail (k.addressCodec input.address) .invalidAddress
  subUnlockedCoins ctx inAddress input.coins
  forEach (fun out => do let _ ← creditOutput k ctx inAddress out) outputs

/-! ## Delegation -/

/-- One round of the loop of `DelegateCoins`, with the balances seen so far. -/
def debitDelegator (delegatorAddr : Address) (balances : Coins) (coin : Coin) : BankM Coins := do
  let balance ← getBalance delegatorAddr coin.denom
  let short ← getOrCrash (isLT balance coin) .coinArithmetic
  failIf (short = true) .insufficientFunds
  let balances ← getOrCrash (balances.safeAdd [balance]) .coinArithmetic
  let newBalance ← getOrCrash (subCoin balance coin) .coinArithmetic
  setBalance delegatorAddr newBalance
  pure balances

def trackDelegation (ctx : Context) (addr : Address) (balance amt : Coins) : BankM Unit := do
  let acc ← getOrFail ((← get).accounts.get? addr) .unknownAddress
  match acc with
  | .vesting vacc =>
    let tracked ← getOrCrash (vacc.trackDelegation ctx.blockTime balance amt) .coinArithmetic
    modify fun s => { s with accounts := s.accounts.set addr (.vesting tracked) }
  | _ => pure ()

def trackUndelegation (addr : Address) (amt : Coins) : BankM Unit := do
  let acc ← getOrFail ((← get).accounts.get? addr) .unknownAddress
  match acc with
  | .vesting vacc =>
    let tracked ← getOrCrash (vacc.trackUndelegation amt) .coinArithmetic
    modify fun s => { s with accounts := s.accounts.set addr (.vesting tracked) }
  | _ => pure ()

def delegateCoins (ctx : Context) (delegatorAddr moduleAccAddr : Address) (amt : Coins) :
    BankM Unit := do
  let _ ← getOrFail ((← get).accounts.get? moduleAccAddr) .unknownAddress
  failIf (amt.isValid = false) .invalidCoins
  let balances ← foldOver (debitDelegator delegatorAddr) amt []
  trackDelegation ctx delegatorAddr balances amt
  addCoins moduleAccAddr amt

def undelegateCoins (ctx : Context) (moduleAccAddr delegatorAddr : Address) (amt : Coins) :
    BankM Unit := do
  let _ ← getOrFail ((← get).accounts.get? moduleAccAddr) .unknownAddress
  failIf (amt.isValid = false) .invalidCoins
  subUnlockedCoins ctx moduleAccAddr amt
  trackUndelegation delegatorAddr amt
  addCoins delegatorAddr amt

/-! ## Supply -/

/-- `GetModuleAccount`: address and permissions of the account, created when missing. -/
def getModuleAccount (k : Keeper) (moduleName : String) : BankM (Address × List Permission) := do
  let (addr, perms) ← getOrCrash (k.permAddrs moduleName) .unknownAddress
  match (← get).accounts.get? addr with
  | some (.moduleAccount _ permissions) => pure (addr, permissions)
  | some _ => crash .notModuleAccount
  | none =>
    modify fun s => { s with accounts := s.accounts.set addr (.moduleAccount moduleName perms) }
    pure (addr, perms)

def getSupply (denom : Denom) : BankM Coin := do
  let s ← get
  getOrCrash (newCoin denom (s.supplyOf denom)) .coinArithmetic

/-- Zero supplies are not stored. -/
def setSupply (coin : Coin) : BankM Unit :=
  if coin.amount = 0 then
    modify fun s => { s with supply := s.supply.delete coin.denom }
  else
    modify fun s => { s with supply := s.supply.set coin.denom coin.amount }

def mintSupply (amount : Coin) : BankM Unit := do
  let supply ← getSupply amount.denom
  let supply ← getOrCrash (addCoin supply amount) .coinArithmetic
  setSupply supply

def burnSupply (amount : Coin) : BankM Unit := do
  let supply ← getSupply amount.denom
  let supply ← getOrCrash (subCoin supply amount) .coinArithmetic
  setSupply supply

def mintCoins (k : Keeper) (ctx : Context) (moduleName : String) (amounts : Coins) :
    BankM Unit := do
  let s ← get
  match k.mintCoinsRestrictionFn ctx s amounts with
  | some reason => fail (.restricted reason)
  | none => pure ()
  let (addr, permissions) ← getModuleAccount k moduleName
  crashIf (Permission.minter ∉ permissions) .unauthorized
  addCoins addr amounts
  forEach mintSupply amounts

def burnCoins (k : Keeper) (ctx : Context) (moduleName : String) (amounts : Coins) :
    BankM Unit := do
  let (addr, permissions) ← getModuleAccount k moduleName
  crashIf (Permission.burner ∉ permissions) .unauthorized
  subUnlockedCoins ctx addr amounts
  forEach burnSupply amounts

/-! ## Operations of a run -/

inductive Op where
  | sendCoins (ctx : Context) (fromAddr toAddr : Address) (amt : Coins)
  | inputOutputCoins (ctx : Context) (input : Transfer) (outputs : List Transfer)
  | delegateCoins (ctx : Context) (delegatorAddr moduleAccAddr : Address) (amt : Coins)
  | undelegateCoins (ctx : Context) (moduleAccAddr delegatorAddr : Address) (amt : Coins)
  | mintCoins (ctx : Context) (moduleName : String) (amounts : Coins)
  | burnCoins (ctx : Context) (moduleName : String) (amounts : Coins)
deriving DecidableEq, Repr

def Op.exec (k : Keeper) : Op → BankM Unit
  | .sendCoins ctx fromAddr toAddr amt => Bank.sendCoins k ctx fromAddr toAddr amt
  | .inputOutputCoins ctx input outputs => Bank.inputOutputCoins k ctx input outputs
  | .delegateCoins ctx delegatorAddr moduleAccAddr amt =>
    Bank.delegateCoins ctx delegatorAddr moduleAccAddr amt
  | .undelegateCoins ctx moduleAccAddr delegatorAddr amt =>
    Bank.undelegateCoins ctx moduleAccAddr delegatorAddr amt
  | .mintCoins ctx moduleName amounts => Bank.mintCoins k ctx moduleName amounts
  | .burnCoins ctx moduleName amounts => Bank.burnCoins k ctx moduleName amounts

end AtomOneSdk.Bank
