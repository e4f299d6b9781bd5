import AtomOneSdk.Proposals.Params

/-!
Contract: the dynamic minimum deposits of proposals.

Owns: `GetNewMinDeposit` with its clamp, `UpdateMinDeposit` and `UpdateMinInitialDeposit`,
and the update of the parameters, which brings the stored minima to the new floors.

Does **not** own: the queues whose entries are counted; a call is given the count and the
block time. The parameters are always stored. `ApproxRoot` is a parameter, and arithmetic
that panics returns nothing.
-/

namespace AtomOneSdk.Proposals

open Lib Lib.Action
open AtomOneSdk.Types
open Staking (Denom Coin Time Address)

/-! ## New minimum -/

/-- An `Int` of at most 256 bits. -/
def intOf? (value : Int) : Option Int :=
  if value.natAbs < 2 ^ 128 * 2 ^ 128 then some value else none

def maxSafePercChangeProduct : BoundedDec := ⟨10 ^ 70 * Dec.one, by decide⟩

/-- Nil amounts and decimals do not occur. -/
def clampPercChange (amount : Int) (percChange : BoundedDec) : Option BoundedDec := do
  let amtAbs : Int := amount.natAbs
  if amtAbs = 0 then pure percChange
  else
    let amtDec ← BoundedDec.ofInt? amtAbs
    let maxPerc ← maxSafePercChangeProduct.quo amtDec
    if (percChange.units.natAbs : Int) ≤ maxPerc.units then pure percChange
    else if percChange.units < 0 then pure maxPerc.neg
    else pure maxPerc

def changedAmount (percChange : BoundedDec) (amount : Int) : Option Int := do
  let amtDec ← BoundedDec.ofInt? amount
  let clamped ← clampPercChange amount percChange
  let product ← amtDec.mul clamped
  intOf? (Dec.truncateInt product.units)

/-- The coin of a denomination with its changed amount, or its floor. -/
def changedCoin (percChange : BoundedDec) (floorAmt : Int) (coin : Coin) : Option Coin := do
  let amount ← changedAmount percChange coin.amount
  if amount < floorAmt then newCoin coin.denom floorAmt else newCoin coin.denom amount

/-- The loop over the last minimum: the coins whose denominations are still in the floor. -/
def keptCoins (minDepositFloor : Coins) (percChange : BoundedDec) : Coins → Option Coins
  | [] => pure []
  | coin :: rest => do
    let floorAmt ← Coins.amountOf minDepositFloor coin.denom
    if floorAmt = 0 then keptCoins minDepositFloor percChange rest
    else
      let changed ← changedCoin percChange floorAmt coin
      let later ← keptCoins minDepositFloor percChange rest
      pure (changed :: later)

/-- The loop over the floor: the coins whose denominations were not seen. -/
def addedCoins (seen : List Denom) (percChange : BoundedDec) : Coins → Option Coins
  | [] => pure []
  | coin :: rest => do
    if coin.denom ∈ seen then addedCoins seen percChange rest
    else
      let amount ← changedAmount percChange coin.amount
      let changed ← if amount < coin.amount then pure coin else newCoin coin.denom amount
      let later ← addedCoins seen percChange rest
      pure (changed :: later)

def getNewMinDeposit (minDepositFloor lastMinDeposit : Coins) (percChange : BoundedDec) :
    Option Coins := do
  let kept ← keptCoins minDepositFloor percChange lastMinDeposit
  let added ← addedCoins (kept.map (·.denom)) percChange minDepositFloor
  Coins.newCoins (kept ++ added)

/-! ## Updates -/

structure LastMinDeposit where
  value : Coins
  time : Option Time
deriving DecidableEq

/-- `ApproxRoot`; nothing stands for an error. At a negative whole number it returns a value
between that number and minus one. -/
structure Root where
  approxRoot : BoundedDec → UInt64 → Option BoundedDec
  between : ∀ (distance : BoundedDec) (k : UInt64) (b : BoundedDec),
    distance.units ≤ -Dec.one → approxRoot distance k = some b →
      distance.units ≤ b.units ∧ b.units ≤ -Dec.one

/-- `Time.Sub` saturates. -/
def durationSub (t u : Time) : Duration := max (-2 ^ 63) (min (2 ^ 63 - 1) (t - u))

/-- The zero `time.Time`, in the year one. -/
def zeroTime : Time := -62135596800 * 1000000000

/-- One plus the relative increase of the deposit. -/
def increaseChange (throttler : Throttler) : Option BoundedDec := do
  let alpha ← throttler.increaseRatio
  BoundedDec.one.add alpha

/-- One minus the relative decrease of the deposit; an error of the root is dropped. -/
def decreaseChange (root : Root) (throttler : Throttler) (count : UInt64) :
    Option BoundedDec := do
  let alpha ← throttler.decreaseRatio
  let distance ← BoundedDec.ofInt? ((count.toNat : Int) - throttler.targetProposals.toNat)
  let k := throttler.decreaseSensitivityTargetDistance
  let b := (root.approxRoot distance k).getD distance
  let alpha ← alpha.mul b
  BoundedDec.one.add alpha

/-- The change of the deposit; `some none` when it is not to be changed: time brings no
increases, and only time brings decreases. -/
def percChange (root : Root) (throttler : Throttler) (count : UInt64)
    (checkElapsedTime : Bool) : Option (Option BoundedDec) :=
  if throttler.targetProposals ≤ count then
    if checkElapsedTime then some none else some <$> increaseChange throttler
  else if checkElapsedTime then some <$> decreaseChange root throttler count
  else some none

/-- Whether an update by time comes before the update period has passed. -/
def isEarly (throttler : Throttler) (last : LastMinDeposit) (blockTime : Time)
    (checkElapsedTime : Bool) : Option Bool :=
  if checkElapsedTime then do
    let time ← last.time
    let tick ← throttler.updatePeriod
    pure (decide (durationSub blockTime time < tick))
  else some false

/-- The body of both updates: the minimum to store, if one is stored. -/
def updated (root : Root) (throttler : Throttler) (last : LastMinDeposit) (blockTime : Time)
    (count : UInt64) (checkElapsedTime : Bool) : Option (Option LastMinDeposit) := do
  let early ← isEarly throttler last blockTime checkElapsedTime
  if early then pure none
  else
    let change ← percChange root throttler count checkElapsedTime
    match change with
    | none => pure none
    | some change =>
      let newMinDeposit ← getNewMinDeposit throttler.floorValue last.value change
      pure (some ⟨newMinDeposit, some blockTime⟩)

structure ThrottleState where
  params : Params
  lastMinDeposit : Option LastMinDeposit
  lastMinInitialDeposit : Option LastMinDeposit
deriving DecidableEq

namespace ThrottleState

/-- The floor where nothing is stored. -/
def getMinDeposit (s : ThrottleState) : LastMinDeposit :=
  s.lastMinDeposit.getD
    ⟨(s.params.minDepositThrottler.map (·.floorValue)).getD [], some zeroTime⟩

def getMinInitialDeposit (s : ThrottleState) : LastMinDeposit :=
  s.lastMinInitialDeposit.getD
    ⟨(s.params.minInitialDepositThrottler.map (·.floorValue)).getD [], some zeroTime⟩

end ThrottleState

abbrev ThrottleM (α : Type) := Action String ThrottleState α

def updateMinDeposit (root : Root) (blockTime : Time) (countActiveProposals : UInt64)
    (checkElapsedTime : Bool) : ThrottleM Unit := do
  let s ← get
  let throttler ← getOrCrash s.params.minDepositThrottler "nil pointer dereference"
  let next ← getOrCrash
    (updated root throttler s.getMinDeposit blockTime countActiveProposals checkElapsedTime)
    "overflow"
  match next with
  | none => pure ()
  | some last => modify fun s => { s with lastMinDeposit := some last }

def updateMinInitialDeposit (root : Root) (blockTime : Time) (countInactiveProposals : UInt64)
    (checkElapsedTime : Bool) : ThrottleM Unit := do
  let s ← get
  let throttler ← getOrCrash s.params.minInitialDepositThrottler "nil pointer dereference"
  let next ← getOrCrash
    (updated root throttler s.getMinInitialDeposit blockTime countInactiveProposals
      checkElapsedTime)
    "overflow"
  match next with
  | none => pure ()
  | some last => modify fun s => { s with lastMinInitialDeposit := some last }

/-! ## New parameters -/

/-- The minimum at a new floor, if it differs from the stored one. -/
def refloored (throttler : Throttler) (last : LastMinDeposit) (blockTime : Time) :
    Option (Option LastMinDeposit) := do
  let newMinDeposit ← getNewMinDeposit throttler.floorValue last.value BoundedDec.one
  if Coins.equal last.value newMinDeposit then pure none
  else pure (some ⟨newMinDeposit, some blockTime⟩)

/-- Both minima are brought to the floors before the new parameters are checked. -/
def updateParams (authority signer : Address) (blockTime : Time) (params : Params) :
    ThrottleM Unit := do
  failIf (authority ≠ signer) "invalid authority"
  let s ← get
  let throttler ← getOrCrash params.minDepositThrottler "nil pointer dereference"
  let next ← getOrCrash (refloored throttler s.getMinDeposit blockTime) "overflow"
  whenever (next ≠ none) (modify fun s => { s with lastMinDeposit := next })
  let s ← get
  let initialThrottler ← getOrCrash params.minInitialDepositThrottler "nil pointer dereference"
  let nextInitial ←
    getOrCrash (refloored initialThrottler s.getMinInitialDeposit blockTime) "overflow"
  whenever (nextInitial ≠ none) (modify fun s => { s with lastMinInitialDeposit := nextInitial })
  match params.validateBasic with
  | .ok () => modify fun s => { s with params := params }
  | .error fault => throw fault

end AtomOneSdk.Proposals
