import AtomOneSdk.Staking.Types

/-!
Contract: the coin sets of `types/coin.go` and `types/mapcoins.go`.

Owns: validity of a denomination and of a coin set, binary search, addition,
subtraction and minimum of coin sets, comparison, and the map used for bulk addition.

Does **not** own: decimal coins, and parsing and printing. Amounts are unbounded, as in
the other modules. A function that panics returns `none`.
-/

namespace AtomOneSdk.Types

open Lib
open Staking (Denom Coin)

/-- A list of coins; sorted by denomination and positive when `isValid`. -/
abbrev Coins := List Coin

/-! ## Denominations -/

def isLetter (char : Fin 256) : Bool :=
  (65 ≤ char.val && char.val ≤ 90) || (97 ≤ char.val && char.val ≤ 122)

/-- Letters, digits and `/`, `:`, `.`, `_`, `-`. -/
def isDenomChar (char : Fin 256) : Bool :=
  isLetter char || (48 ≤ char.val && char.val ≤ 57) || [47, 58, 46, 95, 45].contains char.val

/-- A letter followed by 2 to 127 further characters. -/
def validateDenom : Denom → Bool
  | [] => false
  | head :: tail => isLetter head && 2 ≤ tail.length && tail.length ≤ 127 && tail.all isDenomChar

/-- `Coin.Validate`. -/
def isValidCoin (coin : Coin) : Bool :=
  validateDenom coin.denom && 0 ≤ coin.amount

/-! ## Single coins -/

def newCoin (denom : Denom) (amount : Int) : Option Coin :=
  let coin : Coin := ⟨denom, amount⟩
  if isValidCoin coin then some coin else none

/-- `Coin.Add`. -/
def addCoin (coin coinB : Coin) : Option Coin :=
  if coin.denom ≠ coinB.denom then none else some ⟨coin.denom, coin.amount + coinB.amount⟩

/-- `Coin.Sub`. -/
def subCoin (coin coinB : Coin) : Option Coin :=
  if coin.denom ≠ coinB.denom then none
  else if coin.amount - coinB.amount < 0 then none
  else some ⟨coin.denom, coin.amount - coinB.amount⟩

/-- `Coin.SubAmount`. -/
def subAmount (coin : Coin) (amount : Int) : Option Coin :=
  if coin.amount - amount < 0 then none else some ⟨coin.denom, coin.amount - amount⟩

/-- `Coin.IsLT`. -/
def isLT (coin other : Coin) : Option Bool :=
  if coin.denom ≠ other.denom then none else some (coin.amount < other.amount)

/-! ## Maps of coins -/

abbrev MapCoins := Store Denom Int

namespace MapCoins

def amountOf (m : MapCoins) (denom : Denom) : Int :=
  (m.get? denom).getD 0

def add (m : MapCoins) (coins : Coins) : MapCoins :=
  coins.foldl (fun m coin => m.set coin.denom (MapCoins.amountOf m coin.denom + coin.amount)) m

/-- The amounts that are not zero, in order. -/
def nonZero (m : MapCoins) : Coins :=
  (m.entries.filter fun entry => entry.2 ≠ 0).map fun entry => ⟨entry.1, entry.2⟩

/-- `NewCoin` panics on an invalid coin. -/
def toCoins (m : MapCoins) : Option Coins :=
  let coins := nonZero m
  if coins.all isValidCoin then some coins else none

end MapCoins

/-! ## Sets of coins -/

namespace Coins

/-- The loop of `Validate` behind its first coin. -/
def isValidAfter (lowDenom : Denom) : Coins → Bool
  | [] => true
  | coin :: rest =>
    validateDenom coin.denom && decide (lowDenom < coin.denom) && decide (0 < coin.amount)
      && isValidAfter coin.denom rest

def isValid : Coins → Bool
  | [] => true
  | coin :: rest =>
    validateDenom coin.denom && decide (0 < coin.amount) && isValidAfter coin.denom rest

def isSorted : Coins → Bool
  | [] => true
  | [_] => true
  | first :: second :: rest =>
    decide (first.denom ≤ second.denom) && isSorted (second :: rest)

def isAllPositive (coins : Coins) : Bool :=
  !coins.isEmpty && coins.all fun coin => 0 < coin.amount

def find (denom : Denom) (coins : Coins) : Option Coin :=
  if _small : coins.length ≤ 1 then
    coins.head?.filter fun coin => coin.denom = denom
  else
    let midIdx := coins.length / 2
    match coins[midIdx]? with
    | none => none
    | some coin =>
      if denom < coin.denom then find denom (coins.take midIdx)
      else if denom = coin.denom then some coin
      else find denom (coins.drop (midIdx + 1))
termination_by coins.length
decreasing_by
  · simp only [List.length_take]
    omega
  · simp only [List.length_drop]
    omega

def amountOfNoDenomValidation (coins : Coins) (denom : Denom) : Int :=
  ((find denom coins).map (·.amount)).getD 0

def amountOf (coins : Coins) (denom : Denom) : Option Int :=
  if validateDenom denom then some (amountOfNoDenomValidation coins denom) else none

def sort (coins : Coins) : Coins :=
  coins.insertionSort fun a b => a.denom ≤ b.denom

def newCoins (coins : Coins) : Option Coins :=
  let sanitized := sort (coins.filter fun coin => coin.amount ≠ 0)
  if isValid sanitized then some sanitized else none

def safeAdd (coins coinsB : Coins) : Option Coins :=
  if isSorted coins && isSorted coinsB then
    some (MapCoins.nonZero ((MapCoins.add ∅ coins).add coinsB))
  else none

def negative (coins : Coins) : Coins :=
  coins.map fun coin => ⟨coin.denom, -coin.amount⟩

def isAnyNegative (coins : Coins) : Bool :=
  coins.any fun coin => coin.amount < 0

/-- The difference and whether one of its amounts is negative. -/
def safeSub (coins coinsB : Coins) : Option (Coins × Bool) := do
  let subtracted ← newCoins coinsB
  let diff ← safeAdd coins (negative subtracted)
  pure (diff, isAnyNegative diff)

def sub (coins coinsB : Coins) : Option Coins := do
  let (diff, hasNeg) ← safeSub coins coinsB
  if hasNeg then none else pure diff

/-- The two-index walk of `Min`. -/
def minimum : Coins → Coins → Coins
  | [], _ => []
  | _ :: _, [] => []
  | coinA :: restA, coinB :: restB =>
    if coinA.denom < coinB.denom then minimum restA (coinB :: restB)
    else if coinA.denom = coinB.denom then
      let minCoin := if coinB.amount < coinA.amount then coinB else coinA
      if minCoin.amount ≠ 0 then minCoin :: minimum restA restB else minimum restA restB
    else minimum (coinA :: restA) restB
termination_by coins coinsB => coins.length + coinsB.length

def min (coins coinsB : Coins) : Option Coins :=
  newCoins (minimum coins coinsB)

def equal (coins coinsB : Coins) : Bool :=
  coins.length = coinsB.length && sort coins = sort coinsB

/-- The loop of `IsAllGTE`. -/
def isAllGTELoop (coins : Coins) : Coins → Option Bool
  | [] => some true
  | coinB :: rest => do
    let amount ← amountOf coins coinB.denom
    if amount < coinB.amount then pure false else isAllGTELoop coins rest

def isAllGTE (coins coinsB : Coins) : Option Bool :=
  if coinsB.isEmpty then some true
  else if coins.isEmpty then some false
  else isAllGTELoop coins coinsB

def isAllLTE (coins coinsB : Coins) : Option Bool :=
  isAllGTE coinsB coins

end Coins

end AtomOneSdk.Types
