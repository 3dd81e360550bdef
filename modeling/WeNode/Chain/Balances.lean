import WeNode.Chain.Reward
import WeNode.Chain.Votes

/-!
# Balances and supplies

libraries/chain/database.cpp: `pay_fee`, `create_TSD`, `createTMEfundForSCORE` (968-1080) and
`adjust_balance` to `get_TMEsavingsBalance` (3341-3479).
-/

namespace WeNode.Chain

open WeNode.Lib

namespace Database

/-! ### Interest -/

/- A TSD balance with its record of interest, and the interest paid if a payment is due. -/
structure Interest where
  balance : Int
  seconds : Nat
  lastUpdate : Time
  lastPayment : Time
  paid : Option Int := none

/- What `adjust_balance` and `adjust_TMEsavingsBalance` do with the interest of the balance they
adjust. -/
def accrueInterest (d : Database) (i : Interest) : Result Interest := do
  let now := d.headBlockTime
  if i.lastUpdate = now then return i
  let seconds := u128Add i.seconds
    (u128Mul (u128 i.balance) (u128 (d.secondsSince i.lastUpdate)))
  if 0 < seconds ∧ tsdInterestCompoundIntervalSec < d.secondsSince i.lastPayment then
    let interest := u128Mul (seconds / secondsPerYear) d.gpo.tsdInterestRate / percent100
    let paid := ofUint64 (← toUint64 interest)
    return ⟨← safeAdd i.balance paid, 0, now, now, some paid⟩
  return { i with seconds := seconds, lastUpdate := now }

/- The interest paid enters the supply. -/
def payInterest (d : Database) : Option Int → Result Database
  | none => .ok d
  | some paid => d.modifyGpo fun g => do
    let tsd ← safeAdd g.currentTSDsupply paid
    let tme ← Asset.mul (.usd paid) d.feed.currentMedianHistory
    let virtual ← Asset.add (.coin g.virtualSupply) tme
    return { g with currentTSDsupply := tsd, virtualSupply := virtual.amount }

/-! ### Adjusting balances -/

/-- `adjust_balance` -/
def adjustBalance (d : Database) (name : Name) (delta : Asset) : Result Database := do
  if delta.symbol = symbolCoin then
    d.modifyAccount name fun a => do
      return { a with balance := ← safeAdd a.balance delta.amount }
  else if delta.symbol = symbolUsd then do
    let a ← d.getAccount name
    let i ← d.accrueInterest
      ⟨a.tsdBalance, a.tsdSeconds, a.tsdSecondsLastUpdate, a.tsdLastInterestPayment, none⟩
    let d ← d.payInterest i.paid
    d.modifyAccount name fun a => do
      return { a with
        tsdBalance := ← safeAdd i.balance delta.amount
        tsdSeconds := i.seconds
        tsdSecondsLastUpdate := i.lastUpdate
        tsdLastInterestPayment := i.lastPayment }
  else .error (.assertion "invalid symbol")

/-- `adjust_TMEsavingsBalance` -/
def adjustTMEsavingsBalance (d : Database) (name : Name) (delta : Asset) : Result Database := do
  if delta.symbol = symbolCoin then
    d.modifyAccount name fun a => do
      return { a with tmeSavingsBalance := ← safeAdd a.tmeSavingsBalance delta.amount }
  else if delta.symbol = symbolUsd then do
    let a ← d.getAccount name
    let i ← d.accrueInterest
      ⟨a.tsdSavingsBalance, a.savingsTSDseconds, a.savingsTSDsecondsLastUpdate,
        a.savingsTSDlastInterestPayment, none⟩
    let d ← d.payInterest i.paid
    d.modifyAccount name fun a => do
      return { a with
        tsdSavingsBalance := ← safeAdd i.balance delta.amount
        savingsTSDseconds := i.seconds
        savingsTSDsecondsLastUpdate := i.lastUpdate
        savingsTSDlastInterestPayment := i.lastPayment }
  else .error (.assertion "!\"invalid symbol\"")

/-- `adjust_reward_balance` -/
def adjustRewardBalance (d : Database) (name : Name) (delta : Asset) : Result Database := do
  if delta.symbol = symbolCoin then
    d.modifyAccount name fun a => do
      return { a with tmeRewardBalance := ← safeAdd a.tmeRewardBalance delta.amount }
  else if delta.symbol = symbolUsd then
    d.modifyAccount name fun a => do
      return { a with tsdRewardBalance := ← safeAdd a.tsdRewardBalance delta.amount }
  else .error (.assertion "invalid symbol")

/-- `adjust_supply` -/
def adjustSupply (d : Database) (delta : Asset) (adjustFund : Bool := false) :
    Result Database :=
  let adjustFund := adjustFund && decide (blocksPerDay * 7 ≤ d.headBlockNum)
  if delta.symbol = symbolCoin then
    d.modifyGpo fun g => do
      let newSCORE ← if adjustFund ∧ 0 < delta.amount then safeMul delta.amount 9 else pure 0
      let total ← safeAdd delta.amount newSCORE
      return { g with
        currentSupply := ← safeAdd g.currentSupply total
        virtualSupply := ← safeAdd g.virtualSupply total
        totalTMEfundForSCORE := ← safeAdd g.totalTMEfundForSCORE newSCORE }
  else if delta.symbol = symbolUsd then
    d.modifyGpo fun g => do
      let tsd ← safeAdd g.currentTSDsupply delta.amount
      let tme ← Asset.mul (.usd tsd) d.feed.currentMedianHistory
      let virtual ← tme.add (.coin g.currentSupply)
      return { g with currentTSDsupply := tsd, virtualSupply := virtual.amount }
  else .error (.assertion "invalid symbol")

/-- `get_balance` -/
def getBalance (a : Account) (symbol : Nat) : Result Asset :=
  if symbol = symbolCoin then .ok (.coin a.balance)
  else if symbol = symbolUsd then .ok (.usd a.tsdBalance)
  else .error (.assertion "invalid symbol")

/-- `get_TMEsavingsBalance` -/
def getTMEsavingsBalance (a : Account) (symbol : Nat) : Result Asset :=
  if symbol = symbolCoin then .ok (.coin a.tmeSavingsBalance)
  else if symbol = symbolUsd then .ok (.usd a.tsdSavingsBalance)
  else .error (.assertion "!\"invalid symbol\"")

/-! ### Creating TSD and SCORE -/

/- A payment into the reward balance of an account, or into its balance. -/
def adjustPayout (d : Database) (toRewardBalance : Bool) (name : Name) (delta : Asset) :
    Result Database :=
  if toRewardBalance then d.adjustRewardBalance name delta else d.adjustBalance name delta

/-- `create_TSD`: the TSD and the TME the account got -/
def createTSD (d : Database) (name : Name) (tme : Asset) (toRewardBalance : Bool) :
    Result (Database × Asset × Asset) := do
  if tme.amount = 0 then return (d, .usd 0, .coin 0)
  let price := d.feed.currentMedianHistory
  if !price.isNull then do
    let toTSD ← safeDiv (← safeMul d.gpo.tsdPrintRate tme.amount) percent100
    let toTME ← safeSub tme.amount toTSD
    let tsd ← Asset.mul (.coin toTSD) price
    let d ← d.adjustPayout toRewardBalance name tsd
    let d ← d.adjustPayout toRewardBalance name (.coin toTME)
    let d ← d.adjustSupply (.coin (← safeNeg toTSD))
    let d ← d.adjustSupply tsd
    return (d, tsd, .coin toTME)
  else do
    let d ← d.adjustBalance name tme
    return (d, .usd 0, tme)

/-- `createTMEfundForSCORE`: the SCORE the account got -/
def createTMEfundForSCORE (d : Database) (name : Name) (tme : Asset)
    (toRewardBalance : Bool := false) : Result (Database × Asset) := do
  let price ← if toRewardBalance then d.gpo.scoreRewardPrice else pure d.gpo.scorePrice
  let newSCORE ← tme.mul price
  if toRewardBalance then do
    let d ← d.modifyAccount name fun a => do
      let score ← Asset.add (.score a.scoreRewardBalance) newSCORE
      let value ← Asset.add (.coin a.scoreRewardBalanceInTME) tme
      return { a with
        scoreRewardBalance := score.amount
        scoreRewardBalanceInTME := value.amount }
    let d ← d.modifyGpo fun g => do
      return { g with
        pendingRewardedSCORE := ← safeAdd g.pendingRewardedSCORE newSCORE.amount
        pendingRewardedSCOREvalueInTME := ←
          safeAdd g.pendingRewardedSCOREvalueInTME tme.amount }
    return (d, newSCORE)
  else do
    let d ← d.modifyAccount name fun a => do
      let score ← Asset.add (.score a.score) newSCORE
      return { a with score := score.amount }
    let d ← d.modifyGpo fun g => do
      let fund ← Asset.add (.coin g.totalTMEfundForSCORE) tme
      return { g with
        totalTMEfundForSCORE := fund.amount
        totalSCORE := ← safeAdd g.totalSCORE newSCORE.amount }
    let d ← d.adjustProxiedWitnessVotes name newSCORE.amount
    return (d, newSCORE)

/-- `pay_fee` -/
def payFee (d : Database) (name : Name) (fee : Asset) : Result Database := do
  require (0 ≤ fee.amount) "fee.amount >= 0"
  if fee.amount = 0 then return d
  let a ← d.getAccount name
  require (← Asset.ge (.coin a.balance) fee) "account.balance >= fee"
  let d ← d.adjustBalance name (← fee.neg)
  d.adjustSupply (← fee.neg)

end Database

end WeNode.Chain
