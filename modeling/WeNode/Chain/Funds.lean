import WeNode.Chain.Balances

/-!
# Inflation, burning and conversions

libraries/chain/database.cpp: `clear_null_account_balance` (1215-1302), `process_funds`
(1799-1867), the rewards of a block (1888-2017), `process_conversions` (2024-2060) and
`update_virtual_supply` (3001-3024).
-/

namespace WeNode.Chain

open WeNode.Lib

namespace Database

/-! ### Burning -/

/- The SCORE of the null account leaves the fund at the current price. -/
def burnSCORE (d : Database) (total : Int) : Result (Database × Int) := do
  let null ← d.getAccount nullAccount
  if 0 < null.score then do
    let converted ← Asset.mul (.score null.score) d.gpo.scorePrice
    let d ← d.modifyGpo fun g => do
      let score ← safeSub g.totalSCORE null.score
      let fund ← Asset.sub (.coin g.totalTMEfundForSCORE) converted
      return { g with totalSCORE := score, totalTMEfundForSCORE := fund.amount }
    let d ← d.modifyAccount nullAccount fun a => .ok { a with score := 0 }
    let total ← Asset.add (.coin total) converted
    return (d, total.amount)
  else return (d, total)

/- The pending SCORE of the null account leaves with the TME it is worth. -/
def burnSCOREreward (d : Database) (total : Int) : Result (Database × Int) := do
  let null ← d.getAccount nullAccount
  if 0 < null.scoreRewardBalance then do
    let total ← safeAdd total null.scoreRewardBalanceInTME
    let d ← d.modifyGpo fun g => do
      return { g with
        pendingRewardedSCORE := ← safeSub g.pendingRewardedSCORE null.scoreRewardBalance
        pendingRewardedSCOREvalueInTME := ←
          safeSub g.pendingRewardedSCOREvalueInTME null.scoreRewardBalanceInTME }
    let d ← d.modifyAccount nullAccount fun a =>
      .ok { a with scoreRewardBalanceInTME := 0, scoreRewardBalance := 0 }
    return (d, total)
  else return (d, total)

/- One asset of the null account: it is taken off by `adjust`, read through `balance`. -/
def burnAsset (adjust : Database → Name → Asset → Result Database) (balance : Account → Asset)
    (s : Database × Int) : Result (Database × Int) := do
  let (d, total) := s
  let held := balance (← d.getAccount nullAccount)
  if 0 < held.amount then do
    let total ← safeAdd total held.amount
    let d ← adjust d nullAccount (← held.neg)
    return (d, total)
  else return (d, total)

/-- `clear_null_account_balance` -/
def clearNullAccountBalance (d : Database) : Result Database := do
  if !d.hasHardfork 14 then return d
  let (d, tme) ← burnAsset adjustBalance (fun a => .coin a.balance) (d, 0)
  let (d, tme) ← burnAsset adjustTMEsavingsBalance (fun a => .coin a.tmeSavingsBalance) (d, tme)
  let (d, tsd) ← burnAsset adjustBalance (fun a => .usd a.tsdBalance) (d, 0)
  let (d, tsd) ← burnAsset adjustTMEsavingsBalance (fun a => .usd a.tsdSavingsBalance) (d, tsd)
  let (d, tme) ← d.burnSCORE tme
  let (d, tme) ← burnAsset adjustRewardBalance (fun a => .coin a.tmeRewardBalance) (d, tme)
  let (d, tsd) ← burnAsset adjustRewardBalance (fun a => .usd a.tsdRewardBalance) (d, tsd)
  let (d, tme) ← d.burnSCOREreward tme
  let d ← if 0 < tme then d.adjustSupply (← Asset.neg (.coin tme)) else pure d
  if 0 < tsd then d.adjustSupply (← Asset.neg (.usd tsd)) else return d

/-! ### Rewards of a block -/

/- The greater of the share of the virtual supply and the least reward. -/
def rewardAtLeast (d : Database) (percent multiply shift : Nat) (least : Int) : Result Int := do
  let reward ← calcPercentReward percent multiply shift d.gpo.virtualSupply
  return if reward < least then least else reward

/-- `get_content_reward` -/
def getContentReward (d : Database) : Result Int :=
  d.rewardAtLeast contentAprPercent aprPercentMultiplyPerBlock aprPercentShiftPerBlock miningReward

/-- `get_curationReward` -/
def getCurationReward (d : Database) : Result Int :=
  d.rewardAtLeast curateAprPercent aprPercentMultiplyPerBlock aprPercentShiftPerBlock miningReward

/-- `get_liquidity_reward` -/
def getLiquidityReward (d : Database) : Result Int :=
  if d.hasHardfork 12 then .ok 0
  else d.rewardAtLeast liquidityAprPercent aprPercentMultiplyPerHour aprPercentShiftPerHour
    minLiquidityReward

/-- `get_pow_reward` -/
def getPowReward (d : Database) : Result Int :=
  if d.gpo.numPowWitnesses < maxWitnesses ∧ d.headBlockNum < startTMEfundForSCOREblock then .ok 0
  else d.rewardAtLeast powAprPercent aprPercentMultiplyPerRound aprPercentShiftPerRound
    miningReward

/-- `get_producer_reward`: the reward, paid to the witness of the block -/
def getProducerReward (currentWitness : Name) (d : Database) : Result (Database × Int) := do
  let pay ← d.rewardAtLeast producerAprPercent aprPercentMultiplyPerBlock aprPercentShiftPerBlock
    miningReward
  let account ← d.getAccount currentWitness
  if startMinerVotingBlock ≤ d.headBlockNum ∨ account.score = 0 then do
    let (d, _) ← d.createTMEfundForSCORE account.name (.coin pay)
    return (d, pay)
  else do
    let d ← d.modifyAccount account.name fun a => do
      return { a with balance := ← safeAdd a.balance pay }
    return (d, pay)

/- The share of one reward fund, and the rewards used so far. -/
def payRewardFund (reward : Int) (s : Database × Int) (fund : RewardFund) :
    Result (Database × Int) := do
  let (d, used) := s
  let r ← safeDiv (← safeMul reward fund.percentContentRewards) percent100
  let d ← d.modifyRewardFund fund.id fun f => do
    return { f with rewardBalance := ← safeAdd f.rewardBalance r }
  let used ← safeAdd used r
  require (used ≤ reward) "used_rewards <= reward"
  return (d, used)

/-- `pay_reward_funds`: the rewards used -/
def payRewardFunds (d : Database) (reward : Int) : Result (Database × Int) :=
  d.rewardFunds.rows.foldlM (payRewardFund reward) (d, 0)

/- The weight of a witness's pay; a witness of no schedule is paid unweighted. -/
def payWeight (s : WitnessSchedule) : ScheduleType → Nat
  | .timeshare => s.timeshareWeight
  | .miner => s.minerWeight
  | .top19 => s.top19Weight
  | .none => 1

/- Inflation since hardfork 16: a narrowing share of the virtual supply. -/
def processInflation (currentWitness : Name) (d : Database) : Result Database := do
  let rate := max (inflationRateStartPercent - (d.headBlockNum / inflationNarrowingPeriod : Nat))
    inflationRateStopPercent
  let newTME ← safeDiv (← safeMul d.gpo.virtualSupply rate) (percent100 * blocksPerYear)
  let content ← safeDiv (← safeMul newTME contentRewardPercent) percent100
  let (d, content) ← if d.hasHardfork 17 then d.payRewardFunds content else pure (d, content)
  let fund ← safeDiv (← safeMul newTME scoreFundPercent) percent100
  let witness ← safeSub (← safeSub newTME content) fund
  let cwit ← d.getWitness currentWitness
  let witness ← safeMul witness maxWitnesses
  let witness ← safeMul witness (payWeight d.schedule cwit.schedule)
  let witness ← safeDiv witness d.schedule.witnessPayNormalizationFactor
  let newTME ← safeAdd (← safeAdd content fund) witness
  let hf17 := d.hasHardfork 17
  let d ← d.modifyGpo fun g => do
    return { g with
      totalTMEfundForSCORE := ← safeAdd g.totalTMEfundForSCORE fund
      totalRewardFundTME := ← if hf17 then pure g.totalRewardFundTME
        else safeAdd g.totalRewardFundTME content
      currentSupply := ← safeAdd g.currentSupply newTME
      virtualSupply := ← safeAdd g.virtualSupply newTME }
  let (d, _) ← d.createTMEfundForSCORE cwit.owner (.coin witness)
  return d

/- Inflation before hardfork 16. -/
def processBlockRewards (currentWitness : Name) (d : Database) : Result Database := do
  let content ← d.getContentReward
  let curate ← d.getCurationReward
  let (d, witnessPay) ← d.getProducerReward currentWitness
  let fund ← safeAdd (← safeAdd content curate) witnessPay
  let content ← safeAdd content curate
  let fund := if d.headBlockNum < startTMEfundForSCOREblock then 0 else wrap64 (fund * 9)
  d.modifyGpo fun g => do
    let total ← safeAdd (← safeAdd content witnessPay) fund
    return { g with
      totalTMEfundForSCORE := ← safeAdd g.totalTMEfundForSCORE fund
      totalRewardFundTME := ← safeAdd g.totalRewardFundTME content
      currentSupply := ← safeAdd g.currentSupply total
      virtualSupply := ← safeAdd g.virtualSupply total }

/-- `process_funds` -/
def processFunds (currentWitness : Name) (d : Database) : Result Database :=
  if d.hasHardfork 16 then d.processInflation currentWitness
  else d.processBlockRewards currentWitness

/-- `pay_liquidity_reward` -/
def payLiquidityReward (d : Database) : Result Database := do
  if d.headBlockNum % liquidityRewardBlocks ≠ 0 then return d
  let reward ← d.getLiquidityReward
  if reward = 0 then return d
  match (d.liquidityRewards.rows.insertionSort fun a b =>
      b.weight < a.weight ∨ a.weight = b.weight ∧ a.owner ≤ b.owner).head? with
  | none => return d
  | some r =>
    if r.volumeWeight = 0 then return d
    let d ← d.adjustSupply (.coin reward) true
    let owner ← d.getAccountById r.owner
    let d ← d.adjustBalance owner.name (.coin reward)
    let rewards ← d.liquidityRewards.modify .notFound (fun x => x.id == r.id) fun x =>
      .ok { x with tmeVolume := 0, tsdVolume := 0, lastUpdate := d.headBlockTime, weight := 0 }
    return { d with liquidityRewards := rewards }

/-! ### Conversions and the virtual supply -/

/- The conversion of one request, with the TSD and TME converted so far. -/
def convertRequest (s : Database × Asset × Asset) (r : ConvertRequest) :
    Result (Database × Asset × Asset) := do
  let (d, netTSD, netTME) := s
  let issue ← r.amount.mul d.feed.currentMedianHistory
  let d ← d.adjustBalance r.owner issue
  let netTSD ← netTSD.add r.amount
  let netTME ← netTME.add issue
  return ({ d with convertRequests := d.convertRequests.remove fun x => x.id == r.id },
    netTSD, netTME)

/-- `process_conversions` -/
def processConversions (d : Database) : Result Database := do
  let price := d.feed.currentMedianHistory
  if price.isNull then return d
  let due := sortOn (·.conversionDate) (·.id) (d.convertRequests.rows.filter fun r =>
    decide (r.conversionDate ≤ d.headBlockTime))
  let (d, netTSD, netTME) ← due.foldlM convertRequest (d, .usd 0, .coin 0)
  d.modifyGpo fun g => do
    let virtual ← safeAdd g.virtualSupply netTME.amount
    let virtual ← Asset.sub (.coin virtual) (← netTSD.mul price)
    return { g with
      currentSupply := ← safeAdd g.currentSupply netTME.amount
      currentTSDsupply := ← safeSub g.currentTSDsupply netTSD.amount
      virtualSupply := virtual.amount }

/- The rate at which TSD is printed, by the share of TSD in the virtual supply. -/
def printRate (percentTSD : Nat) : Nat :=
  if percentTSD ≤ tsdStartPercent then percent100
  else if tsdStopPercent ≤ percentTSD then 0
  else (tsdStopPercent - percentTSD) * percent100 / (tsdStopPercent - tsdStartPercent)

/-- `update_virtual_supply` -/
def updateVirtualSupply (d : Database) : Result Database :=
  let price := d.feed.currentMedianHistory
  d.modifyGpo fun g => do
    if price.isNull then
      return { g with virtualSupply := ← safeAdd g.currentSupply 0 }
    let tsd ← Asset.mul (.usd g.currentTSDsupply) price
    let virtual ← Asset.add (.coin g.currentSupply) tsd
    let g := { g with virtualSupply := virtual.amount }
    if d.hasHardfork 14 then
      let percent ← toUint64 (← u128Div (u128Mul (u128 tsd.amount) percent100) (u128 virtual.amount))
      return { g with tsdPrintRate := printRate (percent % 65536) }
    return g

end Database

end WeNode.Chain
