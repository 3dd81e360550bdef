import WeNode.Chain.Authorities
import WeNode.Chain.Market
import WeNode.Chain.Maintenance

/-!
# Evaluators of transfers

libraries/chain/node_evaluator.cpp: escrows and transfers (684-889), power-downs and routes
(891-1022), conversions and orders (1762-1840), savings (2043-2097), rewards and delegations
(2150-2275).
-/

namespace WeNode.Chain

open WeNode.Lib

variable (d : Database)

/-! ### Escrows -/

def EscrowTransferOperation.apply (o : EscrowTransferOperation) : Result Database := do
  let sender ← d.getAccount o.fromAccount
  let _ ← d.getAccount o.toAccount
  let _ ← d.getAccount o.agent
  require (d.headBlockTime < o.ratificationDeadline)
    "The escorw ratification deadline must be after head block time."
  require (d.headBlockTime < o.escrowExpiration)
    "The escrow expiration must be after head block time."
  let tmeSpent ← if o.fee.symbol = symbolCoin then o.tmeAmount.add o.fee else pure o.tmeAmount
  let tsdSpent ← if o.fee.symbol = symbolCoin then pure o.tsdAmount else o.tsdAmount.add o.fee
  require (← Asset.ge (.coin sender.balance) tmeSpent) "Account cannot cover TME costs of escrow."
  require (← Asset.ge (.usd sender.tsdBalance) tsdSpent)
    "Account cannot cover TSD costs of escrow."
  let d ← d.adjustBalance o.fromAccount (← tmeSpent.neg)
  let d ← d.adjustBalance o.fromAccount (← tsdSpent.neg)
  if (d.escrows.find fun e => e.fromAccount == o.fromAccount && e.escrowId == o.escrowId).isSome then
    .error .duplicate
  return { d with escrows := d.escrows.create fun id =>
    { id := id
      escrowId := o.escrowId
      fromAccount := o.fromAccount
      toAccount := o.toAccount
      agent := o.agent
      ratificationDeadline := o.ratificationDeadline
      escrowExpiration := o.escrowExpiration
      tsdBalance := o.tsdAmount
      tmeBalance := o.tmeAmount
      pendingFee := o.fee } }

/- The approval of one party, which is given once. -/
def approveEscrow (e : Escrow) (o : EscrowApproveOperation) : Result Escrow := do
  if o.who = o.toAccount then
    require (!e.toApproved) "Account 'to' has already approved the escrow."
  if o.who = o.agent then
    require (!e.agentApproved) "Account 'agent' has already approved the escrow."
  return { e with
    toApproved := e.toApproved || (o.approve && decide (o.who = o.toAccount))
    agentApproved := e.agentApproved || (o.approve && decide (o.who = o.agent)) }

def EscrowApproveOperation.apply (o : EscrowApproveOperation) : Result Database := do
  let e ← d.getEscrow o.fromAccount o.escrowId
  require (e.toAccount = o.toAccount) "Operation 'to' does not match escrow 'to'."
  require (e.agent = o.agent) "Operation 'agent' does not match escrow 'agent'."
  require (d.headBlockTime ≤ e.ratificationDeadline)
    "The escrow ratification deadline has passed. Escrow can no longer be ratified."
  let approved ← approveEscrow e o
  let d ← d.modifyEscrow e.id fun _ => .ok approved
  if !o.approve then d.refundEscrow e
  else if approved.isApproved then do
    let d ← d.adjustBalance o.agent e.pendingFee
    d.modifyEscrow e.id fun e => .ok { e with pendingFee := ⟨0, e.pendingFee.symbol⟩ }
  else return d

def EscrowDisputeOperation.apply (o : EscrowDisputeOperation) : Result Database := do
  let _ ← d.getAccount o.fromAccount
  let e ← d.getEscrow o.fromAccount o.escrowId
  require (d.headBlockTime < e.escrowExpiration)
    "Disputing the escrow must happen before expiration."
  require e.isApproved
    "The escrow must be approved by all parties before a dispute can be raised."
  require (!e.disputed) "The escrow is already under dispute."
  require (e.toAccount = o.toAccount) "Operation 'to' does not match escrow 'to'."
  require (e.agent = o.agent) "Operation 'agent' does not match escrow 'agent'."
  d.modifyEscrow e.id fun e => .ok { e with disputed := true }

/- Who may release funds, and to whom. -/
def checkRelease (e : Escrow) (o : EscrowReleaseOperation) : Result Unit := do
  if e.disputed then
    require (o.who = e.agent) "Only 'agent' can release funds in a disputed escrow."
  else
    require (o.who = e.fromAccount ∨ o.who = e.toAccount)
      "Only 'from' and 'to' can release funds from a non-disputed escrow"
    if d.headBlockTime < e.escrowExpiration then
      if o.who = e.fromAccount then
        require (o.receiver = e.toAccount) "Only 'from' can release funds to 'to'."
      else if o.who = e.toAccount then
        require (o.receiver = e.fromAccount) "Only 'to' can release funds to 'from'."

def EscrowReleaseOperation.apply (o : EscrowReleaseOperation) : Result Database := do
  let _ ← d.getAccount o.fromAccount
  let _ ← d.getAccount o.receiver
  let e ← d.getEscrow o.fromAccount o.escrowId
  require (← e.tmeBalance.ge o.tmeAmount) "Release amount exceeds escrow balance."
  require (← e.tsdBalance.ge o.tsdAmount) "Release amount exceeds escrow balance."
  require (e.toAccount = o.toAccount) "Operation 'to' does not match escrow 'to'."
  require (e.agent = o.agent) "Operation 'agent' does not match escrow 'agent'."
  require (o.receiver = e.fromAccount ∨ o.receiver = e.toAccount)
    "Funds must be released to 'from' or 'to'"
  require e.isApproved "Funds cannot be released prior to escrow approval."
  checkRelease d e o
  let d ← d.adjustBalance o.receiver o.tmeAmount
  let d ← d.adjustBalance o.receiver o.tsdAmount
  let tme ← e.tmeBalance.sub o.tmeAmount
  let tsd ← e.tsdBalance.sub o.tsdAmount
  if tme.amount = 0 ∧ tsd.amount = 0 then
    return { d with escrows := d.escrows.remove fun x => x.id == e.id }
  else d.modifyEscrow e.id fun e => .ok { e with tmeBalance := tme, tsdBalance := tsd }

/-! ### Transfers -/

def TransferOperation.apply (o : TransferOperation) : Result Database := do
  let sender ← d.getAccount o.fromAccount
  let _ ← d.getAccount o.toAccount
  let d ← if sender.activeChallenged then
      d.modifyAccount o.fromAccount fun a =>
        .ok { a with activeChallenged := false, lastActiveProved := d.headBlockTime }
    else pure d
  require (← (← Database.getBalance sender o.amount.symbol).ge o.amount)
    "Account does not have sufficient funds for transfer."
  let d ← d.adjustBalance o.fromAccount (← o.amount.neg)
  d.adjustBalance o.toAccount o.amount

def TransferTMEtoSCOREfundOperation.apply (o : TransferTMEtoSCOREfundOperation) :
    Result Database := do
  let sender ← d.getAccount o.fromAccount
  let receiver := if o.toAccount = 0 then o.fromAccount else o.toAccount
  let _ ← d.getAccount receiver
  require (← Asset.ge (.coin sender.balance) o.amount)
    "Account does not have sufficient TME for transfer."
  let d ← d.adjustBalance o.fromAccount (← o.amount.neg)
  let (d, _) ← d.createTMEfundForSCORE receiver o.amount
  return d

/-! ### Power-downs -/

/- An account that another one registered needs ten times the fee in SCORE to power down. -/
def checkRegistered (a : Account) (o : WithdrawSCOREoperation) : Result Unit := do
  if !a.mined && d.hasHardfork 1 then
    let least ← d.schedule.medianProps.accountCreationFee.mul d.gpo.scorePrice
    let enough ← Asset.gt (.score a.score) ⟨wrap64 (least.amount * 10), least.symbol⟩
    require (enough ∨ (d.hasHardfork 16 ∧ o.score.amount = 0))
      "Account registered by another account requires 10x account creation fee worth of WeYouMe Power before it can be powered down."

/- The start of a power-down of an account. -/
def startWithdrawal (amount : Int) (a : Account) : Result Account := do
  let intervals := if d.hasHardfork 16 then withdrawIntervals else withdrawIntervalsPreHF16
  let rate ← safeDiv amount intervals
  let rate := if rate = 0 then 1 else rate
  if d.hasHardfork 5 then
    require (a.scoreWithdrawRateInTME ≠ rate)
      "This operation would not change the SCORE TME fund withdraw rate."
  return { a with
    scoreWithdrawRateInTME := rate
    nextSCOREwithdrawalTime := timeAdd d.headBlockTime scoreWithdrawIntervalSeconds
    toWithdraw := amount
    withdrawn := 0 }

/- The end of a power-down of an account. -/
def stopWithdrawal (a : Account) : Result Account := do
  if d.hasHardfork 5 then
    require (a.scoreWithdrawRateInTME ≠ 0)
      "This operation would not change the SCORE TME fund withdraw rate."
  return { a with
    scoreWithdrawRateInTME := 0
    nextSCOREwithdrawalTime := timeMax
    toWithdraw := 0
    withdrawn := 0 }

def WithdrawSCOREoperation.apply (o : WithdrawSCOREoperation) : Result Database := do
  let a ← d.getAccount o.account
  if o.score.amount < 0 then
    require (d.headBlockNum ≤ 23847548) "Cannot withdraw negative SCORE."
    return d
  require (0 ≤ a.score) "Account does not have sufficient WeYouMe Power for withdraw."
  let free ← safeSub a.score a.scoreDelegated
  require (← Asset.ge (.score free) o.score)
    "Account does not have sufficient WeYouMe Power for withdraw."
  checkRegistered d a o
  if o.score.amount = 0 then d.modifyAccount o.account (stopWithdrawal d)
  else d.modifyAccount o.account (startWithdrawal d o.score.amount)

/- The change of a route, and the number of routes of its account. -/
def SetWithdrawSCOREasTMErouteOperation.setRoute (o : SetWithdrawSCOREasTMErouteOperation)
    (sender receiver : Account) : Result Database := do
  let key (r : WithdrawRoute) : Bool :=
    r.fromAccount == sender.id && r.toAccount == receiver.id
  match d.withdrawRoutes.find key with
  | none =>
    require (o.percent ≠ 0) "Cannot create a 0% destination."
    require (sender.withdrawRoutes < maxWithdrawRoutes)
      "Account already has the maximum number of routes."
    let d := { d with withdrawRoutes := d.withdrawRoutes.create fun id =>
      ⟨id, sender.id, receiver.id, o.percent, o.autoSCORE⟩ }
    d.modifyAccount o.fromAccount fun a =>
      .ok { a with withdrawRoutes := (a.withdrawRoutes + 1) % 65536 }
  | some _ =>
    if o.percent = 0 then
      let d := { d with withdrawRoutes := d.withdrawRoutes.remove key }
      d.modifyAccount o.fromAccount fun a =>
        .ok { a with withdrawRoutes := decrement 16 a.withdrawRoutes }
    else
      let routes ← d.withdrawRoutes.modify .notFound key fun r =>
        .ok { r with percent := o.percent, autoSCORE := o.autoSCORE }
      return { d with withdrawRoutes := routes }

def SetWithdrawSCOREasTMErouteOperation.apply (o : SetWithdrawSCOREasTMErouteOperation) :
    Result Database := do
  let sender ← d.getAccount o.fromAccount
  let receiver ← d.getAccount o.toAccount
  let d ← o.setRoute d sender receiver
  -- the sum is an `uint16_t`
  let total := ((d.routesOf sender.id).map (·.percent)).sum % 65536
  require (total ≤ percent100)
    "More than 100% of SCORE TME fund withdrawals allocated to destinations."
  return d

/-! ### Conversions and orders -/

def ConvertOperation.apply (o : ConvertOperation) : Result Database := do
  let owner ← d.getAccount o.owner
  require (← (← Database.getBalance owner o.amount.symbol).ge o.amount)
    "Account does not have sufficient balance for conversion."
  let d ← d.adjustBalance o.owner (← o.amount.neg)
  require (!d.feed.currentMedianHistory.isNull) "Cannot convert TSD because there is no price feed."
  let delay := if d.hasHardfork 16 then conversionDelay else conversionDelayPreHF16
  if (d.convertRequests.find fun r => r.owner == o.owner && r.requestId == o.requestId).isSome then
    .error .duplicate
  return { d with convertRequests := d.convertRequests.create fun id =>
    ⟨id, o.owner, o.requestId, o.amount, timeAdd d.headBlockTime delay⟩ }

/- The order of `limit_order_create` and `limit_order_create2`, which differ in their price. -/
def createOrder (owner : Name) (orderId : Nat) (sell : Asset) (price : Result Price)
    (fillOrKill : Bool) (expiration : Time) : Result Database := do
  require (d.headBlockTime < expiration) "Limit order has to expire after head block time."
  let account ← d.getAccount owner
  require (← (← Database.getBalance account sell.symbol).ge sell)
    "Account does not have sufficient funds for limit order."
  let d ← d.adjustBalance owner (← sell.neg)
  let price ← price
  if (d.limitOrders.find fun o => o.seller == owner && o.orderId == orderId).isSome then
    .error .duplicate
  let id := d.limitOrders.nextId
  let d := { d with limitOrders := d.limitOrders.create fun id =>
    ⟨id, d.headBlockTime, expiration, owner, orderId, sell.amount, price⟩ }
  let (d, filled) ← d.applyOrder id
  if fillOrKill then require filled "Cancelling order because it was not filled."
  return d

def LimitOrderCreateOperation.apply (o : LimitOrderCreateOperation) : Result Database :=
  createOrder d o.owner o.orderId o.amountToSell (o.amountToSell.div o.minToReceive) o.fillOrKill
    o.expiration

def LimitOrderCreate2Operation.apply (o : LimitOrderCreate2Operation) : Result Database :=
  createOrder d o.owner o.orderId o.amountToSell (.ok o.exchangeRate) o.fillOrKill o.expiration

def LimitOrderCancelOperation.apply (o : LimitOrderCancelOperation) : Result Database := do
  let order ← d.getLimitOrder o.owner o.orderId
  d.cancelOrder order.id

/-! ### Savings -/

def TransferToSavingsOperation.apply (o : TransferToSavingsOperation) : Result Database := do
  let sender ← d.getAccount o.fromAccount
  let _ ← d.getAccount o.toAccount
  require (← (← Database.getBalance sender o.amount.symbol).ge o.amount)
    "Account does not have sufficient funds to transfer to savings."
  let d ← d.adjustBalance o.fromAccount (← o.amount.neg)
  d.adjustTMEsavingsBalance o.toAccount o.amount

def TransferFromSavingsOperation.apply (o : TransferFromSavingsOperation) : Result Database := do
  let sender ← d.getAccount o.fromAccount
  let _ ← d.getAccount o.toAccount
  require (sender.savingsWithdrawRequests < savingsWithdrawRequestLimit)
    "Account has reached limit for pending withdraw requests."
  require (← (← Database.getTMEsavingsBalance sender o.amount.symbol).ge o.amount)
    "_db.get_TMEsavingsBalance( from, op.amount.symbol ) >= op.amount"
  let d ← d.adjustTMEsavingsBalance o.fromAccount (← o.amount.neg)
  if (d.findSavingsWithdraw o.fromAccount o.requestId).isSome then .error .duplicate
  let d := { d with savingsWithdraws := d.savingsWithdraws.create fun id =>
    ⟨id, o.fromAccount, o.toAccount, o.requestId, o.amount,
      timeAdd d.headBlockTime savingsWithdrawTime⟩ }
  d.modifyAccount o.fromAccount fun a =>
    .ok { a with savingsWithdrawRequests := (a.savingsWithdrawRequests + 1) % 256 }

def CancelTransferFromSavingsOperation.apply (o : CancelTransferFromSavingsOperation) :
    Result Database := do
  let request ← found (d.findSavingsWithdraw o.fromAccount o.requestId)
  let d ← d.adjustTMEsavingsBalance request.fromAccount request.amount
  let d := { d with savingsWithdraws := d.savingsWithdraws.remove fun s => s.id == request.id }
  d.modifyAccount o.fromAccount fun a =>
    .ok { a with savingsWithdrawRequests := decrement 8 a.savingsWithdrawRequests }

/-! ### Rewards and delegations -/

/- The part of the pending value that is moved with the SCORE claimed. -/
def ClaimRewardBalanceOperation.valueToMove (o : ClaimRewardBalanceOperation) (a : Account) :
    Result Int := do
  if o.scoreReward = .score a.scoreRewardBalance then return a.scoreRewardBalanceInTME
  let value ← u128Div (u128Mul (u128 o.scoreReward.amount) (u128 a.scoreRewardBalanceInTME))
    (u128 a.scoreRewardBalance)
  return ofUint64 (← toUint64 value)

/- The SCORE claimed becomes the account's own. -/
def claimSCORE (score value : Int) (a : Account) : Result Account := do
  return { a with
    score := ← safeAdd a.score score
    scoreRewardBalance := ← safeSub a.scoreRewardBalance score
    scoreRewardBalanceInTME := ← safeSub a.scoreRewardBalanceInTME value }

def ClaimRewardBalanceOperation.apply (o : ClaimRewardBalanceOperation) : Result Database := do
  let a ← d.getAccount o.account
  require (← o.tmeReward.le (.coin a.tmeRewardBalance)) "Cannot claim that much TME."
  require (← o.tsdReward.le (.usd a.tsdRewardBalance)) "Cannot claim that much TSD."
  require (← o.scoreReward.le (.score a.scoreRewardBalance)) "Cannot claim that much SCORE."
  let value ← o.valueToMove a
  let d ← d.adjustRewardBalance o.account (← o.tmeReward.neg)
  let d ← d.adjustRewardBalance o.account (← o.tsdReward.neg)
  let d ← d.adjustBalance o.account o.tmeReward
  let d ← d.adjustBalance o.account o.tsdReward
  let score := o.scoreReward.amount
  let d ← d.modifyAccount o.account (claimSCORE score value)
  let d ← d.modifyGpo fun g => do
    return { g with
      totalSCORE := ← safeAdd g.totalSCORE score
      totalTMEfundForSCORE := ← safeAdd g.totalTMEfundForSCORE value
      pendingRewardedSCORE := ← safeSub g.pendingRewardedSCORE score
      pendingRewardedSCOREvalueInTME := ← safeSub g.pendingRewardedSCOREvalueInTME value }
  d.adjustProxiedWitnessVotes o.account score

/- SCORE neither delegated nor being withdrawn. -/
def availableSCORE (a : Account) : Result Int := do
  safeSub (← safeSub a.score a.scoreDelegated) (← safeSub a.toWithdraw a.withdrawn)

def addDelegated (d : Database) (name : Name) (score : Asset) : Result Database :=
  d.modifyAccount name fun a => do
    let delegated ← Asset.add (.score a.scoreDelegated) score
    return { a with scoreDelegated := delegated.amount }

def addReceived (d : Database) (name : Name) (score : Asset) : Result Database :=
  d.modifyAccount name fun a => do
    let received ← Asset.add (.score a.scoreReceived) score
    return { a with scoreReceived := received.amount }

def setDelegation (d : Database) (id : Nat) (score : Asset) : Result Database := do
  let delegations ← d.delegations.modify .notFound (fun v => v.id == id) fun v =>
    .ok { v with score := score }
  return { d with delegations := delegations }

/- A delegation lowered: the difference comes back after a while. -/
def DelegateSCOREoperation.lower (o : DelegateSCOREoperation) (v : Delegation)
    (minDelegation minUpdate : Asset) : Result Database := do
  let delta ← v.score.sub o.score
  if 0 < o.score.amount then
    require (← delta.ge minUpdate) "WeYouMe Power decrease is not enough of a difference."
    require (← o.score.ge minDelegation)
      "Delegation must be removed or leave minimum delegation amount"
  else
    require (0 < v.score.amount) "Delegation would set SCORE to zero, but it is already zero"
  let d := { d with delegationExpirations := d.delegationExpirations.create fun id =>
    ⟨id, o.delegator, delta,
      max (timeAdd d.headBlockTime cashoutWindowSeconds) v.minDelegationTime⟩ }
  let d ← addReceived d o.delegatee (← delta.neg)
  if 0 < o.score.amount then setDelegation d v.id o.score
  else return { d with delegations := d.delegations.remove fun x => x.id == v.id }

def DelegateSCOREoperation.apply (o : DelegateSCOREoperation) : Result Database := do
  let delegator ← d.getAccount o.delegator
  let _ ← d.getAccount o.delegatee
  let available ← availableSCORE delegator
  let fee := d.schedule.medianProps.accountCreationFee
  let minDelegation ← Asset.mul (.coin (← safeMul fee.amount 10)) d.gpo.scorePrice
  let minUpdate ← fee.mul d.gpo.scorePrice
  match d.delegations.find fun v => v.delegator == o.delegator && v.delegatee == o.delegatee with
  | none =>
    require (← Asset.ge (.score available) o.score)
      "Account does not have enough SCORE to delegate."
    require (← o.score.ge minDelegation) "Account must delegate a minimum"
    let d := { d with delegations := d.delegations.create fun id =>
      ⟨id, o.delegator, o.delegatee, o.score, d.headBlockTime⟩ }
    let d ← addDelegated d o.delegator o.score
    addReceived d o.delegatee o.score
  | some v =>
    if ← o.score.ge v.score then
      let delta ← o.score.sub v.score
      require (← delta.ge minUpdate) "WeYouMe Power increase is not enough of a difference."
      require (← Asset.ge (.score available) delta)
        "Account does not have enough SCORE to delegate."
      let d ← addDelegated d o.delegator delta
      let d ← addReceived d o.delegatee delta
      setDelegation d v.id o.score
    else o.lower d v minDelegation minUpdate

end WeNode.Chain
