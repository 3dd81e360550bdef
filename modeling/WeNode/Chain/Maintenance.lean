import WeNode.Chain.Funds

/-!
# End-of-block processing

libraries/chain/database.cpp: `process_TME_fund_for_SCORE_withdrawals` (1340-1459),
`process_savings_withdraws` (1868-1886), `account_recovery_processing` to
`process_decline_voting_rights` (2072-2163) and `clear_expired_delegations` (3322-3339).
-/

namespace WeNode.Chain

open WeNode.Lib

namespace Database

/-! ### Power-downs -/

/- The routes of an account in the order of `by_withdraw_route`.  The walk starts after the route
to the account with id 0. -/
def routesOf (d : Database) (fromId : Nat) : List WithdrawRoute :=
  sortOn (·.toAccount) (·.id) (d.withdrawRoutes.rows.filter fun r =>
    r.fromAccount == fromId && decide (0 < r.toAccount))

/- The share of a route in an amount withdrawn. -/
def routeShare (toWithdraw : Int) (r : WithdrawRoute) : Result Int := do
  return ofUint64 (← toUint64 (u128Mul (u128 toWithdraw) r.percent / percent100))

/- A route that deposits SCORE, and the SCORE deposited so far. -/
def depositSCORE (toWithdraw : Int) (s : Database × Int) (r : WithdrawRoute) :
    Result (Database × Int) := do
  let (d, deposited) := s
  if !r.autoSCORE then return (d, deposited)
  let deposit ← routeShare toWithdraw r
  let deposited ← safeAdd deposited deposit
  if 0 < deposit then do
    let target ← d.getAccountById r.toAccount
    let d ← d.modifyAccount target.name fun a => do
      return { a with score := ← safeAdd a.score deposit }
    let d ← d.adjustProxiedWitnessVotes target.name deposit
    return (d, deposited)
  else return (d, deposited)

/- SCORE leaves the fund for the TME it is converted to. -/
def leaveFund (d : Database) (score : Int) (converted : Asset) : Result Database :=
  d.modifyGpo fun g => do
    let fund ← Asset.sub (.coin g.totalTMEfundForSCORE) converted
    return { g with
      totalTMEfundForSCORE := fund.amount
      totalSCORE := ← safeSub g.totalSCORE score }

/- A route that deposits TME; the SCORE and the TME converted so far. -/
def depositTME (toWithdraw : Int) (s : Database × Int × Asset) (r : WithdrawRoute) :
    Result (Database × Int × Asset) := do
  let (d, deposited, total) := s
  if r.autoSCORE then return (d, deposited, total)
  let target ← d.getAccountById r.toAccount
  let deposit ← routeShare toWithdraw r
  let deposited ← safeAdd deposited deposit
  let converted ← Asset.mul (.score deposit) d.gpo.scorePrice
  let total ← total.add converted
  if 0 < deposit then do
    let d ← d.modifyAccount target.name fun a => do
      let balance ← Asset.add (.coin a.balance) converted
      return { a with balance := balance.amount }
    let d ← d.leaveFund deposit converted
    return (d, deposited, total)
  else return (d, deposited, total)

/- The instalment due: the rate, or at the end what is left over. -/
def instalment (a : Account) : Result Int := do
  if (← safeSub a.toWithdraw a.withdrawn) < a.scoreWithdrawRateInTME then
    return min a.score (← safeMod a.toWithdraw a.scoreWithdrawRateInTME)
  else return min a.score a.scoreWithdrawRateInTME

/- An account after its instalment. -/
def payInstalment (toWithdraw : Int) (converted : Asset) (a : Account) : Result Account := do
  let score ← safeSub a.score toWithdraw
  let balance ← Asset.add (.coin a.balance) converted
  let withdrawn ← safeAdd a.withdrawn toWithdraw
  let a := { a with score := score, balance := balance.amount, withdrawn := withdrawn }
  if a.toWithdraw ≤ withdrawn ∨ score = 0 then
    return { a with scoreWithdrawRateInTME := 0, nextSCOREwithdrawalTime := timeMax }
  else
    return { a with
      nextSCOREwithdrawalTime := timeAdd a.nextSCOREwithdrawalTime scoreWithdrawIntervalSeconds }

/- One instalment: two passes over the routes, the first for SCORE, the second for TME, and the
rest to the account itself. -/
def withdrawInstalment (d : Database) (name : Name) : Result Database := do
  let a ← d.getAccount name
  let toWithdraw ← instalment a
  let (d, asSCORE) ← (d.routesOf a.id).foldlM (depositSCORE toWithdraw) (d, 0)
  let (d, asTME, _) ← (d.routesOf a.id).foldlM (depositTME toWithdraw) (d, 0, .coin 0)
  let toConvert ← safeSub (← safeSub toWithdraw asTME) asSCORE
  require (0 ≤ toConvert) "Deposited more SCORE than were supposed to be withdrawn"
  let converted ← Asset.mul (.score toConvert) d.gpo.scorePrice
  let d ← d.modifyAccount name (payInstalment toWithdraw converted)
  let d ← d.leaveFund toConvert converted
  if 0 < toWithdraw then d.adjustProxiedWitnessVotes name (← safeNeg toWithdraw) else return d

/- The account due that follows a place of `by_nextSCOREwithdrawalTime`. -/
def nextDue (d : Database) (after : Account → Bool) : Option Account :=
  (sortOn (·.nextSCOREwithdrawalTime) (·.id) (d.accounts.rows.filter fun a =>
    decide (a.nextSCOREwithdrawalTime ≤ d.headBlockTime) && after a)).head?

/- The iterator is moved on before the account it stood at is changed; an account whose next
instalment is due too is met again where its new place lies ahead. -/
def withdrawalLoop : Nat → Database → Option Account → Result Database
  | _, d, none => .ok d
  | 0, _, some _ => .error .endless
  | fuel + 1, d, some a => do
    let next := d.nextDue fun b =>
      decide (a.nextSCOREwithdrawalTime < b.nextSCOREwithdrawalTime ∨
        a.nextSCOREwithdrawalTime = b.nextSCOREwithdrawalTime ∧ a.id < b.id)
    let d ← d.withdrawInstalment a.name
    withdrawalLoop fuel d next

/-- `process_TME_fund_for_SCORE_withdrawals`; between two visits of an account lies a week. -/
def processTMEfundForSCOREwithdrawals (d : Database) : Result Database :=
  withdrawalLoop
    (d.accounts.rows.length * (d.headBlockTime / scoreWithdrawIntervalSeconds + 1))
    d (d.nextDue fun _ => true)

/-! ### Savings -/

/- The transfer of one request that is complete. -/
def completeSavingsWithdraw (d : Database) (s : SavingsWithdraw) : Result Database := do
  let d ← d.adjustBalance s.toAccount s.amount
  let d ← d.modifyAccount s.fromAccount fun a =>
    .ok { a with savingsWithdrawRequests := decrement 8 a.savingsWithdrawRequests }
  return { d with savingsWithdraws := d.savingsWithdraws.remove fun x => x.id == s.id }

/-- `process_savings_withdraws` -/
def processSavingsWithdraws (d : Database) : Result Database :=
  ((d.savingsWithdraws.rows.filter fun s => decide (s.complete ≤ d.headBlockTime)).insertionSort
    fun a b => a.complete < b.complete ∨ a.complete = b.complete ∧
      (a.fromAccount < b.fromAccount ∨ a.fromAccount = b.fromAccount ∧
        a.requestId ≤ b.requestId)).foldlM completeSavingsWithdraw d

/-! ### Recovery, escrows and voting rights -/

/- A change of the recovery account that takes effect. -/
def changeRecoveryAccount (d : Database) (r : ChangeRecoveryAccountRequest) : Result Database := do
  let d ← d.modifyAccount r.accountToRecover fun a =>
    .ok { a with recoveryAccount := r.recoveryAccount }
  return { d with changeRecoveryRequests :=
    d.changeRecoveryRequests.remove fun x => x.id == r.id }

/-- `account_recovery_processing` -/
def accountRecoveryProcessing (d : Database) : Result Database :=
  let now := d.headBlockTime
  let d := { d with
    recoveryRequests := { d.recoveryRequests with
      rows := d.recoveryRequests.rows.filter fun r => decide (now < r.expires) }
    ownerHistory := { d.ownerHistory with
      rows := d.ownerHistory.rows.dropWhile fun h =>
        decide (timeAdd h.lastValidTime ownerAuthRecoveryPeriod < now) } }
  (sortOn (·.effectiveOn) (·.id) (d.changeRecoveryRequests.rows.filter fun r =>
    decide (r.effectiveOn ≤ now))).foldlM changeRecoveryAccount d

/- An escrow that was not ratified goes back with its fee. -/
def refundEscrow (d : Database) (e : Escrow) : Result Database := do
  let d ← d.adjustBalance e.fromAccount e.tmeBalance
  let d ← d.adjustBalance e.fromAccount e.tsdBalance
  let d ← d.adjustBalance e.fromAccount e.pendingFee
  return { d with escrows := d.escrows.remove fun x => x.id == e.id }

/-- `expire_escrow_ratification` -/
def expireEscrowRatification (d : Database) : Result Database :=
  (sortOn (·.ratificationDeadline) (·.id) (d.escrows.rows.filter fun e =>
    !e.isApproved && decide (e.ratificationDeadline ≤ d.headBlockTime))).foldlM refundEscrow d

/- The account of a request loses its votes and its proxy. -/
def declineVotingRights (d : Database) (r : DeclineVotingRightsRequest) : Result Database := do
  let a ← d.getAccountById r.account
  let d ← d.adjustProxiedWitnessVotesArray a.name (← leavingDelta a)
  let d ← d.clearWitnessVotes a.name
  let d ← d.modifyAccount a.name fun a =>
    .ok { a with canVote := false, proxy := proxyToSelfAccount }
  return { d with declineRequests := d.declineRequests.remove fun x => x.id == r.id }

/-- `process_decline_voting_rights` -/
def processDeclineVotingRights (d : Database) : Result Database :=
  (sortOn (·.effectiveDate) (·.account) (d.declineRequests.rows.filter fun r =>
    decide (r.effectiveDate ≤ d.headBlockTime))).foldlM declineVotingRights d

/-! ### Expirations -/

/- SCORE whose delegation ended comes back to the delegator. -/
def returnDelegation (d : Database) (e : DelegationExpiration) : Result Database := do
  let d ← d.modifyAccount e.delegator fun a => do
    let delegated ← Asset.sub (.score a.scoreDelegated) e.score
    return { a with scoreDelegated := delegated.amount }
  return { d with delegationExpirations :=
    d.delegationExpirations.remove fun x => x.id == e.id }

/-- `clear_expired_delegations` -/
def clearExpiredDelegations (d : Database) : Result Database :=
  (sortOn (·.expiration) (·.id) (d.delegationExpirations.rows.filter fun e =>
    decide (e.expiration < d.headBlockTime))).foldlM returnDelegation d

end Database

end WeNode.Chain
