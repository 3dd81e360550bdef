import WeNode.Chain.Content
import WeNode.Chain.Schedule

/-!
# Hardforks

libraries/chain/database.cpp: `update_owner_authority` (1320-1338), `process_hardforks` to
`retally_liquidity_weight` (3547-3916) and `perform_SCORE_split` to `retally_witness_vote_counts`
(4047-4195).
-/

namespace WeNode.Chain

open WeNode.Lib

namespace Database

def noteOwnerAuthority (d : Database) (name : Name) (owner : Authority) : Database :=
  if ownerAuthHistoryTrackingStartBlockNum ≤ d.headBlockNum then
    { d with ownerHistory := d.ownerHistory.create fun id => ⟨id, name, owner, d.headBlockTime⟩ }
  else d

/-- `update_owner_authority` -/
def updateOwnerAuthority (d : Database) (name : Name) (owner : Authority) : Result Database := do
  let auth ← d.getAuthority name
  let d := d.noteOwnerAuthority name auth.owner
  d.modifyAuthority name fun a => { a with owner := owner, lastOwnerUpdate := d.headBlockTime }

/-! ### Retallies -/

/- An account after the split of SCORE. -/
def splitAccount (magnitude : Int) (a : Account) : Result Account := do
  let toWithdraw ← safeMul a.toWithdraw magnitude
  let rate ← safeDiv toWithdraw withdrawIntervalsPreHF16
  let proxied ← (List.finRange maxProxyRecursionDepth).mapM fun i =>
    safeMul (a.proxiedVotes i) magnitude
  return { a with
    score := ← safeMul a.score magnitude
    withdrawn := ← safeMul a.withdrawn magnitude
    toWithdraw := toWithdraw
    scoreWithdrawRateInTME := if rate = 0 then 1 else rate
    proxiedVotes := fun i => proxied.getD i 0 }

def splitComment (magnitude : Int) (c : Comment) : Result Comment := do
  return { c with
    netSCOREreward := ← safeMul c.netSCOREreward magnitude
    absSCOREreward := ← safeMul c.absSCOREreward magnitude
    voteSCOREreward := ← safeMul c.voteSCOREreward magnitude }

/-- `perform_SCORE_split` -/
def performSCOREsplit (d : Database) (magnitude : Int) : Result Database := do
  let d ← d.modifyGpo fun g => do
    return { g with totalSCORE := ← safeMul g.totalSCORE magnitude, totalSCOREreward2 := 0 }
  let accounts ← d.accounts.rows.mapM (splitAccount magnitude)
  let comments ← d.comments.rows.mapM (splitComment magnitude)
  let d := { d with
    accounts := { d.accounts with rows := accounts }
    comments := { d.comments with rows := comments } }
  comments.foldlM (fun d c => do
    if 0 < c.netSCOREreward then
      return d.adjustSCOREreward2 0 (← evaluateRewardCurve (u128 c.netSCOREreward))
    else return d) d

/-- `retally_witness_votes` -/
def retallyWitnessVotes (d : Database) : Result Database :=
  let d := { d with witnesses := d.witnesses.map fun w => { w with votes := 0, virtualPosition := 0 } }
  d.accounts.rows.foldlM (fun d a => do
    if a.proxy ≠ proxyToSelfAccount then return d
    (d.votesOf a.id).foldlM (fun d v => do
      let w ← d.getWitnessById v.witness
      d.adjustWitnessVote w.owner (← a.witnessVoteWeight)) d) d

/-- `retally_witness_vote_counts` -/
def retallyWitnessVoteCounts (d : Database) (force : Bool := false) : Database :=
  { d with accounts := d.accounts.map fun a => { a with
    witnessesVotedFor :=
      if force ∨ a.proxy ≠ proxyToSelfAccount then (d.votesOf a.id).length % 65536 else 0 } }

/-- `retally_comment_children` -/
def retallyCommentChildren (d : Database) : Result Database :=
  let d := { d with comments := d.comments.map fun c => { c with children := 0 } }
  d.comments.rows.foldlM (fun d c =>
    if c.parentAuthor ≠ rootPostParent then
      walkParents (fun p => { p with children := (p.children + 1) % two32 })
        (d.comments.rows.length + 1) d c.parentAuthor c.parentPermlink
    else .ok d) d

/-- `retally_liquidity_weight` -/
def retallyLiquidityWeight (d : Database) : Database :=
  { d with liquidityRewards := d.liquidityRewards.map fun r => r.updateWeight true }

/-! ### Hardforks with steps of their own -/

/- The posting authority that is taken from the reserved accounts. -/
def closePosting (d : Database) (name : Name) : Result Database :=
  d.modifyAuthority name fun a => { a with posting := { weightThreshold := 1 } }

/- Root posts without a payout get twelve hours, those with one the second window. -/
def cashoutTimeHF12 (now : Time) (c : Comment) : Comment :=
  if c.parentAuthor = rootPostParent then
    if c.lastPayout = 0 ∧ c.cashoutTime = timeMax then
      { c with cashoutTime := timeAdd now cashoutWindowSecondsPreHF17 }
    else if 0 < c.lastPayout then { c with cashoutTime := timeAdd c.lastPayout secondCashoutWindow }
    else c
  else c

def applyHardfork12 (d : Database) : Result Database := do
  let d := { d with comments := d.comments.map (cashoutTimeHF12 d.headBlockTime) }
  let d ← d.closePosting minerAccount
  let d ← d.closePosting nullAccount
  d.closePosting tempAccount

def applyHardfork16 (d : Database) : Database :=
  let history := d.feed.priceHistory
  { d with feed := { d.feed with
    priceHistory := history.drop (history.length - feedHistoryWindow) } }

/- The content rewards move to a fund of their own. -/
def createPostFund (d : Database) : Result Database := do
  let d := { d with
    schedule := { d.schedule with
      maxVotedWitnesses := maxVotedWitnessesHF17
      maxMinerWitnesses := maxMinerWitnessesHF17
      maxRunnerWitnesses := maxRunnerWitnessesHF17 }
    rewardFunds := d.rewardFunds.create fun id =>
      { id := id
        name := postRewardFundName
        lastUpdate := d.headBlockTime
        contentConstant := contentConstantHF0
        percentCurationRewards := percent1 * 25
        percentContentRewards := percent100
        rewardBalance := d.gpo.totalRewardFundTME
        recentClaims := 0
        authorRewardCurve := .quadratic
        curationRewardCurve := .quadraticCuration } }
  require (d.rewardFunds.nextId = 1) "post_rf.id._id == 0"
  return { d with gpo := { d.gpo with totalRewardFundTME := 0, totalSCOREreward2 := 0 } }

/- Root posts not yet paid out are paid a week after their creation at the earliest, and replies
not before their root. -/
def extendCashout (d : Database) : Result Database := do
  let roots := sortOn (·.cashoutTime) (·.id) (d.comments.rows.filter fun c =>
    decide (c.cashoutTime < timeMax))
  let replies := roots.flatMap fun r => d.comments.rows.filter fun c => c.rootComment == r.id
  let d ← roots.foldlM (fun d r => d.modifyComment r.id fun c =>
    .ok { c with cashoutTime := max (timeAdd c.created cashoutWindowSeconds) c.cashoutTime }) d
  replies.foldlM (fun d r => d.modifyComment r.id fun c => do
    let time ← d.calculateDiscussionPayoutTime c
    return { c with cashoutTime := max time (timeAdd c.created cashoutWindowSeconds) }) d

def applyHardfork17 (d : Database) : Result Database := do
  let d ← d.createPostFund
  d.extendCashout

def applyHardfork19 (d : Database) : Result Database := do
  let d := { d with gpo := { d.gpo with votePowerReserveRate := 10 } }
  let fund ← d.getRewardFund
  let d ← d.modifyRewardFund fund.id fun f => .ok { f with
    recentClaims := 0
    authorRewardCurve := .linear
    curationRewardCurve := .squareRoot }
  return { d with delegations := { d.delegations with
    rows := d.delegations.rows.filter fun v => v.score.amount != 0 } }

/- The step of one hardfork.  The accounts hardfork 9 resets are none. -/
def hardforkStep (d : Database) : Nat → Result Database
  | 1 => d.performSCOREsplit 1000000
  | 2 => d.retallyWitnessVotes
  | 3 => d.retallyWitnessVotes
  | 4 => d.resetVirtualScheduleTime
  | 6 => d.retallyWitnessVoteCounts.retallyCommentChildren
  | 8 => .ok (d.retallyWitnessVoteCounts true)
  | 10 => .ok d.retallyLiquidityWeight
  | 12 => d.applyHardfork12
  | 16 => .ok d.applyHardfork16
  | 17 => d.applyHardfork17
  | 19 => d.applyHardfork19
  | _ => .ok d

/-- `apply_hardfork` -/
def applyHardfork (d : Database) (hardfork : Nat) : Result Database := do
  let d ← d.hardforkStep hardfork
  let h := d.hardforks
  require (hardfork = h.lastHardfork + 1) "Hardfork being applied out of order"
  require (h.processedHardforks.length = hardfork) "Hardfork being applied out of order"
  return { d with hardforks := { h with
    processedHardforks := h.processedHardforks ++ [hardforkTime hardfork]
    lastHardfork := hardfork
    currentHardforkVersion := hardforkVersion hardfork } }

/- Since hardfork 5 the witnesses vote for a hardfork; every round of the loop applies one or
throws, so that their number bounds the loop. -/
def votedHardforks : Nat → Database → Result Database
  | 0, _ => .error .endless
  | fuel + 1, d =>
    if hardforkVersion d.hardforks.lastHardfork < d.hardforks.nextHardfork ∧
        d.hardforks.nextHardforkTime ≤ d.headBlockTime then
      if d.hardforks.lastHardfork < numHardforks then do
        let d ← d.applyHardfork (d.hardforks.lastHardfork + 1)
        votedHardforks fuel d
      else .error .unknownHardfork
    else .ok d

def timedHardforks : Nat → Database → Result Database
  | 0, _ => .error .endless
  | fuel + 1, d =>
    if d.hardforks.lastHardfork < numHardforks ∧
        hardforkTime (d.hardforks.lastHardfork + 1) ≤ d.headBlockTime ∧
        d.hardforks.lastHardfork < 5 then do
      let d ← d.applyHardfork (d.hardforks.lastHardfork + 1)
      timedHardforks fuel d
    else .ok d

/-- `process_hardforks` -/
def processHardforks (d : Database) : Result Database :=
  if d.hasHardfork 5 then votedHardforks (numHardforks + 1) d
  else timedHardforks (numHardforks + 1) d

end Database

end WeNode.Chain
