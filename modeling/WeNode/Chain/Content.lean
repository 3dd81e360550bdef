import WeNode.Chain.Balances

/-!
# Payout of comments

libraries/chain/database.cpp: `adjust_total_payout` to `process_comment_cashout` (1461-1797).
-/

namespace WeNode.Chain

open WeNode.Lib

namespace Database

/-- `to_TSD` -/
def toTSD (d : Database) (tme : Asset) : Result Asset :=
  Chain.toTSD d.feed.currentMedianHistory tme

/-- `calculate_discussion_payout_time` -/
def calculateDiscussionPayoutTime (d : Database) (c : Comment) : Result Time := do
  if d.hasHardfork 17 ∨ c.parentAuthor = rootPostParent then return c.cashoutTime
  return (← d.getCommentById c.rootComment).cashoutTime

/- A change made to a comment and to every comment above it. -/
def walkParents (f : Comment → Comment) : Nat → Database → Name → Bytes → Result Database
  | 0, _, _, _ => .error .endless
  | fuel + 1, d, author, permlink => do
    let parent ← d.getComment author permlink
    let d ← d.modifyComment parent.id fun c => .ok (f c)
    if parent.parentAuthor ≠ rootPostParent then
      walkParents f fuel d parent.parentAuthor parent.parentPermlink
    else return d

/-- `get_curationRewards_percent` -/
def getCurationRewardsPercent (d : Database) : Result Nat := do
  if d.hasHardfork 17 then return (← d.getRewardFund).percentCurationRewards
  if d.hasHardfork 8 then return percent1 * 25
  return percent1 * 50

/-- `adjust_SCOREreward2` -/
def adjustSCOREreward2 (d : Database) (old new : Nat) : Database :=
  { d with gpo := { d.gpo with
    totalSCOREreward2 := u128Add (u128Sub d.gpo.totalSCOREreward2 old) new } }

/-- `adjust_total_payout` -/
def adjustTotalPayout (d : Database) (comment : Nat) (created curatorValue beneficiaryValue : Asset) :
    Result Database :=
  d.modifyComment comment fun c => do
    let total ← if c.totalPayoutValue.symbol = created.symbol
      then c.totalPayoutValue.add created else pure c.totalPayoutValue
    return { c with
      totalPayoutValue := total
      curatorPayoutValue := ← c.curatorPayoutValue.add curatorValue
      beneficiaryPayoutValue := ← c.beneficiaryPayoutValue.add beneficiaryValue }

/- The votes of a comment in the order of `by_comment_weight_voter`: the heaviest first. -/
def votesByWeight (d : Database) (comment : Nat) : List CommentVote :=
  (d.commentVotes.rows.filter fun v => v.comment == comment).insertionSort
    fun a b => b.weight < a.weight ∨ a.weight = b.weight ∧ a.voter ≤ b.voter

/- The payment of one curator, and what is left unclaimed. -/
def payCurator (maxRewards : Int) (totalWeight : Nat) (s : Database × Int) (v : CommentVote) :
    Result (Database × Int) := do
  let (d, unclaimed) := s
  let claim ← toUint64 (← u128Div (u128Mul (u128 maxRewards) v.weight) totalWeight)
  if claim = 0 then return (d, unclaimed)
  let claim := ofUint64 claim
  let unclaimed ← safeSub unclaimed claim
  let voter ← d.getAccountById v.voter
  let (d, _) ← d.createTMEfundForSCORE voter.name (.coin claim) (d.hasHardfork 17)
  let d ← d.modifyAccount voter.name fun a => do
    return { a with curationRewards := ← safeAdd a.curationRewards claim }
  return (d, unclaimed)

/-- `pay_curators`: the rewards left unclaimed, and those paid -/
def payCurators (d : Database) (c : Comment) (maxRewards : Int) :
    Result (Database × Int × Int) := do
  if !c.allowCurationRewards then return (d, 0, 0)
  let (d, unclaimed) ←
    if 0 < c.totalVoteWeight then
      (d.votesByWeight c.id).foldlM (payCurator maxRewards c.totalVoteWeight) (d, maxRewards)
    else pure (d, maxRewards)
  return (d, unclaimed, ← safeSub maxRewards unclaimed)

/- The share of one beneficiary, and the sum of the shares so far. -/
def payBeneficiary (authorTokens : Int) (s : Database × Int) (b : Beneficiary) :
    Result (Database × Int) := do
  let (d, total) := s
  let tokens ← safeDiv (← safeMul authorTokens b.weight) percent100
  let (d, _) ← d.createTMEfundForSCORE b.account (.coin tokens) (d.hasHardfork 17)
  return (d, ← safeAdd total tokens)

/- The payout of a comment with a positive reward: the tokens claimed from the fund. -/
def payComment (d : Database) (c : Comment) (rewardTokens : Nat) : Result (Database × Int) := do
  let percent ← d.getCurationRewardsPercent
  let curation ← toUint64 (u128Mul rewardTokens percent / percent100)
  let curation := ofUint64 curation
  let author ← safeSub (ofUint64 (← toUint64 rewardTokens)) curation
  let (d, unclaimed, curation) ← d.payCurators c curation
  let author ← safeAdd author unclaimed
  let claimed ← safeAdd author curation
  let (d, beneficiaries) ← c.beneficiaries.foldlM (payBeneficiary author) (d, 0)
  let author ← safeSub author beneficiaries
  let tsdValue ← safeDiv (← safeMul author c.percentTSD) (2 * percent100)
  let scoreValue ← safeSub author tsdValue
  let (d, _) ← d.createTMEfundForSCORE c.author (.coin scoreValue) (d.hasHardfork 17)
  let (d, tsd, tme) ← d.createTSD c.author (.coin tsdValue) (d.hasHardfork 17)
  let total ← tsd.add (← d.toTSD (← tme.add (.coin scoreValue)))
  let d ← d.adjustTotalPayout c.id total (← d.toTSD (.coin curation))
    (← d.toTSD (.coin beneficiaries))
  -- the value reported in `comment_reward_operation`
  let _ ← d.toTSD (.coin claimed)
  let d ← d.modifyComment c.id fun c => do
    return { c with authorRewards := ← safeAdd c.authorRewards author }
  let d ← d.modifyAccount c.author fun a => do
    return { a with postingRewards := ← safeAdd a.postingRewards author }
  return (d, claimed)

/- Only a last payout removes the votes of a comment. -/
def votesStay (d : Database) (c : Comment) : Result Bool := do
  if !d.hasHardfork 12 then return true
  return decide ((← d.calculateDiscussionPayoutTime c) ≠ timeMax)

/- The vote of a comment after its payout. -/
def settleVote (comment : Nat) (d : Database) (v : CommentVote) : Result Database := do
  let c ← d.getCommentById comment
  if ← d.votesStay c then d.modifyCommentVote v.id fun v => .ok { v with numChanges := -1 }
  else return { d with commentVotes := d.commentVotes.remove fun w => w.id == v.id }

/- What a comment keeps after its payout. -/
def closeComment (d : Database) (c : Comment) : Comment :=
  { c with
    netSCOREreward := if 0 < c.netSCOREreward then 0 else c.netSCOREreward
    childrenAbsSCOREreward := 0
    absSCOREreward := 0
    voteSCOREreward := 0
    totalVoteWeight := 0
    maxCashoutTime := timeMax
    cashoutTime :=
      if d.hasHardfork 17 then timeMax
      else if c.parentAuthor = rootPostParent then
        if d.hasHardfork 12 ∧ c.lastPayout = 0 then timeAdd d.headBlockTime secondCashoutWindow
        else timeMax
      else c.cashoutTime
    lastPayout := d.headBlockTime }

/- The reward of a comment, paid if there is one. -/
def payReward (d : Database) (ctx : CommentRewardContext) (c : Comment) :
    Result (Database × Int) := do
  if 0 < c.netSCOREreward then do
    let ctx := { ctx with
      scoreReward := c.netSCOREreward
      rewardWeight := c.rewardWeight
      maxTSD := c.maxAcceptedPayout }
    let ctx ← if d.hasHardfork 17 then do
        let rf ← d.getRewardFund
        pure { ctx with rewardCurve := rf.authorRewardCurve, contentConstant := rf.contentConstant }
      else pure ctx
    let reward ← getSCOREreward ctx
    let rewardTokens := u128 (ofUint64 reward)
    let (d, claimed) ← if 0 < rewardTokens then d.payComment c rewardTokens else pure (d, 0)
    if d.hasHardfork 17 then return (d, claimed)
    else do
      let curve ← evaluateRewardCurve (u128 c.netSCOREreward)
      return (d.adjustSCOREreward2 curve 0, claimed)
  else return (d, 0)

/-- `cashout_comment_helper`: the reward claimed -/
def cashoutCommentHelper (d : Database) (ctx : CommentRewardContext) (comment : Nat) :
    Result (Database × Int) := do
  let c ← d.getCommentById comment
  let (d, claimed) ← d.payReward ctx c
  let d ← d.modifyComment comment fun c => .ok (d.closeComment c)
  let votes := sortOn (·.voter) (·.id) (d.commentVotes.rows.filter fun v => v.comment == comment)
  let d ← votes.foldlM (settleVote comment) d
  return (d, claimed)

/-! ### Cashout of a block -/

/-- `reward_fund_context` -/
structure RewardFundContext where
  recentClaims : Nat
  rewardBalance : Int
  tmeAwarded : Int := 0

/- A reward fund with its claims decayed. -/
def decayClaims (d : Database) (f : RewardFund) : Result RewardFund := do
  let rate := if d.hasHardfork 19 then recentRSCOREdecayRateHF19 else recentRSCOREdecayRateHF17
  let decay := u128Mul f.recentClaims (u128 (d.secondsSince f.lastUpdate)) / rate
  return { f with
    recentClaims := u128Sub f.recentClaims decay
    lastUpdate := d.headBlockTime }

/- The comments due in the order of `by_cashout_time`. -/
def dueComments (d : Database) : List Comment :=
  sortOn (·.cashoutTime) (·.id) (d.comments.rows.filter fun c =>
    decide (c.cashoutTime ≤ d.headBlockTime))

/- The claims of the comments about to be paid, added to the funds. -/
def addClaims (d : Database) (funds : List RewardFundContext) (c : Comment) :
    Result (List RewardFundContext) := do
  if 0 < c.netSCOREreward then do
    let rf ← d.getRewardFund
    let claim ← evaluateRewardCurve (u128 c.netSCOREreward) rf.authorRewardCurve rf.contentConstant
    return funds.modify rf.id fun f => { f with recentClaims := u128Add f.recentClaims claim }
  else return funds

/- The payout of one comment of a discussion before hardfork 17, from the global fund. -/
def cashoutReply (price : Price) (d : Database) (comment : Nat) : Result Database := do
  let (d, reward) ← d.cashoutCommentHelper
    { totalSCOREreward2 := d.gpo.totalSCOREreward2
      totalRewardFundTME := d.gpo.totalRewardFundTME
      currentTMEprice := price } comment
  if 0 < reward then
    d.modifyGpo fun g => do
      return { g with totalRewardFundTME := ← safeSub g.totalRewardFundTME reward }
  else return d

/- The payout of the comment that is due first: itself, or before hardfork 17 its discussion. -/
def cashoutFirst (price : Price) (d : Database) (funds : List RewardFundContext) (c : Comment) :
    Result (Database × List RewardFundContext) := do
  if d.hasHardfork 17 then do
    let fundId := (← d.getRewardFund).id
    let fund ← found funds[fundId]?
    let (d, awarded) ← d.cashoutCommentHelper
      { totalSCOREreward2 := fund.recentClaims
        totalRewardFundTME := fund.rewardBalance
        currentTMEprice := price } c.id
    let sum ← safeAdd fund.tmeAwarded awarded
    return (d, funds.set fundId { fund with tmeAwarded := sum })
  else do
    let ids := (sortOn (·.id) (·.id) (d.comments.rows.filter fun r =>
      r.rootComment == c.rootComment)).map (·.id)
    let d ← ids.foldlM (cashoutReply price) d
    return (d, funds)

/- A comment that was paid is due no more, so that the number of comments bounds the loop. -/
def cashoutLoop (price : Price) :
    Nat → Database → List RewardFundContext → Result (Database × List RewardFundContext)
  | 0, _, _ => .error .endless
  | fuel + 1, d, funds =>
    match d.dueComments.head? with
    | none => .ok (d, funds)
    | some c => do
      let (d, funds) ← cashoutFirst price d funds c
      cashoutLoop price fuel d funds

/- The cached state of a fund, written back. -/
def writeFund (d : Database) (i : Nat) (f : RewardFundContext) : Result Database :=
  d.modifyRewardFund i fun r => do
    return { r with
      recentClaims := f.recentClaims
      rewardBalance := ← safeSub r.rewardBalance f.tmeAwarded }

/-- `process_comment_cashout` -/
def processCommentCashout (d : Database) : Result Database := do
  if !d.hasHardfork 7 then return d
  let price := d.feed.currentMedianHistory
  let d ← (d.rewardFunds.rows.map (·.id)).foldlM
    (fun d id => d.modifyRewardFund id d.decayClaims) d
  let funds := d.rewardFunds.rows.map fun f =>
    { recentClaims := f.recentClaims, rewardBalance := f.rewardBalance : RewardFundContext }
  let funds ← if d.hasHardfork 17 then d.dueComments.foldlM d.addClaims funds else pure funds
  let (d, funds) ← cashoutLoop price (d.comments.rows.length + 1) d funds
  funds.zipIdx.foldlM (fun d (f, i) => d.writeFund i f) d

end Database

end WeNode.Chain
