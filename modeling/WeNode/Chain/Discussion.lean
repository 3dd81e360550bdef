import WeNode.Chain.Authorities
import WeNode.Chain.Content

/-!
# Evaluators of comments and votes

libraries/chain/node_evaluator.cpp: deletion and options (358-458), `comment_evaluator`
(460-680) and `vote_evaluator` (1138-1525).
-/

namespace WeNode.Chain

open WeNode.Lib

variable (d : Database)

/- Since hardfork 10 an account that is challenged may not post or vote. -/
def checkUnchallenged (a : Account) : Result Unit :=
  if d.hasHardfork 10 then
    require (!(a.ownerChallenged || a.activeChallenged))
      "Operation cannot be processed because account is currently challenged."
  else .ok ()

/-! ### Comments -/

/-- `validate_permlink_0_1` -/
def validatePermlink01 (permlink : Bytes) : Result Unit := do
  require (minPermlinkLength < permlink.length ∧ permlink.length < maxPermlinkLength)
    "Permlink is not a valid size."
  require (permlink.all fun c => isLetter c.toNat || isDigit c.toNat || c == 45)
    "Invalid permlink character"

def DeleteCommentOperation.apply (o : DeleteCommentOperation) : Result Database := do
  if d.hasHardfork 10 then checkUnchallenged d (← d.getAccount o.author)
  let c ← d.getComment o.author o.permlink
  require (c.children = 0) "Cannot delete a comment with replies."
  if d.hasHardfork 19 then
    require (c.cashoutTime ≠ timeMax) "comment.cashout_time != fc::time_point_sec::maximum()"
    require (c.netSCOREreward ≤ 0) "Cannot delete a comment with net positive votes."
  if 0 < c.netSCOREreward then return d
  let d := { d with commentVotes := { d.commentVotes with
    rows := d.commentVotes.rows.filter fun v => v.comment != c.id } }
  let now := d.headBlockTime
  let d ← if d.hasHardfork 6 ∧ c.parentAuthor ≠ rootPostParent then
      Database.walkParents (fun p =>
        { p with children := decrement 32 p.children, active := now })
        (d.comments.rows.length + 1) d c.parentAuthor c.parentPermlink
    else pure d
  return { d with comments := d.comments.remove fun x => x.id == c.id }

/- The beneficiaries of a comment are named once, before its first vote. -/
def addBeneficiaries (l : List Beneficiary) (c : Comment) : Result Comment := do
  require (c.beneficiaries.length = 0) "Comment already has beneficiaries specified."
  require (c.absSCOREreward = 0)
    "Comment must not have been voted on before specifying beneficiaries."
  require (l.all fun b => (d.findAccount b.account).isSome) "Beneficiary must exist."
  return { c with beneficiaries := c.beneficiaries ++ l }

def CommentOptionsOperation.apply (o : CommentOptionsOperation) : Result Database := do
  if d.hasHardfork 10 then checkUnchallenged d (← d.getAccount o.author)
  let c ← d.getComment o.author o.permlink
  let lower ← o.maxAcceptedPayout.lt c.maxAcceptedPayout
  if !o.allowCurationRewards ∨ !o.allowVotes ∨ lower then
    require (c.absSCOREreward = 0)
      "One of the included comment options requires the comment to have no SCOREreward allocated to it."
  require (c.allowCurationRewards || !o.allowCurationRewards)
    "Curation rewards cannot be re-enabled."
  require (c.allowVotes || !o.allowVotes) "Voting cannot be re-enabled."
  require (← c.maxAcceptedPayout.ge o.maxAcceptedPayout)
    "A comment cannot accept a greater payout."
  require (o.percentTSD ≤ c.percentTSD) "A comment cannot accept a greater percent TSD."
  let d ← d.modifyComment c.id fun c => .ok { c with
    maxAcceptedPayout := o.maxAcceptedPayout
    percentTSD := o.percentTSD
    allowVotes := o.allowVotes
    allowCurationRewards := o.allowCurationRewards }
  match o.beneficiaries with
  | none => return d
  | some l => d.modifyComment c.id (addBeneficiaries d l)

/- How long an author has to wait between two posts. -/
def checkPostInterval (isRoot : Bool) (a : Account) : Result Unit :=
  if d.hasHardfork 12 then
    if isRoot then require (minRootCommentInterval < d.secondsSince a.lastRootPost)
      "You may only post once every 5 minutes."
    else require (minReplyInterval < d.secondsSince a.lastPost)
      "You may only comment once every 20 seconds."
  else if d.hasHardfork 6 then
    if isRoot then require (minRootCommentInterval < d.secondsSince a.lastPost)
      "You may only post once every 5 minutes."
    else require (minReplyInterval < d.secondsSince a.lastPost)
      "You may only comment once every 20 seconds."
  else require (60 < d.secondsSince a.lastPost) "You may only post once per minute."

/- The bandwidth of an author's root posts and the weight of the rewards it leaves. -/
def postWeight (isRoot : Bool) (a : Account) : Nat × Nat :=
  if d.hasHardfork 12 ∧ !d.hasHardfork 17 ∧ isRoot then
    let delta := min ((d.headBlockTime + (two32 - a.lastRootPost)) % two32) postAverageWindow
    let old := a.postBandwidth * (postAverageWindow - delta) / postAverageWindow % two32
    let bandwidth := old + percent100
    (bandwidth, min (postWeightConstant * percent100 / (bandwidth * bandwidth)) percent100)
  else (a.postBandwidth, percent100)

/- A comment as it is created, under its parent if it has one. -/
def CommentOperation.newComment (o : CommentOperation) (parent : Option Comment) (weight id : Nat) :
    Comment :=
  let now := d.headBlockTime
  let c : Comment :=
    { id := id
      author := o.author
      permlink := o.permlink
      lastUpdate := now
      created := now
      active := now
      maxCashoutTime := timeMax
      rewardWeight := weight }
  let c := match parent with
    | none => { c with
      parentAuthor := 0
      parentPermlink := o.parentPermlink
      rootComment := id
      cashoutTime :=
        if d.hasHardfork 12 then timeAdd now cashoutWindowSecondsPreHF17 else timeMax }
    | some p => { c with
      parentAuthor := p.author
      parentPermlink := p.permlink
      depth := (p.depth + 1) % 65536
      rootComment := p.rootComment
      cashoutTime := timeMax }
  if d.hasHardfork 17 then { c with cashoutTime := timeAdd now cashoutWindowSeconds } else c

def CommentOperation.create (o : CommentOperation) (a : Account) (parent : Option Comment) :
    Result Database := do
  match parent with
  | none => pure ()
  | some p =>
    require (← d.getCommentById p.rootComment).allowReplies
      "The parent comment has disabled replies."
    if d.hasHardfork 12 ∧ !d.hasHardfork 17 then
      require ((← d.calculateDiscussionPayoutTime p) ≠ timeMax) "Discussion is frozen."
  let isRoot := parent.isNone
  checkPostInterval d isRoot a
  let now := d.headBlockTime
  let (bandwidth, weight) := postWeight d isRoot a
  let d ← d.modifyAccount o.author fun a => .ok { a with
    lastRootPost := if isRoot then now else a.lastRootPost
    postBandwidth := if isRoot then bandwidth % two32 else a.postBandwidth
    lastPost := now
    postCount := (a.postCount + 1) % two32 }
  if d.hasHardfork 1 then
    validatePermlink01 o.parentPermlink
    validatePermlink01 o.permlink
  let d := { d with comments := d.comments.create (o.newComment d parent weight) }
  match parent with
  | none => return d
  | some p =>
    Database.walkParents (fun c => { c with children := (c.children + 1) % two32, active := now })
      (d.comments.rows.length + 1) d p.author p.permlink

/- `strcmp_equal`: permlinks of one length are taken to be equal. -/
def permlinkEqual (a b : Bytes) : Bool :=
  a.length == b.length || Database.cString a == Database.cString b

def CommentOperation.edit (o : CommentOperation) (c : Comment) : Result Database := do
  if !d.hasHardfork 17 then
    if d.hasHardfork 14 then
      require ((← d.calculateDiscussionPayoutTime c) ≠ timeMax) "The comment is archived."
    else if d.hasHardfork 10 then
      require (c.lastPayout = 0) "Can only edit during the first 24 hours."
  d.modifyComment c.id fun c => do
    require (c.parentAuthor = o.parentAuthor) "The parent of a comment cannot change."
    require (permlinkEqual c.parentPermlink o.parentPermlink)
      "The permlink of a comment cannot change."
    return { c with lastUpdate := d.headBlockTime, active := d.headBlockTime }

/- The parent named in the operation, if it names one. -/
def CommentOperation.findParent (o : CommentOperation) : Result (Option Comment) := do
  if o.parentAuthor = rootPostParent then return none
  let p ← d.getComment o.parentAuthor o.parentPermlink
  require (p.depth < (if d.hasHardfork 17 then maxCommentDepth else maxCommentDepthPreHF17))
    "Comment is nested too deep"
  return some p

def CommentOperation.apply (o : CommentOperation) : Result Database := do
  if d.hasHardfork 5 then
    require (o.title.size + o.body.size + o.json.size ≠ 0)
      "Cannot update comment because nothing appears to be changing."
  let a ← d.getAccount o.author
  checkUnchallenged d a
  let parent ← o.findParent d
  if d.hasHardfork 17 ∧ o.json.size ≠ 0 then require o.json.isUtf8 "JSON Metadata must be UTF-8"
  match d.findComment o.author o.permlink with
  | none => o.create d a parent
  | some c => o.edit d c

/-! ### Votes -/

/- `effective_SCORE` -/
def Account.effectiveSCORE (a : Account) : Result Int := do
  safeAdd (← safeSub a.score a.scoreDelegated) a.scoreReceived

/- The power a vote uses of the power the voter has, and the reward it is worth. -/
structure VotePower where
  current : Int
  used : Int
  reward : Int

def VoteOperation.power (o : VoteOperation) (voter : Account) : Result VotePower := do
  let elapsed := d.secondsSince voter.lastVoteTime
  if d.hasHardfork 11 then
    require (minVoteIntervalSec ≤ elapsed) "Can only vote once every ${s} seconds."
  let regenerated := (percent100 * elapsed).tdiv voteRegenerationSeconds
  let current := min (voter.votingPower + regenerated) percent100
  require (0 < current) "Account currently does not have voting power."
  let used := (current * o.weight.natAbs).tdiv percent100
  let denom : Int := (d.gpo.votePowerReserveRate * voteRegenerationSeconds / 86400 : Nat)
  require (0 < denom) "max_vote_denom > 0"
  if !d.hasHardfork 14 then require (denom = 200) "max_vote_denom == 200"
  let used := if d.hasHardfork 14 then (used + denom - 1).tdiv denom else used.tdiv denom + 1
  require (used ≤ current) "Account does not have enough power to vote."
  let effective ← voter.effectiveSCORE
  let reward := ofUint64 (← toUint64 (u128Mul (u128 effective) (u128 used) / percent100))
  let reward := if !d.hasHardfork 14 ∧ reward = 0 then 1 else reward
  if d.hasHardfork 14 then
    require (voteDustThreshold < reward ∨ o.weight = 0)
      "Voting weight is too small, please accumulate more voting power or SCORE."
  else if d.hasHardfork 13 then
    require (voteDustThreshold < reward ∨ reward = 1)
      "Voting weight is too small, please accumulate more voting power or SCORE."
  return ⟨current, used, reward⟩

/- Shortly before the payout a vote may not increase it. -/
def checkLockout (c : Comment) : Result Unit := do
  if d.hasHardfork 17 then
    require ((d.headBlockTime : Int) < c.cashoutTime - upvoteLockoutHF17)
      "Cannot increase payout within last twelve hours before payout."
  else if d.hasHardfork 7 then
    require ((d.headBlockTime : Int) < (← d.calculateDiscussionPayoutTime c) - upvoteLockoutHF7)
      "Cannot increase payout within last minute before payout."

/- Before hardfork 17 the cashout of a discussion is the average of the times of its votes. -/
def averageCashout (c root : Comment) (reward : Int) : Result Nat := do
  if d.hasHardfork 17 then return 0
  let current ← d.calculateDiscussionPayoutTime c
  let window := if d.hasHardfork 12 ∧ !d.hasHardfork 13
    then cashoutWindowSecondsPreHF17 else cashoutWindowSecondsPreHF12
  let new := (d.headBlockTime + window) % two32
  let sum := u128Add (u128Mul current (u128 root.childrenAbsSCOREreward))
    (u128Mul new (u128 reward))
  u128Div sum (u128 (wrap64 (root.childrenAbsSCOREreward + reward)))

/- The root of the discussion after a vote. -/
def voteRoot (reward : Int) (average : Nat) (c : Comment) : Result Comment := do
  let c := { c with childrenAbsSCOREreward := ← safeAdd c.childrenAbsSCOREreward reward }
  if d.hasHardfork 17 then return c
  let cashout ← if d.hasHardfork 12 ∧ 0 < c.lastPayout
    then pure (timeAdd c.lastPayout secondCashoutWindow)
    else do pure (min ((← toUint64 average) % two32) c.maxCashoutTime)
  let latest := if c.maxCashoutTime = timeMax
    then timeAdd d.headBlockTime maxCashoutWindowSeconds else c.maxCashoutTime
  return { c with cashoutTime := cashout, maxCashoutTime := latest }

def spendPower (voter : Name) (p : VotePower) : Result Database :=
  d.modifyAccount voter fun a => .ok { a with
    votingPower := (p.current - p.used).toNat % 65536
    lastVoteTime := d.headBlockTime }

/- The weight of a vote for curation before hardfork 17: the share of the sum of the votes. -/
def weightOf (reward : Int) : Result Nat := do
  let r := u128 reward
  toUint64 (← u128Div (u128Mul (two64 - 1) r) (u128Add (2 * contentConstantHF0) r))

/- The weight of a new vote that brings the votes of a comment from `old` to its present ones. -/
def curationWeight (c : Comment) (old reward : Int) : Result Nat := do
  if c.created < hardfork06ReverseAuctionTime then
    let unit := if d.hasHardfork 1 then 1 else 1000000
    let cube := (u128 reward * unit) ^ 3 % (two256 * two256)
    let square := (u128 c.absSCOREreward * unit) ^ 2 % two256
    return (← u128Div cube square) % two64
  if d.hasHardfork 17 then
    let fund ← d.getRewardFund
    let curve := if !d.hasHardfork 19 ∧ hf19SqrtPreCalc < c.created
      then .squareRoot else fund.curationRewardCurve
    let before ← toUint64 (← evaluateRewardCurve (u128 old) curve fund.contentConstant)
    let after ← toUint64 (← evaluateRewardCurve (u128 c.voteSCOREreward) curve fund.contentConstant)
    return (after + (two64 - before)) % two64
  let unit := if d.hasHardfork 1 then 1 else 1000000
  let before ← weightOf (wrap64 (unit * old))
  let after ← weightOf (wrap64 (unit * c.voteSCOREreward))
  return (after + (two64 - before)) % two64

/- The weight a vote adds to its comment, and its own: less for an early vote. -/
def voteWeights (c : Comment) (old reward : Int) : Result (Nat × Nat) := do
  let eligible := decide (0 < reward) && c.lastPayout == 0 && c.allowCurationRewards
  let eligible ← if eligible && d.hasHardfork 17
    then do pure (decide (0 < (← d.getCurationRewardsPercent))) else pure eligible
  if !eligible then return (0, 0)
  let most ← curationWeight d c old reward
  if hardfork06ReverseAuctionTime < d.headBlockTime then
    let delta := min (asUint64 (d.secondsSince c.created)) reverseAuctionWindowSeconds
    return (most, ← toUint64 (u128Mul most delta / reverseAuctionWindowSeconds))
  return (most, most)

/- The claims of a comment on the global fund follow its votes until hardfork 17. -/
def claimVotes (old new : Int) : Result Database := do
  let newCurve ← evaluateRewardCurve (u128 (max new 0))
  let oldCurve ← evaluateRewardCurve (u128 (max old 0))
  if d.hasHardfork 17 then return d
  return d.adjustSCOREreward2 oldCurve newCurve

/- A comment after a first vote. -/
def countVote (reward signed : Int) (c : Comment) : Result Comment := do
  let c := { c with
    netSCOREreward := ← safeAdd c.netSCOREreward signed
    absSCOREreward := ← safeAdd c.absSCOREreward reward
    voteSCOREreward := ← if 0 < signed then safeAdd c.voteSCOREreward signed
      else pure c.voteSCOREreward
    netVotes := if 0 < signed then c.netVotes + 1 else c.netVotes - 1 }
  if !d.hasHardfork 6 ∧ c.netSCOREreward = -c.absSCOREreward then
    require (c.netVotes < 0) "Comment has negative net votes?"
  return c

def VoteOperation.newVote (o : VoteOperation) (c : Comment) (voter : Account) (p : VotePower) :
    Result Database := do
  require (o.weight ≠ 0) "Vote weight cannot be 0."
  let signed := if o.weight < 0 then -p.reward else p.reward
  if 0 < signed then checkLockout d c
  let d ← spendPower d o.voter p
  let root ← d.getCommentById c.rootComment
  let average ← averageCashout d c root p.reward
  require (0 < p.reward) "Cannot vote with 0 SCOREreward."
  let d ← d.modifyComment c.id (countVote d p.reward signed)
  let d ← d.modifyComment root.id (voteRoot d p.reward average)
  let voted ← d.getCommentById c.id
  let (most, weight) ← voteWeights d voted c.voteSCOREreward signed
  let d := { d with commentVotes := d.commentVotes.create fun id =>
    { id := id
      voter := voter.id
      comment := c.id
      weight := weight
      scoreReward := signed
      votePercent := o.weight
      lastUpdate := d.headBlockTime } }
  let d ← if most ≠ 0 then
      d.modifyComment c.id fun c =>
        .ok { c with totalVoteWeight := (c.totalVoteWeight + most) % two64 }
    else pure d
  claimVotes d c.netSCOREreward voted.netSCOREreward

/- How the count of the votes of a comment follows a change of one of them. -/
def voteChange (old new : Int) : Int :=
  if 0 < new ∧ old < 0 then 2
  else if 0 < new ∧ old = 0 then 1
  else if new = 0 ∧ old < 0 then 1
  else if new = 0 ∧ 0 < old then -1
  else if new < 0 ∧ old = 0 then -1
  else if new < 0 ∧ 0 < old then -2
  else 0

def VoteOperation.changeVote (o : VoteOperation) (c : Comment) (v : CommentVote) (p : VotePower) :
    Result Database := do
  require (v.numChanges < maxVoteChanges)
    "Voter has used the maximum number of vote changes on this comment."
  if d.hasHardfork 6 then
    require (v.votePercent ≠ o.weight) "You have already voted in a similar way."
  let signed := if o.weight < 0 then -p.reward else p.reward
  if v.scoreReward < signed then checkLockout d c
  let d ← spendPower d o.voter p
  let root ← d.getCommentById c.rootComment
  let average ← if d.hasHardfork 14 ∧ p.reward = 0 ∧ !d.hasHardfork 17
    then d.calculateDiscussionPayoutTime c else averageCashout d c root p.reward
  let d ← d.modifyComment c.id fun c => do
    return { c with
      netSCOREreward := ← safeAdd (← safeSub c.netSCOREreward v.scoreReward) signed
      absSCOREreward := ← safeAdd c.absSCOREreward p.reward
      netVotes := c.netVotes + voteChange v.scoreReward signed }
  let d ← d.modifyComment root.id (voteRoot d p.reward average)
  let voted ← d.getCommentById c.id
  let d ← d.modifyComment c.id fun c =>
    .ok { c with totalVoteWeight := (c.totalVoteWeight + (two64 - v.weight)) % two64 }
  let d ← d.modifyCommentVote v.id fun v => .ok { v with
    scoreReward := signed
    votePercent := o.weight
    lastUpdate := d.headBlockTime
    weight := 0
    numChanges := v.numChanges + 1 }
  claimVotes d c.netSCOREreward voted.netSCOREreward

/- Since hardfork 12 a vote on a discussion that was paid out has no effect. -/
def isArchived (c : Comment) : Result Bool := do
  if d.hasHardfork 12 then return decide ((← d.calculateDiscussionPayoutTime c) = timeMax)
  return false

def VoteOperation.apply (o : VoteOperation) : Result Database := do
  let c ← d.getComment o.author o.permlink
  let voter ← d.getAccount o.voter
  checkUnchallenged d voter
  require voter.canVote "Voter has declined their voting rights."
  if 0 < o.weight then require c.allowVotes "Votes are not allowed on the comment."
  if ← isArchived d c then return d
  let p ← o.power d voter
  match d.commentVotes.find fun v => v.comment == c.id && v.voter == voter.id with
  | none => o.newVote d c voter p
  | some v =>
    -- a vote that was paid is deleted when the voter votes again
    if v.numChanges = -1 then
      require (!d.hasHardfork 12) "Cannot vote again on a comment after payout."
      let d := { d with commentVotes := d.commentVotes.remove fun x => x.id == v.id }
      o.newVote d c voter p
    else o.changeVote d c v p

end WeNode.Chain
