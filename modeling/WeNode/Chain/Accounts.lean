import WeNode.Chain.Authorities
import WeNode.Chain.Funds
import WeNode.Chain.Hardforks

/-!
# Evaluators of accounts and witnesses

libraries/chain/node_evaluator.cpp: witnesses and accounts (64-354), proxies and votes
(1024-1136), proofs of work and feeds (1587-1760), challenges and recovery (1842-2041) and
voting rights (2099-2125).
-/

namespace WeNode.Chain

open WeNode.Lib

variable (d : Database)

/-! ### Accounts -/

/- Since hardfork 15 the accounts of an authority have to exist. -/
def checkAuthorityAccounts (a : Authority) : Result Unit :=
  a.accountAuths.forM fun item => do
    let _ ← d.getAccount item.1

def createAuthority (name : Name) (owner active posting : Authority) : Database :=
  { d with authorities := d.authorities.create fun id =>
    { id := id, account := name, owner := owner, active := active, posting := posting } }

def AccountCreateOperation.checkFee (o : AccountCreateOperation) : Result Unit := do
  let fee := d.schedule.medianProps.accountCreationFee
  if d.hasHardfork 19 then
    require (← o.fee.ge (.coin fee.amount)) "Insufficient Fee"
  else if d.hasHardfork 1 then
    require (← o.fee.ge fee) "Insufficient Fee"

def AccountCreateOperation.apply (o : AccountCreateOperation) : Result Database := do
  let creator ← d.getAccount o.creator
  require (← Asset.ge (.coin creator.balance) o.fee) "Insufficient balance to create account."
  o.checkFee d
  if d.hasHardfork 15 then
    checkAuthorityAccounts d o.owner
    checkAuthorityAccounts d o.active
    checkAuthorityAccounts d o.posting
  let d ← d.modifyAccount o.creator fun c => do
    let balance ← Asset.sub (.coin c.balance) o.fee
    return { c with balance := balance.amount }
  let d ← d.createAccount o.newAccountName fun a => { a with
    created := d.headBlockTime
    lastVoteTime := d.headBlockTime
    mined := false
    recoveryAccount := if d.hasHardfork 11 then o.creator else weYouMe }
  let d := createAuthority d o.newAccountName o.owner o.active o.posting
  if 0 < o.fee.amount then do
    let (d, _) ← d.createTMEfundForSCORE o.newAccountName o.fee
    return d
  else return d

/- The fee and the delegation have to be worth the creation fee. -/
def AccountCreateWithDelegationOperation.check (o : AccountCreateWithDelegationOperation)
    (creator : Account) : Result Unit := do
  require (← Asset.ge (.coin creator.balance) o.fee) "Insufficient balance to create account."
  let available ← safeSub (← safeSub creator.score creator.scoreDelegated)
    (← safeSub creator.toWithdraw creator.withdrawn)
  require (← Asset.ge (.score available) o.delegation)
    "Insufficient SCORE to delegate to new account."
  let fee := d.schedule.medianProps.accountCreationFee
  let target ← Asset.mul (.coin (← safeMul fee.amount createAccountDelegationRatio))
    d.gpo.scorePrice
  let current ← Asset.mul (.coin (← safeMul o.fee.amount createAccountDelegationRatio))
    d.gpo.scorePrice
  let current ← current.add o.delegation
  require (← current.ge target) "Inssufficient Delegation"
  require (← o.fee.ge fee) "Insufficient Fee"
  checkAuthorityAccounts d o.owner
  checkAuthorityAccounts d o.active
  checkAuthorityAccounts d o.posting

def AccountCreateWithDelegationOperation.apply (o : AccountCreateWithDelegationOperation) :
    Result Database := do
  require (d.hasHardfork 17) "Account creation with delegation is not enabled until hardfork 17"
  let creator ← d.getAccount o.creator
  o.check d creator
  let d ← d.modifyAccount o.creator fun c => do
    let balance ← Asset.sub (.coin c.balance) o.fee
    let delegated ← Asset.add (.score c.scoreDelegated) o.delegation
    return { c with balance := balance.amount, scoreDelegated := delegated.amount }
  let d ← d.createAccount o.newAccountName fun a => { a with
    created := d.headBlockTime
    lastVoteTime := d.headBlockTime
    mined := false
    recoveryAccount := o.creator
    scoreReceived := o.delegation.amount }
  let d := createAuthority d o.newAccountName o.owner o.active o.posting
  let d := if 0 < o.delegation.amount ∨ !d.hasHardfork 19 then
      { d with delegations := d.delegations.create fun id =>
        ⟨id, o.creator, o.newAccountName, o.delegation,
          timeAdd d.headBlockTime createAccountDelegationTime⟩ }
    else d
  if 0 < o.fee.amount then do
    let (d, _) ← d.createTMEfundForSCORE o.newAccountName o.fee
    return d
  else return d

/- The owner authority can be updated once an hour. -/
def AccountUpdateOperation.updateOwner (o : AccountUpdateOperation) : Result Database :=
  match o.owner with
  | none => .ok d
  | some owner => do
    let auth ← d.getAuthority o.account
    if d.hasHardfork 11 then
      require (ownerUpdateLimit < d.secondsSince auth.lastOwnerUpdate)
        "Owner authority can only be updated once an hour."
    if d.hasHardfork 15 then checkAuthorityAccounts d owner
    d.updateOwnerAuthority o.account owner

def AccountUpdateOperation.apply (o : AccountUpdateOperation) : Result Database := do
  if d.hasHardfork 1 then require (o.account ≠ tempAccount) "Cannot update temp account."
  if d.hasHardfork 15 then o.posting.forM Authority.validate
  let _ ← d.getAccount o.account
  let _ ← d.getAuthority o.account
  let d ← o.updateOwner d
  if d.hasHardfork 15 then
    o.active.forM (checkAuthorityAccounts d)
    o.posting.forM (checkAuthorityAccounts d)
  let now := d.headBlockTime
  let d ← d.modifyAccount o.account fun a =>
    let proved := (o.active.isSome || o.owner.isSome) && a.activeChallenged
    .ok { a with
      activeChallenged := a.activeChallenged && !proved
      lastActiveProved := if proved then now else a.lastActiveProved
      lastAccountUpdate := now }
  if o.active.isSome ∨ o.posting.isSome then
    d.modifyAuthority o.account fun a => { a with
      active := o.active.getD a.active
      posting := o.posting.getD a.posting }
  else return d

/-! ### Witnesses -/

def WitnessUpdateOperation.apply (o : WitnessUpdateOperation) : Result Database := do
  let _ ← d.getAccount o.owner
  if d.hasHardfork 1 then require (o.url.size ≤ maxWitnessUrlLength) "URL is too long"
  if d.hasHardfork 14 then
    require (o.props.accountCreationFee.symbol = symbolCoin)
      "o.props.account_creation_fee.symbol == SYMBOL_COIN"
  match d.findWitness o.owner with
  | some _ =>
    d.modifyWitness o.owner fun w =>
      .ok { w with signingKey := o.blockSigningKey, props := o.props }
  | none =>
    d.createWitness o.owner fun w =>
      { w with signingKey := o.blockSigningKey, created := d.headBlockTime, props := o.props }

def FeedPublishOperation.apply (o : FeedPublishOperation) : Result Database :=
  d.modifyWitness o.publisher fun w =>
    .ok { w with tsdExchangeRate := o.exchangeRate, lastTSDexchangeUpdate := d.headBlockTime }

/- The accounts met on the way from a new proxy; none may be met twice, and there may not be too
many. -/
def checkProxyChain : Nat → List Nat → Name → Result Unit
  | 0, _, _ => .error (.assertion "Proxy chain is too long.")
  | left + 1, chain, name => do
    let cprox ← d.getAccount name
    if cprox.proxy = 0 then return
    let next ← d.getAccount cprox.proxy
    require (next.id ∉ chain) "This proxy would create a proxy loop."
    require (chain.length + 1 ≤ maxProxyRecursionDepth) "Proxy chain is too long."
    checkProxyChain left (next.id :: chain) cprox.proxy

def AccountWitnessProxyOperation.apply (o : AccountWitnessProxyOperation) : Result Database := do
  let account ← d.getAccount o.account
  require (account.proxy ≠ o.proxy) "Proxy must change."
  require account.canVote "Account has declined the ability to vote and cannot proxy votes."
  let delta ← Database.leavingDelta account
  let d ← d.adjustProxiedWitnessVotesArray o.account delta
  if o.proxy ≠ 0 then do
    let newProxy ← d.getAccount o.proxy
    checkProxyChain d (maxProxyRecursionDepth + 1) [account.id, newProxy.id] o.proxy
    let d ← d.clearWitnessVotes o.account
    let d ← d.modifyAccount o.account fun a => .ok { a with proxy := o.proxy }
    let added ← (List.finRange (maxProxyRecursionDepth + 1)).mapM fun i => safeNeg (delta i)
    d.adjustProxiedWitnessVotesArray o.account fun i => added.getD i 0
  else
    d.modifyAccount o.account fun a => .ok { a with proxy := o.proxy }

/- The weight of a vote reaches the witness as the hardforks say. -/
def addWitnessVote (d : Database) (voter witness : Name) (weight : Int) : Result Database :=
  if d.hasHardfork 2 then
    if d.hasHardfork 3 then d.adjustWitnessVote witness weight
    else d.adjustProxiedWitnessVotes voter weight
  else d.modifyWitness witness fun w => do
    return { w with votes := ← safeAdd w.votes weight }

def AccountWitnessVoteOperation.apply (o : AccountWitnessVoteOperation) : Result Database := do
  let voter ← d.getAccount o.account
  require (voter.proxy = 0)
    "A proxy is currently set, please clear the proxy before voting for a witness."
  if o.approve then require voter.canVote "Account has declined its voting rights."
  let witness ← d.getWitness o.witness
  let key (v : WitnessVote) : Bool := v.account == voter.id && v.witness == witness.id
  match d.witnessVotes.find key with
  | none =>
    require o.approve "Vote doesn't exist, user must indicate a desire to approve witness."
    if d.hasHardfork 2 then
      require (voter.witnessesVotedFor < maxAccountWitnessVotes)
        "Account has voted for too many witnesses."
    let d := { d with witnessVotes := d.witnessVotes.create fun id => ⟨id, witness.id, voter.id⟩ }
    let d ← addWitnessVote d o.account o.witness (← voter.witnessVoteWeight)
    d.modifyAccount o.account fun a =>
      .ok { a with witnessesVotedFor := (a.witnessesVotedFor + 1) % 65536 }
  | some _ =>
    require (!o.approve) "Vote currently exists, user must indicate a desire to reject witness."
    let d ← addWitnessVote d o.account o.witness (← safeNeg (← voter.witnessVoteWeight))
    let d ← d.modifyAccount o.account fun a =>
      .ok { a with witnessesVotedFor := decrement 16 a.witnessesVotedFor }
    return { d with witnessVotes := d.witnessVotes.remove key }

def DeclineVotingRightsOperation.apply (o : DeclineVotingRightsOperation) : Result Database := do
  require (d.hasHardfork 14) "_db.has_hardfork( HARDFORK_0_14__324 )"
  let account ← d.getAccount o.account
  let request := d.declineRequests.find fun r => r.account == account.id
  if o.decline then
    require request.isNone "Cannot create new request because one already exists."
    return { d with declineRequests := d.declineRequests.create fun id =>
      ⟨id, account.id, timeAdd d.headBlockTime ownerAuthRecoveryPeriod⟩ }
  else
    require request.isSome "Cannot cancel the request because it does not exist."
    return { d with declineRequests := d.declineRequests.remove fun r => r.account == account.id }

/-! ### Proofs of work -/

/- `get_pow_target` and `get_pow_summary_target` -/
def powTarget : Nat := (two256 - 1) / 2 ^ (d.gpo.numPowWitnesses / 4 + 4)

def powSummaryTarget : Nat :=
  if 1004 ≤ d.gpo.numPowWitnesses then 0
  else if d.hasHardfork 16 then (0xFE00 - 0x40 * d.gpo.numPowWitnesses) * 65536
  else (0xFC00 - 0x40 * d.gpo.numPowWitnesses) * 65536

/- A worker without an account gets one with the key it works with. -/
def createWorker (name : Name) (key : PublicKey) (recovery : Name) : Result Database := do
  let d ← d.createAccount name fun a => { a with
    created := d.headBlockTime
    lastVoteTime := d.headBlockTime
    recoveryAccount := recovery }
  let auth : Authority := { weightThreshold := 1, keyAuths := [(key, 1)] }
  return createAuthority d name auth auth auth

def countPow : Database :=
  { d with gpo := { d.gpo with
    totalPow := (d.gpo.totalPow + 1) % two64
    numPowWitnesses := (d.gpo.numPowWitnesses + 1) % two32 } }

/- The worker joins the queue of the miners. -/
def enqueueWorker (name : Name) (key : PublicKey) (props : ChainProperties) (work : Hash) :
    Result Database :=
  match d.findWitness name with
  | some w => do
    require (w.powWorker = 0) "This account is already scheduled for pow block production."
    d.modifyWitness name fun w =>
      .ok { w with props := props, powWorker := d.gpo.totalPow, lastWork := work }
  | none => d.createWitness name fun w =>
    { w with props := props, signingKey := key, powWorker := d.gpo.totalPow, lastWork := work }

/- The witness that includes the work is paid. -/
def payPow (currentWitness : Name) : Result Database := do
  let reward ← d.getPowReward
  let early := decide (d.headBlockNum < startMinerVotingBlock)
  let reward ← if early then safeMul reward maxWitnesses else pure reward
  let d ← d.adjustSupply (.coin reward) true
  if early then d.adjustBalance currentWitness (.coin reward)
  else do
    let (d, _) ← d.createTMEfundForSCORE currentWitness (.coin reward)
    return d

/-- `pow_evaluator` and `pow_apply` -/
def PowOperation.apply (currentWitness : Name) (o : PowOperation) : Result Database := do
  require (!d.hasHardfork 13) "pow is deprecated. Use pow2 instead"
  if d.hasHardfork 5 then
    require (d.witnesses.rows.all fun w => w.lastWork != o.work) "!\"DUPLICATE WORK DISCOVERED\""
  let d ← if (d.findAccount o.workerAccount).isNone
    then createWorker d o.workerAccount o.worker (if d.hasHardfork 11 then 0 else weYouMe)
    else pure d
  let worker ← d.getAccount o.workerAccount
  let auth ← d.getAuthority o.workerAccount
  require (auth.active.accountAuths.length + auth.active.keyAuths.length = 1)
    "Miners can only have one key authority."
  require (auth.active.keyAuths.length = 1) "Miners may only have one key authority."
  require ((auth.active.keyAuths.map (·.1)).head? = some o.worker)
    "Work must be performed by key that signed the work."
  require (o.blockId = d.gpo.headBlockId) "pow not for last block"
  if d.hasHardfork 13 then
    require (worker.lastAccountUpdate < d.headBlockTime)
      "Worker account must not have updated their account this block."
  require (o.work < powTarget d) "Work lacks sufficient difficulty."
  let d := countPow d
  let d ← enqueueWorker d o.workerAccount o.worker o.props o.work
  payPow d currentWitness

/-- `num_from_id`: the number of a block is the first of the words of its id. -/
def numFromId (id : Hash) : Nat := id / two128 % two32

/- The work is for the last block and hard enough. -/
def Pow2Operation.checkWork (o : Pow2Operation) : Result Unit := do
  if d.hasHardfork 16 then
    require o.work.equihash "get< equihash_pow >"
    require (o.work.recentBlock = d.gpo.headBlockId) "Equihash pow op not for last block"
    require (d.gpo.lastIrreversibleBlockNum < numFromId o.work.prevBlock)
      "Equihash pow done for block older than last irreversible block num"
  else
    require (!o.work.equihash) "get< pow2 >"
    require (o.work.prevBlock = d.gpo.headBlockId) "Work not for last block"
  require (o.work.powSummary < powSummaryTarget d) "Insufficient work difficulty."

/- A new worker brings its key, an existing one has a witness that does not mine. -/
def Pow2Operation.enqueue (o : Pow2Operation) : Result Database := do
  let name := o.work.workerAccount
  if (d.findAccount name).isNone then
    match o.newOwnerKey with
    | none => .error (.assertion "New owner key is not valid.")
    | some key => do
      let d ← createWorker d name key 0
      d.createWitness name fun w =>
        { w with props := o.props, signingKey := key, powWorker := d.gpo.totalPow }
  else
    require o.newOwnerKey.isNone "Cannot specify an owner key unless creating account."
    match d.findWitness name with
    | none => .error (.assertion "Witness must be created for existing account before mining.")
    | some w => do
      require (w.powWorker = 0) "This account is already scheduled for pow block production."
      d.modifyWitness name fun w => .ok { w with props := o.props, powWorker := d.gpo.totalPow }

def Pow2Operation.apply (currentWitness : Name) (o : Pow2Operation) : Result Database := do
  require (!d.hasHardfork 17) "mining is now disabled"
  o.checkWork d
  require (minBlockSizeLimit * 2 ≤ o.props.maximumBlockSize)
    "Voted maximum block size is too small."
  let d := countPow d
  let d ← o.enqueue d
  if d.hasHardfork 16 then return d
  let reward ← d.getPowReward
  let d ← d.adjustSupply (.coin reward) true
  let (d, _) ← d.createTMEfundForSCORE currentWitness (.coin reward)
  return d

/-! ### Challenges and recovery -/

/- The fee of a challenge goes to the account challenged. -/
def payChallenge (o : ChallengeAuthorityOperation) (fee : Int) : Result Database := do
  let d ← d.adjustBalance o.challenger (.coin (-fee))
  let (d, _) ← d.createTMEfundForSCORE o.challenged (.coin fee)
  return d

def ChallengeAuthorityOperation.apply (o : ChallengeAuthorityOperation) : Result Database := do
  require (!d.hasHardfork 14) "Challenge authority operation is currently disabled."
  let challenged ← d.getAccount o.challenged
  let challenger ← d.getAccount o.challenger
  if o.requireOwner then
    require (challenged.resetAccount = o.challenger)
      "Owner authority can only be challenged by its reset account."
    require (ownerChallengeFee ≤ challenger.balance) "challenger.balance >= OWNER_CHALLENGE_FEE"
    require (!challenged.ownerChallenged) "!challenged.owner_challenged"
    require (ownerChallengeCooldown < d.secondsSince challenged.lastOwnerProved)
      "_db.head_block_time() - challenged.last_owner_proved > OWNER_CHALLENGE_COOLDOWN"
    let d ← payChallenge d o ownerChallengeFee
    d.modifyAccount o.challenged fun a => .ok { a with ownerChallenged := true }
  else
    require (activeChallengeFee ≤ challenger.balance)
      "Account does not have sufficient funds to pay challenge fee."
    require (!(challenged.ownerChallenged || challenged.activeChallenged))
      "Account is already challenged."
    require (activeChallengeCooldown < d.secondsSince challenged.lastActiveProved)
      "Account cannot be challenged because it was recently challenged."
    let d ← payChallenge d o activeChallengeFee
    d.modifyAccount o.challenged fun a => .ok { a with activeChallenged := true }

def ProveAuthorityOperation.apply (o : ProveAuthorityOperation) : Result Database := do
  let challenged ← d.getAccount o.challenged
  require (challenged.ownerChallenged || challenged.activeChallenged)
    "Account is not challeneged. No need to prove authority."
  let now := d.headBlockTime
  d.modifyAccount o.challenged fun a => .ok { a with
    activeChallenged := false
    lastActiveProved := now
    ownerChallenged := a.ownerChallenged && !o.requireOwner
    lastOwnerProved := if o.requireOwner then now else a.lastOwnerProved }

/- An account without a recovery account is recovered by the top witness. -/
def RequestAccountRecoveryOperation.checkPartner (o : RequestAccountRecoveryOperation) :
    Result Unit := do
  let a ← d.getAccount o.accountToRecover
  if a.recoveryAccount ≠ 0 then
    require (a.recoveryAccount = o.recoveryAccount)
      "Cannot recover an account that does not have you as there recovery partner."
  else
    require ((d.byVoteName.map (·.owner)).head? = some o.recoveryAccount)
      "Top witness must recover an account with no recovery partner."

def RequestAccountRecoveryOperation.apply (o : RequestAccountRecoveryOperation) :
    Result Database := do
  o.checkPartner d
  let key (r : AccountRecoveryRequest) : Bool := r.accountToRecover == o.accountToRecover
  let expires := timeAdd d.headBlockTime accountRecoveryRequestExpirationPeriod
  match d.recoveryRequests.find key with
  | none =>
    require (!o.newOwnerAuthority.isImpossible) "Cannot recover using an impossible authority."
    require (o.newOwnerAuthority.weightThreshold ≠ 0) "Cannot recover using an open authority."
    if d.hasHardfork 15 then checkAuthorityAccounts d o.newOwnerAuthority
    return { d with recoveryRequests := d.recoveryRequests.create fun id =>
      ⟨id, o.accountToRecover, o.newOwnerAuthority, expires⟩ }
  | some _ =>
    if o.newOwnerAuthority.weightThreshold = 0 then
      return { d with recoveryRequests := d.recoveryRequests.remove key }
    else
      require (!o.newOwnerAuthority.isImpossible) "Cannot recover using an impossible authority."
      if d.hasHardfork 15 then checkAuthorityAccounts d o.newOwnerAuthority
      let requests ← d.recoveryRequests.modify .notFound key fun r =>
        .ok { r with newOwnerAuthority := o.newOwnerAuthority, expires := expires }
      return { d with recoveryRequests := requests }

def RecoverAccountOperation.apply (o : RecoverAccountOperation) : Result Database := do
  let a ← d.getAccount o.accountToRecover
  if d.hasHardfork 12 then
    require (ownerUpdateLimit < d.secondsSince a.lastAccountRecovery)
      "Owner authority can only be updated once an hour."
  let key (r : AccountRecoveryRequest) : Bool := r.accountToRecover == o.accountToRecover
  match d.recoveryRequests.find key with
  | none => .error (.assertion "There are no active recovery requests for this account.")
  | some r => do
    require (r.newOwnerAuthority = o.newOwnerAuthority)
      "New owner authority does not match recovery request."
    require (d.ownerHistory.rows.any fun h => h.account == o.accountToRecover &&
      decide (h.previousOwnerAuthority = o.recentOwnerAuthority))
      "Recent authority not found in authority history."
    let d := { d with recoveryRequests := d.recoveryRequests.remove key }
    let d ← d.updateOwnerAuthority o.accountToRecover o.newOwnerAuthority
    d.modifyAccount o.accountToRecover fun a =>
      .ok { a with lastAccountRecovery := d.headBlockTime }

def ChangeRecoveryAccountOperation.apply (o : ChangeRecoveryAccountOperation) :
    Result Database := do
  let _ ← d.getAccount o.newRecoveryAccount
  let a ← d.getAccount o.accountToRecover
  let key (r : ChangeRecoveryAccountRequest) : Bool := r.accountToRecover == o.accountToRecover
  let effectiveOn := timeAdd d.headBlockTime ownerAuthRecoveryPeriod
  match d.changeRecoveryRequests.find key with
  | none =>
    return { d with changeRecoveryRequests := d.changeRecoveryRequests.create fun id =>
      ⟨id, o.accountToRecover, o.newRecoveryAccount, effectiveOn⟩ }
  | some _ =>
    if a.recoveryAccount ≠ o.newRecoveryAccount then
      let requests ← d.changeRecoveryRequests.modify .notFound key fun r =>
        .ok { r with recoveryAccount := o.newRecoveryAccount, effectiveOn := effectiveOn }
      return { d with changeRecoveryRequests := requests }
    else
      return { d with changeRecoveryRequests := d.changeRecoveryRequests.remove key }

end WeNode.Chain
