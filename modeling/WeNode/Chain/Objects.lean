import WeNode.Chain.Asset
import WeNode.Lib.Table

/-!
# Objects of the chain database

account_object.hpp, witness_objects.hpp, comment_object.hpp, node_objects.hpp,
global_property_object.hpp, transaction_object.hpp and hardfork.d/0-preamble.hf.  An asset-valued
field whose symbol never changes holds the amount only.  Texts that no function of the chain
reads back (titles, bodies, memos, urls, memo keys) are left out.
-/

namespace WeNode.Chain

open WeNode.Lib

/-- `account_name_type`: the 16 bytes of a `fixed_string_16` as a number -/
abbrev Name := Nat

/-- `time_point_sec` -/
abbrev Time := Nat

/-- A public key; `0` is `public_key_type()`. -/
abbrev PublicKey := Nat

/-- A ripemd160 or sha256 hash. -/
abbrev Hash := Nat

/-- The bytes of a string. -/
abbrev Bytes := List UInt8

/-- A text the chain only measures. -/
structure Text where
  size : Nat
  isUtf8 : Bool := true
  isJson : Bool := true
deriving DecidableEq

structure Authority where
  weightThreshold : Nat := 0
  accountAuths : List (Name × Nat) := []
  keyAuths : List (PublicKey × Nat) := []
deriving DecidableEq

/-- `chain_properties` -/
structure ChainProperties where
  accountCreationFee : Asset := .coin minAccountCreationFee
  maximumBlockSize : Nat := minBlockSizeLimit * 2
  tsdInterestRate : Nat := defaultTSDinterestRate
deriving DecidableEq

/-! ### Accounts -/

structure Account where
  id : Nat
  name : Name
  proxy : Name := proxyToSelfAccount
  lastAccountUpdate : Time := 0
  created : Time := 0
  mined : Bool := true
  ownerChallenged : Bool := false
  activeChallenged : Bool := false
  lastOwnerProved : Time := 0
  lastActiveProved : Time := 0
  recoveryAccount : Name := 0
  resetAccount : Name := nullAccount
  lastAccountRecovery : Time := 0
  postCount : Nat := 0
  canVote : Bool := true
  votingPower : Nat := percent100
  lastVoteTime : Time := 0
  balance : Int := 0
  tmeSavingsBalance : Int := 0
  tsdBalance : Int := 0
  tsdSeconds : Nat := 0
  tsdSecondsLastUpdate : Time := 0
  tsdLastInterestPayment : Time := 0
  tsdSavingsBalance : Int := 0
  savingsTSDseconds : Nat := 0
  savingsTSDsecondsLastUpdate : Time := 0
  savingsTSDlastInterestPayment : Time := 0
  savingsWithdrawRequests : Nat := 0
  scoreRewardBalanceInTME : Int := 0
  tmeRewardBalance : Int := 0
  scoreRewardBalance : Int := 0
  tsdRewardBalance : Int := 0
  curationRewards : Int := 0
  postingRewards : Int := 0
  score : Int := 0
  scoreDelegated : Int := 0
  scoreReceived : Int := 0
  scoreWithdrawRateInTME : Int := 0
  nextSCOREwithdrawalTime : Time := timeMax
  withdrawn : Int := 0
  toWithdraw : Int := 0
  withdrawRoutes : Nat := 0
  /-- `proxied_SCOREfundTMEbalance_votes` -/
  proxiedVotes : Fin maxProxyRecursionDepth → Int := fun _ => 0
  witnessesVotedFor : Nat := 0
  lastPost : Time := 0
  lastRootPost : Time := 0
  postBandwidth : Nat := 0

structure AccountAuthority where
  id : Nat
  account : Name
  owner : Authority := {}
  active : Authority := {}
  posting : Authority := {}
  lastOwnerUpdate : Time := 0

/-- `TME_fund_for_SCORE_delegation_object` -/
structure Delegation where
  id : Nat
  delegator : Name
  delegatee : Name
  score : Asset
  minDelegationTime : Time

/-- `TME_fund_for_SCORE_delegation_expiration_object` -/
structure DelegationExpiration where
  id : Nat
  delegator : Name
  score : Asset
  expiration : Time

structure OwnerAuthorityHistory where
  id : Nat
  account : Name
  previousOwnerAuthority : Authority
  lastValidTime : Time

structure AccountRecoveryRequest where
  id : Nat
  accountToRecover : Name
  newOwnerAuthority : Authority
  expires : Time

structure ChangeRecoveryAccountRequest where
  id : Nat
  accountToRecover : Name
  recoveryAccount : Name
  effectiveOn : Time

/-! ### Witnesses -/

/-- `witness_schedule_type` -/
inductive ScheduleType where
  | top19
  | timeshare
  | miner
  | none
deriving DecidableEq

structure Witness where
  id : Nat
  owner : Name
  created : Time := 0
  totalMissed : Nat := 0
  lastAslot : Nat := 0
  lastConfirmedBlockNum : Nat := 0
  powWorker : Nat := 0
  signingKey : PublicKey := 0
  props : ChainProperties := {}
  tsdExchangeRate : Price := .null
  lastTSDexchangeUpdate : Time := 0
  votes : Int := 0
  schedule : ScheduleType := .none
  virtualLastUpdate : Nat := 0
  virtualPosition : Nat := 0
  virtualScheduledTime : Nat := virtualScheduleLapLength2
  lastWork : Hash := 0

/-- The fields of a `witness_object` that only the extensions of block headers write. -/
structure WitnessVersion where
  runningVersion : Nat := 0
  hardforkVersionVote : Nat := 0
  hardforkTimeVote : Time := genesisTime

structure WitnessVote where
  id : Nat
  witness : Nat
  account : Nat

/-- `witness_schedule_object`; the array of the shuffled witnesses has `maxWitnesses` entries. -/
structure WitnessSchedule where
  currentVirtualTime : Nat := 0
  nextShuffleBlockNum : Nat := 1
  currentShuffledWitnesses : List Name := List.replicate maxWitnesses 0
  numScheduledWitnesses : Nat := 1
  top19Weight : Nat := 1
  timeshareWeight : Nat := 5
  minerWeight : Nat := 1
  witnessPayNormalizationFactor : Nat := 25
  medianProps : ChainProperties := {}
  majorityVersion : Nat := 0
  maxVotedWitnesses : Nat := maxVotedWitnessesHF0
  maxMinerWitnesses : Nat := maxMinerWitnessesHF0
  maxRunnerWitnesses : Nat := maxRunnerWitnessesHF0
  hardforkRequiredWitnesses : Nat := hardforkRequiredWitnesses

/-! ### Comments -/

/-- `beneficiary_route_type` -/
structure Beneficiary where
  account : Name
  weight : Nat
deriving DecidableEq

structure Comment where
  id : Nat
  parentAuthor : Name := rootPostParent
  parentPermlink : Bytes := []
  author : Name
  permlink : Bytes
  lastUpdate : Time := 0
  created : Time := 0
  active : Time := 0
  lastPayout : Time := 0
  depth : Nat := 0
  children : Nat := 0
  netSCOREreward : Int := 0
  absSCOREreward : Int := 0
  voteSCOREreward : Int := 0
  childrenAbsSCOREreward : Int := 0
  cashoutTime : Time := 0
  maxCashoutTime : Time := 0
  totalVoteWeight : Nat := 0
  rewardWeight : Nat := 0
  totalPayoutValue : Asset := .usd 0
  curatorPayoutValue : Asset := .usd 0
  beneficiaryPayoutValue : Asset := .usd 0
  authorRewards : Int := 0
  netVotes : Int := 0
  rootComment : Nat := 0
  maxAcceptedPayout : Asset := .usd 1000000000
  percentTSD : Nat := percent100
  allowReplies : Bool := true
  allowVotes : Bool := true
  allowCurationRewards : Bool := true
  beneficiaries : List Beneficiary := []

structure CommentVote where
  id : Nat
  voter : Nat
  comment : Nat
  weight : Nat := 0
  scoreReward : Int := 0
  votePercent : Int := 0
  lastUpdate : Time := 0
  numChanges : Int := 0

/-! ### Requests, orders and funds -/

structure ConvertRequest where
  id : Nat
  owner : Name
  requestId : Nat
  amount : Asset
  conversionDate : Time

structure Escrow where
  id : Nat
  escrowId : Nat
  fromAccount : Name
  toAccount : Name
  agent : Name
  ratificationDeadline : Time
  escrowExpiration : Time
  tsdBalance : Asset
  tmeBalance : Asset
  pendingFee : Asset
  toApproved : Bool := false
  agentApproved : Bool := false
  disputed : Bool := false

def Escrow.isApproved (e : Escrow) : Bool := e.toApproved && e.agentApproved

structure SavingsWithdraw where
  id : Nat
  fromAccount : Name
  toAccount : Name
  requestId : Nat
  amount : Asset
  complete : Time

structure LiquidityRewardBalance where
  id : Nat
  owner : Nat
  tmeVolume : Int := 0
  tsdVolume : Int := 0
  weight : Nat := 0
  lastUpdate : Time := 0

structure FeedHistory where
  currentMedianHistory : Price := .null
  priceHistory : List Price := []

structure LimitOrder where
  id : Nat
  created : Time
  expiration : Time
  seller : Name
  orderId : Nat
  forSale : Int
  sellPrice : Price

def LimitOrder.amountForSale (o : LimitOrder) : Asset := ⟨o.forSale, o.sellPrice.base.symbol⟩

def LimitOrder.amountToReceive (o : LimitOrder) : Result Asset := o.amountForSale.mul o.sellPrice

/-- `withdrawSCORE_route_object` -/
structure WithdrawRoute where
  id : Nat
  fromAccount : Nat
  toAccount : Nat
  percent : Nat
  autoSCORE : Bool

structure DeclineVotingRightsRequest where
  id : Nat
  account : Nat
  effectiveDate : Time

/-- `curve_id` -/
inductive CurveId where
  | quadratic
  | quadraticCuration
  | linear
  | squareRoot
deriving DecidableEq

structure RewardFund where
  id : Nat
  name : Name
  rewardBalance : Int := 0
  recentClaims : Nat := 0
  lastUpdate : Time := 0
  contentConstant : Nat := 0
  percentCurationRewards : Nat := 0
  percentContentRewards : Nat := 0
  authorRewardCurve : CurveId := .linear
  curationRewardCurve : CurveId := .squareRoot

/-! ### Global state -/

/-- `dynamic_global_property_object` less its `current_witness`, which `ChainState` keeps -/
structure GlobalProperties where
  headBlockNumber : Nat := 0
  headBlockId : Hash := 0
  time : Time := 0
  totalPow : Nat := 0xffffffffffffffff
  numPowWitnesses : Nat := 0
  virtualSupply : Int := 0
  currentSupply : Int := 0
  currentTSDsupply : Int := 0
  totalTMEfundForSCORE : Int := 0
  totalSCORE : Int := 0
  totalRewardFundTME : Int := 0
  totalSCOREreward2 : Nat := 0
  pendingRewardedSCORE : Int := 0
  pendingRewardedSCOREvalueInTME : Int := 0
  tsdInterestRate : Nat := 0
  tsdPrintRate : Nat := percent100
  maximumBlockSize : Nat := 0
  currentAslot : Nat := 0
  recentSlotsFilled : Nat := 0
  participationCount : Nat := 0
  lastIrreversibleBlockNum : Nat := 0
  votePowerReserveRate : Nat := 40

/-- `get_SCORE_price` -/
def GlobalProperties.scorePrice (g : GlobalProperties) : Price :=
  if g.totalTMEfundForSCORE = 0 ∨ g.totalSCORE = 0 then ⟨.coin 1000, .score 1000000⟩
  else ⟨.score g.totalSCORE, .coin g.totalTMEfundForSCORE⟩

/-- `get_SCOREreward_price` -/
def GlobalProperties.scoreRewardPrice (g : GlobalProperties) : Result Price := do
  let score ← safeAdd g.totalSCORE g.pendingRewardedSCORE
  let tme ← safeAdd g.totalTMEfundForSCORE g.pendingRewardedSCOREvalueInTME
  return ⟨.score score, .coin tme⟩

structure HardforkProperties where
  processedHardforks : List Time := []
  lastHardfork : Nat := 0
  currentHardforkVersion : Nat := 0
  nextHardfork : Nat := 0
  nextHardforkTime : Time := 0

/-- `transaction_object`: what the check for duplicates stores -/
structure StoredTransaction where
  id : Nat
  trxId : Hash
  expiration : Time

end WeNode.Chain
