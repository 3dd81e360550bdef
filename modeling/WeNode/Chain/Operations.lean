import WeNode.Chain.Reward

/-!
# Operations

libraries/protocol/include/node/protocol/node_operations.hpp: the operations of a transaction and
the checks each makes of itself (libraries/protocol/node_operations.cpp).  Virtual operations are
made by the chain and refused in a transaction.
-/

namespace WeNode.Chain

open WeNode.Lib

/-! ### Account names -/

/- The bytes of a name: all 16 if the last one is set, else those before the first zero. -/
def nameBytes (name : Name) : List Nat :=
  let bytes := (List.range 16).map fun i => name / 256 ^ (15 - i) % 256
  if bytes.getLastD 0 ≠ 0 then bytes else bytes.takeWhile (· != 0)

def isLetter (c : Nat) : Bool := decide (97 ≤ c ∧ c ≤ 122)
def isDigit (c : Nat) : Bool := decide (48 ≤ c ∧ c ≤ 57)

/- One label of a name: a letter, then letters, digits and dashes, at the end no dash. -/
def isValidLabel (label : List Nat) : Bool :=
  decide (3 ≤ label.length) && isLetter (label.headD 0) &&
    (isLetter (label.getLastD 0) || isDigit (label.getLastD 0)) &&
    label.tail.dropLast.all fun c => isLetter c || isDigit c || c == 45

/-- `is_valid_account_name` -/
def isValidAccountName (name : Name) : Bool :=
  let bytes := nameBytes name
  decide (3 ≤ bytes.length) && decide (bytes.length ≤ 16) && (bytes.splitOn 46).all isValidLabel

/-- `validate_account_name` -/
def validateAccountName (name : Name) : Result Unit :=
  require (isValidAccountName name) "Account name ${n} is invalid"

/-! ### Authorities and properties -/

namespace Authority

/-- `is_impossible` -/
def isImpossible (a : Authority) : Bool :=
  decide (((a.accountAuths.map (·.2)).sum + (a.keyAuths.map (·.2)).sum) % two64 < a.weightThreshold)

def validate (a : Authority) : Result Unit :=
  a.accountAuths.forM fun item => require (isValidAccountName item.1) "is_valid_account_name( item.first )"

end Authority

def ChainProperties.validate (p : ChainProperties) : Result Unit := do
  require (minAccountCreationFee ≤ p.accountCreationFee.amount)
    "account_creation_fee.amount >= MIN_ACCOUNT_CREATION_FEE"
  require (minBlockSizeLimit ≤ p.maximumBlockSize) "maximum_block_size >= MIN_BLOCK_SIZE_LIMIT"
  require (p.tsdInterestRate ≤ percent100) "TSD_interest_rate <= PERCENT_100"

/-! ### The operations -/

structure VoteOperation where
  voter : Name
  author : Name
  permlink : Bytes
  weight : Int := 0

structure CommentOperation where
  parentAuthor : Name
  parentPermlink : Bytes
  author : Name
  permlink : Bytes
  title : Text
  body : Text
  json : Text

structure TransferOperation where
  fromAccount : Name
  toAccount : Name
  amount : Asset
  memo : Text

structure TransferTMEtoSCOREfundOperation where
  fromAccount : Name
  /-- if null, then the same as the sender -/
  toAccount : Name
  amount : Asset

structure WithdrawSCOREoperation where
  account : Name
  score : Asset

structure LimitOrderCreateOperation where
  owner : Name
  orderId : Nat
  amountToSell : Asset
  minToReceive : Asset
  fillOrKill : Bool
  expiration : Time

structure LimitOrderCreate2Operation where
  owner : Name
  orderId : Nat
  amountToSell : Asset
  fillOrKill : Bool
  exchangeRate : Price
  expiration : Time

structure LimitOrderCancelOperation where
  owner : Name
  orderId : Nat

structure FeedPublishOperation where
  publisher : Name
  exchangeRate : Price

structure ConvertOperation where
  owner : Name
  requestId : Nat
  amount : Asset

structure AccountCreateOperation where
  fee : Asset
  creator : Name
  newAccountName : Name
  owner : Authority
  active : Authority
  posting : Authority
  json : Text

structure AccountCreateWithDelegationOperation where
  fee : Asset
  delegation : Asset
  creator : Name
  newAccountName : Name
  owner : Authority
  active : Authority
  posting : Authority
  json : Text

structure AccountUpdateOperation where
  account : Name
  owner : Option Authority
  active : Option Authority
  posting : Option Authority
  json : Text

structure WitnessUpdateOperation where
  owner : Name
  url : Text
  blockSigningKey : PublicKey
  props : ChainProperties
  fee : Asset

structure AccountWitnessVoteOperation where
  account : Name
  witness : Name
  approve : Bool

structure AccountWitnessProxyOperation where
  account : Name
  proxy : Name

structure PowOperation where
  workerAccount : Name
  blockId : Hash
  nonce : Nat
  /-- the key, the input and the hash of `work`; its signature is checked by the environment -/
  worker : PublicKey
  input : Hash
  work : Hash
  props : ChainProperties

structure CustomOperation where
  requiredAuths : List Name
  id : Nat

structure CustomJsonOperation where
  requiredAuths : List Name
  requiredPostingAuths : List Name
  id : Bytes
  json : Text

structure CustomBinaryOperation where
  requiredOwnerAuths : List Name
  requiredActiveAuths : List Name
  requiredPostingAuths : List Name
  requiredAuths : List Authority
  id : Bytes

/-- The header of a block reported twice, with the key that signed it and its id. -/
structure ReportedHeader where
  witness : Name
  timestamp : Time
  signee : PublicKey
  id : Hash

structure ReportOverProductionOperation where
  reporter : Name
  firstBlock : ReportedHeader
  secondBlock : ReportedHeader

structure DeleteCommentOperation where
  author : Name
  permlink : Bytes

structure CommentOptionsOperation where
  author : Name
  permlink : Bytes
  maxAcceptedPayout : Asset
  percentTSD : Nat
  allowVotes : Bool
  allowCurationRewards : Bool
  /-- the extension with the beneficiaries, if there is one -/
  beneficiaries : Option (List Beneficiary)

structure SetWithdrawSCOREasTMErouteOperation where
  fromAccount : Name
  toAccount : Name
  percent : Nat
  autoSCORE : Bool

structure ChallengeAuthorityOperation where
  challenger : Name
  challenged : Name
  requireOwner : Bool

structure ProveAuthorityOperation where
  challenged : Name
  requireOwner : Bool

structure RequestAccountRecoveryOperation where
  recoveryAccount : Name
  accountToRecover : Name
  newOwnerAuthority : Authority

structure RecoverAccountOperation where
  accountToRecover : Name
  newOwnerAuthority : Authority
  recentOwnerAuthority : Authority

structure ChangeRecoveryAccountOperation where
  accountToRecover : Name
  newRecoveryAccount : Name

structure EscrowTransferOperation where
  fromAccount : Name
  toAccount : Name
  agent : Name
  escrowId : Nat
  tsdAmount : Asset
  tmeAmount : Asset
  fee : Asset
  ratificationDeadline : Time
  escrowExpiration : Time
  json : Text

structure EscrowApproveOperation where
  fromAccount : Name
  toAccount : Name
  agent : Name
  who : Name
  escrowId : Nat
  approve : Bool

structure EscrowDisputeOperation where
  fromAccount : Name
  toAccount : Name
  agent : Name
  who : Name
  escrowId : Nat

structure EscrowReleaseOperation where
  fromAccount : Name
  /-- the original receiver -/
  toAccount : Name
  agent : Name
  who : Name
  receiver : Name
  escrowId : Nat
  tsdAmount : Asset
  tmeAmount : Asset

/-- The work of `pow2_operation`: `pow2` or `equihash_pow`; the proof is checked by the
environment. -/
structure Pow2Work where
  equihash : Bool
  workerAccount : Name
  prevBlock : Hash
  nonce : Nat
  powSummary : Nat
  /-- the `prev_block` of `equihash_pow` itself -/
  recentBlock : Hash := 0

structure Pow2Operation where
  work : Pow2Work
  newOwnerKey : Option PublicKey
  props : ChainProperties

structure TransferToSavingsOperation where
  fromAccount : Name
  toAccount : Name
  amount : Asset
  memo : Text

structure TransferFromSavingsOperation where
  fromAccount : Name
  requestId : Nat
  toAccount : Name
  amount : Asset
  memo : Text

structure CancelTransferFromSavingsOperation where
  fromAccount : Name
  requestId : Nat

structure DeclineVotingRightsOperation where
  account : Name
  decline : Bool

structure ResetAccountOperation where
  resetAccount : Name
  accountToReset : Name
  newOwnerAuthority : Authority

structure SetResetAccountOperation where
  account : Name
  currentResetAccount : Name
  resetAccount : Name

structure ClaimRewardBalanceOperation where
  account : Name
  tmeReward : Asset
  tsdReward : Asset
  scoreReward : Asset

structure DelegateSCOREoperation where
  delegator : Name
  delegatee : Name
  score : Asset

inductive Operation where
  | vote (op : VoteOperation)
  | comment (op : CommentOperation)
  | transfer (op : TransferOperation)
  | transferTMEtoSCOREfund (op : TransferTMEtoSCOREfundOperation)
  | withdrawSCORE (op : WithdrawSCOREoperation)
  | limitOrderCreate (op : LimitOrderCreateOperation)
  | limitOrderCancel (op : LimitOrderCancelOperation)
  | feedPublish (op : FeedPublishOperation)
  | convert (op : ConvertOperation)
  | accountCreate (op : AccountCreateOperation)
  | accountUpdate (op : AccountUpdateOperation)
  | witnessUpdate (op : WitnessUpdateOperation)
  | accountWitnessVote (op : AccountWitnessVoteOperation)
  | accountWitnessProxy (op : AccountWitnessProxyOperation)
  | pow (op : PowOperation)
  | custom (op : CustomOperation)
  | reportOverProduction (op : ReportOverProductionOperation)
  | deleteComment (op : DeleteCommentOperation)
  | customJson (op : CustomJsonOperation)
  | commentOptions (op : CommentOptionsOperation)
  | setWithdrawSCOREasTMEroute (op : SetWithdrawSCOREasTMErouteOperation)
  | limitOrderCreate2 (op : LimitOrderCreate2Operation)
  | challengeAuthority (op : ChallengeAuthorityOperation)
  | proveAuthority (op : ProveAuthorityOperation)
  | requestAccountRecovery (op : RequestAccountRecoveryOperation)
  | recoverAccount (op : RecoverAccountOperation)
  | changeRecoveryAccount (op : ChangeRecoveryAccountOperation)
  | escrowTransfer (op : EscrowTransferOperation)
  | escrowDispute (op : EscrowDisputeOperation)
  | escrowRelease (op : EscrowReleaseOperation)
  | pow2 (op : Pow2Operation)
  | escrowApprove (op : EscrowApproveOperation)
  | transferToSavings (op : TransferToSavingsOperation)
  | transferFromSavings (op : TransferFromSavingsOperation)
  | cancelTransferFromSavings (op : CancelTransferFromSavingsOperation)
  | customBinary (op : CustomBinaryOperation)
  | declineVotingRights (op : DeclineVotingRightsOperation)
  | resetAccount (op : ResetAccountOperation)
  | setResetAccount (op : SetResetAccountOperation)
  | claimRewardBalance (op : ClaimRewardBalanceOperation)
  | delegateSCORE (op : DelegateSCOREoperation)
  | accountCreateWithDelegation (op : AccountCreateWithDelegationOperation)

end WeNode.Chain
