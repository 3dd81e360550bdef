import WeNode.Chain.Operations

/-!
# Checks an operation makes of itself

libraries/protocol/node_operations.cpp.  Hashes, signatures, proofs of work and the encoding of
texts are computed outside the repository and taken from an environment.
-/

namespace WeNode.Chain

open WeNode.Lib

/-- `transaction` with its signatures -/
structure Transaction where
  refBlockNum : Nat
  refBlockPrefix : Nat
  expiration : Time
  operations : List Operation
  signatures : List Nat

/-- `block_header_extensions` -/
inductive HeaderExtension where
  | void
  | version (v : Nat)
  | hardforkVersionVote (version : Nat) (time : Time)

/-- `signed_block` -/
structure Block where
  previous : Hash
  timestamp : Time
  witness : Name
  transactionMerkleRoot : Hash
  extensions : List HeaderExtension
  transactions : List Transaction
  witnessSignature : Nat

/-- What the chain takes from fc: encodings, hashes and signatures. -/
structure Env where
  isUtf8 : Bytes → Bool
  /-- `pow_operation`: the input is the hash of the block and nonce, the work the hash of the
  signature by the worker -/
  validPow : PowOperation → Bool
  /-- `pow2_operation`: the summary is that of the work or proof -/
  validPow2 : Pow2Work → Bool
  /-- `signed_transaction::id` -/
  trxId : Transaction → Hash
  /-- `get_signature_keys` for the id of the chain -/
  signatureKeys : Transaction → Result (List PublicKey)
  /-- the low 128 bits of the hash of the header -/
  headerDigest : Block → Nat
  /-- `calculate_merkle_root` -/
  merkleRoot : Block → Hash
  /-- `validate_signee` -/
  validateSignee : Block → PublicKey → Bool
  /-- `fc::raw::pack_size` -/
  packSize : Block → Nat

variable (env : Env)

/-- `validate_permlink` -/
def validatePermlink (permlink : Bytes) : Result Unit := do
  require (permlink.length < maxPermlinkLength) "permlink is too long"
  require (env.isUtf8 permlink) "permlink not formatted in UTF8"

/- The check of the metadata of an operation. -/
def validateJson (json : Text) : Result Unit := do
  if 0 < json.size then
    require json.isUtf8 "JSON Metadata not formatted in UTF8"
    require json.isJson "JSON Metadata not valid JSON"

def validateMemo (memo : Text) : Result Unit := do
  require (memo.size < maxMemoSize) "Memo is too large"
  require memo.isUtf8 "Memo is not UTF8"

def VoteOperation.validate (o : VoteOperation) : Result Unit := do
  validateAccountName o.voter
  validateAccountName o.author
  require (o.weight.natAbs ≤ percent100) "Weight is not a TME percentage"
  validatePermlink env o.permlink

def CommentOperation.validate (o : CommentOperation) : Result Unit := do
  require (o.title.size < 256) "Title larger than size limit"
  require o.title.isUtf8 "Title not formatted in UTF8"
  require (0 < o.body.size) "Body is empty"
  require o.body.isUtf8 "Body not formatted in UTF8"
  if o.parentAuthor ≠ 0 then validateAccountName o.parentAuthor
  validateAccountName o.author
  validatePermlink env o.parentPermlink
  validatePermlink env o.permlink
  if 0 < o.json.size then require o.json.isJson "JSON Metadata not valid JSON"

def TransferOperation.validate (o : TransferOperation) : Result Unit := do
  validateAccountName o.fromAccount
  validateAccountName o.toAccount
  require (o.amount.symbol ≠ symbolScore) "transferring of WeYouMe Power (STMP) is not allowed."
  require (0 < o.amount.amount) "Cannot transfer a negative amount (aka: stealing)"
  validateMemo o.memo

def TransferTMEtoSCOREfundOperation.validate (o : TransferTMEtoSCOREfundOperation) :
    Result Unit := do
  validateAccountName o.fromAccount
  require (o.amount.symbol = symbolCoin) "Amount must be TME"
  if o.toAccount ≠ 0 then validateAccountName o.toAccount
  require (← o.amount.gt (.coin 0)) "Must transfer a nonzero amount"

def WithdrawSCOREoperation.validate (o : WithdrawSCOREoperation) : Result Unit := do
  validateAccountName o.account
  require (o.score.symbol = symbolScore) "Amount must be SCORE"

/- The market an order or a feed is made for. -/
def isMarket (a b : Asset) : Prop :=
  (a.symbol = symbolCoin ∧ b.symbol = symbolUsd) ∨ (a.symbol = symbolUsd ∧ b.symbol = symbolCoin)

instance (a b : Asset) : Decidable (isMarket a b) :=
  inferInstanceAs (Decidable ((a.symbol = symbolCoin ∧ b.symbol = symbolUsd) ∨
    (a.symbol = symbolUsd ∧ b.symbol = symbolCoin)))

def LimitOrderCreateOperation.validate (o : LimitOrderCreateOperation) : Result Unit := do
  validateAccountName o.owner
  require (isMarket o.amountToSell o.minToReceive) "Limit order must be for the TME:TSD market"
  (← o.amountToSell.div o.minToReceive).validate

def LimitOrderCreate2Operation.validate (o : LimitOrderCreate2Operation) : Result Unit := do
  validateAccountName o.owner
  require (o.amountToSell.symbol = o.exchangeRate.base.symbol)
    "Sell asset must be the base of the price"
  o.exchangeRate.validate
  require (isMarket o.amountToSell o.exchangeRate.quote)
    "Limit order must be for the TME:TSD market"
  require (0 < (← o.amountToSell.mul o.exchangeRate).amount)
    "Amount to sell cannot round to 0 when traded"

def LimitOrderCancelOperation.validate (o : LimitOrderCancelOperation) : Result Unit :=
  validateAccountName o.owner

def FeedPublishOperation.validate (o : FeedPublishOperation) : Result Unit := do
  validateAccountName o.publisher
  require (isMarket o.exchangeRate.base o.exchangeRate.quote) "Price feed must be a TME/TSD price"
  o.exchangeRate.validate

def ConvertOperation.validate (o : ConvertOperation) : Result Unit := do
  validateAccountName o.owner
  require (o.amount.symbol = symbolUsd) "Can only convert TSD to TME"
  require (0 < o.amount.amount) "Must convert some TSD"

def AccountCreateOperation.validate (o : AccountCreateOperation) : Result Unit := do
  validateAccountName o.newAccountName
  require (o.fee.symbol = symbolCoin) "Account creation fee must be TME"
  o.owner.validate
  o.active.validate
  validateJson o.json
  require (← o.fee.ge (.coin 0)) "Account creation fee cannot be negative"

def AccountCreateWithDelegationOperation.validate (o : AccountCreateWithDelegationOperation) :
    Result Unit := do
  validateAccountName o.newAccountName
  validateAccountName o.creator
  require (o.fee.symbol = symbolCoin) "Account creation fee must be TME"
  require (o.delegation.symbol = symbolScore) "Delegation must be SCORE"
  o.owner.validate
  o.active.validate
  o.posting.validate
  validateJson o.json
  require (← o.fee.ge (.coin 0)) "Account creation fee cannot be negative"
  require (← o.delegation.ge (.score 0)) "Delegation cannot be negative"

def AccountUpdateOperation.validate (o : AccountUpdateOperation) : Result Unit := do
  validateAccountName o.account
  validateJson o.json

def WitnessUpdateOperation.validate (o : WitnessUpdateOperation) : Result Unit := do
  validateAccountName o.owner
  require (0 < o.url.size) "URL size must be greater than 0"
  require o.url.isUtf8 "URL is not valid UTF8"
  require (← o.fee.ge (.coin 0)) "Fee cannot be negative"
  o.props.validate

def AccountWitnessVoteOperation.validate (o : AccountWitnessVoteOperation) : Result Unit := do
  validateAccountName o.account
  validateAccountName o.witness

def AccountWitnessProxyOperation.validate (o : AccountWitnessProxyOperation) : Result Unit := do
  validateAccountName o.account
  if o.proxy ≠ 0 then validateAccountName o.proxy
  require (o.proxy ≠ o.account) "Cannot proxy to self"

def PowOperation.validate (o : PowOperation) : Result Unit := do
  o.props.validate
  validateAccountName o.workerAccount
  require (env.validPow o) "Determninistic input does not match recorded input"

def CustomOperation.validate (o : CustomOperation) : Result Unit :=
  require (0 < o.requiredAuths.length) "at least on account must be specified"

def ReportOverProductionOperation.validate (o : ReportOverProductionOperation) : Result Unit := do
  validateAccountName o.reporter
  validateAccountName o.firstBlock.witness
  require (o.firstBlock.witness = o.secondBlock.witness)
    "first_block.witness == second_block.witness"
  require (o.firstBlock.timestamp = o.secondBlock.timestamp)
    "first_block.timestamp == second_block.timestamp"
  require (o.firstBlock.signee = o.secondBlock.signee)
    "first_block.signee() == second_block.signee()"
  require (o.firstBlock.id ≠ o.secondBlock.id) "first_block.id() != second_block.id()"

def DeleteCommentOperation.validate (o : DeleteCommentOperation) : Result Unit := do
  validatePermlink env o.permlink
  validateAccountName o.author

def CustomJsonOperation.validate (o : CustomJsonOperation) : Result Unit := do
  require (0 < o.requiredAuths.length + o.requiredPostingAuths.length)
    "at least on account must be specified"
  require (o.id.length ≤ 32) "id is too long"
  require o.json.isUtf8 "JSON Metadata not formatted in UTF8"
  require o.json.isJson "JSON Metadata not valid JSON"

def CustomBinaryOperation.validate (o : CustomBinaryOperation) : Result Unit := do
  require (0 < o.requiredOwnerAuths.length + o.requiredActiveAuths.length +
    o.requiredPostingAuths.length) "at least on account must be specified"
  require (o.id.length ≤ 32) "id is too long"
  o.requiredAuths.forM Authority.validate

/- One beneficiary, with the sum of the weights and the account before it. -/
def validateBeneficiary (s : Nat × Option Name) (b : Beneficiary) :
    Result (Nat × Option Name) := do
  validateAccountName b.account
  require (b.weight ≤ percent100) "Cannot allocate more than 100% of rewards to one account"
  require (s.1 + b.weight ≤ percent100) "Cannot allocate more than 100% of rewards to a comment"
  require (∀ a ∈ s.2, a < b.account)
    "Benficiaries must be specified in sorted order (account ascending)"
  return (s.1 + b.weight, some b.account)

/-- `comment_payout_beneficiaries::validate` -/
def validateBeneficiaries (l : List Beneficiary) : Result Unit := do
  require (l.length ≠ 0) "Must specify at least one beneficiary"
  require (l.length < 128) "Cannot specify more than 127 beneficiaries."
  let _ ← l.foldlM validateBeneficiary (0, none)

def CommentOptionsOperation.validate (o : CommentOptionsOperation) : Result Unit := do
  validateAccountName o.author
  require (o.percentTSD ≤ percent100) "Percent cannot exceed 100%"
  require (o.maxAcceptedPayout.symbol = symbolUsd) "Max accepted payout must be in TSD"
  require (0 ≤ o.maxAcceptedPayout.amount) "Cannot accept less than 0 payout"
  validatePermlink env o.permlink
  match o.beneficiaries with
  | some l => validateBeneficiaries l
  | none => return

def SetWithdrawSCOREasTMErouteOperation.validate (o : SetWithdrawSCOREasTMErouteOperation) :
    Result Unit := do
  validateAccountName o.fromAccount
  validateAccountName o.toAccount
  require (o.percent ≤ percent100) "Percent must be valid TME percent"

def ChallengeAuthorityOperation.validate (o : ChallengeAuthorityOperation) : Result Unit := do
  validateAccountName o.challenger
  validateAccountName o.challenged
  require (o.challenged ≠ o.challenger) "cannot challenge yourself"

def ProveAuthorityOperation.validate (o : ProveAuthorityOperation) : Result Unit :=
  validateAccountName o.challenged

def RequestAccountRecoveryOperation.validate (o : RequestAccountRecoveryOperation) :
    Result Unit := do
  validateAccountName o.recoveryAccount
  validateAccountName o.accountToRecover
  o.newOwnerAuthority.validate

def RecoverAccountOperation.validate (o : RecoverAccountOperation) : Result Unit := do
  validateAccountName o.accountToRecover
  require (o.newOwnerAuthority ≠ o.recentOwnerAuthority)
    "Cannot set new owner authority to the recent owner authority"
  require (!o.newOwnerAuthority.isImpossible) "new owner authority cannot be impossible"
  require (!o.recentOwnerAuthority.isImpossible) "recent owner authority cannot be impossible"
  require (o.newOwnerAuthority.weightThreshold ≠ 0) "new owner authority cannot be trivial"
  o.newOwnerAuthority.validate
  o.recentOwnerAuthority.validate

def ChangeRecoveryAccountOperation.validate (o : ChangeRecoveryAccountOperation) :
    Result Unit := do
  validateAccountName o.accountToRecover
  validateAccountName o.newRecoveryAccount

def EscrowTransferOperation.validate (o : EscrowTransferOperation) : Result Unit := do
  validateAccountName o.fromAccount
  validateAccountName o.toAccount
  validateAccountName o.agent
  require (0 ≤ o.fee.amount) "fee cannot be negative"
  require (0 ≤ o.tsdAmount.amount) "TSD amount cannot be negative"
  require (0 ≤ o.tmeAmount.amount) "TME amount cannot be negative"
  require (0 < o.tsdAmount.amount ∨ 0 < o.tmeAmount.amount)
    "escrow must transfer a non-zero amount"
  require (o.fromAccount ≠ o.agent ∧ o.toAccount ≠ o.agent) "agent must be a third party"
  require (o.fee.symbol = symbolCoin ∨ o.fee.symbol = symbolUsd) "fee must be TME or TSD"
  require (o.tsdAmount.symbol = symbolUsd) "TSD amount must contain TSD"
  require (o.tmeAmount.symbol = symbolCoin) "TME amount must contain TME"
  require (o.ratificationDeadline < o.escrowExpiration)
    "ratification deadline must be before escrow expiration"
  validateJson o.json

/- The accounts of an escrow named in an operation on it. -/
def validateParties (fromAccount toAccount agent who : Name) : Result Unit := do
  validateAccountName fromAccount
  validateAccountName toAccount
  validateAccountName agent
  validateAccountName who

def EscrowApproveOperation.validate (o : EscrowApproveOperation) : Result Unit := do
  validateParties o.fromAccount o.toAccount o.agent o.who
  require (o.who = o.toAccount ∨ o.who = o.agent) "to or agent must approve escrow"

def EscrowDisputeOperation.validate (o : EscrowDisputeOperation) : Result Unit := do
  validateParties o.fromAccount o.toAccount o.agent o.who
  require (o.who = o.fromAccount ∨ o.who = o.toAccount) "who must be from or to"

def EscrowReleaseOperation.validate (o : EscrowReleaseOperation) : Result Unit := do
  validateParties o.fromAccount o.toAccount o.agent o.who
  validateAccountName o.receiver
  require (o.who = o.fromAccount ∨ o.who = o.toAccount ∨ o.who = o.agent)
    "who must be from or to or agent"
  require (o.receiver = o.fromAccount ∨ o.receiver = o.toAccount) "receiver must be from or to"
  require (0 ≤ o.tsdAmount.amount) "TSD amount cannot be negative"
  require (0 ≤ o.tmeAmount.amount) "TME amount cannot be negative"
  require (0 < o.tsdAmount.amount ∨ 0 < o.tmeAmount.amount)
    "escrow must release a non-zero amount"
  require (o.tsdAmount.symbol = symbolUsd) "TSD amount must contain TSD"
  require (o.tmeAmount.symbol = symbolCoin) "TME amount must contain TME"

def Pow2Operation.validate (o : Pow2Operation) : Result Unit := do
  o.props.validate
  validateAccountName o.work.workerAccount
  require (env.validPow2 o.work) "reported work does not match calculated work"

/- The amount of a transfer to or from the savings. -/
def validateSavings (fromAccount toAccount : Name) (amount : Asset) (memo : Text) :
    Result Unit := do
  validateAccountName fromAccount
  validateAccountName toAccount
  require (0 < amount.amount) "amount.amount > 0"
  require (amount.symbol = symbolCoin ∨ amount.symbol = symbolUsd)
    "amount.symbol == SYMBOL_COIN || amount.symbol == SYMBOL_USD"
  validateMemo memo

def TransferToSavingsOperation.validate (o : TransferToSavingsOperation) : Result Unit :=
  validateSavings o.fromAccount o.toAccount o.amount o.memo

def TransferFromSavingsOperation.validate (o : TransferFromSavingsOperation) : Result Unit :=
  validateSavings o.fromAccount o.toAccount o.amount o.memo

def CancelTransferFromSavingsOperation.validate (o : CancelTransferFromSavingsOperation) :
    Result Unit :=
  validateAccountName o.fromAccount

def DeclineVotingRightsOperation.validate (o : DeclineVotingRightsOperation) : Result Unit :=
  validateAccountName o.account

def ResetAccountOperation.validate (o : ResetAccountOperation) : Result Unit := do
  validateAccountName o.resetAccount
  validateAccountName o.accountToReset
  require (!o.newOwnerAuthority.isImpossible) "new owner authority cannot be impossible"
  require (o.newOwnerAuthority.weightThreshold ≠ 0) "new owner authority cannot be trivial"
  o.newOwnerAuthority.validate

def SetResetAccountOperation.validate (o : SetResetAccountOperation) : Result Unit := do
  validateAccountName o.account
  if o.currentResetAccount ≠ 0 then validateAccountName o.currentResetAccount
  validateAccountName o.resetAccount
  require (o.currentResetAccount ≠ o.resetAccount)
    "new reset account cannot be current reset account"

def ClaimRewardBalanceOperation.validate (o : ClaimRewardBalanceOperation) : Result Unit := do
  validateAccountName o.account
  require (o.tmeReward.symbol = symbolCoin) "TMEreward must be TME"
  require (o.tsdReward.symbol = symbolUsd) "TSDreward must be TSD"
  require (o.scoreReward.symbol = symbolScore) "SCOREreward must be SCORE"
  require (0 ≤ o.tmeReward.amount) "Cannot claim a negative amount"
  require (0 ≤ o.tsdReward.amount) "Cannot claim a negative amount"
  require (0 ≤ o.scoreReward.amount) "Cannot claim a negative amount"
  require (0 < o.tmeReward.amount ∨ 0 < o.tsdReward.amount ∨ 0 < o.scoreReward.amount)
    "Must claim something."

def DelegateSCOREoperation.validate (o : DelegateSCOREoperation) : Result Unit := do
  validateAccountName o.delegator
  validateAccountName o.delegatee
  require (o.delegator ≠ o.delegatee) "You cannot delegate SCORE to yourself"
  require (o.score.symbol = symbolScore) "Delegation must be SCORE"
  require (← o.score.ge (.score 0)) "Delegation cannot be negative"

/-- `operation_validate` -/
def Operation.validate : Operation → Result Unit
  | .vote op => op.validate env
  | .comment op => op.validate env
  | .transfer op => op.validate
  | .transferTMEtoSCOREfund op => op.validate
  | .withdrawSCORE op => op.validate
  | .limitOrderCreate op => op.validate
  | .limitOrderCancel op => op.validate
  | .feedPublish op => op.validate
  | .convert op => op.validate
  | .accountCreate op => op.validate
  | .accountUpdate op => op.validate
  | .witnessUpdate op => op.validate
  | .accountWitnessVote op => op.validate
  | .accountWitnessProxy op => op.validate
  | .pow op => op.validate env
  | .custom op => op.validate
  | .reportOverProduction op => op.validate
  | .deleteComment op => op.validate env
  | .customJson op => op.validate
  | .commentOptions op => op.validate env
  | .setWithdrawSCOREasTMEroute op => op.validate
  | .limitOrderCreate2 op => op.validate
  | .challengeAuthority op => op.validate
  | .proveAuthority op => op.validate
  | .requestAccountRecovery op => op.validate
  | .recoverAccount op => op.validate
  | .changeRecoveryAccount op => op.validate
  | .escrowTransfer op => op.validate
  | .escrowDispute op => op.validate
  | .escrowRelease op => op.validate
  | .pow2 op => op.validate env
  | .escrowApprove op => op.validate
  | .transferToSavings op => op.validate
  | .transferFromSavings op => op.validate
  | .cancelTransferFromSavings op => op.validate
  | .customBinary op => op.validate
  | .declineVotingRights op => op.validate
  | .resetAccount op => op.validate
  | .setResetAccount op => op.validate
  | .claimRewardBalance op => op.validate
  | .delegateSCORE op => op.validate
  | .accountCreateWithDelegation op => op.validate

end WeNode.Chain
