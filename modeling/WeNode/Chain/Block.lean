import WeNode.Chain.Accounts
import WeNode.Chain.Discussion
import WeNode.Chain.Transfers

/-!
# Applying blocks

libraries/chain/database.cpp: slots (924-962), `init_genesis` (2349-2440), `apply_block` to
`_apply_transaction` (2508-2904) and the steps between (2906-3122).  The block log and the fork
database are the subject of `WeNode.Fork`.
-/

namespace WeNode.Chain

open WeNode.Lib

/-- The `validation_steps` a function of this module may leave out. -/
structure Skip where
  witnessSignature : Bool := false
  transactionSignatures : Bool := false
  transactionDupeCheck : Bool := false
  taposCheck : Bool := false
  authorityCheck : Bool := false
  merkleCheck : Bool := false
  undoHistoryCheck : Bool := false
  witnessScheduleCheck : Bool := false
  validate : Bool := false

/-- `skip_nothing` -/
def Skip.nothing : Skip := {}

/- The flags of `reindex`. -/
def Skip.reindex : Skip where
  witnessSignature := true
  transactionSignatures := true
  transactionDupeCheck := true
  taposCheck := true
  merkleCheck := true
  witnessScheduleCheck := true
  authorityCheck := true
  validate := true

/- The flags of `apply_block` up to the last checkpoint. -/
def Skip.checkpoint : Skip where
  witnessSignature := true
  transactionSignatures := true
  transactionDupeCheck := true
  taposCheck := true
  authorityCheck := true
  undoHistoryCheck := true
  witnessScheduleCheck := true
  validate := true

/-- The database with what only the application of blocks reads: the transactions kept to find
duplicates, the witness of the current block and the versions the witnesses report. -/
structure ChainState where
  db : Database
  transactions : Table StoredTransaction := {}
  currentWitness : Name
  versions : Name → WitnessVersion := fun _ => {}

namespace Database

/-! ### Slots -/

/-- `get_scheduled_witness` -/
def getScheduledWitness (d : Database) (slot : Nat) : Result Name := do
  let aslot := (d.gpo.currentAslot + slot) % two64
  if d.schedule.numScheduledWitnesses = 0 then .error .divideByZero
  found d.schedule.currentShuffledWitnesses[aslot % d.schedule.numScheduledWitnesses]?

/-- `get_slot_time` -/
def getSlotTime (d : Database) (slot : Nat) : Time :=
  if slot = 0 then 0
  else if d.headBlockNum = 0 then timeAdd d.gpo.time (slot * blockInterval)
  else timeAdd (d.headBlockTime / blockInterval * blockInterval) (slot * blockInterval)

/-- `get_slot_at_time` -/
def getSlotAtTime (d : Database) (time : Time) : Nat :=
  let first := d.getSlotTime 1
  if time < first then 0 else (time - first) / blockInterval + 1

/-! ### Header -/

/-- `block_num` and `id` of a block -/
def blockNum (b : Block) : Nat := (numFromId b.previous + 1) % two32

def blockId (env : Env) (b : Block) : Hash := blockNum b * two128 + env.headerDigest b % two128

/- A wrong merkle root is admitted in the blocks listed. -/
def checkMerkle (env : Env) (b : Block) : Result Unit :=
  require (b.transactionMerkleRoot = env.merkleRoot b ∨
    (blockNum b, env.merkleRoot b) ∈ sharedDbMerkle) "Merkle check failed"

/-- `validate_block_header` -/
def validateBlockHeader (env : Env) (skip : Skip) (d : Database) (b : Block) : Result Unit := do
  require (d.gpo.headBlockId = b.previous) "head_block_id() == next_block.previous"
  require (d.headBlockTime < b.timestamp) "head_block_time() < next_block.timestamp"
  let w ← d.getWitness b.witness
  if !skip.witnessSignature then
    require (env.validateSignee b w.signingKey) "next_block.validate_signee( witness.signing_key )"
  if !skip.witnessScheduleCheck then
    let slot := d.getSlotAtTime b.timestamp
    require (0 < slot) "slot_num > 0"
    require (w.owner = (← d.getScheduledWitness slot)) "Witness produced block at wrong time"

/-! ### Transactions -/

/-- `apply_operation` -/
def applyOperation (currentWitness : Name) (d : Database) : Operation → Result Database
  | .vote op => op.apply d
  | .comment op => op.apply d
  | .transfer op => op.apply d
  | .transferTMEtoSCOREfund op => op.apply d
  | .withdrawSCORE op => op.apply d
  | .limitOrderCreate op => op.apply d
  | .limitOrderCancel op => op.apply d
  | .feedPublish op => op.apply d
  | .convert op => op.apply d
  | .accountCreate op => op.apply d
  | .accountUpdate op => op.apply d
  | .witnessUpdate op => op.apply d
  | .accountWitnessVote op => op.apply d
  | .accountWitnessProxy op => op.apply d
  | .pow op => op.apply d currentWitness
  -- the interpreters of custom operations keep their own objects
  | .custom _ => .ok d
  | .reportOverProduction _ => do
    require (!d.hasHardfork 4) "report_over_production_operation is disabled."
    return d
  | .deleteComment op => op.apply d
  | .customJson _ => .ok d
  | .commentOptions op => op.apply d
  | .setWithdrawSCOREasTMEroute op => op.apply d
  | .limitOrderCreate2 op => op.apply d
  | .challengeAuthority op => op.apply d
  | .proveAuthority op => op.apply d
  | .requestAccountRecovery op => op.apply d
  | .recoverAccount op => op.apply d
  | .changeRecoveryAccount op => op.apply d
  | .escrowTransfer op => op.apply d
  | .escrowDispute op => op.apply d
  | .escrowRelease op => op.apply d
  | .pow2 op => op.apply d currentWitness
  | .escrowApprove op => op.apply d
  | .transferToSavings op => op.apply d
  | .transferFromSavings op => op.apply d
  | .cancelTransferFromSavings op => op.apply d
  | .customBinary _ => do
    require (d.hasHardfork 14) "d.has_hardfork( HARDFORK_0_14__317 )"
    return d
  | .declineVotingRights op => op.apply d
  | .resetAccount _ => .error (.assertion "Reset Account Operation is currently disabled.")
  | .setResetAccount _ => .error (.assertion "Set Reset Account Operation is currently disabled.")
  | .claimRewardBalance op => op.apply d
  | .delegateSCORE op => op.apply d
  | .accountCreateWithDelegation op => op.apply d

/- The authorities of a transaction; a missing active one is admitted in the blocks listed. -/
def checkAuthorities (env : Env) (d : Database) (t : Transaction) : Result Unit := do
  let keys ← env.signatureKeys t
  let required := (t.operations.map Operation.required).foldl Required.append {}
  match verifyAuthority required keys
      (fun name => (d.getAuthority name).map (·.active))
      (fun name => (d.getAuthority name).map (·.owner))
      (fun name => (d.getAuthority name).map (·.posting)) with
  | .ok _ => return
  | .error e =>
    if e = .missingActiveAuth ∧ (sharedDbMerkle.map (·.1)).contains (d.headBlockNum + 1) then return
    else .error e

/- The second word of the id of a block, as a number of this machine. -/
def idPrefix (id : Hash) : Nat :=
  let w := id / 2 ^ 96 % two32
  w % 256 * 2 ^ 24 + w / 256 % 256 * 2 ^ 16 + w / 2 ^ 16 % 256 * 256 + w / 2 ^ 24

/- The transaction refers to a block of this chain and has not expired. -/
def checkExpiration (skip : Skip) (d : Database) (t : Transaction) : Result Unit := do
  if d.headBlockNum = 0 then return
  if !skip.taposCheck then
    require (t.refBlockPrefix = idPrefix (d.blockSummaries t.refBlockNum))
      "transaction_tapos_exception"
  let now := d.headBlockTime
  require (t.expiration ≤ timeAdd now maxTimeUntilExpiration) "transaction_expiration_exception"
  if d.hasHardfork 9 then require (now < t.expiration) "transaction_expiration_exception"
  require (now ≤ t.expiration) "transaction_expiration_exception"

/-! ### After the transactions -/

/- A slot that was missed is noted of its witness, who is shut down after a day without a block. -/
def missSlot (producer : Name) (d : Database) (i : Nat) : Result Database := do
  let w ← d.getWitness (← d.getScheduledWitness (i + 1))
  if w.owner = producer then return d
  d.modifyWitness w.owner fun w =>
    let w := { w with totalMissed := (w.totalMissed + 1) % two32 }
    if d.hasHardfork 14 ∧
        blocksPerDay < (d.headBlockNum + (two32 - w.lastConfirmedBlockNum)) % two32 then
      .ok { w with signingKey := 0 }
    else .ok w

/- One slot of the record of the last 128. -/
def fillSlot (g : GlobalProperties) (i : Nat) : GlobalProperties :=
  let filled := if i = 0 then 1 else 0
  { g with
    participationCount :=
      (g.participationCount + (256 - g.recentSlotsFilled / 2 ^ 127) + filled) % 256
    recentSlotsFilled := (g.recentSlotsFilled * 2 + filled) % two128 }

/- The header of a block becomes that of the head block. -/
def setHead (env : Env) (b : Block) (missed : Nat) (d : Database) : Database :=
  let g := (List.range (missed + 1)).foldl fillSlot d.gpo
  { d with gpo := { g with
    headBlockNumber := blockNum b
    headBlockId := blockId env b
    time := b.timestamp
    currentAslot := (g.currentAslot + missed + 1) % two64 } }

/-- `update_global_dynamic_data` -/
def updateGlobalDynamicData (env : Env) (skip : Skip) (d : Database) (b : Block) :
    Result Database := do
  let missed := if d.headBlockTime = 0 then 0 else d.getSlotAtTime b.timestamp - 1
  let d ← (List.range missed).foldlM (missSlot b.witness) d
  let d := d.setHead env b missed
  if !skip.undoHistoryCheck then
    require (d.headBlockNum - d.gpo.lastIrreversibleBlockNum < maxUndoHistory)
      "The database does not have enough undo history to support a blockchain with so many missed blocks."
  return d

/-- `update_signing_witness` -/
def updateSigningWitness (d : Database) (b : Block) : Result Database :=
  d.modifyWitness b.witness fun w => .ok { w with
    lastAslot := (d.gpo.currentAslot + d.getSlotAtTime b.timestamp) % two64
    lastConfirmedBlockNum := blockNum b }

/-- `update_last_irreversible_block` -/
def updateLastIrreversibleBlock (d : Database) : Result Database := do
  if d.headBlockNum < startMinerVotingBlock then
    if maxWitnesses < d.headBlockNum then
      return { d with gpo := { d.gpo with
        lastIrreversibleBlockNum := d.headBlockNum - maxWitnesses } }
    return d
  let scheduled ← d.scheduledWitnesses
  let offset := (percent100 - irreversibleThreshold) * scheduled.length / percent100
  let new ← found ((scheduled.map (·.lastConfirmedBlockNum)).insertionSort (· ≤ ·))[offset]?
  if d.gpo.lastIrreversibleBlockNum < new then
    return { d with gpo := { d.gpo with lastIrreversibleBlockNum := new } }
  return d

/-- `create_block_summary` -/
def createBlockSummary (env : Env) (d : Database) (b : Block) : Database :=
  { d with blockSummaries := fun n =>
    if n = blockNum b % 65536 then blockId env b else d.blockSummaries n }

/- The price a scheduled witness publishes, if it is recent enough. -/
def liveFeed (d : Database) (w : Witness) : Bool :=
  !w.tsdExchangeRate.isNull &&
    if d.hasHardfork 19 then decide (d.headBlockTime < timeAdd w.lastTSDexchangeUpdate maxFeedAgeSeconds)
    else decide (w.lastTSDexchangeUpdate < timeAdd d.headBlockTime maxFeedAgeSeconds)

/- The price in the middle of an order. -/
def medianPrice (l : List Price) : Option Price :=
  (l.insertionSort fun a b => !b.lt a)[l.length / 2]?

/- The median of the history, limited so that TSD stay below a tenth of the market. -/
def limitedMedian (d : Database) (median : Price) : Result Price := do
  if d.hasHardfork 14 then
    let least : Price := ⟨.usd (← safeMul 9 d.gpo.currentTSDsupply), .coin d.gpo.currentSupply⟩
    return if least.gt median then least else median
  return median

/-- `update_median_feed` -/
def updateMedianFeed (d : Database) : Result Database := do
  if d.headBlockNum % feedIntervalBlocks ≠ 0 then return d
  let feeds := ((← d.scheduledWitnesses).filter d.liveFeed).map (·.tsdExchangeRate)
  if feeds.length < minFeeds then return d
  let median ← found (medianPrice feeds)
  let window := if d.hasHardfork 16 then feedHistoryWindow else feedHistoryWindowPreHF16
  let history := d.feed.priceHistory ++ [median]
  let history := if window < history.length then history.tail else history
  match medianPrice history with
  | none => return { d with feed := { d.feed with priceHistory := history } }
  | some m => return { d with feed := ⟨← d.limitedMedian m, history⟩ }

/-! ### Blocks -/

/- The payments of a block and the requests that are due, in the order of `_apply_block`. -/
def settle (currentWitness : Name) (d : Database) : Result Database := do
  let d ← d.updateMedianFeed
  let d ← d.updateVirtualSupply
  let d ← d.clearNullAccountBalance
  let d ← d.processFunds currentWitness
  let d ← d.processConversions
  let d ← d.processCommentCashout
  let d ← d.processTMEfundForSCOREwithdrawals
  let d ← d.processSavingsWithdraws
  let d ← d.payLiquidityReward
  let d ← d.updateVirtualSupply
  let d ← d.accountRecoveryProcessing
  let d ← d.expireEscrowRatification
  d.processDeclineVotingRights

/- The steps at the end of a block, in the order of `_apply_block`. -/
def endBlock (currentWitness : Name) (versions : Name → WitnessVersion) (d : Database) :
    Result Database := do
  let d ← d.clearExpiredOrders
  let d ← d.clearExpiredDelegations
  let d ← d.updateWitnessSchedule versions
  let d ← d.settle currentWitness
  d.processHardforks

/-! ### Genesis -/

/- The digits of a number. -/
def digits (n : Nat) : List Nat := (Nat.toDigits 10 n).map Char.toNat

/- "webuilder", "webuilder1", .. -/
def genesisAccountName (i : Nat) : Name :=
  fixedString (genesisAccountBasename ++ if i = 0 then [] else digits i)

def genesisAccounts : Nat := numberOfGenesisWitnessAccounts + numberOfExtraGenesisAccounts

/- The reserved accounts, then those that hold the supply. -/
def genesisAccountRow (supply : Int) (id : Nat) : Account :=
  if id = 0 then { id := id, name := minerAccount }
  else if id = 1 then { id := id, name := nullAccount }
  else if id = 2 then { id := id, name := tempAccount }
  else
    { id := id
      name := genesisAccountName (id - 3)
      balance := supply / genesisAccounts
      score := genesisAccountSCORE }

def genesisAuthorityRow (id : Nat) : AccountAuthority :=
  let closed : Authority := { weightThreshold := 1 }
  let init : Authority := { weightThreshold := 1, keyAuths := [(initPublicKey, 1)] }
  if id = 0 then { id := id, account := minerAccount, owner := closed, active := closed }
  else if id = 1 then { id := id, account := nullAccount, owner := closed, active := closed }
  else if id = 2 then { id := id, account := tempAccount }
  else
    { id := id
      account := genesisAccountName (id - 3)
      owner := init
      active := init
      posting := init }

def genesisWitnessRow (id : Nat) : Witness :=
  { id := id, owner := genesisAccountName id, signingKey := initPublicKey, schedule := .miner }

/-- `init_genesis` -/
def initGenesis (supply : Int) : Database where
  accounts := ⟨(List.range (genesisAccounts + 3)).map (genesisAccountRow supply),
    genesisAccounts + 3⟩
  authorities := ⟨(List.range (genesisAccounts + 3)).map genesisAuthorityRow, genesisAccounts + 3⟩
  witnesses := ⟨(List.range numberOfGenesisWitnessAccounts).map genesisWitnessRow,
    numberOfGenesisWitnessAccounts⟩
  gpo :=
    { time := genesisTime
      recentSlotsFilled := two128 - 1
      participationCount := 128
      currentSupply := supply
      virtualSupply := supply
      maximumBlockSize := maxBlockSize
      totalSCORE := genesisAccountSCORE * genesisAccounts }
  hardforks := { processedHardforks := [genesisTime] }
  schedule := { currentShuffledWitnesses :=
    genesisAccountName 0 :: List.replicate (maxWitnesses - 1) 0 }

end Database

namespace ChainState

/-- `init_genesis` -/
def initGenesis (supply : Int) : ChainState :=
  { db := Database.initGenesis supply, currentWitness := Database.genesisAccountName 0 }

/-! ### Transactions -/

/-- `is_known_transaction` -/
def isKnownTransaction (s : ChainState) (id : Hash) : Bool :=
  (s.transactions.find fun t => t.trxId == id).isSome

/- What a transaction has to satisfy before its operations are applied. -/
def checkTransaction (env : Env) (skip : Skip) (s : ChainState) (t : Transaction) :
    Result Unit := do
  if !skip.validate then
    require (0 < t.operations.length) "A transaction must have at least one operation"
    t.operations.forM (Operation.validate env)
  require (skip.transactionDupeCheck || !s.isKnownTransaction (env.trxId t))
    "Duplicate transaction check failed"
  if !(skip.transactionSignatures || skip.authorityCheck) then s.db.checkAuthorities env t
  s.db.checkExpiration skip t

/-- `_apply_transaction` -/
def applyTransaction (env : Env) (skip : Skip) (s : ChainState) (t : Transaction) :
    Result ChainState := do
  s.checkTransaction env skip t
  let transactions := if skip.transactionDupeCheck then s.transactions
    else s.transactions.create fun id => ⟨id, env.trxId t, t.expiration⟩
  let db ← t.operations.foldlM (Database.applyOperation s.currentWitness) s.db
  return { s with db := db, transactions := transactions }

/-- `clear_expired_transactions` -/
def clearExpiredTransactions (s : ChainState) : ChainState :=
  { s with transactions := { s.transactions with
    rows := s.transactions.rows.filter fun t => decide (s.db.headBlockTime ≤ t.expiration) } }

/-! ### Versions -/

def setVersion (s : ChainState) (witness : Name) (v : WitnessVersion) : ChainState :=
  { s with versions := fun name => if name = witness then v else s.versions name }

def processHeaderExtension (witness : Name) (s : ChainState) : HeaderExtension → ChainState
  | .void => s
  | .version v => s.setVersion witness { s.versions witness with runningVersion := v }
  | .hardforkVersionVote version time => s.setVersion witness { s.versions witness with
    hardforkVersionVote := withoutRelease version
    hardforkTimeVote := time }

/-- `process_header_extensions`; the witness was found by the check of the header. -/
def processHeaderExtensions (s : ChainState) (b : Block) : ChainState :=
  b.extensions.foldl (processHeaderExtension b.witness) s

/- A witness has to run the current hardfork. -/
def checkVersion (s : ChainState) (witness : Name) : Result Unit :=
  if s.db.hasHardfork 5 then
    require (s.db.hardforks.currentHardforkVersion ≤ (s.versions witness).runningVersion)
      "Block produced by witness that is not running current hardfork"
  else .ok ()

/-! ### Blocks -/

/- What a block has to satisfy before it is the current one. -/
def checkBlock (env : Env) (skip : Skip) (s : ChainState) (b : Block) : Result Unit := do
  if !skip.merkleCheck then Database.checkMerkle env b
  s.db.validateBlockHeader env skip b
  if s.db.hasHardfork 12 then
    require (env.packSize b ≤ s.db.gpo.maximumBlockSize) "Block Size is too Big"

/- `_apply_block` up to its transactions. -/
def startBlock (env : Env) (skip : Skip) (s : ChainState) (b : Block) : Result ChainState := do
  s.checkBlock env skip b
  let s := processHeaderExtensions { s with currentWitness := b.witness } b
  s.checkVersion b.witness
  return s

/- `_apply_block` after its transactions. -/
def finishBlock (env : Env) (skip : Skip) (s : ChainState) (b : Block) : Result ChainState := do
  let d ← s.db.updateGlobalDynamicData env skip b
  let d ← d.updateSigningWitness b
  let d ← d.updateLastIrreversibleBlock
  let s := clearExpiredTransactions { s with db := d.createBlockSummary env b }
  let d ← s.db.endBlock s.currentWitness s.versions
  return { s with db := d }

/-- `_apply_block` -/
def applyBlock (env : Env) (skip : Skip) (s : ChainState) (b : Block) : Result ChainState := do
  let s ← s.startBlock env skip b
  let s ← b.transactions.foldlM (applyTransaction env skip) s
  s.finishBlock env skip b

/-- The states a node reaches: the genesis state, and what a block makes of a state reached. -/
inductive Reachable (env : Env) : ChainState → Prop where
  | genesis : Reachable env (initGenesis initSupply)
  | block {s s' : ChainState} (b : Block) (h : Reachable env s)
    (hb : s.applyBlock env .nothing b = .ok s') : Reachable env s'

end ChainState

end WeNode.Chain
