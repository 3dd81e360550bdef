import WeNode.Chain.Objects
import Mathlib.Data.List.Sort

/-!
# State of the chain database

The objects that libraries/chain/database.cpp keeps, and the lookups and changes every function of
the chain makes.  A reference to an account or a witness is its name, a reference to another
object its id, so that reading through it finds the row as it is at that moment.  What only the
application of blocks and the check for duplicates keep is in `ChainState`.
-/

namespace WeNode.Chain

open WeNode.Lib

structure Database where
  accounts : Table Account := {}
  authorities : Table AccountAuthority := {}
  witnesses : Table Witness := {}
  witnessVotes : Table WitnessVote := {}
  comments : Table Comment := {}
  commentVotes : Table CommentVote := {}
  limitOrders : Table LimitOrder := {}
  convertRequests : Table ConvertRequest := {}
  escrows : Table Escrow := {}
  savingsWithdraws : Table SavingsWithdraw := {}
  liquidityRewards : Table LiquidityRewardBalance := {}
  withdrawRoutes : Table WithdrawRoute := {}
  declineRequests : Table DeclineVotingRightsRequest := {}
  rewardFunds : Table RewardFund := {}
  delegations : Table Delegation := {}
  delegationExpirations : Table DelegationExpiration := {}
  ownerHistory : Table OwnerAuthorityHistory := {}
  recoveryRequests : Table AccountRecoveryRequest := {}
  changeRecoveryRequests : Table ChangeRecoveryAccountRequest := {}
  /-- `block_summary_object`: the id of the last block whose number ends in these 16 bits -/
  blockSummaries : Nat → Hash := fun _ => 0
  schedule : WitnessSchedule := {}
  gpo : GlobalProperties := {}
  feed : FeedHistory := {}
  hardforks : HardforkProperties := {}

/-- The object a lookup found; `get` throws where there is none. -/
def found {α : Type} : Option α → Result α
  | some x => .ok x
  | none => .error .notFound

theorem found_ok {α : Type} {o : Option α} {x : α} (h : found o = .ok x) : o = some x := by
  cases o with
  | none => cases h
  | some y =>
    cases h
    rfl

namespace Database

def headBlockTime (d : Database) : Time := d.gpo.time
def headBlockNum (d : Database) : Nat := d.gpo.headBlockNumber

def hasHardfork (d : Database) (hardfork : Nat) : Bool :=
  decide (hardfork < d.hardforks.processedHardforks.length)

/- Seconds from `t` to the head block; a difference of two times is signed. -/
def secondsSince (d : Database) (t : Time) : Int := (d.headBlockTime : Int) - t

/-! ### Lookups -/

def findAccount (d : Database) (name : Name) : Option Account :=
  d.accounts.find fun a => a.name == name

def getAccount (d : Database) (name : Name) : Result Account := found (d.findAccount name)

def getAccountById (d : Database) (id : Nat) : Result Account :=
  found (d.accounts.find fun a => a.id == id)

def getAuthority (d : Database) (name : Name) : Result AccountAuthority :=
  found (d.authorities.find fun a => a.account == name)

def findWitness (d : Database) (owner : Name) : Option Witness :=
  d.witnesses.find fun w => w.owner == owner

def getWitness (d : Database) (owner : Name) : Result Witness := found (d.findWitness owner)

def getWitnessById (d : Database) (id : Nat) : Result Witness :=
  found (d.witnesses.find fun w => w.id == id)

/- `strcmp_less` compares permlinks up to their first zero. -/
def cString (s : Bytes) : Bytes := s.takeWhile (· != 0)

def findComment (d : Database) (author : Name) (permlink : Bytes) : Option Comment :=
  d.comments.find fun c => c.author == author && cString c.permlink == cString permlink

def getComment (d : Database) (author : Name) (permlink : Bytes) : Result Comment :=
  found (d.findComment author permlink)

def getCommentById (d : Database) (id : Nat) : Result Comment :=
  found (d.comments.find fun c => c.id == id)

def getLimitOrder (d : Database) (name : Name) (orderId : Nat) : Result LimitOrder :=
  found (d.limitOrders.find fun o => o.seller == name && o.orderId == orderId)

def getEscrow (d : Database) (name : Name) (escrowId : Nat) : Result Escrow :=
  found (d.escrows.find fun e => e.fromAccount == name && e.escrowId == escrowId)

def findSavingsWithdraw (d : Database) (owner : Name) (requestId : Nat) : Option SavingsWithdraw :=
  d.savingsWithdraws.find fun s => s.fromAccount == owner && s.requestId == requestId

/- The fund of every comment is the one for posts. -/
def getRewardFund (d : Database) : Result RewardFund :=
  found (d.rewardFunds.find fun f => f.name == postRewardFundName)

/-! ### Changes -/

def modifyAccount (d : Database) (name : Name) (f : Account → Result Account) :
    Result Database := do
  let accounts ← d.accounts.modify .notFound (fun a => a.name == name) f
  return { d with accounts := accounts }

def modifyAuthority (d : Database) (name : Name) (f : AccountAuthority → AccountAuthority) :
    Result Database := do
  let authorities ← d.authorities.modify .notFound (fun a => a.account == name)
    fun a => .ok (f a)
  return { d with authorities := authorities }

def modifyWitness (d : Database) (owner : Name) (f : Witness → Result Witness) :
    Result Database := do
  let witnesses ← d.witnesses.modify .notFound (fun w => w.owner == owner) f
  return { d with witnesses := witnesses }

def modifyComment (d : Database) (id : Nat) (f : Comment → Result Comment) :
    Result Database := do
  let comments ← d.comments.modify .notFound (fun c => c.id == id) f
  return { d with comments := comments }

def modifyCommentVote (d : Database) (id : Nat) (f : CommentVote → Result CommentVote) :
    Result Database := do
  let votes ← d.commentVotes.modify .notFound (fun v => v.id == id) f
  return { d with commentVotes := votes }

def modifyLimitOrder (d : Database) (id : Nat) (f : LimitOrder → Result LimitOrder) :
    Result Database := do
  let orders ← d.limitOrders.modify .notFound (fun o => o.id == id) f
  return { d with limitOrders := orders }

def modifyEscrow (d : Database) (id : Nat) (f : Escrow → Result Escrow) : Result Database := do
  let escrows ← d.escrows.modify .notFound (fun e => e.id == id) f
  return { d with escrows := escrows }

def modifyRewardFund (d : Database) (id : Nat) (f : RewardFund → Result RewardFund) :
    Result Database := do
  let funds ← d.rewardFunds.modify .notFound (fun r => r.id == id) f
  return { d with rewardFunds := funds }

def modifyGpo (d : Database) (f : GlobalProperties → Result GlobalProperties) :
    Result Database := do
  let gpo ← f d.gpo
  return { d with gpo := gpo }

/- A unique index refuses a second row with the name of another account. -/
def createAccount (d : Database) (name : Name) (f : Account → Account) : Result Database := do
  if (d.findAccount name).isSome then .error .duplicate
  return { d with accounts := d.accounts.create fun id => f { id := id, name := name } }

def createWitness (d : Database) (owner : Name) (f : Witness → Witness) : Result Database := do
  if (d.findWitness owner).isSome then .error .duplicate
  return { d with witnesses := d.witnesses.create fun id => f { id := id, owner := owner } }

end Database

/-! ### Orders of the indexes -/

/- The rows of a table in the order of an index that compares a first and then a second key. -/
def sortOn {α : Type} (first second : α → Nat) (l : List α) : List α :=
  l.insertionSort fun a b => first a < first b ∨ first a = first b ∧ second a ≤ second b

end WeNode.Chain
