import Mathlib
import WeNode.Chain.Specs

/-!
# The core of the state

Most functions of the chain move amounts between balances and keep accounts of votes, prices and
rewards.  The core is what they leave as it is: the clock, the hardforks, the schedule, who is an
account or a witness, what is delegated and withdrawn, and the tables of orders and requests.  A
function's rule here says which parts of the core it may change.
-/

set_option mvcgen.warning false

namespace WeNode.Chain

open WeNode.Lib Std.Do

/-- `by_permlink`: what a comment is found by -/
structure CommentKey where
  author : Name
  permlink : Bytes
  deriving DecidableEq

/-- The place of a comment in its discussion. -/
structure CommentNode where
  id : Nat
  created : Time
  key : CommentKey
  parent : Option CommentKey
  depth : Nat
  root : Nat

/-- What the votes of a comment add up to. -/
structure CommentTally where
  id : Nat
  lastPayout : Time
  netSCOREreward : Int
  voteSCOREreward : Int
  netVotes : Int
  totalVoteWeight : Nat

/-- What an account counts of its objects. -/
structure AccountCounts where
  id : Nat
  name : Name
  witnessesVotedFor : Nat
  withdrawRoutes : Nat
  savingsWithdrawRequests : Nat

/-- The queue of the miners: what was and what is counted, and the place of every witness. -/
structure Mining where
  totalPow : Nat
  count : Nat
  workers : List (Name × Nat)

structure Core where
  time : Time
  headBlockNum : Nat
  headBlockId : Hash
  /-- the slot of the head block, the record of the last slots and how many it has filled -/
  slots : Nat × Nat × Nat
  lastIrreversible : Nat
  /-- the hardforks applied, the last of them and its version -/
  hardforks : List Time × Nat × Nat
  /-- the hardfork voted for and its time -/
  nextHardfork : Nat × Time
  requiredWitnesses : Nat
  /-- the witnesses that produce the blocks of a round -/
  scheduled : List Name
  /-- how many witnesses of each kind are scheduled -/
  limits : Nat × Nat × Nat
  maximumBlockSize : Nat
  /-- the id and the owner of every witness, the size of blocks it votes for and its last block -/
  witnesses : List (Nat × Name × Nat × Nat)
  nextWitness : Nat
  mining : Mining
  witnessVotes : Table WitnessVote
  /-- the name of every account with the SCORE it delegates and receives -/
  accounts : List (Name × Int × Int)
  /-- the SCORE every account is to withdraw, and has withdrawn -/
  withdrawals : List (Int × Int)
  counts : List AccountCounts
  nextAccount : Nat
  /-- the name, the voting power and the time of the last vote of every account -/
  powers : List (Name × Nat × Time)
  /-- the account and the owner of every authority -/
  ownerAuthorities : List (Name × Authority)
  authorities : List AccountAuthority
  ownerHistory : Table OwnerAuthorityHistory
  recoveryRequests : Table AccountRecoveryRequest
  limitOrders : Table LimitOrder
  delegations : Table Delegation
  delegationExpirations : Table DelegationExpiration
  withdrawRoutes : Table WithdrawRoute
  convertRequests : Table ConvertRequest
  escrows : Table Escrow
  savingsWithdraws : Table SavingsWithdraw
  comments : List CommentNode
  nextComment : Nat
  /-- how many replies every comment counts below it -/
  children : List (CommentKey × Nat)
  tallies : List CommentTally
  commentVotes : Table CommentVote
  /-- the id, the name and the curve for curators of every reward fund -/
  rewardFunds : List (Nat × Name × CurveId)
  nextRewardFund : Nat

def Account.delegation (a : Account) : Name × Int × Int :=
  (a.name, a.scoreDelegated, a.scoreReceived)

def Account.withdrawal (a : Account) : Int × Int := (a.toWithdraw, a.withdrawn)

def Account.counts (a : Account) : AccountCounts where
  id := a.id
  name := a.name
  witnessesVotedFor := a.witnessesVotedFor
  withdrawRoutes := a.withdrawRoutes
  savingsWithdrawRequests := a.savingsWithdrawRequests

def Account.power (a : Account) : Name × Nat × Time := (a.name, a.votingPower, a.lastVoteTime)

def AccountAuthority.ownership (a : AccountAuthority) : Name × Authority := (a.account, a.owner)

def Witness.worker (w : Witness) : Name × Nat := (w.owner, w.powWorker)

def Witness.key (w : Witness) : Nat × Name × Nat × Nat :=
  (w.id, w.owner, w.props.maximumBlockSize, w.lastConfirmedBlockNum)

def HardforkProperties.applied (h : HardforkProperties) : List Time × Nat × Nat :=
  (h.processedHardforks, h.lastHardfork, h.currentHardforkVersion)

def HardforkProperties.next (h : HardforkProperties) : Nat × Time :=
  (h.nextHardfork, h.nextHardforkTime)

def GlobalProperties.slots (g : GlobalProperties) : Nat × Nat × Nat :=
  (g.currentAslot, g.recentSlotsFilled, g.participationCount)

def WitnessSchedule.limits (s : WitnessSchedule) : Nat × Nat × Nat :=
  (s.maxVotedWitnesses, s.maxMinerWitnesses, s.maxRunnerWitnesses)

def RewardFund.key (r : RewardFund) : Nat × Name × CurveId := (r.id, r.name, r.curationRewardCurve)

namespace Comment

def key (c : Comment) : CommentKey := ⟨c.author, Database.cString c.permlink⟩

def parentKey (c : Comment) : Option CommentKey :=
  if c.parentAuthor = rootPostParent then none
  else some ⟨c.parentAuthor, Database.cString c.parentPermlink⟩

def node (c : Comment) : CommentNode where
  id := c.id
  created := c.created
  key := c.key
  parent := c.parentKey
  depth := c.depth
  root := c.rootComment

def counter (c : Comment) : CommentKey × Nat := (c.key, c.children)

def tally (c : Comment) : CommentTally where
  id := c.id
  lastPayout := c.lastPayout
  netSCOREreward := c.netSCOREreward
  voteSCOREreward := c.voteSCOREreward
  netVotes := c.netVotes
  totalVoteWeight := c.totalVoteWeight

end Comment

namespace Database

def core (d : Database) : Core where
  time := d.gpo.time
  headBlockNum := d.gpo.headBlockNumber
  headBlockId := d.gpo.headBlockId
  slots := d.gpo.slots
  lastIrreversible := d.gpo.lastIrreversibleBlockNum
  hardforks := d.hardforks.applied
  nextHardfork := d.hardforks.next
  requiredWitnesses := d.schedule.hardforkRequiredWitnesses
  scheduled := d.schedule.currentShuffledWitnesses.take d.schedule.numScheduledWitnesses
  limits := d.schedule.limits
  maximumBlockSize := d.gpo.maximumBlockSize
  witnesses := d.witnesses.rows.map Witness.key
  nextWitness := d.witnesses.nextId
  mining := ⟨d.gpo.totalPow, d.gpo.numPowWitnesses, d.witnesses.rows.map Witness.worker⟩
  witnessVotes := d.witnessVotes
  accounts := d.accounts.rows.map Account.delegation
  withdrawals := d.accounts.rows.map Account.withdrawal
  counts := d.accounts.rows.map Account.counts
  nextAccount := d.accounts.nextId
  powers := d.accounts.rows.map Account.power
  ownerAuthorities := d.authorities.rows.map AccountAuthority.ownership
  authorities := d.authorities.rows
  ownerHistory := d.ownerHistory
  recoveryRequests := d.recoveryRequests
  limitOrders := d.limitOrders
  delegations := d.delegations
  delegationExpirations := d.delegationExpirations
  withdrawRoutes := d.withdrawRoutes
  convertRequests := d.convertRequests
  escrows := d.escrows
  savingsWithdraws := d.savingsWithdraws
  comments := d.comments.rows.map Comment.node
  nextComment := d.comments.nextId
  children := d.comments.rows.map Comment.counter
  tallies := d.comments.rows.map Comment.tally
  commentVotes := d.commentVotes
  rewardFunds := d.rewardFunds.rows.map RewardFund.key
  nextRewardFund := d.rewardFunds.nextId

/-! ### Direct changes -/

section

variable (d : Database)

theorem hasHardfork_core (d : Database) (n : Nat) :
    d.hasHardfork n = decide (n < d.core.hardforks.1.length) := rfl

@[simp] theorem core_authorities (t) :
    core { d with authorities := t } =
      { d.core with
        ownerAuthorities := t.rows.map AccountAuthority.ownership
        authorities := t.rows } := rfl
@[simp] theorem core_witnessVotes (t) :
    core { d with witnessVotes := t } = { d.core with witnessVotes := t } := rfl
@[simp] theorem core_removeWitnessVotes (account : Nat) :
    (d.removeWitnessVotes account).core =
      { d.core with witnessVotes := (d.removeWitnessVotes account).witnessVotes } := rfl
@[simp] theorem core_comments (t) :
    core { d with comments := t } = { d.core with
      comments := t.rows.map Comment.node
      nextComment := t.nextId
      children := t.rows.map Comment.counter
      tallies := t.rows.map Comment.tally } := rfl
@[simp] theorem core_commentVotes (t) :
    core { d with commentVotes := t } = { d.core with commentVotes := t } := rfl
@[simp] theorem core_liquidityRewards (t) : core { d with liquidityRewards := t } = d.core := rfl
@[simp] theorem core_declineRequests (t) : core { d with declineRequests := t } = d.core := rfl
@[simp] theorem core_ownerHistory (t) :
    core { d with ownerHistory := t } = { d.core with ownerHistory := t } := rfl
@[simp] theorem core_recoveryRequests (t) :
    core { d with recoveryRequests := t } = { d.core with recoveryRequests := t } := rfl
@[simp] theorem core_changeRecoveryRequests (t) :
    core { d with changeRecoveryRequests := t } = d.core := rfl
@[simp] theorem core_blockSummaries (t) : core { d with blockSummaries := t } = d.core := rfl
@[simp] theorem core_feed (t) : core { d with feed := t } = d.core := rfl

end

theorem of_modify {α : Type} {t : Table α} {e : Exception} {key : α → Bool} {f : α → Result α}
    {d' : Database} {g : Table α → Database}
    (h : (do let t' ← t.modify e key f; return g t') = .ok d') :
    ∃ t', t.modify e key f = .ok t' ∧ d' = g t' := by
  cases ht : t.modify e key f with
  | error e =>
    rw [ht] at h
    cases h
  | ok t' =>
    rw [ht] at h
    cases h
    exact ⟨t', rfl, rfl⟩

/-- A change of one row of a table that the core sees through `g` only. -/
theorem map_modify {α β : Type} {t t' : Table α} {e : Exception} {key : α → Bool}
    {f : α → Result α} {g : α → β} (h : t.modify e key f = .ok t')
    (hf : ∀ a, ⦃⌜True⌝⦄ f a ⦃⇓? b => ⌜g b = g a⌝⦄) :
    t'.rows.map g = t.rows.map g ∧ t'.nextId = t.nextId := by
  obtain ⟨x, y, hxy, hrep, hn⟩ := Table.modify_ok h
  exact ⟨hrep.map_eq (of_triple (hf x) trivial hxy), hn⟩

variable {d : Database}

theorem modifyAccount_core {name : Name} {f : Account → Result Account}
    (hf : ∀ a, ⦃⌜True⌝⦄ f a ⦃⇓? b => ⌜b.delegation = a.delegation⌝⦄)
    (hw : ∀ a, ⦃⌜True⌝⦄ f a ⦃⇓? b => ⌜b.withdrawal = a.withdrawal⌝⦄)
    (hc : ∀ a, ⦃⌜True⌝⦄ f a ⦃⇓? b => ⌜b.counts = a.counts⌝⦄)
    (hp : ∀ a, ⦃⌜True⌝⦄ f a ⦃⇓? b => ⌜b.power = a.power⌝⦄) :
    ⦃⌜True⌝⦄ d.modifyAccount name f ⦃⇓? d' => ⌜d'.core = d.core⌝⦄ := by
  apply triple_of
  intro _ d' h
  unfold modifyAccount at h
  obtain ⟨t, ht, rfl⟩ := of_modify h
  simp [core, (map_modify ht hf).1, (map_modify ht hw).1, (map_modify ht hc).1,
    (map_modify ht hc).2, (map_modify ht hp).1]

/-- A change of an account that the core sees only in what the account counts. -/
theorem modifyAccount_counts {name : Name} {f : Account → Result Account}
    (hf : ∀ a, ⦃⌜True⌝⦄ f a ⦃⇓? b => ⌜b.delegation = a.delegation⌝⦄)
    (hw : ∀ a, ⦃⌜True⌝⦄ f a ⦃⇓? b => ⌜b.withdrawal = a.withdrawal⌝⦄)
    (hp : ∀ a, ⦃⌜True⌝⦄ f a ⦃⇓? b => ⌜b.power = a.power⌝⦄) :
    ⦃⌜True⌝⦄ d.modifyAccount name f
      ⦃⇓? d' => ⌜d'.core = { d.core with counts := d'.core.counts }⌝⦄ := by
  apply triple_of
  intro _ d' h
  unfold modifyAccount at h
  obtain ⟨t, ht, rfl⟩ := of_modify h
  simp [core, (map_modify ht hf).1, (map_modify ht hf).2, (map_modify ht hw).1,
    (map_modify ht hp).1]

/-- A change of an account that the core sees only in the power it votes with. -/
theorem modifyAccount_powers {name : Name} {f : Account → Result Account}
    (hf : ∀ a, ⦃⌜True⌝⦄ f a ⦃⇓? b => ⌜b.delegation = a.delegation⌝⦄)
    (hw : ∀ a, ⦃⌜True⌝⦄ f a ⦃⇓? b => ⌜b.withdrawal = a.withdrawal⌝⦄)
    (hc : ∀ a, ⦃⌜True⌝⦄ f a ⦃⇓? b => ⌜b.counts = a.counts⌝⦄) :
    ⦃⌜True⌝⦄ d.modifyAccount name f
      ⦃⇓? d' => ⌜d'.core = { d.core with powers := d'.core.powers }⌝⦄ := by
  apply triple_of
  intro _ d' h
  unfold modifyAccount at h
  obtain ⟨t, ht, rfl⟩ := of_modify h
  simp [core, (map_modify ht hf).1, (map_modify ht hw).1, (map_modify ht hc).1,
    (map_modify ht hc).2]

theorem modifyWitness_core {owner : Name} {f : Witness → Result Witness}
    (hf : ∀ w, ⦃⌜True⌝⦄ f w ⦃⇓? w' => ⌜w'.key = w.key⌝⦄)
    (hm : ∀ w, ⦃⌜True⌝⦄ f w ⦃⇓? w' => ⌜w'.worker = w.worker⌝⦄) :
    ⦃⌜True⌝⦄ d.modifyWitness owner f ⦃⇓? d' => ⌜d'.core = d.core⌝⦄ := by
  apply triple_of
  intro _ d' h
  unfold modifyWitness at h
  obtain ⟨t, ht, rfl⟩ := of_modify h
  simp [core, (map_modify ht hf).1, (map_modify ht hf).2, (map_modify ht hm).1]

/-- A change of a witness that leaves its place in the queue of the miners. -/
theorem modifyWitness_keys {owner : Name} {f : Witness → Result Witness}
    (hm : ∀ w, ⦃⌜True⌝⦄ f w ⦃⇓? w' => ⌜w'.worker = w.worker⌝⦄) :
    ⦃⌜True⌝⦄ d.modifyWitness owner f
      ⦃⇓? d' => ⌜d'.core = { d.core with witnesses := d'.core.witnesses }⌝⦄ := by
  apply triple_of
  intro _ d' h
  unfold modifyWitness at h
  obtain ⟨t, ht, rfl⟩ := of_modify h
  simp [core, (map_modify ht hm).1, (map_modify ht hm).2]

/-- A change of the place of a witness in the queue of the miners. -/
theorem modifyWitness_mining {owner : Name} {f : Witness → Result Witness}
    (hf : ∀ w, ⦃⌜True⌝⦄ f w ⦃⇓? w' => ⌜w'.key = w.key⌝⦄) :
    ⦃⌜True⌝⦄ d.modifyWitness owner f
      ⦃⇓? d' => ⌜d'.core = { d.core with mining := d'.core.mining }⌝⦄ := by
  apply triple_of
  intro _ d' h
  unfold modifyWitness at h
  obtain ⟨t, ht, rfl⟩ := of_modify h
  simp [core, (map_modify ht hf).1, (map_modify ht hf).2]

theorem modifyWitness_witnesses {owner : Name} {f : Witness → Result Witness} :
    ⦃⌜True⌝⦄ d.modifyWitness owner f
      ⦃⇓? d' => ⌜d'.core = { d.core with
        witnesses := d'.core.witnesses
        mining := d'.core.mining }⌝⦄ := by
  apply triple_of
  intro _ d' h
  unfold modifyWitness at h
  obtain ⟨t, ht, rfl⟩ := of_modify h
  obtain ⟨_, _, _, -, hn⟩ := Table.modify_ok ht
  simp [core, hn]

theorem modifyRewardFund_core {id : Nat} {f : RewardFund → Result RewardFund}
    (hf : ∀ r, ⦃⌜True⌝⦄ f r ⦃⇓? r' => ⌜r'.key = r.key⌝⦄) :
    ⦃⌜True⌝⦄ d.modifyRewardFund id f ⦃⇓? d' => ⌜d'.core = d.core⌝⦄ := by
  apply triple_of
  intro _ d' h
  unfold modifyRewardFund at h
  obtain ⟨t, ht, rfl⟩ := of_modify h
  simp [core, (map_modify ht hf).1, (map_modify ht hf).2]

theorem modifyRewardFund_rewardFunds {id : Nat} {f : RewardFund → Result RewardFund} :
    ⦃⌜True⌝⦄ d.modifyRewardFund id f
      ⦃⇓? d' => ⌜d'.core = { d.core with rewardFunds := d'.core.rewardFunds }⌝⦄ := by
  apply triple_of
  intro _ d' h
  unfold modifyRewardFund at h
  obtain ⟨t, ht, rfl⟩ := of_modify h
  obtain ⟨_, _, _, -, hn⟩ := Table.modify_ok ht
  simp [core, hn]

theorem modifyGpo_core {f : GlobalProperties → Result GlobalProperties}
    (hf : ∀ g, ⦃⌜True⌝⦄ f g
      ⦃⇓? g' => ⌜g'.time = g.time ∧ g'.headBlockNumber = g.headBlockNumber ∧
        g'.headBlockId = g.headBlockId ∧ g'.maximumBlockSize = g.maximumBlockSize ∧
        g'.slots = g.slots ∧ g'.lastIrreversibleBlockNum = g.lastIrreversibleBlockNum ∧
        g'.totalPow = g.totalPow ∧ g'.numPowWitnesses = g.numPowWitnesses⌝⦄) :
    ⦃⌜True⌝⦄ d.modifyGpo f ⦃⇓? d' => ⌜d'.core = d.core⌝⦄ := by
  apply triple_of
  intro _ d' h
  unfold modifyGpo at h
  cases hg : f d.gpo with
  | error e =>
    rw [hg] at h
    cases h
  | ok g =>
    rw [hg] at h
    cases h
    obtain ⟨htime, hnum, hid, hsize, hslots, hlast, hpow, hcount⟩ := of_triple (hf _) trivial hg
    simp [core, htime, hnum, hid, hsize, hslots, hlast, hpow, hcount]

theorem modifyAuthority_core {name : Name} {f : AccountAuthority → AccountAuthority}
    (hf : ∀ a, (f a).ownership = a.ownership) :
    ⦃⌜True⌝⦄ d.modifyAuthority name f
      ⦃⇓? d' => ⌜d'.core = { d.core with authorities := d'.core.authorities }⌝⦄ := by
  apply triple_of
  intro _ d' h
  unfold modifyAuthority at h
  obtain ⟨t, ht, rfl⟩ := of_modify h
  obtain ⟨x, y, hxy, hrep, -⟩ := Table.modify_ok ht
  cases hxy
  simp [core, hrep.map_eq (hf x)]

theorem modifyAuthority_ownerAuthorities {name : Name} {f : AccountAuthority → AccountAuthority} :
    ⦃⌜True⌝⦄ d.modifyAuthority name f
      ⦃⇓? d' => ⌜d'.core = { d.core with
        ownerAuthorities := d'.core.ownerAuthorities
        authorities := d'.core.authorities }⌝⦄ := by
  apply triple_of
  intro _ d' h
  unfold modifyAuthority at h
  obtain ⟨t, -, rfl⟩ := of_modify h
  rfl

theorem modifyComment_core {id : Nat} {f : Comment → Result Comment}
    (hn : ∀ c, ⦃⌜True⌝⦄ f c ⦃⇓? c' => ⌜c'.node = c.node⌝⦄)
    (hc : ∀ c, ⦃⌜True⌝⦄ f c ⦃⇓? c' => ⌜c'.counter = c.counter⌝⦄)
    (ht : ∀ c, ⦃⌜True⌝⦄ f c ⦃⇓? c' => ⌜c'.tally = c.tally⌝⦄) :
    ⦃⌜True⌝⦄ d.modifyComment id f ⦃⇓? d' => ⌜d'.core = d.core⌝⦄ := by
  apply triple_of
  intro _ d' h
  unfold modifyComment at h
  obtain ⟨t, hrow, rfl⟩ := of_modify h
  simp [core, (map_modify hrow hn).1, (map_modify hrow hn).2, (map_modify hrow hc).1,
    (map_modify hrow ht).1]

/-- A change of a comment that leaves its place and what it counts below it. -/
theorem modifyComment_tallies {id : Nat} {f : Comment → Result Comment}
    (hn : ∀ c, ⦃⌜True⌝⦄ f c ⦃⇓? c' => ⌜c'.node = c.node⌝⦄)
    (hc : ∀ c, ⦃⌜True⌝⦄ f c ⦃⇓? c' => ⌜c'.counter = c.counter⌝⦄) :
    ⦃⌜True⌝⦄ d.modifyComment id f
      ⦃⇓? d' => ⌜d'.core = { d.core with tallies := d'.core.tallies }⌝⦄ := by
  apply triple_of
  intro _ d' h
  unfold modifyComment at h
  obtain ⟨t, hrow, rfl⟩ := of_modify h
  simp [core, (map_modify hrow hn).1, (map_modify hrow hn).2, (map_modify hrow hc).1]

/-- A change of a comment that leaves its place and its votes. -/
theorem modifyComment_children {id : Nat} {f : Comment → Result Comment}
    (hn : ∀ c, ⦃⌜True⌝⦄ f c ⦃⇓? c' => ⌜c'.node = c.node⌝⦄)
    (ht : ∀ c, ⦃⌜True⌝⦄ f c ⦃⇓? c' => ⌜c'.tally = c.tally⌝⦄) :
    ⦃⌜True⌝⦄ d.modifyComment id f
      ⦃⇓? d' => ⌜d'.core = { d.core with children := d'.core.children }⌝⦄ := by
  apply triple_of
  intro _ d' h
  unfold modifyComment at h
  obtain ⟨t, hrow, rfl⟩ := of_modify h
  simp [core, (map_modify hrow hn).1, (map_modify hrow hn).2, (map_modify hrow ht).1]

theorem modifyCommentVote_core {id : Nat} {f : CommentVote → Result CommentVote} :
    ⦃⌜True⌝⦄ d.modifyCommentVote id f
      ⦃⇓? d' => ⌜d'.core = { d.core with commentVotes := d'.commentVotes }⌝⦄ := by
  apply triple_of
  intro _ d' h
  unfold modifyCommentVote at h
  obtain ⟨t, -, rfl⟩ := of_modify h
  rfl

/-! ### Votes -/

theorem adjustWitnessVote_core {witness : Name} {delta : Int} :
    ⦃⌜True⌝⦄ d.adjustWitnessVote witness delta ⦃⇓? d' => ⌜d'.core = d.core⌝⦄ := by
  mvcgen [adjustWitnessVote, modifyWitness_core]

theorem adjustWitnessVotes_core {name : Name} {delta : Int} :
    ⦃⌜True⌝⦄ d.adjustWitnessVotes name delta ⦃⇓? d' => ⌜d'.core = d.core⌝⦄ := by
  mvcgen [adjustWitnessVotes, adjustWitnessVote_core] invariants
  · ⇓? ⟨_, d'⟩ => ⌜d'.core = d.core⌝
  all_goals simp_all

theorem walkProxies_core {change : Fin maxProxyRecursionDepth → Account → Result Account}
    {total : Nat → Result Int} {l : List (Fin maxProxyRecursionDepth)} {name : Name}
    (hf : ∀ i a, ⦃⌜True⌝⦄ change i a ⦃⇓? b => ⌜b.delegation = a.delegation⌝⦄)
    (hw : ∀ i a, ⦃⌜True⌝⦄ change i a ⦃⇓? b => ⌜b.withdrawal = a.withdrawal⌝⦄)
    (hc : ∀ i a, ⦃⌜True⌝⦄ change i a ⦃⇓? b => ⌜b.counts = a.counts⌝⦄)
    (hp : ∀ i a, ⦃⌜True⌝⦄ change i a ⦃⇓? b => ⌜b.power = a.power⌝⦄) :
    ⦃⌜True⌝⦄ walkProxies change total l d name ⦃⇓? d' => ⌜d'.core = d.core⌝⦄ := by
  have hadjustWitnessVotes := @adjustWitnessVotes_core
  have ht : ∀ n, ⦃⌜True⌝⦄ total n ⦃⇓? r => ⌜total n = .ok r⌝⦄ := fun _ => triple_ok
  induction l generalizing d name with
  | nil => mvcgen [walkProxies, hadjustWitnessVotes, ht]
  | cons depth rest ih =>
    have hm : ∀ (d : Database) n, ⦃⌜True⌝⦄ d.modifyAccount n (change depth)
        ⦃⇓? d' => ⌜d'.core = d.core⌝⦄ := fun d n =>
      modifyAccount_core (hf depth) (hw depth) (hc depth) (hp depth)
    mvcgen [walkProxies, hadjustWitnessVotes, ht, hm, ih]
    simp_all

theorem addProxiedVote_spec {a : Account} {i : Fin maxProxyRecursionDepth} {delta : Int} :
    ⦃⌜True⌝⦄ a.addProxiedVote i delta
      ⦃⇓? b => ⌜b = a.setProxiedVote i (a.proxiedVotes i + delta)⌝⦄ := by
  mvcgen [Account.addProxiedVote]
  simp_all

theorem adjustProxiedWitnessVotes_core {name : Name} {delta : Int} :
    ⦃⌜True⌝⦄ d.adjustProxiedWitnessVotes name delta ⦃⇓? d' => ⌜d'.core = d.core⌝⦄ := by
  apply walkProxies_core
  all_goals
    intro i a
    mvcgen [addProxiedVote_spec]
    simp_all [Account.setProxiedVote, Account.delegation, Account.withdrawal, Account.counts,
      Account.power]

theorem adjustProxiedWitnessVotesArray_core {name : Name} {delta : Fin (maxProxyRecursionDepth + 1) → Int} :
    ⦃⌜True⌝⦄ d.adjustProxiedWitnessVotesArray name delta ⦃⇓? d' => ⌜d'.core = d.core⌝⦄ := by
  apply walkProxies_core
  · intro i a
    mvcgen [addProxiedVote_spec] invariants
    · ⇓? ⟨_, b⟩ => ⌜b.delegation = a.delegation⌝
    all_goals simp_all [Account.setProxiedVote, Account.delegation]
  · intro i a
    mvcgen [addProxiedVote_spec] invariants
    · ⇓? ⟨_, b⟩ => ⌜b.withdrawal = a.withdrawal⌝
    all_goals simp_all [Account.setProxiedVote, Account.withdrawal]
  · intro i a
    mvcgen [addProxiedVote_spec] invariants
    · ⇓? ⟨_, b⟩ => ⌜b.counts = a.counts⌝
    all_goals simp_all [Account.setProxiedVote, Account.counts]
  · intro i a
    mvcgen [addProxiedVote_spec] invariants
    · ⇓? ⟨_, b⟩ => ⌜b.power = a.power⌝
    all_goals simp_all [Account.setProxiedVote, Account.power]

theorem clearWitnessVotes_core {name : Name} :
    ⦃⌜True⌝⦄ d.clearWitnessVotes name
      ⦃⇓? d' => ⌜d'.core = { d.core with
        counts := d'.core.counts
        witnessVotes := d'.witnessVotes }⌝⦄ := by
  mvcgen [clearWitnessVotes, modifyAccount_counts]
  all_goals grind [core, core_removeWitnessVotes]

/-! ### Balances -/

theorem payInterest_core {paid : Option Int} :
    ⦃⌜True⌝⦄ d.payInterest paid ⦃⇓? d' => ⌜d'.core = d.core⌝⦄ := by
  mvcgen [payInterest, modifyGpo_core]

theorem adjustBalance_core {name : Name} {delta : Asset} :
    ⦃⌜True⌝⦄ d.adjustBalance name delta ⦃⇓? d' => ⌜d'.core = d.core⌝⦄ := by
  have hpayInterest := @payInterest_core
  mvcgen [adjustBalance, modifyAccount_core, hpayInterest]
  simp_all

theorem adjustTMEsavingsBalance_core {name : Name} {delta : Asset} :
    ⦃⌜True⌝⦄ d.adjustTMEsavingsBalance name delta ⦃⇓? d' => ⌜d'.core = d.core⌝⦄ := by
  have hpayInterest := @payInterest_core
  mvcgen [adjustTMEsavingsBalance, modifyAccount_core, hpayInterest]
  simp_all

theorem adjustRewardBalance_core {name : Name} {delta : Asset} :
    ⦃⌜True⌝⦄ d.adjustRewardBalance name delta ⦃⇓? d' => ⌜d'.core = d.core⌝⦄ := by
  mvcgen [adjustRewardBalance, modifyAccount_core]

theorem adjustSupply_core {delta : Asset} {adjustFund : Bool} :
    ⦃⌜True⌝⦄ d.adjustSupply delta adjustFund ⦃⇓? d' => ⌜d'.core = d.core⌝⦄ := by
  mvcgen [adjustSupply, modifyGpo_core]

theorem createTSD_core {name : Name} {tme : Asset} {reward : Bool} :
    ⦃⌜True⌝⦄ d.createTSD name tme reward ⦃⇓? r => ⌜r.1.core = d.core⌝⦄ := by
  have hadjustBalance := @adjustBalance_core
  have hadjustRewardBalance := @adjustRewardBalance_core
  have hadjustSupply := @adjustSupply_core
  mvcgen [createTSD, adjustPayout, hadjustBalance, hadjustRewardBalance, hadjustSupply]
  all_goals simp_all

theorem createTMEfundForSCORE_core {name : Name} {tme : Asset} {reward : Bool} :
    ⦃⌜True⌝⦄ d.createTMEfundForSCORE name tme reward ⦃⇓? r => ⌜r.1.core = d.core⌝⦄ := by
  mvcgen [createTMEfundForSCORE, modifyAccount_core, modifyGpo_core,
    adjustProxiedWitnessVotes_core]
  all_goals simp_all

/-! ### Orders -/

theorem modifyLimitOrder_core {id : Nat} {f : LimitOrder → Result LimitOrder} :
    ⦃⌜True⌝⦄ d.modifyLimitOrder id f ⦃⇓? d' => ⌜d'.core = { d.core with limitOrders := d'.limitOrders }⌝⦄ := by
  apply triple_of
  intro _ d' h
  unfold modifyLimitOrder at h
  obtain ⟨t, -, rfl⟩ := of_modify h
  rfl

@[simp] theorem core_removeLimitOrder (d : Database) (id : Nat) :
    (d.removeLimitOrder id).core =
      { d.core with limitOrders := (d.removeLimitOrder id).limitOrders } := rfl

theorem adjustLiquidityReward_core {owner : Nat} {volume : Asset} {isSdb : Bool} :
    ⦃⌜True⌝⦄ d.adjustLiquidityReward owner volume isSdb ⦃⇓? d' => ⌜d'.core = d.core⌝⦄ := by
  mvcgen [adjustLiquidityReward]

theorem rewardLiquidity_core {new old : LimitOrder} {a b : Asset} :
    ⦃⌜True⌝⦄ d.rewardLiquidity new old a b ⦃⇓? d' => ⌜d'.core = d.core⌝⦄ := by
  mvcgen [rewardLiquidity, adjustLiquidityReward_core]
  all_goals simp_all

theorem cancelOrder_core {id : Nat} :
    ⦃⌜True⌝⦄ d.cancelOrder id ⦃⇓? d' => ⌜d'.core = { d.core with limitOrders := d'.limitOrders }⌝⦄ := by
  mvcgen [cancelOrder, adjustBalance_core]
  simp_all

theorem fillOrder_core {id : Nat} {pays receives : Asset} :
    ⦃⌜True⌝⦄ d.fillOrder id pays receives
      ⦃⇓? r => ⌜r.1.core = { d.core with limitOrders := r.1.limitOrders }⌝⦄ := by
  mvcgen [fillOrder, adjustBalance_core, modifyLimitOrder_core, cancelOrder_core]
  all_goals simp_all

theorem matchOrders_core {new old : Nat} :
    ⦃⌜True⌝⦄ d.matchOrders new old ⦃⇓? r => ⌜r.1.core = { d.core with limitOrders := r.1.limitOrders }⌝⦄ := by
  have hrewardLiquidity := @rewardLiquidity_core
  have hfillOrder := @fillOrder_core
  mvcgen [matchOrders, hrewardLiquidity, hfillOrder]
  all_goals simp_all

theorem matchLoop_core {id : Nat} {l : List LimitOrder} :
    ⦃⌜True⌝⦄ matchLoop id l d ⦃⇓? d' => ⌜d'.core = { d.core with limitOrders := d'.limitOrders }⌝⦄ := by
  have hmatchOrders := @matchOrders_core
  induction l generalizing d with
  | nil => mvcgen [matchLoop]
  | cons old rest ih =>
    mvcgen [matchLoop, hmatchOrders, ih]
    all_goals simp_all

theorem applyOrder_core {id : Nat} :
    ⦃⌜True⌝⦄ d.applyOrder id ⦃⇓? r => ⌜r.1.core = { d.core with limitOrders := r.1.limitOrders }⌝⦄ := by
  have hmatchLoop := @matchLoop_core
  mvcgen [applyOrder, hmatchLoop]

theorem clearExpiredOrders_core :
    ⦃⌜True⌝⦄ d.clearExpiredOrders ⦃⇓? d' => ⌜d'.core = { d.core with limitOrders := d'.limitOrders }⌝⦄ := by
  mvcgen [clearExpiredOrders, cancelOrder_core] invariants
  · ⇓? ⟨_, d'⟩ => ⌜d'.core = { d.core with limitOrders := d'.limitOrders }⌝
  all_goals simp_all

end Database
end WeNode.Chain
