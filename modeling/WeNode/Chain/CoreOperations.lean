import Mathlib
import WeNode.Chain.CoreFunds
import WeNode.Chain.CoreHardforks

/-!
# The core through the operations
-/

set_option mvcgen.warning false

namespace WeNode.Chain

open WeNode.Lib Std.Do Database

variable {d : Database}

/-! ### Transfers -/

theorem modifyEscrow_core {id : Nat} {f : Escrow → Result Escrow} :
    ⦃⌜True⌝⦄ d.modifyEscrow id f
      ⦃⇓? d' => ⌜d'.core = { d.core with escrows := d'.escrows }⌝⦄ := by
  apply triple_of
  intro _ d' h
  unfold modifyEscrow at h
  obtain ⟨t, -, rfl⟩ := of_modify h
  rfl

theorem EscrowTransferOperation.apply_core {o : EscrowTransferOperation} :
    ⦃⌜True⌝⦄ o.apply d
      ⦃⇓? d' => ⌜d'.core = { d.core with escrows := d'.escrows }⌝⦄ := by
  mvcgen [EscrowTransferOperation.apply, adjustBalance_core]
  all_goals grind [core]

theorem EscrowApproveOperation.apply_core {o : EscrowApproveOperation} :
    ⦃⌜True⌝⦄ o.apply d
      ⦃⇓? d' => ⌜d'.core = { d.core with escrows := d'.escrows }⌝⦄ := by
  have hmodifyEscrow := @modifyEscrow_core
  mvcgen [EscrowApproveOperation.apply, hmodifyEscrow, refundEscrow_core, adjustBalance_core]
  all_goals grind [core]

theorem EscrowDisputeOperation.apply_core {o : EscrowDisputeOperation} :
    ⦃⌜True⌝⦄ o.apply d
      ⦃⇓? d' => ⌜d'.core = { d.core with escrows := d'.escrows }⌝⦄ := by
  have hmodifyEscrow := @modifyEscrow_core
  mvcgen [EscrowDisputeOperation.apply, hmodifyEscrow]

theorem EscrowReleaseOperation.apply_core {o : EscrowReleaseOperation} :
    ⦃⌜True⌝⦄ o.apply d
      ⦃⇓? d' => ⌜d'.core = { d.core with escrows := d'.escrows }⌝⦄ := by
  have hmodifyEscrow := @modifyEscrow_core
  mvcgen [EscrowReleaseOperation.apply, hmodifyEscrow, adjustBalance_core]
  all_goals grind [core]

theorem TransferOperation.apply_core {o : TransferOperation} :
    ⦃⌜True⌝⦄ o.apply d ⦃⇓? d' => ⌜d'.core = d.core⌝⦄ := by
  mvcgen [TransferOperation.apply, modifyAccount_core, adjustBalance_core]
  all_goals simp_all

theorem TransferTMEtoSCOREfundOperation.apply_core {o : TransferTMEtoSCOREfundOperation} :
    ⦃⌜True⌝⦄ o.apply d ⦃⇓? d' => ⌜d'.core = d.core⌝⦄ := by
  mvcgen [TransferTMEtoSCOREfundOperation.apply, createTMEfundForSCORE_core, adjustBalance_core]
  all_goals simp_all

theorem WithdrawSCOREoperation.apply_core {o : WithdrawSCOREoperation} :
    ⦃⌜True⌝⦄ o.apply d
      ⦃⇓? d' => ⌜d'.core = { d.core with withdrawals := d'.core.withdrawals }⌝⦄ := by
  mvcgen [WithdrawSCOREoperation.apply, modifyAccount_withdrawals, stopWithdrawal, startWithdrawal]

theorem SetWithdrawSCOREasTMErouteOperation.apply_core {o : SetWithdrawSCOREasTMErouteOperation} :
    ⦃⌜True⌝⦄ o.apply d
      ⦃⇓? d' => ⌜d'.core = { d.core with
        counts := d'.core.counts
        withdrawRoutes := d'.withdrawRoutes }⌝⦄ := by
  mvcgen [SetWithdrawSCOREasTMErouteOperation.apply, SetWithdrawSCOREasTMErouteOperation.setRoute,
    modifyAccount_counts]
  all_goals grind [core]

theorem ConvertOperation.apply_core {o : ConvertOperation} :
    ⦃⌜True⌝⦄ o.apply d
      ⦃⇓? d' => ⌜d'.core = { d.core with convertRequests := d'.convertRequests }⌝⦄ := by
  mvcgen [ConvertOperation.apply, adjustBalance_core]
  all_goals grind [core]

theorem createOrder_core {owner : Name} {id : Nat} {sell : Asset} {price : Result Price} {kill : Bool} {t : Time} :
    ⦃⌜True⌝⦄ createOrder d owner id sell price kill t
      ⦃⇓? d' => ⌜d'.core = { d.core with limitOrders := d'.limitOrders }⌝⦄ := by
  have hp : ⦃⌜True⌝⦄ price ⦃⇓? p => ⌜price = .ok p⌝⦄ := triple_ok
  mvcgen [createOrder, adjustBalance_core, hp, applyOrder_core]
  all_goals grind [core]

theorem LimitOrderCreateOperation.apply_core {o : LimitOrderCreateOperation} :
    ⦃⌜True⌝⦄ o.apply d
      ⦃⇓? d' => ⌜d'.core = { d.core with limitOrders := d'.limitOrders }⌝⦄ := by
  exact createOrder_core

theorem LimitOrderCreate2Operation.apply_core {o : LimitOrderCreate2Operation} :
    ⦃⌜True⌝⦄ o.apply d
      ⦃⇓? d' => ⌜d'.core = { d.core with limitOrders := d'.limitOrders }⌝⦄ := by
  exact createOrder_core

theorem LimitOrderCancelOperation.apply_core {o : LimitOrderCancelOperation} :
    ⦃⌜True⌝⦄ o.apply d
      ⦃⇓? d' => ⌜d'.core = { d.core with limitOrders := d'.limitOrders }⌝⦄ := by
  mvcgen [LimitOrderCancelOperation.apply, cancelOrder_core]

theorem TransferToSavingsOperation.apply_core {o : TransferToSavingsOperation} :
    ⦃⌜True⌝⦄ o.apply d ⦃⇓? d' => ⌜d'.core = d.core⌝⦄ := by
  mvcgen [TransferToSavingsOperation.apply, adjustBalance_core, adjustTMEsavingsBalance_core]
  all_goals simp_all

theorem TransferFromSavingsOperation.apply_core {o : TransferFromSavingsOperation} :
    ⦃⌜True⌝⦄ o.apply d
      ⦃⇓? d' => ⌜d'.core = { d.core with
        counts := d'.core.counts
        savingsWithdraws := d'.savingsWithdraws }⌝⦄ := by
  mvcgen [TransferFromSavingsOperation.apply, adjustTMEsavingsBalance_core, modifyAccount_counts]
  all_goals grind [core]

theorem CancelTransferFromSavingsOperation.apply_core {o : CancelTransferFromSavingsOperation} :
    ⦃⌜True⌝⦄ o.apply d
      ⦃⇓? d' => ⌜d'.core = { d.core with
        counts := d'.core.counts
        savingsWithdraws := d'.savingsWithdraws }⌝⦄ := by
  mvcgen [CancelTransferFromSavingsOperation.apply, adjustTMEsavingsBalance_core, modifyAccount_counts]
  all_goals grind [core]

theorem ClaimRewardBalanceOperation.apply_core {o : ClaimRewardBalanceOperation} :
    ⦃⌜True⌝⦄ o.apply d ⦃⇓? d' => ⌜d'.core = d.core⌝⦄ := by
  mvcgen [ClaimRewardBalanceOperation.apply, adjustRewardBalance_core, adjustBalance_core, claimSCORE,
    modifyAccount_core, modifyGpo_core, adjustProxiedWitnessVotes_core]
  all_goals simp_all

theorem addDelegated_core {name : Name} {a : Asset} :
    ⦃⌜True⌝⦄ addDelegated d name a
      ⦃⇓? d' => ⌜d'.core = { d.core with accounts := d'.core.accounts }⌝⦄ := by
  mvcgen [addDelegated, modifyAccount_accounts]

theorem addReceived_core {name : Name} {a : Asset} :
    ⦃⌜True⌝⦄ addReceived d name a
      ⦃⇓? d' => ⌜d'.core = { d.core with accounts := d'.core.accounts }⌝⦄ := by
  mvcgen [addReceived, modifyAccount_accounts]

theorem setDelegation_core {id : Nat} {a : Asset} :
    ⦃⌜True⌝⦄ setDelegation d id a
      ⦃⇓? d' => ⌜d'.core = { d.core with delegations := d'.delegations }⌝⦄ := by
  mvcgen [setDelegation]

theorem DelegateSCOREoperation.lower_core {o : DelegateSCOREoperation} {v : Delegation} {a b : Asset} :
    ⦃⌜True⌝⦄ o.lower d v a b
      ⦃⇓? d' => ⌜d'.core = { d.core with
        accounts := d'.core.accounts
        delegations := d'.delegations
        delegationExpirations := d'.delegationExpirations }⌝⦄ := by
  mvcgen [DelegateSCOREoperation.lower, addReceived_core, setDelegation_core]
  all_goals grind [core]

theorem DelegateSCOREoperation.apply_core {o : DelegateSCOREoperation} :
    ⦃⌜True⌝⦄ o.apply d
      ⦃⇓? d' => ⌜d'.core = { d.core with
        accounts := d'.core.accounts
        delegations := d'.delegations
        delegationExpirations := d'.delegationExpirations }⌝⦄ := by
  have hlower := @DelegateSCOREoperation.lower_core
  mvcgen [DelegateSCOREoperation.apply, addDelegated_core, addReceived_core, setDelegation_core,
    hlower]
  all_goals grind [core]

/-! ### Accounts and witnesses -/

theorem createAccount_core {name : Name} {f : Account → Account} :
    ⦃⌜True⌝⦄ d.createAccount name f
      ⦃⇓? d' => ⌜d'.core = { d.core with
        accounts := d'.core.accounts
        withdrawals := d'.core.withdrawals
        counts := d'.core.counts
        nextAccount := d'.core.nextAccount
        powers := d'.core.powers }⌝⦄ := by
  mvcgen [createAccount]

@[simp] theorem core_createAuthority (d : Database) (name : Name) (a b c : Authority) :
    (createAuthority d name a b c).core =
      { d.core with
        ownerAuthorities := (createAuthority d name a b c).core.ownerAuthorities
        authorities := (createAuthority d name a b c).core.authorities } := rfl

/-- A witness is created where there is none of its owner. -/
theorem createWitness_ok {owner : Name} {f : Witness → Witness}
    (h : d.createWitness owner f = .ok d') :
    (∀ w ∈ d.witnesses.rows, w.owner ≠ owner) ∧
      d' = { d with witnesses := d.witnesses.create fun id => f { id := id, owner := owner } } := by
  unfold createWitness at h
  cases hfind : d.findWitness owner with
  | some w =>
    rw [hfind] at h
    cases h
  | none =>
    rw [hfind] at h
    cases h
    refine ⟨fun w hw howner => ?_, rfl⟩
    exact List.find?_eq_none.1 hfind w hw (beq_iff_eq.2 howner)

theorem createWitness_core {owner : Name} {f : Witness → Witness} :
    ⦃⌜True⌝⦄ d.createWitness owner f
      ⦃⇓? d' => ⌜d'.core = { d.core with
        witnesses := d'.core.witnesses
        nextWitness := d'.core.nextWitness
        mining := d'.core.mining }⌝⦄ := by
  mvcgen [createWitness]

theorem AccountCreateOperation.apply_core {o : AccountCreateOperation} :
    ⦃⌜True⌝⦄ o.apply d
      ⦃⇓? d' => ⌜d'.core = { d.core with
        accounts := d'.core.accounts
        withdrawals := d'.core.withdrawals
        counts := d'.core.counts
        nextAccount := d'.core.nextAccount
        powers := d'.core.powers
        ownerAuthorities := d'.core.ownerAuthorities
        authorities := d'.core.authorities }⌝⦄ := by
  mvcgen [AccountCreateOperation.apply, modifyAccount_core, createAccount_core,
    createTMEfundForSCORE_core]
  all_goals grind [core, core_createAuthority]

theorem AccountCreateWithDelegationOperation.apply_core {o : AccountCreateWithDelegationOperation} :
    ⦃⌜True⌝⦄ o.apply d
      ⦃⇓? d' => ⌜d'.core = { d.core with
        accounts := d'.core.accounts
        withdrawals := d'.core.withdrawals
        counts := d'.core.counts
        nextAccount := d'.core.nextAccount
        powers := d'.core.powers
        ownerAuthorities := d'.core.ownerAuthorities
        authorities := d'.core.authorities
        delegations := d'.delegations }⌝⦄ := by
  mvcgen [AccountCreateWithDelegationOperation.apply, modifyAccount_accounts, createAccount_core,
    createTMEfundForSCORE_core]
  all_goals grind [core, core_createAuthority]

theorem AccountUpdateOperation.updateOwner_core {o : AccountUpdateOperation} :
    ⦃⌜True⌝⦄ o.updateOwner d
      ⦃⇓? d' => ⌜d'.core = { d.core with
        ownerAuthorities := d'.core.ownerAuthorities
        authorities := d'.core.authorities
        ownerHistory := d'.ownerHistory }⌝⦄ := by
  mvcgen [AccountUpdateOperation.updateOwner, updateOwnerAuthority_core]

theorem checkIfAny_spec {a : Option Authority} {check : Authority → Result Unit} :
    ⦃⌜True⌝⦄ a.forM check ⦃⇓? _ => ⌜True⌝⦄ := triple_of fun _ _ _ => trivial

theorem setAuthorities_core {name : Name} {active posting : Option Authority} :
    ⦃⌜True⌝⦄ d.modifyAuthority name (fun a => { a with
        active := active.getD a.active
        posting := posting.getD a.posting })
      ⦃⇓? d' => ⌜d'.core = { d.core with authorities := d'.core.authorities }⌝⦄ :=
  modifyAuthority_core fun _ => rfl

theorem AccountUpdateOperation.apply_core {o : AccountUpdateOperation} :
    ⦃⌜True⌝⦄ o.apply d
      ⦃⇓? d' => ⌜d'.core = { d.core with
        ownerAuthorities := d'.core.ownerAuthorities
        authorities := d'.core.authorities
        ownerHistory := d'.ownerHistory }⌝⦄ := by
  mvcgen [AccountUpdateOperation.apply, AccountUpdateOperation.updateOwner_core, checkIfAny_spec,
    setAuthorities_core, modifyAccount_core]
  all_goals grind [core]

theorem WitnessUpdateOperation.apply_core {o : WitnessUpdateOperation} :
    ⦃⌜True⌝⦄ o.apply d
      ⦃⇓? d' => ⌜d'.core = { d.core with
        witnesses := d'.core.witnesses
        nextWitness := d'.core.nextWitness
        mining := d'.core.mining }⌝⦄ := by
  mvcgen [WitnessUpdateOperation.apply, modifyWitness_witnesses, createWitness_core]
  all_goals grind [core]

theorem FeedPublishOperation.apply_core {o : FeedPublishOperation} :
    ⦃⌜True⌝⦄ o.apply d ⦃⇓? d' => ⌜d'.core = d.core⌝⦄ := by
  mvcgen [FeedPublishOperation.apply, modifyWitness_core]

theorem AccountWitnessProxyOperation.apply_core {o : AccountWitnessProxyOperation} :
    ⦃⌜True⌝⦄ o.apply d
      ⦃⇓? d' => ⌜d'.core = { d.core with
        counts := d'.core.counts
        witnessVotes := d'.witnessVotes }⌝⦄ := by
  have hm : ∀ f : Fin (maxProxyRecursionDepth + 1) → Int,
      ⦃⌜True⌝⦄ (List.finRange (maxProxyRecursionDepth + 1)).mapM (fun i => safeNeg (f i))
      ⦃⇓? _ => ⌜True⌝⦄ := fun _ => triple_of fun _ _ _ => trivial
  mvcgen [AccountWitnessProxyOperation.apply, adjustProxiedWitnessVotesArray_core,
    clearWitnessVotes_core, modifyAccount_core, hm]
  all_goals grind [core]

theorem addWitnessVote_core {voter witness : Name} {weight : Int} :
    ⦃⌜True⌝⦄ addWitnessVote d voter witness weight ⦃⇓? d' => ⌜d'.core = d.core⌝⦄ := by
  mvcgen [addWitnessVote, adjustWitnessVote_core, adjustProxiedWitnessVotes_core, modifyWitness_core]

theorem AccountWitnessVoteOperation.apply_core {o : AccountWitnessVoteOperation} :
    ⦃⌜True⌝⦄ o.apply d
      ⦃⇓? d' => ⌜d'.core = { d.core with
        counts := d'.core.counts
        witnessVotes := d'.witnessVotes }⌝⦄ := by
  mvcgen [AccountWitnessVoteOperation.apply, addWitnessVote_core, modifyAccount_counts]
  all_goals grind [core]

theorem DeclineVotingRightsOperation.apply_core {o : DeclineVotingRightsOperation} :
    ⦃⌜True⌝⦄ o.apply d ⦃⇓? d' => ⌜d'.core = d.core⌝⦄ := by
  mvcgen [DeclineVotingRightsOperation.apply]

theorem createWorker_core {name recovery : Name} {key : PublicKey} :
    ⦃⌜True⌝⦄ createWorker d name key recovery
      ⦃⇓? d' => ⌜d'.core = { d.core with
        accounts := d'.core.accounts
        withdrawals := d'.core.withdrawals
        counts := d'.core.counts
        nextAccount := d'.core.nextAccount
        powers := d'.core.powers
        ownerAuthorities := d'.core.ownerAuthorities
        authorities := d'.core.authorities }⌝⦄ := by
  mvcgen [createWorker, createAccount_core]
  all_goals grind [core, core_createAuthority]

@[simp] theorem core_countPow (d : Database) :
    (countPow d).core = { d.core with mining := (countPow d).core.mining } := rfl

theorem enqueueWorker_core {name : Name} {key : PublicKey} {props : ChainProperties} {work : Hash} :
    ⦃⌜True⌝⦄ enqueueWorker d name key props work
      ⦃⇓? d' => ⌜d'.core = { d.core with
        witnesses := d'.core.witnesses
        nextWitness := d'.core.nextWitness
        mining := d'.core.mining }⌝⦄ := by
  mvcgen [enqueueWorker, modifyWitness_witnesses, createWitness_core]
  all_goals grind [core]

theorem payPow_core {w : Name} :
    ⦃⌜True⌝⦄ payPow d w ⦃⇓? d' => ⌜d'.core = d.core⌝⦄ := by
  mvcgen [payPow, adjustSupply_core, adjustBalance_core, createTMEfundForSCORE_core]
  all_goals simp_all

theorem PowOperation.apply_core {o : PowOperation} {w : Name} :
    ⦃⌜True⌝⦄ o.apply d w
      ⦃⇓? d' => ⌜d'.core = { d.core with
        accounts := d'.core.accounts
        withdrawals := d'.core.withdrawals
        counts := d'.core.counts
        nextAccount := d'.core.nextAccount
        powers := d'.core.powers
        ownerAuthorities := d'.core.ownerAuthorities
        authorities := d'.core.authorities
        witnesses := d'.core.witnesses
        nextWitness := d'.core.nextWitness
        mining := d'.core.mining }⌝⦄ := by
  have hcreateWorker := @createWorker_core
  have hpayPow := @payPow_core
  mvcgen [PowOperation.apply, hcreateWorker, enqueueWorker_core, hpayPow]
  all_goals grind [core, core_countPow]

theorem Pow2Operation.enqueue_core {o : Pow2Operation} :
    ⦃⌜True⌝⦄ o.enqueue d
      ⦃⇓? d' => ⌜d'.core = { d.core with
        accounts := d'.core.accounts
        withdrawals := d'.core.withdrawals
        counts := d'.core.counts
        nextAccount := d'.core.nextAccount
        powers := d'.core.powers
        ownerAuthorities := d'.core.ownerAuthorities
        authorities := d'.core.authorities
        witnesses := d'.core.witnesses
        nextWitness := d'.core.nextWitness
        mining := d'.core.mining }⌝⦄ := by
  have hcreateWorker := @createWorker_core
  mvcgen [Pow2Operation.enqueue, hcreateWorker, createWitness_core, modifyWitness_witnesses]
  all_goals grind [core]

theorem Pow2Operation.apply_core {o : Pow2Operation} {w : Name} :
    ⦃⌜True⌝⦄ o.apply d w
      ⦃⇓? d' => ⌜d'.core = { d.core with
        accounts := d'.core.accounts
        withdrawals := d'.core.withdrawals
        counts := d'.core.counts
        nextAccount := d'.core.nextAccount
        powers := d'.core.powers
        ownerAuthorities := d'.core.ownerAuthorities
        authorities := d'.core.authorities
        witnesses := d'.core.witnesses
        nextWitness := d'.core.nextWitness
        mining := d'.core.mining }⌝⦄ := by
  have henqueue := @Pow2Operation.enqueue_core
  mvcgen [Pow2Operation.apply, henqueue, adjustSupply_core, createTMEfundForSCORE_core]
  all_goals grind [core, core_countPow]

theorem ChallengeAuthorityOperation.apply_core {o : ChallengeAuthorityOperation} :
    ⦃⌜True⌝⦄ o.apply d ⦃⇓? d' => ⌜d'.core = d.core⌝⦄ := by
  mvcgen [ChallengeAuthorityOperation.apply, payChallenge, adjustBalance_core,
    createTMEfundForSCORE_core, modifyAccount_core]
  all_goals simp_all

theorem ProveAuthorityOperation.apply_core {o : ProveAuthorityOperation} :
    ⦃⌜True⌝⦄ o.apply d ⦃⇓? d' => ⌜d'.core = d.core⌝⦄ := by
  mvcgen [ProveAuthorityOperation.apply, modifyAccount_core]

theorem RequestAccountRecoveryOperation.apply_core {o : RequestAccountRecoveryOperation} :
    ⦃⌜True⌝⦄ o.apply d
      ⦃⇓? d' => ⌜d'.core = { d.core with recoveryRequests := d'.recoveryRequests }⌝⦄ := by
  mvcgen [RequestAccountRecoveryOperation.apply]

theorem RecoverAccountOperation.apply_core {o : RecoverAccountOperation} :
    ⦃⌜True⌝⦄ o.apply d
      ⦃⇓? d' => ⌜d'.core = { d.core with
        ownerAuthorities := d'.core.ownerAuthorities
        authorities := d'.core.authorities
        ownerHistory := d'.ownerHistory
        recoveryRequests := d'.recoveryRequests }⌝⦄ := by
  mvcgen [RecoverAccountOperation.apply, updateOwnerAuthority_core, modifyAccount_core]
  all_goals grind [core]

theorem ChangeRecoveryAccountOperation.apply_core {o : ChangeRecoveryAccountOperation} :
    ⦃⌜True⌝⦄ o.apply d ⦃⇓? d' => ⌜d'.core = d.core⌝⦄ := by
  mvcgen [ChangeRecoveryAccountOperation.apply]

/-! ### Comments and votes -/

/- A comment without its votes, counted no more by the comments above it. -/
def dropComment (d : Database) (c : Comment) : Result Database := do
  let d := { d with commentVotes := { d.commentVotes with
    rows := d.commentVotes.rows.filter fun v => v.comment != c.id } }
  let now := d.headBlockTime
  let d ← if d.hasHardfork 6 ∧ c.parentAuthor ≠ rootPostParent then
      walkParents (fun p => { p with children := decrement 32 p.children, active := now })
        (d.comments.rows.length + 1) d c.parentAuthor c.parentPermlink
    else pure d
  return { d with comments := d.comments.remove fun x => x.id == c.id }

theorem DeleteCommentOperation.apply_eq (o : DeleteCommentOperation) :
    o.apply d = (do
      if d.hasHardfork 10 then checkUnchallenged d (← d.getAccount o.author)
      let c ← d.getComment o.author o.permlink
      require (c.children = 0) "Cannot delete a comment with replies."
      if d.hasHardfork 19 then
        require (c.cashoutTime ≠ timeMax) "comment.cashout_time != fc::time_point_sec::maximum()"
        require (c.netSCOREreward ≤ 0) "Cannot delete a comment with net positive votes."
      if 0 < c.netSCOREreward then return d
      dropComment d c) := rfl

theorem DeleteCommentOperation.apply_spec {o : DeleteCommentOperation} :
    ⦃⌜True⌝⦄ o.apply d
      ⦃⇓? d' => ⌜∃ c, d.getComment o.author o.permlink = .ok c ∧ c.children = 0 ∧
        (d' = d ∨ dropComment d c = .ok d')⌝⦄ := by
  have hd : ∀ (d : Database) c, ⦃⌜True⌝⦄ dropComment d c
      ⦃⇓? d' => ⌜dropComment d c = .ok d'⌝⦄ := fun _ _ => triple_ok
  rw [DeleteCommentOperation.apply_eq]
  mvcgen [hd]
  all_goals grind

theorem dropComment_core {c : Comment} :
    ⦃⌜True⌝⦄ dropComment d c
      ⦃⇓? d' => ⌜d'.core = { d.core with
        comments := d'.core.comments
        children := d'.core.children
        tallies := d'.core.tallies
        commentVotes := d'.commentVotes }⌝⦄ := by
  mvcgen [dropComment, walkParents_core]
  all_goals first
    | exact fun _ => rfl
    | simp_all +zetaDelta [Table.remove, core]

theorem DeleteCommentOperation.apply_core {o : DeleteCommentOperation} :
    ⦃⌜True⌝⦄ o.apply d
      ⦃⇓? d' => ⌜d'.core = { d.core with
        comments := d'.core.comments
        children := d'.core.children
        tallies := d'.core.tallies
        commentVotes := d'.commentVotes }⌝⦄ := by
  apply triple_of
  intro _ d' h
  obtain ⟨c, -, -, rfl | hd⟩ := of_triple DeleteCommentOperation.apply_spec trivial h
  · rfl
  · exact of_triple dropComment_core trivial hd

theorem CommentOptionsOperation.apply_core {o : CommentOptionsOperation} :
    ⦃⌜True⌝⦄ o.apply d ⦃⇓? d' => ⌜d'.core = d.core⌝⦄ := by
  mvcgen [CommentOptionsOperation.apply, modifyComment_core, addBeneficiaries]
  all_goals grind

/- A comment, created and counted by the comments above it. -/
def CommentOperation.place (o : CommentOperation) (d : Database) (parent : Option Comment)
    (weight : Nat) (now : Time) : Result Database :=
  let d := { d with comments := d.comments.create (o.newComment d parent weight) }
  match parent with
  | none => .ok d
  | some p => walkParents (fun c => { c with children := (c.children + 1) % two32, active := now })
      (d.comments.rows.length + 1) d p.author p.permlink

theorem CommentOperation.create_spec {o : CommentOperation} {a : Account}
    {parent : Option Comment} :
    ⦃⌜True⌝⦄ o.create d a parent
      ⦃⇓? d' => ⌜∃ d₁ weight now, d₁.core = d.core ∧ o.place d₁ parent weight now = .ok d'⌝⦄ := by
  have hw : ∀ f fuel (d : Database) author permlink, ⦃⌜True⌝⦄ walkParents f fuel d author permlink
      ⦃⇓? d' => ⌜walkParents f fuel d author permlink = .ok d'⌝⦄ := fun _ _ _ _ _ => triple_ok
  cases parent with
  | none =>
    mvcgen [CommentOperation.create, modifyAccount_core]
    all_goals exact ⟨_, _, 0, ‹_›, rfl⟩
  | some p =>
    mvcgen [CommentOperation.create, modifyAccount_core, hw]
    all_goals exact fun hwalk => ⟨_, _, _, ‹_›, hwalk⟩

theorem CommentOperation.place_core {o : CommentOperation} {parent : Option Comment} {weight : Nat}
    {now : Time} :
    ⦃⌜True⌝⦄ o.place d parent weight now
      ⦃⇓? d' => ⌜d'.core = { d.core with
        comments := d'.core.comments
        nextComment := d'.core.nextComment
        children := d'.core.children
        tallies := d'.core.tallies }⌝⦄ := by
  mvcgen [CommentOperation.place, walkParents_core]
  all_goals first
    | exact fun _ => rfl
    | simp_all +zetaDelta [core]

theorem CommentOperation.create_core {o : CommentOperation} {a : Account}
    {parent : Option Comment} :
    ⦃⌜True⌝⦄ o.create d a parent
      ⦃⇓? d' => ⌜d'.core = { d.core with
        comments := d'.core.comments
        nextComment := d'.core.nextComment
        children := d'.core.children
        tallies := d'.core.tallies }⌝⦄ := by
  apply triple_of
  intro _ d' h
  obtain ⟨d₁, weight, now, hd₁, hplace⟩ := of_triple CommentOperation.create_spec trivial h
  rw [of_triple CommentOperation.place_core trivial hplace, hd₁]

theorem CommentOperation.edit_core {o : CommentOperation} {c : Comment} :
    ⦃⌜True⌝⦄ o.edit d c ⦃⇓? d' => ⌜d'.core = d.core⌝⦄ := by
  mvcgen [CommentOperation.edit, modifyComment_core]

theorem CommentOperation.apply_core {o : CommentOperation} :
    ⦃⌜True⌝⦄ o.apply d
      ⦃⇓? d' => ⌜d'.core = { d.core with
        comments := d'.core.comments
        nextComment := d'.core.nextComment
        children := d'.core.children
        tallies := d'.core.tallies }⌝⦄ := by
  have hedit := @CommentOperation.edit_core
  mvcgen [CommentOperation.apply, CommentOperation.create_core, hedit]
  all_goals grind [core]

theorem spendPower_core {voter : Name} {p : VotePower} :
    ⦃⌜True⌝⦄ spendPower d voter p
      ⦃⇓? d' => ⌜d'.core = { d.core with powers := d'.core.powers }⌝⦄ := by
  mvcgen [spendPower, modifyAccount_powers]

theorem claimVotes_core {old new : Int} :
    ⦃⌜True⌝⦄ claimVotes d old new ⦃⇓? d' => ⌜d'.core = d.core⌝⦄ := by
  mvcgen [claimVotes]

theorem VoteOperation.newVote_core {o : VoteOperation} {c : Comment} {a : Account}
    {p : VotePower} :
    ⦃⌜True⌝⦄ o.newVote d c a p
      ⦃⇓? d' => ⌜d'.core = { d.core with
        powers := d'.core.powers
        tallies := d'.core.tallies
        commentVotes := d'.commentVotes }⌝⦄ := by
  mvcgen [VoteOperation.newVote, spendPower_core, modifyComment_tallies, claimVotes_core,
    countVote, voteRoot]
  all_goals grind [core]

theorem VoteOperation.changeVote_core {o : VoteOperation} {c : Comment} {v : CommentVote}
    {p : VotePower} :
    ⦃⌜True⌝⦄ o.changeVote d c v p
      ⦃⇓? d' => ⌜d'.core = { d.core with
        powers := d'.core.powers
        tallies := d'.core.tallies
        commentVotes := d'.commentVotes }⌝⦄ := by
  mvcgen [VoteOperation.changeVote, spendPower_core, modifyComment_tallies, modifyCommentVote_core,
    claimVotes_core, voteRoot]
  all_goals grind [core]

theorem VoteOperation.apply_core {o : VoteOperation} :
    ⦃⌜True⌝⦄ o.apply d
      ⦃⇓? d' => ⌜d'.core = { d.core with
        powers := d'.core.powers
        tallies := d'.core.tallies
        commentVotes := d'.commentVotes }⌝⦄ := by
  have hnewVote := @VoteOperation.newVote_core
  have hchangeVote := @VoteOperation.changeVote_core
  mvcgen [VoteOperation.apply, hnewVote, hchangeVote]

/-! ### Operations -/

/- The properties of the chain that an operation brings for a witness. -/
def Operation.props : Operation → Option ChainProperties
  | .witnessUpdate op => some op.props
  | .pow op => some op.props
  | .pow2 op => some op.props
  | _ => none

/- The operations on escrows. -/
def Operation.onEscrow : Operation → Bool
  | .escrowTransfer _ => true
  | .escrowApprove _ => true
  | .escrowDispute _ => true
  | .escrowRelease _ => true
  | _ => false

/- The operations that add and delete comments. -/
def Operation.onComment : Operation → Bool
  | .comment _ => true
  | .deleteComment _ => true
  | _ => false

/- The operations on the votes of a comment. -/
def Operation.onVote : Operation → Bool
  | .vote _ => true
  | o => o.onComment

/- The operation on withdraw routes. -/
def Operation.onRoute : Operation → Bool
  | .setWithdrawSCOREasTMEroute _ => true
  | _ => false

/- The operations on requests to recover an account, and those that change an owner authority. -/
def Operation.onRecovery : Operation → Bool
  | .requestAccountRecovery _ => true
  | .recoverAccount _ => true
  | _ => false

def Operation.onOwner : Operation → Bool
  | .accountUpdate _ => true
  | .recoverAccount _ => true
  | _ => false

/- The operations that create accounts. -/
def Operation.creates : Operation → Bool
  | .accountCreate _ => true
  | .accountCreateWithDelegation _ => true
  | .pow _ => true
  | .pow2 _ => true
  | _ => false

/- The operations on the votes for witnesses. -/
def Operation.onBallot : Operation → Bool
  | .accountWitnessVote _ => true
  | .accountWitnessProxy _ => true
  | _ => false

/- The operations on withdrawals from savings. -/
def Operation.onSavings : Operation → Bool
  | .transferFromSavings _ => true
  | .cancelTransferFromSavings _ => true
  | _ => false

/- The operation that votes for a comment. -/
def Operation.votes : Operation → Bool
  | .vote _ => true
  | _ => false

/- The operations on limit orders. -/
def Operation.onOrder : Operation → Bool
  | .limitOrderCreate _ => true
  | .limitOrderCreate2 _ => true
  | .limitOrderCancel _ => true
  | _ => false

theorem applyOperation_core {w : Name} {o : Operation} :
    ⦃⌜True⌝⦄ applyOperation w d o
      ⦃⇓? d' => ⌜d'.core = { d.core with
        accounts := d'.core.accounts
        withdrawals := d'.core.withdrawals
        witnesses := if o.props = none then d.core.witnesses else d'.core.witnesses
        nextWitness := if o.props = none then d.core.nextWitness else d'.core.nextWitness
        mining := if o.props = none then d.core.mining else d'.core.mining
        witnessVotes := if o.onBallot then d'.witnessVotes else d.witnessVotes
        counts := if o.creates || o.onBallot || o.onRoute || o.onSavings then d'.core.counts
          else d.core.counts
        nextAccount := if o.creates then d'.core.nextAccount else d.core.nextAccount
        powers := if o.creates || o.votes then d'.core.powers else d.core.powers
        ownerAuthorities := if o.creates || o.onOwner then d'.core.ownerAuthorities
          else d.core.ownerAuthorities
        authorities := if o.creates || o.onOwner then d'.core.authorities
          else d.core.authorities
        ownerHistory := if o.onOwner then d'.ownerHistory else d.ownerHistory
        recoveryRequests := if o.onRecovery then d'.recoveryRequests else d.recoveryRequests
        limitOrders := if o.onOrder then d'.limitOrders else d.limitOrders
        delegations := d'.delegations
        delegationExpirations := d'.delegationExpirations
        withdrawRoutes := if o.onRoute then d'.withdrawRoutes else d.withdrawRoutes
        convertRequests := d'.convertRequests
        escrows := if o.onEscrow then d'.core.escrows else d.core.escrows
        savingsWithdraws := if o.onSavings then d'.savingsWithdraws else d.savingsWithdraws
        comments := if o.onComment then d'.core.comments else d.core.comments
        nextComment := if o.onComment then d'.core.nextComment else d.core.nextComment
        children := if o.onComment then d'.core.children else d.core.children
        tallies := if o.onVote then d'.core.tallies else d.core.tallies
        commentVotes := if o.onVote then d'.commentVotes else d.commentVotes }⌝⦄ := by
  mvcgen [applyOperation, VoteOperation.apply_core, CommentOperation.apply_core,
    TransferOperation.apply_core, TransferTMEtoSCOREfundOperation.apply_core,
    WithdrawSCOREoperation.apply_core, LimitOrderCreateOperation.apply_core,
    LimitOrderCancelOperation.apply_core, FeedPublishOperation.apply_core,
    ConvertOperation.apply_core, AccountCreateOperation.apply_core,
    AccountUpdateOperation.apply_core, WitnessUpdateOperation.apply_core,
    AccountWitnessVoteOperation.apply_core, AccountWitnessProxyOperation.apply_core,
    PowOperation.apply_core, DeleteCommentOperation.apply_core,
    CommentOptionsOperation.apply_core, SetWithdrawSCOREasTMErouteOperation.apply_core,
    LimitOrderCreate2Operation.apply_core, ChallengeAuthorityOperation.apply_core,
    ProveAuthorityOperation.apply_core, RequestAccountRecoveryOperation.apply_core,
    RecoverAccountOperation.apply_core, ChangeRecoveryAccountOperation.apply_core,
    EscrowTransferOperation.apply_core, EscrowDisputeOperation.apply_core,
    EscrowReleaseOperation.apply_core, Pow2Operation.apply_core,
    EscrowApproveOperation.apply_core, TransferToSavingsOperation.apply_core,
    TransferFromSavingsOperation.apply_core, CancelTransferFromSavingsOperation.apply_core,
    DeclineVotingRightsOperation.apply_core, ClaimRewardBalanceOperation.apply_core,
    DelegateSCOREoperation.apply_core, AccountCreateWithDelegationOperation.apply_core]
  all_goals grind [core, Operation.props, Operation.onEscrow, Operation.onComment, Operation.onVote,
    Operation.onRoute, Operation.onOrder, Operation.onRecovery, Operation.onOwner,
    Operation.creates, Operation.onBallot, Operation.onSavings, Operation.votes]

end WeNode.Chain
