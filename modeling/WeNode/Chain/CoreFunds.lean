import Mathlib
import WeNode.Chain.Core

/-!
# The core through payouts and end-of-block processing
-/

set_option mvcgen.warning false

namespace WeNode.Chain

open WeNode.Lib Std.Do

namespace Database

variable {d : Database}

/-! ### Payout of comments -/

theorem walkParents_core {f : Comment → Comment} {fuel : Nat} {author : Name} {permlink : Bytes}
    (hn : ∀ c, (f c).node = c.node) (ht : ∀ c, (f c).tally = c.tally) :
    ⦃⌜True⌝⦄ walkParents f fuel d author permlink
      ⦃⇓? d' => ⌜d'.core = { d.core with children := d'.core.children }⌝⦄ := by
  have hm : ∀ (d : Database) id, ⦃⌜True⌝⦄ d.modifyComment id (fun c => .ok (f c))
      ⦃⇓? d' => ⌜d'.core = { d.core with children := d'.core.children }⌝⦄ := fun d id =>
    modifyComment_children (fun c => by mvcgen; exact hn c) (fun c => by mvcgen; exact ht c)
  induction fuel generalizing d author permlink with
  | zero => mvcgen [walkParents]
  | succ fuel ih =>
    mvcgen [walkParents, hm, ih]
    all_goals grind [core]

@[simp] theorem core_adjustSCOREreward2 (d : Database) (old new : Nat) :
    (d.adjustSCOREreward2 old new).core = d.core := rfl

theorem adjustTotalPayout_core {comment : Nat} {a b c : Asset} :
    ⦃⌜True⌝⦄ d.adjustTotalPayout comment a b c ⦃⇓? d' => ⌜d'.core = d.core⌝⦄ := by
  mvcgen [adjustTotalPayout, modifyComment_core]

@[local spec] theorem payCurator_core {x : Int} {n : Nat} {s : Database × Int} {v : CommentVote} :
    ⦃⌜True⌝⦄ payCurator x n s v ⦃⇓? r => ⌜r.1.core = s.1.core⌝⦄ := by
  mvcgen [payCurator, createTMEfundForSCORE_core, modifyAccount_core]
  all_goals simp_all

@[local spec] theorem payCurators_core {c : Comment} {x : Int} :
    ⦃⌜True⌝⦄ d.payCurators c x ⦃⇓? r => ⌜r.1.core = d.core⌝⦄ := by
  mvcgen [payCurators] invariants
  · ⇓? ⟨_, s⟩ => ⌜s.1.core = d.core⌝
  all_goals simp_all

@[local spec] theorem payBeneficiary_core {x : Int} {s : Database × Int} {b : Beneficiary} :
    ⦃⌜True⌝⦄ payBeneficiary x s b ⦃⇓? r => ⌜r.1.core = s.1.core⌝⦄ := by
  mvcgen [payBeneficiary, createTMEfundForSCORE_core]

@[local spec] theorem payComment_core {c : Comment} {n : Nat} :
    ⦃⌜True⌝⦄ d.payComment c n ⦃⇓? r => ⌜r.1.core = d.core⌝⦄ := by
  have hadjustTotalPayout := @adjustTotalPayout_core
  mvcgen [payComment, createTMEfundForSCORE_core, createTSD_core, hadjustTotalPayout,
    modifyComment_core, modifyAccount_core] invariants
  · ⇓? ⟨_, s⟩ => ⌜s.1.core = d.core⌝
  all_goals simp_all

@[local spec] theorem settleVote_core {comment : Nat} {v : CommentVote} :
    ⦃⌜True⌝⦄ settleVote comment d v
      ⦃⇓? d' => ⌜d'.core = { d.core with commentVotes := d'.commentVotes }⌝⦄ := by
  mvcgen [settleVote, modifyCommentVote_core]

@[local spec] theorem payReward_core {ctx : CommentRewardContext} {c : Comment} :
    ⦃⌜True⌝⦄ d.payReward ctx c ⦃⇓? r => ⌜r.1.core = d.core⌝⦄ := by
  mvcgen [payReward]

@[local spec] theorem cashoutCommentHelper_core {ctx : CommentRewardContext} {comment : Nat} :
    ⦃⌜True⌝⦄ d.cashoutCommentHelper ctx comment
      ⦃⇓? r => ⌜r.1.core = { d.core with
        tallies := r.1.core.tallies
        commentVotes := r.1.commentVotes }⌝⦄ := by
  mvcgen [cashoutCommentHelper, modifyComment_tallies] invariants
  · ⇓? ⟨_, d'⟩ => ⌜d'.core = { d.core with
      tallies := d'.core.tallies
      commentVotes := d'.commentVotes }⌝
  all_goals grind [core]

@[local spec] theorem cashoutReply_core {price : Price} {comment : Nat} :
    ⦃⌜True⌝⦄ cashoutReply price d comment
      ⦃⇓? d' => ⌜d'.core = { d.core with
        tallies := d'.core.tallies
        commentVotes := d'.commentVotes }⌝⦄ := by
  mvcgen [cashoutReply, modifyGpo_core]
  all_goals grind [core]

@[local spec] theorem cashoutFirst_core {price : Price} {funds : List RewardFundContext} {c : Comment} :
    ⦃⌜True⌝⦄ cashoutFirst price d funds c
      ⦃⇓? r => ⌜r.1.core = { d.core with
        tallies := r.1.core.tallies
        commentVotes := r.1.commentVotes }⌝⦄ := by
  mvcgen [cashoutFirst] invariants
  · ⇓? ⟨_, d'⟩ => ⌜d'.core = { d.core with
      tallies := d'.core.tallies
      commentVotes := d'.commentVotes }⌝
  all_goals grind [core]

@[local spec] theorem cashoutLoop_core {price : Price} {fuel : Nat} {funds : List RewardFundContext} :
    ⦃⌜True⌝⦄ cashoutLoop price fuel d funds
      ⦃⇓? r => ⌜r.1.core = { d.core with
        tallies := r.1.core.tallies
        commentVotes := r.1.commentVotes }⌝⦄ := by
  induction fuel generalizing d funds with
  | zero => mvcgen [cashoutLoop]
  | succ fuel ih =>
    mvcgen [cashoutLoop, ih]
    all_goals grind [core]

theorem processCommentCashout_core :
    ⦃⌜True⌝⦄ d.processCommentCashout
      ⦃⇓? d' => ⌜d'.core = { d.core with
        tallies := d'.core.tallies
        commentVotes := d'.commentVotes }⌝⦄ := by
  mvcgen [processCommentCashout, modifyRewardFund_core, decayClaims, writeFund] invariants
  · ⇓? ⟨_, d'⟩ => ⌜d'.core = d.core⌝
  · ⇓? _ => ⌜True⌝
  · ⇓? ⟨_, d'⟩ => ⌜d'.core = { d.core with
      tallies := d'.core.tallies
      commentVotes := d'.commentVotes }⌝
  · ⇓? ⟨_, d'⟩ => ⌜d'.core = { d.core with
      tallies := d'.core.tallies
      commentVotes := d'.commentVotes }⌝
  all_goals grind [core]

/-! ### Funds -/

@[local spec] theorem burnSCORE_core {total : Int} :
    ⦃⌜True⌝⦄ d.burnSCORE total ⦃⇓? r => ⌜r.1.core = d.core⌝⦄ := by
  mvcgen [burnSCORE, modifyGpo_core, modifyAccount_core]
  all_goals simp_all

@[local spec] theorem burnSCOREreward_core {total : Int} :
    ⦃⌜True⌝⦄ d.burnSCOREreward total ⦃⇓? r => ⌜r.1.core = d.core⌝⦄ := by
  mvcgen [burnSCOREreward, modifyGpo_core, modifyAccount_core]
  all_goals simp_all

@[local spec] theorem burnAsset_core {adjust : Database → Name → Asset → Result Database}
    {balance : Account → Asset} {s : Database × Int}
    (ha : ∀ d name delta, ⦃⌜True⌝⦄ adjust d name delta ⦃⇓? d' => ⌜d'.core = d.core⌝⦄) :
    ⦃⌜True⌝⦄ burnAsset adjust balance s ⦃⇓? r => ⌜r.1.core = s.1.core⌝⦄ := by
  mvcgen [burnAsset, ha]

theorem clearNullAccountBalance_core :
    ⦃⌜True⌝⦄ d.clearNullAccountBalance ⦃⇓? d' => ⌜d'.core = d.core⌝⦄ := by
  mvcgen [clearNullAccountBalance, adjustBalance_core, adjustTMEsavingsBalance_core,
    adjustRewardBalance_core, adjustSupply_core]
  all_goals simp_all

@[local spec] theorem getProducerReward_core {w : Name} :
    ⦃⌜True⌝⦄ d.getProducerReward w ⦃⇓? r => ⌜r.1.core = d.core⌝⦄ := by
  mvcgen [getProducerReward, createTMEfundForSCORE_core, modifyAccount_core]

@[local spec] theorem payRewardFunds_core {x : Int} :
    ⦃⌜True⌝⦄ d.payRewardFunds x ⦃⇓? r => ⌜r.1.core = d.core⌝⦄ := by
  mvcgen [payRewardFunds, payRewardFund, modifyRewardFund_core] invariants
  · ⇓? r => ⌜r.2.1.core = d.core⌝
  all_goals simp_all

@[local spec] theorem processInflation_core {w : Name} :
    ⦃⌜True⌝⦄ d.processInflation w ⦃⇓? d' => ⌜d'.core = d.core⌝⦄ := by
  mvcgen [processInflation, modifyGpo_core, createTMEfundForSCORE_core]
  all_goals simp_all

@[local spec] theorem processBlockRewards_core {w : Name} :
    ⦃⌜True⌝⦄ d.processBlockRewards w ⦃⇓? d' => ⌜d'.core = d.core⌝⦄ := by
  mvcgen [processBlockRewards, modifyGpo_core]
  all_goals simp_all

theorem processFunds_core {w : Name} :
    ⦃⌜True⌝⦄ d.processFunds w ⦃⇓? d' => ⌜d'.core = d.core⌝⦄ := by
  mvcgen [processFunds]

theorem payLiquidityReward_core :
    ⦃⌜True⌝⦄ d.payLiquidityReward ⦃⇓? d' => ⌜d'.core = d.core⌝⦄ := by
  mvcgen [payLiquidityReward, adjustSupply_core, adjustBalance_core]
  all_goals simp_all

theorem processConversions_core :
    ⦃⌜True⌝⦄ d.processConversions
      ⦃⇓? d' => ⌜d'.core = { d.core with convertRequests := d'.convertRequests }⌝⦄ := by
  mvcgen [processConversions, convertRequest, adjustBalance_core, modifyGpo_core] invariants
  · ⇓? ⟨_, s⟩ => ⌜s.1.core = { d.core with convertRequests := s.1.convertRequests }⌝
  all_goals grind [core]

theorem updateVirtualSupply_core :
    ⦃⌜True⌝⦄ d.updateVirtualSupply ⦃⇓? d' => ⌜d'.core = d.core⌝⦄ := by
  mvcgen [updateVirtualSupply, modifyGpo_core]

/-! ### Power-downs and requests -/

@[local spec] theorem depositSCORE_core {x : Int} {s : Database × Int} {r : WithdrawRoute} :
    ⦃⌜True⌝⦄ depositSCORE x s r ⦃⇓? s' => ⌜s'.1.core = s.1.core⌝⦄ := by
  mvcgen [depositSCORE, modifyAccount_core, adjustProxiedWitnessVotes_core]
  all_goals simp_all

@[local spec] theorem leaveFund_core {x : Int} {a : Asset} :
    ⦃⌜True⌝⦄ d.leaveFund x a ⦃⇓? d' => ⌜d'.core = d.core⌝⦄ := by
  mvcgen [leaveFund, modifyGpo_core]

@[local spec] theorem depositTME_core {x : Int} {s : Database × Int × Asset} {r : WithdrawRoute} :
    ⦃⌜True⌝⦄ depositTME x s r ⦃⇓? s' => ⌜s'.1.core = s.1.core⌝⦄ := by
  mvcgen [depositTME, modifyAccount_core]
  all_goals simp_all

/-- A change of an account that the core sees only in the SCORE withdrawn. -/
theorem modifyAccount_withdrawals {name : Name} {f : Account → Result Account}
    (hf : ∀ a, ⦃⌜True⌝⦄ f a ⦃⇓? b => ⌜b.delegation = a.delegation⌝⦄)
    (hc : ∀ a, ⦃⌜True⌝⦄ f a ⦃⇓? b => ⌜b.counts = a.counts⌝⦄)
    (hp : ∀ a, ⦃⌜True⌝⦄ f a ⦃⇓? b => ⌜b.power = a.power⌝⦄) :
    ⦃⌜True⌝⦄ d.modifyAccount name f
      ⦃⇓? d' => ⌜d'.core = { d.core with withdrawals := d'.core.withdrawals }⌝⦄ := by
  apply triple_of
  intro _ d' h
  unfold modifyAccount at h
  obtain ⟨t, ht, rfl⟩ := of_modify h
  simp [core, (map_modify ht hf).1, (map_modify ht hc).1, (map_modify ht hc).2,
    (map_modify ht hp).1]

@[local spec] theorem withdrawInstalment_core {name : Name} :
    ⦃⌜True⌝⦄ d.withdrawInstalment name
      ⦃⇓? d' => ⌜d'.core = { d.core with withdrawals := d'.core.withdrawals }⌝⦄ := by
  mvcgen [withdrawInstalment, modifyAccount_withdrawals, payInstalment,
    adjustProxiedWitnessVotes_core] invariants
  · ⇓? r => ⌜r.2.1.core = d.core⌝
  · ⇓? r => ⌜r.2.1.core = d.core⌝
  all_goals grind [core, Account.delegation]

@[local spec] theorem withdrawalLoop_core {fuel : Nat} {a : Option Account} :
    ⦃⌜True⌝⦄ withdrawalLoop fuel d a
      ⦃⇓? d' => ⌜d'.core = { d.core with withdrawals := d'.core.withdrawals }⌝⦄ := by
  induction fuel generalizing d a with
  | zero => cases a <;> mvcgen [withdrawalLoop]
  | succ fuel ih =>
    cases a with
    | none => mvcgen [withdrawalLoop]
    | some a =>
      mvcgen [withdrawalLoop, ih]
      all_goals grind [core]

theorem processTMEfundForSCOREwithdrawals_core :
    ⦃⌜True⌝⦄ d.processTMEfundForSCOREwithdrawals
      ⦃⇓? d' => ⌜d'.core = { d.core with withdrawals := d'.core.withdrawals }⌝⦄ := by
  mvcgen [processTMEfundForSCOREwithdrawals]

theorem processSavingsWithdraws_core :
    ⦃⌜True⌝⦄ d.processSavingsWithdraws
      ⦃⇓? d' => ⌜d'.core = { d.core with
        counts := d'.core.counts
        savingsWithdraws := d'.savingsWithdraws }⌝⦄ := by
  mvcgen [processSavingsWithdraws, completeSavingsWithdraw, adjustBalance_core,
    modifyAccount_counts] invariants
  · ⇓? ⟨_, d'⟩ => ⌜d'.core = { d.core with
      counts := d'.core.counts
      savingsWithdraws := d'.savingsWithdraws }⌝
  all_goals grind [core]

theorem accountRecoveryProcessing_core :
    ⦃⌜True⌝⦄ d.accountRecoveryProcessing
      ⦃⇓? d' => ⌜d'.core = { d.core with
        ownerHistory := d'.ownerHistory
        recoveryRequests := d'.recoveryRequests }⌝⦄ := by
  mvcgen [accountRecoveryProcessing, changeRecoveryAccount, modifyAccount_core] invariants
  · ⇓? ⟨_, d'⟩ => ⌜d'.core = { d.core with
      ownerHistory := d'.ownerHistory
      recoveryRequests := d'.recoveryRequests }⌝
  all_goals grind [core]

@[local spec] theorem refundEscrow_core {e : Escrow} :
    ⦃⌜True⌝⦄ d.refundEscrow e ⦃⇓? d' => ⌜d'.core = { d.core with escrows := d'.escrows }⌝⦄ := by
  mvcgen [refundEscrow, adjustBalance_core]
  all_goals grind [core]

theorem expireEscrowRatification_core :
    ⦃⌜True⌝⦄ d.expireEscrowRatification
      ⦃⇓? d' => ⌜d'.core = { d.core with escrows := d'.escrows }⌝⦄ := by
  mvcgen [expireEscrowRatification] invariants
  · ⇓? ⟨_, d'⟩ => ⌜d'.core = { d.core with escrows := d'.escrows }⌝
  all_goals grind [core]

theorem processDeclineVotingRights_core :
    ⦃⌜True⌝⦄ d.processDeclineVotingRights
      ⦃⇓? d' => ⌜d'.core = { d.core with
        counts := d'.core.counts
        witnessVotes := d'.witnessVotes }⌝⦄ := by
  mvcgen [processDeclineVotingRights, declineVotingRights, adjustProxiedWitnessVotesArray_core,
    clearWitnessVotes_core, modifyAccount_core] invariants
  · ⇓? ⟨_, d'⟩ => ⌜d'.core = { d.core with
      counts := d'.core.counts
      witnessVotes := d'.witnessVotes }⌝
  all_goals grind [core]

/-- A change of an account that the core sees only in the SCORE delegated and received. -/
theorem modifyAccount_accounts {name : Name} {f : Account → Result Account}
    (hf : ∀ a, ⦃⌜True⌝⦄ f a ⦃⇓? b => ⌜b.withdrawal = a.withdrawal⌝⦄)
    (hc : ∀ a, ⦃⌜True⌝⦄ f a ⦃⇓? b => ⌜b.counts = a.counts⌝⦄)
    (hp : ∀ a, ⦃⌜True⌝⦄ f a ⦃⇓? b => ⌜b.power = a.power⌝⦄) :
    ⦃⌜True⌝⦄ d.modifyAccount name f
      ⦃⇓? d' => ⌜d'.core = { d.core with accounts := d'.core.accounts }⌝⦄ := by
  apply triple_of
  intro _ d' h
  unfold modifyAccount at h
  obtain ⟨t, ht, rfl⟩ := of_modify h
  simp [core, (map_modify ht hf).1, (map_modify ht hc).1, (map_modify ht hc).2,
    (map_modify ht hp).1]

theorem clearExpiredDelegations_core :
    ⦃⌜True⌝⦄ d.clearExpiredDelegations
      ⦃⇓? d' => ⌜d'.core = { d.core with
        accounts := d'.core.accounts
        delegationExpirations := d'.delegationExpirations }⌝⦄ := by
  mvcgen [clearExpiredDelegations, returnDelegation, modifyAccount_accounts] invariants
  · ⇓? ⟨_, d'⟩ => ⌜d'.core = { d.core with
      accounts := d'.core.accounts
      delegationExpirations := d'.delegationExpirations }⌝
  all_goals grind [core]

end Database
end WeNode.Chain
