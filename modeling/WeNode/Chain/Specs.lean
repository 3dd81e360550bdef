import Mathlib
import WeNode.Lib.Triples
import WeNode.Chain.Block

/-!
# Specifications of the arithmetic and the lookups

What the functions that change no state return, in the form the rules of the functions that do
are proved with.
-/

set_option mvcgen.warning false

namespace WeNode.Chain

open WeNode.Lib Std.Do

/-! ### Arithmetic -/

@[spec] theorem require_spec {c : Prop} [Decidable c] {text : String} :
    ⦃⌜True⌝⦄ require c text ⦃⇓? _ => ⌜c⌝⦄ :=
  triple_of fun _ _ h => require_ok h

@[spec] theorem safeAdd_spec {a b : Int} : ⦃⌜True⌝⦄ safeAdd a b ⦃⇓? c => ⌜c = a + b⌝⦄ :=
  triple_of fun _ _ h => safeAdd_ok h

@[spec] theorem safeSub_spec {a b : Int} : ⦃⌜True⌝⦄ safeSub a b ⦃⇓? c => ⌜c = a - b⌝⦄ :=
  triple_of fun _ _ h => safeSub_ok h

@[spec] theorem safeMul_spec {a b : Int} : ⦃⌜True⌝⦄ safeMul a b ⦃⇓? c => ⌜c = a * b⌝⦄ :=
  triple_of fun _ _ h => safeMul_ok h

@[spec] theorem safeNeg_spec {a : Int} : ⦃⌜True⌝⦄ safeNeg a ⦃⇓? c => ⌜c = -a⌝⦄ :=
  triple_of fun _ _ h => safeNeg_ok h

@[spec] theorem safeDiv_spec {a b : Int} : ⦃⌜True⌝⦄ safeDiv a b ⦃⇓? c => ⌜safeDiv a b = .ok c⌝⦄ :=
  triple_ok

@[spec] theorem safeMod_spec {a b : Int} : ⦃⌜True⌝⦄ safeMod a b ⦃⇓? c => ⌜safeMod a b = .ok c⌝⦄ :=
  triple_ok

@[spec] theorem u128Div_spec {a b : Nat} :
    ⦃⌜True⌝⦄ u128Div a b ⦃⇓? c => ⌜u128Div a b = .ok c⌝⦄ :=
  triple_ok

@[spec] theorem toUint64_spec {a : Nat} : ⦃⌜True⌝⦄ toUint64 a ⦃⇓? c => ⌜c = a ∧ a < two64⌝⦄ :=
  triple_of fun _ _ h => toUint64_ok h

namespace Asset

variable {a b : Asset} {p : Price}

@[spec] theorem add_spec :
    ⦃⌜True⌝⦄ a.add b ⦃⇓? c => ⌜a.symbol = b.symbol ∧ c = ⟨a.amount + b.amount, a.symbol⟩⌝⦄ := by
  mvcgen [add]
  simp_all

@[spec] theorem sub_spec :
    ⦃⌜True⌝⦄ a.sub b ⦃⇓? c => ⌜a.symbol = b.symbol ∧ c = ⟨a.amount - b.amount, a.symbol⟩⌝⦄ := by
  mvcgen [sub]
  simp_all

@[spec] theorem neg_spec : ⦃⌜True⌝⦄ a.neg ⦃⇓? c => ⌜c = ⟨-a.amount, a.symbol⟩⌝⦄ := by
  mvcgen [neg]
  simp_all

@[spec] theorem lt_spec :
    ⦃⌜True⌝⦄ a.lt b ⦃⇓? c => ⌜a.symbol = b.symbol ∧ c = decide (a.amount < b.amount)⌝⦄ := by
  mvcgen [lt]

@[spec] theorem ge_spec :
    ⦃⌜True⌝⦄ a.ge b ⦃⇓? c => ⌜a.symbol = b.symbol ∧ c = decide (b.amount ≤ a.amount)⌝⦄ := by
  mvcgen [ge]
  grind

@[spec] theorem le_spec :
    ⦃⌜True⌝⦄ a.le b ⦃⇓? c => ⌜a.symbol = b.symbol ∧ c = decide (a.amount ≤ b.amount)⌝⦄ := by
  mvcgen [le]
  · simp_all
  · next hne r =>
    rintro hs rfl
    -- two assets of one symbol that differ have different amounts
    have hab : a.amount ≠ b.amount := fun hab => hne (by cases a; cases b; simp_all)
    grind

@[spec] theorem gt_spec :
    ⦃⌜True⌝⦄ a.gt b ⦃⇓? c => ⌜a.symbol = b.symbol ∧ c = decide (b.amount < a.amount)⌝⦄ := by
  mvcgen [gt]
  grind

@[spec] theorem symbolName_spec {s : Nat} :
    ⦃⌜True⌝⦄ symbolName s ⦃⇓? c => ⌜symbolName s = .ok c⌝⦄ :=
  triple_ok

@[spec] theorem div_spec : ⦃⌜True⌝⦄ a.div b ⦃⇓? c => ⌜c = ⟨a, b⟩⌝⦄ := by
  mvcgen [div]

@[spec] theorem mul_spec : ⦃⌜True⌝⦄ a.mul p ⦃⇓? c => ⌜a.mul p = .ok c⌝⦄ := triple_ok

end Asset

/-! ### Lookups -/

@[spec] theorem modify_spec {α : Type} {t : Table α} {e : Exception} {k : α → Bool}
    {f : α → Result α} : ⦃⌜True⌝⦄ t.modify e k f ⦃⇓? t' => ⌜t.modify e k f = .ok t'⌝⦄ :=
  triple_ok

variable {d : Database} {name : Name} {id : Nat}

@[spec] theorem found_spec {α : Type} {o : Option α} :
    ⦃⌜True⌝⦄ found o ⦃⇓? r => ⌜found o = .ok r⌝⦄ :=
  triple_ok

@[spec] theorem getAccount_spec :
    ⦃⌜True⌝⦄ d.getAccount name ⦃⇓? r => ⌜d.getAccount name = .ok r⌝⦄ :=
  triple_ok

@[spec] theorem getAccountById_spec :
    ⦃⌜True⌝⦄ d.getAccountById id ⦃⇓? r => ⌜d.getAccountById id = .ok r⌝⦄ :=
  triple_ok

@[spec] theorem getAuthority_spec :
    ⦃⌜True⌝⦄ d.getAuthority name ⦃⇓? r => ⌜d.getAuthority name = .ok r⌝⦄ :=
  triple_ok

@[spec] theorem getWitness_spec :
    ⦃⌜True⌝⦄ d.getWitness name ⦃⇓? r => ⌜d.getWitness name = .ok r⌝⦄ :=
  triple_ok

@[spec] theorem getWitnessById_spec :
    ⦃⌜True⌝⦄ d.getWitnessById id ⦃⇓? r => ⌜d.getWitnessById id = .ok r⌝⦄ :=
  triple_ok

@[spec] theorem getComment_spec {permlink : Bytes} :
    ⦃⌜True⌝⦄ d.getComment name permlink ⦃⇓? r => ⌜d.getComment name permlink = .ok r⌝⦄ :=
  triple_ok

@[spec] theorem getCommentById_spec :
    ⦃⌜True⌝⦄ d.getCommentById id ⦃⇓? r => ⌜d.getCommentById id = .ok r⌝⦄ :=
  triple_ok

@[spec] theorem getLimitOrder_spec :
    ⦃⌜True⌝⦄ d.getLimitOrder name id ⦃⇓? r => ⌜d.getLimitOrder name id = .ok r⌝⦄ :=
  triple_ok

@[spec] theorem getLimitOrderById_spec :
    ⦃⌜True⌝⦄ d.getLimitOrderById id ⦃⇓? r => ⌜d.getLimitOrderById id = .ok r⌝⦄ :=
  triple_ok

@[spec] theorem getEscrow_spec :
    ⦃⌜True⌝⦄ d.getEscrow name id ⦃⇓? r => ⌜d.getEscrow name id = .ok r⌝⦄ :=
  triple_ok

@[spec] theorem getRewardFund_spec :
    ⦃⌜True⌝⦄ d.getRewardFund ⦃⇓? r => ⌜d.getRewardFund = .ok r⌝⦄ :=
  triple_ok

/-! ### Amounts and checks -/

@[spec] theorem calcPercentReward_spec {a b c : Nat} {x : Int} :
    ⦃⌜True⌝⦄ calcPercentReward a b c x ⦃⇓? r => ⌜calcPercentReward a b c x = .ok r⌝⦄ :=
  triple_ok

@[spec] theorem evaluateRewardCurve_spec {a b : Nat} {c : CurveId} :
    ⦃⌜True⌝⦄ evaluateRewardCurve a c b ⦃⇓? r => ⌜evaluateRewardCurve a c b = .ok r⌝⦄ :=
  triple_ok

@[spec] theorem getSCOREreward_spec {c : CommentRewardContext} :
    ⦃⌜True⌝⦄ getSCOREreward c ⦃⇓? r => ⌜getSCOREreward c = .ok r⌝⦄ :=
  triple_ok

@[spec] theorem scoreRewardPrice_spec {g : GlobalProperties} :
    ⦃⌜True⌝⦄ g.scoreRewardPrice ⦃⇓? r => ⌜g.scoreRewardPrice = .ok r⌝⦄ :=
  triple_ok

@[spec] theorem witnessVoteWeight_spec {a : Account} :
    ⦃⌜True⌝⦄ a.witnessVoteWeight ⦃⇓? r => ⌜a.witnessVoteWeight = .ok r⌝⦄ :=
  triple_ok

@[spec] theorem leavingDelta_spec {a : Account} :
    ⦃⌜True⌝⦄ Database.leavingDelta a ⦃⇓? r => ⌜Database.leavingDelta a = .ok r⌝⦄ :=
  triple_ok

@[spec] theorem amountToReceive_spec {o : LimitOrder} :
    ⦃⌜True⌝⦄ o.amountToReceive ⦃⇓? r => ⌜o.amountToReceive = .ok r⌝⦄ :=
  triple_ok

@[spec] theorem accrueInterest_spec {i : Database.Interest} :
    ⦃⌜True⌝⦄ d.accrueInterest i ⦃⇓? r => ⌜d.accrueInterest i = .ok r⌝⦄ :=
  triple_ok

@[spec] theorem getBalance_spec {a : Account} :
    ⦃⌜True⌝⦄ Database.getBalance a id ⦃⇓? r => ⌜Database.getBalance a id = .ok r⌝⦄ :=
  triple_ok

@[spec] theorem getTMEsavingsBalance_spec {a : Account} :
    ⦃⌜True⌝⦄ Database.getTMEsavingsBalance a id ⦃⇓? r => ⌜Database.getTMEsavingsBalance a id = .ok r⌝⦄ :=
  triple_ok

@[spec] theorem toTSD_spec {a : Asset} :
    ⦃⌜True⌝⦄ d.toTSD a ⦃⇓? r => ⌜d.toTSD a = .ok r⌝⦄ :=
  triple_ok

@[spec] theorem calculateDiscussionPayoutTime_spec {c : Comment} :
    ⦃⌜True⌝⦄ d.calculateDiscussionPayoutTime c ⦃⇓? r => ⌜d.calculateDiscussionPayoutTime c = .ok r⌝⦄ :=
  triple_ok

@[spec] theorem getCurationRewardsPercent_spec :
    ⦃⌜True⌝⦄ d.getCurationRewardsPercent ⦃⇓? r => ⌜d.getCurationRewardsPercent = .ok r⌝⦄ :=
  triple_ok

@[spec] theorem votesStay_spec {c : Comment} :
    ⦃⌜True⌝⦄ d.votesStay c ⦃⇓? r => ⌜d.votesStay c = .ok r⌝⦄ :=
  triple_ok

@[spec] theorem addClaims_spec {l : List Database.RewardFundContext} {c : Comment} :
    ⦃⌜True⌝⦄ d.addClaims l c ⦃⇓? r => ⌜d.addClaims l c = .ok r⌝⦄ :=
  triple_ok

@[spec] theorem rewardAtLeast_spec {a b c : Nat} {x : Int} :
    ⦃⌜True⌝⦄ d.rewardAtLeast a b c x ⦃⇓? r => ⌜d.rewardAtLeast a b c x = .ok r⌝⦄ :=
  triple_ok

@[spec] theorem getLiquidityReward_spec :
    ⦃⌜True⌝⦄ d.getLiquidityReward ⦃⇓? r => ⌜d.getLiquidityReward = .ok r⌝⦄ :=
  triple_ok

@[spec] theorem getPowReward_spec :
    ⦃⌜True⌝⦄ d.getPowReward ⦃⇓? r => ⌜d.getPowReward = .ok r⌝⦄ :=
  triple_ok

@[spec] theorem getContentReward_spec :
    ⦃⌜True⌝⦄ d.getContentReward ⦃⇓? r => ⌜d.getContentReward = .ok r⌝⦄ :=
  triple_ok

@[spec] theorem getCurationReward_spec :
    ⦃⌜True⌝⦄ d.getCurationReward ⦃⇓? r => ⌜d.getCurationReward = .ok r⌝⦄ :=
  triple_ok

@[spec] theorem routeShare_spec {x : Int} {w : WithdrawRoute} :
    ⦃⌜True⌝⦄ Database.routeShare x w ⦃⇓? r => ⌜Database.routeShare x w = .ok r⌝⦄ :=
  triple_ok

@[spec] theorem instalment_spec {a : Account} :
    ⦃⌜True⌝⦄ Database.instalment a ⦃⇓? r => ⌜Database.instalment a = .ok r⌝⦄ :=
  triple_ok

@[spec] theorem scheduledWitnesses_spec :
    ⦃⌜True⌝⦄ d.scheduledWitnesses ⦃⇓? r => ⌜d.scheduledWitnesses = .ok r⌝⦄ :=
  triple_ok

@[spec] theorem medianOn_spec {k : Witness → Int} {l : List Witness} :
    ⦃⌜True⌝⦄ Database.medianOn k l ⦃⇓? r => ⌜Database.medianOn k l = .ok r⌝⦄ :=
  triple_ok

@[spec] theorem limitedMedian_spec {p : Price} :
    ⦃⌜True⌝⦄ d.limitedMedian p ⦃⇓? r => ⌜d.limitedMedian p = .ok r⌝⦄ :=
  triple_ok

@[spec] theorem matchAmounts_spec {a b : Asset} {p : Price} :
    ⦃⌜True⌝⦄ Database.matchAmounts a b p ⦃⇓? r => ⌜Database.matchAmounts a b p = .ok r⌝⦄ :=
  triple_ok

@[spec] theorem approveEscrow_spec {e : Escrow} {o : EscrowApproveOperation} :
    ⦃⌜True⌝⦄ approveEscrow e o ⦃⇓? r => ⌜approveEscrow e o = .ok r⌝⦄ :=
  triple_ok

@[spec] theorem checkRelease_spec {e : Escrow} {o : EscrowReleaseOperation} :
    ⦃⌜True⌝⦄ checkRelease d e o ⦃⇓? r => ⌜checkRelease d e o = .ok r⌝⦄ :=
  triple_ok

@[spec] theorem checkRegistered_spec {a : Account} {o : WithdrawSCOREoperation} :
    ⦃⌜True⌝⦄ checkRegistered d a o ⦃⇓? r => ⌜checkRegistered d a o = .ok r⌝⦄ :=
  triple_ok

@[spec] theorem valueToMove_spec {a : Account} {o : ClaimRewardBalanceOperation} :
    ⦃⌜True⌝⦄ o.valueToMove a ⦃⇓? r => ⌜o.valueToMove a = .ok r⌝⦄ :=
  triple_ok

@[spec] theorem availableSCORE_spec {a : Account} :
    ⦃⌜True⌝⦄ availableSCORE a ⦃⇓? r => ⌜availableSCORE a = .ok r⌝⦄ :=
  triple_ok

@[spec] theorem checkAuthorityAccounts_spec {a : Authority} :
    ⦃⌜True⌝⦄ checkAuthorityAccounts d a ⦃⇓? r => ⌜checkAuthorityAccounts d a = .ok r⌝⦄ :=
  triple_ok

@[spec] theorem checkFee_spec {o : AccountCreateOperation} :
    ⦃⌜True⌝⦄ o.checkFee d ⦃⇓? r => ⌜o.checkFee d = .ok r⌝⦄ :=
  triple_ok

@[spec] theorem checkDelegation_spec {o : AccountCreateWithDelegationOperation} {a : Account} :
    ⦃⌜True⌝⦄ o.check d a ⦃⇓? r => ⌜o.check d a = .ok r⌝⦄ :=
  triple_ok

@[spec] theorem checkProxyChain_spec {l : List Nat} :
    ⦃⌜True⌝⦄ checkProxyChain d id l name ⦃⇓? r => ⌜checkProxyChain d id l name = .ok r⌝⦄ :=
  triple_ok

@[spec] theorem checkWork_spec {o : Pow2Operation} :
    ⦃⌜True⌝⦄ o.checkWork d ⦃⇓? r => ⌜o.checkWork d = .ok r⌝⦄ :=
  triple_ok

@[spec] theorem checkPartner_spec {o : RequestAccountRecoveryOperation} :
    ⦃⌜True⌝⦄ o.checkPartner d ⦃⇓? r => ⌜o.checkPartner d = .ok r⌝⦄ :=
  triple_ok

@[spec] theorem checkUnchallenged_spec {a : Account} :
    ⦃⌜True⌝⦄ checkUnchallenged d a ⦃⇓? r => ⌜checkUnchallenged d a = .ok r⌝⦄ :=
  triple_ok

@[spec] theorem validatePermlink01_spec {b : Bytes} :
    ⦃⌜True⌝⦄ validatePermlink01 b ⦃⇓? r => ⌜validatePermlink01 b = .ok r⌝⦄ :=
  triple_ok

@[spec] theorem checkPostInterval_spec {b : Bool} {a : Account} :
    ⦃⌜True⌝⦄ checkPostInterval d b a ⦃⇓? r => ⌜checkPostInterval d b a = .ok r⌝⦄ :=
  triple_ok

@[spec] theorem findParent_spec {o : CommentOperation} :
    ⦃⌜True⌝⦄ o.findParent d ⦃⇓? r => ⌜o.findParent d = .ok r⌝⦄ :=
  triple_ok

@[spec] theorem power_spec {o : VoteOperation} {a : Account} :
    ⦃⌜True⌝⦄ o.power d a ⦃⇓? r => ⌜o.power d a = .ok r⌝⦄ :=
  triple_ok

@[spec] theorem checkLockout_spec {c : Comment} :
    ⦃⌜True⌝⦄ checkLockout d c ⦃⇓? r => ⌜checkLockout d c = .ok r⌝⦄ :=
  triple_ok

@[spec] theorem averageCashout_spec {a b : Comment} {x : Int} :
    ⦃⌜True⌝⦄ averageCashout d a b x ⦃⇓? r => ⌜averageCashout d a b x = .ok r⌝⦄ :=
  triple_ok

@[spec] theorem voteWeights_spec {c : Comment} {x y : Int} :
    ⦃⌜True⌝⦄ voteWeights d c x y ⦃⇓? r => ⌜voteWeights d c x y = .ok r⌝⦄ :=
  triple_ok

@[spec] theorem isArchived_spec {c : Comment} :
    ⦃⌜True⌝⦄ isArchived d c ⦃⇓? r => ⌜isArchived d c = .ok r⌝⦄ :=
  triple_ok

@[spec] theorem validateAuthority_spec {a : Authority} :
    ⦃⌜True⌝⦄ a.validate ⦃⇓? r => ⌜a.validate = .ok r⌝⦄ :=
  triple_ok

end WeNode.Chain
