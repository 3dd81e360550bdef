import Mathlib
import WeNode.Chain.Replay
import WeNode.Chain.SupplyOperations

/-!
# The supply through blocks
-/

set_option mvcgen.warning false

namespace WeNode.Chain

open WeNode.Lib Std.Do

namespace Database

variable {d d' : Database} {env : Env} {w : Name} {o : Operation}

/-! ### What the passes over the tables rely on -/

/-- The tables of requests whose rows are removed by their ids, and the routes. -/
structure Tidy (d : Database) : Prop where
  routes : d.RoutesFit
  convertRequests : d.convertRequests.Keyed ConvertRequest.id
  savingsWithdraws : d.savingsWithdraws.Keyed SavingsWithdraw.id
  escrows : d.EscrowsPaid

namespace Tidy

theorem congr (hd : d.Tidy) (hroutes : d'.withdrawRoutes = d.withdrawRoutes)
    (hconverts : d'.convertRequests = d.convertRequests)
    (hsavings : d'.savingsWithdraws = d.savingsWithdraws) (hescrows : d'.escrows = d.escrows) :
    d'.Tidy where
  routes := hd.routes.congr hroutes
  convertRequests := hconverts ▸ hd.convertRequests
  savingsWithdraws := hsavings ▸ hd.savingsWithdraws
  escrows := hd.escrows.of_action (a := .other) hescrows

theorem of_core {c : Core} (hd : d.Tidy) (h : d'.core = c)
    (hroutes : c.withdrawRoutes = d.core.withdrawRoutes)
    (hconverts : c.convertRequests = d.core.convertRequests)
    (hsavings : c.savingsWithdraws = d.core.savingsWithdraws)
    (hescrows : c.escrows = d.core.escrows) : d'.Tidy :=
  hd.congr ((congrArg Core.withdrawRoutes h).trans hroutes)
    ((congrArg Core.convertRequests h).trans hconverts)
    ((congrArg Core.savingsWithdraws h).trans hsavings)
    ((congrArg Core.escrows h).trans hescrows)

end Tidy

theorem convert_keyed {o : ConvertOperation} (hk : d.convertRequests.Keyed ConvertRequest.id)
    (h : o.apply d = .ok d') : d'.convertRequests.Keyed ConvertRequest.id := by
  unfold ConvertOperation.apply at h
  obtain ⟨_, -, h⟩ := bind_ok.1 h
  obtain ⟨_, -, h⟩ := bind_ok.1 h
  obtain ⟨_, -, h⟩ := bind_ok.1 h
  obtain ⟨_, -, h⟩ := bind_ok.1 h
  obtain ⟨_, -, h⟩ := bind_ok.1 h
  obtain ⟨d₁, h₁, h⟩ := bind_ok.1 h
  obtain ⟨_, -, h⟩ := bind_ok.1 h
  have hsame : d₁.convertRequests = d.convertRequests :=
    congrArg Core.convertRequests (of_triple adjustBalance_core trivial h₁)
  have hk₁ : d₁.convertRequests.Keyed ConvertRequest.id := hsame ▸ hk
  -- the delay is another before hardfork 16
  split at h
  all_goals
    split at h
    · cases h
    · cases h
      dsimp only
      exact hk₁.create rfl

theorem applyOperation_converts (hk : d.convertRequests.Keyed ConvertRequest.id) :
    ⦃⌜True⌝⦄ applyOperation w d o ⦃⇓? d' => ⌜d'.convertRequests.Keyed ConvertRequest.id⌝⦄ := by
  have hconvert : ∀ o : ConvertOperation, ⦃⌜True⌝⦄ o.apply d
      ⦃⇓? d' => ⌜d'.convertRequests.Keyed ConvertRequest.id⌝⦄ := fun o =>
    triple_of fun _ d' h => convert_keyed hk h
  mvcgen [applyOperation, VoteOperation.apply_core, CommentOperation.apply_core,
    TransferOperation.apply_core, TransferTMEtoSCOREfundOperation.apply_core,
    WithdrawSCOREoperation.apply_core, LimitOrderCreateOperation.apply_core,
    LimitOrderCancelOperation.apply_core, FeedPublishOperation.apply_core,
    hconvert, AccountCreateOperation.apply_core,
    AccountUpdateOperation.apply_core, WitnessUpdateOperation.apply_core,
    AccountWitnessVoteOperation.apply_core, AccountWitnessProxyOperation.apply_core,
    PowOperation.apply_core, DeleteCommentOperation.apply_core,
    CommentOptionsOperation.apply_core, SetWithdrawSCOREasTMErouteOperation.apply_core,
    LimitOrderCreate2Operation.apply_core, ChallengeAuthorityOperation.apply_core,
    ProveAuthorityOperation.apply_core, RequestAccountRecoveryOperation.apply_core,
    RecoverAccountOperation.apply_core, ChangeRecoveryAccountOperation.apply_core,
    EscrowTransferOperation.apply_core, EscrowDisputeOperation.apply_core,
    EscrowReleaseOperation.apply_core, Pow2Operation.apply_core,
    EscrowApproveOperation.apply_core, TransferToSavingsOperation.apply_core,
    TransferFromSavingsOperation.apply_core, CancelTransferFromSavingsOperation.apply_core,
    DeclineVotingRightsOperation.apply_core, ClaimRewardBalanceOperation.apply_core,
    DelegateSCOREoperation.apply_core, AccountCreateWithDelegationOperation.apply_core]
  all_goals grind [core]

theorem setRoute_fit {o : SetWithdrawSCOREasTMErouteOperation} (hd : d.RoutesFit)
    (ho : o.percent ≤ percent100) (h : o.apply d = .ok d') : d'.RoutesFit := by
  obtain ⟨sender, -, h⟩ := bind_ok.1 h
  obtain ⟨receiver, -, h⟩ := bind_ok.1 h
  obtain ⟨d₁, h₁, h⟩ := bind_ok.1 h
  obtain ⟨_, -, h⟩ := bind_ok.1 h
  cases h
  unfold SetWithdrawSCOREasTMErouteOperation.setRoute at h₁
  dsimp only at h₁
  split at h₁
  · obtain ⟨_, -, h₁⟩ := bind_ok.1 h₁
    obtain ⟨_, -, h₁⟩ := bind_ok.1 h₁
    obtain ⟨t, -, rfl⟩ := of_modify h₁
    intro r hr
    rcases List.mem_append.1 hr with hr | hr
    · exact hd r hr
    · obtain rfl := List.mem_singleton.1 hr
      exact ho
  · split at h₁
    · obtain ⟨t, -, rfl⟩ := of_modify h₁
      exact fun r hr => hd r (List.mem_of_mem_eraseP hr)
    · obtain ⟨t, ht, h₁⟩ := bind_ok.1 h₁
      cases h₁
      obtain ⟨x, y, hy, hrep, -⟩ := Table.modify_ok ht
      cases hy
      intro r hr
      rcases hrep.of_mem hr with hr | rfl
      · exact hd r hr
      · exact ho

theorem transferFromSavings_keyed {o : TransferFromSavingsOperation}
    (hk : d.savingsWithdraws.Keyed SavingsWithdraw.id) (h : o.apply d = .ok d') :
    d'.savingsWithdraws.Keyed SavingsWithdraw.id := by
  unfold TransferFromSavingsOperation.apply at h
  obtain ⟨_, -, h⟩ := bind_ok.1 h
  obtain ⟨_, -, h⟩ := bind_ok.1 h
  obtain ⟨_, -, h⟩ := bind_ok.1 h
  obtain ⟨_, -, h⟩ := bind_ok.1 h
  obtain ⟨_, -, h⟩ := bind_ok.1 h
  obtain ⟨_, -, h⟩ := bind_ok.1 h
  obtain ⟨_, -, h⟩ := bind_ok.1 h
  obtain ⟨d₁, h₁, h⟩ := bind_ok.1 h
  have hsame : d₁.savingsWithdraws = d.savingsWithdraws :=
    congrArg Core.savingsWithdraws (of_triple adjustTMEsavingsBalance_core trivial h₁)
  split at h
  · cases h
  · obtain ⟨t, -, rfl⟩ := of_modify h
    dsimp only
    exact Table.Keyed.create (hsame ▸ hk) rfl

theorem cancelTransferFromSavings_keyed {o : CancelTransferFromSavingsOperation}
    (hk : d.savingsWithdraws.Keyed SavingsWithdraw.id) (h : o.apply d = .ok d') :
    d'.savingsWithdraws.Keyed SavingsWithdraw.id := by
  obtain ⟨r, hr, h⟩ := bind_ok.1 h
  obtain ⟨d₁, h₁, h⟩ := bind_ok.1 h
  have hsame : d₁.savingsWithdraws = d.savingsWithdraws :=
    congrArg Core.savingsWithdraws (of_triple adjustTMEsavingsBalance_core trivial h₁)
  obtain ⟨t, -, rfl⟩ := of_modify h
  dsimp only
  exact hsame ▸ hk.remove r.id

theorem applyOperation_tidy (hd : d.Tidy) (hv : o.validate env = .ok ())
    (h : applyOperation w d o = .ok d') : d'.Tidy := by
  have hcore := of_triple applyOperation_core trivial h
  refine ⟨?_, of_triple (applyOperation_converts hd.convertRequests) trivial h, ?_,
    hd.escrows.of_move (applyOperation_escrows hv h)⟩
  · cases hroute : o.onRoute with
    | false =>
      rw [hroute] at hcore
      exact hd.routes.congr (congrArg Core.withdrawRoutes hcore)
    | true =>
      cases o with
      | setWithdrawSCOREasTMEroute op =>
        obtain ⟨_, -, hv⟩ := bind_ok.1 hv
        obtain ⟨_, -, hv⟩ := bind_ok.1 hv
        exact setRoute_fit hd.routes (require_ok hv) h
      | _ => cases hroute
  · cases hsavings : o.onSavings with
    | false =>
      rw [hsavings] at hcore
      have hsame : d'.savingsWithdraws = d.savingsWithdraws := congrArg Core.savingsWithdraws hcore
      exact hsame ▸ hd.savingsWithdraws
    | true =>
      cases o with
      | transferFromSavings op =>
        exact transferFromSavings_keyed hd.savingsWithdraws h
      | cancelTransferFromSavings op =>
        exact cancelTransferFromSavings_keyed hd.savingsWithdraws h
      | _ => cases hsavings

/-- No operation makes more or less of what is held than of the supply. -/
theorem applyOperation_gap (hd : d.Tidy) (hv : o.validate env = .ok ())
    (h : applyOperation w d o = .ok d') : d'.gap = d.gap := by
  cases o with
  | vote op => exact of_triple VoteOperation.apply_gap trivial h
  | comment op => exact of_triple CommentOperation.apply_gap trivial h
  | transfer op => exact of_triple TransferOperation.apply_gap trivial h
  | transferTMEtoSCOREfund op =>
    exact of_triple TransferTMEtoSCOREfundOperation.apply_gap trivial h
  | withdrawSCORE op => exact of_triple WithdrawSCOREoperation.apply_gap trivial h
  | limitOrderCreate op => exact of_triple LimitOrderCreateOperation.apply_gap trivial h
  | limitOrderCancel op => exact of_triple LimitOrderCancelOperation.apply_gap trivial h
  | feedPublish op => exact of_triple FeedPublishOperation.apply_gap trivial h
  | convert op => exact of_triple ConvertOperation.apply_gap trivial h
  | accountCreate op => exact of_triple (AccountCreateOperation.apply_gap hv) trivial h
  | accountUpdate op => exact of_triple AccountUpdateOperation.apply_gap trivial h
  | witnessUpdate op => exact of_triple WitnessUpdateOperation.apply_gap trivial h
  | accountWitnessVote op => exact of_triple AccountWitnessVoteOperation.apply_gap trivial h
  | accountWitnessProxy op => exact of_triple AccountWitnessProxyOperation.apply_gap trivial h
  | pow op => exact of_triple PowOperation.apply_gap trivial h
  | custom _ => cases h; rfl
  | reportOverProduction _ =>
    obtain ⟨_, -, h⟩ := bind_ok.1 h
    cases h
    rfl
  | deleteComment op => exact of_triple DeleteCommentOperation.apply_gap trivial h
  | customJson _ => cases h; rfl
  | commentOptions op => exact of_triple CommentOptionsOperation.apply_gap trivial h
  | setWithdrawSCOREasTMEroute op =>
    exact of_triple SetWithdrawSCOREasTMErouteOperation.apply_gap trivial h
  | limitOrderCreate2 op => exact of_triple (LimitOrderCreate2Operation.apply_gap hv) trivial h
  | challengeAuthority op => exact of_triple ChallengeAuthorityOperation.apply_gap trivial h
  | proveAuthority op => exact of_triple ProveAuthorityOperation.apply_gap trivial h
  | requestAccountRecovery op =>
    exact of_triple RequestAccountRecoveryOperation.apply_gap trivial h
  | recoverAccount op => exact of_triple RecoverAccountOperation.apply_gap trivial h
  | changeRecoveryAccount op => exact of_triple ChangeRecoveryAccountOperation.apply_gap trivial h
  | escrowTransfer op => exact of_triple EscrowTransferOperation.apply_gap trivial h
  | escrowDispute op => exact EscrowDisputeOperation.apply_gap hd.escrows.keyed h
  | escrowRelease op => exact EscrowReleaseOperation.apply_gap hd.escrows h
  | pow2 op => exact of_triple Pow2Operation.apply_gap trivial h
  | escrowApprove op => exact EscrowApproveOperation.apply_gap hd.escrows.keyed h
  | transferToSavings op => exact of_triple TransferToSavingsOperation.apply_gap trivial h
  | transferFromSavings op => exact of_triple TransferFromSavingsOperation.apply_gap trivial h
  | cancelTransferFromSavings op =>
    exact CancelTransferFromSavingsOperation.apply_gap hd.savingsWithdraws h
  | customBinary _ =>
    obtain ⟨_, -, h⟩ := bind_ok.1 h
    cases h
    rfl
  | declineVotingRights op => exact of_triple DeclineVotingRightsOperation.apply_gap trivial h
  | resetAccount _ => cases h
  | setResetAccount _ => cases h
  | claimRewardBalance op => exact of_triple ClaimRewardBalanceOperation.apply_gap trivial h
  | delegateSCORE op => exact of_triple DelegateSCOREoperation.apply_gap trivial h
  | accountCreateWithDelegation op =>
    exact of_triple (AccountCreateWithDelegationOperation.apply_gap hv) trivial h

/-! ### The steps of a block -/

/-- All is held that was issued: of TME perhaps more, of anything else exactly as much. -/
structure Backed (d : Database) : Prop where
  tidy : d.Tidy
  tme : 0 ≤ d.gap .tme
  rest : ∀ b, b ≠ .tme → d.gap b = 0

theorem updateMedianFeed_gap : ⦃⌜True⌝⦄ d.updateMedianFeed ⦃⇓? d' => ⌜d'.gap = d.gap⌝⦄ := by
  mvcgen [updateMedianFeed]

theorem processConversions_tidy (hd : d.Tidy) (h : d.processConversions = .ok d') :
    d'.Tidy ∧ d'.gap = d.gap := by
  obtain ⟨hgap, hk⟩ := processConversions_gap hd.convertRequests h
  have hcore := of_triple processConversions_core trivial h
  have hsavings : d'.savingsWithdraws = d.savingsWithdraws := congrArg Core.savingsWithdraws hcore
  have hescrows : d'.escrows = d.escrows := congrArg Core.escrows hcore
  refine ⟨⟨hd.routes.congr (congrArg Core.withdrawRoutes hcore), hk, ?_, ?_⟩, hgap⟩
  · exact hsavings ▸ hd.savingsWithdraws
  · exact hd.escrows.of_action (a := .other) hescrows

theorem processSavingsWithdraws_tidy (hd : d.Tidy) (h : d.processSavingsWithdraws = .ok d') :
    d'.Tidy ∧ d'.gap = d.gap := by
  obtain ⟨hgap, hk⟩ := processSavingsWithdraws_gap hd.savingsWithdraws h
  have hcore := of_triple processSavingsWithdraws_core trivial h
  have hconverts : d'.convertRequests = d.convertRequests := congrArg Core.convertRequests hcore
  have hescrows : d'.escrows = d.escrows := congrArg Core.escrows hcore
  refine ⟨⟨hd.routes.congr (congrArg Core.withdrawRoutes hcore), ?_, hk, ?_⟩, hgap⟩
  · exact hconverts ▸ hd.convertRequests
  · exact hd.escrows.of_action (a := .other) hescrows

theorem expireEscrowRatification_tidy (hd : d.Tidy) (h : d.expireEscrowRatification = .ok d') :
    d'.Tidy ∧ d'.gap = d.gap := by
  obtain ⟨hgap, -⟩ := expireEscrowRatification_gap hd.escrows.keyed h
  have hcore := of_triple expireEscrowRatification_core trivial h
  have hconverts : d'.convertRequests = d.convertRequests := congrArg Core.convertRequests hcore
  have hsavings : d'.savingsWithdraws = d.savingsWithdraws := congrArg Core.savingsWithdraws hcore
  refine ⟨⟨hd.routes.congr (congrArg Core.withdrawRoutes hcore), ?_, ?_, ?_⟩, hgap⟩
  · exact hconverts ▸ hd.convertRequests
  · exact hsavings ▸ hd.savingsWithdraws
  · exact hd.escrows.of_action (a := .expire) h

/-- The payments of a block. -/
theorem settle_gap (hd : d.Tidy) (h : d.settle w = .ok d') :
    d'.Tidy ∧ ∃ lost, 0 ≤ lost ∧ d'.gap = d.gap + entry symbolCoin lost := by
  obtain ⟨d₁, h₁, h⟩ := bind_ok.1 h
  obtain ⟨d₂, h₂, h⟩ := bind_ok.1 h
  obtain ⟨d₃, h₃, h⟩ := bind_ok.1 h
  obtain ⟨d₄, h₄, h⟩ := bind_ok.1 h
  obtain ⟨d₅, h₅, h⟩ := bind_ok.1 h
  obtain ⟨d₆, h₆, h⟩ := bind_ok.1 h
  obtain ⟨d₇, h₇, h⟩ := bind_ok.1 h
  obtain ⟨d₈, h₈, h⟩ := bind_ok.1 h
  obtain ⟨d₉, h₉, h⟩ := bind_ok.1 h
  obtain ⟨d₁₀, h₁₀, h⟩ := bind_ok.1 h
  obtain ⟨d₁₁, h₁₁, h⟩ := bind_ok.1 h
  obtain ⟨d₁₂, h₁₂, h⟩ := bind_ok.1 h
  have hd₁ := hd.of_core (of_triple updateMedianFeed_core trivial h₁) rfl rfl rfl rfl
  have hd₂ := hd₁.of_core (of_triple updateVirtualSupply_core trivial h₂) rfl rfl rfl rfl
  have hd₃ := hd₂.of_core (of_triple clearNullAccountBalance_core trivial h₃) rfl rfl rfl rfl
  have hd₄ := hd₃.of_core (of_triple processFunds_core trivial h₄) rfl rfl rfl rfl
  obtain ⟨hd₅, hgap₅⟩ := processConversions_tidy hd₄ h₅
  have hd₆ := hd₅.of_core (of_triple processCommentCashout_core trivial h₆) rfl rfl rfl rfl
  have hgap₇ := processTMEfundForSCOREwithdrawals_gap hd₆.routes h₇
  have hd₇ := hd₆.of_core (of_triple processTMEfundForSCOREwithdrawals_core trivial h₇) rfl rfl rfl
    rfl
  obtain ⟨hd₈, hgap₈⟩ := processSavingsWithdraws_tidy hd₇ h₈
  have hd₉ := hd₈.of_core (of_triple payLiquidityReward_core trivial h₉) rfl rfl rfl rfl
  have hd₁₀ := hd₉.of_core (of_triple updateVirtualSupply_core trivial h₁₀) rfl rfl rfl rfl
  have hd₁₁ := hd₁₀.of_core (of_triple accountRecoveryProcessing_core trivial h₁₁) rfl rfl rfl rfl
  obtain ⟨hd₁₂, hgap₁₂⟩ := expireEscrowRatification_tidy hd₁₁ h₁₂
  refine ⟨hd₁₂.of_core (of_triple processDeclineVotingRights_core trivial h) rfl rfl rfl rfl, ?_⟩
  -- only what the null account has is burned
  obtain ⟨lost, hlost, hgap₃⟩ := of_triple clearNullAccountBalance_gap trivial h₃
  refine ⟨lost, hlost, ?_⟩
  rw [of_triple processDeclineVotingRights_gap trivial h, hgap₁₂,
    of_triple accountRecoveryProcessing_gap trivial h₁₁, of_triple updateVirtualSupply_gap trivial h₁₀,
    of_triple payLiquidityReward_gap trivial h₉, hgap₈, hgap₇,
    of_triple processCommentCashout_gap trivial h₆, hgap₅, of_triple processFunds_gap trivial h₄,
    hgap₃, of_triple updateVirtualSupply_gap trivial h₂, of_triple updateMedianFeed_gap trivial h₁]

theorem endBlock_gap {versions : Name → WitnessVersion} (hd : d.Tidy) (hscore : d.gap .score = 0)
    (h : d.endBlock w versions = .ok d') :
    d'.Tidy ∧ ∃ lost, 0 ≤ lost ∧ d'.gap = d.gap + entry symbolCoin lost := by
  obtain ⟨d₁, h₁, h⟩ := bind_ok.1 h
  obtain ⟨d₂, h₂, h⟩ := bind_ok.1 h
  obtain ⟨d₃, h₃, h⟩ := bind_ok.1 h
  obtain ⟨d₄, h₄, h⟩ := bind_ok.1 h
  have hd₁ := hd.of_core (of_triple clearExpiredOrders_core trivial h₁) rfl rfl rfl rfl
  have hd₂ := hd₁.of_core (of_triple clearExpiredDelegations_core trivial h₂) rfl rfl rfl rfl
  have hd₃ := hd₂.of_core (of_triple updateWitnessSchedule_core trivial h₃) rfl rfl rfl rfl
  obtain ⟨hd₄, lost, hlost, hgap₄⟩ := settle_gap hd₃ h₄
  have hgap₃ : d₃.gap = d.gap := by
    rw [of_triple updateWitnessSchedule_gap trivial h₃, of_triple clearExpiredDelegations_gap trivial h₂,
      of_triple clearExpiredOrders_gap trivial h₁]
  rw [hgap₃] at hgap₄
  have hscore₄ : d₄.gap .score = 0 := by
    rw [hgap₄, Pi.add_apply, hscore]
    rfl
  refine ⟨hd₄.of_core (of_triple processHardforks_core trivial h) rfl rfl rfl rfl, lost, hlost, ?_⟩
  rw [processHardforks_gap hscore₄ h, hgap₄]

theorem missSlot_gap {producer : Name} {i : Nat} :
    ⦃⌜True⌝⦄ missSlot producer d i ⦃⇓? d' => ⌜d'.gap = d.gap⌝⦄ := by
  mvcgen [missSlot, modifyWitness_gap]

theorem fillSlots_issued (l : List Nat) (g : GlobalProperties) :
    (l.foldl fillSlot g).issued = g.issued := by
  induction l generalizing g with
  | nil => rfl
  | cons i l ih => exact ih (fillSlot g i)

theorem setHead_gap {b : Block} {missed : Nat} : (d.setHead env b missed).gap = d.gap :=
  congrArg (d.held - ·) (fillSlots_issued _ d.gpo)

theorem updateGlobalDynamicData_gap {skip : Skip} {b : Block} :
    ⦃⌜True⌝⦄ d.updateGlobalDynamicData env skip b ⦃⇓? d' => ⌜d'.gap = d.gap⌝⦄ := by
  mvcgen [updateGlobalDynamicData, missSlot_gap] invariants
  · ⇓? r => ⌜r.2.gap = d.gap⌝
  all_goals simp_all +zetaDelta [setHead_gap]

theorem updateSigningWitness_gap {b : Block} :
    ⦃⌜True⌝⦄ d.updateSigningWitness b ⦃⇓? d' => ⌜d'.gap = d.gap⌝⦄ := by
  mvcgen [updateSigningWitness, modifyWitness_gap]

theorem updateLastIrreversibleBlock_gap :
    ⦃⌜True⌝⦄ d.updateLastIrreversibleBlock ⦃⇓? d' => ⌜d'.gap = d.gap⌝⦄ := by
  mvcgen [updateLastIrreversibleBlock]

end Database

namespace ChainState

variable {env : Env} {s s' : ChainState} {b : Block}

theorem finishBlock_gap {skip : Skip} (hs : s.db.Backed) (h : s.finishBlock env skip b = .ok s') :
    s'.db.Backed := by
  obtain ⟨d₁, d₂, d₃, d₄, h₁, h₂, h₃, h₄, rfl⟩ := finishBlock_ok.1 h
  have hd₁ := hs.tidy.of_core (of_triple Database.updateGlobalDynamicData_core trivial h₁)
    rfl rfl rfl rfl
  have hd₂ := hd₁.of_core (of_triple Database.updateSigningWitness_core trivial h₂) rfl rfl rfl rfl
  have hd₃ := hd₂.of_core (of_triple Database.updateLastIrreversibleBlock_core trivial h₃)
    rfl rfl rfl rfl
  have hgap : d₃.gap = s.db.gap := by
    rw [of_triple Database.updateLastIrreversibleBlock_gap trivial h₃,
      of_triple Database.updateSigningWitness_gap trivial h₂,
      of_triple Database.updateGlobalDynamicData_gap trivial h₁]
  have hscore : (d₃.createBlockSummary env b).gap .score = 0 := by
    show d₃.gap .score = 0
    rw [hgap]
    exact hs.rest .score (fun hb => Holding.noConfusion hb)
  obtain ⟨hd₄, lost, hlost, hgap₄⟩ :=
    Database.endBlock_gap (d := d₃.createBlockSummary env b) (hd₃.congr rfl rfl rfl rfl) hscore h₄
  have hgap' : d₄.gap = s.db.gap + entry symbolCoin lost := hgap₄.trans (congrArg (· + _) hgap)
  refine ⟨hd₄, ?_, fun b hb => ?_⟩
  · rw [hgap', Pi.add_apply, entry_coin, if_pos rfl]
    exact Int.add_nonneg hs.tme hlost
  · rw [hgap', Pi.add_apply, entry_coin, if_neg hb, hs.rest b hb]
    rfl

theorem applyBlock_backed (hs : s.db.Backed) (h : s.applyBlock env .nothing b = .ok s') :
    s'.db.Backed := by
  obtain ⟨s₁, s₂, hstart, htransactions, hfinish⟩ := applyBlock_ok.1 h
  refine finishBlock_gap ?_ hfinish
  refine run_induction (P := fun _ e => e.db.Backed) htransactions
    (by rwa [(startBlock_keeps hstart).1]) ?_
  intro _ e t e' he _ hstep
  obtain ⟨hcheck, d, hd, rfl⟩ := applyTransaction_ok.1 hstep
  have hvalid := ((checkTransaction_ok.1 hcheck).1 rfl).2
  refine run_induction (P := fun _ d => d.Backed) hd he ?_
  intro _ d o d' hd ho hop
  have hv := forM_each hvalid ho
  have hgap := Database.applyOperation_gap hd.tidy hv hop
  exact ⟨Database.applyOperation_tidy hd.tidy hv hop, hgap ▸ hd.tme, hgap ▸ hd.rest⟩

theorem initGenesis_gap : (Database.initGenesis initSupply).gap = 0 := by
  funext b
  cases b <;> decide +kernel

theorem Reachable.backed (h : Reachable env s) : s.db.Backed := by
  induction h with
  | genesis =>
    refine ⟨⟨?_, .empty, .empty, ?_⟩, ?_, ?_⟩
    · exact fun r hr => (List.not_mem_nil hr).elim
    · refine ⟨.empty, fun {i e} he _ => ?_⟩
      cases he
    · exact (congrFun initGenesis_gap .tme).ge
    · exact fun b _ => congrFun initGenesis_gap b
  | block b _ hb ih => exact applyBlock_backed ih hb

end ChainState

/-! ### The sums of `validate_invariants` -/

/- The sums of a `Totals`: TME, TSD, all SCORE and the value of the rewards. -/
def books : (Holding → Int) →+ Int × Int × Int × Int where
  toFun x := (x .tme, x .tsd, x .score + x .reward, x .rewardValue)
  map_zero' := rfl
  map_add' x y := by
    simp only [Pi.add_apply, Prod.mk_add_mk, Prod.mk.injEq, true_and, and_true]
    ring

def Totals.books (t : Totals) : Int × Int × Int × Int :=
  (t.supply, t.tsd, t.score, t.pendingSCOREvalueInTME)

namespace Totals

variable {t t' : Totals}

theorem addAccount_books {a : Account} (h : t.addAccount a = .ok t') :
    t'.books = t.books + Chain.books a.worth := by
  have hsum {l : List Int} {x y : Int} (hl : l.foldlM safeAdd x = .ok y) : y = x + (l.map id).sum :=
    run_adds (m := id) hl fun _ _ _ hx => safeAdd_ok hx
  obtain ⟨supply, hsupply, h⟩ := bind_ok.1 h
  obtain ⟨tsd, htsd, h⟩ := bind_ok.1 h
  obtain ⟨score, hscore, h⟩ := bind_ok.1 h
  obtain ⟨value, hvalue, h⟩ := bind_ok.1 h
  -- the votes are read in two ways
  split at h
  all_goals
    obtain ⟨_, -, h⟩ := bind_ok.1 h
    obtain ⟨_, -, h⟩ := bind_ok.1 h
    cases h
    simp [Totals.books, Chain.books, Account.worth, hsum hsupply, hsum htsd, hsum hscore,
      safeAdd_ok hvalue]
    omega

theorem addAsset_books {a : Asset} {text : String} (h : t.addAsset text a = .ok t') :
    t'.books = t.books + Chain.books a.worth := by
  unfold addAsset at h
  split at h
  · next hcoin =>
    obtain ⟨x, hx, h⟩ := bind_ok.1 h
    cases h
    simp [Totals.books, Chain.books, Asset.worth, hcoin, entry_coin, safeAdd_ok hx]
  · split at h
    · next husd =>
      obtain ⟨x, hx, h⟩ := bind_ok.1 h
      cases h
      simp [Totals.books, Chain.books, Asset.worth, husd, entry_usd, safeAdd_ok hx]
    · cases h

theorem addOrder_books {o : LimitOrder} (h : t.addOrder o = .ok t') :
    t'.books = t.books + Chain.books o.amountForSale.worth := by
  unfold addOrder at h
  split at h
  · next hcoin =>
    obtain ⟨x, hx, h⟩ := bind_ok.1 h
    cases h
    simp [Totals.books, Chain.books, Asset.worth, LimitOrder.amountForSale, hcoin, entry_coin,
      safeAdd_ok hx]
  · next hcoin =>
    split at h
    · next husd =>
      obtain ⟨x, hx, h⟩ := bind_ok.1 h
      cases h
      simp [Totals.books, Chain.books, Asset.worth, LimitOrder.amountForSale, husd, entry_usd,
        safeAdd_ok hx]
    · next husd =>
      cases h
      simp [Chain.books, Asset.worth, LimitOrder.amountForSale, entry, Holding.symbol,
        Ne.symm hcoin, Ne.symm husd]

theorem addEscrow_books {e : Escrow} (h : t.addEscrow e = .ok t') :
    t'.books = t.books + Chain.books e.worth := by
  obtain ⟨supply, hsupply, h⟩ := bind_ok.1 h
  obtain ⟨tsd, htsd, h⟩ := bind_ok.1 h
  obtain ⟨hcoin, rfl⟩ := of_triple Asset.add_spec trivial hsupply
  obtain ⟨husd, rfl⟩ := of_triple Asset.add_spec trivial htsd
  have hcoin : e.tmeBalance.symbol = symbolCoin := hcoin.symm
  have husd : e.tsdBalance.symbol = symbolUsd := husd.symm
  rw [addAsset_books h, Escrow.worth, map_add, map_add]
  simp [Totals.books, Chain.books, Asset.worth, Asset.coin, Asset.usd, hcoin, husd, entry_coin,
    entry_usd, Int.add_assoc]

end Totals

/-- The sums differ from the supplies by what is held beyond them. -/
theorem Database.totals_gap {d : Database} {t : Totals} (h : d.totals = .ok t) :
    t.books = (d.gpo.currentSupply, d.gpo.currentTSDsupply,
      d.gpo.totalSCORE + d.gpo.pendingRewardedSCORE, d.gpo.pendingRewardedSCOREvalueInTME) +
        books d.gap := by
  obtain ⟨t₁, h₁, h⟩ := bind_ok.1 h
  obtain ⟨t₂, h₂, h⟩ := bind_ok.1 h
  obtain ⟨t₃, h₃, h⟩ := bind_ok.1 h
  obtain ⟨t₄, h₄, h⟩ := bind_ok.1 h
  obtain ⟨t₅, h₅, h⟩ := bind_ok.1 h
  obtain ⟨supply, hsupply, h⟩ := bind_ok.1 h
  obtain ⟨funds, hfunds, h⟩ := bind_ok.1 h
  obtain ⟨all, hall, h⟩ := bind_ok.1 h
  cases h
  have hobjects : t₅.books = books (d.accounts.sum Account.worth +
      d.convertRequests.sum (·.amount.worth) + d.limitOrders.sum (·.amountForSale.worth) +
      d.escrows.sum Escrow.worth + d.savingsWithdraws.sum (·.amount.worth)) := by
    rw [run_adds h₅ fun _ _ _ => Totals.addAsset_books, run_adds h₄ fun _ _ _ => Totals.addEscrow_books,
      run_adds h₃ fun _ _ _ => Totals.addOrder_books, run_adds h₂ fun _ _ _ => Totals.addAsset_books,
      run_adds h₁ fun _ _ _ => Totals.addAccount_books]
    simp only [map_add, Table.sum, map_list_sum, List.map_map]
    exact congrArg (· + _ + _ + _ + _) (zero_add _)
  have hsupply := run_adds (m := id) (g := id) hsupply fun _ _ _ => safeAdd_ok
  have hfunds := run_adds (m := id) (g := id) hfunds fun _ _ _ => safeAdd_ok
  have hall := safeAdd_ok hall
  have hgap : d.gap = d.accounts.sum Account.worth + d.convertRequests.sum (·.amount.worth) +
      d.limitOrders.sum (·.amountForSale.worth) + d.escrows.sum Escrow.worth +
      d.savingsWithdraws.sum (·.amount.worth) +
      entry symbolCoin (d.rewardFunds.sum (·.rewardBalance)) - d.gpo.issued := rfl
  rw [hgap, map_sub, map_add, ← hobjects]
  simp [Totals.books, books, entry_coin, GlobalProperties.issued, Table.sum] at hsupply hfunds ⊢
  omega

/- An order of a genesis account, and TME that it makes SCORE. -/
def demoHoldings : Transaction where
  refBlockNum := 0
  refBlockPrefix := 0
  expiration := genesisTime + 60
  operations :=
    [.limitOrderCreate ⟨Database.genesisAccountName 1, 1, .coin 1000, .usd 10, false,
      genesisTime + 100000⟩,
    .transferTMEtoSCOREfund ⟨Database.genesisAccountName 1, Database.genesisAccountName 2, .coin 500⟩]
  signatures := [initPublicKey]

end WeNode.Chain
