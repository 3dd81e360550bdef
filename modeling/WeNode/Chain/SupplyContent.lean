import Mathlib
import WeNode.Chain.SupplyFunds

/-!
# The supply through the payout of content

What curators, beneficiaries and the author of a comment get is claimed from a fund.
-/

set_option mvcgen.warning false

namespace WeNode.Chain

open WeNode.Lib Std.Do

theorem u128_ofUint64 {x : Nat} (h : x < 9223372036854775808) : u128 (ofUint64 x) = x := by
  rw [ofUint64_of_lt h, u128_of_nonneg (by omega) (by unfold int64Max; omega), Int.toNat_natCast]

/- A reward is no negative number, and as a number of 128 bits the same. -/
theorem getSCOREreward_lt {ctx : CommentRewardContext} {x : Nat} (h : getSCOREreward ctx = .ok x) :
    u128 (ofUint64 x) < 9223372036854775808 := by
  obtain ⟨_, -, h⟩ := bind_ok.1 h
  obtain ⟨_, -, h⟩ := bind_ok.1 h
  obtain ⟨claim, -, h⟩ := bind_ok.1 h
  obtain ⟨_, hpayout, h⟩ := bind_ok.1 h
  have hpayout := require_ok hpayout
  obtain ⟨dust, -, h⟩ := bind_ok.1 h
  obtain ⟨max, -, h⟩ := bind_ok.1 h
  cases h
  rw [u128_ofUint64 (lt_of_le_of_lt (min_le_left _ _) ?_)]
  · exact lt_of_le_of_lt (min_le_left _ _) (by split <;> omega)
  · split <;> omega

namespace Database

variable {d d' : Database}

theorem payCurator_gap {x : Int} {n : Nat} {s : Database × Int} {v : CommentVote} :
    ⦃⌜True⌝⦄ payCurator x n s v
      ⦃⇓? r => ⌜r.1.gap + entry symbolCoin r.2 = s.1.gap + entry symbolCoin s.2⌝⦄ := by
  mvcgen [payCurator, createTMEfundForSCORE_gap, modifyAccount_same]
  simp_all

/-- What is paid to curators, and what is not, is what they may get. -/
theorem payCurators_gap {c : Comment} {x : Int} :
    ⦃⌜True⌝⦄ d.payCurators c x ⦃⇓? r => ⌜r.1.gap = d.gap + entry symbolCoin r.2.2 ∧
      (r.2.1 + r.2.2 = x ∨ r.2.1 = 0 ∧ r.2.2 = 0)⌝⦄ := by
  have hpayCurator := @payCurator_gap
  mvcgen [payCurators, hpayCurator] invariants
  · ⇓? r => ⌜r.2.1.gap + entry symbolCoin r.2.2 = d.gap + entry symbolCoin x⌝
  all_goals simp_all
  rw [← add_sub_assoc, eq_sub_iff_add_eq]
  assumption

theorem payBeneficiary_gap {x : Int} {s : Database × Int} {b : Beneficiary} :
    ⦃⌜True⌝⦄ payBeneficiary x s b
      ⦃⇓? r => ⌜r.1.gap - entry symbolCoin r.2 = s.1.gap - entry symbolCoin s.2⌝⦄ := by
  mvcgen [payBeneficiary, createTMEfundForSCORE_gap]
  simp_all

theorem adjustTotalPayout_gap {comment : Nat} {a b c : Asset} :
    ⦃⌜True⌝⦄ d.adjustTotalPayout comment a b c ⦃⇓? d' => ⌜d'.gap = d.gap⌝⦄ := by
  mvcgen [adjustTotalPayout, modifyComment_gap]

/- The curators, the beneficiaries and the author get what is claimed, which is the reward, or what
of it the curators leave. -/
theorem payComment_gap {c : Comment} {n : Nat} {r : Database × Int}
    (h : d.payComment c n = .ok r) : r.1.gap = d.gap + entry symbolCoin r.2 ∧
      ∃ percent, d.getCurationRewardsPercent = .ok percent ∧ (r.2 = ofUint64 n ∨
        r.2 = ofUint64 n - ofUint64 (u128Mul n percent / percent100)) := by
  obtain ⟨percent, hpercent, h⟩ := bind_ok.1 h
  obtain ⟨cut, hcut, h⟩ := bind_ok.1 h
  obtain ⟨n', hn', h⟩ := bind_ok.1 h
  obtain ⟨author₀, hauthor₀, h⟩ := bind_ok.1 h
  obtain ⟨⟨d₁, unclaimed, curation⟩, h₁, h⟩ := bind_ok.1 h
  obtain ⟨author₁, hauthor₁, h⟩ := bind_ok.1 h
  obtain ⟨claimed, hclaimed, h⟩ := bind_ok.1 h
  obtain ⟨⟨d₂, beneficiaries⟩, h₂, h⟩ := bind_ok.1 h
  obtain ⟨author₂, hauthor₂, h⟩ := bind_ok.1 h
  obtain ⟨product, -, h⟩ := bind_ok.1 h
  obtain ⟨tsdValue, -, h⟩ := bind_ok.1 h
  obtain ⟨scoreValue, hscore, h⟩ := bind_ok.1 h
  obtain ⟨⟨d₃, score⟩, h₃, h⟩ := bind_ok.1 h
  obtain ⟨⟨d₄, tsd, tme⟩, h₄, h⟩ := bind_ok.1 h
  obtain ⟨tmeTotal, -, h⟩ := bind_ok.1 h
  obtain ⟨tsdTotal, -, h⟩ := bind_ok.1 h
  obtain ⟨total, -, h⟩ := bind_ok.1 h
  obtain ⟨curatorTSD, -, h⟩ := bind_ok.1 h
  obtain ⟨beneficiaryTSD, -, h⟩ := bind_ok.1 h
  obtain ⟨d₅, h₅, h⟩ := bind_ok.1 h
  obtain ⟨claimedTSD, -, h⟩ := bind_ok.1 h
  obtain ⟨d₆, h₆, h⟩ := bind_ok.1 h
  obtain ⟨d₇, h₇, h⟩ := bind_ok.1 h
  cases h
  obtain ⟨hd₁, hsplit⟩ := of_triple payCurators_gap trivial h₁
  have hd₂ : d₂.gap - entry symbolCoin beneficiaries = d₁.gap := by
    refine run_induction (P := fun _ s => s.1.gap - entry symbolCoin s.2 = d₁.gap) h₂ (by simp)
      fun _ _ _ _ hs _ hf => (of_triple payBeneficiary_gap trivial hf).trans hs
  have hd₃ := of_triple createTMEfundForSCORE_gap trivial h₃
  have hd₄ := of_triple createTSD_gap trivial h₄
  have hd₅ := of_triple adjustTotalPayout_gap trivial h₅
  have hd₆ := of_triple modifyComment_gap trivial h₆
  have hd₇ : d₇.gap = d₆.gap := of_triple (modifyAccount_same fun a => by mvcgen) trivial h₇
  refine ⟨?_, percent, hpercent, ?_⟩
  · dsimp only at hd₁ hd₂ hd₃ hd₄ hd₅ hd₆ hd₇ ⊢
    rw [hd₇, hd₆, hd₅, hd₄, hd₃, sub_eq_iff_eq_add.1 hd₂, hd₁, safeAdd_ok hclaimed,
      safeSub_ok hscore, safeSub_ok hauthor₂]
    simp only [Asset.amount_coin, entry_add, entry_sub]
    abel
  · obtain ⟨rfl, -⟩ := toUint64_ok hcut
    obtain ⟨rfl, -⟩ := toUint64_ok hn'
    have hauthor₀ := safeSub_ok hauthor₀
    have hauthor₁ := safeAdd_ok hauthor₁
    have hclaimed := safeAdd_ok hclaimed
    dsimp only at hsplit ⊢
    omega

/- Before hardfork 17 at most half of a reward is for curators. -/
theorem getCurationRewardsPercent_le {percent : Nat}
    (h : d.getCurationRewardsPercent = .ok percent) (h17 : d.hasHardfork 17 = false) :
    percent ≤ percent100 := by
  simp only [getCurationRewardsPercent, h17, Bool.false_eq_true, if_false] at h
  split at h
  all_goals
    cases h
    decide

/- Before hardfork 17 nothing negative is claimed. -/
theorem payComment_nonneg {c : Comment} {n : Nat} {r : Database × Int}
    (h : d.payComment c n = .ok r) (hn : n < 9223372036854775808)
    (h17 : d.hasHardfork 17 = false) : 0 ≤ r.2 := by
  obtain ⟨-, percent, hpercent, hr⟩ := payComment_gap h
  have hpercent := getCurationRewardsPercent_le hpercent h17
  have hcut : u128Mul n percent / percent100 ≤ n := by
    refine Nat.div_le_of_le_mul ((Nat.mod_le _ _).trans ?_)
    rw [Nat.mul_comm]
    exact Nat.mul_le_mul_right n hpercent
  rw [ofUint64_of_lt hn, ofUint64_of_lt (hcut.trans_lt hn)] at hr
  omega

theorem settleVote_gap {comment : Nat} {v : CommentVote} :
    ⦃⌜True⌝⦄ settleVote comment d v ⦃⇓? d' => ⌜d'.gap = d.gap⌝⦄ := by
  mvcgen [settleVote, modifyCommentVote_gap]

@[simp] theorem gap_adjustSCOREreward2 (d : Database) (old new : Nat) :
    (d.adjustSCOREreward2 old new).gap = d.gap := rfl

theorem payReward_gap {ctx : CommentRewardContext} {c : Comment} :
    ⦃⌜True⌝⦄ d.payReward ctx c ⦃⇓? r => ⌜r.1.gap = d.gap + entry symbolCoin r.2 ∧
      (d.hasHardfork 17 = false → 0 ≤ r.2)⌝⦄ := by
  have hpay : ∀ n, ⦃⌜True⌝⦄ d.payComment c n ⦃⇓? r => ⌜r.1.gap = d.gap + entry symbolCoin r.2 ∧
      (n < 9223372036854775808 → d.hasHardfork 17 = false → 0 ≤ r.2)⌝⦄ := fun n =>
    triple_of fun _ r h => ⟨(payComment_gap h).1, payComment_nonneg h⟩
  mvcgen [payReward, hpay]
  all_goals grind [getSCOREreward_lt, gap_adjustSCOREreward2, entry_zero]

theorem cashoutCommentHelper_gap {ctx : CommentRewardContext} {comment : Nat} :
    ⦃⌜True⌝⦄ d.cashoutCommentHelper ctx comment
      ⦃⇓? r => ⌜r.1.gap = d.gap + entry symbolCoin r.2 ∧
        (d.hasHardfork 17 = false → 0 ≤ r.2)⌝⦄ := by
  apply triple_of
  intro _ r h
  obtain ⟨c, -, h⟩ := bind_ok.1 h
  obtain ⟨⟨d₁, claimed⟩, h₁, h⟩ := bind_ok.1 h
  obtain ⟨d₂, h₂, h⟩ := bind_ok.1 h
  obtain ⟨d₃, h₃, h⟩ := bind_ok.1 h
  cases h
  have hvotes : d₃.gap = d₂.gap := run_induction (P := fun _ e => e.gap = d₂.gap) h₃ rfl
    fun _ _ _ _ he _ hf => (of_triple settleVote_gap trivial hf).trans he
  have hcomment : d₂.gap = d₁.gap := of_triple modifyComment_gap trivial h₂
  have hreward := of_triple payReward_gap trivial h₁
  dsimp only at hreward ⊢
  rwa [hvotes, hcomment]

/- What is positive leaves the fund, and nothing is negative. -/
theorem cashoutReply_gap {price : Price} {comment : Nat} (h17 : d.hasHardfork 17 = false) :
    ⦃⌜True⌝⦄ cashoutReply price d comment ⦃⇓? d' => ⌜d'.gap = d.gap⌝⦄ := by
  apply triple_of
  intro _ d' h
  obtain ⟨⟨d₁, reward⟩, h₁, h⟩ := bind_ok.1 h
  obtain ⟨hgap, hnonneg⟩ := of_triple cashoutCommentHelper_gap trivial h₁
  dsimp only at h hgap hnonneg
  split at h
  · rw [(modifyGpo_adds (x := entry symbolCoin reward) h fun g => ?_).2, hgap, add_sub_cancel_right]
    clear * -
    mvcgen
    subst_vars
    funext b
    cases b <;> simp [GlobalProperties.issued, entry_coin]
    omega
  · next hpos =>
    cases h
    rw [hgap, le_antisymm (Int.not_lt.1 hpos) (hnonneg h17), entry_zero, add_zero]

/- What the funds have awarded so far. -/
def awarded (funds : List RewardFundContext) : Int := (funds.map (·.tmeAwarded)).sum

theorem awarded_set {funds : List RewardFundContext} {i : Nat} {f f' : RewardFundContext}
    (h : funds[i]? = some f) :
    awarded (funds.set i f') = awarded funds + (f'.tmeAwarded - f.tmeAwarded) := by
  obtain ⟨hi, rfl⟩ := List.getElem?_eq_some_iff.1 h
  unfold awarded
  rw [List.map_set, List.sum_set', dif_pos (by simpa using hi), List.getElem_map]
  omega

theorem awarded_addClaims {funds funds' : List RewardFundContext} {c : Comment}
    (h : d.addClaims funds c = .ok funds') : awarded funds' = awarded funds := by
  unfold addClaims at h
  split at h
  · obtain ⟨rf, -, h⟩ := bind_ok.1 h
    obtain ⟨claim, -, h⟩ := bind_ok.1 h
    cases h
    unfold awarded
    congr 1
    refine List.ext_getElem (by simp) fun n _ _ => ?_
    simp only [List.getElem_map, List.getElem_modify]
    split <;> rfl
  · cases h
    rfl

theorem cashoutFirst_gap {price : Price} {funds : List RewardFundContext} {c : Comment}
    {r : Database × List RewardFundContext} (h : cashoutFirst price d funds c = .ok r) :
    r.1.gap - entry symbolCoin (awarded r.2) = d.gap - entry symbolCoin (awarded funds) := by
  unfold cashoutFirst at h
  split at h
  · obtain ⟨rf, -, h⟩ := bind_ok.1 h
    obtain ⟨fund, hfund, h⟩ := bind_ok.1 h
    obtain ⟨⟨d₁, reward⟩, h₁, h⟩ := bind_ok.1 h
    obtain ⟨sum, hsum, h⟩ := bind_ok.1 h
    cases h
    obtain ⟨hgap, -⟩ := of_triple cashoutCommentHelper_gap trivial h₁
    dsimp only at hgap hsum ⊢
    rw [awarded_set (found_ok hfund), safeAdd_ok hsum, hgap, add_sub_cancel_left, entry_add]
    abel
  · next h17 =>
    obtain ⟨d₁, h₁, h⟩ := bind_ok.1 h
    cases h
    have hgap : d₁.gap = d.gap ∧ d₁.hasHardfork 17 = d.hasHardfork 17 := by
      refine run_induction (P := fun _ e => e.gap = d.gap ∧ e.hasHardfork 17 = d.hasHardfork 17) h₁
        ⟨rfl, rfl⟩ fun _ e id e' he _ hf => ?_
      have he17 : e.hasHardfork 17 = false := he.2.trans (by simpa using h17)
      refine ⟨(of_triple (cashoutReply_gap he17) trivial hf).trans he.1, he.2 ▸ ?_⟩
      rw [hasHardfork_core, hasHardfork_core, of_triple cashoutReply_core trivial hf]
    rw [hgap.1]

theorem cashoutLoop_gap {price : Price} {fuel : Nat} {funds : List RewardFundContext}
    {r : Database × List RewardFundContext} (h : cashoutLoop price fuel d funds = .ok r) :
    r.1.gap - entry symbolCoin (awarded r.2) = d.gap - entry symbolCoin (awarded funds) := by
  induction fuel generalizing d funds with
  | zero => cases h
  | succ fuel ih =>
    unfold cashoutLoop at h
    split at h
    · cases h
      rfl
    · obtain ⟨⟨d₁, funds₁⟩, h₁, h⟩ := bind_ok.1 h
      have hfirst := cashoutFirst_gap h₁
      dsimp only at h hfirst
      rw [ih h, hfirst]

theorem decayClaims_gap {id : Nat} {e : Database} :
    ⦃⌜True⌝⦄ d.modifyRewardFund id e.decayClaims ⦃⇓? d' => ⌜d'.gap = d.gap⌝⦄ := by
  apply triple_of
  intro _ d' h
  have hgap : d'.gap = d.gap + entry symbolCoin 0 := by
    refine modifyRewardFund_adds h fun r => ?_
    mvcgen [decayClaims]
    exact (add_zero _).symm
  rw [hgap, entry_zero, add_zero]

/- The funds pay what they have awarded. -/
theorem writeFunds_gap {funds : List RewardFundContext} {i : Nat}
    (h : (funds.zipIdx i).foldlM (fun (d : Database) (p : RewardFundContext × Nat) => d.writeFund p.2 p.1) d = .ok d') :
    d'.gap = d.gap - entry symbolCoin (awarded funds) := by
  induction funds generalizing d i with
  | nil =>
    cases h
    simp [awarded]
  | cons f rest ih =>
    obtain ⟨d₁, h₁, h⟩ := run_cons.1 h
    have hgap : d₁.gap = d.gap + entry symbolCoin (-f.tmeAwarded) := by
      refine modifyRewardFund_adds h₁ fun r => ?_
      mvcgen
    have hsum : awarded (f :: rest) = f.tmeAwarded + awarded rest := List.sum_cons
    rw [ih h, hgap, hsum, entry_neg, entry_add]
    abel

/- A cashout from funds that have awarded nothing yet. -/
theorem cashout_gap {price : Price} {fuel : Nat} {funds : List RewardFundContext}
    (hf : awarded funds = 0) (h : (do
      let r ← cashoutLoop price fuel d funds
      r.2.zipIdx.foldlM (fun (d : Database) (p : RewardFundContext × Nat) => d.writeFund p.2 p.1) r.1) = .ok d') : d'.gap = d.gap := by
  obtain ⟨r, hr, h⟩ := bind_ok.1 h
  have hloop := cashoutLoop_gap hr
  rw [hf, entry_zero, sub_zero] at hloop
  exact (writeFunds_gap h).trans hloop

/-- The funds pay for the content that is due. -/
theorem processCommentCashout_gap :
    ⦃⌜True⌝⦄ d.processCommentCashout ⦃⇓? d' => ⌜d'.gap = d.gap⌝⦄ := by
  apply triple_of
  intro _ d' h
  unfold processCommentCashout at h
  split at h
  · cases h
    rfl
  · obtain ⟨d₁, h₁, h⟩ := bind_ok.1 h
    have hdecay : d₁.gap = d.gap := run_induction (P := fun _ e => e.gap = d.gap) h₁ rfl
      fun _ _ _ _ he _ hf => (of_triple decayClaims_gap trivial hf).trans he
    dsimp only at h
    have hzero : awarded (d₁.rewardFunds.rows.map fun f =>
        { recentClaims := f.recentClaims, rewardBalance := f.rewardBalance }) = 0 := by
      simp [awarded, Function.comp_def]
    rw [← hdecay]
    split at h
    · obtain ⟨funds, hclaims, h⟩ := bind_ok.1 h
      refine cashout_gap ?_ h
      exact run_induction (P := fun _ f => awarded f = 0) hclaims hzero
        fun _ _ _ _ hf _ h => (awarded_addClaims h).trans hf
    · exact cashout_gap hzero h

end Database
end WeNode.Chain
