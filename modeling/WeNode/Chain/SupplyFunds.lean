import Mathlib
import WeNode.Chain.Supply
import WeNode.Chain.CoreFunds
import WeNode.Lib.DueRows

/-!
# The supply through the payments of a block
-/

set_option mvcgen.warning false

namespace WeNode.Chain

open WeNode.Lib Std.Do

namespace Asset

@[simp] theorem worth_coin (x : Int) : (coin x).worth = entry symbolCoin x := rfl
@[simp] theorem worth_usd (x : Int) : (usd x).worth = entry symbolUsd x := rfl
@[simp] theorem amount_coin (x : Int) : (coin x).amount = x := rfl
@[simp] theorem amount_usd (x : Int) : (usd x).amount = x := rfl
theorem symbol_coin (x : Int) : (coin x).symbol = symbolCoin := rfl

end Asset

namespace Database

variable {d d' : Database}

theorem createTSD_gap {name : Name} {tme : Int} {reward : Bool} :
    ⦃⌜True⌝⦄ d.createTSD name (.coin tme) reward
      ⦃⇓? r => ⌜r.1.gap = d.gap + entry symbolCoin tme⌝⦄ := by
  mvcgen [createTSD, adjustPayout_gap, adjustBalance_gap, adjustSupply_gap]
  all_goals simp_all
  abel

/- The SCORE of a reward waits for its claim, with the TME it is worth. -/
theorem addReward_gap {name : Name} {tme new : Asset} {d₁ : Database}
    (h₁ : (d.modifyAccount name fun a => do
      let score ← Asset.add (.score a.scoreRewardBalance) new
      let value ← Asset.add (.coin a.scoreRewardBalanceInTME) tme
      return { a with
        scoreRewardBalance := score.amount
        scoreRewardBalanceInTME := value.amount }) = .ok d₁)
    (h₂ : (d₁.modifyGpo fun g => do
      return { g with
        pendingRewardedSCORE := ← safeAdd g.pendingRewardedSCORE new.amount
        pendingRewardedSCOREvalueInTME := ←
          safeAdd g.pendingRewardedSCOREvalueInTME tme.amount }) = .ok d') :
    d'.gap = d.gap + entry symbolCoin tme.amount := by
  rw [(modifyGpo_adds (x := Pi.single Holding.reward new.amount +
      Pi.single Holding.rewardValue tme.amount - entry symbolCoin tme.amount) h₂ ?_).2,
    modifyAccount_adds (x := Pi.single Holding.reward new.amount +
      Pi.single Holding.rewardValue tme.amount) h₁ ?_]
  · abel
  · intro a
    mvcgen
    simp_all
    funext b
    cases b <;> simp [Account.worth, Pi.single, Function.update, Asset.score]
  · intro g
    mvcgen
    simp_all
    funext b
    cases b <;> simp [GlobalProperties.issued, Pi.single, Function.update, entry_coin]
    omega

/- SCORE enters the fund with the TME it is converted from. -/
theorem addSCORE_gap {name : Name} {tme new : Asset} {d₁ : Database}
    (h₁ : (d.modifyAccount name fun a => do
      let score ← Asset.add (.score a.score) new
      return { a with score := score.amount }) = .ok d₁)
    (h₂ : (d₁.modifyGpo fun g => do
      let fund ← Asset.add (.coin g.totalTMEfundForSCORE) tme
      return { g with
        totalTMEfundForSCORE := fund.amount
        totalSCORE := ← safeAdd g.totalSCORE new.amount }) = .ok d') :
    d'.gap = d.gap + entry symbolCoin tme.amount := by
  rw [(modifyGpo_adds (x := Pi.single Holding.score new.amount - entry symbolCoin tme.amount)
      h₂ ?_).2,
    modifyAccount_adds (x := Pi.single Holding.score new.amount) h₁ ?_]
  · abel
  · intro a
    mvcgen
    simp_all
    funext b
    cases b <;> simp [Account.worth, Pi.single, Function.update, Asset.score]
  · intro g
    mvcgen
    simp_all
    funext b
    cases b <;> simp [GlobalProperties.issued, entry_coin, Pi.single, Function.update]
    omega

theorem createTMEfundForSCORE_gap {name : Name} {tme : Asset} {reward : Bool} :
    ⦃⌜True⌝⦄ d.createTMEfundForSCORE name tme reward
      ⦃⇓? r => ⌜r.1.gap = d.gap + entry symbolCoin tme.amount⌝⦄ := by
  apply triple_of
  intro _ r h
  cases reward with
  | true =>
    simp only [createTMEfundForSCORE, if_true, bind_ok] at h
    obtain ⟨price, -, new, -, d₁, h₁, d₂, h₂, h⟩ := h
    cases h
    exact addReward_gap h₁ h₂
  | false =>
    simp only [createTMEfundForSCORE, Bool.false_eq_true, if_false, bind_ok] at h
    obtain ⟨price, -, new, -, d₁, h₁, d₂, h₂, d₃, h₃, h⟩ := h
    cases h
    exact (of_triple adjustProxiedWitnessVotes_gap trivial h₃).trans (addSCORE_gap h₁ h₂)

theorem payFee_gap {name : Name} {fee : Asset} :
    ⦃⌜True⌝⦄ d.payFee name fee ⦃⇓? d' => ⌜d'.gap = d.gap⌝⦄ := by
  mvcgen [payFee, adjustBalance_gap, adjustSupply_gap]
  all_goals simp_all [Asset.worth]

/-! ### Burning -/

/- A change of the account `name`, which the global properties were changed before. -/
theorem modifyGpo_account {name : Name} {a : Account}
    {f : GlobalProperties → Result GlobalProperties} {g : Account → Account} {x y : Holding → Int}
    {d₁ : Database} (ha : d.getAccount name = .ok a)
    (h₁ : d.modifyGpo f = .ok d₁) (h₂ : (d₁.modifyAccount name fun a => .ok (g a)) = .ok d')
    (hf : ∀ g, ⦃⌜True⌝⦄ f g ⦃⇓? g' => ⌜g'.issued = g.issued + x⌝⦄)
    (hg : (g a).worth = a.worth + y) : d'.gap = d.gap - x + y := by
  obtain ⟨haccounts, hgap₁⟩ := modifyGpo_adds h₁ hf
  obtain ⟨a₁, a', ha₁, ha', hgap⟩ := of_triple modifyAccount_gap trivial h₂
  unfold getAccount findAccount at ha ha₁
  rw [haccounts, ha] at ha₁
  cases ha₁
  cases ha'
  rw [hgap, hgap₁, hg, add_sub_cancel_left]

theorem burnSCORE_gap {total : Int} :
    ⦃⌜True⌝⦄ d.burnSCORE total
      ⦃⇓? r => ⌜r.1.gap = d.gap - entry symbolCoin (r.2 - total)⌝⦄ := by
  apply triple_of
  intro _ r h
  unfold burnSCORE at h
  obtain ⟨null, hnull, h⟩ := bind_ok.1 h
  split at h
  · obtain ⟨converted, -, h⟩ := bind_ok.1 h
    obtain ⟨d₁, h₁, h⟩ := bind_ok.1 h
    obtain ⟨d₂, h₂, h⟩ := bind_ok.1 h
    obtain ⟨burned, hburned, h⟩ := bind_ok.1 h
    cases h
    obtain ⟨-, rfl⟩ := of_triple Asset.add_spec trivial hburned
    rw [modifyGpo_account
      (x := entry symbolCoin converted.amount - Pi.single Holding.score null.score)
      (y := -Pi.single Holding.score null.score) hnull h₁ h₂ ?_ ?_]
    · simp only [Asset.amount_coin, add_sub_cancel_left]
      abel
    · intro g
      clear * -
      mvcgen
      simp_all
      funext b
      cases b <;> simp [GlobalProperties.issued, entry_coin, Pi.single, Function.update] <;> omega
    · funext b
      cases b <;> simp [Account.worth, Pi.single, Function.update]
  · cases h
    simp

theorem burnSCOREreward_gap {total : Int} :
    ⦃⌜True⌝⦄ d.burnSCOREreward total
      ⦃⇓? r => ⌜r.1.gap = d.gap - entry symbolCoin (r.2 - total)⌝⦄ := by
  apply triple_of
  intro _ r h
  unfold burnSCOREreward at h
  obtain ⟨null, hnull, h⟩ := bind_ok.1 h
  split at h
  · obtain ⟨burned, hburned, h⟩ := bind_ok.1 h
    obtain ⟨d₁, h₁, h⟩ := bind_ok.1 h
    obtain ⟨d₂, h₂, h⟩ := bind_ok.1 h
    cases h
    obtain rfl := safeAdd_ok hburned
    rw [modifyGpo_account
      (x := entry symbolCoin null.scoreRewardBalanceInTME -
        Pi.single Holding.reward null.scoreRewardBalance -
        Pi.single Holding.rewardValue null.scoreRewardBalanceInTME)
      (y := -Pi.single Holding.reward null.scoreRewardBalance -
        Pi.single Holding.rewardValue null.scoreRewardBalanceInTME) hnull h₁ h₂ ?_ ?_]
    · rw [add_sub_cancel_left]
      abel
    · intro g
      clear * -
      mvcgen
      simp_all
      funext b
      cases b <;> simp [GlobalProperties.issued, Pi.single, Function.update, entry_coin] <;> omega
    · funext b
      cases b <;> simp [Account.worth, Pi.single, Function.update]
  · cases h
    simp

theorem burnAsset_gap {adjust : Database → Name → Asset → Result Database}
    {balance : Account → Asset} {s r : Database × Int} {c : Nat}
    (h : burnAsset adjust balance s = .ok r) (hsymbol : ∀ a, (balance a).symbol = c)
    (hadjust : ∀ d name delta,
      ⦃⌜True⌝⦄ adjust d name delta ⦃⇓? d' => ⌜d'.gap = d.gap + delta.worth⌝⦄) :
    r.1.gap = s.1.gap - entry c (r.2 - s.2) ∧ s.2 ≤ r.2 := by
  obtain ⟨null, -, h⟩ := bind_ok.1 h
  dsimp only at h
  split at h
  · next hpos =>
    obtain ⟨total, htotal, h⟩ := bind_ok.1 h
    obtain ⟨n, hn, h⟩ := bind_ok.1 h
    obtain ⟨d₁, h₁, h⟩ := bind_ok.1 h
    cases h
    obtain rfl := safeAdd_ok htotal
    obtain rfl := of_triple Asset.neg_spec trivial hn
    refine ⟨?_, Int.le_add_of_nonneg_right hpos.le⟩
    rw [of_triple (hadjust _ _ _) trivial h₁, Asset.worth, hsymbol, entry_neg, add_sub_cancel_left,
      sub_eq_add_neg]
  · cases h
    simp

/- The supply shrinks by what was burned, where that is positive. -/
theorem shrinkSupply_gap {x : Int} {a : Asset} (ha : a.amount = x)
    (h : (if 0 < x then do d.adjustSupply (← a.neg) else return d) = .ok d') :
    ∃ lost, lost = min 0 x ∧ d'.gap = d.gap + entry a.symbol (x - lost) := by
  split at h
  · next hpos =>
    obtain ⟨n, hn, h⟩ := bind_ok.1 h
    obtain rfl := of_triple Asset.neg_spec trivial hn
    refine ⟨0, (min_eq_left hpos.le).symm, ?_⟩
    rw [of_triple adjustSupply_gap trivial h, Asset.worth, ha, entry_neg, Int.sub_zero,
      sub_neg_eq_add]
  · next hpos =>
    cases h
    exact ⟨x, (min_eq_right (Int.not_lt.1 hpos)).symm, by simp⟩

/-- Of TME no less leaves the supply than what is held; the rest is burned as it leaves. -/
theorem clearNullAccountBalance_gap :
    ⦃⌜True⌝⦄ d.clearNullAccountBalance
      ⦃⇓? d' => ⌜∃ lost, 0 ≤ lost ∧ d'.gap = d.gap + entry symbolCoin lost⌝⦄ := by
  apply triple_of
  intro _ d' h
  unfold clearNullAccountBalance at h
  split at h
  · cases h
    exact ⟨0, le_rfl, by simp⟩
  · obtain ⟨⟨d₁, tme₁⟩, h₁, h⟩ := bind_ok.1 h
    obtain ⟨⟨d₂, tme₂⟩, h₂, h⟩ := bind_ok.1 h
    obtain ⟨⟨d₃, tsd₁⟩, h₃, h⟩ := bind_ok.1 h
    obtain ⟨⟨d₄, tsd₂⟩, h₄, h⟩ := bind_ok.1 h
    obtain ⟨⟨d₅, tme₃⟩, h₅, h⟩ := bind_ok.1 h
    obtain ⟨⟨d₆, tme₄⟩, h₆, h⟩ := bind_ok.1 h
    obtain ⟨⟨d₇, tsd₃⟩, h₇, h⟩ := bind_ok.1 h
    obtain ⟨⟨d₈, tme₅⟩, h₈, h⟩ := bind_ok.1 h
    obtain ⟨hd₁, -⟩ := burnAsset_gap (c := symbolCoin) h₁ (fun _ => rfl) fun _ _ _ =>
      adjustBalance_gap
    obtain ⟨hd₂, -⟩ := burnAsset_gap (c := symbolCoin) h₂ (fun _ => rfl) fun _ _ _ =>
      adjustTMEsavingsBalance_gap
    obtain ⟨hd₃, ht₁⟩ := burnAsset_gap (c := symbolUsd) h₃ (fun _ => rfl) fun _ _ _ =>
      adjustBalance_gap
    obtain ⟨hd₄, ht₂⟩ := burnAsset_gap (c := symbolUsd) h₄ (fun _ => rfl) fun _ _ _ =>
      adjustTMEsavingsBalance_gap
    have hd₅ := of_triple burnSCORE_gap trivial h₅
    obtain ⟨hd₆, -⟩ := burnAsset_gap (c := symbolCoin) h₆ (fun _ => rfl) fun _ _ _ =>
      adjustRewardBalance_gap
    obtain ⟨hd₇, ht₃⟩ := burnAsset_gap (c := symbolUsd) h₇ (fun _ => rfl) fun _ _ _ =>
      adjustRewardBalance_gap
    have hd₈ := of_triple burnSCOREreward_gap trivial h₈
    dsimp only at hd₁ hd₂ hd₃ hd₄ hd₅ hd₆ hd₇ hd₈ ht₁ ht₂ ht₃ h
    have hburned : d₈.gap = d.gap - entry symbolCoin tme₅ - entry symbolUsd tsd₃ := by
      rw [hd₈, hd₇, hd₆, hd₅, hd₄, hd₃, hd₂, hd₁]
      simp only [entry_sub, entry_zero]
      abel
    obtain ⟨d₉, h₉, h⟩ : ∃ d₉, (if 0 < tme₅ then do d₈.adjustSupply (← (Asset.coin tme₅).neg)
        else pure d₈) = .ok d₉ ∧ (if 0 < tsd₃ then do d₉.adjustSupply (← (Asset.usd tsd₃).neg)
        else pure d₉) = .ok d' := by
      split at h <;> rename_i hpos
      · obtain ⟨n, hn, h⟩ := bind_ok.1 h
        obtain ⟨d₉, h₉, h⟩ := bind_ok.1 h
        exact ⟨d₉, by rw [if_pos hpos]; exact bind_ok.2 ⟨n, hn, h₉⟩, h⟩
      · exact ⟨d₈, by rw [if_neg hpos]; rfl, h⟩
    obtain ⟨lost, hlost, hd₉⟩ := shrinkSupply_gap (x := tme₅) (a := .coin tme₅) rfl h₉
    obtain ⟨left, hleft, hd'⟩ := shrinkSupply_gap (x := tsd₃) (a := .usd tsd₃) rfl h
    have hzero : left = 0 := by omega
    refine ⟨-lost, by omega, ?_⟩
    rw [hd', hd₉, hburned, hzero]
    clear * -
    simp only [Asset.coin, Asset.usd, entry_sub, entry_neg, entry_zero]
    abel

/-! ### Rewards of a block -/

theorem getProducerReward_gap {w : Name} :
    ⦃⌜True⌝⦄ d.getProducerReward w ⦃⇓? r => ⌜r.1.gap = d.gap + entry symbolCoin r.2⌝⦄ := by
  apply triple_of
  intro _ r h
  obtain ⟨pay, -, h⟩ := bind_ok.1 h
  obtain ⟨a, -, h⟩ := bind_ok.1 h
  split at h
  · obtain ⟨s, hs, h⟩ := bind_ok.1 h
    cases h
    exact of_triple createTMEfundForSCORE_gap trivial hs
  · obtain ⟨d₁, h₁, h⟩ := bind_ok.1 h
    cases h
    refine modifyAccount_adds h₁ fun a => ?_
    mvcgen
    subst_vars
    funext b
    cases b <;> simp [Account.worth, entry_coin]
    omega

theorem payRewardFund_gap {reward : Int} {s : Database × Int} {fund : RewardFund} :
    ⦃⌜True⌝⦄ payRewardFund reward s fund
      ⦃⇓? r => ⌜r.1.gap - entry symbolCoin r.2 = s.1.gap - entry symbolCoin s.2⌝⦄ := by
  apply triple_of
  intro _ r h
  obtain ⟨product, -, h⟩ := bind_ok.1 h
  obtain ⟨share, -, h⟩ := bind_ok.1 h
  obtain ⟨d₁, h₁, h⟩ := bind_ok.1 h
  obtain ⟨used, hused, h⟩ := bind_ok.1 h
  obtain ⟨_, -, h⟩ := bind_ok.1 h
  cases h
  have hgap : d₁.gap = s.1.gap + entry symbolCoin share := by
    refine modifyRewardFund_adds h₁ fun f => ?_
    mvcgen
  rw [hgap, safeAdd_ok hused, entry_add]
  abel

theorem payRewardFunds_gap {reward : Int} :
    ⦃⌜True⌝⦄ d.payRewardFunds reward
      ⦃⇓? r => ⌜r.1.gap = d.gap + entry symbolCoin r.2 ∧
        ∀ n, r.1.hasHardfork n = d.hasHardfork n⌝⦄ := by
  apply triple_of
  intro _ r h
  have hgap : r.1.gap - entry symbolCoin r.2 = d.gap :=
    run_induction (P := fun _ r => r.1.gap - entry symbolCoin r.2 = d.gap) h (by simp)
      fun _ _ _ _ hs _ hf => (of_triple payRewardFund_gap trivial hf).trans hs
  refine ⟨sub_eq_iff_eq_add.1 hgap, fun n => ?_⟩
  rw [hasHardfork_core, of_triple payRewardFunds_core trivial h]
  rfl

/- New TME enter the supply; the part for SCORE stays in its fund, and before hardfork 17 the part
for content in its own. -/
theorem issue_gap {hf17 : Bool} {content fund new : Int} :
    ⦃⌜True⌝⦄ (d.modifyGpo fun g => do
      return { g with
        totalTMEfundForSCORE := ← safeAdd g.totalTMEfundForSCORE fund
        totalRewardFundTME := ← if hf17 then pure g.totalRewardFundTME
          else safeAdd g.totalRewardFundTME content
        currentSupply := ← safeAdd g.currentSupply new
        virtualSupply := ← safeAdd g.virtualSupply new })
      ⦃⇓? d' => ⌜d'.gap = d.gap - entry symbolCoin (new - fund - if hf17 then 0 else content)⌝⦄ := by
  apply triple_of
  intro _ d' h
  refine (modifyGpo_adds h fun g => ?_).2
  clear * -
  mvcgen
  all_goals
    simp_all
    funext b
    cases b <;> simp [GlobalProperties.issued, entry_coin]
    omega

theorem processInflation_gap {w : Name} :
    ⦃⌜True⌝⦄ d.processInflation w ⦃⇓? d' => ⌜d'.gap = d.gap⌝⦄ := by
  have hissue := @issue_gap
  mvcgen [processInflation, payRewardFunds_gap, hissue, createTMEfundForSCORE_gap]
  all_goals
    simp_all +zetaDelta
    abel

theorem processBlockRewards_gap {w : Name} :
    ⦃⌜True⌝⦄ d.processBlockRewards w ⦃⇓? d' => ⌜d'.gap = d.gap⌝⦄ := by
  apply triple_of
  intro _ d' h
  obtain ⟨content, -, h⟩ := bind_ok.1 h
  obtain ⟨curate, -, h⟩ := bind_ok.1 h
  obtain ⟨s, hs, h⟩ := bind_ok.1 h
  obtain ⟨_, -, h⟩ := bind_ok.1 h
  obtain ⟨fund, -, h⟩ := bind_ok.1 h
  obtain ⟨total, htotal, h⟩ := bind_ok.1 h
  have hpaid := of_triple getProducerReward_gap trivial hs
  rw [(modifyGpo_adds (x := entry symbolCoin s.2) h fun g => ?_).2, hpaid, add_sub_cancel_right]
  clear * -
  mvcgen
  subst_vars
  funext b
  cases b <;> simp [GlobalProperties.issued, entry_coin]
  omega

theorem processFunds_gap {w : Name} :
    ⦃⌜True⌝⦄ d.processFunds w ⦃⇓? d' => ⌜d'.gap = d.gap⌝⦄ := by
  have hprocessInflation := @processInflation_gap
  have hprocessBlockRewards := @processBlockRewards_gap
  mvcgen [processFunds, hprocessInflation, hprocessBlockRewards]

theorem payLiquidityReward_gap :
    ⦃⌜True⌝⦄ d.payLiquidityReward ⦃⇓? d' => ⌜d'.gap = d.gap⌝⦄ := by
  mvcgen [payLiquidityReward, adjustSupply_gap, adjustBalance_gap]
  all_goals simp_all

/-! ### Conversions and the virtual supply -/

theorem gap_convertRequests (t : Table ConvertRequest) :
    gap { d with convertRequests := t } = d.gap +
      (t.sum (·.amount.worth) - d.convertRequests.sum (·.amount.worth)) := by
  simp only [gap, held]
  abel

/- A request leaves with its amount, which the account gets in TME. -/
theorem convertRequest_gap {s s' : Database × Asset × Asset} {r : ConvertRequest}
    (hr : s.1.convertRequests.row (·.id) r.id = some r) (h : convertRequest s r = .ok s') :
    s'.1.gap - s'.2.2.worth + s'.2.1.worth = s.1.gap - s.2.2.worth + s.2.1.worth ∧
      s'.2.1.symbol = s.2.1.symbol ∧ s'.2.2.symbol = s.2.2.symbol ∧
      s'.1.convertRequests = s.1.convertRequests.remove fun x => x.id == r.id := by
  obtain ⟨issue, -, h⟩ := bind_ok.1 h
  obtain ⟨d₁, h₁, h⟩ := bind_ok.1 h
  obtain ⟨netTSD, hTSD, h⟩ := bind_ok.1 h
  obtain ⟨netTME, hTME, h⟩ := bind_ok.1 h
  cases h
  obtain ⟨hsTSD, rfl⟩ := of_triple Asset.add_spec trivial hTSD
  obtain ⟨hsTME, rfl⟩ := of_triple Asset.add_spec trivial hTME
  have hrequests : d₁.convertRequests = s.1.convertRequests :=
    congrArg Core.convertRequests (of_triple adjustBalance_core trivial h₁)
  refine ⟨?_, rfl, rfl, by rw [hrequests]⟩
  simp only [gap_convertRequests, hrequests, Table.sum_remove hr,
    of_triple adjustBalance_gap trivial h₁, Asset.worth, entry_add, hsTSD, hsTME]
  abel

theorem processConversions_gap (hk : d.convertRequests.Keyed (·.id))
    (h : d.processConversions = .ok d') :
    d'.gap = d.gap ∧ d'.convertRequests.Keyed (·.id) := by
  unfold processConversions at h
  dsimp only at h
  split at h
  · cases h
    exact ⟨rfl, hk⟩
  · obtain ⟨⟨d₁, netTSD, netTME⟩, hs, h⟩ := bind_ok.1 h
    obtain ⟨⟨hgap, hTSD, hTME⟩, hkeyed, -, -⟩ := Table.run_due
      (fun s : Database × Asset × Asset => s.1.convertRequests) ConvertRequest.id
      (P := fun s => s.1.gap - s.2.2.worth + s.2.1.worth = d.gap ∧ s.2.1.symbol = symbolUsd ∧
        s.2.2.symbol = symbolCoin) hs hk (List.perm_insertionSort _ _)
      ⟨by simp, rfl, rfl⟩ fun t x t' _ hrow ht hstep => by
        obtain ⟨hgap, hTSD, hTME, hrows⟩ := convertRequest_gap hrow hstep
        exact ⟨⟨hgap.trans ht.1, hTSD.trans ht.2.1, hTME.trans ht.2.2⟩, hrows⟩
    dsimp only at hgap hTSD hTME hkeyed h
    have hrest : d'.convertRequests = d₁.convertRequests := by
      obtain ⟨g, -, h⟩ := bind_ok.1 h
      cases h
      rfl
    refine ⟨?_, hrest ▸ hkeyed⟩
    rw [(modifyGpo_adds (x := netTME.worth - netTSD.worth) h fun g => ?_).2, ← hgap]
    · abel
    · clear * - hTSD hTME
      mvcgen
      subst_vars
      funext b
      cases b <;> simp [GlobalProperties.issued, Asset.worth, hTSD, hTME, entry_coin, entry_usd]
      all_goals omega

theorem updateVirtualSupply_gap :
    ⦃⌜True⌝⦄ d.updateVirtualSupply ⦃⇓? d' => ⌜d'.gap = d.gap⌝⦄ := by
  unfold updateVirtualSupply
  refine modifyGpo_same fun g => ?_
  mvcgen

end Database
end WeNode.Chain
