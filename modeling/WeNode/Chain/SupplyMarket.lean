import Mathlib
import WeNode.Chain.Supply

/-!
# The supply through the market

An order on the book holds what it has for sale.  A fill takes what the order pays and gives its
seller what it receives, and the two fills of a match take and give the same amounts.
-/

set_option mvcgen.warning false

namespace WeNode.Chain

open WeNode.Lib Std.Do

namespace Database

variable {d d' : Database} {id : Nat}

theorem gap_limitOrders (t : Table LimitOrder) :
    gap { d with limitOrders := t } = d.gap +
      (t.sum (·.amountForSale.worth) - d.limitOrders.sum (·.amountForSale.worth)) := by
  simp only [gap, held]
  abel

/- An order leaves the book with what it had for sale. -/
theorem removeLimitOrder_gap {o : LimitOrder} (ho : d.getLimitOrderById id = .ok o) :
    (d.removeLimitOrder id).gap = d.gap - o.amountForSale.worth := by
  unfold removeLimitOrder
  rw [gap_limitOrders, Table.sum_remove (found_ok ho)]
  abel

theorem modifyLimitOrder_adds {f : LimitOrder → Result LimitOrder} {o : LimitOrder}
    {x : Holding → Int} (h : d.modifyLimitOrder id f = .ok d') (ho : d.getLimitOrderById id = .ok o)
    (hf : ∀ o', f o = .ok o' → o'.amountForSale.worth = o.amountForSale.worth + x) :
    d'.gap = d.gap + x := by
  obtain ⟨t, ht, rfl⟩ := of_modify h
  obtain ⟨y, y', hy, hrep, -⟩ := Table.modify_ok ht
  cases Option.some.inj (hrep.find_eq.symm.trans (found_ok ho))
  have hsum : t.sum (·.amountForSale.worth) = d.limitOrders.sum (·.amountForSale.worth) +
      (y'.amountForSale.worth - o.amountForSale.worth) := hrep.sum_eq _
  rw [gap_limitOrders, hsum, hf y' hy]
  abel

theorem adjustBalance_order {name : Name} {delta : Asset} (h : d.adjustBalance name delta = .ok d') :
    d'.getLimitOrderById id = d.getLimitOrderById id := by
  have horders : d'.limitOrders = d.limitOrders :=
    congrArg Core.limitOrders (of_triple adjustBalance_core trivial h)
  unfold getLimitOrderById
  rw [horders]

theorem cancelOrder_gap : ⦃⌜True⌝⦄ d.cancelOrder id ⦃⇓? d' => ⌜d'.gap = d.gap⌝⦄ := by
  apply triple_of
  intro _ d' h
  obtain ⟨o, ho, h⟩ := bind_ok.1 h
  obtain ⟨d₁, h₁, h⟩ := bind_ok.1 h
  cases h
  rw [removeLimitOrder_gap ((adjustBalance_order h₁).trans ho),
    of_triple adjustBalance_gap trivial h₁, add_sub_cancel_right]

theorem fillOrder_gap {pays receives : Asset} :
    ⦃⌜True⌝⦄ d.fillOrder id pays receives
      ⦃⇓? r => ⌜r.1.gap = d.gap + receives.worth - pays.worth⌝⦄ := by
  apply triple_of
  intro _ r h
  obtain ⟨o, ho, h⟩ := bind_ok.1 h
  obtain ⟨_, hsymbol, h⟩ := bind_ok.1 h
  obtain ⟨_, -, h⟩ := bind_ok.1 h
  obtain ⟨d₁, h₁, h⟩ := bind_ok.1 h
  have hsymbol : o.amountForSale.symbol = pays.symbol := require_ok hsymbol
  have hgap₁ : d₁.gap = d.gap + receives.worth := of_triple adjustBalance_gap trivial h₁
  have ho₁ : d₁.getLimitOrderById id = .ok o := (adjustBalance_order h₁).trans ho
  split at h
  · next hfilled =>
    cases h
    rw [removeLimitOrder_gap ho₁, hgap₁, hfilled]
  · obtain ⟨d₂, h₂, h⟩ := bind_ok.1 h
    obtain ⟨o₂, -, h⟩ := bind_ok.1 h
    obtain ⟨left, -, h⟩ := bind_ok.1 h
    have hgap₂ : d₂.gap = d₁.gap + -pays.worth := by
      refine modifyLimitOrder_adds h₂ ho₁ fun o' ho' => ?_
      obtain ⟨x, hx, ho'⟩ := bind_ok.1 ho'
      cases ho'
      rw [Asset.worth, Asset.worth, Asset.worth, ← hsymbol, ← entry_neg, ← entry_add, safeSub_ok hx]
      rfl
    rw [← hgap₁, sub_eq_add_neg, ← hgap₂]
    split at h
    · obtain ⟨d₃, h₃, h⟩ := bind_ok.1 h
      cases h
      exact of_triple cancelOrder_gap trivial h₃
    · cases h
      rfl

theorem adjustLiquidityReward_gap {owner : Nat} {volume : Asset} {isSdb : Bool} :
    ⦃⌜True⌝⦄ d.adjustLiquidityReward owner volume isSdb ⦃⇓? d' => ⌜d'.gap = d.gap⌝⦄ := by
  mvcgen [adjustLiquidityReward]

theorem rewardLiquidity_gap {new old : LimitOrder} {a b : Asset} :
    ⦃⌜True⌝⦄ d.rewardLiquidity new old a b ⦃⇓? d' => ⌜d'.gap = d.gap⌝⦄ := by
  mvcgen [rewardLiquidity, adjustLiquidityReward_gap]
  all_goals simp_all

/-- What one order of a match pays the other receives. -/
theorem matchOrders_gap {new old : Nat} :
    ⦃⌜True⌝⦄ d.matchOrders new old ⦃⇓? r => ⌜r.1.gap = d.gap⌝⦄ := by
  have hrewardLiquidity := @rewardLiquidity_gap
  mvcgen [matchOrders, hrewardLiquidity, fillOrder_gap]
  simp_all

theorem matchLoop_gap {l : List LimitOrder} :
    ⦃⌜True⌝⦄ matchLoop id l d ⦃⇓? d' => ⌜d'.gap = d.gap⌝⦄ := by
  have hmatchOrders := @matchOrders_gap
  induction l generalizing d with
  | nil => mvcgen [matchLoop]
  | cons old rest ih =>
    mvcgen [matchLoop, hmatchOrders, ih]
    all_goals simp_all

theorem applyOrder_gap : ⦃⌜True⌝⦄ d.applyOrder id ⦃⇓? r => ⌜r.1.gap = d.gap⌝⦄ := by
  have hmatchLoop := @matchLoop_gap
  mvcgen [applyOrder, hmatchLoop]

theorem clearExpiredOrders_gap : ⦃⌜True⌝⦄ d.clearExpiredOrders ⦃⇓? d' => ⌜d'.gap = d.gap⌝⦄ := by
  mvcgen [clearExpiredOrders, cancelOrder_gap] invariants
  · ⇓? r => ⌜r.2.gap = d.gap⌝
  all_goals simp_all

end Database
end WeNode.Chain
