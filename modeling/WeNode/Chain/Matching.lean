import WeNode.Chain.Core
import WeNode.Chain.MedianFeed

/-!
# Matching orders

What `match` pays out of two orders whose prices cross, and what `apply_order` leaves of the book.
-/

namespace WeNode.Chain

open WeNode.Lib

/-! ### Amounts at a price -/

namespace Price

variable {p : Price} {a : Int}

theorem Feed.inverse (h : p.Feed) : p.inverse.Feed :=
  ⟨h.market.symm.imp And.symm And.symm, h.quote, h.base⟩

theorem Feed.symbols_ne (h : p.Feed) : p.base.symbol ≠ p.quote.symbol := by
  rcases h.symbols with ⟨hb, hq⟩ | ⟨hb, hq⟩ <;> rw [hb, hq] <;> decide

theorem Feed.names (h : p.Feed) : ∃ x y, symbolName p.base.symbol = .ok x ∧
    symbolName p.quote.symbol = .ok y ∧ x ≠ y := by
  have husd : symbolName symbolUsd = .ok [84, 83, 68] := by decide
  have hcoin : symbolName symbolCoin = .ok [84, 77, 69] := by decide
  rcases h.symbols with ⟨hb, hq⟩ | ⟨hb, hq⟩
  · exact ⟨_, _, hb ▸ husd, hq ▸ hcoin, by decide⟩
  · exact ⟨_, _, hb ▸ hcoin, hq ▸ husd, by decide⟩

/-- Amounts of the base are worth `a * quote / base`, rounded down. -/
theorem Feed.mul_base (h : p.Feed) (ha : 0 ≤ a ∧ a ≤ int64Max)
    (hfits : a * p.quote.amount / p.base.amount ≤ int64Max) :
    (⟨a, p.base.symbol⟩ : Asset).mul p =
      .ok ⟨a * p.quote.amount / p.base.amount, p.quote.symbol⟩ := by
  obtain ⟨x, y, hx, -, -⟩ := h.names
  have hr := convert_eq ha ⟨h.quote.1.le, h.quote.2⟩ h.base hfits
  unfold Asset.mul
  simp only [hx, hr, bind, Except.bind, pure, Except.pure, if_true]

theorem Feed.mul_quote (h : p.Feed) (ha : 0 ≤ a ∧ a ≤ int64Max)
    (hfits : a * p.base.amount / p.quote.amount ≤ int64Max) :
    (⟨a, p.quote.symbol⟩ : Asset).mul p =
      .ok ⟨a * p.base.amount / p.quote.amount, p.base.symbol⟩ := by
  obtain ⟨x, y, hx, hy, hne⟩ := h.names
  have hr := convert_eq ha ⟨h.base.1.le, h.base.2⟩ h.quote hfits
  unfold Asset.mul
  simp only [hx, hy, hr, bind, Except.bind, pure, Except.pure, if_true, if_neg hne.symm]

/-- Prices compare by the symbol of the base, then by what they pay. -/
theorem le_iff {a b : Price} (ha : a.Feed) (hb : b.Feed) : a.le b = true ↔
    a.base.symbol < b.base.symbol ∨ a.base.symbol = b.base.symbol ∧
      b.quote.amount * a.base.amount ≤ a.quote.amount * b.base.amount := by
  have hsymbols : symbolUsd < symbolCoin := by decide
  have hleft : 0 ≤ b.quote.amount * a.base.amount := mul_nonneg hb.quote.1.le ha.base.1.le
  have hright : 0 ≤ a.quote.amount * b.base.amount := mul_nonneg ha.quote.1.le hb.base.1.le
  have hcross : b.quote.amount * a.base.amount ≤ a.quote.amount * b.base.amount ↔
      (cross a b).1 = (cross a b).2 ∨ (cross a b).1 < (cross a b).2 := by
    rw [cross_eq ha hb]
    omega
  unfold le eq lt
  rw [hcross]
  rcases ha.symbols with ⟨hab, haq⟩ | ⟨hab, haq⟩ <;> rcases hb.symbols with ⟨hbb, hbq⟩ | ⟨hbb, hbq⟩
  · simp [hab, haq, hbb, hbq]
  · simp [hab, hbb, hsymbols]
  · simp [hab, hbb, hsymbols, hsymbols.ne', not_lt_of_gt hsymbols]
  · simp [hab, haq, hbb, hbq]

theorem not_gt {a b : Price} : (!a.gt b) = a.le b := by
  unfold gt
  rw [Bool.not_not]

/-- The price asked on the other side of the market is no higher than the price `p` pays. -/
structure Crosses (p q : Price) : Prop where
  base : q.base.symbol = p.quote.symbol
  quote : q.quote.symbol = p.base.symbol
  price : q.quote.amount * p.quote.amount ≤ q.base.amount * p.base.amount

/- A price that `price::max` is not below. -/
def InRange (p : Price) : Prop := p.base.amount ≤ maxSCOREsupply * p.quote.amount

/-- The prices between `max_price` and `max_price.max()` are those in range that cross. -/
theorem between_iff {p q : Price} (hp : p.Feed) (hq : q.Feed) :
    (!q.gt (Price.max p.inverse.base.symbol p.inverse.quote.symbol) && !p.inverse.gt q) = true ↔
      p.Crosses q ∧ q.InRange := by
  have hmax : (Price.max p.inverse.base.symbol p.inverse.quote.symbol).Feed :=
    ⟨hp.inverse.market, (by decide : 0 < maxSCOREsupply ∧ maxSCOREsupply ≤ int64Max),
      (by decide : (0 : Int) < 1 ∧ 1 ≤ int64Max)⟩
  rw [not_gt, not_gt, Bool.and_eq_true, le_iff hq hmax, le_iff hp.inverse hq]
  unfold InRange Price.max inverse
  simp only [one_mul, mul_comm q.quote.amount maxSCOREsupply, mul_comm p.base.amount]
  constructor
  · rintro ⟨hfirst, hlast⟩
    have hbase : q.base.symbol = p.quote.symbol := by omega
    have hquote : q.quote.symbol = p.base.symbol := by
      rcases hp.symbols with ⟨hpb, hpq⟩ | ⟨hpb, hpq⟩ <;>
        rcases hq.symbols with ⟨hqb, hqq⟩ | ⟨hqb, hqq⟩ <;> simp_all [symbolCoin, symbolUsd]
    exact ⟨⟨hbase, hquote, by omega⟩, by omega⟩
  · rintro ⟨hc, hrange⟩
    exact ⟨.inr ⟨hc.base, hrange⟩, .inr ⟨hc.base.symm, hc.price⟩⟩

end Price

/-! ### Orders on the book -/

/- What an order asks for all that it still sells. -/
def LimitOrder.asks (o : LimitOrder) : Int :=
  o.forSale * o.sellPrice.quote.amount / o.sellPrice.base.amount

/-- An order that may rest on the book: it sells something and asks for something. -/
structure LimitOrder.Rests (o : LimitOrder) : Prop where
  price : o.sellPrice.Feed
  forSale : 0 < o.forSale ∧ o.forSale ≤ int64Max
  asks : 0 < o.asks ∧ o.asks ≤ int64Max

theorem LimitOrder.Rests.amountToReceive {o : LimitOrder} (h : o.Rests) :
    o.amountToReceive = .ok ⟨o.asks, o.sellPrice.quote.symbol⟩ :=
  h.price.mul_base ⟨h.forSale.1.le, h.forSale.2⟩ h.asks.2

/- Less of an order asks for less. -/
theorem LimitOrder.asks_mono {o : LimitOrder} (h : o.sellPrice.Feed) {x y : Int} (hxy : x ≤ y) :
    ({ o with forSale := x } : LimitOrder).asks ≤ ({ o with forSale := y } : LimitOrder).asks :=
  Int.ediv_le_ediv h.base.1 (mul_le_mul_of_nonneg_right hxy h.quote.1.le)

/-! ### Arithmetic of a match

`n` and `o` are for sale at the prices `nb / nq` and `ob / oq`, which cross. -/

section

variable {n o nb nq ob oq : Int}

/- The new order is sold out: it gets at least what it asks, of what the old one has. -/
theorem filled_new (hnb : 0 < nb) (hob : 0 < ob) (hoq : 0 < oq) (hn : 0 ≤ n)
    (hcross : oq * nq ≤ ob * nb) (hless : n ≤ o * oq / ob) :
    n * nq / nb ≤ n * ob / oq ∧ n * ob / oq ≤ o ∧ n * ob / oq * oq / ob ≤ n := by
  refine ⟨?_, ?_, ?_⟩
  · rw [Int.le_ediv_iff_mul_le hoq]
    refine le_of_mul_le_mul_right ?_ hnb
    calc n * nq / nb * oq * nb = n * nq / nb * nb * oq := by ring
      _ ≤ n * nq * oq := mul_le_mul_of_nonneg_right (Int.ediv_mul_le _ hnb.ne') hoq.le
      _ = n * (oq * nq) := by ring
      _ ≤ n * (ob * nb) := mul_le_mul_of_nonneg_left hcross hn
      _ = n * ob * nb := by ring
  · rw [Int.le_ediv_iff_mul_le hob] at hless
    exact Int.ediv_le_of_le_mul hoq hless
  · refine Int.ediv_le_of_le_mul hob ?_
    exact Int.ediv_mul_le _ hoq.ne'

/- The old order is sold out: the new one gets all of it for no more than its own price. -/
theorem filled_old (hnb : 0 < nb) (hob : 0 < ob) (hoq : 0 < oq)
    (hasks : 0 ≤ o * oq / ob) (hcross : oq * nq ≤ ob * nb) : o * oq / ob * nq / nb ≤ o := by
  refine Int.ediv_le_of_le_mul hnb ?_
  refine le_of_mul_le_mul_right ?_ hoq
  calc o * oq / ob * nq * oq = o * oq / ob * (oq * nq) := by ring
    _ ≤ o * oq / ob * (ob * nb) := mul_le_mul_of_nonneg_left hcross hasks
    _ = o * oq / ob * ob * nb := by ring
    _ ≤ o * oq * nb := mul_le_mul_of_nonneg_right (Int.ediv_mul_le _ hob.ne') hnb.le
    _ = o * nb * oq := by ring

end

/-! ### One match -/

/-- A match: both orders as it finds them, what they receive and whether they leave the book.
What one receives the other pays. -/
structure Match where
  newOrder : LimitOrder
  oldOrder : LimitOrder
  newReceives : Asset
  oldReceives : Asset
  newGone : Bool
  oldGone : Bool

namespace Match

def oldPays (m : Match) : Asset := m.newReceives
def newPays (m : Match) : Asset := m.oldReceives

end Match

/- What an order pays is part of what it sells, and what it receives at least what it asks for
that, rounded down. -/
structure FairTo (o : LimitOrder) (pays receives : Asset) : Prop where
  symbols : pays.symbol = o.sellPrice.base.symbol ∧ receives.symbol = o.sellPrice.quote.symbol
  paid : 0 < pays.amount ∧ pays.amount ≤ o.forSale
  received : 0 < receives.amount
  limit : pays.amount * o.sellPrice.quote.amount / o.sellPrice.base.amount ≤ receives.amount

structure Match.Fair (m : Match) : Prop where
  new : FairTo m.newOrder m.newPays m.newReceives
  old : FairTo m.oldOrder m.oldPays m.oldReceives
  filled : m.newGone = true ∨ m.oldGone = true

namespace Database

variable {d d' : Database} {n o : LimitOrder}

/-- Orders whose prices cross trade at the price of the old one, and one of them is sold out. -/
theorem matchAmounts_fair (hn : n.Rests) (ho : o.Rests) (hc : n.sellPrice.Crosses o.sellPrice) :
    ∃ newReceives oldReceives, matchAmounts n.amountForSale o.amountForSale o.sellPrice =
      .ok (newReceives, oldReceives) ∧ FairTo n oldReceives newReceives ∧
      FairTo o newReceives oldReceives ∧
      (oldReceives = n.amountForSale ∨ newReceives = o.amountForSale) := by
  have hmul : o.amountForSale.mul o.sellPrice = .ok ⟨o.asks, n.sellPrice.base.symbol⟩ := by
    rw [← hc.quote]
    exact ho.amountToReceive
  have hle : n.amountForSale.le ⟨o.asks, n.sellPrice.base.symbol⟩ =
      .ok (decide (n.forSale ≤ o.asks)) := by
    unfold Asset.le Asset.lt LimitOrder.amountForSale
    simp only [require, if_true, bind, Except.bind, pure, Except.pure, Asset.mk.injEq, and_true]
    split
    · next heq => rw [decide_eq_true (le_of_eq heq)]
    · next hne => simp only [le_iff_lt_or_eq, hne, or_false]
  have hnb := hn.price.base.1
  have hob := ho.price.base.1
  have hoq := ho.price.quote.1
  unfold matchAmounts
  rw [hmul]
  simp only [bind, Except.bind, hle, decide_eq_true_eq]
  by_cases hless : n.forSale ≤ o.asks
  · obtain ⟨hlimit, hhas, hold⟩ := filled_new hnb hob hoq hn.forSale.1.le hc.price hless
    have hworth : n.amountForSale.mul o.sellPrice =
        .ok ⟨n.forSale * o.sellPrice.base.amount / o.sellPrice.quote.amount,
          o.sellPrice.base.symbol⟩ := by
      unfold LimitOrder.amountForSale
      rw [← hc.quote]
      exact ho.price.mul_quote ⟨hn.forSale.1.le, hn.forSale.2⟩ (hhas.trans ho.forSale.2)
    have hpos := hn.asks.1.trans_le hlimit
    rw [if_pos hless, hworth]
    exact ⟨_, _, rfl, ⟨⟨rfl, hc.base⟩, ⟨hn.forSale.1, le_rfl⟩, hpos, hlimit⟩,
      ⟨⟨rfl, hc.quote.symm⟩, ⟨hpos, hhas⟩, hn.forSale.1, hold⟩, .inl rfl⟩
  · have hlimit := filled_old hnb hob hoq ho.asks.1.le hc.price
    rw [if_neg hless]
    exact ⟨_, _, rfl, ⟨⟨rfl, hc.base⟩, ⟨ho.asks.1, le_of_not_ge hless⟩, ho.forSale.1, hlimit⟩,
      ⟨⟨rfl, hc.quote.symm⟩, ⟨ho.forSale.1, le_rfl⟩, ho.asks.1, le_rfl⟩, .inr rfl⟩

end Database

/-! ### The book -/

/-- The invariant of the book. -/
structure Book (t : Table LimitOrder) : Prop where
  keyed : t.Keyed LimitOrder.id
  rests : ∀ o ∈ t.rows, o.Rests

namespace Book

variable {t t' : Table LimitOrder} {i : Nat} {r : Option LimitOrder}

theorem row_rests (h : Book t) {o : LimitOrder} (ho : t.row LimitOrder.id i = some o) : o.Rests :=
  h.rests o (Table.row_some ho).1

theorem of_row (h : Book t) (hk : t'.Keyed LimitOrder.id)
    (hrow : ∀ j, t'.row LimitOrder.id j = if j = i then r else t.row LimitOrder.id j)
    (hr : ∀ o, r = some o → o.Rests) : Book t' := by
  refine ⟨hk, fun o ho => ?_⟩
  have hmem := hk.row_iff.2 ⟨ho, rfl⟩
  rw [hrow] at hmem
  split at hmem
  · exact hr o hmem
  · exact h.row_rests hmem

end Book

namespace Database

variable {d d' : Database} {o : LimitOrder} {i : Nat} {pays receives : Asset} {gone : Bool}

/- What is left of an order that goes on asking for something. -/
theorem rests_left (ho : o.Rests) (hf : FairTo o pays receives) (hne : pays ≠ o.amountForSale)
    {x : Asset} (hx : ({ o with forSale := o.forSale - pays.amount } : LimitOrder).amountToReceive =
      .ok x) (hx0 : x.amount ≠ 0) :
    ({ o with forSale := o.forSale - pays.amount } : LimitOrder).Rests := by
  have hleft : o.forSale - pays.amount ≠ 0 := by
    intro hzero
    refine hne ?_
    have hamount : pays.amount = o.forSale := by omega
    exact congrArg₂ Asset.mk hamount hf.symbols.1
  have hrange : 0 < o.forSale - pays.amount ∧ o.forSale - pays.amount ≤ int64Max := by
    have := hf.paid
    have := ho.forSale.2
    omega
  have hasks := LimitOrder.asks_mono ho.price (Int.sub_le_self o.forSale hf.paid.1.le)
  have hmul := ho.price.mul_base ⟨hrange.1.le, hrange.2⟩ (hasks.trans ho.asks.2)
  have hx' : x.amount = ({ o with forSale := o.forSale - pays.amount } : LimitOrder).asks := by
    have heq := hx.symm.trans hmul
    rw [Except.ok.inj heq]
    rfl
  have hnonneg : 0 ≤ ({ o with forSale := o.forSale - pays.amount } : LimitOrder).asks :=
    Int.ediv_nonneg (mul_nonneg hrange.1.le ho.price.quote.1.le) ho.price.base.1.le
  refine ⟨ho.price, hrange, ?_, hasks.trans ho.asks.2⟩
  omega

/-- `fill_order` changes no other order; the one it fills goes on resting with what is left. -/
theorem fillOrder_ok (hb : Book d.limitOrders) (ho : d.limitOrders.row LimitOrder.id i = some o)
    (hf : FairTo o pays receives) (h : d.fillOrder i pays receives = .ok (d', gone)) :
    Book d'.limitOrders ∧ (pays = o.amountForSale → gone = true) ∧
      ∀ j, d'.limitOrders.row LimitOrder.id j =
        if j = i then (if gone then none else some { o with forSale := o.forSale - pays.amount })
        else d.limitOrders.row LimitOrder.id j := by
  obtain ⟨o', ho', h⟩ := bind_ok.1 h
  have hoo : o' = o := Option.some.inj ((found_ok ho').symm.trans ho)
  subst hoo
  obtain ⟨_, -, h⟩ := bind_ok.1 h
  obtain ⟨_, -, h⟩ := bind_ok.1 h
  obtain ⟨d₁, h₁, h⟩ := bind_ok.1 h
  have ht₁ : d₁.limitOrders = d.limitOrders :=
    congrArg Core.limitOrders (of_triple adjustBalance_core trivial h₁)
  split at h
  · next hpays =>
    cases h
    have hrow : ∀ j, (d₁.removeLimitOrder i).limitOrders.row LimitOrder.id j =
        if j = i then none else d.limitOrders.row LimitOrder.id j := fun j => by
      rw [← ht₁]
      exact (ht₁ ▸ hb.keyed : d₁.limitOrders.Keyed LimitOrder.id).row_remove
    have hkeyed := (ht₁ ▸ hb.keyed : d₁.limitOrders.Keyed LimitOrder.id).remove i
    exact ⟨hb.of_row hkeyed hrow nofun, fun _ => rfl, hrow⟩
  · next hpays =>
    obtain ⟨d₂, h₂, hleft⟩ := bind_ok.1 h
    obtain ⟨t, ht, rfl⟩ := of_modify h₂
    rw [ht₁] at ht
    obtain ⟨hkeyed, -, x, y, hx, hy, hrow⟩ := hb.keyed.modify ht fun x y _ hy => by
      obtain ⟨_, -, hy⟩ := bind_ok.1 hy
      cases hy
      rfl
    have hxo : x = o' := Option.some.inj (hx.symm.trans ho)
    subst hxo
    obtain ⟨z, hz, hy⟩ := bind_ok.1 hy
    obtain rfl := safeSub_ok hz
    cases hy
    obtain ⟨o₂, ho₂, hleft⟩ := bind_ok.1 hleft
    have hoo₂ := (found_ok ho₂).symm.trans ((hrow i).trans (if_pos rfl))
    obtain rfl := Option.some.inj hoo₂
    obtain ⟨a, ha, hleft⟩ := bind_ok.1 hleft
    split at hleft
    · obtain ⟨d₃, h₃, hleft⟩ := bind_ok.1 hleft
      cases hleft
      obtain ⟨_, -, h₃⟩ := bind_ok.1 h₃
      obtain ⟨d₄, h₄, h₃⟩ := bind_ok.1 h₃
      cases h₃
      have ht₄ : d₄.limitOrders = t :=
        congrArg Core.limitOrders (of_triple adjustBalance_core trivial h₄)
      have hkeyed₄ : d₄.limitOrders.Keyed LimitOrder.id := ht₄ ▸ hkeyed
      have hrow₄ : ∀ j, (d₄.removeLimitOrder i).limitOrders.row LimitOrder.id j =
          if j = i then none else d.limitOrders.row LimitOrder.id j := fun j => by
        refine hkeyed₄.row_remove.trans ?_
        split
        · rfl
        · next hj => rw [ht₄, hrow, if_neg hj]
      exact ⟨hb.of_row (hkeyed₄.remove i) hrow₄ nofun, fun _ => rfl, hrow₄⟩
    · next ha0 =>
      cases hleft
      refine ⟨hb.of_row hkeyed hrow ?_, fun heq => absurd heq hpays, hrow⟩
      intro o ho
      obtain rfl := Option.some.inj ho
      exact rests_left (hb.row_rests hx) hf hpays ha ha0

/-! ### The loop of `apply_order` -/

/-- `match` with all that it computes. -/
structure Matches (d : Database) (newId oldId : Nat) (m : Match) (d' : Database) : Prop where
  newOrder : d.getLimitOrderById newId = .ok m.newOrder
  oldOrder : d.getLimitOrderById oldId = .ok m.oldOrder
  amounts : matchAmounts m.newOrder.amountForSale m.oldOrder.amountForSale m.oldOrder.sellPrice =
    .ok (m.newReceives, m.oldReceives)
  filled : ∃ d₁ d₂,
    d.rewardLiquidity m.newOrder m.oldOrder m.newReceives m.oldReceives = .ok d₁ ∧
    d₁.fillOrder newId m.newPays m.newReceives = .ok (d₂, m.newGone) ∧
    d₂.fillOrder oldId m.oldPays m.oldReceives = .ok (d', m.oldGone)

theorem matchOrders_ok {newId oldId : Nat} {newGone oldGone : Bool}
    (h : d.matchOrders newId oldId = .ok (d', newGone, oldGone)) :
    ∃ m, d.Matches newId oldId m d' ∧ m.newGone = newGone ∧ m.oldGone = oldGone := by
  obtain ⟨n, hn, h⟩ := bind_ok.1 h
  obtain ⟨o, ho, h⟩ := bind_ok.1 h
  obtain ⟨⟨x, y⟩, hamounts, h⟩ := bind_ok.1 h
  obtain ⟨d₁, h₁, h⟩ := bind_ok.1 h
  obtain ⟨⟨d₂, g⟩, h₂, h⟩ := bind_ok.1 h
  obtain ⟨⟨d₃, g'⟩, h₃, h⟩ := bind_ok.1 h
  cases h
  exact ⟨⟨n, o, x, y, newGone, oldGone⟩, ⟨hn, ho, hamounts, d₁, d₂, h₁, h₂, h₃⟩, rfl, rfl⟩

/-- The matches of the loop on the orders `l`, up to any point of it. -/
inductive MatchRun (newId : Nat) : List LimitOrder → Database → List Match → Database → Prop
  | here {l : List LimitOrder} {d : Database} : MatchRun newId l d [] d
  | next {old : LimitOrder} {rest : List LimitOrder} {d d₁ d' : Database} {m : Match}
    {ms : List Match} (hm : d.Matches newId old.id m d₁) (hgo : ms ≠ [] → m.newGone = false)
    (hrest : MatchRun newId rest d₁ ms d') : MatchRun newId (old :: rest) d (m :: ms) d'

theorem MatchRun.length_le {newId : Nat} {l : List LimitOrder} {ms : List Match}
    (h : MatchRun newId l d ms d') : ms.length ≤ l.length := by
  induction h with
  | here => exact Nat.zero_le _
  | next _ _ _ ih => exact Nat.succ_le_succ ih

theorem matchLoop_run {newId : Nat} {l : List LimitOrder} (h : matchLoop newId l d = .ok d') :
    ∃ ms, MatchRun newId l d ms d' := by
  induction l generalizing d with
  | nil =>
    cases h
    exact ⟨[], .here⟩
  | cons old rest ih =>
    unfold matchLoop at h
    obtain ⟨⟨d₁, newGone, oldGone⟩, hm, h⟩ := bind_ok.1 h
    obtain ⟨m, hmatch, rfl, rfl⟩ := matchOrders_ok hm
    dsimp only at h
    split at h
    · cases h
      exact ⟨[m], .next hmatch (absurd rfl) .here⟩
    · next hgo =>
      obtain ⟨ms, hms⟩ := ih h
      exact ⟨m :: ms, .next hmatch (fun _ => eq_false_of_ne_true hgo) hms⟩

/-- The state of the loop: the new order rests at its price, which those of `l` cross. -/
structure Waiting (d : Database) (newId : Nat) (p : Price) (l : List LimitOrder) : Prop where
  book : Book d.limitOrders
  new : ∃ n, d.limitOrders.row LimitOrder.id newId = some n ∧ n.sellPrice = p
  old : ∀ o ∈ l, d.limitOrders.row LimitOrder.id o.id = some o ∧ p.Crosses o.sellPrice
  nodup : (l.map LimitOrder.id).Nodup

/-- A match is fair and touches no other order; if the new order stays the old one is gone. -/
theorem Matches.step {newId : Nat} {p : Price} {old : LimitOrder} {rest : List LimitOrder}
    {m : Match} (hw : d.Waiting newId p (old :: rest)) (h : d.Matches newId old.id m d') :
    m.Fair ∧ Book d'.limitOrders ∧
      (∀ j, j ≠ newId → j ≠ old.id →
        d'.limitOrders.row LimitOrder.id j = d.limitOrders.row LimitOrder.id j) ∧
      (m.newGone = true → d'.limitOrders.row LimitOrder.id newId = none) ∧
      (m.newGone = false → d'.Waiting newId p rest ∧
        d'.limitOrders.row LimitOrder.id old.id = none) := by
  obtain ⟨n, hn, hp⟩ := hw.new
  obtain ⟨ho, hc⟩ := hw.old old List.mem_cons_self
  obtain ⟨d₁, d₂, h₁, h₂, h₃⟩ := h.filled
  have hmn : m.newOrder = n := Option.some.inj ((found_ok h.newOrder).symm.trans hn)
  have hmo : m.oldOrder = old := Option.some.inj ((found_ok h.oldOrder).symm.trans ho)
  have hne : ∀ o : LimitOrder, d.limitOrders.row LimitOrder.id o.id = some o →
      p.Crosses o.sellPrice → o.id ≠ newId := by
    intro o ho hc heq
    rw [heq, hn] at ho
    rw [← Option.some.inj ho, ← hp] at hc
    exact (hw.book.row_rests hn).price.symbols_ne hc.base
  have hamounts := h.amounts
  rw [hmn, hmo] at hamounts
  obtain ⟨x, y, hxy, hfairNew, hfairOld, hsold⟩ :=
    matchAmounts_fair (hw.book.row_rests hn) (hw.book.row_rests ho) (hp ▸ hc)
  obtain ⟨hx, hy⟩ := Prod.mk.inj (Except.ok.inj (hxy.symm.trans hamounts))
  subst hx hy
  have ht₁ : d₁.limitOrders = d.limitOrders :=
    congrArg Core.limitOrders (of_triple rewardLiquidity_core trivial h₁)
  obtain ⟨hbook₂, hall₂, hrow₂⟩ :=
    fillOrder_ok (ht₁ ▸ hw.book) (ht₁ ▸ hn) hfairNew h₂
  have ho₂ : d₂.limitOrders.row LimitOrder.id old.id = some old := by
    rw [hrow₂, if_neg (hne old ho hc), ht₁, ho]
  obtain ⟨hbook₃, hall₃, hrow₃⟩ := fillOrder_ok hbook₂ ho₂ hfairOld h₃
  have hother : ∀ j, j ≠ newId → j ≠ old.id →
      d'.limitOrders.row LimitOrder.id j = d.limitOrders.row LimitOrder.id j := by
    intro j hj hj'
    rw [hrow₃, if_neg hj', hrow₂, if_neg hj, ht₁]
  have hnew : d'.limitOrders.row LimitOrder.id newId =
      if m.newGone then none else some { n with forSale := n.forSale - m.newPays.amount } := by
    rw [hrow₃, if_neg (hne old ho hc).symm, hrow₂, if_pos rfl]
    rfl
  have hfilled : m.newGone = true ∨ m.oldGone = true := hsold.imp hall₂ hall₃
  refine ⟨⟨hmn ▸ hfairNew, hmo ▸ hfairOld, hfilled⟩, hbook₃, hother, fun hgone => ?_, fun hgo => ?_⟩
  · rw [hnew, if_pos hgone]
  · have hgone : m.oldGone = true := hfilled.resolve_left (by simp [hgo])
    have hnodup := List.nodup_cons.1 hw.nodup
    refine ⟨⟨hbook₃, ⟨_, hnew.trans (if_neg (by simp [hgo])), hp⟩, fun o hmem => ?_, hnodup.2⟩, ?_⟩
    · obtain ⟨hrow, hcross⟩ := hw.old o (List.mem_cons_of_mem _ hmem)
      refine ⟨(hother o.id (hne o hrow hcross) fun heq => ?_).trans hrow, hcross⟩
      exact hnodup.1 (heq ▸ List.mem_map_of_mem hmem)
    · rw [hrow₃, if_pos rfl, if_pos hgone]

theorem MatchRun.fair {newId : Nat} {p : Price} {l : List LimitOrder} {ms : List Match}
    (hw : d.Waiting newId p l) (h : MatchRun newId l d ms d') : ∀ m ∈ ms, m.Fair := by
  induction h with
  | here => exact nofun
  | next hm hgo hrest ih =>
    rename_i ms
    obtain ⟨hfair, -, -, -, hstay⟩ := hm.step hw
    intro m hmem
    rcases List.mem_cons.1 hmem with rfl | hmem
    · exact hfair
    · exact ih (hstay (hgo (List.ne_nil_of_mem hmem))).1 m hmem

/-- At the end the new order is gone, or it rests and all the orders it met are gone. -/
theorem matchLoop_end {newId : Nat} {p : Price} {l : List LimitOrder} (hw : d.Waiting newId p l)
    (h : matchLoop newId l d = .ok d') :
    Book d'.limitOrders ∧ (d'.limitOrders.row LimitOrder.id newId = none ∨
      (∃ n, d'.limitOrders.row LimitOrder.id newId = some n ∧ n.sellPrice = p) ∧
        ∀ o ∈ d'.limitOrders.rows, o.id ≠ newId → o ∈ d.limitOrders.rows ∧ o.id ∉ l.map LimitOrder.id) := by
  induction l generalizing d with
  | nil =>
    cases h
    exact ⟨hw.book, .inr ⟨hw.new, fun o ho _ => ⟨ho, List.not_mem_nil⟩⟩⟩
  | cons old rest ih =>
    unfold matchLoop at h
    obtain ⟨⟨d₁, newGone, oldGone⟩, hm, h⟩ := bind_ok.1 h
    obtain ⟨m, hmatch, rfl, rfl⟩ := matchOrders_ok hm
    obtain ⟨-, hbook, hother, hgone, hstay⟩ := hmatch.step hw
    dsimp only at h
    split at h
    · next hnew =>
      cases h
      exact ⟨hbook, .inl (hgone hnew)⟩
    · next hnew =>
      obtain ⟨hw₁, hold⟩ := hstay (eq_false_of_ne_true hnew)
      obtain ⟨hbook', hend⟩ := ih hw₁ h
      refine ⟨hbook', hend.imp_right fun hrest => ⟨hrest.1, fun o ho hid => ?_⟩⟩
      obtain ⟨ho₁, hnot⟩ := hrest.2 o ho hid
      have hrow := hw₁.book.keyed.row_iff.2 ⟨ho₁, rfl⟩
      have hne : o.id ≠ old.id := by
        intro heq
        rw [heq, hold] at hrow
        cases hrow
      rw [hother o.id hid hne] at hrow
      exact ⟨(Table.row_some hrow).1, by simp [hne, hnot]⟩

end Database

end WeNode.Chain
