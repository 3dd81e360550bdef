import WeNode.Chain.Matching
import WeNode.Chain.BlockSteps
import WeNode.Chain.CoreBlocks

/-!
# New orders

The orders that `limit_order_create` and `limit_order_create2` put on the book may rest there, and
so may all orders of the states that blocks lead to.
-/

namespace WeNode.Chain

open WeNode.Lib

/-! ### What the operations check -/

/- A negative amount wraps around to a product whose quotients have more than 64 bits. -/
theorem convert_negative {a num den r : Int} (ha : int64Min ≤ a ∧ a < 0)
    (hnum : 0 < num ∧ num ≤ int64Max) (hden : 0 < den ∧ den ≤ int64Max) :
    convert a num den ≠ .ok r := by
  intro h
  obtain ⟨_, -, h⟩ := bind_ok.1 h
  obtain ⟨q, hq, h⟩ := bind_ok.1 h
  obtain ⟨_, hwide, -⟩ := bind_ok.1 h
  have hwide : q < two64 := require_ok hwide
  have hlow : -(9223372036854775808 * 9223372036854775807) ≤ a * num := by
    have hn : 9223372036854775808 * num ≤ 9223372036854775808 * 9223372036854775807 :=
      mul_le_mul_of_nonneg_left hnum.2 (by decide)
    have han : -9223372036854775808 * num ≤ a * num := mul_le_mul_of_nonneg_right ha.1 hnum.1.le
    linarith
  have hneg : a * num < 0 := mul_neg_of_neg_of_pos ha.2 hnum.1
  have hproduct : (u128Mul (u128 a) (u128 num) : Int) = a * num + two128 := by
    unfold u128Mul u128
    rw [Int.natCast_mod, Nat.cast_mul, Int.toNat_of_nonneg (Int.emod_nonneg _ (by decide)),
      Int.toNat_of_nonneg (Int.emod_nonneg _ (by decide)), ← Int.mul_emod,
      ← Int.add_emod_right, Int.emod_eq_of_lt]
    · unfold two128
      omega
    · unfold two128
      omega
  have hdiv : q = u128Mul (u128 a) (u128 num) / u128 den := by
    unfold u128Div at hq
    split at hq
    · cases hq
    · exact (Except.ok.inj hq).symm
  rw [hdiv, Nat.div_lt_iff_lt_mul (by rw [u128_of_nonneg hden.1.le hden.2]; omega),
    u128_of_nonneg hden.1.le hden.2] at hwide
  unfold two64 at hwide
  unfold two128 at hproduct
  have hd := hden.2
  unfold int64Max at hd
  omega

/- An amount that is worth something is positive, and worth what the quotient says. -/
theorem convert_pos {a num den r : Int} (ha : int64Min ≤ a ∧ a ≤ int64Max)
    (hnum : 0 < num ∧ num ≤ int64Max) (hden : 0 < den ∧ den ≤ int64Max)
    (h : convert a num den = .ok r) (hr : 0 < r) :
    0 < a ∧ 0 < a * num / den ∧ a * num / den ≤ int64Max := by
  have ha0 : 0 ≤ a := by
    by_contra hneg
    exact convert_negative ⟨ha.1, by omega⟩ hnum hden h
  obtain ⟨_, -, h⟩ := bind_ok.1 h
  obtain ⟨q, hq, h⟩ := bind_ok.1 h
  obtain ⟨_, hwide, h⟩ := bind_ok.1 h
  have hwide : q < two64 := require_ok hwide
  have hr' : r = ofUint64 q := (Except.ok.inj h).symm
  have hsmall : q < 9223372036854775808 := by
    by_contra hbig
    rw [hr', ofUint64, if_neg hbig] at hr
    unfold two64 at hr hwide
    omega
  rw [ofUint64_of_lt hsmall] at hr'
  have hdiv : (q : Int) = a * num / den := by
    unfold u128Div at hq
    split at hq
    · cases hq
    · rw [← Except.ok.inj hq, u128Mul_of_nonneg ⟨ha0, ha.2⟩ ⟨hnum.1.le, hnum.2⟩,
        u128_of_nonneg hden.1.le hden.2, Int.natCast_ediv,
        Int.toNat_of_nonneg (mul_nonneg ha0 hnum.1.le), Int.toNat_of_nonneg hden.1.le]
  have hpos : 0 < a := by
    rcases ha0.eq_or_lt with rfl | hpos
    · rw [zero_mul, Int.zero_ediv] at hdiv
      omega
    · exact hpos
  refine ⟨hpos, ?_, ?_⟩
  · rwa [← hdiv, ← hr']
  · rw [← hdiv]
    unfold int64Max
    omega
/- The range of `int64_t`, the type of all amounts of operations. -/
def Asset.InInt64 (a : Asset) : Prop := int64Min ≤ a.amount ∧ a.amount ≤ int64Max

/-- What the operations put on the book: an amount to sell, and its price. -/
inductive Incoming : Asset → Price → Prop
  | create (o : LimitOrderCreateOperation) {p : Price} (hv : o.validate = .ok ())
    (hsell : o.amountToSell.InInt64) (hmin : o.minToReceive.InInt64)
    (hp : o.amountToSell.div o.minToReceive = .ok p) : Incoming o.amountToSell p
  | create2 (o : LimitOrderCreate2Operation) (hv : o.validate = .ok ())
    (hsell : o.amountToSell.InInt64) (hbase : o.exchangeRate.base.InInt64)
    (hquote : o.exchangeRate.quote.InInt64) : Incoming o.amountToSell o.exchangeRate

theorem Price.amounts_of_validate {p : Price} (h : p.validate = .ok ()) :
    0 < p.base.amount ∧ 0 < p.quote.amount := by
  obtain ⟨_, hbase, h⟩ := bind_ok.1 h
  obtain ⟨_, hquote, -⟩ := bind_ok.1 h
  exact ⟨require_ok hbase, require_ok hquote⟩

/-- A new order may rest on the book. -/
theorem Incoming.rests {sell : Asset} {price : Price} (h : Incoming sell price) {o : LimitOrder}
    (hsale : o.forSale = sell.amount) (hprice : o.sellPrice = price) : o.Rests := by
  cases h with
  | create op hv hsell hmin hp =>
    obtain ⟨_, -, hv⟩ := bind_ok.1 hv
    obtain ⟨_, hmarket, hv⟩ := bind_ok.1 hv
    obtain ⟨p, hp', hv⟩ := bind_ok.1 hv
    have hpp : p = price := Except.ok.inj (hp'.symm.trans hp)
    obtain ⟨_, -, hp⟩ := bind_ok.1 hp
    obtain ⟨_, -, hp⟩ := bind_ok.1 hp
    obtain ⟨_, -, hp⟩ := bind_ok.1 hp
    cases hp
    subst hpp
    obtain ⟨hb, hq⟩ := Price.amounts_of_validate hv
    have hasks : o.asks = op.minToReceive.amount := by
      unfold LimitOrder.asks
      rw [hprice, hsale]
      exact Int.mul_ediv_cancel_left _ hb.ne'
    refine ⟨hprice ▸ ⟨require_ok hmarket, ⟨hb, hsell.2⟩, hq, hmin.2⟩, hsale ▸ ⟨hb, hsell.2⟩, ?_⟩
    rw [hasks]
    exact ⟨hq, hmin.2⟩
  | create2 op hv hsell hbase hquote =>
    obtain ⟨_, -, hv⟩ := bind_ok.1 hv
    obtain ⟨_, hsymbol, hv⟩ := bind_ok.1 hv
    obtain ⟨_, hvalid, hv⟩ := bind_ok.1 hv
    obtain ⟨_, hmarket, hv⟩ := bind_ok.1 hv
    obtain ⟨x, hx, hpos⟩ := bind_ok.1 hv
    have hsymbol : op.amountToSell.symbol = op.exchangeRate.base.symbol := require_ok hsymbol
    have hmarket : isMarket op.amountToSell op.exchangeRate.quote := require_ok hmarket
    obtain ⟨hb, hq⟩ := Price.amounts_of_validate hvalid
    have hfeed : op.exchangeRate.Feed :=
      ⟨by unfold isMarket at hmarket ⊢; rwa [← hsymbol], ⟨hb, hbase.2⟩, hq, hquote.2⟩
    obtain ⟨n, -, hn, -, -⟩ := hfeed.names
    unfold Asset.mul at hx
    rw [hsymbol, hn] at hx
    simp only [bind, Except.bind, if_true] at hx
    split at hx
    · cases hx
    · next r hr =>
      cases hx
      obtain ⟨hsell0, hasks⟩ := convert_pos hsell hfeed.quote hfeed.base hr (require_ok hpos)
      refine ⟨hprice ▸ hfeed, hsale ▸ ⟨hsell0, hsell.2⟩, ?_⟩
      unfold LimitOrder.asks
      rwa [hsale, hprice]

/-! ### A new order -/

namespace Database

variable {d d₀ d' : Database} {sell : Asset} {price : Price}

/-- `d₀` is `d` with a new order on the book, which `apply_order` has not seen yet. -/
def Placed (d : Database) (sell : Asset) (price : Price) (d₀ : Database) : Prop :=
  ∃ created expiration seller orderId, d₀ = { d with limitOrders := d.limitOrders.create fun id =>
    ⟨id, created, expiration, seller, orderId, sell.amount, price⟩ }

theorem createOrder_ok {owner : Name} {orderId : Nat} {p : Result Price} {kill : Bool} {t : Time}
    (h : createOrder d owner orderId sell p kill t = .ok d') :
    ∃ (d₁ d₀ : Database) (price : Price) (filled : Bool), d₁.limitOrders = d.limitOrders ∧
      p = .ok price ∧ d₁.Placed sell price d₀ ∧
      d₀.applyOrder d₁.limitOrders.nextId = .ok (d', filled) := by
  obtain ⟨_, -, h⟩ := bind_ok.1 h
  obtain ⟨_, -, h⟩ := bind_ok.1 h
  obtain ⟨_, -, h⟩ := bind_ok.1 h
  obtain ⟨_, -, h⟩ := bind_ok.1 h
  obtain ⟨_, -, h⟩ := bind_ok.1 h
  obtain ⟨_, -, h⟩ := bind_ok.1 h
  obtain ⟨d₁, h₁, h⟩ := bind_ok.1 h
  obtain ⟨price, hp, h⟩ := bind_ok.1 h
  have ht₁ : d₁.limitOrders = d.limitOrders :=
    congrArg Core.limitOrders (of_triple adjustBalance_core trivial h₁)
  dsimp only at h
  split at h
  · obtain ⟨_, h, -⟩ := bind_ok.1 h
    cases h
  · obtain ⟨⟨d₂, filled⟩, h₂, h⟩ := bind_ok.1 h
    have hd₂ : d₂ = d' := by
      dsimp only at h
      split at h
      · obtain ⟨_, -, h⟩ := bind_ok.1 h
        exact Except.ok.inj h
      · exact Except.ok.inj h
    subst hd₂
    exact ⟨d₁, _, price, filled, ht₁, hp, ⟨_, _, _, _, rfl⟩, h₂⟩

theorem mem_candidates {o : LimitOrder} (hd : Book d.limitOrders) (hp : price.Feed) :
    o ∈ d.candidates price ↔
      o ∈ d.limitOrders.rows ∧ price.Crosses o.sellPrice ∧ o.sellPrice.InRange := by
  unfold candidates
  rw [List.mem_insertionSort, List.mem_filter]
  exact and_congr_right fun ho => Price.between_iff hp (hd.rests o ho).price

theorem candidates_perm : (d.candidates price).Perm (d.limitOrders.rows.filter fun o =>
    !o.sellPrice.gt (Price.max price.inverse.base.symbol price.inverse.quote.symbol) &&
      !price.inverse.gt o.sellPrice) :=
  List.perm_insertionSort _ _

/- The new order is no candidate of its own. -/
theorem Placed.candidates_length (hin : Incoming sell price) (h₀ : d.Placed sell price d₀) :
    (d₀.candidates price).length ≤ d.limitOrders.rows.length := by
  obtain ⟨created, expiration, seller, orderId, rfl⟩ := h₀
  have hfeed : price.Feed := (hin.rests
    (o := ⟨0, created, expiration, seller, orderId, sell.amount, price⟩) rfl rfl).price
  have hnew : ¬ (!price.gt (Price.max price.inverse.base.symbol price.inverse.quote.symbol) &&
      !price.inverse.gt price) = true := by
    rw [Price.between_iff hfeed hfeed]
    exact fun h => hfeed.symbols_ne h.1.base
  rw [candidates_perm.length_eq]
  unfold Table.create
  simp only [List.filter_append, List.filter_cons, if_neg hnew, List.filter_nil, List.append_nil]
  exact List.length_filter_le _ _

section

variable (hd : Book d.limitOrders) (hin : Incoming sell price) (h₀ : d.Placed sell price d₀)

include hd hin h₀

/- The loop starts with the orders that were on the book before. -/
theorem Placed.waiting : d₀.Waiting d.limitOrders.nextId price (d₀.candidates price) := by
  obtain ⟨created, expiration, seller, orderId, rfl⟩ := h₀
  have hbook : Book (d.limitOrders.create fun id =>
      (⟨id, created, expiration, seller, orderId, sell.amount, price⟩ : LimitOrder)) := by
    refine ⟨hd.keyed.create rfl, fun o ho => ?_⟩
    rcases List.mem_append.1 ho with ho | ho
    · exact hd.rests o ho
    · rw [List.mem_singleton.1 ho]
      exact hin.rests rfl rfl
  have hrow := hd.keyed.row_create (i := d.limitOrders.nextId)
    (r := fun id => ⟨id, created, expiration, seller, orderId, sell.amount, price⟩) rfl
  rw [if_pos rfl] at hrow
  refine ⟨hbook, ⟨_, hrow, rfl⟩, fun o ho => ?_, ?_⟩
  · obtain ⟨ho, hc, -⟩ := (mem_candidates hbook (hbook.row_rests hrow).price).1 ho
    exact ⟨hbook.keyed.row_iff.2 ⟨ho, rfl⟩, hc⟩
  · refine (List.Perm.nodup_iff (candidates_perm.map _)).2 ?_
    exact hbook.keyed.nodup.sublist (List.filter_sublist.map _)

/- The matches of the loop are fair, and no more than the orders on the book. -/
theorem Placed.run_fair {ms : List Match}
    (hrun : MatchRun d.limitOrders.nextId (d₀.candidates price) d₀ ms d') :
    (∀ m ∈ ms, m.Fair) ∧ ms.length ≤ d.limitOrders.rows.length :=
  ⟨hrun.fair (Placed.waiting hd hin h₀),
    hrun.length_le.trans (Placed.candidates_length hin h₀)⟩

/- What the loop leaves: the new order is gone, or it rests and no candidate is left. -/
theorem Placed.applyOrder_end {filled : Bool}
    (h : d₀.applyOrder d.limitOrders.nextId = .ok (d', filled)) :
    Book d'.limitOrders ∧
      (∃ ms, MatchRun d.limitOrders.nextId (d₀.candidates price) d₀ ms d') ∧
      if filled then ∀ o ∈ d'.limitOrders.rows, o.id ≠ d.limitOrders.nextId
      else ∃ n ∈ d'.limitOrders.rows, n.id = d.limitOrders.nextId ∧ n.sellPrice = price ∧
        ∀ o ∈ d'.limitOrders.rows, price.Crosses o.sellPrice → ¬ o.sellPrice.InRange := by
  have hw := Placed.waiting hd hin h₀
  obtain ⟨n₀, hn₀, hp₀⟩ := hw.new
  have hfeed : price.Feed := hp₀ ▸ (hw.book.row_rests hn₀).price
  obtain ⟨n, hn, h⟩ := bind_ok.1 h
  obtain ⟨d₁, hloop, h⟩ := bind_ok.1 h
  cases h
  have hnp : n.sellPrice = price := by
    rw [Option.some.inj ((found_ok hn).symm.trans hn₀), hp₀]
  rw [hnp] at hloop
  obtain ⟨hbook', hend⟩ := matchLoop_end hw hloop
  refine ⟨hbook', matchLoop_run hloop, ?_⟩
  show if (d'.limitOrders.row LimitOrder.id d.limitOrders.nextId).isNone then _ else _
  rcases hend with hgone | ⟨⟨n', hn', hp'⟩, hleft⟩
  · rw [if_pos (Option.isNone_iff_eq_none.2 hgone)]
    exact Table.row_none.1 hgone
  · obtain ⟨hmem, hid⟩ := Table.row_some hn'
    rw [if_neg fun hnone => Option.some_ne_none n'
      (hn'.symm.trans (Option.isNone_iff_eq_none.1 hnone))]
    refine ⟨n', hmem, hid, hp', fun o ho hc hrange => ?_⟩
    have hne : o.id ≠ d.limitOrders.nextId := by
      intro heq
      have hself := (hbook'.keyed.row_iff.2 ⟨ho, heq⟩).symm.trans hn'
      rw [Option.some.inj hself, hp'] at hc
      exact hfeed.symbols_ne hc.base
    obtain ⟨ho', hnot⟩ := hleft o ho hne
    exact hnot (List.mem_map_of_mem ((mem_candidates hw.book hfeed).2 ⟨ho', hc, hrange⟩))

/-- On every book, the matches of a new order are fair and no more than the orders it meets;
at the end it is gone, or it rests and no order in range that it crosses is left. -/
theorem applyOrder_fair :
    (∀ ms d', MatchRun d.limitOrders.nextId (d₀.candidates price) d₀ ms d' →
      (∀ m ∈ ms, m.Fair) ∧ ms.length ≤ d.limitOrders.rows.length) ∧
    ∀ d' filled, d₀.applyOrder d.limitOrders.nextId = .ok (d', filled) →
      Book d'.limitOrders ∧
      (∃ ms, MatchRun d.limitOrders.nextId (d₀.candidates price) d₀ ms d') ∧
      if filled then ∀ o ∈ d'.limitOrders.rows, o.id ≠ d.limitOrders.nextId
      else ∃ n ∈ d'.limitOrders.rows, n.id = d.limitOrders.nextId ∧ n.sellPrice = price ∧
        ∀ o ∈ d'.limitOrders.rows, price.Crosses o.sellPrice → ¬ o.sellPrice.InRange :=
  ⟨fun _ _ hrun => Placed.run_fair hd hin h₀ hrun,
    fun _ _ h => Placed.applyOrder_end hd hin h₀ h⟩

end

/-! ### Examples -/

/- Two genesis accounts with coins and with dollars, and an order of the first of them to sell 100
coins for 10 dollars. -/
def demoMarket : Database :=
  let d := (ChainState.initGenesis initSupply).db
  { d with
    accounts := d.accounts.map fun a =>
      if a.name = genesisAccountName 1 then { a with
        balance := 2000000000000000000
        tsdSecondsLastUpdate := genesisTime
        tsdLastInterestPayment := genesisTime }
      else if a.name = genesisAccountName 2 then { a with
        tsdBalance := 10
        tsdSecondsLastUpdate := genesisTime
        tsdLastInterestPayment := genesisTime }
      else a
    limitOrders := ⟨[⟨0, genesisTime, genesisTime + 60, genesisAccountName 1, 0, 100,
      ⟨.coin 100, .usd 10⟩⟩], 1⟩ }

/- The second account sells its dollars. -/
def demoOrder : LimitOrderCreateOperation where
  owner := genesisAccountName 2
  orderId := 0
  amountToSell := .usd 10
  minToReceive := .coin 50
  fillOrKill := false
  expiration := genesisTime + 60

/-- Both orders fill each other. -/
theorem applyOrder_demo : ∃ d₀ d', demoMarket.Placed (.usd 10) ⟨.usd 10, .coin 50⟩ d₀ ∧
    d₀.applyOrder 1 = .ok (d', true) ∧ ∀ o ∈ d'.limitOrders.rows, o.id ≠ 1 := by
  have hbook : Book demoMarket.limitOrders := by
    refine ⟨⟨by decide, by decide⟩, fun o ho => ?_⟩
    rw [List.mem_singleton.1 ho]
    exact ⟨⟨by decide, by decide, by decide⟩, by decide, by decide⟩
  have hin : Incoming (.usd 10) ⟨.usd 10, .coin 50⟩ :=
    .create demoOrder (by decide) ⟨by decide, by decide⟩ ⟨by decide, by decide⟩ rfl
  have h₀ : demoMarket.Placed (.usd 10) ⟨.usd 10, .coin 50⟩ _ :=
    ⟨genesisTime, genesisTime + 60, genesisAccountName 2, 0, rfl⟩
  have h : ({ demoMarket with limitOrders := demoMarket.limitOrders.create fun id =>
      ⟨id, genesisTime, genesisTime + 60, genesisAccountName 2, 0, 10,
        ⟨.usd 10, .coin 50⟩⟩ }.applyOrder 1).map Prod.snd = .ok true := by
    decide
  obtain ⟨⟨d', filled⟩, hd', hfilled⟩ := map_ok.1 h
  cases hfilled
  exact ⟨_, d', h₀, hd', ((applyOrder_fair hbook hin h₀).2 d' true hd').2.2⟩

/- All coins of the first account for one dollar, which is above `price::max`. -/
def demoBargain : LimitOrderCreateOperation where
  owner := genesisAccountName 1
  orderId := 1
  amountToSell := .coin 2000000000000000000
  minToReceive := .usd 1
  fillOrKill := false
  expiration := genesisTime + 60

/-- The orders cross, and both go on resting. -/
theorem bargain_left : ∃ (d d₁ d₂ : Database) (o₁ o₂ : LimitOrderCreateOperation),
    d.limitOrders.rows = [] ∧ o₁.validate = .ok () ∧ o₂.validate = .ok () ∧
    o₁.apply d = .ok d₁ ∧ o₂.apply d₁ = .ok d₂ ∧ ∃ new ∈ d₂.limitOrders.rows,
      new.seller = o₂.owner ∧ ∃ old ∈ d₂.limitOrders.rows,
        new.sellPrice.Crosses old.sellPrice := by
  have h : (demoBargain.apply { demoMarket with limitOrders := {} } >>= fun d₁ =>
      (demoOrder.apply d₁).map fun d₂ => d₂.limitOrders.rows.map fun o =>
        (o.seller, o.sellPrice)) = .ok [(genesisAccountName 1, ⟨.coin 2000000000000000000, .usd 1⟩),
          (genesisAccountName 2, ⟨.usd 10, .coin 50⟩)] := by
    decide
  obtain ⟨d₁, h₁, h⟩ := bind_ok.1 h
  obtain ⟨d₂, h₂, hrows⟩ := map_ok.1 h
  have hmem : ∀ x ∈ d₂.limitOrders.rows.map fun o => (o.seller, o.sellPrice),
      ∃ o ∈ d₂.limitOrders.rows, (o.seller, o.sellPrice) = x := fun x hx => List.mem_map.1 hx
  rw [hrows] at hmem
  obtain ⟨old, hold, ho⟩ := hmem _ List.mem_cons_self
  obtain ⟨new, hnew, hn⟩ := hmem _ (List.mem_cons_of_mem _ List.mem_cons_self)
  obtain ⟨-, ho⟩ := Prod.mk.inj ho
  obtain ⟨hseller, hn⟩ := Prod.mk.inj hn
  refine ⟨_, d₁, d₂, demoBargain, demoOrder, rfl, by decide, by decide, h₁, h₂,
    new, hnew, hseller, old, hold, ?_⟩
  rw [ho, hn]
  exact ⟨rfl, rfl, by decide⟩

end Database

/-! ### Runs -/

/- The amounts of an order to place are of 64 bits. -/
def Operation.InInt64 : Operation → Prop
  | .limitOrderCreate o => o.amountToSell.InInt64 ∧ o.minToReceive.InInt64
  | .limitOrderCreate2 o =>
    o.amountToSell.InInt64 ∧ o.exchangeRate.base.InInt64 ∧ o.exchangeRate.quote.InInt64
  | _ => True

namespace Database

variable {d d' : Database} {sell : Asset} {price : Price}

theorem createOrder_book {owner : Name} {orderId : Nat} {p : Result Price} {kill : Bool} {t : Time}
    (hd : Book d.limitOrders) (hin : ∀ price, p = .ok price → Incoming sell price)
    (h : createOrder d owner orderId sell p kill t = .ok d') : Book d'.limitOrders := by
  obtain ⟨d₁, d₀, price, filled, ht₁, hp, h₀, h⟩ := createOrder_ok h
  exact (Placed.applyOrder_end (ht₁ ▸ hd) (hin price hp) h₀ h).1

theorem cancelOrder_book {id : Nat} (hd : Book d.limitOrders) (h : d.cancelOrder id = .ok d') :
    Book d'.limitOrders := by
  obtain ⟨o, -, h⟩ := bind_ok.1 h
  obtain ⟨d₁, h₁, h⟩ := bind_ok.1 h
  cases h
  have ht₁ : d₁.limitOrders = d.limitOrders :=
    congrArg Core.limitOrders (of_triple adjustBalance_core trivial h₁)
  have hkeyed : d₁.limitOrders.Keyed LimitOrder.id := ht₁ ▸ hd.keyed
  exact ⟨hkeyed.remove id, fun o ho => hd.rests o (ht₁ ▸ List.mem_of_mem_eraseP ho)⟩

theorem applyOperation_book {w : Name} {env : Env} {o : Operation} (hd : Book d.limitOrders)
    (hv : o.validate env = .ok ()) (ho : o.InInt64) (h : applyOperation w d o = .ok d') :
    Book d'.limitOrders := by
  have hc := congrArg Core.limitOrders (of_triple applyOperation_core trivial h)
  cases o with
  | limitOrderCreate op =>
    exact createOrder_book hd (fun p hp => .create op hv ho.1 ho.2 hp) h
  | limitOrderCreate2 op =>
    refine createOrder_book hd (fun p hp => ?_) h
    cases hp
    exact .create2 op hv ho.1 ho.2.1 ho.2.2
  | limitOrderCancel op =>
    obtain ⟨order, -, h⟩ := bind_ok.1 h
    exact cancelOrder_book hd h
  | _ => exact (show d'.limitOrders = d.limitOrders from hc) ▸ hd

theorem endBlock_book {w : Name} {versions : Name → WitnessVersion} (hd : Book d.limitOrders)
    (h : d.endBlock w versions = .ok d') : Book d'.limitOrders := by
  obtain ⟨d₁, h₁, h⟩ := bind_ok.1 h
  obtain ⟨d₂, h₂, h⟩ := bind_ok.1 h
  obtain ⟨d₃, h₃, h⟩ := bind_ok.1 h
  obtain ⟨d₄, h₄, h⟩ := bind_ok.1 h
  have hbook : Book d₁.limitOrders :=
    run_induction (P := fun _ d => Book d.limitOrders) h₁ hd fun _ _ _ _ hd _ h =>
      cancelOrder_book hd h
  have hc₂ := congrArg Core.limitOrders (of_triple clearExpiredDelegations_core trivial h₂)
  have hc₃ := congrArg Core.limitOrders (of_triple updateWitnessSchedule_core trivial h₃)
  have hc₄ := congrArg Core.limitOrders (of_triple settle_core trivial h₄)
  have hc := congrArg Core.limitOrders (of_triple processHardforks_core trivial h)
  exact (show d'.limitOrders = d₁.limitOrders from
    hc.trans (hc₄.trans (hc₃.trans hc₂))) ▸ hbook

end Database

namespace ChainState

variable {env : Env} {s s' : ChainState} {b : Block}

/-- The states of runs in which the amounts of the orders placed are of 64 bits, as their type
demands. -/
inductive Typed (env : Env) : ChainState → Prop
  | genesis : Typed env (initGenesis initSupply)
  | block {s s' : ChainState} (b : Block) (h : Typed env s)
    (hb : s.applyBlock env .nothing b = .ok s')
    (ht : ∀ t ∈ b.transactions, ∀ o ∈ t.operations, o.InInt64) : Typed env s'

theorem applyBlock_book (hs : Book s.db.limitOrders)
    (ht : ∀ t ∈ b.transactions, ∀ o ∈ t.operations, o.InInt64)
    (h : s.applyBlock env .nothing b = .ok s') : Book s'.db.limitOrders := by
  obtain ⟨s₁, s₂, hstart, htransactions, hfinish⟩ := applyBlock_ok.1 h
  have hs₂ : Book s₂.db.limitOrders := by
    refine run_induction (P := fun _ e => Book e.db.limitOrders) htransactions
      (by rwa [(startBlock_keeps hstart).1]) ?_
    intro _ e t e' he hmem hstep
    obtain ⟨hcheck, d, hd, rfl⟩ := applyTransaction_ok.1 hstep
    have hvalid := ((checkTransaction_ok.1 hcheck).1 rfl).2
    refine run_induction (P := fun _ d => Book d.limitOrders) hd he ?_
    intro _ d o d' hd ho hop
    exact Database.applyOperation_book hd (forM_each hvalid ho) (ht t hmem o ho) hop
  obtain ⟨d₁, d₂, d₃, d₄, h₁, h₂, h₃, h₄, rfl⟩ := finishBlock_ok.1 hfinish
  have hc₁ := congrArg Core.limitOrders (of_triple Database.updateGlobalDynamicData_core trivial h₁)
  have hc₂ := congrArg Core.limitOrders (of_triple Database.updateSigningWitness_core trivial h₂)
  have hc₃ := congrArg Core.limitOrders
    (of_triple Database.updateLastIrreversibleBlock_core trivial h₃)
  refine Database.endBlock_book ?_ h₄
  exact (show d₃.limitOrders = s₂.db.limitOrders from hc₃.trans (hc₂.trans hc₁)) ▸ hs₂

/-- The book of every reachable state is one. -/
theorem Typed.book (h : Typed env s) : Book s.db.limitOrders := by
  induction h with
  | genesis => exact ⟨.empty, nofun⟩
  | block b _ hb ht ih => exact applyBlock_book ih ht hb

end ChainState

end WeNode.Chain
