import WeNode.Chain.MedianFeed

/-!
# The cap on debt

"This price limits TSD to 10% market cap": the median of the history is raised to a least price.
Prices compare by symbols first, so that a median that quotes TME is never below the least price.
-/

namespace WeNode.Chain.Database

open WeNode.Lib

/-- All TSD are worth at most a ninth of all TME. -/
def CapHolds (d : Database) : Prop :=
  ∃ v, (Asset.usd d.gpo.currentTSDsupply).mul d.feed.currentMedianHistory = .ok v ∧
    v.symbol = symbolCoin ∧ 0 ≤ v.amount ∧ 9 * v.amount ≤ d.gpo.currentSupply

/- What `adjust_supply` asserts of the supplies, with amounts of 64 bits. -/
structure Supplies (d : Database) : Prop where
  tsd : 0 ≤ d.gpo.currentTSDsupply ∧ d.gpo.currentTSDsupply ≤ int64Max
  tme : 0 ≤ d.gpo.currentSupply ∧ d.gpo.currentSupply ≤ int64Max

variable {d d' : Database} {feeds : List Price} {p q : Price}

theorem mul_quotesTSD {a : Int} (hb : p.base.symbol = symbolUsd) (hq : p.quote.symbol = symbolCoin)
    {r : Int} (hr : convert a p.quote.amount p.base.amount = .ok r) :
    (Asset.usd a).mul p = .ok (.coin r) := by
  have hname : symbolName symbolUsd = .ok [84, 83, 68] := by decide
  unfold Asset.mul
  simp only [Asset.usd, Asset.coin, hb, hq, hname, hr, bind, Except.bind, pure, Except.pure, if_true]

theorem capHolds_of_cross (hs : d.Supplies) (hmedian : d.feed.currentMedianHistory = p)
    (hbase : p.base.symbol = symbolUsd ∧ 0 < p.base.amount ∧ p.base.amount ≤ int64Max)
    (hquote : p.quote.symbol = symbolCoin ∧ 0 ≤ p.quote.amount ∧ p.quote.amount ≤ int64Max)
    (hcross : p.quote.amount * (9 * d.gpo.currentTSDsupply) ≤ d.gpo.currentSupply * p.base.amount) :
    d.CapHolds := by
  unfold CapHolds
  rw [hmedian]
  obtain ⟨hbsymbol, hb⟩ := hbase
  obtain ⟨hqsymbol, hq⟩ := hquote
  have hproduct : 0 ≤ d.gpo.currentTSDsupply * p.quote.amount := mul_nonneg hs.tsd.1 hq.1
  have hpos : 0 ≤ d.gpo.currentTSDsupply * p.quote.amount / p.base.amount :=
    Int.ediv_nonneg hproduct hb.1.le
  have hfloor := Int.ediv_mul_le (d.gpo.currentTSDsupply * p.quote.amount) hb.1.ne'
  have hcap : 9 * (d.gpo.currentTSDsupply * p.quote.amount / p.base.amount) ≤
      d.gpo.currentSupply := by
    refine le_of_mul_le_mul_right ?_ hb.1
    linarith
  have hfits : d.gpo.currentTSDsupply * p.quote.amount / p.base.amount ≤ int64Max := by
    have := hs.tme.2
    omega
  exact ⟨_, mul_quotesTSD hbsymbol hqsymbol (convert_eq hs.tsd hq hb hfits), rfl, hpos, hcap⟩

/-- The least price keeps the cap, and so does a price that quotes TSD and is not below it. -/
theorem limitedMedian_cap (hs : d.Supplies) (hfork : d.hasHardfork 14 = true) (hq : q.Feed)
    (hside : q.quotesTSD = true) (h : d.limitedMedian q = .ok p)
    (hmedian : d.feed.currentMedianHistory = p) : d.CapHolds := by
  have hqsymbols : q.base.symbol = symbolUsd ∧ q.quote.symbol = symbolCoin := by
    rcases hq.symbols with hsymbols | hsymbols
    · exact hsymbols
    · exact absurd hside (by simp [Price.quotesTSD, hsymbols.1, symbolCoin, symbolUsd])
  unfold limitedMedian at h
  rw [if_pos hfork] at h
  obtain ⟨debt, hdebt, h⟩ := bind_ok.1 h
  cases h
  obtain ⟨hdebt, -, hmax⟩ := share_ok hdebt
  have hdebt0 : 0 ≤ debt := by
    have := hs.tsd.1
    omega
  have hcross : Price.cross ⟨.usd debt, .coin d.gpo.currentSupply⟩ q =
      ((q.quote.amount * debt).toNat, (d.gpo.currentSupply * q.base.amount).toNat) :=
    Prod.ext (u128Mul_of_nonneg ⟨hq.quote.1.le, hq.quote.2⟩ ⟨hdebt0, hmax⟩)
      (u128Mul_of_nonneg hs.tme ⟨hq.base.1.le, hq.base.2⟩)
  have hle : Price.le ⟨.usd debt, .coin d.gpo.currentSupply⟩ q = true ↔
      q.quote.amount * debt ≤ d.gpo.currentSupply * q.base.amount := by
    have hleft : 0 ≤ q.quote.amount * debt := mul_nonneg hq.quote.1.le hdebt0
    have hright : 0 ≤ d.gpo.currentSupply * q.base.amount := mul_nonneg hs.tme.1 hq.base.1.le
    have hbase : (Asset.usd debt).symbol = symbolUsd := rfl
    have hquote : (Asset.coin d.gpo.currentSupply).symbol = symbolCoin := rfl
    unfold Price.le Price.eq Price.lt
    simp only [hcross, hbase, hquote, hqsymbols.1, hqsymbols.2, lt_irrefl, if_false,
      beq_self_eq_true, Bool.true_and, Bool.or_eq_true, beq_iff_eq, decide_eq_true_eq]
    omega
  by_cases hgt : q.quote.amount * debt ≤ d.gpo.currentSupply * q.base.amount
  · have hgt' : Price.gt ⟨.usd debt, .coin d.gpo.currentSupply⟩ q = false := by
      unfold Price.gt
      rw [hle.2 hgt]
      rfl
    rw [if_neg (by simp [hgt'])] at hmedian
    exact capHolds_of_cross hs hmedian ⟨hqsymbols.1, hq.base⟩
      ⟨hqsymbols.2, hq.quote.1.le, hq.quote.2⟩ (hdebt ▸ hgt)
  · have hgt' : Price.gt ⟨.usd debt, .coin d.gpo.currentSupply⟩ q = true := by
      unfold Price.gt
      simpa using fun hle' => hgt (hle.1 hle')
    have hpos : 0 < debt := by
      by_contra hdebt'
      have hzero : debt = 0 := by omega
      refine hgt ?_
      rw [hzero, mul_zero]
      exact mul_nonneg hs.tme.1 hq.base.1.le
    rw [if_pos hgt'] at hmedian
    exact capHolds_of_cross hs hmedian ⟨rfl, hpos, hmax⟩ ⟨rfl, hs.tme⟩ (hdebt ▸ le_rfl)

/- A price that quotes TME is never below the least price. -/
theorem limitedMedian_quotesTME (hq : q.Feed) (hside : q.quotesTSD = false)
    (h : d.limitedMedian q = .ok p) : p = q := by
  have hbase : q.base.symbol = symbolCoin := by
    rcases hq.symbols with hsymbols | hsymbols
    · exact absurd hside (by simp [Price.quotesTSD, hsymbols.1])
    · exact hsymbols.1
  unfold limitedMedian at h
  split at h
  · obtain ⟨debt, -, h⟩ := bind_ok.1 h
    have hgt : Price.gt ⟨.usd debt, .coin d.gpo.currentSupply⟩ q = false := by
      have hlt : symbolUsd < symbolCoin := by decide
      simp [Price.gt, Price.le, Price.lt, Asset.usd, hbase, hlt]
    dsimp only at h
    rw [hgt] at h
    cases h
    rfl
  · cases h
    rfl

variable {l : List Price} {i j k m : Nat}

/-! ### A price that quotes TME -/

/- TSD for a fifth of the TME issued, at hardfork 14. -/
def indebted : Database where
  gpo := { currentSupply := initSupply, currentTSDsupply := 200000000 }
  hardforks := { processedHardforks := List.replicate 15 genesisTime }

theorem indebted_takesFeeds : indebted.TakesFeeds := ⟨by decide, by decide, by decide⟩

theorem indebted_supplies : indebted.Supplies := ⟨by decide, by decide⟩

theorem indebted_limit (m : Price) : ∃ p, indebted.limitedMedian m = .ok p :=
  ⟨_, if_pos (by decide : indebted.hasHardfork 14 = true)⟩

theorem mixedFeeds_quotesTME {q : Price} (hq : q ∈ mixedFeeds 0 i j 0) (hside : q.quotesTSD = false) :
    q = tmeAt 1 := by
  simp only [mixedFeeds, List.replicate_zero, List.nil_append, List.append_nil, List.mem_append,
    List.mem_replicate] at hq
  rcases hq with ⟨-, rfl⟩ | ⟨-, rfl⟩
  · exact absurd hside (by simp [tsdAt_side])
  · rfl

/- The price in the middle of the history with the new median quotes TSD if enough of the prices
do. -/
theorem Publishes.middle (h : d.Publishes feeds d') (hfeeds : Quoted i j feeds)
    (hkept : Quoted k m d.keptHistory) : ∃ median chosen p,
      medianPrice feeds = some median ∧ d' = { d with feed := ⟨p, d.historyWith median⟩ } ∧
        chosen ∈ d.keptHistory ++ [median] ∧ chosen.Feed ∧
        chosen.quotesTSD = decide ((k + m + 1) / 2 < k + chosenTSD i j) ∧
        d.limitedMedian chosen = .ok p := by
  obtain ⟨median, chosen, p, hmedian, hd', hchosen, hp⟩ := h.chosen
  have hl := hkept.append (medianPrice_quoted hfeeds hmedian)
  have hnumber : k + chosenTSD i j + (m + (1 - chosenTSD i j)) = k + m + 1 := by
    unfold chosenTSD
    split <;> omega
  rw [historyWith_eq] at hchosen
  have hmem := (medianPrice_counts hl.feeds hchosen).1
  have hquotes := medianPrice_side hl hchosen
  rw [hnumber] at hquotes
  exact ⟨median, chosen, p, hmedian, hd', hmem, hl.feeds chosen hmem, hquotes, hp⟩

/- At one TME for a TSD the cap is passed, and nothing limits the price. -/
theorem Publishes.not_cap {history : List Price}
    (h : (indebted.withFeeds history feeds).Publishes feeds d') (hfeeds : Quoted i j feeds)
    (hkept : Quoted k m (indebted.withFeeds history feeds).keptHistory)
    (hside : ¬ (k + m + 1) / 2 < k + chosenTSD i j)
    (hone : ∀ q ∈ (indebted.withFeeds history feeds).keptHistory, q.quotesTSD = false → q = tmeAt 1)
    (hone' : ∀ q ∈ feeds, q.quotesTSD = false → q = tmeAt 1) : ¬ d'.CapHolds := by
  obtain ⟨median, chosen, p, hmedian, rfl, hmem, hfeed, hquotes, hp⟩ := h.middle hfeeds hkept
  rw [decide_eq_false hside] at hquotes
  have hlimited := limitedMedian_quotesTME hfeed hquotes hp
  have hvalue : chosen = tmeAt 1 := by
    rcases List.mem_append.1 hmem with hmem | hmem
    · exact hone chosen hmem hquotes
    · rw [List.mem_singleton.1 hmem] at hquotes ⊢
      exact hone' median (medianPrice_counts hfeeds.feeds hmedian).1 hquotes
  rw [hvalue] at hlimited
  subst hlimited
  rintro ⟨v, hv, -, -, hcap⟩
  have hvalue : (Asset.usd 200000000).mul (tmeAt 1) = .ok (.coin 200000000) := by decide
  cases hvalue.symm.trans hv
  have hlow : ¬ 9 * (Asset.coin 200000000).amount ≤ initSupply := by decide
  exact hlow hcap

/-- The cap holds after every update, of any `i` feeds that quote TSD and `j` that quote TME and of
a history in which `k` and `m` do, exactly when the price in the middle of the history with the new
median quotes TSD. -/
theorem updateMedianFeed_cap (i j k m : Nat) :
    (∀ (d : Database) feeds d', d.Publishes feeds d' → d.hasHardfork 14 = true → d.Supplies →
      Quoted i j feeds → Quoted k m d.keptHistory → d'.CapHolds) ↔
    i + j < minFeeds ∨ (k + m + 1) / 2 < k + chosenTSD i j := by
  constructor
  · intro h
    by_contra hcond
    obtain ⟨henough, hside⟩ := not_or.1 hcond
    have hkept : Quoted k m (mixedFeeds 0 k m 0) := by simpa using mixedFeeds_quoted 0 k m 0
    have hfeeds : Quoted i j (mixedFeeds 0 i j 0) := by simpa using mixedFeeds_quoted 0 i j 0
    obtain ⟨history, hhistory⟩ := keptHistory_any indebted (mixedFeeds 0 k m 0)
    obtain ⟨d', hd'⟩ := withFeeds_publishes history indebted_takesFeeds hfeeds.feeds
      (hfeeds.length ▸ Nat.le_of_not_lt henough) indebted_limit
    have hkept' := (hhistory (mixedFeeds 0 i j 0)).symm
    have hfork : indebted.hasHardfork 14 = true := by decide
    refine hd'.not_cap hfeeds (hkept' ▸ hkept) hside ?_ ?_ ?_
    · rw [← hkept']
      exact fun q hq => mixedFeeds_quotesTME hq
    · exact fun q hq => mixedFeeds_quotesTME hq
    · exact h _ _ d' hd' hfork ⟨indebted_supplies.tsd, indebted_supplies.tme⟩ hfeeds
        (hkept' ▸ hkept)
  · rintro hcond d feeds d' hd' hfork hs hfeeds hkept
    obtain ⟨median, chosen, p, -, rfl, -, hfeed, hquotes, hp⟩ := hd'.middle hfeeds hkept
    have hside : (k + m + 1) / 2 < k + chosenTSD i j := by
      rcases hcond with hfew | hside
      · exact absurd hd'.enough (by rw [hfeeds.length]; omega)
      · exact hside
    rw [decide_eq_true hside] at hquotes
    exact limitedMedian_cap (d := { d with feed := ⟨p, d.historyWith median⟩ }) ⟨hs.tsd, hs.tme⟩
      hfork hfeed hquotes hp rfl

/- Twelve witnesses quote TME. -/
theorem coin_feeds_pass_cap : ∃ d',
    (indebted.withFeeds [] (mixedFeeds 0 0 12 0)).Publishes (mixedFeeds 0 0 12 0) d' ∧
      indebted.hasHardfork 14 = true ∧ indebted.Supplies ∧
      (∀ q ∈ mixedFeeds 0 0 12 0, FeedPublishOperation.validate ⟨genesisAccountName 0, q⟩ = .ok ()) ∧
      ¬ d'.CapHolds := by
  have hfeeds := mixedFeeds_quoted 0 0 12 0
  obtain ⟨d', hd'⟩ := withFeeds_publishes [] indebted_takesFeeds hfeeds.feeds
    (by decide) indebted_limit
  refine ⟨d', hd', by decide, indebted_supplies, by decide, ?_⟩
  exact hd'.not_cap hfeeds (k := 0) (m := 0) ⟨nofun, rfl, rfl⟩ (by decide) nofun
    fun q hq => mixedFeeds_quotesTME hq

end WeNode.Chain.Database
