import WeNode.Chain.Block
import WeNode.Lib.OrderStatistics
import WeNode.Lib.Runs
import Mathlib.Data.Prod.Lex
import Mathlib.Algebra.Order.Field.Basic
import Mathlib.Data.Rat.Cast.Order
import Mathlib.Tactic

/-!
# The median of price feeds

Witnesses may quote TSD in TME or TME in TSD.  `price::operator<` orders prices by the symbol of
their base first, so that the median of feeds quoted both ways need not be one by value.
-/

namespace WeNode.Chain

open WeNode.Lib

/-- What `feed_publish_operation::validate` accepts, with amounts of 64 bits. -/
structure Price.Feed (p : Price) : Prop where
  market : isMarket p.base p.quote
  base : 0 < p.base.amount ∧ p.base.amount ≤ int64Max
  quote : 0 < p.quote.amount ∧ p.quote.amount ≤ int64Max

namespace Price

/- A price that quotes TSD in TME. -/
def quotesTSD (p : Price) : Bool := p.base.symbol == symbolUsd

/-- What a TSD is worth in TME. -/
def value (p : Price) : ℚ :=
  if p.quotesTSD then p.quote.amount / p.base.amount else p.base.amount / p.quote.amount

/- Prices that quote TSD come first, and fall; the others rise. -/
def rank (p : Price) : ℕ ×ₗ ℚ := toLex (if p.quotesTSD then (0, -p.value) else (1, p.value))

variable {a b p : Price}

theorem Feed.symbols (h : p.Feed) : p.base.symbol = symbolUsd ∧ p.quote.symbol = symbolCoin ∨
    p.base.symbol = symbolCoin ∧ p.quote.symbol = symbolUsd := h.market.symm

theorem feed_of_validate {o : FeedPublishOperation} (h : o.validate = .ok ())
    (hb : o.exchangeRate.base.amount ≤ int64Max) (hq : o.exchangeRate.quote.amount ≤ int64Max) :
    o.exchangeRate.Feed := by
  obtain ⟨-, -, h⟩ := bind_ok.1 h
  obtain ⟨_, hmarket, h⟩ := bind_ok.1 h
  obtain ⟨_, hbase, h⟩ := bind_ok.1 h
  obtain ⟨_, hquote, -⟩ := bind_ok.1 h
  exact ⟨require_ok hmarket, ⟨require_ok hbase, hb⟩, ⟨require_ok hquote, hq⟩⟩

theorem cross_eq (ha : a.Feed) (hb : b.Feed) :
    cross a b = ((b.quote.amount * a.base.amount).toNat, (a.quote.amount * b.base.amount).toNat) := by
  exact Prod.ext
    (u128Mul_of_nonneg ⟨hb.quote.1.le, hb.quote.2⟩ ⟨ha.base.1.le, ha.base.2⟩)
    (u128Mul_of_nonneg ⟨ha.quote.1.le, ha.quote.2⟩ ⟨hb.base.1.le, hb.base.2⟩)

/- Quotients compare as their cross products. -/
theorem div_le_div_iff_cross {x y z w : Int} (hy : 0 < y) (hw : 0 < w) :
    (x : ℚ) / y ≤ z / w ↔ x * w ≤ z * y := by
  rw [div_le_div_iff₀ (by exact_mod_cast hy) (by exact_mod_cast hw)]
  exact_mod_cast Iff.rfl

theorem cross_lt (ha : a.Feed) (hb : b.Feed) : (cross b a).1 < (cross b a).2 ↔
    a.quote.amount * b.base.amount < b.quote.amount * a.base.amount := by
  rw [cross_eq hb ha]
  exact Int.toNat_lt_toNat (mul_pos hb.quote.1 ha.base.1)

/-- The order of prices is that of their ranks. -/
theorem not_lt_iff (ha : a.Feed) (hb : b.Feed) : (!b.lt a) = true ↔ a.rank ≤ b.rank := by
  have hsymbols : symbolUsd < symbolCoin := by decide
  have hne : symbolCoin ≠ symbolUsd := by decide
  rw [Bool.not_eq_true', ← Bool.not_eq_true, Prod.Lex.le_iff]
  unfold lt rank value quotesTSD
  rcases ha.symbols with ⟨hab, haq⟩ | ⟨hab, haq⟩ <;> rcases hb.symbols with ⟨hbb, hbq⟩ | ⟨hbb, hbq⟩
  · simp only [hab, haq, hbb, hbq, lt_irrefl, if_false, decide_eq_true_eq, cross_lt ha hb, not_lt,
      beq_self_eq_true, if_true, ofLex_toLex, false_or, true_and, neg_le_neg_iff]
    rw [div_le_div_iff_cross hb.base.1 ha.base.1]
  · simp [hab, hbb, hsymbols, not_lt_of_gt hsymbols, hne]
  · simp [hab, hbb, hsymbols, hne]
  · simp only [hab, haq, hbb, hbq, lt_irrefl, if_false, decide_eq_true_eq, cross_lt ha hb, not_lt,
      beq_eq_false_iff_ne.2 hne, Bool.false_eq_true, ofLex_toLex, false_or, true_and]
    rw [div_le_div_iff_cross ha.quote.1 hb.quote.1]
    constructor <;> intro h <;> linarith

theorem rank_le_of_same (h : a.quotesTSD = b.quotesTSD) :
    a.rank ≤ b.rank ↔ if a.quotesTSD then b.value ≤ a.value else a.value ≤ b.value := by
  unfold rank
  rw [Prod.Lex.le_iff, ← h]
  cases a.quotesTSD <;> simp

theorem value_of_rank (h : a.rank = b.rank) : a.value = b.value := by
  unfold rank at h
  cases ha : a.quotesTSD <;> cases hb : b.quotesTSD <;> simp [ha, hb] at h <;> exact h

theorem rank_lt_of_other (ha : a.quotesTSD = true) (hb : b.quotesTSD = false) :
    a.rank < b.rank := by
  unfold rank
  rw [Prod.Lex.lt_iff, ha, hb]
  exact .inl Nat.zero_lt_one

end Price

/-- A price that at least half of the prices are no higher than, and at least half no lower. -/
def IsMedian (l : List Price) (p : Price) : Prop :=
  l.length ≤ 2 * l.countP (fun q => q.value ≤ p.value) ∧
    l.length ≤ 2 * l.countP (fun q => p.value ≤ q.value)

instance (l : List Price) (p : Price) : Decidable (IsMedian l p) :=
  inferInstanceAs (Decidable (_ ∧ _))

namespace Database

variable {l : List Price} {p : Price}

/-- The place of the price chosen in the order of ranks. -/
theorem medianPrice_counts (hl : ∀ q ∈ l, q.Feed) (h : medianPrice l = some p) :
    p ∈ l ∧ l.length / 2 + 1 ≤ l.countP (fun q => q.rank ≤ p.rank) ∧
      l.length ≤ l.countP (fun q => p.rank ≤ q.rank) + l.length / 2 := by
  have hmap := List.map_insertionSort (r := fun a b : Price => (!b.lt a) = true)
    (s := fun x y : ℕ ×ₗ ℚ => x ≤ y) Price.rank l
    fun a ha b hb => Price.not_lt_iff (hl a ha) (hl b hb)
  have hrank : ((l.map Price.rank).insertionSort (· ≤ ·))[(l.map Price.rank).length / 2]? =
      some p.rank := by
    rw [← hmap, List.getElem?_map, List.length_map]
    exact congrArg (Option.map Price.rank) h
  have hcounts := sorted_counts hrank
  rw [List.countP_map, List.countP_map, List.length_map] at hcounts
  exact ⟨(List.mem_insertionSort _).1 (List.mem_of_getElem? h), hcounts⟩

/- The price chosen is worth the same in every order of the prices. -/
theorem medianPrice_perm {l' : List Price} {p' : Price} (hl : ∀ q ∈ l, q.Feed) (hperm : l.Perm l')
    (h : medianPrice l = some p) (h' : medianPrice l' = some p') : p.value = p'.value := by
  have hrank : ∀ (x : List Price) (q : Price), (∀ y ∈ x, y.Feed) → medianPrice x = some q →
      ((x.map Price.rank).insertionSort (· ≤ ·))[x.length / 2]? = some q.rank := by
    intro x q hx hq
    rw [← List.map_insertionSort (r := fun a b : Price => (!b.lt a) = true)
      (s := fun x y : ℕ ×ₗ ℚ => x ≤ y) Price.rank x
      fun a ha b hb => Price.not_lt_iff (hx a ha) (hx b hb), List.getElem?_map]
    exact congrArg (Option.map Price.rank) hq
  have hl' : ∀ q ∈ l', q.Feed := fun q hq => hl q (hperm.mem_iff.2 hq)
  have hsorted : (l.map Price.rank).insertionSort (· ≤ ·) =
      (l'.map Price.rank).insertionSort (· ≤ ·) := by
    refine @List.Perm.eq_of_pairwise _ (· ≤ ·) _ _ (fun x y _ _ => le_antisymm)
      (List.pairwise_insertionSort _ _) (List.pairwise_insertionSort _ _) ?_
    exact ((List.perm_insertionSort _ _).trans (hperm.map Price.rank)).trans
      (List.perm_insertionSort _ _).symm
  have hp := hrank l p hl h
  rw [hsorted, hperm.length_eq, hrank l' p' hl' h'] at hp
  exact Price.value_of_rank (Option.some.inj hp).symm

theorem IsMedian.perm {l' : List Price} {p' : Price} (h : IsMedian l p) (hperm : l.Perm l')
    (hvalue : p.value = p'.value) : IsMedian l' p' := by
  unfold IsMedian at h ⊢
  rwa [← hvalue, ← hperm.length_eq, ← hperm.countP_eq, ← hperm.countP_eq]

/- Feeds of which `k` quote TSD and `m` quote TME. -/
structure Quoted (k m : Nat) (l : List Price) : Prop where
  feeds : ∀ q ∈ l, q.Feed
  tsd : l.countP Price.quotesTSD = k
  tme : l.countP (fun q => !q.quotesTSD) = m

variable {k m i j : Nat}

theorem Quoted.length (h : Quoted k m l) : l.length = k + m := by
  rw [← h.tsd, ← h.tme]
  have hsplit := List.length_eq_countP_add_countP (l := l) Price.quotesTSD
  simpa using hsplit

theorem Quoted.append {l' : List Price} (h : Quoted k m l) (h' : Quoted i j l') :
    Quoted (k + i) (m + j) (l ++ l') where
  feeds q hq := (List.mem_append.1 hq).elim (h.feeds q) (h'.feeds q)
  tsd := by rw [List.countP_append, h.tsd, h'.tsd]
  tme := by rw [List.countP_append, h.tme, h'.tme]

theorem Quoted.perm {l' : List Price} (h : Quoted k m l) (hperm : l.Perm l') : Quoted k m l' where
  feeds q hq := h.feeds q (hperm.mem_iff.2 hq)
  tsd := hperm.countP_eq _ ▸ h.tsd
  tme := hperm.countP_eq _ ▸ h.tme

theorem Quoted.replicate (n : Nat) (hp : p.Feed) :
    Quoted (if p.quotesTSD then n else 0) (if p.quotesTSD then 0 else n) (List.replicate n p) where
  feeds q hq := List.eq_of_mem_replicate hq ▸ hp
  tsd := List.countP_replicate
  tme := by
    rw [List.countP_replicate]
    cases p.quotesTSD <;> rfl

/- How many prices that quote TSD the choice from `i` that do and `j` that do not makes. -/
def chosenTSD (i j : Nat) : Nat := if (i + j) / 2 < i then 1 else 0

/-- The price chosen quotes TSD exactly when more than half of the prices do. -/
theorem medianPrice_side (hl : Quoted i j l) (h : medianPrice l = some p) :
    p.quotesTSD = decide ((i + j) / 2 < i) := by
  obtain ⟨hp, hlow, hhigh⟩ := medianPrice_counts hl.feeds h
  rw [hl.length] at hlow hhigh
  cases hside : p.quotesTSD with
  | true =>
    have hle : l.countP (fun x => x.rank ≤ p.rank) ≤ l.countP Price.quotesTSD := by
      refine List.countP_mono_left fun x _ hx => ?_
      by_contra hother
      have hlt := Price.rank_lt_of_other hside (by simpa using hother)
      exact absurd (of_decide_eq_true hx) (not_le_of_gt hlt)
    rw [hl.tsd] at hle
    exact (decide_eq_true (by omega)).symm
  | false =>
    have hle : l.countP (fun x => p.rank ≤ x.rank) ≤ l.countP fun x => !x.quotesTSD := by
      refine List.countP_mono_left fun x _ hx => ?_
      by_contra hother
      have hlt := Price.rank_lt_of_other (by simpa using hother) hside
      exact absurd (of_decide_eq_true hx) (not_le_of_gt hlt)
    rw [hl.tme] at hle
    exact (decide_eq_false (by omega)).symm

theorem medianPrice_quoted (hl : Quoted i j l) (h : medianPrice l = some p) :
    Quoted (chosenTSD i j) (1 - chosenTSD i j) [p] := by
  have hone := Quoted.replicate 1 (hl.feeds p (medianPrice_counts hl.feeds h).1)
  rw [medianPrice_side hl h] at hone
  unfold chosenTSD
  by_cases hside : (i + j) / 2 < i <;> simpa [hside] using hone

/-- Feeds that are all quoted the same way have a median by value. -/
theorem isMedian_of_same {side : Bool} (hl : ∀ q ∈ l, q.Feed) (hsame : ∀ q ∈ l, q.quotesTSD = side)
    (h : medianPrice l = some p) : IsMedian l p := by
  obtain ⟨hp, hlow, hhigh⟩ := medianPrice_counts hl h
  cases side with
  | true =>
    have hbelow : l.countP (fun q => q.rank ≤ p.rank) = l.countP fun q => p.value ≤ q.value := by
      refine List.countP_congr fun q hq => ?_
      simp [Price.rank_le_of_same ((hsame q hq).trans (hsame p hp).symm), hsame q hq]
    have habove : l.countP (fun q => p.rank ≤ q.rank) = l.countP fun q => q.value ≤ p.value := by
      refine List.countP_congr fun q hq => ?_
      simp [Price.rank_le_of_same ((hsame p hp).trans (hsame q hq).symm), hsame p hp]
    constructor <;> omega
  | false =>
    have hbelow : l.countP (fun q => q.rank ≤ p.rank) = l.countP fun q => q.value ≤ p.value := by
      refine List.countP_congr fun q hq => ?_
      simp [Price.rank_le_of_same ((hsame q hq).trans (hsame p hp).symm), hsame q hq]
    have habove : l.countP (fun q => p.rank ≤ q.rank) = l.countP fun q => p.value ≤ q.value := by
      refine List.countP_congr fun q hq => ?_
      simp [Price.rank_le_of_same ((hsame p hp).trans (hsame q hq).symm), hsame p hp]
    constructor <;> omega

theorem countP_le_add {α : Type} {f g h : α → Bool} {l : List α}
    (hfg : ∀ a ∈ l, f a = true → g a = true ∨ h a = true) :
    l.countP f ≤ l.countP g + l.countP h := by
  induction l with
  | nil => exact Nat.le_refl 0
  | cons a l ih =>
    have ih := ih fun b hb => hfg b (List.mem_cons_of_mem a hb)
    have ha := hfg a List.mem_cons_self
    rw [List.countP_cons, List.countP_cons, List.countP_cons]
    cases hf : f a with
    | false => simp; omega
    | true => rcases ha hf with hg | hh <;> simp [*] <;> omega

/- The one feed that quotes TSD comes before the others, of which one is chosen. -/
theorem isMedian_of_one (hl : Quoted 1 m l) (hm : m % 2 = 1) (h : medianPrice l = some p) :
    IsMedian l p := by
  obtain ⟨hp, hlow, hhigh⟩ := medianPrice_counts hl.feeds h
  have hlength := hl.length
  have hside : p.quotesTSD = false := by
    by_contra hside
    have hside : p.quotesTSD = true := by simpa using hside
    have hle : l.countP (fun q => q.rank ≤ p.rank) ≤ l.countP Price.quotesTSD := by
      refine List.countP_mono_left fun q _ hq => ?_
      by_contra hother
      have hlt := Price.rank_lt_of_other hside (by simpa using hother)
      exact absurd (of_decide_eq_true hq) (not_le_of_gt hlt)
    rw [hl.tsd] at hle
    omega
  have hbelow : l.countP (fun q => q.rank ≤ p.rank) ≤
      l.countP Price.quotesTSD + l.countP fun q => q.value ≤ p.value := by
    refine countP_le_add fun q _ hq => ?_
    cases hq' : q.quotesTSD with
    | true => exact .inl rfl
    | false =>
      have hvalue := (Price.rank_le_of_same (hq'.trans hside.symm)).1 (of_decide_eq_true hq)
      rw [hq'] at hvalue
      exact .inr (decide_eq_true hvalue)
  have habove : l.countP (fun q => p.rank ≤ q.rank) ≤ l.countP fun q => p.value ≤ q.value := by
    refine List.countP_mono_left fun q _ hq => ?_
    cases hq' : q.quotesTSD with
    | true =>
      have hlt := Price.rank_lt_of_other hq' hside
      exact absurd (of_decide_eq_true hq) (not_le_of_gt hlt)
    | false =>
      have hvalue := (Price.rank_le_of_same (hside.trans hq'.symm)).1 (of_decide_eq_true hq)
      rw [hside] at hvalue
      exact decide_eq_true hvalue
  rw [hl.tsd] at hbelow
  constructor <;> omega

/-! ### Feeds without a median by value -/

/- Prices that value a TSD at 1 or 2 TME, quoted either way. -/
def tsdAt (n : Int) : Price := ⟨.usd 1, .coin n⟩
def tmeAt (n : Int) : Price := ⟨.coin n, .usd 1⟩

theorem tsdAt_side (n : Int) : (tsdAt n).quotesTSD = true := by
  simp [tsdAt, Price.quotesTSD, Asset.usd]

theorem tmeAt_side (n : Int) : (tmeAt n).quotesTSD = false := by
  simp [tmeAt, Price.quotesTSD, Asset.coin, symbolCoin, symbolUsd]

/- `i` feeds that quote TSD at 2, `j` at 1, then `i'` feeds that quote TME at 1 and `j'` at 2. -/
def mixedFeeds (i j i' j' : Nat) : List Price :=
  List.replicate i (tsdAt 2) ++ List.replicate j (tsdAt 1) ++
    (List.replicate i' (tmeAt 1) ++ List.replicate j' (tmeAt 2))

theorem mixedFeeds_quoted (i j i' j' : Nat) : Quoted (i + j) (i' + j') (mixedFeeds i j i' j') where
  feeds q hq := by
    have hone : (0 : Int) < 1 ∧ 1 ≤ int64Max := by decide
    have hfeed : ∀ n : Int, 0 < n ∧ n ≤ int64Max → (tsdAt n).Feed ∧ (tmeAt n).Feed := fun n hn =>
      ⟨⟨.inr ⟨rfl, rfl⟩, hone, hn⟩, ⟨.inl ⟨rfl, rfl⟩, hn, hone⟩⟩
    have h1 := hfeed 1 (by decide)
    have h2 := hfeed 2 (by decide)
    simp only [mixedFeeds, List.mem_append, List.mem_replicate] at hq
    rcases hq with (⟨-, rfl⟩ | ⟨-, rfl⟩) | (⟨-, rfl⟩ | ⟨-, rfl⟩)
    · exact h2.1
    · exact h1.1
    · exact h1.2
    · exact h2.2
  tsd := by
    have h1 : (tsdAt 1).quotesTSD = true := rfl
    have h2 : (tsdAt 2).quotesTSD = true := rfl
    have h3 : (tmeAt 1).quotesTSD = false := rfl
    have h4 : (tmeAt 2).quotesTSD = false := rfl
    simp [mixedFeeds, List.countP_append, List.countP_replicate, h1, h2, h3, h4]
  tme := by
    have h1 : (tsdAt 1).quotesTSD = true := rfl
    have h2 : (tsdAt 2).quotesTSD = true := rfl
    have h3 : (tmeAt 1).quotesTSD = false := rfl
    have h4 : (tmeAt 2).quotesTSD = false := rfl
    simp [mixedFeeds, List.countP_append, List.countP_replicate, h1, h2, h3, h4]

theorem mixedFeeds_sorted (i j i' j' : Nat) :
    (mixedFeeds i j i' j').insertionSort (fun a b => !b.lt a) = mixedFeeds i j i' j' := by
  refine List.Pairwise.insertionSort_eq ?_
  have hsame : ∀ n : Nat, ∀ p : Price, p.lt p = false →
      (List.replicate n p).Pairwise fun a b => (!b.lt a) = true := fun n p hp => by
    rw [List.pairwise_replicate]
    exact .inr (by rw [hp]; rfl)
  unfold mixedFeeds
  simp only [List.pairwise_append, List.mem_append, List.mem_replicate]
  refine ⟨⟨hsame _ _ (by decide), hsame _ _ (by decide), ?_⟩,
    ⟨hsame _ _ (by decide), hsame _ _ (by decide), ?_⟩, ?_⟩
  · rintro a ⟨-, rfl⟩ b ⟨-, rfl⟩
    decide
  · rintro a ⟨-, rfl⟩ b ⟨-, rfl⟩
    decide
  · rintro a (⟨-, rfl⟩ | ⟨-, rfl⟩) b (⟨-, rfl⟩ | ⟨-, rfl⟩) <;> decide

/- Where the price in the middle is one of those at 1, too few feeds are as low. -/
theorem mixedFeeds_not_median {i j i' j' : Nat} (hfew : 2 * (j + i') < i + j + (i' + j'))
    (hmiddle : i ≤ (i + j + (i' + j')) / 2 ∧ (i + j + (i' + j')) / 2 < i + j + i') :
    ∃ p, medianPrice (mixedFeeds i j i' j') = some p ∧ ¬ IsMedian (mixedFeeds i j i' j') p := by
  have hlength := (mixedFeeds_quoted i j i' j').length
  have hmedian : medianPrice (mixedFeeds i j i' j') =
      (mixedFeeds i j i' j')[(i + j + (i' + j')) / 2]? := by
    unfold medianPrice
    rw [mixedFeeds_sorted, hlength]
  obtain ⟨p, hp, hvalue⟩ : ∃ p, medianPrice (mixedFeeds i j i' j') = some p ∧ p.value = 1 := by
    rw [hmedian]
    generalize (i + j + (i' + j')) / 2 = middle at hmiddle ⊢
    by_cases hside : middle < i + j
    · refine ⟨tsdAt 1, ?_, by norm_num [tsdAt, Price.value, Price.quotesTSD, Asset.usd, Asset.coin]⟩
      rw [mixedFeeds, List.getElem?_append_left (by simp; omega),
        List.getElem?_append_right (by simp; omega), List.getElem?_replicate_of_lt (by simp; omega)]
    · refine ⟨tmeAt 1, ?_, by norm_num [tmeAt, Price.value, Price.quotesTSD, Asset.usd, Asset.coin]⟩
      rw [mixedFeeds, List.getElem?_append_right (by simp; omega),
        List.getElem?_append_left (by simp; omega), List.getElem?_replicate_of_lt (by simp; omega)]
  refine ⟨p, hp, fun hmed => ?_⟩
  have hlow := hmed.1
  rw [hvalue, hlength] at hlow
  have h1 : (tsdAt 1).value = 1 ∧ (tsdAt 2).value = 2 := by
    norm_num [tsdAt, Price.value, Price.quotesTSD, Asset.usd, Asset.coin]
  have h2 : (tmeAt 1).value = 1 ∧ (tmeAt 2).value = 2 := by
    norm_num [tmeAt, Price.value, Price.quotesTSD, Asset.usd, Asset.coin, symbolUsd, symbolCoin]
  have hcount : (mixedFeeds i j i' j').countP (fun q => q.value ≤ 1) = j + i' := by
    simp [mixedFeeds, List.countP_append, List.countP_replicate, h1, h2]
  omega

/- A price of the side that is one more than its number can stand last. -/
theorem Quoted.last (hs : i = 1 ∧ j = 0 ∨ i = 0 ∧ j = 1) (hl : Quoted (k + i) (m + j) l) :
    ∃ rest x, l.Perm (rest ++ [x]) ∧ Quoted k m rest ∧ x.quotesTSD = decide (i = 1) := by
  obtain ⟨x, hx, hside⟩ : ∃ x ∈ l, x.quotesTSD = decide (i = 1) := by
    rcases hs with ⟨rfl, rfl⟩ | ⟨rfl, rfl⟩
    · exact List.countP_pos_iff.1 (hl.tsd.symm ▸ Nat.succ_pos k)
    · have hpos : 0 < l.countP fun q => !q.quotesTSD := hl.tme.symm ▸ Nat.succ_pos m
      obtain ⟨x, hx, hside⟩ := List.countP_pos_iff.1 hpos
      exact ⟨x, hx, by simpa using hside⟩
  have hperm : l.Perm (l.erase x ++ [x]) :=
    (List.perm_cons_erase hx).trans (List.perm_append_singleton x _).symm
  have hlast := hl.perm hperm
  have htsd := hlast.tsd
  have htme := hlast.tme
  rw [List.countP_append, List.countP_singleton, hside] at htsd htme
  refine ⟨l.erase x, x, hperm, ⟨fun q hq => hl.feeds q (List.mem_of_mem_erase hq), ?_, ?_⟩, hside⟩
  · rcases hs with ⟨rfl, rfl⟩ | ⟨rfl, rfl⟩ <;> simpa using htsd
  · rcases hs with ⟨rfl, rfl⟩ | ⟨rfl, rfl⟩ <;> simpa using htme

/- All prices are quoted the same way, or one quotes TSD and the number of the others is odd. -/
def Comparable (k m : Nat) : Prop := k = 0 ∨ m = 0 ∨ k = 1 ∧ m % 2 = 1

/-- The price chosen from feeds is a median by value for all amounts exactly when the feeds are
comparable. -/
theorem medianPrice_by_value (k m : Nat) :
    (∀ l p, Quoted k m l → medianPrice l = some p → IsMedian l p) ↔ Comparable k m := by
  constructor
  · intro h
    by_contra hcond
    unfold Comparable at hcond
    have hfail : ∀ i j i' j', i + j = k → i' + j' = m → 2 * (j + i') < i + j + (i' + j') →
        i ≤ (i + j + (i' + j')) / 2 ∧ (i + j + (i' + j')) / 2 < i + j + i' → False := by
      rintro i j i' j' rfl rfl hfew hmiddle
      obtain ⟨p, hp, hnot⟩ := mixedFeeds_not_median hfew hmiddle
      exact hnot (h _ p (mixedFeeds_quoted i j i' j') hp)
    -- the feeds that are quoted the way of the one in the middle are low from there on
    by_cases hside : (k + m) / 2 < k
    · exact hfail ((k + m) / 2) (k - (k + m) / 2) 0 m (by omega) (by omega) (by omega) (by omega)
    · exact hfail k 0 ((k + m) / 2 - k + 1) (m - ((k + m) / 2 - k + 1)) (by omega) (by omega)
        (by omega) (by omega)
  · rintro hcond l p hl hp
    rcases hcond with rfl | rfl | ⟨rfl, hm⟩
    · refine isMedian_of_same hl.feeds (fun q hq => (?_ : q.quotesTSD = false)) hp
      simpa using List.countP_eq_zero.1 hl.tsd q hq
    · refine isMedian_of_same hl.feeds (fun q hq => (?_ : q.quotesTSD = true)) hp
      simpa using List.countP_eq_zero.1 hl.tme q hq
    · exact isMedian_of_one hl hm hp


/-! ### The update -/

/- What happens in an update that publishes a median of the feeds. -/
structure Publishes (d : Database) (feeds : List Price) (d' : Database) : Prop where
  due : d.headBlockNum % feedIntervalBlocks = 0
  scheduled : ∃ l, d.scheduledWitnesses = .ok l ∧ (l.filter d.liveFeed).map (·.tsdExchangeRate) = feeds
  enough : minFeeds ≤ feeds.length
  updated : d.updateMedianFeed = .ok d'

def feedWindow (d : Database) : Nat :=
  if d.hasHardfork 16 then feedHistoryWindow else feedHistoryWindowPreHF16

/- The history with the median of this hour. -/
def historyWith (d : Database) (median : Price) : List Price :=
  if d.feedWindow < (d.feed.priceHistory ++ [median]).length then
    (d.feed.priceHistory ++ [median]).tail
  else d.feed.priceHistory ++ [median]

/- The prices of the history that stay. -/
def keptHistory (d : Database) : List Price :=
  if d.feedWindow < d.feed.priceHistory.length + 1 then d.feed.priceHistory.tail
  else d.feed.priceHistory

variable {d d' : Database} {feeds : List Price}

theorem historyWith_eq (d : Database) (median : Price) :
    d.historyWith median = d.keptHistory ++ [median] := by
  have hwindow : 0 < d.feedWindow := by
    unfold feedWindow
    split <;> decide
  unfold historyWith keptHistory
  rw [List.length_append, List.length_singleton]
  split
  · next hlong =>
    cases hhistory : d.feed.priceHistory with
    | nil =>
      rw [hhistory] at hlong
      exact absurd hlong (Nat.not_lt.2 hwindow)
    | cons first rest => rfl
  · rfl

theorem historyWith_ne_nil (d : Database) (median : Price) : d.historyWith median ≠ [] := by
  rw [historyWith_eq]
  exact List.append_ne_nil_of_right_ne_nil _ (List.cons_ne_nil _ _)

theorem medianPrice_some {l : List Price} (hl : l ≠ []) : ∃ p, medianPrice l = some p := by
  have hpos := List.length_pos_iff.2 hl
  refine ⟨_, List.getElem?_eq_getElem (i := l.length / 2) ?_⟩
  rw [List.length_insertionSort]
  omega

theorem updateMedianFeed_eq {l : List Witness} {median m : Price}
    (hdue : d.headBlockNum % feedIntervalBlocks = 0) (hl : d.scheduledWitnesses = .ok l)
    (henough : minFeeds ≤ ((l.filter d.liveFeed).map (·.tsdExchangeRate)).length)
    (hmedian : medianPrice ((l.filter d.liveFeed).map (·.tsdExchangeRate)) = some median)
    (hm : medianPrice (d.historyWith median) = some m) :
    d.updateMedianFeed =
      (d.limitedMedian m).bind fun p => .ok { d with feed := ⟨p, d.historyWith median⟩ } := by
  unfold updateMedianFeed
  rw [if_neg (not_not.2 hdue), hl]
  dsimp only [bind, Except.bind, pure, Except.pure]
  rw [if_neg (Nat.not_lt.2 henough), hmedian]
  dsimp only [found]
  unfold historyWith feedWindow at hm ⊢
  rw [hm]

/-- The median of the feeds joins the history, whose median is published as far as the debt
allows. -/
theorem Publishes.chosen (h : d.Publishes feeds d') : ∃ median m p,
    medianPrice feeds = some median ∧ d' = { d with feed := ⟨p, d.historyWith median⟩ } ∧
      medianPrice (d.historyWith median) = some m ∧ d.limitedMedian m = .ok p := by
  obtain ⟨l, hl, rfl⟩ := h.scheduled
  have hne : (l.filter d.liveFeed).map (·.tsdExchangeRate) ≠ [] := fun hnil =>
    absurd h.enough (by rw [hnil]; decide)
  obtain ⟨median, hmedian⟩ := medianPrice_some hne
  obtain ⟨m, hm⟩ := medianPrice_some (d.historyWith_ne_nil median)
  obtain ⟨p, hp, hd'⟩ := bind_ok.1 ((updateMedianFeed_eq h.due hl h.enough hmedian hm).symm.trans
    h.updated)
  cases hd'
  exact ⟨median, m, p, hmedian, rfl, hm, hp⟩

/- A witness for each of the feeds, all of them scheduled. -/
def feedWitnesses : Nat → List Price → List Witness
  | _, [] => []
  | i, p :: l => { id := i, owner := i, tsdExchangeRate := p } :: feedWitnesses (i + 1) l

def withFeeds (d : Database) (history feeds : List Price) : Database :=
  { d with
    witnesses := ⟨feedWitnesses 0 feeds, feeds.length⟩
    schedule := {
      currentShuffledWitnesses := (feedWitnesses 0 feeds).map (·.owner)
      numScheduledWitnesses := feeds.length }
    feed := { priceHistory := history } }

theorem feedWitnesses_length (i : Nat) (l : List Price) : (feedWitnesses i l).length = l.length := by
  induction l generalizing i with
  | nil => rfl
  | cons p l ih => exact congrArg (· + 1) (ih (i + 1))

theorem feedWitnesses_owner {i : Nat} {l : List Price} {w : Witness} (hw : w ∈ feedWitnesses i l) :
    i ≤ w.owner := by
  induction l generalizing i with
  | nil => cases hw
  | cons p l ih =>
    rcases List.mem_cons.1 hw with rfl | hw
    · exact Nat.le_refl i
    · exact Nat.le_of_succ_le (ih hw)

theorem feedWitnesses_find {i : Nat} {l : List Price} {w : Witness} (hw : w ∈ feedWitnesses i l) :
    (feedWitnesses i l).find? (fun x => x.owner == w.owner) = some w := by
  induction l generalizing i with
  | nil => cases hw
  | cons p l ih =>
    rcases List.mem_cons.1 hw with rfl | hw
    · exact List.find?_cons_of_pos (by simp)
    · have hne : i ≠ w.owner := Nat.ne_of_lt (feedWitnesses_owner hw)
      exact (List.find?_cons_of_neg (by simpa using hne)).trans (ih hw)

/- A database at the beginning of an hour in which prices of any age are taken. -/
structure TakesFeeds (d : Database) : Prop where
  due : d.headBlockNum % feedIntervalBlocks = 0
  unaged : d.hasHardfork 19 = false
  time : 0 < timeAdd d.headBlockTime maxFeedAgeSeconds

variable {history : List Price}

theorem feedWitnesses_live (hd : d.TakesFeeds) {i : Nat} {l : List Price} (hl : ∀ p ∈ l, p.Feed) :
    ((feedWitnesses i l).filter (d.withFeeds history feeds).liveFeed).map (·.tsdExchangeRate) =
      l := by
  induction l generalizing i with
  | nil => rfl
  | cons p l ih =>
    have hp : p.isNull = false := by
      have hne : symbolUsd ≠ symbolCoin := by decide
      unfold Price.isNull Price.eq Price.null
      rcases (hl p List.mem_cons_self).symbols with ⟨hb, hq⟩ | ⟨hb, hq⟩ <;>
        simp [hb, hq, Asset.coin, hne]
    have hlive : (d.withFeeds history feeds).liveFeed
        { id := i, owner := i, tsdExchangeRate := p } = true := by
      have hunaged : (d.withFeeds history feeds).hasHardfork 19 = false := hd.unaged
      unfold liveFeed
      rw [hp, hunaged, if_neg Bool.false_ne_true, Bool.not_false, Bool.true_and, decide_eq_true_eq]
      exact hd.time
    rw [feedWitnesses, List.filter_cons_of_pos hlive, List.map_cons,
      ih fun q hq => hl q (List.mem_cons_of_mem p hq)]

variable (history) in
theorem withFeeds_publishes (hd : d.TakesFeeds) (hl : ∀ p ∈ feeds, p.Feed)
    (henough : minFeeds ≤ feeds.length) (hlimit : ∀ m, ∃ p, d.limitedMedian m = .ok p) :
    ∃ d', (d.withFeeds history feeds).Publishes feeds d' := by
  have hscheduled : (d.withFeeds history feeds).scheduledWitnesses = .ok (feedWitnesses 0 feeds) := by
    have hnames : (d.withFeeds history feeds).scheduledNames =
        (feedWitnesses 0 feeds).map (·.owner) := by
      refine List.take_of_length_le ?_
      exact (List.length_map _).trans_le (feedWitnesses_length 0 feeds).le
    unfold scheduledWitnesses
    rw [hnames]
    exact mapM_back fun w hw => congrArg found (feedWitnesses_find hw)
  have hne : feeds ≠ [] := fun hnil => absurd henough (by rw [hnil]; decide)
  obtain ⟨median, hmedian⟩ := medianPrice_some hne
  obtain ⟨m, hm⟩ := medianPrice_some ((d.withFeeds history feeds).historyWith_ne_nil median)
  obtain ⟨p, hp⟩ := hlimit m
  have hp : (d.withFeeds history feeds).limitedMedian m = .ok p := hp
  have hdue : (d.withFeeds history feeds).headBlockNum % feedIntervalBlocks = 0 := hd.due
  have hlive : ((feedWitnesses 0 feeds).filter (d.withFeeds history feeds).liveFeed).map
      (·.tsdExchangeRate) = feeds := feedWitnesses_live hd hl
  refine ⟨{ d.withFeeds history feeds with
    feed := ⟨p, (d.withFeeds history feeds).historyWith median⟩ }, hdue, ⟨_, hscheduled, hlive⟩,
    henough, ?_⟩
  rw [updateMedianFeed_eq hdue hscheduled (by rwa [hlive]) (by rwa [hlive]) hm, hp]
  rfl

/- Any history can be left. -/
theorem keptHistory_any (d : Database) (l : List Price) :
    ∃ history, ∀ feeds, (d.withFeeds history feeds).keptHistory = l := by
  by_cases hshort : l.length + 1 ≤ d.feedWindow
  · exact ⟨l, fun feeds => if_neg (Nat.not_lt.2 hshort)⟩
  · refine ⟨.null :: l, fun feeds => if_pos ?_⟩
    change d.feedWindow < (Price.null :: l).length + 1
    rw [List.length_cons]
    omega

/-- Feeds quoted in any numbers can have any median of their side and follow any history. -/
theorem publishes_any (hd : d.TakesFeeds) (hlimit : ∀ m, ∃ p, d.limitedMedian m = .ok p)
    (henough : minFeeds ≤ i + j) (l : List Price) (hp : p.Feed)
    (hside : p.quotesTSD = decide ((i + j) / 2 < i)) :
    ∃ history feeds d', (d.withFeeds history feeds).Publishes feeds d' ∧ Quoted i j feeds ∧
      (d.withFeeds history feeds).keptHistory = l ∧ d'.feed.priceHistory = l ++ [p] := by
  obtain ⟨history, hhistory⟩ := d.keptHistory_any l
  obtain ⟨feeds, hfeeds, hsame⟩ : ∃ feeds, Quoted i j feeds ∧
      ∀ q ∈ feeds, q.quotesTSD = p.quotesTSD → q = p := by
    cases hquotes : p.quotesTSD with
    | true =>
      have htme : (tmeAt 1).Feed := (mixedFeeds_quoted 0 0 1 0).feeds _ List.mem_cons_self
      refine ⟨.replicate i p ++ .replicate j (tmeAt 1), ?_, fun q hq hsame => ?_⟩
      · simpa [hquotes, tmeAt_side] using (Quoted.replicate i hp).append (Quoted.replicate j htme)
      · rcases List.mem_append.1 hq with hq | hq
        · exact List.eq_of_mem_replicate hq
        · rw [List.eq_of_mem_replicate hq] at hsame
          exact absurd hsame (by simp [tmeAt_side])
    | false =>
      have htsd : (tsdAt 1).Feed := (mixedFeeds_quoted 0 1 0 0).feeds _ List.mem_cons_self
      refine ⟨.replicate i (tsdAt 1) ++ .replicate j p, ?_, fun q hq hsame => ?_⟩
      · simpa [hquotes, tsdAt_side] using (Quoted.replicate i htsd).append (Quoted.replicate j hp)
      · rcases List.mem_append.1 hq with hq | hq
        · rw [List.eq_of_mem_replicate hq] at hsame
          exact absurd hsame (by simp [tsdAt_side])
        · exact List.eq_of_mem_replicate hq
  obtain ⟨d', hd'⟩ := withFeeds_publishes history hd hfeeds.feeds
    (hfeeds.length ▸ henough) hlimit
  refine ⟨history, feeds, d', hd', hfeeds, hhistory feeds, ?_⟩
  obtain ⟨median, m, q, hmedian, rfl, -⟩ := hd'.chosen
  have hmem := (medianPrice_counts hfeeds.feeds hmedian).1
  rw [hsame median hmem ((medianPrice_side hfeeds hmedian).trans hside.symm)]
  exact (historyWith_eq _ p).trans (congrArg (· ++ [p]) (hhistory feeds))

theorem takesFeeds_empty : TakesFeeds {} := ⟨by decide, by decide, by decide⟩

theorem limitedMedian_empty (m : Price) : ∃ p, limitedMedian {} m = .ok p := ⟨m, rfl⟩

/- Both medians of an update are medians by value. -/
structure ByValue (d : Database) (feeds : List Price) (d' : Database) : Prop where
  feeds : ∃ p, d'.feed.priceHistory = d.keptHistory ++ [p] ∧ IsMedian feeds p
  history : ∃ p, medianPrice d'.feed.priceHistory = some p ∧
    d.limitedMedian p = .ok d'.feed.currentMedianHistory ∧ IsMedian d'.feed.priceHistory p

/-- The medians that an update takes, of any `i` feeds that quote TSD and `j` that quote TME and of
a history in which `k` and `m` do, are medians by value exactly when both the feeds and the history
with the new median are comparable. -/
theorem updateMedianFeed_by_value (i j k m : Nat) :
    (∀ (d : Database) feeds d', d.Publishes feeds d' → Quoted i j feeds →
      Quoted k m d.keptHistory → d.ByValue feeds d') ↔
    i + j < minFeeds ∨
      Comparable i j ∧ Comparable (k + chosenTSD i j) (m + (1 - chosenTSD i j)) := by
  have hby := medianPrice_by_value
  constructor
  · intro h
    by_cases hfew : i + j < minFeeds
    · exact .inl hfew
    have henough := Nat.le_of_not_lt hfew
    have hkept : Quoted k m (mixedFeeds 0 k m 0) := by simpa using mixedFeeds_quoted 0 k m 0
    refine .inr ⟨(hby i j).1 fun l p hl hp => ?_, (hby _ _).1 fun l p hl hp => ?_⟩
    · obtain ⟨history, hhistory⟩ := keptHistory_any {} (mixedFeeds 0 k m 0)
      obtain ⟨d', hd'⟩ := withFeeds_publishes history takesFeeds_empty hl.feeds
        (hl.length ▸ henough) limitedMedian_empty
      obtain ⟨q, hq, hmed⟩ := (h _ l d' hd' hl ((hhistory l).symm ▸ hkept)).feeds
      obtain ⟨median, m', p', hmedian, rfl, -⟩ := hd'.chosen
      rw [hp] at hmedian
      cases hmedian
      have hlast := (historyWith_eq (withFeeds {} history l) p).symm.trans hq
      rwa [List.singleton_inj.1 (List.append_cancel_left hlast)]
    · have hs : chosenTSD i j = 1 ∧ 1 - chosenTSD i j = 0 ∨
          chosenTSD i j = 0 ∧ 1 - chosenTSD i j = 1 := by
        unfold chosenTSD
        split
        · exact .inl ⟨rfl, rfl⟩
        · exact .inr ⟨rfl, rfl⟩
      obtain ⟨rest, x, hperm, hrest, hside⟩ := hl.last hs
      have hside : x.quotesTSD = decide ((i + j) / 2 < i) := by
        rw [hside]
        unfold chosenTSD
        by_cases hmore : (i + j) / 2 < i <;> simp [hmore]
      have hx := hl.feeds x (hperm.mem_iff.2 (List.mem_append_right rest List.mem_cons_self))
      obtain ⟨history, feeds, d', hd', hfeeds, hkept', hhistory⟩ := publishes_any takesFeeds_empty
        limitedMedian_empty henough rest hx hside
      obtain ⟨q, hq, -, hmed⟩ := (h _ feeds d' hd' hfeeds (hkept'.symm ▸ hrest)).history
      rw [hhistory] at hq hmed
      exact IsMedian.perm hmed hperm.symm (medianPrice_perm hl.feeds hperm hp hq).symm
  · rintro hcond d feeds d' hd' hfeeds hkept
    obtain ⟨median, m', p', hmedian, rfl, hm', hp'⟩ := hd'.chosen
    rcases hcond with hfew | ⟨hi, hk⟩
    · exact absurd hd'.enough (by rw [hfeeds.length]; omega)
    refine ⟨⟨median, historyWith_eq d median, (hby i j).2 hi feeds median hfeeds hmedian⟩,
      ⟨m', hm', hp', (hby _ _).2 hk _ m' ?_ hm'⟩⟩
    rw [historyWith_eq]
    exact hkept.append (medianPrice_quoted hfeeds hmedian)

/- Eight of twelve feeds value a TSD at 2 TME, and 1 is chosen. -/
theorem mixed_feeds_lower : ∃ d',
    (withFeeds {} [] (mixedFeeds 6 4 0 2)).Publishes (mixedFeeds 6 4 0 2) d' ∧
      (∀ q ∈ mixedFeeds 6 4 0 2, FeedPublishOperation.validate ⟨genesisAccountName 0, q⟩ = .ok ()) ∧
      ¬ (withFeeds {} [] (mixedFeeds 6 4 0 2)).ByValue (mixedFeeds 6 4 0 2) d' := by
  have hquoted := mixedFeeds_quoted 6 4 0 2
  obtain ⟨d', hd'⟩ := withFeeds_publishes [] takesFeeds_empty hquoted.feeds
    (by decide) limitedMedian_empty
  refine ⟨d', hd', by decide, fun hvalue => ?_⟩
  obtain ⟨q, hq, hnot⟩ := @mixedFeeds_not_median 6 4 0 2 (by decide)
    (by decide)
  obtain ⟨p, hhistory, hmed⟩ := hvalue.feeds
  obtain ⟨median, m, p', hmedian, rfl, -⟩ := hd'.chosen
  rw [hq] at hmedian
  cases hmedian
  have hlast := (historyWith_eq (withFeeds {} [] (mixedFeeds 6 4 0 2)) q).symm.trans hhistory
  rw [← List.singleton_inj.1 (List.append_cancel_left hlast)] at hmed
  exact hnot hmed

end Database
end WeNode.Chain
