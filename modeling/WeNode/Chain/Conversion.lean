import WeNode.Chain.Asset

/-!
# Conversions by a price

`operator * ( asset, price )` (libraries/protocol/asset.cpp:160-177).  The high word of the quotient
is checked to be zero, and the low word becomes an `int64_t`: a quotient of 64 bits comes out
negative.
-/

namespace WeNode.Chain

/- A quotient of 64 bits comes out lowered by 2^64. -/
theorem convert_wraps {a num den : Int} (ha : 0 ≤ a ∧ a ≤ int64Max)
    (hnum : 0 ≤ num ∧ num ≤ int64Max) (hden : 0 < den ∧ den ≤ int64Max)
    (hwide : int64Max < a * num / den) :
    convert a num den =
      if a * num / den < two64 then .ok (a * num / den - two64)
      else .error (.assertion "result.hi == 0") := by
  obtain ⟨hpos, hconvert⟩ := convert_quotient ha hnum hden
  have hhigh : ¬ (a * num / den).toNat < 9223372036854775808 := by
    unfold int64Max at hwide
    omega
  rw [hconvert]
  split
  · next hlow =>
    have hlow' : (a * num / den).toNat < two64 := by omega
    simp only [(require_eq_ok (u := ())).2 hlow', ofUint64, if_neg hhigh, bind, Except.bind, pure,
      Except.pure, Int.toNat_of_nonneg hpos]
  · next hlow =>
    have hlow' : ¬ (a * num / den).toNat < two64 := by omega
    simp only [require, if_neg hlow', bind, Except.bind]

/-- The side of a price that has the symbol of an asset, and the other side. -/
def Asset.sides (a : Asset) (p : Price) : Result (Asset × Asset) := do
  let name ← symbolName a.symbol
  let base ← symbolName p.base.symbol
  if name = base then return (p.base, p.quote)
  let quote ← symbolName p.quote.symbol
  if name = quote then return (p.quote, p.base)
  .error (.assertion "invalid asset * price")

namespace Asset

variable {a : Asset} {p : Price}

theorem mul_eq (a : Asset) (p : Price) :
    a.mul p = do
      let (own, other) ← a.sides p
      return ⟨← convert a.amount other.amount own.amount, other.symbol⟩ := by
  unfold mul sides
  cases symbolName a.symbol with
  | error e => rfl
  | ok name =>
    cases symbolName p.base.symbol with
    | error e => rfl
    | ok base =>
      simp only [bind, Except.bind, pure, Except.pure]
      split
      · rfl
      · cases symbolName p.quote.symbol with
        | error e => rfl
        | ok quote =>
          simp only
          split <;> rfl

theorem sides_mem {own other : Asset} (h : a.sides p = .ok (own, other)) :
    own = p.base ∧ other = p.quote ∨ own = p.quote ∧ other = p.base := by
  unfold sides at h
  cases hname : symbolName a.symbol with
  | error e => simp [hname, bind, Except.bind] at h
  | ok name =>
    cases hbase : symbolName p.base.symbol with
    | error e => simp [hname, hbase, bind, Except.bind] at h
    | ok base =>
      simp only [hname, hbase, bind, Except.bind, pure, Except.pure] at h
      split at h
      · cases h
        exact .inl ⟨rfl, rfl⟩
      · cases hquote : symbolName p.quote.symbol with
        | error e => simp [hquote] at h
        | ok quote =>
          simp only [hquote] at h
          split at h
          · cases h
            exact .inr ⟨rfl, rfl⟩
          · cases h

/-- `asset * price` is exact wherever it returns, if and only if the quotient is not of 64 bits. -/
theorem mul_exact_iff (ha : 0 ≤ a.amount ∧ a.amount ≤ int64Max)
    (hbase : 0 < p.base.amount ∧ p.base.amount ≤ int64Max)
    (hquote : 0 < p.quote.amount ∧ p.quote.amount ≤ int64Max) :
    (∀ r, a.mul p = .ok r → ∃ own other, a.sides p = .ok (own, other) ∧
      r = ⟨a.amount * other.amount / own.amount, other.symbol⟩ ∧
      0 ≤ r.amount ∧ r.amount ≤ int64Max) ↔
    ∀ own other, a.sides p = .ok (own, other) →
      ¬ (9223372036854775808 * own.amount ≤ a.amount * other.amount ∧
        a.amount * other.amount < 18446744073709551616 * own.amount) := by
  have hpositive : ∀ own other, a.sides p = .ok (own, other) →
      (0 < own.amount ∧ own.amount ≤ int64Max) ∧ 0 ≤ other.amount ∧ other.amount ≤ int64Max := by
    intro own other hsides
    rcases sides_mem hsides with ⟨rfl, rfl⟩ | ⟨rfl, rfl⟩
    · exact ⟨hbase, Int.le_of_lt hquote.1, hquote.2⟩
    · exact ⟨hquote, Int.le_of_lt hbase.1, hbase.2⟩
  have htwo64 : (two64 : Int) = 18446744073709551616 := rfl
  constructor
  · rintro hexact own other hsides ⟨hlow, hhigh⟩
    obtain ⟨hown, hother⟩ := hpositive own other hsides
    have hge : 9223372036854775808 ≤ a.amount * other.amount / own.amount :=
      (Int.le_ediv_iff_mul_le hown.1).2 hlow
    have hlt : a.amount * other.amount / own.amount < 18446744073709551616 :=
      Int.ediv_lt_of_lt_mul hown.1 hhigh
    have hwraps := convert_wraps ha hother hown (by unfold int64Max; omega)
    rw [htwo64, if_pos hlt] at hwraps
    obtain ⟨own', other', -, -, hnonneg, -⟩ := hexact
      ⟨a.amount * other.amount / own.amount - 18446744073709551616, other.symbol⟩ (by
        rw [mul_eq, hsides]
        simp only [bind, Except.bind, hwraps, pure, Except.pure])
    simp only at hnonneg
    omega
  · intro hfits r hr
    rw [mul_eq] at hr
    cases hsides : a.sides p with
    | error e =>
      rw [hsides] at hr
      cases hr
    | ok sides =>
      obtain ⟨own, other⟩ := sides
      obtain ⟨hown, hother⟩ := hpositive own other hsides
      simp only [hsides, bind, Except.bind, pure, Except.pure] at hr
      have hquotient : 0 ≤ a.amount * other.amount / own.amount :=
        (convert_quotient ha hother hown).1
      by_cases hsmall : a.amount * other.amount / own.amount ≤ int64Max
      · rw [convert_eq ha hother hown hsmall] at hr
        cases hr
        exact ⟨own, other, rfl, rfl, hquotient, hsmall⟩
      · have hlarge : 9223372036854775808 ≤ a.amount * other.amount / own.amount := by
          unfold int64Max at hsmall
          omega
        have hmul : 9223372036854775808 * own.amount ≤ a.amount * other.amount :=
          (Int.le_ediv_iff_mul_le hown.1).1 hlarge
        have hover : ¬ a.amount * other.amount / own.amount < 18446744073709551616 := by
          intro hlt
          refine hfits own other hsides ⟨hmul, ?_⟩
          have := Int.lt_mul_of_ediv_lt hown.1 hlt
          omega
        have hthrows := convert_wraps ha hother hown (Int.not_le.mp hsmall)
        rw [htwo64, if_neg hover] at hthrows
        rw [hthrows] at hr
        cases hr

/-- Three satoshis at the price of the largest amount for two: the quotient has 64 bits and comes
out negative. -/
theorem mul_wraps :
    (coin 3).mul ⟨.coin 2, .usd 9223372036854775807⟩ = .ok (.usd (-4611686018427387906)) := by
  decide

theorem mul_exact_iff_third :
    (0 ≤ (coin 1).amount ∧ (coin 1).amount ≤ int64Max) ∧
    ((∀ r, (coin 1).mul ⟨.coin 3, .usd 10⟩ = .ok r → ∃ own other,
      (coin 1).sides ⟨.coin 3, .usd 10⟩ = .ok (own, other) ∧
      r = ⟨(coin 1).amount * other.amount / own.amount, other.symbol⟩ ∧
      0 ≤ r.amount ∧ r.amount ≤ int64Max) ↔
    ∀ own other, (coin 1).sides ⟨.coin 3, .usd 10⟩ = .ok (own, other) →
      ¬ (9223372036854775808 * own.amount ≤ (coin 1).amount * other.amount ∧
        (coin 1).amount * other.amount < 18446744073709551616 * own.amount)) :=
  ⟨by decide, mul_exact_iff (by decide) (by decide) (by decide)⟩

end Asset

end WeNode.Chain
