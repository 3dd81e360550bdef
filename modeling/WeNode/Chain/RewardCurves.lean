import Mathlib.Tactic.Linarith
import Mathlib.Tactic.Ring
import WeNode.Chain.SquareRoot

/-!
# The reward curves

libraries/chain/util/reward.cpp (7-36, 68-95) and doc/sqrt.md: how far the approximate square root
is from the square root, and that no curve of a reward falls.
-/

namespace WeNode.Chain

/-! ### The error of the root -/

/- A number of an odd number of bits, `p * p + e`, and its root `p + low / 2`. -/
theorem even_root {p e low : Nat} (hlow : low * p ≤ e) (hhigh : e < (low + 1) * p)
    (hp : low < p) : 8 * ((p + low / 2) * (p + low / 2)) ≤ 9 * (p * p + e) ∧
      p * p + e < (p + low / 2 + 1) * (p + low / 2 + 1) := by
  have hhalf : 2 * (low / 2) ≤ low := by omega
  have hrest : low ≤ 2 * (low / 2) + 1 := by omega
  generalize low / 2 = q at hhalf hrest ⊢
  have hbelow : 2 * q * p ≤ e := (Nat.mul_le_mul_right p hhalf).trans hlow
  have habove : e < (2 * q + 2) * p := hhigh.trans_le (Nat.mul_le_mul_right p (by omega))
  constructor
  · have hsmall : 2 * q * (4 * q + p) ≤ p * (4 * q + p) := Nat.mul_le_mul_right _ (by omega)
    nlinarith only [hbelow, hsmall]
  · nlinarith only [habove]

/- A number of an even number of bits, `2 * p * p + e`, and its root `p + (p + low) / 2`. -/
theorem odd_root {p e low : Nat} (hlow : low * (2 * p) ≤ e) (hhigh : e < (low + 1) * (2 * p))
    (hp : low < p) (heven : p = 1 ∨ p % 2 = 0) :
    8 * ((p + (p + low) / 2) * (p + (p + low) / 2)) ≤ 9 * (2 * (p * p) + e) ∧
      2 * (p * p) + e < (p + (p + low) / 2 + 1) * (p + (p + low) / 2 + 1) := by
  rcases heven with rfl | heven
  · have hzero : low = 0 := by omega
    subst hzero
    omega
  · have hhalf : 2 * ((p + low) / 2) ≤ p + low := by omega
    have hrest : p + low ≤ 2 * ((p + low) / 2) + 1 := by omega
    have hleast : p ≤ 2 * ((p + low) / 2) := by omega
    generalize (p + low) / 2 = q at hhalf hrest hleast ⊢
    obtain ⟨d, hd⟩ := Nat.exists_eq_add_of_le hleast
    have hbelow : d * (2 * p) ≤ e := (Nat.mul_le_mul_right _ (by omega)).trans hlow
    have habove : e < (d + 2) * (2 * p) := hhigh.trans_le (Nat.mul_le_mul_right _ (by omega))
    have hdp : d ≤ p := by omega
    constructor
    · have hsmall : d * d ≤ p * d := Nat.mul_le_mul_right d hdp
      nlinarith only [hbelow, hsmall, hd]
    · nlinarith only [habove, hd, sq_nonneg ((p : Int) - q - 1)]

theorem rootAt_error {k x : Nat} (hlow : 2 ^ k ≤ x) (hhigh : x < 2 ^ (k + 1)) :
    8 * (rootAt k x * rootAt k x) ≤ 9 * x ∧ x < (rootAt k x + 1) * (rootAt k x + 1) := by
  have hmantissa := mantissa_lt hhigh
  have hbelow := Nat.div_mul_le_self (x - 2 ^ k) (2 ^ (k - k / 2))
  have habove : x - 2 ^ k < ((x - 2 ^ k) / 2 ^ (k - k / 2) + 1) * 2 ^ (k - k / 2) :=
    (Nat.div_lt_iff_lt_mul (Nat.two_pow_pos _)).1 (Nat.lt_succ_self _)
  obtain ⟨e, rfl⟩ := Nat.exists_eq_add_of_le hlow
  rw [Nat.add_sub_cancel_left] at hmantissa hbelow habove
  unfold rootAt
  rw [Nat.add_sub_cancel_left]
  rcases Nat.mod_two_eq_zero_or_one k with hk | hk
  · have hrest : k - k / 2 = k / 2 := by omega
    have hsquare : 2 ^ k = 2 ^ (k / 2) * 2 ^ (k / 2) := by
      rw [← Nat.pow_add]
      congr 1
      omega
    rw [hrest] at hmantissa hbelow habove ⊢
    rw [hk, hsquare, zero_mul, zero_add]
    exact even_root hbelow habove hmantissa
  · have hrest : 2 ^ (k - k / 2) = 2 * 2 ^ (k / 2) := by
      rw [← Nat.pow_succ']
      congr 1
      omega
    have hsquare : 2 ^ k = 2 * (2 ^ (k / 2) * 2 ^ (k / 2)) := by
      rw [← Nat.pow_add, ← Nat.pow_succ']
      congr 1
      omega
    have heven : 2 ^ (k / 2) = 1 ∨ 2 ^ (k / 2) % 2 = 0 := by
      rcases Nat.eq_zero_or_pos (k / 2) with hm | hm
      · exact .inl (by rw [hm, Nat.pow_zero])
      · obtain ⟨m, hm⟩ := Nat.exists_eq_succ_of_ne_zero hm.ne'
        exact .inr (by rw [hm, Nat.pow_succ, Nat.mul_mod_left])
    rw [hrest] at hmantissa hbelow habove ⊢
    rw [hk, hsquare, one_mul]
    exact odd_root hbelow habove hmantissa heven

/-- The root is no greater than the square root by more than a factor of 9/8 in its square, and no
less than its floor. -/
theorem approxSqrt_error {x : Nat} (hx : x < two128) :
    8 * (approxSqrt x * approxSqrt x) ≤ 9 * x ∧ x < (approxSqrt x + 1) * (approxSqrt x + 1) := by
  by_cases h0 : x = 0
  · subst h0
    decide
  · rw [approxSqrt_eq h0 hx]
    exact rootAt_error (Nat.log2_self_le h0) Nat.lt_log2_self

/-- No step of `approx_sqrt` loses a bit: the highest bits have places in their words, and so has
what is shifted into the low word. -/
structure RootFits (x : Nat) : Prop where
  msbX : findMsb x < 128
  msbZ : findMsb x / 2 < 64
  mantissaZlo : x % 2 ^ findMsb x / 2 ^ (findMsb x - findMsb x / 2) < two64
  result : approxSqrt x < two64

theorem rootFits {x : Nat} (hx : x < two128) : RootFits x := by
  have hmsb : x.log2 < 128 := by
    by_cases h0 : x = 0
    · subst h0
      decide
    · exact (Nat.log2_lt h0).2 hx
  refine ⟨hmsb, by unfold findMsb; omega, ?_, approxSqrt_lt hx⟩
  show x % 2 ^ x.log2 / 2 ^ (x.log2 - x.log2 / 2) < 2 ^ 64
  rw [Nat.div_lt_iff_lt_mul (Nat.two_pow_pos _), ← Nat.pow_add]
  exact (Nat.mod_lt _ (Nat.two_pow_pos _)).trans_le (Nat.pow_le_pow_right (by decide) (by omega))

/-! ### The curves -/

section

variable {r r' s : Nat}

theorem quadratic_eq (hs : s ≤ 2 ^ 62) (hr : r < 2 ^ 63) :
    evaluateRewardCurve r .quadratic s = .ok ((r + s) * (r + s) - s * s) := by
  have hsum : u128Add r s = r + s := Nat.mod_eq_of_lt (by unfold two128; omega)
  have hsquare : (r + s) * (r + s) < two128 := by
    calc (r + s) * (r + s) < 2 ^ 64 * 2 ^ 64 := Nat.mul_lt_mul'' (by omega) (by omega)
      _ = two128 := rfl
  have hless : s * s ≤ (r + s) * (r + s) := Nat.mul_le_mul (by omega) (by omega)
  have hconstant : u128Mul s s = s * s := Nat.mod_eq_of_lt (hless.trans_lt hsquare)
  have hproduct : u128Mul (r + s) (r + s) = (r + s) * (r + s) := Nat.mod_eq_of_lt hsquare
  unfold evaluateRewardCurve
  dsimp only
  rw [hsum, hproduct, hconstant, u128Sub, if_pos hless]

theorem quadraticCuration_eq (h1 : 1 ≤ s) (hs : s ≤ 2 ^ 62) (hr : r < 2 ^ 63) :
    evaluateRewardCurve r .quadraticCuration s = .ok (r * two64 / (s * 2 + r)) := by
  have hword : r % two64 = r := Nat.mod_eq_of_lt (by unfold two64; omega)
  have hdouble : u128Mul s 2 = s * 2 := Nat.mod_eq_of_lt (by unfold two128; omega)
  have hsum : u128Add (s * 2) r = s * 2 + r := Nat.mod_eq_of_lt (by unfold two128; omega)
  unfold evaluateRewardCurve
  dsimp only
  rw [hword, hdouble, hsum, u128Div, if_neg (by omega)]

/- A share of a growing sum that grows with it. -/
theorem share_mono {a w : Nat} (ha : 0 < a) (hr : r ≤ r') :
    r * w / (a + r) ≤ r' * w / (a + r') := by
  have hdiv := Nat.div_mul_le_self (r * w) (a + r)
  have hword : r * w / (a + r) ≤ w := by
    refine Nat.div_le_of_le_mul ?_
    exact Nat.mul_le_mul_right w (Nat.le_add_left r a)
  obtain ⟨d, rfl⟩ := Nat.exists_eq_add_of_le hr
  rw [Nat.le_div_iff_mul_le (by omega)]
  calc r * w / (a + r) * (a + (r + d))
      = r * w / (a + r) * (a + r) + r * w / (a + r) * d := by ring
    _ ≤ r * w + w * d := Nat.add_le_add hdiv (Nat.mul_le_mul_right d hword)
    _ = (r + d) * w := by ring

theorem share_lt {a w : Nat} (ha : 0 < a) (hw : 0 < w) : r * w / (a + r) < w := by
  rw [Nat.div_lt_iff_lt_mul (by omega), Nat.mul_comm w]
  exact Nat.mul_lt_mul_of_pos_right (by omega) hw

/-- The value of a curve does not fall as the reward grows, and one that a vote takes its weight
from has 64 bits. -/
structure CurveRises (curve : CurveId) (s r r' : Nat) : Prop where
  rises : ∃ v v', evaluateRewardCurve r curve s = .ok v ∧ evaluateRewardCurve r' curve s = .ok v' ∧
    v ≤ v'
  word : curve = .quadraticCuration ∨ curve = .squareRoot →
    ∃ v v', (evaluateRewardCurve r curve s).bind toUint64 = .ok v ∧
      (evaluateRewardCurve r' curve s).bind toUint64 = .ok v' ∧
      (v' + (two64 - v)) % two64 + v = v'

theorem CurveRises.of_values {curve : CurveId} {v v' : Nat}
    (hv : evaluateRewardCurve r curve s = .ok v) (hv' : evaluateRewardCurve r' curve s = .ok v')
    (hle : v ≤ v') (hword : curve = .quadraticCuration ∨ curve = .squareRoot → v' < two64) :
    CurveRises curve s r r' := by
  refine ⟨⟨v, v', hv, hv', hle⟩, fun hcurve => ⟨v, v', ?_, ?_, ?_⟩⟩
  · rw [hv]
    exact if_pos (hle.trans_lt (hword hcurve))
  · rw [hv']
    exact if_pos (hword hcurve)
  · have hlt := hword hcurve
    rw [show v' + (two64 - v) = v' - v + two64 by omega, Nat.add_mod_right,
      Nat.mod_eq_of_lt (by omega), Nat.sub_add_cancel hle]

theorem curveRises (curve : CurveId) (h1 : 1 ≤ s) (hs : s ≤ 2 ^ 62) (hr : r ≤ r')
    (hr' : r' < 2 ^ 63) : CurveRises curve s r r' := by
  cases curve with
  | quadratic =>
    refine .of_values (quadratic_eq hs (by omega)) (quadratic_eq hs hr') ?_ nofun
    exact Nat.sub_le_sub_right (Nat.mul_le_mul (by omega) (by omega)) _
  | quadraticCuration =>
    refine .of_values (quadraticCuration_eq h1 hs (by omega)) (quadraticCuration_eq h1 hs hr')
      (share_mono (by omega) hr) fun _ => share_lt (by omega) (by decide)
  | linear => exact .of_values rfl rfl hr nofun
  | squareRoot =>
    have hbits : r' < two128 := by
      unfold two128
      omega
    exact .of_values rfl rfl (approxSqrt_mono hr hbits) fun _ => approxSqrt_lt hbits

end

/-- The root of 128 bits rises, is as near as it is documented to be and loses no bit on its way; no
curve falls, and weights that are differences of its values do not wrap around. -/
theorem reward_curves :
    (∀ x < two128, 8 * (approxSqrt x * approxSqrt x) ≤ 9 * x ∧
      x < (approxSqrt x + 1) * (approxSqrt x + 1) ∧ RootFits x ∧
      ∀ y ≤ x, approxSqrt y ≤ approxSqrt x) ∧
    ∀ s r r', 1 ≤ s → s ≤ 2 ^ 62 → r ≤ r' → r' < 2 ^ 63 → ∀ curve, CurveRises curve s r r' := by
  constructor
  · intro x hx
    obtain ⟨habove, hbelow⟩ := approxSqrt_error hx
    exact ⟨habove, hbelow, rootFits hx, fun y hy => approxSqrt_mono hy hx⟩
  · exact fun s r r' h1 hs hr hr' curve => curveRises curve h1 hs hr hr'

/-- The largest number of 128 bits, and two rewards with the constant of the first hardfork. -/
theorem reward_curves_demo :
    8 * (approxSqrt (two128 - 1) * approxSqrt (two128 - 1)) ≤ 9 * (two128 - 1) ∧
      CurveRises .quadraticCuration contentConstantHF0 1000 2000 :=
  ⟨(reward_curves.1 (two128 - 1) (by decide)).1,
    reward_curves.2 contentConstantHF0 1000 2000 (by decide) (by decide) (by decide) (by decide) _⟩

end WeNode.Chain
