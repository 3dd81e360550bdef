import WeNode.Chain.Reward

/-!
# The approximate square root

`approx_sqrt` halves the place of the highest bit and takes the bits below it as they are.  It is
not the square root, but it never falls, which is what the weights of votes rest on.
-/

namespace WeNode.Chain

/- The root of a number whose highest bit has place `k`, in arithmetic without bits. -/
def rootAt (k x : Nat) : Nat :=
  2 ^ (k / 2) + (k % 2 * 2 ^ (k / 2) + (x - 2 ^ k) / 2 ^ (k - k / 2)) / 2

theorem mantissa_lt {k x : Nat} (hx : x < 2 ^ (k + 1)) :
    (x - 2 ^ k) / 2 ^ (k - k / 2) < 2 ^ (k / 2) := by
  rw [Nat.div_lt_iff_lt_mul (Nat.two_pow_pos _), ← Nat.pow_add,
    show k / 2 + (k - k / 2) = k by omega]
  rw [Nat.pow_succ] at hx
  omega

theorem approxSqrt_eq {x : Nat} (h0 : x ≠ 0) (hx : x < two128) :
    approxSqrt x = rootAt x.log2 x := by
  have hlow : 2 ^ x.log2 ≤ x := Nat.log2_self_le h0
  have hhigh : x < 2 ^ (x.log2 + 1) := Nat.lt_log2_self
  have hk : x.log2 < 128 := (Nat.log2_lt h0).2 hx
  have hmantissa := mantissa_lt hhigh
  have hmod : x % 2 ^ x.log2 = x - 2 ^ x.log2 := by
    rw [Nat.mod_eq_sub_mod hlow, Nat.mod_eq_of_lt (by rw [Nat.pow_succ] at hhigh; omega)]
  have hword : (x - 2 ^ x.log2) / 2 ^ (x.log2 - x.log2 / 2) % two64 =
      (x - 2 ^ x.log2) / 2 ^ (x.log2 - x.log2 / 2) := by
    refine Nat.mod_eq_of_lt (hmantissa.trans_le ?_)
    exact Nat.pow_le_pow_right (by decide) (by omega : x.log2 / 2 ≤ 64)
  unfold approxSqrt
  rw [if_neg h0]
  dsimp only [findMsb]
  rw [hmod, hword]
  generalize x.log2 = k at hmantissa ⊢
  unfold rootAt
  generalize (x - 2 ^ k) / 2 ^ (k - k / 2) = low at hmantissa ⊢
  have hupper : (if k % 2 = 1 then 2 ^ (k / 2) else 0) ||| low = k % 2 * 2 ^ (k / 2) + low := by
    rcases Nat.mod_two_eq_zero_or_one k with hk | hk
    · simp [hk]
    · rw [hk, if_pos rfl, one_mul]
      have hor := Nat.two_pow_add_eq_or_of_lt hmantissa 1
      rw [mul_one] at hor
      exact hor.symm
  rw [hupper]
  have hhalf : (k % 2 * 2 ^ (k / 2) + low) / 2 < 2 ^ (k / 2) := by
    have hbit : k % 2 * 2 ^ (k / 2) ≤ 2 ^ (k / 2) := by
      rcases Nat.mod_two_eq_zero_or_one k with hk | hk <;> simp [hk]
    omega
  have hor := Nat.two_pow_add_eq_or_of_lt hhalf 1
  rw [mul_one] at hor
  exact hor.symm

theorem rootAt_bounds {k x : Nat} (hx : x < 2 ^ (k + 1)) :
    2 ^ (k / 2) ≤ rootAt k x ∧ rootAt k x < 2 ^ (k / 2 + 1) := by
  have hmantissa := mantissa_lt hx
  have hbit : k % 2 * 2 ^ (k / 2) ≤ 2 ^ (k / 2) := by
    rcases Nat.mod_two_eq_zero_or_one k with hk | hk <;> simp [hk]
  unfold rootAt
  rw [Nat.pow_succ]
  generalize (x - 2 ^ k) / 2 ^ (k - k / 2) = low at hmantissa ⊢
  generalize k % 2 * 2 ^ (k / 2) = high at hbit ⊢
  omega

/-- With a higher bit in a higher place the root is no less. -/
theorem rootAt_mono {k k' x y : Nat} (hk : k ≤ k') (hxy : x ≤ y) (hx : x < 2 ^ (k + 1))
    (hy : y < 2 ^ (k' + 1)) : rootAt k x ≤ rootAt k' y := by
  rcases hk.eq_or_lt with rfl | hlt
  · have hdiv : (x - 2 ^ k) / 2 ^ (k - k / 2) ≤ (y - 2 ^ k) / 2 ^ (k - k / 2) :=
      Nat.div_le_div_right (by omega)
    unfold rootAt
    omega
  · rcases (Nat.div_le_div_right hk : k / 2 ≤ k' / 2).eq_or_lt with hhalf | hhalf
    · -- the highest bits share a place of the root: the lower one is even, the higher one odd
      have heven : k % 2 = 0 := by omega
      have hodd : k' % 2 = 1 := by omega
      have hmantissa := mantissa_lt hx
      unfold rootAt
      rw [heven, hodd, ← hhalf]
      generalize (x - 2 ^ k) / 2 ^ (k - k / 2) = low at hmantissa ⊢
      generalize (y - 2 ^ k') / 2 ^ (k' - k / 2) = low'
      omega
    · calc rootAt k x ≤ 2 ^ (k / 2 + 1) := (rootAt_bounds hx).2.le
        _ ≤ 2 ^ (k' / 2) := Nat.pow_le_pow_right (by decide) hhalf
        _ ≤ rootAt k' y := (rootAt_bounds hy).1

theorem approxSqrt_mono {x y : Nat} (h : x ≤ y) (hy : y < two128) :
    approxSqrt x ≤ approxSqrt y := by
  by_cases h0 : x = 0
  · rw [h0]
    exact Nat.zero_le _
  · have hy0 : y ≠ 0 := by omega
    rw [approxSqrt_eq h0 (h.trans_lt hy), approxSqrt_eq hy0 hy]
    refine rootAt_mono ?_ h Nat.lt_log2_self Nat.lt_log2_self
    exact (Nat.le_log2 hy0).2 ((Nat.log2_self_le h0).trans h)

/-- The root of a number of 128 bits fits in 64. -/
theorem approxSqrt_lt {x : Nat} (hx : x < two128) : approxSqrt x < two64 := by
  by_cases h0 : x = 0
  · rw [h0]
    decide
  · have hk : x.log2 < 128 := (Nat.log2_lt h0).2 hx
    rw [approxSqrt_eq h0 hx]
    exact (rootAt_bounds Nat.lt_log2_self).2.trans_le
      (Nat.pow_le_pow_right (by decide) (by omega : x.log2 / 2 + 1 ≤ 64))

end WeNode.Chain
