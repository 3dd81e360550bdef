import WeNode.Chain.Block

/-!
# Decay of the recent claims

`process_comment_cashout` (libraries/chain/database.cpp:1673-1697) takes from the claims of a fund
their share of the time since the last block.  The product and the difference are of 128 bits, and
the time between two blocks has no bound.
-/

namespace WeNode.Chain

open WeNode.Lib

/- The decay period of the reward funds. -/
def Database.decayRate (d : Database) : Nat :=
  if d.hasHardfork 19 then recentRSCOREdecayRateHF19 else recentRSCOREdecayRateHF17

/- The state at another head block time. -/
def Database.atTime (d : Database) (time : Time) : Database :=
  { d with gpo := { d.gpo with time := time } }

/- What a gap takes from the claims, and what it leaves. -/
def claimsDecay (rate claims gap : Nat) : Nat := claims * gap % two128 / rate
def claimsAfter (rate claims gap : Nat) : Nat := u128Sub claims (claimsDecay rate claims gap)

theorem Database.decayRate_bounds (d : Database) : 0 < d.decayRate ∧ d.decayRate ≤ 2592000 := by
  unfold decayRate recentRSCOREdecayRateHF19 recentRSCOREdecayRateHF17
  split <;> omega

theorem Database.decayClaims_eq {d : Database} {f : RewardFund} {gap : Nat}
    (ht : f.lastUpdate + gap ≤ timeMax) :
    (d.atTime (f.lastUpdate + gap)).decayClaims f = .ok { f with
      recentClaims := claimsAfter d.decayRate f.recentClaims gap
      lastUpdate := f.lastUpdate + gap } := by
  have hgap : (d.atTime (f.lastUpdate + gap)).secondsSince f.lastUpdate = gap := by
    show ((f.lastUpdate + gap : Nat) : Int) - f.lastUpdate = gap
    omega
  have hlast : gap ≤ timeMax := Nat.le_trans (Nat.le_add_left gap _) ht
  have hseconds : u128 gap = gap := by
    rw [u128_of_nonneg (by omega) (by unfold timeMax at hlast; unfold int64Max; omega)]
    exact Int.toNat_natCast gap
  unfold decayClaims
  rw [hgap, hseconds]
  rfl

section Arithmetic

variable {rate claims gap g g' : Nat}

theorem claimsDecay_lt (rate claims gap : Nat) : claimsDecay rate claims gap < two128 :=
  Nat.lt_of_le_of_lt (Nat.div_le_self _ _) (Nat.mod_lt _ (by decide))

theorem claimsAfter_le_iff :
    claimsAfter rate claims gap ≤ claims ↔ claimsDecay rate claims gap ≤ claims := by
  have hdecay := claimsDecay_lt rate claims gap
  unfold claimsAfter u128Sub
  split <;> omega

/- A longer gap leaves less as long as it takes more. -/
theorem claimsAfter_anti_iff (h : claimsDecay rate claims g ≤ claims)
    (h' : claimsDecay rate claims g' ≤ claims) :
    claimsAfter rate claims g' ≤ claimsAfter rate claims g ↔
      claimsDecay rate claims g ≤ claimsDecay rate claims g' := by
  unfold claimsAfter u128Sub
  rw [if_pos h, if_pos h']
  omega

theorem claimsDecay_of_lt (h : claims * gap < two128) :
    claimsDecay rate claims gap = claims * gap / rate := by
  unfold claimsDecay
  rw [Nat.mod_eq_of_lt h]

/- Claims close to 2^128 are a small negative number to the product. -/
theorem claimsDecay_near {e : Nat} (he : claims + e = two128) (hg : 0 < g) (hpos : 0 < e)
    (hsmall : e * g ≤ two128) : claimsDecay rate claims g = (two128 - e * g) / rate := by
  have hproduct : claims * g + e * g = two128 * g := by rw [← Nat.add_mul, he]
  have heg : 0 < e * g := Nat.mul_pos hpos hg
  obtain ⟨k, rfl⟩ : ∃ k, g = k + 1 := ⟨g - 1, by omega⟩
  have hsplit : two128 * (k + 1) = two128 * k + two128 := Nat.mul_succ _ _
  have hmod : claims * (k + 1) = two128 * k + (two128 - e * (k + 1)) := by omega
  unfold claimsDecay
  rw [hmod, Nat.mul_add_mod, Nat.mod_eq_of_lt (by omega)]

/- Dividing a number lowered by no more than its remainder. -/
theorem sub_div_iff {x e : Nat} (hrate : 0 < rate) (he : e ≤ x) :
    x / rate ≤ (x - e) / rate ↔ e ≤ x % rate := by
  rw [Nat.le_div_iff_mul_le hrate]
  have hx := Nat.div_add_mod x rate
  rw [Nat.mul_comm] at hx
  omega

/-- Claims fall with the gap up to a longest one if and only if the product neither wraps around nor
exceeds the claims, except where it wraps around without changing the quotient. -/
theorem claimsAfter_falls_iff (hrate : 0 < rate ∧ rate ≤ 2592000) (hc : claims < two128)
    (hgap : gap < two32) :
    (∀ g g', g ≤ g' → g' ≤ gap → claimsAfter rate claims g' ≤ claimsAfter rate claims g ∧
      claimsAfter rate claims g ≤ claims) ↔
    (claims * gap < two128 ∧ claims * gap < (claims + 1) * rate) ∨
      (two128 - claims) * (gap - 1) ≤ claims % rate := by
  obtain ⟨e, he⟩ : ∃ e, claims + e = two128 := ⟨two128 - claims, by omega⟩
  have hsub : two128 - claims = e := by omega
  rw [hsub]
  have hfits : (claims * gap < two128 ∧ claims * gap < (claims + 1) * rate) →
      ∀ g g', g ≤ g' → g' ≤ gap → claimsAfter rate claims g' ≤ claimsAfter rate claims g ∧
        claimsAfter rate claims g ≤ claims := by
    rintro ⟨hwide, hshort⟩ g g' hg hg'
    have hdecay : ∀ k ≤ gap, claimsDecay rate claims k = claims * k / rate ∧
        claimsDecay rate claims k ≤ claims := by
      intro k hk
      have hmul : claims * k ≤ claims * gap := Nat.mul_le_mul_left _ hk
      have heq : claimsDecay rate claims k = claims * k / rate := claimsDecay_of_lt (by omega)
      refine ⟨heq, ?_⟩
      rw [heq, ← Nat.lt_succ_iff, Nat.div_lt_iff_lt_mul hrate.1]
      exact Nat.lt_of_le_of_lt hmul hshort
    obtain ⟨heq, hle⟩ := hdecay g (by omega)
    obtain ⟨heq', hle'⟩ := hdecay g' hg'
    refine ⟨(claimsAfter_anti_iff hle hle').2 ?_, claimsAfter_le_iff.2 hle⟩
    rw [heq, heq']
    exact Nat.div_le_div_right (Nat.mul_le_mul_left _ hg)
  constructor
  · intro hfalls
    have hle : ∀ k ≤ gap, claimsDecay rate claims k ≤ claims := fun k hk =>
      claimsAfter_le_iff.1 (hfalls k k (Nat.le_refl k) hk).2
    have hmono : ∀ k k', k ≤ k' → k' ≤ gap →
        claimsDecay rate claims k ≤ claimsDecay rate claims k' := fun k k' hk hk' =>
      (claimsAfter_anti_iff (hle k (by omega)) (hle k' hk')).1 (hfalls k k' hk hk').1
    by_cases hwide : claims * gap < two128
    · refine .inl ⟨hwide, ?_⟩
      have := hle gap (Nat.le_refl _)
      rw [claimsDecay_of_lt hwide, ← Nat.lt_succ_iff, Nat.div_lt_iff_lt_mul hrate.1] at this
      exact this
    · right
      -- the first gap whose product wraps around
      have hex : ∃ k, two128 ≤ claims * k := ⟨gap, Nat.not_lt.mp hwide⟩
      have hfirst := Nat.find_spec hex
      have hbefore : ∀ k < Nat.find hex, claims * k < two128 := fun k hk =>
        Nat.not_le.mp (Nat.find_min hex hk)
      have hfirst_le : Nat.find hex ≤ gap := Nat.find_min' hex (Nat.not_lt.mp hwide)
      generalize Nat.find hex = k at hfirst hbefore hfirst_le
      have htwo : two128 = 340282366920938463463374607431768211456 := rfl
      obtain ⟨j, rfl⟩ : ∃ j, k = j + 1 := by
        refine ⟨k - 1, ?_⟩
        rcases Nat.eq_zero_or_pos k with rfl | hk
        · omega
        · omega
      have hj := hbefore j (Nat.lt_succ_self j)
      have hsucc : claims * (j + 1) = claims * j + claims := Nat.mul_succ _ _
      have hstep := hmono j (j + 1) (Nat.le_succ j) hfirst_le
      have hwrapped : claims * (j + 1) % two128 = claims * j - e := by
        have hsplit : claims * (j + 1) = two128 + (claims * j - e) := by omega
        rw [hsplit, Nat.add_mod_left, Nat.mod_eq_of_lt (by omega)]
      rw [claimsDecay_of_lt hj] at hstep
      unfold claimsDecay at hstep
      rw [hwrapped, sub_div_iff hrate.1 (by omega)] at hstep
      have hsmall : e < rate := Nat.lt_of_le_of_lt hstep (Nat.mod_lt _ hrate.1)
      have hbound : e * gap ≤ 2592000 * two32 :=
        Nat.mul_le_mul (by omega) (Nat.le_of_lt hgap)
      unfold two32 at hbound
      have hone := hmono 1 gap (by omega) (Nat.le_refl _)
      rw [claimsDecay_near he (by omega) (by omega) (by omega),
        claimsDecay_near he (by omega) (by omega) (by omega)] at hone
      have hlower : e * gap = e * (gap - 1) + e := by
        obtain ⟨n, rfl⟩ : ∃ n, gap = n + 1 := ⟨gap - 1, by omega⟩
        rw [Nat.add_sub_cancel, Nat.mul_succ]
      rw [show two128 - e * 1 = claims by omega,
        show two128 - e * gap = claims - e * (gap - 1) by omega,
        sub_div_iff hrate.1 (by omega)] at hone
      exact hone
  · rintro (hfit | hnear)
    · exact hfits hfit
    · by_cases hgap1 : gap ≤ 1
      · refine hfits ⟨?_, ?_⟩
        · have : claims * gap ≤ claims * 1 := Nat.mul_le_mul_left _ hgap1
          omega
        · have h1 : claims * gap ≤ claims * 1 := Nat.mul_le_mul_left _ hgap1
          have h2 : claims + 1 ≤ (claims + 1) * rate := Nat.le_mul_of_pos_right _ hrate.1
          omega
      · have hmod : claims % rate ≤ claims := Nat.mod_le _ _
        have hdecay : ∀ k, 0 < k → k ≤ gap → claimsDecay rate claims k = claims / rate := by
          intro k hk hkg
          have hlower : e * (k - 1) ≤ claims % rate :=
            Nat.le_trans (Nat.mul_le_mul_left _ (by omega)) hnear
          have hk1 : e * k = e * (k - 1) + e := by
            obtain ⟨n, rfl⟩ : ∃ n, k = n + 1 := ⟨k - 1, by omega⟩
            rw [Nat.add_sub_cancel, Nat.mul_succ]
          rw [claimsDecay_near he hk (by omega) (by omega),
            show two128 - e * k = claims - e * (k - 1) by omega]
          exact Nat.le_antisymm (Nat.div_le_div_right (Nat.sub_le _ _))
            ((sub_div_iff hrate.1 (by omega)).2 hlower)
        have hzero : claimsDecay rate claims 0 = 0 := by
          unfold claimsDecay
          simp
        have hle : ∀ k ≤ gap, claimsDecay rate claims k ≤ claims := by
          intro k hk
          rcases Nat.eq_zero_or_pos k with rfl | hpos
          · rw [hzero]
            exact Nat.zero_le _
          · rw [hdecay k hpos hk]
            exact Nat.div_le_self _ _
        intro g g' hg hg'
        refine ⟨(claimsAfter_anti_iff (hle g (by omega)) (hle g' hg')).2 ?_,
          claimsAfter_le_iff.2 (hle g (by omega))⟩
        rcases Nat.eq_zero_or_pos g with rfl | hpos
        · rw [hzero]
          exact Nat.zero_le _
        · rw [hdecay g hpos (by omega), hdecay g' (by omega) hg']

end Arithmetic

/-- The decay of a fund leaves no more than before, and no more the longer the gap since the last
block, if and only if the claims times the gap stay below 2^128 and below one more claim times the
decay period, or wrap around without changing the quotient. -/
theorem Database.decayClaims_falls_iff (d : Database) (f : RewardFund) (gap : Nat)
    (hc : f.recentClaims < two128) (ht : f.lastUpdate + gap ≤ timeMax) :
    (∀ g g', g ≤ g' → g' ≤ gap → ∃ r r',
      (d.atTime (f.lastUpdate + g)).decayClaims f = .ok r ∧
      (d.atTime (f.lastUpdate + g')).decayClaims f = .ok r' ∧
      r'.recentClaims ≤ r.recentClaims ∧ r.recentClaims ≤ f.recentClaims) ↔
    (f.recentClaims * gap < two128 ∧
        f.recentClaims * gap < (f.recentClaims + 1) * d.decayRate) ∨
      (two128 - f.recentClaims) * (gap - 1) ≤ f.recentClaims % d.decayRate := by
  have hlast : gap ≤ timeMax := Nat.le_trans (Nat.le_add_left gap _) ht
  have htime : ∀ k ≤ gap, f.lastUpdate + k ≤ timeMax := fun k hk =>
    Nat.le_trans (Nat.add_le_add_left hk _) ht
  rw [← claimsAfter_falls_iff d.decayRate_bounds hc (by unfold timeMax at hlast; unfold two32; omega)]
  refine forall_congr' fun g => forall_congr' fun g' => forall_congr' fun hg =>
    forall_congr' fun hg' => ?_
  rw [decayClaims_eq (htime g (by omega)), decayClaims_eq (htime g' hg')]
  constructor
  · rintro ⟨r, r', hr, hr', hle⟩
    cases hr
    cases hr'
    exact hle
  · intro hle
    exact ⟨_, _, rfl, rfl, hle⟩

/- A fund with a million claims at the launch. -/
def millionClaims : RewardFund :=
  { id := 0, name := postRewardFundName, recentClaims := 1000000, lastUpdate := genesisTime }

/-- A month and three seconds after the last block the claims rise to nearly 2^128. -/
theorem Database.decayClaims_rises :
    ∃ r, ((Database.initGenesis initSupply).atTime (millionClaims.lastUpdate + 2592003)).decayClaims
        millionClaims = .ok r ∧ millionClaims.recentClaims < r.recentClaims := by
  refine ⟨_, decayClaims_eq (by decide), ?_⟩
  decide

theorem Database.decayClaims_falls_iff_day :
    (millionClaims.recentClaims < two128 ∧ millionClaims.lastUpdate + 86400 ≤ timeMax) ∧
    ((∀ g g', g ≤ g' → g' ≤ 86400 → ∃ r r',
      ((Database.initGenesis initSupply).atTime (millionClaims.lastUpdate + g)).decayClaims
        millionClaims = .ok r ∧
      ((Database.initGenesis initSupply).atTime (millionClaims.lastUpdate + g')).decayClaims
        millionClaims = .ok r' ∧
      r'.recentClaims ≤ r.recentClaims ∧ r.recentClaims ≤ millionClaims.recentClaims) ↔
    (millionClaims.recentClaims * 86400 < two128 ∧
        millionClaims.recentClaims * 86400 <
          (millionClaims.recentClaims + 1) * (Database.initGenesis initSupply).decayRate) ∨
      (two128 - millionClaims.recentClaims) * (86400 - 1) ≤
        millionClaims.recentClaims % (Database.initGenesis initSupply).decayRate) :=
  ⟨⟨by decide, by decide⟩,
    Database.decayClaims_falls_iff (Database.initGenesis initSupply) millionClaims 86400
      (by decide) (by decide)⟩

end WeNode.Chain
