import Mathlib
import WeNode.Chain.Routes
import WeNode.Chain.SupplyFunds

/-!
# The supply through power-downs and requests
-/

set_option mvcgen.warning false

namespace WeNode.Chain

open WeNode.Lib Std.Do

namespace Database

variable {d d' : Database} {w : Int}

/-! ### Power-downs -/

/- A share is never negative: one of a negative amount does not fit. -/
theorem routeShare_nonneg {x : Int} {r : WithdrawRoute} (hw : -two64 ≤ w ∧ w ≤ int64Max)
    (hr : r.percent ≤ percent100) (h : routeShare w r = .ok x) : 0 ≤ x := by
  by_cases hneg : 0 ≤ w
  · exact (routeShare_ok ⟨le_trans (by decide) hneg, hw.2⟩ hr h).2
  · obtain ⟨n, hn, h⟩ := bind_ok.1 h
    cases h
    obtain ⟨rfl, hsmall⟩ := toUint64_ok hn
    have hproduct : (u128Mul (u128 w) r.percent : Int) = w * r.percent % (two128 : Int) := by
      unfold u128Mul u128
      rw [Int.natCast_mod, Nat.cast_mul, Int.toNat_of_nonneg (Int.emod_nonneg _ (by decide)),
        Int.mul_emod, Int.emod_emod, ← Int.mul_emod]
    have hlow : -(two64 * percent100 : Int) ≤ w * r.percent := by
      have hr' : (r.percent : Int) ≤ percent100 := by exact_mod_cast hr
      nlinarith [hw.1]
    have hhigh : w * r.percent ≤ -r.percent := by nlinarith
    rcases Nat.eq_zero_or_pos r.percent with hzero | hpos
    · rw [hzero]
      simp [u128Mul, ofUint64]
    · rw [← Int.add_emod_right, Int.emod_eq_of_lt] at hproduct
      all_goals
        unfold two128 two64 percent100 at *
        omega

/- SCORE and the TME it is converted to leave the fund. -/
theorem leaveFund_gap {score : Int} {converted : Asset} :
    ⦃⌜True⌝⦄ d.leaveFund score converted ⦃⇓? d' =>
      ⌜d'.gap = d.gap + Pi.single Holding.score score - entry symbolCoin converted.amount⌝⦄ := by
  apply triple_of
  intro _ d' h
  rw [(modifyGpo_adds (x := entry symbolCoin converted.amount - Pi.single Holding.score score) h
    fun g => ?_).2]
  · abel
  · clear * -
    mvcgen
    simp_all
    funext b
    cases b <;> simp [GlobalProperties.issued, entry_coin, Pi.single, Function.update] <;> omega

/- SCORE of the account's that another account gets is still held. -/
theorem depositSCORE_gap {s s' : Database × Int} {r : WithdrawRoute} (hw : -two64 ≤ w ∧ w ≤ int64Max)
    (hr : r.percent ≤ percent100) (h : depositSCORE w s r = .ok s') :
    s'.1.gap - Pi.single Holding.score s'.2 = s.1.gap - Pi.single Holding.score s.2 := by
  unfold depositSCORE at h
  dsimp only at h
  split at h
  · cases h
    rfl
  · obtain ⟨deposit, hdeposit, h⟩ := bind_ok.1 h
    obtain ⟨deposited, hdeposited, h⟩ := bind_ok.1 h
    have hnonneg := routeShare_nonneg hw hr hdeposit
    rw [safeAdd_ok hdeposited] at h
    split at h
    · obtain ⟨target, -, h⟩ := bind_ok.1 h
      obtain ⟨d₁, h₁, h⟩ := bind_ok.1 h
      obtain ⟨d₂, h₂, h⟩ := bind_ok.1 h
      cases h
      have hgap : d₁.gap = s.1.gap + Pi.single Holding.score deposit := by
        refine modifyAccount_adds h₁ fun a => ?_
        mvcgen
        subst_vars
        funext b
        cases b <;> simp [Account.worth, Pi.single, Function.update]
      have hvotes : d₂.gap = d₁.gap := of_triple adjustProxiedWitnessVotes_gap trivial h₂
      dsimp only
      rw [hvotes, hgap, Pi.single_add]
      abel
    · next hpos =>
      cases h
      rw [le_antisymm (Int.not_lt.1 hpos) hnonneg, add_zero]

/- SCORE that is converted for another account leaves the fund. -/
theorem depositTME_gap {s s' : Database × Int × Asset} {r : WithdrawRoute}
    (hw : -two64 ≤ w ∧ w ≤ int64Max) (hr : r.percent ≤ percent100)
    (h : depositTME w s r = .ok s') :
    s'.1.gap - Pi.single Holding.score s'.2.1 = s.1.gap - Pi.single Holding.score s.2.1 := by
  unfold depositTME at h
  dsimp only at h
  split at h
  · cases h
    rfl
  · obtain ⟨target, -, h⟩ := bind_ok.1 h
    obtain ⟨deposit, hdeposit, h⟩ := bind_ok.1 h
    obtain ⟨deposited, hdeposited, h⟩ := bind_ok.1 h
    obtain ⟨converted, -, h⟩ := bind_ok.1 h
    obtain ⟨total, -, h⟩ := bind_ok.1 h
    have hnonneg := routeShare_nonneg hw hr hdeposit
    rw [safeAdd_ok hdeposited] at h
    split at h
    · obtain ⟨d₁, h₁, h⟩ := bind_ok.1 h
      obtain ⟨d₂, h₂, h⟩ := bind_ok.1 h
      cases h
      have hgap : d₁.gap = s.1.gap + entry symbolCoin converted.amount := by
        refine modifyAccount_adds h₁ fun a => ?_
        mvcgen
        simp_all
        funext b
        cases b <;> simp [Account.worth, entry_coin]
        omega
      have hfund := of_triple leaveFund_gap trivial h₂
      dsimp only
      rw [hfund, hgap, Pi.single_add]
      abel
    · next hpos =>
      cases h
      rw [le_antisymm (Int.not_lt.1 hpos) hnonneg, add_zero]

theorem depositTME_range {s s' : Database × Int × Asset} {r : WithdrawRoute}
    (hs : int64Min ≤ s.2.1 ∧ s.2.1 ≤ int64Max) (h : depositTME w s r = .ok s') :
    int64Min ≤ s'.2.1 ∧ s'.2.1 ≤ int64Max := by
  unfold depositTME at h
  dsimp only at h
  split at h
  · cases h
    exact hs
  · obtain ⟨target, -, h⟩ := bind_ok.1 h
    obtain ⟨deposit, -, h⟩ := bind_ok.1 h
    obtain ⟨deposited, hdeposited, h⟩ := bind_ok.1 h
    obtain ⟨converted, -, h⟩ := bind_ok.1 h
    obtain ⟨total, -, h⟩ := bind_ok.1 h
    split at h
    · obtain ⟨d₁, -, h⟩ := bind_ok.1 h
      obtain ⟨d₂, -, h⟩ := bind_ok.1 h
      cases h
      exact (share_ok hdeposited).2
    · cases h
      exact (share_ok hdeposited).2

theorem findAccount_withdrawal (d : Database) (name : Name) :
    (d.findAccount name).map (fun a => (a.delegation, a.withdrawal)) =
      (d.core.accounts.zip d.core.withdrawals).find? fun p => p.1.1 == name := by
  unfold findAccount Table.find core
  rw [List.zip_map', List.find?_map]
  rfl

/- What an account is to withdraw and has withdrawn. -/
theorem getAccount_withdrawal {name : Name} {a a' : Account} (hsame : d'.core = d.core)
    (ha : d.getAccount name = .ok a) (ha' : d'.getAccount name = .ok a') :
    a'.withdrawal = a.withdrawal := by
  have hfind := findAccount_withdrawal d' name
  rw [hsame, ← findAccount_withdrawal, found_ok ha, found_ok ha'] at hfind
  exact congrArg Prod.snd (Option.some.inj hfind)

/- An instalment that is paid fits in 64 bits. -/
theorem instalment_le {a : Account} {y : Int} (h : instalment a = .ok w)
    (hy : safeAdd a.withdrawn w = .ok y) : w ≤ int64Max := by
  obtain ⟨x, hx, h⟩ := bind_ok.1 h
  obtain ⟨rfl, -, hxmax⟩ := share_ok hx
  split at h
  · obtain ⟨z, hz, h⟩ := bind_ok.1 h
    cases h
    unfold safeMod at hz
    split at hz
    · cases hz
    · cases hz
      obtain ⟨rfl, -, hymax⟩ := share_ok hy
      by_contra hbig
      have hrest : a.toWithdraw.tmod a.scoreWithdrawRateInTME ≤ max a.toWithdraw 0 := by
        rcases le_total 0 a.toWithdraw with hpos | hneg
        · have habs := Int.natAbs_tmod a.toWithdraw a.scoreWithdrawRateInTME
          have hle := Nat.mod_le a.toWithdraw.natAbs a.scoreWithdrawRateInTME.natAbs
          omega
        · have hnonneg := Int.tmod_nonneg a.scoreWithdrawRateInTME (Int.neg_nonneg_of_nonpos hneg)
          rw [Int.neg_tmod] at hnonneg
          omega
      unfold int64Max at *
      omega
  · cases h
    omega

/-- No route of the table takes more than everything. -/
def RoutesFit (d : Database) : Prop := ∀ r ∈ d.withdrawRoutes.rows, r.percent ≤ percent100

theorem RoutesFit.congr (hd : d.RoutesFit) (hsame : d'.withdrawRoutes = d.withdrawRoutes) :
    d'.RoutesFit := by
  unfold RoutesFit
  rwa [hsame]

theorem RoutesFit.percent (hd : d.RoutesFit) {id : Nat} {r : WithdrawRoute} (hr : r ∈ d.routesOf id) :
    r.percent ≤ percent100 :=
  hd r (List.mem_of_mem_filter ((List.mem_insertionSort _).1 hr))

/-- An instalment: what the account loses others receive, or it is converted. -/
theorem withdrawInstalment_gap {name : Name} (hd : d.RoutesFit)
    (h : d.withdrawInstalment name = .ok d') : d'.gap = d.gap := by
  obtain ⟨a, ha, h⟩ := bind_ok.1 h
  obtain ⟨w, hw, h⟩ := bind_ok.1 h
  obtain ⟨⟨d₁, asSCORE⟩, h₁, h⟩ := bind_ok.1 h
  obtain ⟨⟨d₂, asTME, total⟩, h₂, h⟩ := bind_ok.1 h
  obtain ⟨left, hleft, h⟩ := bind_ok.1 h
  obtain ⟨toConvert, hconvert, h⟩ := bind_ok.1 h
  obtain ⟨-, -, h⟩ := bind_ok.1 h
  obtain ⟨converted, -, h⟩ := bind_ok.1 h
  obtain ⟨d₃, h₃, h⟩ := bind_ok.1 h
  obtain ⟨d₄, h₄, h⟩ := bind_ok.1 h
  obtain ⟨a₃, a', ha₃, hpay, hd₃⟩ := of_triple modifyAccount_gap trivial h₃
  obtain ⟨score, hscore, hpay⟩ := bind_ok.1 hpay
  obtain ⟨balance, hbalance, hpay⟩ := bind_ok.1 hpay
  obtain ⟨withdrawn, hwithdrawn, hpay⟩ := bind_ok.1 hpay
  have hcore₁ : d₁.core = d.core := run_induction (P := fun _ s => s.1.core = d.core) h₁ rfl
    fun _ _ _ _ hs _ hf => (of_triple depositSCORE_core trivial hf).trans hs
  have hcore₂ : d₂.core = d₁.core := run_induction (P := fun _ s => s.1.core = d₁.core) h₂ rfl
    fun _ _ _ _ hs _ hf => (of_triple depositTME_core trivial hf).trans hs
  -- the instalment is in the range of the shares
  have hrange : -two64 ≤ w ∧ w ≤ int64Max := by
    constructor
    · have hzero : int64Min ≤ 0 ∧ (0 : Int) ≤ int64Max := by decide
      obtain ⟨hlow, hhigh⟩ := run_induction (P := fun _ s => int64Min ≤ s.2.1 ∧ s.2.1 ≤ int64Max) h₂
        hzero fun _ _ _ _ hs _ hf => depositTME_range hs hf
      have hleft := share_ok hleft
      dsimp only at hlow hhigh
      unfold int64Min int64Max two64 at *
      omega
    · have hsame : a₃.withdrawal = a.withdrawal :=
        getAccount_withdrawal (hcore₂.trans hcore₁) ha ha₃
      have hw' : a₃.withdrawn = a.withdrawn := congrArg Prod.snd hsame
      exact instalment_le hw (hw' ▸ hwithdrawn)
  have hgap₁ : d₁.gap - Pi.single Holding.score asSCORE = d.gap - Pi.single Holding.score 0 :=
    run_induction (P := fun _ s => s.1.gap - Pi.single Holding.score s.2 =
      d.gap - Pi.single Holding.score 0) h₁ rfl
      fun _ _ _ _ hs hr hf => (depositSCORE_gap hrange (hd.percent hr) hf).trans hs
  have hd₁ : d₁.RoutesFit := hd.congr (congrArg Core.withdrawRoutes hcore₁)
  have hgap₂ : d₂.gap - Pi.single Holding.score asTME = d₁.gap - Pi.single Holding.score 0 :=
    run_induction (P := fun _ s => s.1.gap - Pi.single Holding.score s.2.1 =
      d₁.gap - Pi.single Holding.score 0) h₂ rfl
      fun _ _ _ _ hs hr hf => (depositTME_gap hrange (hd₁.percent hr) hf).trans hs
  -- the rest is converted
  have hpaid : a'.worth =
      a₃.worth + (entry symbolCoin converted.amount - Pi.single Holding.score w) := by
    obtain ⟨hsymbol, rfl⟩ := of_triple Asset.add_spec trivial hbalance
    have hscore := safeSub_ok hscore
    dsimp only at hpay
    split at hpay <;> cases hpay <;> funext b <;>
      cases b <;> simp [Account.worth, entry_coin, Pi.single, Function.update, hscore] <;> omega
  have hgap₄ := of_triple leaveFund_gap trivial h₄
  have hgap' : d'.gap = d₄.gap := by
    split at h
    · obtain ⟨delta, -, h⟩ := bind_ok.1 h
      exact of_triple adjustProxiedWitnessVotes_gap trivial h
    · cases h
      rfl
  rw [hgap', hgap₄, hd₃, hpaid, safeSub_ok hconvert, safeSub_ok hleft,
    sub_eq_iff_eq_add.1 hgap₂, sub_eq_iff_eq_add.1 hgap₁]
  simp only [Pi.single_sub, Pi.single_zero]
  abel

theorem withdrawalLoop_gap {fuel : Nat} {a : Option Account} (hd : d.RoutesFit)
    (h : withdrawalLoop fuel d a = .ok d') : d'.gap = d.gap := by
  induction fuel generalizing d a with
  | zero =>
    cases a with
    | none =>
      cases h
      rfl
    | some a => cases h
  | succ fuel ih =>
    cases a with
    | none =>
      cases h
      rfl
    | some a =>
      obtain ⟨d₁, h₁, h⟩ := bind_ok.1 h
      have hroutes : d₁.withdrawRoutes = d.withdrawRoutes :=
        congrArg Core.withdrawRoutes (of_triple withdrawInstalment_core trivial h₁)
      rw [ih (hd.congr hroutes) h, withdrawInstalment_gap hd h₁]

theorem processTMEfundForSCOREwithdrawals_gap (hd : d.RoutesFit)
    (h : d.processTMEfundForSCOREwithdrawals = .ok d') : d'.gap = d.gap :=
  withdrawalLoop_gap hd h

/-! ### Requests that are due -/

theorem gap_savingsWithdraws (t : Table SavingsWithdraw) :
    gap { d with savingsWithdraws := t } = d.gap +
      (t.sum (·.amount.worth) - d.savingsWithdraws.sum (·.amount.worth)) := by
  simp only [gap, held]
  abel

theorem gap_escrows (t : Table Escrow) :
    gap { d with escrows := t } = d.gap + (t.sum Escrow.worth - d.escrows.sum Escrow.worth) := by
  simp only [gap, held]
  abel

/- A request leaves with its amount, which the receiver gets. -/
theorem completeSavingsWithdraw_gap {s : SavingsWithdraw}
    (hs : d.savingsWithdraws.row SavingsWithdraw.id s.id = some s)
    (h : d.completeSavingsWithdraw s = .ok d') : d'.gap = d.gap ∧
      d'.savingsWithdraws = d.savingsWithdraws.remove fun x => x.id == s.id := by
  obtain ⟨d₁, h₁, h⟩ := bind_ok.1 h
  obtain ⟨d₂, h₂, h⟩ := bind_ok.1 h
  cases h
  have hgap₂ : d₂.gap = d₁.gap := of_triple (modifyAccount_same fun a => by mvcgen) trivial h₂
  have hsame : d₂.savingsWithdraws = d.savingsWithdraws := by
    obtain ⟨t, -, rfl⟩ := of_modify h₂
    exact congrArg Core.savingsWithdraws (of_triple adjustBalance_core trivial h₁)
  refine ⟨?_, by rw [hsame]⟩
  rw [gap_savingsWithdraws, hsame, Table.sum_remove hs, hgap₂, of_triple adjustBalance_gap trivial h₁]
  abel

theorem processSavingsWithdraws_gap (hk : d.savingsWithdraws.Keyed SavingsWithdraw.id)
    (h : d.processSavingsWithdraws = .ok d') :
    d'.gap = d.gap ∧ d'.savingsWithdraws.Keyed SavingsWithdraw.id := by
  obtain ⟨hgap, hkeyed, -, -⟩ := Table.run_due savingsWithdraws SavingsWithdraw.id
    (P := fun e => e.gap = d.gap) h hk (List.perm_insertionSort _ _) rfl
    fun e s e' _ hrow he hf => by
      obtain ⟨hgap, hrows⟩ := completeSavingsWithdraw_gap hrow hf
      exact ⟨hgap.trans he, hrows⟩
  exact ⟨hgap, hkeyed⟩

/- The escrow refunded has the amounts of the one that is removed. -/
theorem refundEscrow_gap {e e' : Escrow} (he : d.escrows.row Escrow.id e.id = some e')
    (hworth : e'.worth = e.worth) (h : d.refundEscrow e = .ok d') :
    d'.gap = d.gap ∧ d'.escrows = d.escrows.remove fun x => x.id == e.id := by
  obtain ⟨d₁, h₁, h⟩ := bind_ok.1 h
  obtain ⟨d₂, h₂, h⟩ := bind_ok.1 h
  obtain ⟨d₃, h₃, h⟩ := bind_ok.1 h
  cases h
  have hsame : d₃.escrows = d.escrows := congrArg Core.escrows
    ((of_triple adjustBalance_core trivial h₃).trans
      ((of_triple adjustBalance_core trivial h₂).trans (of_triple adjustBalance_core trivial h₁)))
  refine ⟨?_, by rw [hsame]⟩
  rw [gap_escrows, hsame, Table.sum_remove he, hworth, of_triple adjustBalance_gap trivial h₃,
    of_triple adjustBalance_gap trivial h₂, of_triple adjustBalance_gap trivial h₁, Escrow.worth]
  abel

theorem expireEscrowRatification_gap (hk : d.escrows.Keyed Escrow.id)
    (h : d.expireEscrowRatification = .ok d') : d'.gap = d.gap ∧ d'.escrows.Keyed Escrow.id := by
  obtain ⟨hgap, hkeyed, -, -⟩ := Table.run_due escrows Escrow.id (P := fun e => e.gap = d.gap) h hk
    (List.perm_insertionSort _ _) rfl fun e x e' _ hrow he hf => by
      obtain ⟨hgap, hrows⟩ := refundEscrow_gap hrow rfl hf
      exact ⟨hgap.trans he, hrows⟩
  exact ⟨hgap, hkeyed⟩

theorem accountRecoveryProcessing_gap :
    ⦃⌜True⌝⦄ d.accountRecoveryProcessing ⦃⇓? d' => ⌜d'.gap = d.gap⌝⦄ := by
  mvcgen [accountRecoveryProcessing, changeRecoveryAccount, modifyAccount_same] invariants
  · ⇓? r => ⌜r.2.gap = d.gap⌝
  all_goals simp_all

theorem processDeclineVotingRights_gap :
    ⦃⌜True⌝⦄ d.processDeclineVotingRights ⦃⇓? d' => ⌜d'.gap = d.gap⌝⦄ := by
  mvcgen [processDeclineVotingRights, declineVotingRights, adjustProxiedWitnessVotesArray_gap,
    clearWitnessVotes_gap, modifyAccount_same] invariants
  · ⇓? r => ⌜r.2.gap = d.gap⌝
  all_goals simp_all

theorem clearExpiredDelegations_gap :
    ⦃⌜True⌝⦄ d.clearExpiredDelegations ⦃⇓? d' => ⌜d'.gap = d.gap⌝⦄ := by
  mvcgen [clearExpiredDelegations, returnDelegation, modifyAccount_same] invariants
  · ⇓? r => ⌜r.2.gap = d.gap⌝
  all_goals simp_all

end Database
end WeNode.Chain
