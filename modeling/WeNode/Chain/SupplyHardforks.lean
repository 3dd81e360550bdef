import Mathlib
import WeNode.Chain.CoreHardforks
import WeNode.Chain.SupplyContent

/-!
# The supply through schedules and hardforks
-/

set_option mvcgen.warning false

namespace WeNode.Chain

open WeNode.Lib Std.Do

namespace Database

variable {d d' : Database} {versions : Name → WitnessVersion}

/-! ### Schedule -/

theorem gap_rates (d : Database) (witnesses schedule) (size rate) :
    gap { d with
      witnesses := witnesses
      schedule := schedule
      gpo := { d.gpo with maximumBlockSize := size, tsdInterestRate := rate } } = d.gap := rfl

theorem resetVirtualScheduleTime_gap :
    ⦃⌜True⌝⦄ d.resetVirtualScheduleTime ⦃⇓? d' => ⌜d'.gap = d.gap⌝⦄ := by
  apply triple_of
  intro _ d' h
  obtain ⟨witnesses, -, h⟩ := bind_ok.1 h
  cases h
  rfl

theorem updateMedianWitnessProps_gap :
    ⦃⌜True⌝⦄ d.updateMedianWitnessProps ⦃⇓? d' => ⌜d'.gap = d.gap⌝⦄ := by
  mvcgen [updateMedianWitnessProps]

theorem setSchedule_gap {t : ScheduleType} {names : List Name} :
    ⦃⌜True⌝⦄ d.setSchedule t names ⦃⇓? d' => ⌜d'.gap = d.gap⌝⦄ := by
  mvcgen [setSchedule, modifyWitness_gap] invariants
  · ⇓? r => ⌜r.2.gap = d.gap⌝
  all_goals simp_all

theorem popMiner_gap {name : Name} :
    ⦃⌜True⌝⦄ d.popMiner name ⦃⇓? d' => ⌜d'.gap = d.gap⌝⦄ := by
  mvcgen [popMiner, modifyWitness_gap]

theorem selectMiners_gap {voted queue miners : List Witness} :
    ⦃⌜True⌝⦄ selectMiners voted queue d miners ⦃⇓? r => ⌜r.1.gap = d.gap⌝⦄ := by
  have hsetSchedule := @setSchedule_gap
  induction queue generalizing d miners with
  | nil => mvcgen [selectMiners]
  | cons m queue ih =>
    mvcgen [selectMiners, hsetSchedule, popMiner_gap, ih]
    all_goals simp_all

theorem advanceMet_gap {newTime : Nat} {met : List Witness} :
    ⦃⌜True⌝⦄ advanceMet newTime met d ⦃⇓? o => ⌜∀ d' ∈ o, d'.gap = d.gap⌝⦄ := by
  induction met generalizing d with
  | nil =>
    mvcgen [advanceMet]
    simp
  | cons w met ih =>
    mvcgen [advanceMet, modifyWitness_gap, ih]
    all_goals simp_all

theorem advanceSchedule_gap {newTime : Nat} {met : List Witness} :
    ⦃⌜True⌝⦄ d.advanceSchedule newTime met ⦃⇓? r => ⌜r.1.gap = d.gap⌝⦄ := by
  have hadvanceMet := @advanceMet_gap
  mvcgen [advanceSchedule, hadvanceMet, resetVirtualScheduleTime_gap]
  all_goals simp_all

theorem tallyVersions_gap :
    ⦃⌜True⌝⦄ d.tallyVersions versions ⦃⇓? r => ⌜r.1.gap = d.gap⌝⦄ := by
  mvcgen [tallyVersions]

theorem updateWitnessSchedule4_gap :
    ⦃⌜True⌝⦄ d.updateWitnessSchedule4 versions ⦃⇓? d' => ⌜d'.gap = d.gap⌝⦄ := by
  have hsetSchedule := @setSchedule_gap
  have hselectMiners := @selectMiners_gap
  mvcgen [updateWitnessSchedule4, hsetSchedule, hselectMiners, advanceSchedule_gap,
    tallyVersions_gap, updateMedianWitnessProps_gap]
  all_goals simp_all +zetaDelta

theorem electHF0_gap : ⦃⌜True⌝⦄ d.electHF0 ⦃⇓? r => ⌜r.1.gap = d.gap⌝⦄ := by
  mvcgen [electHF0, modifyWitness_gap] invariants
  · ⇓? r => ⌜r.2.gap = d.gap⌝
  all_goals simp_all

theorem updateWitnessScheduleHF0_gap :
    ⦃⌜True⌝⦄ d.updateWitnessScheduleHF0 ⦃⇓? d' => ⌜d'.gap = d.gap⌝⦄ := by
  have helectHF0 := @electHF0_gap
  mvcgen [updateWitnessScheduleHF0, helectHF0, popMiner_gap, updateMedianWitnessProps_gap]
  all_goals simp_all +zetaDelta

theorem updateWitnessSchedule_gap :
    ⦃⌜True⌝⦄ d.updateWitnessSchedule versions ⦃⇓? d' => ⌜d'.gap = d.gap⌝⦄ := by
  have hupdateWitnessSchedule4 := @updateWitnessSchedule4_gap
  have hupdateWitnessScheduleHF0 := @updateWitnessScheduleHF0_gap
  mvcgen [updateWitnessSchedule, hupdateWitnessSchedule4, hupdateWitnessScheduleHF0]

/-! ### Hardforks -/

theorem updateOwnerAuthority_gap {name : Name} {owner : Authority} :
    ⦃⌜True⌝⦄ d.updateOwnerAuthority name owner ⦃⇓? d' => ⌜d'.gap = d.gap⌝⦄ := by
  have hnote : ∀ (d : Database) owner, (d.noteOwnerAuthority name owner).gap = d.gap := by
    intro d owner
    unfold noteOwnerAuthority
    split <;> rfl
  mvcgen [updateOwnerAuthority, modifyAuthority_gap]
  simp_all +zetaDelta

/- Of the SCORE of every account a multiple is made, and of nothing else. -/
theorem splitAccount_worth {m : Int} {a a' : Account} (h : splitAccount m a = .ok a') (b : Holding) :
    a'.worth b = (if b = .score then m else 1) * a.worth b := by
  obtain ⟨toWithdraw, -, h⟩ := bind_ok.1 h
  obtain ⟨rate, -, h⟩ := bind_ok.1 h
  obtain ⟨proxied, -, h⟩ := bind_ok.1 h
  obtain ⟨score, hscore, h⟩ := bind_ok.1 h
  obtain ⟨withdrawn, -, h⟩ := bind_ok.1 h
  cases h
  cases b <;> simp [Account.worth, safeMul_ok hscore, mul_comm]

theorem splitAccounts_worth {m : Int} {l l' : List Account} (h : l.mapM (splitAccount m) = .ok l')
    (b : Holding) : (l'.map Account.worth).sum b =
      (if b = .score then m else 1) * (l.map Account.worth).sum b := by
  induction l generalizing l' with
  | nil =>
    rw [List.mapM_nil] at h
    cases h
    simp
  | cons a l ih =>
    obtain ⟨a', l₁, ha, hl, rfl⟩ := mapM_cons_ok.1 h
    simp only [List.map_cons, List.sum_cons, Pi.add_apply, splitAccount_worth ha, ih hl, mul_add]

/- Steps that keep the gap, one after the other. -/
theorem run_gap {α : Type} {f : Database → α → Result Database} {l : List α}
    (h : l.foldlM f d = .ok d') (hf : ∀ e a e', f e a = .ok e' → e'.gap = e.gap) : d'.gap = d.gap :=
  run_induction (P := fun _ e => e.gap = d.gap) h rfl fun _ _ _ _ he _ h => (hf _ _ _ h).trans he

theorem tableSum_apply {α : Type} {t : Table α} {f : α → Holding → Int} {b : Holding} :
    t.sum f b = t.sum fun x => f x b := by
  unfold Table.sum
  rw [Pi.list_sum_apply, List.map_map]
  rfl

theorem held_eq (d : Database) (b : Holding) : d.held b =
    d.accounts.sum (·.worth b) + d.convertRequests.sum (·.amount.worth b) +
      d.limitOrders.sum (·.amountForSale.worth b) + d.escrows.sum (·.worth b) +
      d.savingsWithdraws.sum (·.amount.worth b) +
      entry symbolCoin (d.rewardFunds.sum RewardFund.rewardBalance) b := by
  simp only [held, Pi.add_apply]
  rw [tableSum_apply, tableSum_apply, tableSum_apply, tableSum_apply, tableSum_apply]

/- Only accounts hold SCORE. -/
theorem held_accounts (d : Database) {b : Holding} (hb : b.symbol = none) :
    d.held b = d.accounts.sum (·.worth b) := by
  have hzero (symbol : Nat) (x : Int) : entry symbol x b = 0 := by
    rw [entry, hb]
    rfl
  simp [held_eq, Asset.worth, Escrow.worth, hzero, Table.sum]

theorem held_score (d : Database) : d.held .score = (d.accounts.rows.map Account.worth).sum .score :=
  (held_accounts d rfl).trans tableSum_apply.symm

/-- The split of SCORE keeps a supply that is all held. -/
theorem performSCOREsplit_gap {m : Int} (hd : d.gap .score = 0) :
    ⦃⌜True⌝⦄ d.performSCOREsplit m ⦃⇓? d' => ⌜d'.gap = d.gap⌝⦄ := by
  apply triple_of
  intro _ d' h
  obtain ⟨d₁, h₁, h⟩ := bind_ok.1 h
  obtain ⟨accounts, haccounts, h⟩ := bind_ok.1 h
  obtain ⟨comments, -, h⟩ := bind_ok.1 h
  obtain ⟨g, hg, h₁⟩ := bind_ok.1 h₁
  cases h₁
  obtain ⟨total, htotal, hg⟩ := bind_ok.1 hg
  cases hg
  have hrest := run_gap h fun e c e' hf => by
    split at hf
    · obtain ⟨curve, -, hf⟩ := bind_ok.1 hf
      cases hf
      rfl
    · cases hf
      rfl
  rw [hrest]
  funext b
  by_cases hb : b = .score
  · subst hb
    have hall : d.held .score = d.gpo.totalSCORE := Int.sub_eq_zero.1 hd
    rw [hd]
    refine Int.sub_eq_zero.2 ?_
    rw [held_score] at hall ⊢
    rw [splitAccounts_worth haccounts, hall, if_pos rfl]
    exact (mul_comm _ _).trans (safeMul_ok htotal).symm
  · have hworth := splitAccounts_worth haccounts b
    rw [if_neg hb, one_mul] at hworth
    simp only [gap, held, Table.sum, Pi.sub_apply, Pi.add_apply, hworth]
    cases b
    case score => exact absurd rfl hb
    all_goals rfl

theorem retallyWitnessVotes_gap :
    ⦃⌜True⌝⦄ d.retallyWitnessVotes ⦃⇓? d' => ⌜d'.gap = d.gap⌝⦄ := by
  mvcgen [retallyWitnessVotes, adjustWitnessVote_gap] invariants
  · ⇓? r => ⌜r.2.gap = d.gap⌝
  · ⇓? r => ⌜r.2.gap = d.gap⌝
  all_goals simp_all +zetaDelta

@[simp] theorem gap_retallyWitnessVoteCounts (d : Database) (force : Bool) :
    (d.retallyWitnessVoteCounts force).gap = d.gap := by
  simp only [gap, held, retallyWitnessVoteCounts, Table.sum, Table.map, List.map_map]
  rfl

theorem walkParents_gap {f : Comment → Comment} {fuel : Nat} {author : Name} {permlink : Bytes} :
    ⦃⌜True⌝⦄ walkParents f fuel d author permlink ⦃⇓? d' => ⌜d'.gap = d.gap⌝⦄ := by
  induction fuel generalizing d author permlink with
  | zero => mvcgen [walkParents]
  | succ fuel ih =>
    mvcgen [walkParents, modifyComment_gap, ih]
    all_goals simp_all

theorem retallyCommentChildren_gap :
    ⦃⌜True⌝⦄ d.retallyCommentChildren ⦃⇓? d' => ⌜d'.gap = d.gap⌝⦄ := by
  have hwalkParents := @walkParents_gap
  mvcgen [retallyCommentChildren, hwalkParents] invariants
  · ⇓? r => ⌜r.2.gap = d.gap⌝
  all_goals simp_all +zetaDelta

theorem applyHardfork12_gap :
    ⦃⌜True⌝⦄ d.applyHardfork12 ⦃⇓? d' => ⌜d'.gap = d.gap⌝⦄ := by
  mvcgen [applyHardfork12, closePosting, modifyAuthority_gap]
  simp_all +zetaDelta

/- What waited for content moves to the fund. -/
theorem createPostFund_gap :
    ⦃⌜True⌝⦄ d.createPostFund ⦃⇓? d' => ⌜d'.gap = d.gap⌝⦄ := by
  apply triple_of
  intro _ d' h
  obtain ⟨_, -, h⟩ := bind_ok.1 h
  cases h
  simp only [gap, held, Table.sum_create]
  funext b
  cases b <;> simp [GlobalProperties.issued, entry_coin]
  omega

theorem extendCashout_gap : ⦃⌜True⌝⦄ d.extendCashout ⦃⇓? d' => ⌜d'.gap = d.gap⌝⦄ := by
  -- the trivial goals would compute with `timeMax`
  mvcgen -trivial [extendCashout, modifyComment_gap] invariants
  · ⇓? r => ⌜r.2.gap = d.gap⌝
  · ⇓? r => ⌜r.2.gap = d.gap⌝
  all_goals simp_all

theorem applyHardfork17_gap : ⦃⌜True⌝⦄ d.applyHardfork17 ⦃⇓? d' => ⌜d'.gap = d.gap⌝⦄ := by
  have hcreatePostFund := @createPostFund_gap
  have hextendCashout := @extendCashout_gap
  mvcgen [applyHardfork17, hcreatePostFund, hextendCashout]
  simp_all

theorem applyHardfork19_gap : ⦃⌜True⌝⦄ d.applyHardfork19 ⦃⇓? d' => ⌜d'.gap = d.gap⌝⦄ := by
  apply triple_of
  intro _ d' h
  obtain ⟨fund, -, h⟩ := bind_ok.1 h
  obtain ⟨d₁, h₁, h⟩ := bind_ok.1 h
  cases h
  have hgap := modifyRewardFund_adds (y := 0) h₁ fun r => by
    mvcgen
    exact (add_zero _).symm
  rw [gap_delegations, hgap, entry_zero, add_zero]
  rfl

theorem hardforkStep_gap {n : Nat} (hd : d.gap .score = 0) :
    ⦃⌜True⌝⦄ d.hardforkStep n ⦃⇓? d' => ⌜d'.gap = d.gap⌝⦄ := by
  have hretallyCommentChildren := @retallyCommentChildren_gap
  have happlyHardfork12 := @applyHardfork12_gap
  have hsplit : ∀ m, ⦃⌜True⌝⦄ d.performSCOREsplit m ⦃⇓? d' => ⌜d'.gap = d.gap⌝⦄ := fun m =>
    performSCOREsplit_gap hd
  unfold hardforkStep
  mvcgen [hsplit, retallyWitnessVotes_gap, resetVirtualScheduleTime_gap, hretallyCommentChildren,
    happlyHardfork12, applyHardfork17_gap, applyHardfork19_gap]
  all_goals simp_all

theorem applyHardfork_gap {n : Nat} (hd : d.gap .score = 0) :
    ⦃⌜True⌝⦄ d.applyHardfork n ⦃⇓? d' => ⌜d'.gap = d.gap⌝⦄ := by
  have hstep : ⦃⌜True⌝⦄ d.hardforkStep n ⦃⇓? d' => ⌜d'.gap = d.gap⌝⦄ := hardforkStep_gap hd
  mvcgen [applyHardfork, hstep]

theorem votedHardforks_gap {fuel : Nat} (hd : d.gap .score = 0)
    (h : votedHardforks fuel d = .ok d') : d'.gap = d.gap := by
  induction fuel generalizing d with
  | zero => cases h
  | succ fuel ih =>
    unfold votedHardforks at h
    split at h
    · split at h
      · obtain ⟨d₁, h₁, h⟩ := bind_ok.1 h
        have hgap := of_triple (applyHardfork_gap hd) trivial h₁
        rw [ih (hgap ▸ hd) h, hgap]
      · cases h
    · cases h
      rfl

theorem timedHardforks_gap {fuel : Nat} (hd : d.gap .score = 0)
    (h : timedHardforks fuel d = .ok d') : d'.gap = d.gap := by
  induction fuel generalizing d with
  | zero => cases h
  | succ fuel ih =>
    unfold timedHardforks at h
    split at h
    · obtain ⟨d₁, h₁, h⟩ := bind_ok.1 h
      have hgap := of_triple (applyHardfork_gap hd) trivial h₁
      rw [ih (hgap ▸ hd) h, hgap]
    · cases h
      rfl

theorem processHardforks_gap (hd : d.gap .score = 0) (h : d.processHardforks = .ok d') :
    d'.gap = d.gap := by
  unfold processHardforks at h
  split at h
  · exact votedHardforks_gap hd h
  · exact timedHardforks_gap hd h

end Database
end WeNode.Chain
