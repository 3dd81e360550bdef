import Mathlib
import WeNode.Chain.CoreFunds

/-!
# The core through schedules and hardforks
-/

set_option mvcgen.warning false

namespace WeNode.Chain

open WeNode.Lib Std.Do

namespace Database

variable {d : Database} {versions : Name → WitnessVersion}

/-! ### Schedule -/

theorem mapM_map {α β : Type} {f : α → Result α} {g : α → β}
    (hf : ∀ a, ⦃⌜True⌝⦄ f a ⦃⇓? b => ⌜g b = g a⌝⦄) {l l' : List α} (h : l.mapM f = .ok l') :
    l'.map g = l.map g := by
  induction l generalizing l' with
  | nil =>
    rw [List.mapM_nil] at h
    cases h
    rfl
  | cons a l ih =>
    rw [List.mapM_cons] at h
    cases ha : f a with
    | error e =>
      rw [ha] at h
      cases h
    | ok b =>
      cases hl : l.mapM f with
      | error e =>
        rw [ha, hl] at h
        cases h
      | ok bs =>
        rw [ha, hl] at h
        cases h
        simp [of_triple (hf a) trivial ha, ih hl]

@[local spec] theorem resetVirtualScheduleTime_core :
    ⦃⌜True⌝⦄ d.resetVirtualScheduleTime
      ⦃⇓? d' => ⌜d'.core = d.core⌝⦄ := by
  have hm : ⦃⌜True⌝⦄ d.witnesses.rows.mapM resetWitness
      ⦃⇓? l => ⌜l.map Witness.key = d.witnesses.rows.map Witness.key ∧
        l.map Witness.worker = d.witnesses.rows.map Witness.worker⌝⦄ :=
    triple_of fun _ _ h => ⟨mapM_map (fun w => by mvcgen [resetWitness]) h,
      mapM_map (fun w => by mvcgen [resetWitness]) h⟩
  mvcgen [resetVirtualScheduleTime, hm]
  simp_all [core, WitnessSchedule.limits]

@[local spec] theorem updateMedianWitnessProps_core :
    ⦃⌜True⌝⦄ d.updateMedianWitnessProps
      ⦃⇓? d' => ⌜d'.core = { d.core with
        maximumBlockSize := d'.core.maximumBlockSize }⌝⦄ := by
  mvcgen [updateMedianWitnessProps]

@[local spec] theorem setSchedule_core {t : ScheduleType} {names : List Name} :
    ⦃⌜True⌝⦄ d.setSchedule t names ⦃⇓? d' => ⌜d'.core = d.core⌝⦄ := by
  mvcgen [setSchedule, modifyWitness_core] invariants
  · ⇓? ⟨_, d'⟩ => ⌜d'.core = d.core⌝
  all_goals simp_all

@[simp] theorem core_uncountPow (d : Database) :
    d.uncountPow.core = { d.core with mining := d.uncountPow.core.mining } := rfl

@[local spec] theorem popMiner_core {name : Name} :
    ⦃⌜True⌝⦄ d.popMiner name
      ⦃⇓? d' => ⌜d'.core = { d.core with mining := d'.core.mining }⌝⦄ := by
  mvcgen [popMiner, modifyWitness_mining]
  all_goals grind [core, core_uncountPow]

@[local spec] theorem selectMiners_core {voted queue miners : List Witness} :
    ⦃⌜True⌝⦄ selectMiners voted queue d miners
      ⦃⇓? r => ⌜r.1.core = { d.core with mining := r.1.core.mining }⌝⦄ := by
  induction queue generalizing d miners with
  | nil => mvcgen [selectMiners]
  | cons m queue ih =>
    mvcgen [selectMiners, ih]
    all_goals grind

@[local spec] theorem advanceMet_core {newTime : Nat} {met : List Witness} :
    ⦃⌜True⌝⦄ advanceMet newTime met d
      ⦃⇓? o => ⌜∀ d' ∈ o, d'.core = d.core⌝⦄ := by
  induction met generalizing d with
  | nil =>
    mvcgen [advanceMet]
    simp
  | cons w met ih =>
    mvcgen [advanceMet, modifyWitness_core, ih]
    all_goals simp_all

@[local spec] theorem advanceSchedule_core {newTime : Nat} {met : List Witness} :
    ⦃⌜True⌝⦄ d.advanceSchedule newTime met
      ⦃⇓? r => ⌜r.1.core = d.core⌝⦄ := by
  mvcgen [advanceSchedule]
  all_goals grind [core]

@[simp] theorem core_setNextHardfork (d : Database) (vote : Option (Nat × Time)) :
    core { d with hardforks := setNextHardfork d.hardforks vote } =
      { d.core with nextHardfork := (setNextHardfork d.hardforks vote).next } := by
  cases vote <;> rfl

@[simp] theorem limits_fillSchedule (d : Database) (active : List Name) :
    (d.fillSchedule active).limits = d.schedule.limits := rfl

@[simp] theorem requiredWitnesses_fillSchedule (d : Database) (active : List Name) :
    (d.fillSchedule active).hardforkRequiredWitnesses =
      d.schedule.hardforkRequiredWitnesses := rfl

@[local spec] theorem tallyVersions_core :
    ⦃⌜True⌝⦄ d.tallyVersions versions
      ⦃⇓? r => ⌜r.1.core = { d.core with nextHardfork := r.1.core.nextHardfork }⌝⦄ := by
  mvcgen [tallyVersions]
  all_goals simp_all +zetaDelta

@[local spec] theorem updateWitnessSchedule4_core :
    ⦃⌜True⌝⦄ d.updateWitnessSchedule4 versions
      ⦃⇓? d' => ⌜d'.core = { d.core with
        nextHardfork := d'.core.nextHardfork
        scheduled := d'.core.scheduled
        maximumBlockSize := d'.core.maximumBlockSize
        mining := d'.core.mining }⌝⦄ := by
  mvcgen [updateWitnessSchedule4]
  all_goals grind [core, limits_fillSchedule, requiredWitnesses_fillSchedule, WitnessSchedule.limits]

@[simp] theorem limits_scheduleHF0 (d : Database) (elects : Prop) [Decidable elects]
    (newTime : Nat) (active : List Name) :
    (d.scheduleHF0 elects newTime active).limits = d.schedule.limits := by
  unfold scheduleHF0
  split <;> rfl

@[simp] theorem requiredWitnesses_scheduleHF0 (d : Database) (elects : Prop) [Decidable elects]
    (newTime : Nat) (active : List Name) :
    (d.scheduleHF0 elects newTime active).hardforkRequiredWitnesses =
      d.schedule.hardforkRequiredWitnesses := by
  unfold scheduleHF0
  split <;> rfl

@[local spec] theorem electHF0_core :
    ⦃⌜True⌝⦄ d.electHF0 ⦃⇓? r => ⌜r.1.core = d.core⌝⦄ := by
  mvcgen [electHF0, modifyWitness_core] invariants
  · ⇓? ⟨_, d'⟩ => ⌜d'.core = d.core⌝
  all_goals simp_all

@[local spec] theorem updateWitnessScheduleHF0_core :
    ⦃⌜True⌝⦄ d.updateWitnessScheduleHF0
      ⦃⇓? d' => ⌜d'.core = { d.core with
        scheduled := d'.core.scheduled
        maximumBlockSize := d'.core.maximumBlockSize
        mining := d'.core.mining }⌝⦄ := by
  mvcgen [updateWitnessScheduleHF0]
  all_goals grind [core, limits_scheduleHF0, requiredWitnesses_scheduleHF0]

theorem updateWitnessSchedule_core :
    ⦃⌜True⌝⦄ d.updateWitnessSchedule versions
      ⦃⇓? d' => ⌜d'.core = { d.core with
        nextHardfork := d'.core.nextHardfork
        scheduled := d'.core.scheduled
        maximumBlockSize := d'.core.maximumBlockSize
        mining := d'.core.mining }⌝⦄ := by
  mvcgen [updateWitnessSchedule]
  all_goals grind

/-! ### Hardforks -/

@[simp] theorem core_noteOwnerAuthority (d : Database) (name : Name) (owner : Authority) :
    (d.noteOwnerAuthority name owner).core =
      { d.core with ownerHistory := (d.noteOwnerAuthority name owner).ownerHistory } := by
  unfold noteOwnerAuthority
  split <;> rfl

@[local spec] theorem updateOwnerAuthority_core {name : Name} {owner : Authority} :
    ⦃⌜True⌝⦄ d.updateOwnerAuthority name owner
      ⦃⇓? d' => ⌜d'.core = { d.core with
        ownerAuthorities := d'.core.ownerAuthorities
        authorities := d'.core.authorities
        ownerHistory := d'.ownerHistory }⌝⦄ := by
  mvcgen [updateOwnerAuthority, modifyAuthority_ownerAuthorities]
  grind [core, core_noteOwnerAuthority]

theorem splitAccount_spec {magnitude : Int} {a : Account} :
    ⦃⌜True⌝⦄ splitAccount magnitude a
      ⦃⇓? b => ⌜b.delegation = a.delegation ∧ b.counts = a.counts ∧ b.power = a.power⌝⦄ := by
  have hp : ∀ l : List (Fin maxProxyRecursionDepth),
      ⦃⌜True⌝⦄ l.mapM (fun i => safeMul (a.proxiedVotes i) magnitude) ⦃⇓? _ => ⌜True⌝⦄ :=
    fun _ => triple_of fun _ _ _ => trivial
  mvcgen [splitAccount, hp]

theorem splitComment_node {magnitude : Int} {c : Comment} :
    ⦃⌜True⌝⦄ splitComment magnitude c ⦃⇓? c' => ⌜c'.node = c.node⌝⦄ := by
  mvcgen [splitComment]

theorem splitComment_counter {magnitude : Int} {c : Comment} :
    ⦃⌜True⌝⦄ splitComment magnitude c ⦃⇓? c' => ⌜c'.counter = c.counter⌝⦄ := by
  mvcgen [splitComment]

theorem performSCOREsplit_core {magnitude : Int} :
    ⦃⌜True⌝⦄ d.performSCOREsplit magnitude
      ⦃⇓? d' => ⌜d'.core = { d.core with
        withdrawals := d'.core.withdrawals
        tallies := d'.core.tallies }⌝⦄ := by
  have ha : ∀ l : List Account, ⦃⌜True⌝⦄ l.mapM (splitAccount magnitude)
      ⦃⇓? l' => ⌜l'.map Account.delegation = l.map Account.delegation ∧
        l'.map Account.counts = l.map Account.counts ∧
        l'.map Account.power = l.map Account.power⌝⦄ := fun l =>
    triple_of fun _ _ h =>
      ⟨mapM_map (fun a => triple_of fun _ _ h => (of_triple splitAccount_spec trivial h).1) h,
        mapM_map (fun a => triple_of fun _ _ h => (of_triple splitAccount_spec trivial h).2.1) h,
        mapM_map (fun a => triple_of fun _ _ h => (of_triple splitAccount_spec trivial h).2.2) h⟩
  have hc : ∀ l : List Comment, ⦃⌜True⌝⦄ l.mapM (splitComment magnitude)
      ⦃⇓? l' => ⌜l'.map Comment.node = l.map Comment.node ∧
        l'.map Comment.counter = l.map Comment.counter⌝⦄ := fun l =>
    triple_of fun _ _ h =>
      ⟨mapM_map (fun _ => splitComment_node) h, mapM_map (fun _ => splitComment_counter) h⟩
  mvcgen [performSCOREsplit, modifyGpo_core, ha, hc] invariants
  · ⇓? ⟨_, d'⟩ => ⌜d'.core = { d.core with
      withdrawals := d'.core.withdrawals
      tallies := d'.core.tallies }⌝
  all_goals grind [core]

theorem retallyWitnessVotes_core :
    ⦃⌜True⌝⦄ d.retallyWitnessVotes ⦃⇓? d' => ⌜d'.core = d.core⌝⦄ := by
  mvcgen [retallyWitnessVotes, adjustWitnessVote_core] invariants
  · ⇓? ⟨_, d'⟩ => ⌜d'.core = d.core⌝
  · ⇓? ⟨_, d'⟩ => ⌜d'.core = d.core⌝
  all_goals simp_all +zetaDelta [core, Table.map, Witness.key, Witness.worker, Function.comp_def]

theorem retallyWitnessVoteCounts_core (d : Database) (force : Bool) :
    (d.retallyWitnessVoteCounts force).core =
      { d.core with counts := (d.retallyWitnessVoteCounts force).core.counts } := by
  simp [retallyWitnessVoteCounts, core, Table.map, Account.delegation, Account.withdrawal,
    Account.power, Function.comp_def]

theorem retallyCommentChildren_core :
    ⦃⌜True⌝⦄ d.retallyCommentChildren
      ⦃⇓? d' => ⌜d'.core = { d.core with children := d'.core.children }⌝⦄ := by
  mvcgen [retallyCommentChildren, walkParents_core] invariants
  · ⇓? ⟨_, d'⟩ => ⌜d'.core = { d.core with children := d'.core.children }⌝
  all_goals simp_all +zetaDelta [core, Table.map, Comment.node, Comment.key, Comment.parentKey,
    Comment.tally, Function.comp_def]

theorem setCashoutTime_same (time : Time) (c : Comment) :
    { c with cashoutTime := time }.node = c.node ∧
      { c with cashoutTime := time }.counter = c.counter ∧
      { c with cashoutTime := time }.tally = c.tally := ⟨rfl, rfl, rfl⟩

theorem cashoutTimeHF12_same (now : Time) (c : Comment) :
    (cashoutTimeHF12 now c).node = c.node ∧ (cashoutTimeHF12 now c).counter = c.counter ∧
      (cashoutTimeHF12 now c).tally = c.tally := by
  unfold cashoutTimeHF12
  split
  · split
    · exact setCashoutTime_same _ c
    · split
      · exact setCashoutTime_same _ c
      · exact ⟨rfl, rfl, rfl⟩
  · exact ⟨rfl, rfl, rfl⟩

theorem applyHardfork12_core :
    ⦃⌜True⌝⦄ d.applyHardfork12
      ⦃⇓? d' => ⌜d'.core = { d.core with authorities := d'.core.authorities }⌝⦄ := by
  have hm : core { d with comments := d.comments.map (cashoutTimeHF12 d.headBlockTime) } =
      d.core := by
    simp [core, Table.map, cashoutTimeHF12_same, Function.comp_def]
  have hc : ∀ (d : Database) name, ⦃⌜True⌝⦄ d.closePosting name
      ⦃⇓? d' => ⌜d'.core = { d.core with authorities := d'.core.authorities }⌝⦄ :=
    fun _ _ => modifyAuthority_core fun _ => rfl
  mvcgen [applyHardfork12, hc]
  grind

@[local spec] theorem createPostFund_core :
    ⦃⌜True⌝⦄ d.createPostFund
      ⦃⇓? d' => ⌜d'.core = { d.core with
        limits := d'.core.limits
        rewardFunds := d'.core.rewardFunds
        nextRewardFund := d'.core.nextRewardFund }⌝⦄ := by
  mvcgen [createPostFund]

@[local spec] theorem extendCashout_core :
    ⦃⌜True⌝⦄ d.extendCashout ⦃⇓? d' => ⌜d'.core = d.core⌝⦄ := by
  -- the trivial goals would compute with `timeMax`
  mvcgen -trivial [extendCashout, modifyComment_core] invariants
  · ⇓? ⟨_, d'⟩ => ⌜d'.core = d.core⌝
  · ⇓? ⟨_, d'⟩ => ⌜d'.core = d.core⌝
  all_goals simp_all [setCashoutTime_same]

theorem applyHardfork17_core :
    ⦃⌜True⌝⦄ d.applyHardfork17
      ⦃⇓? d' => ⌜d'.core = { d.core with
        limits := d'.core.limits
        rewardFunds := d'.core.rewardFunds
        nextRewardFund := d'.core.nextRewardFund }⌝⦄ := by
  mvcgen [applyHardfork17]
  all_goals grind [core]

theorem applyHardfork19_core :
    ⦃⌜True⌝⦄ d.applyHardfork19
      ⦃⇓? d' => ⌜d'.core = { d.core with
        delegations := d'.delegations
        rewardFunds := d'.core.rewardFunds }⌝⦄ := by
  mvcgen [applyHardfork19, modifyRewardFund_rewardFunds]
  all_goals grind [core, GlobalProperties.slots]

theorem hardforkStep_core {n : Nat} :
    ⦃⌜True⌝⦄ d.hardforkStep n
      ⦃⇓? d' => ⌜d'.core = { d.core with
        limits := d'.core.limits
        withdrawals := d'.core.withdrawals
        counts := d'.core.counts
        authorities := d'.core.authorities
        delegations := d'.delegations
        children := d'.core.children
        tallies := d'.core.tallies
        rewardFunds := d'.core.rewardFunds
        nextRewardFund := d'.core.nextRewardFund }⌝⦄ := by
  have happlyHardfork12 := @applyHardfork12_core
  have happlyHardfork19 := @applyHardfork19_core
  unfold hardforkStep
  mvcgen [performSCOREsplit_core, retallyWitnessVotes_core, retallyCommentChildren_core,
    happlyHardfork12, applyHardfork17_core, happlyHardfork19]
  all_goals grind [core, retallyWitnessVoteCounts_core]

theorem applyHardfork_core {n : Nat} :
    ⦃⌜True⌝⦄ d.applyHardfork n
      ⦃⇓? d' => ⌜d'.core = { d.core with
        hardforks := d'.core.hardforks
        limits := d'.core.limits
        withdrawals := d'.core.withdrawals
        counts := d'.core.counts
        authorities := d'.core.authorities
        delegations := d'.delegations
        children := d'.core.children
        tallies := d'.core.tallies
        rewardFunds := d'.core.rewardFunds
        nextRewardFund := d'.core.nextRewardFund }⌝⦄ := by
  have hhardforkStep := @hardforkStep_core
  mvcgen [applyHardfork, hhardforkStep]
  all_goals grind [core, HardforkProperties.next]

theorem votedHardforks_core {fuel : Nat} :
    ⦃⌜True⌝⦄ votedHardforks fuel d
      ⦃⇓? d' => ⌜d'.core = { d.core with
        hardforks := d'.core.hardforks
        limits := d'.core.limits
        withdrawals := d'.core.withdrawals
        counts := d'.core.counts
        authorities := d'.core.authorities
        delegations := d'.delegations
        children := d'.core.children
        tallies := d'.core.tallies
        rewardFunds := d'.core.rewardFunds
        nextRewardFund := d'.core.nextRewardFund }⌝⦄ := by
  have happlyHardfork := @applyHardfork_core
  induction fuel generalizing d with
  | zero => mvcgen [votedHardforks]
  | succ fuel ih =>
    mvcgen [votedHardforks, happlyHardfork, ih]
    all_goals grind [core]

theorem timedHardforks_core {fuel : Nat} :
    ⦃⌜True⌝⦄ timedHardforks fuel d
      ⦃⇓? d' => ⌜d'.core = { d.core with
        hardforks := d'.core.hardforks
        limits := d'.core.limits
        withdrawals := d'.core.withdrawals
        counts := d'.core.counts
        authorities := d'.core.authorities
        delegations := d'.delegations
        children := d'.core.children
        tallies := d'.core.tallies
        rewardFunds := d'.core.rewardFunds
        nextRewardFund := d'.core.nextRewardFund }⌝⦄ := by
  have happlyHardfork := @applyHardfork_core
  induction fuel generalizing d with
  | zero => mvcgen [timedHardforks]
  | succ fuel ih =>
    mvcgen [timedHardforks, happlyHardfork, ih]
    all_goals grind [core]

theorem processHardforks_core :
    ⦃⌜True⌝⦄ d.processHardforks
      ⦃⇓? d' => ⌜d'.core = { d.core with
        hardforks := d'.core.hardforks
        limits := d'.core.limits
        withdrawals := d'.core.withdrawals
        counts := d'.core.counts
        authorities := d'.core.authorities
        delegations := d'.delegations
        children := d'.core.children
        tallies := d'.core.tallies
        rewardFunds := d'.core.rewardFunds
        nextRewardFund := d'.core.nextRewardFund }⌝⦄ := by
  have hvotedHardforks := @votedHardforks_core
  have htimedHardforks := @timedHardforks_core
  mvcgen [processHardforks, hvotedHardforks, htimedHardforks]

end Database
end WeNode.Chain
