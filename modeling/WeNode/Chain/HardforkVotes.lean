import Mathlib
import WeNode.Chain.Duplicates
import WeNode.Lib.OrderStatistics

/-!
# Hardforks and the votes for them

The hardforks are applied one after the other.  From the sixth on one is applied only where, when
the schedule was last updated, enough of the scheduled witnesses had voted for it.
-/

set_option mvcgen.warning false

namespace WeNode.Chain

open WeNode.Lib Std.Do

/- The hardfork a witness votes for and its time. -/
def WitnessVersion.vote (v : WitnessVersion) : Nat × Time :=
  (v.hardforkVersionVote, v.hardforkTimeVote)

/- The votes of the scheduled witnesses. -/
def Core.votes (c : Core) (versions : Name → WitnessVersion) : List (Nat × Time) :=
  c.scheduled.map fun name => (versions name).vote

/- What the votes make of the next hardfork; they count since hardfork 5. -/
def Core.tallied (c : Core) (versions : Name → WitnessVersion) : Nat × Time :=
  if 5 < c.hardforks.1.length then
    (Database.majorityVote c.requiredWitnesses (c.votes versions)).getD
      (c.hardforks.2.2, c.nextHardfork.2)
  else c.nextHardfork

namespace Database

variable {d d' : Database} {versions : Name → WitnessVersion}

/-! ### The tally -/

theorem majorityVote_count {required : Nat} {votes : List (Nat × Time)} {v : Nat × Time}
    (h : majorityVote required votes = some v) : required ≤ votes.countP (· == v) := by
  simpa using List.find?_some h

theorem majorityVote_mem {required : Nat} {votes : List (Nat × Time)} {v : Nat × Time}
    (h : majorityVote required votes = some v) : v ∈ votes :=
  (List.mem_insertionSort _).1 (List.mem_of_find?_eq_some h)

theorem scheduledWitnesses_owner {l : List Witness} (h : d.scheduledWitnesses = .ok l) :
    l.map (·.owner) = d.scheduledNames := by
  refine mapM_inverse ?_ h
  intro name w hw
  simpa using List.find?_some (found_ok hw)

theorem tallyVersions_next :
    ⦃⌜True⌝⦄ d.tallyVersions versions
      ⦃⇓? r => ⌜r.1.core = { d.core with nextHardfork := d.core.tallied versions }⌝⦄ := by
  apply triple_of
  intro _ r h
  unfold tallyVersions at h
  by_cases h5 : d.hasHardfork 5
  · have hlength : 5 < d.core.hardforks.1.length := of_decide_eq_true h5
    rw [h5] at h
    obtain ⟨l, hl, h⟩ := bind_ok.1 h
    cases h
    have hvotes : (l.map fun w => versions w.owner).map
        (fun w => (w.hardforkVersionVote, w.hardforkTimeVote)) = d.core.votes versions := by
      have howners : l.map (·.owner) = d.core.scheduled := scheduledWitnesses_owner hl
      rw [Core.votes, ← howners, List.map_map, List.map_map]
      rfl
    have hnext (vote : Option (Nat × Time)) : (setNextHardfork d.hardforks vote).next =
        vote.getD (d.core.hardforks.2.2, d.core.nextHardfork.2) := by
      cases vote <;> rfl
    rw [core_setNextHardfork, hvotes, Core.tallied, if_pos hlength, hnext]
    rfl
  · have hlength : ¬5 < d.core.hardforks.1.length := fun hlt => h5 (decide_eq_true hlt)
    rw [Bool.eq_false_iff.2 h5] at h
    cases h
    rw [Core.tallied, if_neg hlength]

/-! ### The schedule -/

theorem fillSchedule_length {active : List Name} (h : active.length ≤ maxWitnesses) :
    (d.fillSchedule active).numScheduledWitnesses ≤ maxWitnesses := by
  have hmod : active.length % 256 ≤ active.length := Nat.mod_le _ _
  exact max_le (Nat.le_trans hmod h) (by decide)

theorem core_scheduled_length (h : d.schedule.numScheduledWitnesses ≤ maxWitnesses) :
    d.core.scheduled.length ≤ maxWitnesses :=
  Nat.le_trans (List.length_take_le _ _) h

theorem updateWitnessSchedule4_next :
    ⦃⌜True⌝⦄ d.updateWitnessSchedule4 versions
      ⦃⇓? d' => ⌜d'.core.nextHardfork = d.core.tallied versions ∧
        d'.core.scheduled.length ≤ maxWitnesses⌝⦄ := by
  mvcgen [updateWitnessSchedule4, setSchedule_core, selectMiners_core, advanceSchedule_core,
    tallyVersions_next, updateMedianWitnessProps_core]
  rename_i h₁ _ _ _ h₂ _ h₃ r₄ active _ h₄ _ hactive r₅ _ d₅ h₅ d'
  intro hd
  have hsame : r₄.1.core = { d.core with mining := r₄.1.core.mining } := by
    rw [h₄, h₃, h₂, h₁]
  have hcount : d₅.schedule.numScheduledWitnesses ≤ maxWitnesses :=
    fillSchedule_length (d := r₅.1) (Nat.le_trans (Nat.le_of_eq hactive) (Nat.min_le_left _ _))
  refine ⟨?_, ?_⟩
  · have hnext : d₅.core.nextHardfork = r₅.1.core.nextHardfork := rfl
    rw [hd, hnext, h₅, hsame]
    rfl
  · rw [hd]
    exact core_scheduled_length hcount

theorem electHF0_length :
    ⦃⌜True⌝⦄ d.electHF0 ⦃⇓? r => ⌜r.1.core = d.core ∧ r.2.1.length < maxWitnesses⌝⦄ := by
  apply triple_of
  intro _ r h
  refine ⟨of_triple electHF0_core trivial h, ?_⟩
  have htake (l : List Witness) : (l.take (maxWitnesses - 2)).length ≤ maxWitnesses - 2 :=
    List.length_take_le _ _
  have hlt : maxWitnesses - 2 + 1 < maxWitnesses := by decide
  obtain ⟨d₁, -, h⟩ := bind_ok.1 h
  split at h
  · cases h
    rw [List.length_map]
    exact Nat.lt_of_le_of_lt (htake _) (by decide)
  · obtain ⟨_, -, h⟩ := bind_ok.1 h
    obtain ⟨_, -, h⟩ := bind_ok.1 h
    cases h
    rw [List.length_append, List.length_map, List.length_singleton]
    exact Nat.lt_of_le_of_lt (Nat.add_le_add_right (htake _) 1) hlt

theorem minersHF0_length {voting : Bool} {count : Nat} (queue : List Witness)
    (h : count < maxWitnesses) : count + (minersHF0 voting count queue).length ≤ maxWitnesses := by
  induction queue generalizing count with
  | nil => exact Nat.le_of_lt h
  | cons m queue ih =>
    unfold minersHF0
    split
    · exact h
    · next hmore =>
      have hlt : count + 1 < maxWitnesses := Nat.lt_of_not_le fun hle => hmore (Or.inr hle)
      have hrest := ih hlt
      rw [List.length_cons]
      omega

theorem activeHF0_length {names : List Name} {voting : Bool} {queue : List Witness}
    (hn : names.length < maxWitnesses) :
    (names ++ minersHF0 voting names.length queue).length ≤ maxWitnesses := by
  rw [List.length_append]
  exact minersHF0_length queue hn

/- The end of a round before hardfork 4. -/
theorem scheduleHF0_next {elects : Prop} [Decidable elects] {newTime : Nat} {active : List Name}
    (hactive : active.length ≤ maxWitnesses)
    (h : d'.core = { core { d with schedule := d.scheduleHF0 elects newTime active } with
      maximumBlockSize := d'.core.maximumBlockSize }) :
    d'.core.nextHardfork = d.core.nextHardfork ∧ d'.core.scheduled.length ≤ maxWitnesses := by
  have hcount : (d.scheduleHF0 elects newTime active).numScheduledWitnesses =
      (d.fillSchedule active).numScheduledWitnesses := by
    unfold scheduleHF0
    split <;> rfl
  rw [h]
  refine ⟨rfl, core_scheduled_length ?_⟩
  exact Nat.le_trans (Nat.le_of_eq hcount) (fillSchedule_length hactive)

theorem updateWitnessScheduleHF0_next :
    ⦃⌜True⌝⦄ d.updateWitnessScheduleHF0
      ⦃⇓? d' => ⌜d'.core.nextHardfork = d.core.nextHardfork ∧
        d'.core.scheduled.length ≤ maxWitnesses⌝⦄ := by
  mvcgen [updateWitnessScheduleHF0, electHF0_length, popMiner_core, updateMedianWitnessProps_core]
  all_goals
    intro hd
    have hempty : ([] : List Name).length < maxWitnesses := by decide
    have hnext := scheduleHF0_next (activeHF0_length (by grind)) hd
    grind

theorem updateWitnessSchedule_next (h : d.updateWitnessSchedule versions = .ok d') :
    d'.core.nextHardfork = (if d.core.headBlockNum % maxWitnesses = 0 then d.core.tallied versions
        else d.core.nextHardfork) ∧
      (d.core.scheduled.length ≤ maxWitnesses → d'.core.scheduled.length ≤ maxWitnesses) := by
  have hnum : d.core.headBlockNum = d.headBlockNum := rfl
  rw [hnum]
  unfold updateWitnessSchedule at h
  split at h
  · next hround =>
    rw [if_pos hround]
    split at h
    · obtain ⟨hnext, hlength⟩ := of_triple updateWitnessSchedule4_next trivial h
      exact ⟨hnext, fun _ => hlength⟩
    · next h4 =>
      obtain ⟨hnext, hlength⟩ := of_triple updateWitnessScheduleHF0_next trivial h
      refine ⟨?_, fun _ => hlength⟩
      -- without hardfork 4 there is no hardfork 5 either
      have h5 : ¬5 < d.core.hardforks.1.length := fun hlt =>
        h4 (decide_eq_true (Nat.lt_trans (by decide) hlt))
      rw [hnext, Core.tallied, if_neg h5]
  · next hround =>
    cases h
    rw [if_neg hround]
    exact ⟨rfl, id⟩

/-! ### Applying hardforks -/

theorem applyHardfork_hardforks {n : Nat} (h : d.applyHardfork n = .ok d') :
    n = d.hardforks.lastHardfork + 1 ∧ d.hardforks.processedHardforks.length = n ∧
      d'.hardforks = { d.hardforks with
        processedHardforks := d.hardforks.processedHardforks ++ [hardforkTime n]
        lastHardfork := n
        currentHardforkVersion := hardforkVersion n } ∧
      d'.headBlockTime = d.headBlockTime := by
  obtain ⟨d₁, h₁, h⟩ := bind_ok.1 h
  obtain ⟨_, hlast, h⟩ := bind_ok.1 h
  obtain ⟨_, hlength, h⟩ := bind_ok.1 h
  cases h
  have hc := of_triple hardforkStep_core trivial h₁
  have happlied : d₁.hardforks.applied = d.hardforks.applied := by
    exact congrArg Core.hardforks hc
  have hnext : d₁.hardforks.next = d.hardforks.next := by
    exact congrArg Core.nextHardfork hc
  have hsame : d₁.hardforks = d.hardforks := by
    cases hd₁ : d₁.hardforks
    cases hd : d.hardforks
    simp_all [HardforkProperties.applied, HardforkProperties.next]
  rw [← hsame]
  exact ⟨require_ok hlast, require_ok hlength, rfl, congrArg Core.time hc⟩

/-- Hardforks that are applied one after the other are those after the last one, in order. -/
theorem applyHardforks_range {hs : List Nat} (h : hs.foldlM applyHardfork d = .ok d') :
    hs = List.range' (d.hardforks.lastHardfork + 1) hs.length ∧
      d'.hardforks.lastHardfork = d.hardforks.lastHardfork + hs.length := by
  induction hs generalizing d with
  | nil =>
    cases h
    exact ⟨rfl, rfl⟩
  | cons n hs ih =>
    obtain ⟨d₁, h₁, hrest⟩ := run_cons.1 h
    obtain ⟨rfl, -, heq, -⟩ := applyHardfork_hardforks h₁
    have hlast : d₁.hardforks.lastHardfork = d.hardforks.lastHardfork + 1 := by rw [heq]
    obtain ⟨hrange, hlast'⟩ := ih hrest
    rw [hlast] at hrange hlast'
    refine ⟨?_, ?_⟩
    · rw [List.length_cons, List.range'_succ, ← hrange]
    · rw [hlast', List.length_cons]
      omega

theorem applyHardforks_keeps {hs : List Nat} (h : hs.foldlM applyHardfork d = .ok d')
    (hlength : d.hardforks.processedHardforks.length = d.hardforks.lastHardfork + 1)
    (hversion : d.hardforks.currentHardforkVersion = hardforkVersion d.hardforks.lastHardfork) :
    d'.hardforks.processedHardforks.length = d'.hardforks.lastHardfork + 1 ∧
      d'.hardforks.currentHardforkVersion = hardforkVersion d'.hardforks.lastHardfork ∧
      d'.hardforks.next = d.hardforks.next := by
  induction hs generalizing d with
  | nil =>
    cases h
    exact ⟨hlength, hversion, rfl⟩
  | cons n hs ih =>
    obtain ⟨d₁, h₁, hrest⟩ := run_cons.1 h
    obtain ⟨-, hn, heq, -⟩ := applyHardfork_hardforks h₁
    have hnext : d₁.hardforks.next = d.hardforks.next := by
      rw [heq]
      rfl
    rw [← hnext]
    apply ih hrest
    · rw [heq]
      simp [hn]
    · rw [heq]

theorem votedHardforks_applies {fuel : Nat} (h : votedHardforks fuel d = .ok d') :
    ∃ hs : List Nat, hs.foldlM applyHardfork d = .ok d' ∧ ∀ n ∈ hs,
      hardforkVersion (n - 1) < d.hardforks.nextHardfork ∧
      d.hardforks.nextHardforkTime ≤ d.headBlockTime := by
  induction fuel generalizing d with
  | zero => cases h
  | succ fuel ih =>
    unfold votedHardforks at h
    split at h
    · next hvoted =>
      split at h
      · obtain ⟨d₁, h₁, h⟩ := bind_ok.1 h
        obtain ⟨-, -, heq, htime⟩ := applyHardfork_hardforks h₁
        obtain ⟨hs, hrun, hall⟩ := ih h
        refine ⟨(d.hardforks.lastHardfork + 1) :: hs, run_cons.2 ⟨d₁, h₁, hrun⟩, ?_⟩
        intro n hn
        rcases List.mem_cons.1 hn with rfl | hn
        · exact hvoted
        · have hthis := hall n hn
          rw [heq, htime] at hthis
          exact hthis
      · cases h
    · cases h
      exact ⟨[], rfl, List.forall_mem_nil _⟩

theorem timedHardforks_applies {fuel : Nat} (h : timedHardforks fuel d = .ok d') :
    ∃ hs : List Nat, hs.foldlM applyHardfork d = .ok d' ∧ ∀ n ∈ hs, n ≤ 5 := by
  induction fuel generalizing d with
  | zero => cases h
  | succ fuel ih =>
    unfold timedHardforks at h
    split at h
    · next htimed =>
      obtain ⟨d₁, h₁, h⟩ := bind_ok.1 h
      obtain ⟨hs, hrun, hall⟩ := ih h
      refine ⟨(d.hardforks.lastHardfork + 1) :: hs, run_cons.2 ⟨d₁, h₁, hrun⟩, ?_⟩
      intro n hn
      rcases List.mem_cons.1 hn with rfl | hn
      · exact htimed.2.2
      · exact hall n hn
    · cases h
      exact ⟨[], rfl, List.forall_mem_nil _⟩

theorem processHardforks_applies (h : d.processHardforks = .ok d') :
    ∃ hs : List Nat, hs.foldlM applyHardfork d = .ok d' ∧ ∀ n ∈ hs, 5 < n → d.hasHardfork 5 ∧
      hardforkVersion (n - 1) < d.hardforks.nextHardfork ∧
      d.hardforks.nextHardforkTime ≤ d.headBlockTime := by
  unfold processHardforks at h
  split at h
  · next h5 =>
    obtain ⟨hs, hrun, hall⟩ := votedHardforks_applies h
    exact ⟨hs, hrun, fun n hn _ => ⟨h5, hall n hn⟩⟩
  · obtain ⟨hs, hrun, hall⟩ := timedHardforks_applies h
    exact ⟨hs, hrun, fun n hn hlt => absurd (hall n hn) (Nat.not_le.2 hlt)⟩

end Database

/- What the votes are counted from. -/
def Core.voting (c : Core) : (List Time × Nat × Nat) × (Nat × Time) × Nat × List Name :=
  (c.hardforks, c.nextHardfork, c.requiredWitnesses, c.scheduled)

theorem Core.tallied_congr {c c' : Core} (h : c'.voting = c.voting)
    (versions : Name → WitnessVersion) : c'.tallied versions = c.tallied versions := by
  obtain ⟨hhard, hnext, hreq, hsched⟩ : c'.hardforks = c.hardforks ∧
      c'.nextHardfork = c.nextHardfork ∧ c'.requiredWitnesses = c.requiredWitnesses ∧
      c'.scheduled = c.scheduled := by
    simpa [Core.voting] using h
  rw [Core.tallied, Core.tallied, Core.votes, Core.votes, hhard, hnext, hreq, hsched]

/-! ### Blocks -/

namespace ChainState

variable {env : Env} {skip : Skip} {s s' : ChainState} {b : Block} {d : Database}

/- `_apply_block` up to `process_hardforks`. -/
def beforeHardforks (env : Env) (skip : Skip) (s : ChainState) (b : Block) : Result Database := do
  let s ← s.startBlock env skip b
  let s ← b.transactions.foldlM (applyTransaction env skip) s
  let d ← s.db.updateGlobalDynamicData env skip b
  let d ← d.updateSigningWitness b
  let d ← d.updateLastIrreversibleBlock
  let d ← (d.createBlockSummary env b).clearExpiredOrders
  let d ← d.clearExpiredDelegations
  let d ← d.updateWitnessSchedule s.versions
  d.settle s.currentWitness

theorem applyBlock_hardforks (h : s.applyBlock env skip b = .ok s') :
    ∃ d, s.beforeHardforks env skip b = .ok d ∧ d.processHardforks = .ok s'.db := by
  obtain ⟨s₁, s₂, h₁, h₂, h₃⟩ := applyBlock_ok.1 h
  obtain ⟨d₁, d₂, d₃, d₄, hd₁, hd₂, hd₃, hd₄, rfl⟩ := finishBlock_ok.1 h₃
  obtain ⟨d₅, h₅, h⟩ := bind_ok.1 hd₄
  obtain ⟨d₆, h₆, h⟩ := bind_ok.1 h
  obtain ⟨d₇, h₇, h⟩ := bind_ok.1 h
  obtain ⟨d₈, h₈, h⟩ := bind_ok.1 h
  refine ⟨d₈, ?_, h⟩
  exact bind_ok.2 ⟨s₁, h₁, bind_ok.2 ⟨s₂, h₂, bind_ok.2 ⟨d₁, hd₁, bind_ok.2 ⟨d₂, hd₂,
    bind_ok.2 ⟨d₃, hd₃, bind_ok.2 ⟨d₅, h₅, bind_ok.2 ⟨d₆, h₆, bind_ok.2 ⟨d₇, h₇, h₈⟩⟩⟩⟩⟩⟩⟩⟩

/- The versions that the witnesses report once the header of a block has been read. -/
def reported (s : ChainState) (b : Block) : Name → WitnessVersion :=
  (s.processHeaderExtensions b).versions

theorem processHeaderExtensions_versions {s t : ChainState} (h : s.versions = t.versions) :
    (s.processHeaderExtensions b).versions = (t.processHeaderExtensions b).versions := by
  unfold processHeaderExtensions
  induction b.extensions generalizing s t with
  | nil => exact h
  | cons e l ih =>
    apply ih
    cases e <;> simp [processHeaderExtension, setVersion, h]

theorem applyTransactions_versions {l : List Transaction}
    (h : l.foldlM (applyTransaction env skip) s = .ok s') : s'.versions = s.versions := by
  refine run_induction (P := fun _ e => e.versions = s.versions) h rfl ?_
  intro _ e t e' he _ ht
  obtain ⟨-, d, -, rfl⟩ := applyTransaction_ok.1 ht
  exact he

theorem beforeHardforks_next (h : s.beforeHardforks env skip b = .ok d) :
    d.core.hardforks = s.db.core.hardforks ∧
      d.core.requiredWitnesses = s.db.core.requiredWitnesses ∧ d.core.time = b.timestamp ∧
      d.core.nextHardfork = (if Database.blockNum b % maxWitnesses = 0
        then s.db.core.tallied (s.reported b) else s.db.core.nextHardfork) ∧
      (s.db.core.scheduled.length ≤ maxWitnesses → d.core.scheduled.length ≤ maxWitnesses) := by
  obtain ⟨s₁, h₁, h⟩ := bind_ok.1 h
  obtain ⟨s₂, h₂, h⟩ := bind_ok.1 h
  obtain ⟨d₁, hd₁, h⟩ := bind_ok.1 h
  obtain ⟨d₂, hd₂, h⟩ := bind_ok.1 h
  obtain ⟨d₃, hd₃, h⟩ := bind_ok.1 h
  obtain ⟨d₅, h₅, h⟩ := bind_ok.1 h
  obtain ⟨d₆, h₆, h⟩ := bind_ok.1 h
  obtain ⟨d₇, h₇, h₈⟩ := bind_ok.1 h
  have hdb : s₁.db = s.db := (startBlock_keeps h₁).1
  have hv₂ : s₂.db.core.voting = s.db.core.voting := by
    refine applyTransactions_induction (P := fun d => d.core.voting = s.db.core.voting) h₂
      (by rw [hdb]) ?_
    intro w d o d' hd ho
    rw [of_triple applyOperation_core trivial ho]
    exact hd
  have c₁ := of_triple Database.updateGlobalDynamicData_core trivial hd₁
  have c₂ := of_triple Database.updateSigningWitness_core trivial hd₂
  have c₃ := of_triple Database.updateLastIrreversibleBlock_core trivial hd₃
  have c₅ := of_triple Database.clearExpiredOrders_core trivial h₅
  have c₆ := of_triple Database.clearExpiredDelegations_core trivial h₆
  have c₇ := of_triple Database.updateWitnessSchedule_core trivial h₇
  have c₈ := of_triple Database.settle_core trivial h₈
  have hv₆ : d₆.core.voting = s.db.core.voting := by
    rw [← hv₂, c₆, c₅, Database.core_createBlockSummary, c₃, c₂, c₁]
    rfl
  have hnum₆ : d₆.core.headBlockNum = Database.blockNum b := by
    rw [c₆, c₅, Database.core_createBlockSummary, c₃, c₂, c₁]
  have htime₆ : d₆.core.time = b.timestamp := by
    rw [c₆, c₅, Database.core_createBlockSummary, c₃, c₂, c₁]
  obtain ⟨hhard, hnext, hreq, hsched⟩ : d₆.core.hardforks = s.db.core.hardforks ∧
      d₆.core.nextHardfork = s.db.core.nextHardfork ∧
      d₆.core.requiredWitnesses = s.db.core.requiredWitnesses ∧
      d₆.core.scheduled = s.db.core.scheduled := by
    simpa [Core.voting] using hv₆
  have hversions : s₂.versions = s.reported b := by
    rw [applyTransactions_versions h₂, (startBlock_ok.1 h₁).2.2]
    exact processHeaderExtensions_versions rfl
  obtain ⟨hnext₇, hlength₇⟩ := Database.updateWitnessSchedule_next h₇
  rw [hnum₆, Core.tallied_congr hv₆, hversions, hnext] at hnext₇
  rw [hsched] at hlength₇
  rw [c₈]
  refine ⟨?_, ?_, ?_, hnext₇, hlength₇⟩
  · rw [c₇]
    exact hhard
  · rw [c₇]
    exact hreq
  · rw [c₇]
    exact htime₆

/- The votes at the last update of the schedule, once a block has been applied. -/
def latestVotes (s : ChainState) (b : Block) (votes : List (Nat × Time)) : List (Nat × Time) :=
  if Database.blockNum b % maxWitnesses = 0 then s.db.core.votes (s.reported b) else votes

/-- The state of the hardforks, with the votes at the last update of the schedule. -/
structure Machine (s : ChainState) (votes : List (Nat × Time)) : Prop where
  processed : s.db.hardforks.processedHardforks.length = s.db.hardforks.lastHardfork + 1
  version : s.db.hardforks.currentHardforkVersion = hardforkVersion s.db.hardforks.lastHardfork
  required : s.db.schedule.hardforkRequiredWitnesses = hardforkRequiredWitnesses
  scheduled : s.db.core.scheduled.length ≤ maxWitnesses
  early : s.db.hardforks.lastHardfork < 5 → s.db.hardforks.nextHardfork = 0
  released : s.db.hardforks.nextHardfork % 65536 = 0
  reports : ∀ name, (s.versions name).hardforkVersionVote % 65536 = 0
  voted : hardforkVersion s.db.hardforks.lastHardfork < s.db.hardforks.nextHardfork →
    hardforkRequiredWitnesses ≤ votes.countP (· == s.db.hardforks.next)
  few : votes.length ≤ maxWitnesses

theorem machine_initGenesis (supply : Int) : Machine (initGenesis supply) [] where
  processed := (rfl : [genesisTime].length = 0 + 1)
  version := (by decide : 0 = hardforkVersion 0)
  required := rfl
  scheduled := (by decide : (initGenesis 0).db.core.scheduled.length ≤ maxWitnesses)
  early := fun _ => (rfl : 0 = 0)
  released := (by decide : 0 % 65536 = 0)
  reports := fun _ => (by decide : 0 % 65536 = 0)
  voted := fun h => absurd h (by decide : ¬hardforkVersion 0 < 0)
  few := Nat.zero_le _

theorem reported_released (h : ∀ name, (s.versions name).hardforkVersionVote % 65536 = 0)
    (name : Name) : (s.reported b name).hardforkVersionVote % 65536 = 0 := by
  unfold reported processHeaderExtensions
  induction b.extensions generalizing s with
  | nil => exact h name
  | cons e l ih =>
    apply ih
    intro n
    cases e with
    | void => exact h n
    | version v =>
      simp only [processHeaderExtension, setVersion]
      split
      · exact h b.witness
      · exact h n
    | hardforkVersionVote v t =>
      simp only [processHeaderExtension, setVersion]
      split
      · exact Nat.mul_mod_left _ _
      · exact h n

/-- What the hardfork voted for is before the hardforks of a block are processed. -/
theorem Machine.before {votes : List (Nat × Time)} (hm : Machine s votes)
    (hd : s.beforeHardforks env skip b = .ok d) :
    d.hardforks.nextHardfork % 65536 = 0 ∧
      (d.hardforks.lastHardfork < 5 → d.hardforks.nextHardfork = 0) ∧
      (hardforkVersion d.hardforks.lastHardfork < d.hardforks.nextHardfork →
        hardforkRequiredWitnesses ≤ (s.latestVotes b votes).countP (· == d.hardforks.next)) := by
  obtain ⟨hhard, -, -, hnext, -⟩ := beforeHardforks_next hd
  obtain ⟨hlength, hlast, hversion⟩ : d.hardforks.processedHardforks =
      s.db.hardforks.processedHardforks ∧
      d.hardforks.lastHardfork = s.db.hardforks.lastHardfork ∧
      d.hardforks.currentHardforkVersion = s.db.hardforks.currentHardforkVersion := by
    simpa [Database.core, HardforkProperties.applied] using hhard
  have hproj : d.hardforks.nextHardfork = d.core.nextHardfork.1 := rfl
  have hpair : d.hardforks.next = d.core.nextHardfork := rfl
  rw [hlast, hproj, hpair, hnext]
  unfold latestVotes
  split
  · unfold Core.tallied
    split
    · next h5 =>
      have hlast5 : ¬s.db.hardforks.lastHardfork < 5 := by
        have hlen : s.db.core.hardforks.1.length = s.db.hardforks.lastHardfork + 1 := hm.processed
        omega
      have hreq : s.db.core.requiredWitnesses = hardforkRequiredWitnesses := hm.required
      cases hv : Database.majorityVote s.db.core.requiredWitnesses
          (s.db.core.votes (s.reported b)) with
      | none =>
        have hcur : s.db.core.hardforks.2.2 = hardforkVersion s.db.hardforks.lastHardfork :=
          hm.version
        simp only [Option.getD_none, hcur]
        exact ⟨Nat.mul_mod_left _ _, fun h => absurd h hlast5,
          fun h => absurd h (Nat.lt_irrefl _)⟩
      | some v =>
        have hcount := Database.majorityVote_count hv
        obtain ⟨name, -, hname⟩ := List.mem_map.1 (Database.majorityVote_mem hv)
        have hreleased := reported_released (b := b) hm.reports name
        simp only [Option.getD_some]
        refine ⟨?_, fun h => absurd h hlast5, fun _ => hreq ▸ hcount⟩
        rw [← hname]
        exact hreleased
    · next h5 =>
      have hlast5 : s.db.hardforks.lastHardfork < 5 := by
        have hlen : s.db.core.hardforks.1.length = s.db.hardforks.lastHardfork + 1 := hm.processed
        omega
      have hzero : s.db.core.nextHardfork.1 = 0 := hm.early hlast5
      exact ⟨hm.released, hm.early, fun h => absurd (hzero ▸ h) (Nat.not_lt_zero _)⟩
  · exact ⟨hm.released, hm.early, hm.voted⟩

theorem applyBlock_versions (h : s.applyBlock env skip b = .ok s') : s'.versions = s.reported b := by
  obtain ⟨s₁, s₂, h₁, h₂, h₃⟩ := applyBlock_ok.1 h
  obtain ⟨d₁, d₂, d₃, d₄, -, -, -, -, rfl⟩ := finishBlock_ok.1 h₃
  have hs₂ : s₂.versions = s.reported b := by
    rw [applyTransactions_versions h₂, (startBlock_ok.1 h₁).2.2]
    exact processHeaderExtensions_versions rfl
  exact hs₂

/-- The hardforks that a block applies follow the last one, and from the sixth on they are those
that the scheduled witnesses voted for. -/
theorem Machine.block {votes : List (Nat × Time)} {hs : List Nat} (hm : Machine s votes)
    (hb : s.applyBlock env skip b = .ok s') (hd : s.beforeHardforks env skip b = .ok d)
    (hrun : hs.foldlM Database.applyHardfork d = .ok s'.db) :
    Machine s' (s.latestVotes b votes) ∧
      hs = List.range' (s.db.hardforks.lastHardfork + 1) hs.length ∧
      s'.db.hardforks.lastHardfork = s.db.hardforks.lastHardfork + hs.length ∧
      ∀ n ∈ hs, 5 < n → ∃ v t, hardforkVersion n ≤ v ∧ t ≤ b.timestamp ∧
        hardforkRequiredWitnesses ≤ (s.latestVotes b votes).countP (· == (v, t)) := by
  obtain ⟨hhard, hreq, htime, -, hscheduled⟩ := beforeHardforks_next hd
  obtain ⟨hreleased, hearly, hvoted⟩ := hm.before hd
  obtain ⟨d', hd', hproc⟩ := applyBlock_hardforks hb
  obtain rfl : d' = d := Except.ok.inj (hd'.symm.trans hd)
  have hc := of_triple Database.processHardforks_core trivial hproc
  obtain ⟨hlength, hlast, hversion⟩ : d'.hardforks.processedHardforks =
      s.db.hardforks.processedHardforks ∧
      d'.hardforks.lastHardfork = s.db.hardforks.lastHardfork ∧
      d'.hardforks.currentHardforkVersion = s.db.hardforks.currentHardforkVersion := by
    simpa [Database.core, HardforkProperties.applied] using hhard
  obtain ⟨hrange, hlast'⟩ := Database.applyHardforks_range hrun
  obtain ⟨hprocessed', hversion', hnext'⟩ := Database.applyHardforks_keeps hrun
    (by rw [hlength, hlast, hm.processed]) (by rw [hversion, hlast, hm.version])
  have hnext : s'.db.hardforks.nextHardfork = d'.hardforks.nextHardfork := congrArg Prod.fst hnext'
  have hfew : (s.latestVotes b votes).length ≤ maxWitnesses := by
    unfold latestVotes
    split
    · rw [Core.votes, List.length_map]
      exact hm.scheduled
    · exact hm.few
  have hmono : hardforkVersion d'.hardforks.lastHardfork ≤
      hardforkVersion s'.db.hardforks.lastHardfork := by
    rw [hlast']
    exact Nat.mul_le_mul_right _ (Nat.le_add_right _ _)
  refine ⟨⟨hprocessed', hversion', ?_, ?_, ?_, ?_, ?_, ?_, hfew⟩, hlast ▸ hrange, hlast ▸ hlast', ?_⟩
  · have hr : s'.db.core.requiredWitnesses = s.db.core.requiredWitnesses := by rw [hc, hreq]
    exact hr.trans hm.required
  · have hs' : s'.db.core.scheduled = d'.core.scheduled := by rw [hc]
    exact hs' ▸ hscheduled hm.scheduled
  · intro h5
    rw [hnext]
    exact hearly (by omega)
  · rw [hnext]
    exact hreleased
  · rw [applyBlock_versions hb]
    exact reported_released hm.reports
  · intro hlt
    rw [hnext']
    exact hvoted (Nat.lt_of_le_of_lt hmono (hnext ▸ hlt))
  · intro n hn h5
    obtain ⟨hs₀, hrun₀, hall⟩ := Database.processHardforks_applies hproc
    -- a run of hardforks is told by where it starts and ends
    have hsame : hs₀ = hs := by
      obtain ⟨hrange₀, hlast₀⟩ := Database.applyHardforks_range hrun₀
      have hlen : hs₀.length = hs.length := by omega
      rw [hrange₀, hrange, hlen]
    obtain ⟨-, hlt, ht⟩ := hall n (hsame ▸ hn) h5
    have hn' := hn
    rw [hrange, List.mem_range'_1] at hn'
    have hle : hardforkVersion d'.hardforks.lastHardfork ≤ hardforkVersion (n - 1) :=
      Nat.mul_le_mul_right _ (by omega)
    have hnow : d'.headBlockTime = b.timestamp := htime
    refine ⟨_, _, ?_, hnow ▸ ht, hvoted (Nat.lt_of_le_of_lt hle hlt)⟩
    unfold hardforkVersion at hlt ⊢
    omega

/-- A run of blocks with the hardforks applied in it and the votes at the last update of the
schedule. -/
inductive History (env : Env) (supply : Int) :
    List (Skip × Block) → ChainState → List Nat → List (Nat × Time) → Prop where
  | genesis : History env supply [] (initGenesis supply) [] []
  | block {l : List (Skip × Block)} {s s' : ChainState} {d : Database} {applied hs : List Nat}
      {votes : List (Nat × Time)} {skip : Skip} {b : Block}
      (h : History env supply l s applied votes) (hb : s.applyBlock env skip b = .ok s')
      (hd : s.beforeHardforks env skip b = .ok d)
      (hrun : hs.foldlM Database.applyHardfork d = .ok s'.db) :
      History env supply (l ++ [(skip, b)]) s' (applied ++ hs) (s.latestVotes b votes)

theorem applyEach_history {supply : Int} {l : List (Skip × Block)}
    (h : (initGenesis supply).applyEach env l = .ok s) :
    ∃ applied votes, History env supply l s applied votes := by
  refine run_induction (P := fun done e => ∃ applied votes, History env supply done e applied votes)
    h ⟨[], [], .genesis⟩ ?_
  rintro done e ⟨skip, b⟩ e' ⟨applied, votes, he⟩ - hstep
  obtain ⟨d, hd, hproc⟩ := applyBlock_hardforks hstep
  obtain ⟨hs, hrun, -⟩ := Database.processHardforks_applies hproc
  exact ⟨applied ++ hs, e.latestVotes b votes, he.block hstep hd hrun⟩

theorem History.machine {supply : Int} {l : List (Skip × Block)} {applied : List Nat}
    {votes : List (Nat × Time)} (h : History env supply l s applied votes) :
    Machine s votes ∧ applied = List.range' 1 s.db.hardforks.lastHardfork := by
  induction h with
  | genesis => exact ⟨machine_initGenesis supply, rfl⟩
  | block h hb hd hrun ih =>
    obtain ⟨hm, hrange, hlast, -⟩ := ih.1.block hb hd hrun
    refine ⟨hm, ?_⟩
    rw [ih.2, hrange, hlast, Nat.add_comm, List.range'_append_1]

/-- The hardforks are applied in order, each once, and from the sixth on only where enough of the
scheduled witnesses voted for one version and time when the schedule was last updated. -/
theorem hardfork_machine {supply : Int} {l : List (Skip × Block)}
    (h : (initGenesis supply).applyEach env l = .ok s) :
    s.db.hardforks.processedHardforks.length = s.db.hardforks.lastHardfork + 1 ∧
      s.db.hardforks.currentHardforkVersion = hardforkVersion s.db.hardforks.lastHardfork ∧
      ∃ applied votes, History env supply l s applied votes ∧
        applied = List.range' 1 s.db.hardforks.lastHardfork ∧
        (∀ p q, hardforkRequiredWitnesses ≤ votes.countP (· == p) →
          hardforkRequiredWitnesses ≤ votes.countP (· == q) → p = q) ∧
        ∀ (skip : Skip) (b : Block) (s' : ChainState) (d : Database) (hs : List Nat),
          s.applyBlock env skip b = .ok s' → s.beforeHardforks env skip b = .ok d →
          hs.foldlM Database.applyHardfork d = .ok s'.db → ∀ n ∈ hs, 5 < n →
          ∃ v t, hardforkVersion n ≤ v ∧ t ≤ b.timestamp ∧
            s.db.schedule.hardforkRequiredWitnesses ≤
              (s.latestVotes b votes).countP (· == (v, t)) := by
  obtain ⟨applied, votes, hhist⟩ := applyEach_history h
  obtain ⟨hm, happlied⟩ := hhist.machine
  refine ⟨hm.processed, hm.version, applied, votes, hhist, happlied, ?_, ?_⟩
  · intro p q hp hq
    refine majority_unique ?_ hp hq
    exact Nat.lt_of_le_of_lt hm.few (by decide)
  · intro skip b s' d hs hb hd hrun n hn h5
    rw [hm.required]
    exact (hm.block hb hd hrun).2.2.2 n hn h5

end ChainState

theorem hardfork_machine_firstBlock :
    ∃ s, (ChainState.initGenesis initSupply).applyEach .plain [(.nothing, firstBlock)] = .ok s ∧
      ∃ applied votes, ChainState.History .plain initSupply [(.nothing, firstBlock)] s applied votes ∧
        applied = List.range' 1 s.db.hardforks.lastHardfork := by
  obtain ⟨s, hs, -⟩ := map_ok.1 firstBlock_applied
  obtain ⟨-, -, applied, votes, hhist, happlied, -⟩ := ChainState.hardfork_machine hs
  exact ⟨s, hs, applied, votes, hhist, happlied⟩

end WeNode.Chain
