import Mathlib.Data.List.Perm.Basic
import WeNode.Chain.CommentBlocks
import WeNode.Chain.Witnesses

/-!
# Rounds of the schedule

`update_witness_schedule4` selects as many witnesses with a signing key as there are, up to a full
round, and then demands as many as there are witnesses at all.
-/

namespace WeNode.Chain

open WeNode.Lib

/-! ### Shuffling -/

theorem swap_drop {l : List Name} {i j count : Nat} (hi : i < count) (hj : j < count) :
    (Database.swap l i j).drop count = l.drop count := by
  unfold Database.swap
  rw [List.drop_set_of_lt hj, List.drop_set_of_lt hi]

theorem swap_take {l : List Name} {i j count : Nat} (hi : i < count) (hj : j < count)
    (hl : count ≤ l.length) : ((Database.swap l i j).take count).Perm (l.take count) := by
  have hi' : i < (l.take count).length := by rw [List.length_take]; omega
  have hj' : j < (l.take count).length := by rw [List.length_take]; omega
  have hgi : l.getD i 0 = (l.take count)[i] := by
    rw [List.getElem_take, List.getD_eq_getElem _ _ (by omega)]
  have hgj : l.getD j 0 = (l.take count)[j] := by
    rw [List.getElem_take, List.getD_eq_getElem _ _ (by omega)]
  unfold Database.swap
  rw [List.take_set, List.take_set, hgi, hgj]
  exact List.set_set_perm hi' hj'

/-- A shuffle permutes the first entries. -/
theorem shuffle_spec (time : Time) {count : Nat} {l : List Name} (hl : count ≤ l.length) :
    ((Database.shuffle time count l).take count).Perm (l.take count) ∧
      (Database.shuffle time count l).drop count = l.drop count := by
  have hrange : ∀ is : List Nat, (∀ i ∈ is, i < count) → ∀ l' : List Name, l'.length = l.length →
      ((is.foldl (fun l i => Database.swap l i (i + Database.shuffleKey time i % (count - i))) l').take
          count).Perm (l'.take count) ∧
        (is.foldl (fun l i => Database.swap l i (i + Database.shuffleKey time i % (count - i))) l').drop
          count = l'.drop count := by
    intro is
    induction is with
    | nil => exact fun _ l' _ => ⟨.refl _, rfl⟩
    | cons i is ih =>
      intro his l' hlength
      have hi : i < count := his i List.mem_cons_self
      have hmod := Nat.mod_lt (Database.shuffleKey time i) (Nat.sub_pos_of_lt hi)
      have hj : i + Database.shuffleKey time i % (count - i) < count := by omega
      have hswap : (Database.swap l' i (i + Database.shuffleKey time i % (count - i))).length =
          l.length := by
        unfold Database.swap
        rw [List.length_set, List.length_set, hlength]
      obtain ⟨htake, hdrop⟩ := ih (fun j hj => his j (List.mem_cons_of_mem _ hj)) _ hswap
      rw [List.foldl_cons]
      exact ⟨htake.trans (swap_take hi hj (hlength ▸ hl)), hdrop.trans (swap_drop hi hj)⟩
  exact hrange (List.range count) (fun i hi => List.mem_range.1 hi) l rfl

/-! ### Counting -/

/-- What is left of distinct entries without some of them. -/
theorem length_filter_not_mem {l part : List Nat} (hl : l.Nodup) (hpart : part.Nodup)
    (hsub : part ⊆ l) : (l.filter fun x => x ∉ part).length + part.length = l.length := by
  have hperm : (l.filter fun x => x ∈ part).Perm part := by
    rw [List.perm_ext_iff_of_nodup (hl.filter _) hpart]
    intro x
    rw [List.mem_filter, decide_eq_true_iff]
    exact and_iff_right_of_imp fun hx => hsub hx
  have hsplit := List.length_eq_length_filter_add (l := l) fun x => decide (x ∈ part)
  rw [hperm.length_eq] at hsplit
  have hnot : (l.filter fun x => !decide (x ∈ part)) = l.filter fun x => x ∉ part := by
    simp only [decide_not]
  rw [hnot] at hsplit
  omega

/-! ### The steps of a round -/

/-- What a round reads of a witness: its id, its owner, its key and its votes. -/
def Witness.seat (w : Witness) : Nat × Name × PublicKey × Int := (w.id, w.owner, w.signingKey, w.votes)

namespace Database

/-- The same witnesses for a round, which changes nothing but their places. -/
structure SameSeats (d d' : Database) : Prop where
  seats : d'.witnesses.rows.map Witness.seat = d.witnesses.rows.map Witness.seat
  schedule : d'.schedule = d.schedule
  hardforks : d'.hardforks = d.hardforks

variable {d d' d'' : Database}

theorem SameSeats.refl (d : Database) : SameSeats d d := ⟨rfl, rfl, rfl⟩

theorem SameSeats.trans (h : SameSeats d d') (h' : SameSeats d' d'') : SameSeats d d'' :=
  ⟨h'.seats.trans h.seats, h'.schedule.trans h.schedule, h'.hardforks.trans h.hardforks⟩

theorem SameSeats.seat (h : SameSeats d d') {w : Witness} (hw : w ∈ d'.witnesses.rows) :
    w.seat ∈ d.witnesses.rows.map Witness.seat := by
  rw [← h.seats]
  exact List.mem_map_of_mem hw

theorem modifyWitness_seats {name : Name} {f : Witness → Result Witness}
    (hf : ∀ w, ∃ w', f w = .ok w' ∧ w'.seat = w.seat)
    (hname : ∃ seat ∈ d.witnesses.rows.map Witness.seat, seat.2.1 = name) :
    ∃ d', d.modifyWitness name f = .ok d' ∧ SameSeats d d' := by
  obtain ⟨_, hseat, howner⟩ := hname
  obtain ⟨w, hw, rfl⟩ := List.mem_map.1 hseat
  obtain ⟨x, hx⟩ : ∃ x, d.witnesses.find (fun w => w.owner == name) = some x := by
    refine Option.isSome_iff_exists.1 (List.find?_isSome.2 ⟨w, hw, ?_⟩)
    exact beq_iff_eq.2 howner
  obtain ⟨y, hy, -⟩ := hf x
  obtain ⟨t, ht⟩ : ∃ t, d.witnesses.modify Exception.notFound (fun w => w.owner == name) f = .ok t :=
    Table.modify_of_find hx hy
  refine ⟨{ d with witnesses := t }, by unfold modifyWitness; rw [ht]; rfl, ?_, rfl, rfl⟩
  obtain ⟨u, v, huv, hreplaced, -⟩ := Table.modify_ok ht
  obtain ⟨v', hv', hseat⟩ := hf u
  rw [huv] at hv'
  cases hv'
  exact hreplaced.map_eq hseat

theorem setSchedule_seats {schedule : ScheduleType} {names : List Name}
    (hnames : ∀ name ∈ names, ∃ seat ∈ d.witnesses.rows.map Witness.seat, seat.2.1 = name) :
    ∃ d', d.setSchedule schedule names = .ok d' ∧ SameSeats d d' := by
  unfold setSchedule
  induction names generalizing d with
  | nil => exact ⟨d, rfl, .refl d⟩
  | cons name names ih =>
    have hkeeps : ∀ w : Witness, ∃ w', (fun w : Witness =>
        (.ok { w with schedule := schedule } : Result Witness)) w = .ok w' ∧ w'.seat = w.seat :=
      fun w => ⟨_, rfl, rfl⟩
    obtain ⟨d₁, hrun₁, hsame₁⟩ := modifyWitness_seats hkeeps (hnames name List.mem_cons_self)
    obtain ⟨d', hrun, hsame⟩ : ∃ d', _ ∧ SameSeats d₁ d' := ih (d := d₁) fun n hn => by
      rw [hsame₁.seats]
      exact hnames n (List.mem_cons_of_mem _ hn)
    refine ⟨d', ?_, hsame₁.trans hsame⟩
    rw [List.foldlM_cons, hrun₁]
    exact hrun

theorem popMiner_seats {name : Name}
    (hname : ∃ seat ∈ d.witnesses.rows.map Witness.seat, seat.2.1 = name) :
    ∃ d', d.popMiner name = .ok d' ∧ SameSeats d d' := by
  have hkeeps : ∀ w : Witness, ∃ w', (fun w : Witness =>
      (.ok { w with powWorker := 0 } : Result Witness)) w = .ok w' ∧ w'.seat = w.seat :=
    fun w => ⟨_, rfl, rfl⟩
  obtain ⟨d', hrun, hsame⟩ := modifyWitness_seats hkeeps hname
  refine ⟨d'.uncountPow, ?_, hsame.seats, hsame.schedule, hsame.hardforks⟩
  unfold popMiner
  rw [hrun]
  rfl

theorem SameSeats.canProduce (h : SameSeats d d') (w : Witness) : d'.canProduce w = d.canProduce w := by
  unfold Database.canProduce hasHardfork
  rw [h.hardforks]

/-- Miners are selected from the queue, as many as there are places for. -/
theorem selectMiners_seats {voted queue miners : List Witness}
    (hqueue : ∀ m ∈ queue, m.seat ∈ d.witnesses.rows.map Witness.seat) :
    ∃ d' chosen, selectMiners voted queue d miners = .ok (d', miners ++ chosen) ∧ SameSeats d d' ∧
      chosen.Sublist (queue.filter fun m => m.id ∉ voted.map (·.id) ∧ d.canProduce m) ∧
      (miners ++ chosen).length ≤ max miners.length d.schedule.maxMinerWitnesses := by
  induction queue generalizing d miners with
  | nil =>
    refine ⟨d, [], by rw [List.append_nil]; rfl, .refl d, List.Sublist.refl _, ?_⟩
    rw [List.append_nil]
    exact Nat.le_max_left _ _
  | cons m queue ih =>
    have hm : ∃ seat ∈ d.witnesses.rows.map Witness.seat, seat.2.1 = m.owner :=
      ⟨_, hqueue m List.mem_cons_self, rfl⟩
    unfold selectMiners
    by_cases hroom : miners.length < d.schedule.maxMinerWitnesses
    · rw [if_pos hroom]
      by_cases hfit : m.id ∉ voted.map (·.id) ∧ d.canProduce m
      · rw [if_pos hfit]
        obtain ⟨d₁, hrun₁, hsame₁⟩ : ∃ d₁, d.setSchedule .miner [m.owner] = .ok d₁ ∧ SameSeats d d₁ :=
          setSchedule_seats fun n hn => List.mem_singleton.1 hn ▸ hm
        obtain ⟨d₂, hrun₂, hsame₂⟩ : ∃ d₂, d₁.popMiner m.owner = .ok d₂ ∧ SameSeats d₁ d₂ :=
          popMiner_seats (hsame₁.seats ▸ hm)
        have hsame := hsame₁.trans hsame₂
        obtain ⟨d', chosen, hrun, hsame', hchosen, hlength⟩ : ∃ d' chosen,
            selectMiners voted queue d₂ (miners ++ [m]) = .ok (d', miners ++ [m] ++ chosen) ∧
              SameSeats d₂ d' ∧ _ ∧ _ :=
          ih fun w hw => hsame.seats ▸ hqueue w (List.mem_cons_of_mem _ hw)
        refine ⟨d', m :: chosen, ?_, hsame.trans hsame', ?_, ?_⟩
        · rw [hrun₁]
          show (d₁.popMiner m.owner >>= fun d => selectMiners voted queue d (miners ++ [m])) = _
          rw [hrun₂, ← List.append_cons] at *
          exact hrun
        · rw [List.filter_cons_of_pos (by simpa using hfit)]
          refine List.Sublist.cons_cons m ?_
          simpa only [hsame.canProduce] using hchosen
        · rw [hsame.schedule] at hlength
          simp only [List.length_append, List.length_cons, List.length_nil] at hlength ⊢
          omega
      · rw [if_neg hfit]
        obtain ⟨d₁, hrun₁, hsame⟩ : ∃ d₁, d.popMiner m.owner = .ok d₁ ∧ SameSeats d d₁ :=
          popMiner_seats hm
        obtain ⟨d', chosen, hrun, hsame', hchosen, hlength⟩ : ∃ d' chosen, _ ∧ SameSeats d₁ d' ∧ _ ∧ _ :=
          ih fun w hw => hsame.seats ▸ hqueue w (List.mem_cons_of_mem _ hw)
        refine ⟨d', chosen, ?_, hsame.trans hsame', ?_, ?_⟩
        · rw [hrun₁]
          exact hrun
        · rw [List.filter_cons_of_neg (by simpa using hfit)]
          simpa only [hsame.canProduce] using hchosen
        · rw [hsame.schedule] at hlength
          exact hlength
    · rw [if_neg hroom]
      refine ⟨d, [], by rw [List.append_nil], .refl d, List.nil_sublist _, ?_⟩
      rw [List.append_nil]
      exact Nat.le_max_left _ _

/-- The runners are the first witnesses that can produce and are not selected yet. -/
theorem selectRunners_eq {selected : List Nat} {l : List Witness} {count : Nat} :
    (d.selectRunners selected l count).2 =
        (l.filter fun w => d.canProduce w ∧ w.id ∉ selected).take (maxWitnesses - count) ∧
      (d.selectRunners selected l count).1 ⊆ l := by
  induction l generalizing count with
  | nil => exact ⟨by simp [selectRunners], List.Subset.refl _⟩
  | cons w l ih =>
    have hrest : ∀ n, (d.selectRunners selected l n).2 =
        (l.filter fun w => d.canProduce w ∧ w.id ∉ selected).take (maxWitnesses - n) ∧
          (d.selectRunners selected l n).1 ⊆ l := fun _ => ih
    unfold selectRunners
    by_cases hroom : count < maxWitnesses
    · rw [if_pos hroom]
      by_cases hfit : d.canProduce w ∧ w.id ∉ selected
      · obtain ⟨htake, hsub⟩ := hrest (count + 1)
        rw [if_pos hfit, List.filter_cons_of_pos (by simpa using hfit)]
        refine ⟨?_, List.cons_subset_cons w hsub⟩
        show w :: (d.selectRunners selected l (count + 1)).2 = _
        obtain ⟨n, hn⟩ : ∃ n, maxWitnesses - count = n + 1 := ⟨maxWitnesses - count - 1, by omega⟩
        rw [htake, hn, List.take_succ_cons, show maxWitnesses - (count + 1) = n by omega]
      · obtain ⟨htake, hsub⟩ := hrest count
        rw [if_neg hfit, List.filter_cons_of_neg (by simpa using hfit)]
        exact ⟨htake, List.cons_subset_cons w hsub⟩
    · rw [if_neg hroom, show maxWitnesses - count = 0 by omega]
      exact ⟨rfl, List.nil_subset _⟩

theorem advanceMet_seats {newTime : Nat} {met : List Witness}
    (hmet : ∀ w ∈ met, w.seat ∈ d.witnesses.rows.map Witness.seat)
    (hvotes : ∀ w ∈ met, u128 (w.votes + 1) ≠ 0) :
    advanceMet newTime met d = .ok none ∨
      ∃ d', advanceMet newTime met d = .ok (some d') ∧ SameSeats d d' := by
  induction met generalizing d with
  | nil => exact .inr ⟨d, rfl, .refl d⟩
  | cons w met ih =>
    have hdiv : u128Div virtualScheduleLapLength2 (u128 (w.votes + 1)) =
        .ok (virtualScheduleLapLength2 / u128 (w.votes + 1)) := by
      unfold u128Div
      rw [if_neg (hvotes w List.mem_cons_self)]
    unfold advanceMet
    rw [hdiv]
    by_cases hover : u128Add newTime (virtualScheduleLapLength2 / u128 (w.votes + 1)) < newTime
    · refine .inl ?_
      show (if u128Add newTime _ < newTime then _ else _) = _
      rw [if_pos hover]
      rfl
    · obtain ⟨d₁, hrun₁, hsame₁⟩ : ∃ d₁, d.modifyWitness w.owner (fun v => .ok { v with
          virtualPosition := 0
          virtualLastUpdate := newTime
          virtualScheduledTime := u128Add newTime (virtualScheduleLapLength2 / u128 (w.votes + 1)) }) =
            .ok d₁ ∧ SameSeats d d₁ :=
        modifyWitness_seats (fun v => ⟨_, rfl, rfl⟩) ⟨_, hmet w List.mem_cons_self, rfl⟩
      have hnext : (do
          let time := u128Add newTime (← (.ok (virtualScheduleLapLength2 / u128 (w.votes + 1)) :
            Result Nat))
          if time < newTime then return none
          let d ← d.modifyWitness w.owner fun w => .ok { w with
            virtualPosition := 0
            virtualLastUpdate := newTime
            virtualScheduledTime := time }
          advanceMet newTime met d) = advanceMet newTime met d₁ := by
        show (if u128Add newTime _ < newTime then _ else _) = _
        rw [if_neg hover]
        show (d.modifyWitness w.owner _ >>= fun d => advanceMet newTime met d) = _
        rw [hrun₁]
        rfl
      rw [hnext]
      rcases ih (fun v hv => hsame₁.seats ▸ hmet v (List.mem_cons_of_mem _ hv))
        (fun v hv => hvotes v (List.mem_cons_of_mem _ hv)) with hnone | ⟨d', hrun, hsame⟩
      · exact .inl hnone
      · exact .inr ⟨d', hrun, hsame₁.trans hsame⟩

theorem resetVirtualScheduleTime_seats
    (hvotes : ∀ w ∈ d.witnesses.rows, u128 (w.votes + 1) ≠ 0) :
    ∃ d', d.resetVirtualScheduleTime = .ok d' ∧
      d'.witnesses.rows.map Witness.seat = d.witnesses.rows.map Witness.seat ∧
      d'.schedule = { d.schedule with currentVirtualTime := 0 } ∧ d'.hardforks = d.hardforks := by
  have hrows : ∀ l : List Witness, (∀ w ∈ l, u128 (w.votes + 1) ≠ 0) →
      ∃ l', l.mapM resetWitness = .ok l' ∧ l'.map Witness.seat = l.map Witness.seat := by
    intro l hl
    induction l with
    | nil => exact ⟨[], rfl, rfl⟩
    | cons w l ih =>
      obtain ⟨l', hrun, hseats⟩ := ih fun v hv => hl v (List.mem_cons_of_mem _ hv)
      have hreset : resetWitness w = .ok { w with
          virtualPosition := 0
          virtualLastUpdate := 0
          virtualScheduledTime := virtualScheduleLapLength2 / u128 (w.votes + 1) } := by
        unfold resetWitness u128Div
        rw [if_neg (hl w List.mem_cons_self)]
        rfl
      refine ⟨{ w with
        virtualPosition := 0
        virtualLastUpdate := 0
        virtualScheduledTime := virtualScheduleLapLength2 / u128 (w.votes + 1) } :: l', ?_, ?_⟩
      · rw [List.mapM_cons, hreset, ok_bind, hrun]
        rfl
      rw [List.map_cons, List.map_cons, hseats]
      rfl
  obtain ⟨l, hrun, hseats⟩ := hrows _ hvotes
  refine ⟨{ d with
    schedule := { d.schedule with currentVirtualTime := 0 }
    witnesses := { d.witnesses with rows := l } }, ?_, hseats, rfl, rfl⟩
  unfold resetVirtualScheduleTime
  rw [hrun]
  rfl

/-- The same witnesses, and the schedule but for its virtual time. -/
theorem advanceSchedule_seats {newTime : Nat} {met : List Witness}
    (hmet : ∀ w ∈ met, w.seat ∈ d.witnesses.rows.map Witness.seat)
    (hvotes : ∀ seat ∈ d.witnesses.rows.map Witness.seat, u128 (seat.2.2.2 + 1) ≠ 0) :
    ∃ d' time, d.advanceSchedule newTime met = .ok (d', time) ∧
      d'.witnesses.rows.map Witness.seat = d.witnesses.rows.map Witness.seat ∧
      (∃ t, d'.schedule = { d.schedule with currentVirtualTime := t }) ∧
      d'.hardforks = d.hardforks := by
  unfold advanceSchedule
  rcases advanceMet_seats hmet (fun w hw => hvotes _ (hmet w hw)) with hnone | ⟨d', hrun, hsame⟩
  · obtain ⟨d', hreset, hseats, hschedule, hhardforks⟩ := resetVirtualScheduleTime_seats
      fun w hw => hvotes _ (List.mem_map_of_mem hw)
    rw [hnone, ok_bind, hreset]
    exact ⟨d', 0, rfl, hseats, ⟨0, hschedule⟩, hhardforks⟩
  · rw [hrun]
    exact ⟨d', newTime, rfl, hsame.seats, ⟨_, hsame.schedule⟩, hsame.hardforks⟩

theorem scheduledWitnesses_some (h : ∀ name ∈ d.scheduledNames,
    ∃ seat ∈ d.witnesses.rows.map Witness.seat, seat.2.1 = name) :
    ∃ l, d.scheduledWitnesses = .ok l ∧ l.length = d.scheduledNames.length := by
  unfold scheduledWitnesses
  generalize d.scheduledNames = names at h ⊢
  induction names with
  | nil => exact ⟨[], rfl, rfl⟩
  | cons name names ih =>
    obtain ⟨l, hrun, hlength⟩ := ih fun n hn => h n (List.mem_cons_of_mem _ hn)
    obtain ⟨_, hseat, howner⟩ := h name List.mem_cons_self
    obtain ⟨w, hw, rfl⟩ := List.mem_map.1 hseat
    obtain ⟨x, hx⟩ : ∃ x, d.findWitness name = some x :=
      Option.isSome_iff_exists.1 (List.find?_isSome.2 ⟨w, hw, beq_iff_eq.2 howner⟩)
    have hget : d.getWitness name = .ok x := by
      unfold getWitness
      rw [hx]
      rfl
    refine ⟨x :: l, ?_, congrArg Nat.succ hlength⟩
    rw [List.mapM_cons, hget, ok_bind, hrun]
    rfl

theorem tallyVersions_seats {versions : Name → WitnessVersion} (h : ∀ name ∈ d.scheduledNames,
    ∃ seat ∈ d.witnesses.rows.map Witness.seat, seat.2.1 = name) :
    ∃ d' version, d.tallyVersions versions = .ok (d', version) ∧
      d'.witnesses = d.witnesses ∧ d'.schedule = d.schedule := by
  unfold tallyVersions
  by_cases h5 : d.hasHardfork 5
  · obtain ⟨l, hrun, -⟩ := scheduledWitnesses_some h
    rw [h5, hrun]
    exact ⟨_, _, rfl, rfl, rfl⟩
  · rw [Bool.eq_false_iff.2 h5]
    exact ⟨_, _, rfl, rfl, rfl⟩

theorem medianOn_some (key : Witness → Int) {l : List Witness} (hl : l ≠ []) :
    ∃ w, medianOn key l = .ok w := by
  have hpos : 0 < l.length := List.length_pos_of_ne_nil hl
  unfold medianOn
  obtain ⟨w, hw⟩ : ∃ w, (l.insertionSort fun a b => key a ≤ key b)[l.length / 2]? = some w := by
    refine ⟨_, List.getElem?_eq_getElem ?_⟩
    rw [List.length_insertionSort]
    omega
  rw [hw]
  exact ⟨w, rfl⟩

theorem updateMedianWitnessProps_some (hne : d.scheduledNames ≠ [])
    (h : ∀ name ∈ d.scheduledNames,
      ∃ seat ∈ d.witnesses.rows.map Witness.seat, seat.2.1 = name) :
    ∃ d' props, d.updateMedianWitnessProps = .ok d' ∧
      d'.schedule = { d.schedule with medianProps := props } := by
  obtain ⟨l, hrun, hlength⟩ := scheduledWitnesses_some h
  have hl : l ≠ [] := by
    rintro rfl
    exact hne (List.length_eq_zero_iff.1 hlength.symm)
  obtain ⟨w₁, h₁⟩ := medianOn_some (fun w => w.props.accountCreationFee.amount) hl
  obtain ⟨w₂, h₂⟩ := medianOn_some (fun w => w.props.maximumBlockSize) hl
  obtain ⟨w₃, h₃⟩ := medianOn_some (fun w => w.props.tsdInterestRate) hl
  unfold updateMedianWitnessProps
  rw [hrun, ok_bind, h₁, ok_bind, h₂, ok_bind, h₃, ok_bind]
  exact ⟨_, _, rfl, rfl⟩

/-! ### The witnesses selected -/

/-- The witnesses with a signing key. -/
def ready (d : Database) : List Witness := d.witnesses.rows.filter fun w => w.signingKey ≠ 0

/-- Distinct witnesses that have a signing key. -/
structure Selected (d : Database) (l : List Witness) : Prop where
  seats : ∀ w ∈ l, w.seat ∈ d.witnesses.rows.map Witness.seat
  keys : ∀ w ∈ l, w.signingKey ≠ 0
  distinct : (l.map (·.id)).Nodup

theorem canProduce_iff (h14 : d.hasHardfork 14) {w : Witness} :
    d.canProduce w = true ↔ w.signingKey ≠ 0 := by
  unfold canProduce
  simp [h14]

theorem seat_ids : (d.witnesses.rows.map Witness.seat).map (·.1) = d.witnesses.rows.map (·.id) := by
  rw [List.map_map]
  rfl

theorem Selected.ready {l : List Witness} (h : d.Selected l) :
    l.map (·.id) ⊆ d.ready.map (·.id) := by
  intro i hi
  obtain ⟨w, hw, rfl⟩ := List.mem_map.1 hi
  obtain ⟨v, hv, hseat⟩ := List.mem_map.1 (h.seats w hw)
  have hid : v.id = w.id := congrArg Prod.fst hseat
  have hkey : v.signingKey = w.signingKey := congrArg (fun seat => seat.2.2.1) hseat
  refine List.mem_map.2 ⟨v, List.mem_filter.2 ⟨hv, decide_eq_true ?_⟩, hid⟩
  rw [hkey]
  exact h.keys w hw

/-- The runners fill the round as far as there are witnesses with a key. -/
theorem selectRunners_selected (hids : (d.witnesses.rows.map (·.id)).Nodup) (h14 : d.hasHardfork 14)
    (hsame : SameSeats d d') {chosen : List Witness} (hchosen : d.Selected chosen)
    (hfew : chosen.length ≤ maxWitnesses) :
    d.Selected (chosen ++
      (d'.selectRunners (chosen.map (·.id)) d'.byScheduleTime chosen.length).2) ∧
    (chosen ++ (d'.selectRunners (chosen.map (·.id)) d'.byScheduleTime chosen.length).2).length =
      min maxWitnesses d.ready.length := by
  have hperm : d'.byScheduleTime.Perm d'.witnesses.rows := List.perm_insertionSort _ _
  have hproduce : ∀ w, d'.canProduce w = true ↔ w.signingKey ≠ 0 := fun w => by
    rw [hsame.canProduce]
    exact canProduce_iff h14
  rw [selectRunners_eq.1]
  obtain ⟨rest, hrest⟩ : ∃ rest, rest = d'.byScheduleTime.filter fun w =>
      d'.canProduce w ∧ w.id ∉ chosen.map (·.id) := ⟨_, rfl⟩
  rw [← hrest]
  have hmem : ∀ w ∈ rest, w ∈ d'.witnesses.rows ∧ w.signingKey ≠ 0 ∧ w.id ∉ chosen.map (·.id) := by
    intro w hw
    rw [hrest] at hw
    obtain ⟨hw, hfit⟩ := List.mem_filter.1 hw
    obtain ⟨hkey, hnot⟩ := of_decide_eq_true hfit
    exact ⟨hperm.subset hw, (hproduce w).1 hkey, hnot⟩
  have hids' : (d'.witnesses.rows.map (·.id)).Nodup := by
    rw [← seat_ids, hsame.seats, seat_ids]
    exact hids
  have hrestids : (rest.map (·.id)).Nodup := by
    rw [hrest]
    refine List.Nodup.sublist (List.Sublist.map _ List.filter_sublist) ?_
    exact (hperm.map _).nodup_iff.2 hids'
  constructor
  · refine ⟨?_, ?_, ?_⟩
    · intro w hw
      rcases List.mem_append.1 hw with hw | hw
      · exact hchosen.seats w hw
      · exact hsame.seat (hmem w (List.mem_of_mem_take hw)).1
    · intro w hw
      rcases List.mem_append.1 hw with hw | hw
      · exact hchosen.keys w hw
      · exact (hmem w (List.mem_of_mem_take hw)).2.1
    · rw [List.map_append, List.map_take]
      refine List.Nodup.append hchosen.distinct (hrestids.sublist (List.take_sublist _ _)) ?_
      intro i hi hi'
      obtain ⟨w, hw, rfl⟩ := List.mem_map.1 (List.mem_of_mem_take hi')
      exact (hmem w hw).2.2 hi
  · -- the witnesses with a key that are not chosen
    have hseats : d'.ready.map (·.id) = d.ready.map (·.id) := by
      have hready : ∀ e : Database, e.ready.map (·.id) =
          ((e.witnesses.rows.map Witness.seat).filter fun seat => seat.2.2.1 ≠ 0).map (·.1) := by
        intro e
        unfold ready
        rw [List.filter_map, List.map_map]
        rfl
      rw [hready, hready, hsame.seats]
    have hcount : rest.length = ((d.ready.map (·.id)).filter fun i => i ∉ chosen.map (·.id)).length := by
      rw [← hseats, List.filter_map, List.length_map, hrest]
      unfold ready
      rw [List.filter_filter]
      have hsort := (hperm.filter fun w => d'.canProduce w ∧ w.id ∉ chosen.map (·.id)).length_eq
      rw [hsort]
      congr 1
      refine List.filter_congr fun w _ => ?_
      have := hproduce w
      by_cases hkey : w.signingKey = 0 <;> simp_all [and_comm]
    have hreadyids : (d.ready.map (·.id)).Nodup := hids.sublist (List.filter_sublist.map _)
    have hsum := length_filter_not_mem hreadyids hchosen.distinct hchosen.ready
    rw [← hcount, List.length_map, List.length_map] at hsum
    rw [List.length_append, List.length_take]
    omega

theorem Selected.owners {l : List Witness} (hs : d.core.Sound) (h : d.Selected l) :
    (l.map (·.owner)).Nodup := by
  have howners : ((d.witnesses.rows.map Witness.seat).map (·.2.1)).Nodup := by
    have howners := hs.witnesses.owners
    unfold core at howners
    rw [List.map_map] at howners ⊢
    exact howners
  have hl : l.Nodup := List.Nodup.of_map _ h.distinct
  refine List.Nodup.map_on ?_ hl
  intro w hw v hv howner
  have hseat : w.seat = v.seat :=
    List.inj_on_of_nodup_map howners (h.seats w hw) (h.seats v hv) howner
  exact List.inj_on_of_nodup_map h.distinct hw hv (congrArg Prod.fst hseat)

theorem Selected.name {l : List Witness} (h : d.Selected l) {name : Name}
    (hname : name ∈ l.map (·.owner)) : ∃ seat ∈ d.witnesses.rows.map Witness.seat,
      seat.2.1 = name ∧ seat.2.2.1 ≠ 0 := by
  obtain ⟨w, hw, rfl⟩ := List.mem_map.1 hname
  exact ⟨w.seat, h.seats w hw, rfl, h.keys w hw⟩

/-- A full round of distinct witnesses with a signing key, or all of them where they are fewer; the
other entries are empty. -/
structure Round (d d' : Database) : Prop where
  count : d'.schedule.numScheduledWitnesses = min maxWitnesses d.ready.length
  length : d'.scheduledNames.length = d'.schedule.numScheduledWitnesses
  distinct : d'.scheduledNames.Nodup
  keys : ∀ name ∈ d'.scheduledNames, ∃ w ∈ d.witnesses.rows, w.owner = name ∧ w.signingKey ≠ 0
  rest : ∀ name ∈ d'.schedule.currentShuffledWitnesses.drop d'.schedule.numScheduledWitnesses,
    name = 0

theorem Round.congr (h : d.Round d')
    (hschedule : d''.schedule.currentShuffledWitnesses = d'.schedule.currentShuffledWitnesses)
    (hcount : d''.schedule.numScheduledWitnesses = d'.schedule.numScheduledWitnesses) :
    d.Round d'' := by
  have hnames : d''.scheduledNames = d'.scheduledNames := by
    unfold scheduledNames
    rw [hschedule, hcount]
  refine ⟨hcount ▸ h.count, ?_, hnames ▸ h.distinct, hnames ▸ h.keys, ?_⟩
  · rw [hnames, hcount]
    exact h.length
  · rw [hschedule, hcount]
    exact h.rest

/-- The schedule made of the witnesses selected. -/
theorem fillSchedule_round (hs : d.core.Sound) {active : List Witness} (h : d.Selected active)
    (hlength : active.length = min maxWitnesses d.ready.length) (hready : d.ready ≠ [])
    (hfill : d'.schedule.currentShuffledWitnesses =
        (d''.fillSchedule (active.map (·.owner))).currentShuffledWitnesses ∧
      d'.schedule.numScheduledWitnesses =
        (d''.fillSchedule (active.map (·.owner))).numScheduledWitnesses) : d.Round d' := by
  obtain ⟨hschedule, hcount⟩ := hfill
  have hpos : 0 < d.ready.length := List.length_pos_of_ne_nil hready
  have hmax : maxWitnesses = 50 := rfl
  have hnum : (d''.fillSchedule (active.map (·.owner))).numScheduledWitnesses = active.length := by
    show max ((active.map (·.owner)).length % 256) 1 = active.length
    rw [List.length_map]
    omega
  have hentries : ((d''.fillSchedule (active.map (·.owner))).currentShuffledWitnesses.take
        active.length).Perm (active.map (·.owner)) ∧
      (d''.fillSchedule (active.map (·.owner))).currentShuffledWitnesses.drop active.length =
        List.replicate (maxWitnesses - active.length) 0 := by
    have hlen : (active.map fun w => w.owner).length = active.length := List.length_map _
    have hfits : active.length ≤
        ((active.map fun w : Witness => w.owner) ++
          List.replicate (maxWitnesses - active.length) 0).length := by
      rw [List.length_append, hlen]
      exact Nat.le_add_right _ _
    have hspec := shuffle_spec d''.headBlockTime hfits
    rw [List.take_left' hlen, List.drop_left' hlen] at hspec
    have hsame : (d''.fillSchedule (active.map (·.owner))).currentShuffledWitnesses =
        shuffle d''.headBlockTime active.length
          (active.map (·.owner) ++ List.replicate (maxWitnesses - active.length) 0) := by
      have hmax : max ((active.map (·.owner)).length % 256) 1 = active.length := hnum
      show shuffle d''.headBlockTime (max ((active.map (·.owner)).length % 256) 1)
        (active.map (·.owner) ++ List.replicate (maxWitnesses - (active.map (·.owner)).length) 0) = _
      rw [hmax, hlen]
    rw [hsame]
    exact hspec
  rw [hnum] at hcount
  have hnames : d'.scheduledNames.Perm (active.map (·.owner)) := by
    unfold scheduledNames
    rw [hschedule, hcount]
    exact hentries.1
  refine ⟨hcount.trans hlength, ?_, hnames.nodup_iff.2 (h.owners hs), ?_, ?_⟩
  · rw [hnames.length_eq, hcount, List.length_map]
  · intro name hname
    obtain ⟨_, hseat, rfl, hkey⟩ := h.name (hnames.subset hname)
    obtain ⟨w, hw, rfl⟩ := List.mem_map.1 hseat
    exact ⟨w, hw, rfl, hkey⟩
  · intro name hname
    rw [hschedule, hcount, hentries.2] at hname
    exact List.eq_of_mem_replicate hname

/- The witnesses elected, as far as they can produce. -/
def votedWitnesses (d : Database) : List Witness :=
  (d.byVoteName.filter d.canProduce).take d.schedule.maxVotedWitnesses

theorem votedWitnesses_selected (hids : (d.witnesses.rows.map (·.id)).Nodup)
    (h14 : d.hasHardfork 14) :
    d.Selected d.votedWitnesses ∧ d.votedWitnesses.length ≤ d.schedule.maxVotedWitnesses := by
  have hperm : d.byVoteName.Perm d.witnesses.rows := List.perm_insertionSort _ _
  have hmem : ∀ w ∈ d.votedWitnesses, w ∈ d.witnesses.rows ∧ w.signingKey ≠ 0 := by
    intro w hw
    obtain ⟨hw, hkey⟩ := List.mem_filter.1 (List.mem_of_mem_take hw)
    exact ⟨hperm.subset hw, (canProduce_iff h14).1 hkey⟩
  refine ⟨⟨fun w hw => List.mem_map_of_mem (hmem w hw).1, fun w hw => (hmem w hw).2, ?_⟩,
    List.length_take_le _ _⟩
  have hsub : (d.votedWitnesses.map (·.id)).Sublist (d.byVoteName.map (·.id)) :=
    ((List.take_sublist _ _).trans List.filter_sublist).map _
  exact List.Nodup.sublist hsub ((hperm.map _).nodup_iff.2 hids)

/-- The miners of the queue come on top of the witnesses elected. -/
theorem selectMiners_selected (hids : (d.witnesses.rows.map (·.id)).Nodup) (h14 : d.hasHardfork 14)
    {voted : List Witness} (hvoted : d.Selected voted) (hsame₁ : SameSeats d d') :
    ∃ d₂ miners, selectMiners voted d'.byPow d' [] = .ok (d₂, miners) ∧ SameSeats d d₂ ∧
      d.Selected (voted ++ miners) ∧ miners.length ≤ d.schedule.maxMinerWitnesses := by
  have hqueue : ∀ m ∈ d'.byPow, m ∈ d'.witnesses.rows :=
    fun m hm => (List.mem_filter.1 ((List.perm_insertionSort _ _).subset hm)).1
  obtain ⟨d₂, miners, hrun, hsame₂, hminers, hlength⟩ : ∃ d₂ miners,
      selectMiners voted d'.byPow d' [] = .ok (d₂, [] ++ miners) ∧ SameSeats d' d₂ ∧ _ ∧ _ :=
    selectMiners_seats fun m hm => List.mem_map_of_mem (hqueue m hm)
  have hmem : ∀ m ∈ miners, m.seat ∈ d.witnesses.rows.map Witness.seat ∧ m.signingKey ≠ 0 ∧
      m.id ∉ voted.map (·.id) := by
    intro m hm
    obtain ⟨hm, hfit⟩ := List.mem_filter.1 (hminers.subset hm)
    obtain ⟨hnot, hkey⟩ := of_decide_eq_true hfit
    rw [hsame₁.canProduce, canProduce_iff h14] at hkey
    exact ⟨hsame₁.seat (hqueue m hm), hkey, hnot⟩
  have hrows : (d'.witnesses.rows.map (·.id)).Nodup := by
    rw [← seat_ids, hsame₁.seats, seat_ids]
    exact hids
  have hminerids : (miners.map (·.id)).Nodup := by
    have hpow : (d'.byPow.map (·.id)).Nodup := by
      refine (List.Perm.nodup_iff ((List.perm_insertionSort _ _).map _)).2 ?_
      exact hrows.sublist (List.filter_sublist.map _)
    exact hpow.sublist ((hminers.trans List.filter_sublist).map _)
  refine ⟨d₂, miners, hrun, hsame₁.trans hsame₂, ⟨?_, ?_, ?_⟩, ?_⟩
  · intro w hw
    rcases List.mem_append.1 hw with hw | hw
    · exact hvoted.seats w hw
    · exact (hmem w hw).1
  · intro w hw
    rcases List.mem_append.1 hw with hw | hw
    · exact hvoted.keys w hw
    · exact (hmem w hw).2.1
  · rw [List.map_append]
    refine List.Nodup.append hvoted.distinct hminerids ?_
    intro i hi hi'
    obtain ⟨m, hm, rfl⟩ := List.mem_map.1 hi'
    exact (hmem m hm).2.2 hi
  · rw [hsame₁.schedule] at hlength
    simpa using hlength

/-- The selection of a round: distinct witnesses with a key, as many as fit. -/
theorem selectRound (hs : d.core.Sound) (h14 : d.hasHardfork 14) :
    ∃ d₁ d₂ d₃ miners met runners,
      d.setSchedule .top19 (d.votedWitnesses.map (·.owner)) = .ok d₁ ∧
      selectMiners d.votedWitnesses d₁.byPow d₁ [] = .ok (d₂, miners) ∧
      d₂.selectRunners ((d.votedWitnesses ++ miners).map (·.id)) d₂.byScheduleTime
        ((d.votedWitnesses ++ miners).map (·.id)).length = (met, runners) ∧
      d₂.setSchedule .timeshare (runners.map (·.owner)) = .ok d₃ ∧ SameSeats d d₃ ∧
      (∀ w ∈ met, w.seat ∈ d₃.witnesses.rows.map Witness.seat) ∧
      d.Selected (d.votedWitnesses ++ miners ++ runners) ∧
      (d.votedWitnesses ++ miners ++ runners).length = min maxWitnesses d.ready.length := by
  have hids : (d.witnesses.rows.map (·.id)).Nodup := by
    have hids := hs.witnesses.ids
    unfold core at hids
    rw [List.map_map] at hids
    exact hids
  have hfull : d.schedule.maxVotedWitnesses + d.schedule.maxMinerWitnesses +
      d.schedule.maxRunnerWitnesses = maxWitnesses := hs.full
  obtain ⟨hvoted, hvotedlength⟩ := votedWitnesses_selected hids h14
  obtain ⟨d₁, hrun₁, hsame₁⟩ : ∃ d₁, d.setSchedule .top19 (d.votedWitnesses.map (·.owner)) = .ok d₁ ∧
      SameSeats d d₁ := setSchedule_seats fun name hname => by
    obtain ⟨seat, hseat, howner, -⟩ := hvoted.name hname
    exact ⟨seat, hseat, howner⟩
  obtain ⟨d₂, miners, hrun₂, hsame₂, hchosen, hminers⟩ :=
    selectMiners_selected hids h14 hvoted hsame₁
  have hfew : (d.votedWitnesses ++ miners).length ≤ maxWitnesses := by
    rw [List.length_append]
    omega
  obtain ⟨hselected, hlength⟩ := selectRunners_selected hids h14 hsame₂ hchosen hfew
  have hchosenlength : ((d.votedWitnesses ++ miners).map fun w : Witness => w.id).length =
      (d.votedWitnesses ++ miners).length := List.length_map _
  rw [← hchosenlength] at hselected hlength
  obtain ⟨met, runners, hrunners⟩ : ∃ met runners,
      d₂.selectRunners ((d.votedWitnesses ++ miners).map (·.id)) d₂.byScheduleTime
        ((d.votedWitnesses ++ miners).map (·.id)).length = (met, runners) := ⟨_, _, rfl⟩
  have hmetsub : (d₂.selectRunners ((d.votedWitnesses ++ miners).map (·.id)) d₂.byScheduleTime
      ((d.votedWitnesses ++ miners).map (·.id)).length).1 ⊆ d₂.byScheduleTime := selectRunners_eq.2
  rw [hrunners] at hselected hlength hmetsub
  dsimp only at hselected hlength hmetsub
  obtain ⟨d₃, hrun₃, hsame₃⟩ : ∃ d₃, d₂.setSchedule .timeshare (runners.map (·.owner)) = .ok d₃ ∧
      SameSeats d₂ d₃ := setSchedule_seats fun name hname => by
    obtain ⟨w, hw, rfl⟩ := List.mem_map.1 hname
    rw [hsame₂.seats]
    exact ⟨w.seat, hselected.seats w (List.mem_append_right _ hw), rfl⟩
  refine ⟨d₁, d₂, d₃, miners, met, runners, hrun₁, hrun₂, hrunners, hrun₃, hsame₂.trans hsame₃, ?_,
    hselected, hlength⟩
  intro w hw
  rw [hsame₃.seats]
  exact List.mem_map_of_mem ((List.perm_insertionSort _ _).subset (hmetsub hw))

/-- Enough witnesses have a key to fill a round, or all of them have one. -/
def FillsRound (d : Database) : Prop :=
  maxWitnesses ≤ d.ready.length ∨ ∀ w ∈ d.witnesses.rows, w.signingKey ≠ 0

theorem fillsRound_iff :
    d.FillsRound ↔ min maxWitnesses d.ready.length = min maxWitnesses d.witnesses.rows.length := by
  have hle : d.ready.length ≤ d.witnesses.rows.length := List.length_filter_le _ _
  have hall : d.ready.length = d.witnesses.rows.length ↔ ∀ w ∈ d.witnesses.rows, w.signingKey ≠ 0 := by
    unfold ready
    rw [List.length_filter_eq_length_iff]
    simp only [decide_eq_true_eq]
  unfold FillsRound
  rw [← hall]
  omega

/-- The assertion of a round fails where the witnesses with a key are too few. -/
theorem updateWitnessSchedule4_fillsRound {versions : Name → WitnessVersion} (hs : d.core.Sound)
    (h14 : d.hasHardfork 14) (h : d.updateWitnessSchedule4 versions = .ok d') : d.FillsRound := by
  obtain ⟨d₁, d₂, d₃, miners, met, runners, hrun₁, hrun₂, hrunners, hrun₃, hsame, hmet, hselected,
    hlength⟩ := selectRound hs h14
  have hvoted : (d.byVoteName.filter d.canProduce).take d.schedule.maxVotedWitnesses =
      d.votedWitnesses := rfl
  unfold updateWitnessSchedule4 at h
  dsimp only at h
  rw [hvoted, hrun₁, ok_bind, hrun₂, ok_bind] at h
  dsimp only at h
  rw [hrunners, hrun₃, ok_bind] at h
  obtain ⟨⟨d₄, time⟩, hrun₄, h⟩ := bind_ok.1 h
  obtain ⟨_, hcount, -⟩ := bind_ok.1 h
  have hcount : ((d.votedWitnesses ++ miners ++ runners).map fun w : Witness => w.owner).length =
      min maxWitnesses d₄.witnesses.rows.length := require_ok hcount
  have hkeys : d₄.core.witnesses = d₃.core.witnesses :=
    congrArg Core.witnesses (of_triple advanceSchedule_core trivial hrun₄)
  have hrows₄ : d₄.witnesses.rows.length = d₃.witnesses.rows.length := by
    have hrows := congrArg List.length hkeys
    unfold core at hrows
    rwa [List.length_map, List.length_map] at hrows
  have hrows₃ : d₃.witnesses.rows.length = d.witnesses.rows.length := by
    have hrows := congrArg List.length hsame.seats
    rwa [List.length_map, List.length_map] at hrows
  rw [List.length_map, hlength, hrows₄, hrows₃] at hcount
  exact fillsRound_iff.2 hcount

/-- Where they are not, a round is scheduled, unless its lap is divided by zero. -/
theorem updateWitnessSchedule4_round (versions : Name → WitnessVersion) (hs : d.core.Sound)
    (h14 : d.hasHardfork 14) (hready : d.ready ≠ []) (hfills : d.FillsRound)
    (hvotes : ∀ w ∈ d.witnesses.rows, u128 (w.votes + 1) ≠ 0) :
    ∃ d', d.updateWitnessSchedule4 versions = .ok d' ∧ d.Round d' := by
  have hseats : ∀ seat ∈ d.witnesses.rows.map Witness.seat, u128 (seat.2.2.2 + 1) ≠ 0 := by
    intro seat hseat
    obtain ⟨w, hw, rfl⟩ := List.mem_map.1 hseat
    exact hvotes w hw
  obtain ⟨d₁, d₂, d₃, miners, met, runners, hrun₁, hrun₂, hrunners, hrun₃, hsame, hmet, hselected,
    hlength⟩ := selectRound hs h14
  obtain ⟨d₄, time, hrun₄, hseats₄, ⟨t, hschedule₄⟩, -⟩ : ∃ d₄ time,
      d₃.advanceSchedule ((met.getLast?.map (·.virtualScheduledTime)).getD
        d₂.schedule.currentVirtualTime) met = .ok (d₄, time) ∧ _ ∧ _ ∧ _ :=
    advanceSchedule_seats hmet (by rw [hsame.seats]; exact hseats)
  rw [hsame.seats] at hseats₄
  rw [hsame.schedule] at hschedule₄
  have hrows : d₄.witnesses.rows.length = d.witnesses.rows.length := by
    have hrows := congrArg List.length hseats₄
    rwa [List.length_map, List.length_map] at hrows
  -- the tally reads the outgoing schedule
  have hscheduled : ∀ name ∈ d₄.scheduledNames,
      ∃ seat ∈ d₄.witnesses.rows.map Witness.seat, seat.2.1 = name := by
    intro name hname
    rw [hseats₄]
    unfold scheduledNames at hname
    rw [hschedule₄] at hname
    have howner : name ∈ d.core.owners := hs.scheduled hname
    unfold Core.owners core at howner
    rw [List.map_map] at howner
    obtain ⟨w, hw, rfl⟩ := List.mem_map.1 howner
    exact ⟨w.seat, List.mem_map_of_mem hw, rfl⟩
  obtain ⟨d₅, version, hrun₅, hwitnesses₅, -⟩ : ∃ d₅ version,
      d₄.tallyVersions versions = .ok (d₅, version) ∧ d₅.witnesses = d₄.witnesses ∧ _ :=
    tallyVersions_seats hscheduled
  obtain ⟨active, hactive⟩ : ∃ active, active = d.votedWitnesses ++ miners ++ runners := ⟨_, rfl⟩
  rw [← hactive] at hselected hlength
  obtain ⟨d₆, hd₆⟩ : ∃ d₆ : Database, d₆ = { d₅ with schedule :=
    { d₅.fillSchedule (active.map (·.owner)) with
      witnessPayNormalizationFactor := d₅.schedule.top19Weight * d.votedWitnesses.length +
        d₅.schedule.minerWeight * miners.length + d₅.schedule.timeshareWeight * runners.length
      currentVirtualTime := time
      majorityVersion := version } } := ⟨_, rfl⟩
  have hfill : d₆.schedule.currentShuffledWitnesses =
      (d₅.fillSchedule (active.map (·.owner))).currentShuffledWitnesses ∧
    d₆.schedule.numScheduledWitnesses =
      (d₅.fillSchedule (active.map (·.owner))).numScheduledWitnesses := by
    rw [hd₆]
    exact ⟨rfl, rfl⟩
  have hround₆ : d.Round d₆ := fillSchedule_round hs hselected hlength hready hfill
  -- the median is that of the new one
  have hnames₆ : ∀ name ∈ d₆.scheduledNames,
      ∃ seat ∈ d₆.witnesses.rows.map Witness.seat, seat.2.1 = name := by
    intro name hname
    obtain ⟨w, hw, howner, -⟩ := hround₆.keys name hname
    have hwitnesses₆ : d₆.witnesses = d₄.witnesses := by rw [hd₆, ← hwitnesses₅]
    rw [hwitnesses₆, hseats₄]
    exact ⟨w.seat, List.mem_map_of_mem hw, howner⟩
  have hne₆ : d₆.scheduledNames ≠ [] := by
    have hpos : 0 < d.ready.length := List.length_pos_of_ne_nil hready
    have hmax : maxWitnesses = 50 := rfl
    refine List.ne_nil_of_length_pos ?_
    rw [hround₆.length, hround₆.count]
    omega
  obtain ⟨d', props, hrun', hschedule'⟩ := updateMedianWitnessProps_some hne₆ hnames₆
  refine ⟨d', ?_, hround₆.congr (by rw [hschedule']) (by rw [hschedule'])⟩
  have hvoted : (d.byVoteName.filter d.canProduce).take d.schedule.maxVotedWitnesses =
      d.votedWitnesses := rfl
  have hcount : require ((active.map fun w : Witness => w.owner).length =
      min maxWitnesses d₄.witnesses.rows.length)
        "number of active witnesses does not equal expected_active_witnesses" = .ok () := by
    rw [require_eq_ok, List.length_map, hlength, hrows]
    exact fillsRound_iff.1 hfills
  unfold updateWitnessSchedule4
  dsimp only
  rw [hvoted, hrun₁, ok_bind, hrun₂, ok_bind]
  dsimp only
  rw [hrunners, hrun₃, ok_bind, hrun₄, ok_bind]
  dsimp only
  rw [← hactive, hcount, ok_bind, hrun₅, ok_bind]
  dsimp only
  rw [← hd₆, hrun']

end Database

namespace ChainState

variable {env : Env} {d : Database} {versions : Name → WitnessVersion}

/-- What the schedule is updated on: a state reached, or what a block has made of one by then. -/
inductive Scheduling (env : Env) : Database → (Name → WitnessVersion) → Prop where
  | reached {s : ChainState} (h : Reachable env s) : Scheduling env s.db s.versions
  | block {s s₁ s₂ : ChainState} {b : Block} {d₁ d₂ d₃ d₄ d₅ : Database} (h : Reachable env s)
    (hstart : s.startBlock env .nothing b = .ok s₁)
    (htransactions : b.transactions.foldlM (applyTransaction env .nothing) s₁ = .ok s₂)
    (h₁ : s₂.db.updateGlobalDynamicData env .nothing b = .ok d₁)
    (h₂ : d₁.updateSigningWitness b = .ok d₂)
    (h₃ : d₂.updateLastIrreversibleBlock = .ok d₃)
    (h₄ : (d₃.createBlockSummary env b).clearExpiredOrders = .ok d₄)
    (h₅ : d₄.clearExpiredDelegations = .ok d₅) : Scheduling env d₅ s₂.versions

theorem Scheduling.sound (h : Scheduling env d versions) : d.core.Sound := by
  cases h with
  | reached h => exact h.sound
  | @block s s₁ s₂ b d₁ d₂ d₃ d₄ d₅ h hstart htransactions h₁ h₂ h₃ h₄ h₅ =>
    have hs : s₁.db.core.Sound := (startBlock_keeps hstart).1 ▸ h.sound
    have hs₀ : s₂.db.core.Sound := by
      refine run_induction (P := fun _ e => e.db.core.Sound) htransactions hs ?_
      intro _ e t e' he _ ht
      exact applyTransaction_sound rfl he ht
    have hs₁ : d₁.core.Sound :=
      hs₀.congr (by rw [of_triple Database.updateGlobalDynamicData_core trivial h₁])
    have hs₂ : d₂.core.Sound := Database.updateSigningWitness_sound hs₁ h₂
    have hs₃ : d₃.core.Sound :=
      hs₂.congr (by rw [of_triple Database.updateLastIrreversibleBlock_core trivial h₃])
    have hsummary : (d₃.createBlockSummary env b).core.Sound := hs₃
    have hs₄ : d₄.core.Sound :=
      hsummary.congr (by rw [of_triple Database.clearExpiredOrders_core trivial h₄])
    exact hs₄.congr (by rw [of_triple Database.clearExpiredDelegations_core trivial h₅])

/-- Since hardfork 14 a schedule is made only where enough witnesses have a key, and then a full
round is, unless a witness has the votes that its lap cannot be divided by. -/
theorem Scheduling.round_made (h : Scheduling env d versions) (h14 : d.hasHardfork 14)
    (hready : ∃ w ∈ d.witnesses.rows, w.signingKey ≠ 0) :
    ((∃ d', d.updateWitnessSchedule4 versions = .ok d') → d.FillsRound) ∧
    (d.FillsRound → (∀ w ∈ d.witnesses.rows, u128 (w.votes + 1) ≠ 0) →
      ∃ d', d.updateWitnessSchedule4 versions = .ok d' ∧ d.Round d') := by
  have hne : d.ready ≠ [] := by
    obtain ⟨w, hw, hkey⟩ := hready
    exact List.ne_nil_of_mem (List.mem_filter.2 ⟨hw, decide_eq_true hkey⟩)
  constructor
  · rintro ⟨d', hrun⟩
    exact Database.updateWitnessSchedule4_fillsRound h.sound h14 hrun
  · intro hfills hvotes
    exact Database.updateWitnessSchedule4_round versions h.sound h14 hne hfills hvotes

end ChainState

/-- After two rounds of votes for the hardforks every witness has its key, and no votes. -/
theorem round_made_genesis : ∃ s : ChainState, s.db.hasHardfork 14 ∧
    ∃ d', s.db.updateWitnessSchedule4 s.versions = .ok d' ∧ s.db.Round d' := by
  have h : ((List.replicate 101 []).foldlM (ChainState.produce demoVote)
      (ChainState.initGenesis initSupply)).map (fun s => (s.db.hasHardfork 14,
        decide (∃ w ∈ s.db.witnesses.rows, w.signingKey ≠ 0),
        decide (∀ w ∈ s.db.witnesses.rows, w.signingKey ≠ 0),
        decide (∀ w ∈ s.db.witnesses.rows, u128 (w.votes + 1) ≠ 0))) =
      .ok (true, true, true, true) := by
    decide +kernel
  obtain ⟨s, hrun, hs⟩ := map_ok.1 h
  obtain ⟨h14, hs⟩ := Prod.mk.inj hs
  obtain ⟨hready, hs⟩ := Prod.mk.inj hs
  obtain ⟨hkeys, hvotes⟩ := Prod.mk.inj hs
  have hreached : ChainState.Scheduling .plain s.db s.versions := .reached (.produce .genesis hrun)
  exact ⟨s, h14, (hreached.round_made h14 (of_decide_eq_true hready)).2
    (.inr (of_decide_eq_true hkeys)) (of_decide_eq_true hvotes)⟩

/- A genesis witness disables its key. -/
def demoDisable : Transaction where
  refBlockNum := 0
  refBlockPrefix := 0
  expiration := genesisTime + 600
  operations := [.witnessUpdate {
    owner := Database.genesisAccountName 7
    url := { size := 1 }
    blockSigningKey := 0
    props := {}
    fee := .coin 0 }]
  signatures := [initPublicKey]

/-- The fifty genesis witnesses are scheduled in every round; without the key of one of them there
is no schedule. -/
theorem round_halts : ∃ s : ChainState, ChainState.Reachable .plain s ∧
    s.db.hasHardfork 14 ∧ s.db.ready.length = 49 ∧ s.db.witnesses.rows.length = 50 ∧
    s.db.updateWitnessSchedule4 s.versions = .error (.assertion
      "number of active witnesses does not equal expected_active_witnesses") := by
  have h : ((List.replicate 101 [] ++ [[demoDisable]]).foldlM (ChainState.produce demoVote)
      (ChainState.initGenesis initSupply)).map (fun s : ChainState => (s.db.hasHardfork 14,
        s.db.ready.length, s.db.witnesses.rows.length,
        match s.db.updateWitnessSchedule4 s.versions with
        | Except.error (.assertion text) => some text
        | _ => none)) =
      .ok (true, 49, 50,
        some "number of active witnesses does not equal expected_active_witnesses") := by
    decide +kernel
  obtain ⟨s, hrun, hs⟩ := map_ok.1 h
  obtain ⟨h14, hs⟩ := Prod.mk.inj hs
  obtain ⟨hready, hs⟩ := Prod.mk.inj hs
  obtain ⟨hrows, htext⟩ := Prod.mk.inj hs
  refine ⟨s, .produce .genesis hrun, h14, hready, hrows, ?_⟩
  split at htext
  · rename_i text hfail
    cases htext
    exact hfail
  · cases htext

end WeNode.Chain
