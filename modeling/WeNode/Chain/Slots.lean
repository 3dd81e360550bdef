import WeNode.Chain.Duplicates
import WeNode.Lib.ShiftRegister

/-!
# The record of the slots

Every block moves the chain on to the slot it fills, and 128 bits record which of the last slots
were filled.  The bits of the slots a block skips are pushed after the bit of the block.
-/

namespace WeNode.Chain

open WeNode.Lib

/- The slots since the genesis, the slot of the genesis being 0. -/
def slotOf (t : Time) : Nat := (t - genesisTime) / blockInterval

def slotsOf (bs : List Block) : List Nat := bs.map fun b => slotOf b.timestamp

def lastSlot (bs : List Block) : Nat := (slotsOf bs).getLast?.getD 0

def missedSlots (bs : List Block) (last : Nat) : Finset Nat :=
  (Finset.Icc 1 last).filter (· ∉ slotsOf bs)

/-- What the properties of the chain say about the slots that the blocks applied have filled. -/
structure SlotsAccounted (bs : List Block) (g : GlobalProperties) : Prop where
  aslot : g.currentAslot = slotOf g.time
  number : g.currentAslot = g.headBlockNumber + (missedSlots bs g.currentAslot).card
  participation : g.participationCount = ShiftRegister.ones 128 g.recentSlotsFilled
  filled : ∀ k < 128, k < g.currentAslot →
    (g.recentSlotsFilled.testBit k = true ↔ g.currentAslot - k ∈ slotsOf bs)

/-! ### One block -/

section

variable {g : GlobalProperties} {i m : Nat}

theorem fillSlot_recentSlotsFilled :
    (Database.fillSlot g i).recentSlotsFilled =
      ShiftRegister.push 128 g.recentSlotsFilled (i == 0) := by
  cases i <;> rfl

/-- The record has 128 bits, and the participation counts those that are set. -/
structure GlobalProperties.Counted (g : GlobalProperties) : Prop where
  small : g.recentSlotsFilled < 2 ^ 128
  count : g.participationCount = ShiftRegister.ones 128 g.recentSlotsFilled

theorem fillSlot_counted (hg : g.Counted) (i : Nat) : (Database.fillSlot g i).Counted := by
  have hbit : (i == 0).toNat = if i = 0 then 1 else 0 := by cases i <;> rfl
  have hpush : ShiftRegister.ones 128 (ShiftRegister.push 128 g.recentSlotsFilled (i == 0)) +
      g.recentSlotsFilled / 2 ^ 127 =
        ShiftRegister.ones 128 g.recentSlotsFilled + if i = 0 then 1 else 0 :=
    hbit ▸ ShiftRegister.ones_push hg.small
  have hnew := ShiftRegister.ones_le (w := 128)
    (n := ShiftRegister.push 128 g.recentSlotsFilled (i == 0))
  have htop : g.recentSlotsFilled / 2 ^ 127 ≤ 1 := by
    have hsmall := hg.small
    omega
  constructor
  · rw [fillSlot_recentSlotsFilled]
    exact ShiftRegister.push_lt
  · rw [fillSlot_recentSlotsFilled]
    simp only [Database.fillSlot]
    rw [hg.count]
    generalize (if i = 0 then 1 else 0) = b at hpush ⊢
    generalize g.recentSlotsFilled / 2 ^ 127 = top at hpush htop ⊢
    omega

theorem fillSlots_counted (hg : g.Counted) (l : List Nat) :
    (l.foldl Database.fillSlot g).Counted := by
  induction l generalizing g with
  | nil => exact hg
  | cons i l ih => exact ih (fillSlot_counted hg i)

/-- The bit of the block is the first that is pushed, so that it ends up where the first of the
missed slots belongs. -/
theorem fillSlots_testBit {k : Nat} (hk : k < 128) :
    ((List.range (m + 1)).foldl Database.fillSlot g).recentSlotsFilled.testBit k =
      if k < m then false else if k = m then true
      else g.recentSlotsFilled.testBit (k - m - 1) := by
  induction m generalizing k with
  | zero =>
    have hone : (List.range (0 + 1)).foldl Database.fillSlot g = Database.fillSlot g 0 := rfl
    rw [hone, fillSlot_recentSlotsFilled]
    cases k with
    | zero => exact ShiftRegister.testBit_push_zero (by decide)
    | succ k => simpa using ShiftRegister.testBit_push_succ hk
  | succ m ih =>
    rw [List.range_succ, List.foldl_append, List.foldl_cons, List.foldl_nil,
      fillSlot_recentSlotsFilled]
    cases k with
    | zero =>
      rw [ShiftRegister.testBit_push_zero (by decide : 0 < 128)]
      simp
    | succ k =>
      rw [ShiftRegister.testBit_push_succ hk, ih (Nat.lt_of_succ_lt hk)]
      simp only [Nat.succ_lt_succ_iff, Nat.add_right_cancel_iff, Nat.add_sub_add_right]

theorem fillSlots_currentAslot (l : List Nat) :
    (l.foldl Database.fillSlot g).currentAslot = g.currentAslot := by
  induction l generalizing g with
  | nil => rfl
  | cons i l ih => exact ih

end

namespace Database

variable {d : Database} {t : Time}

theorem getSlotAtTime_eq (hlater : d.headBlockTime < t) (ht : t < two32) :
    d.getSlotAtTime t = t - d.headBlockTime := by
  have hfirst : d.getSlotTime 1 = d.headBlockTime + 1 := by
    have hmod : (d.headBlockTime + 1) % two32 = d.headBlockTime + 1 :=
      Nat.mod_eq_of_lt (Nat.lt_of_le_of_lt hlater ht)
    unfold getSlotTime
    split
    · contradiction
    · split <;> simpa [timeAdd, blockInterval, headBlockTime] using hmod
  unfold getSlotAtTime
  simp only [hfirst]
  rw [if_neg (Nat.not_lt.2 hlater)]
  unfold blockInterval
  rw [Nat.div_one, Nat.sub_add_eq, Nat.sub_add_cancel (Nat.sub_pos_of_lt hlater)]

end Database

/-! ### Runs -/

namespace ChainState

variable {env : Env} {skip : Skip} {s s' : ChainState} {b : Block} {bs : List Block}

theorem applyBlock_slots (hn : Numbered s) (ht : b.timestamp < two32)
    (h : s.applyBlock env skip b = .ok s') :
    ∃ g : GlobalProperties, g.slots = s.db.gpo.slots ∧
      let missed := b.timestamp - s.db.headBlockTime - 1
      let g' := (List.range (missed + 1)).foldl Database.fillSlot g
      s'.db.gpo.currentAslot = (g.currentAslot + missed + 1) % two64 ∧
        s'.db.gpo.recentSlotsFilled = g'.recentSlotsFilled ∧
        s'.db.gpo.participationCount = g'.participationCount := by
  obtain ⟨s₁, s₂, h₁, h₂, h₃⟩ := applyBlock_ok.1 h
  obtain ⟨hc, -, -⟩ := startBlock_ok.1 h₁
  obtain ⟨-, hlater, -⟩ := Database.validateBlockHeader_ok.1 (checkBlock_ok.1 hc).2.1
  have hdb : s₁.db = s.db := (startBlock_keeps h₁).1
  have hhead : s₂.db.headBlockTime = s.db.headBlockTime := hdb ▸ (applyTransactions_head h₂).1
  have hslots : s₂.db.gpo.slots = s.db.gpo.slots := by
    refine applyTransactions_induction (P := fun d => d.gpo.slots = s.db.gpo.slots) h₂
      (by rw [hdb]) ?_
    intro w d o d' hd ho
    exact (congrArg Core.slots (of_triple applyOperation_core trivial ho)).trans hd
  obtain ⟨d₁, d₂, d₃, d₄, hd₁, hd₂, hd₃, hd₄, rfl⟩ := finishBlock_ok.1 h₃
  have hkeeps : d₄.gpo.slots = d₁.gpo.slots := by
    have c₂ := of_triple Database.updateSigningWitness_core trivial hd₂
    have c₃ := of_triple Database.updateLastIrreversibleBlock_core trivial hd₃
    have c₄ := of_triple Database.endBlock_core trivial hd₄
    exact (congrArg Core.slots c₄).trans ((congrArg Core.slots c₃).trans (congrArg Core.slots c₂))
  obtain ⟨-, d₀, hmiss, rfl⟩ := Database.updateGlobalDynamicData_ok.1 hd₁
  have hsame : d₀.core = s₂.db.core := by
    refine run_induction (P := fun _ e => e.core = s₂.db.core) hmiss rfl ?_
    intro _ e i e' he _ hi
    exact (of_triple Database.missSlot_core trivial hi).trans he
  have hpos : s₂.db.headBlockTime ≠ 0 := by
    have hg : genesisTime ≤ s.db.headBlockTime := Nat.le_trans (Nat.le_add_right _ _) hn.time
    intro hzero
    rw [← hhead, hzero] at hg
    exact absurd hg (by decide)
  rw [if_neg hpos, Database.getSlotAtTime_eq (hhead ▸ hlater) ht, hhead] at hkeeps
  refine ⟨d₀.gpo, (congrArg Core.slots hsame).trans hslots, ?_⟩
  simp only [Database.setHead, GlobalProperties.slots, fillSlots_currentAslot, Prod.mk.injEq]
    at hkeeps
  exact hkeeps

/-- What the record holds: the bit of a slot is set when the slot before it was filled or is that
of the genesis. -/
structure Slotted (bs : List Block) (g : GlobalProperties) : Prop where
  counted : g.Counted
  aslot : g.currentAslot = slotOf g.time
  number : g.headBlockNumber = bs.length
  increasing : (slotsOf bs).Pairwise (· < ·)
  range : ∀ j ∈ slotsOf bs, 0 < j ∧ j ≤ g.currentAslot
  last : lastSlot bs = g.currentAslot
  bits : ∀ k < 128, k < g.currentAslot → (g.recentSlotsFilled.testBit k = true ↔
    g.currentAslot - k - 1 = 0 ∨ g.currentAslot - k - 1 ∈ slotsOf bs)

theorem slotsOf_append (bs : List Block) (b : Block) :
    slotsOf (bs ++ [b]) = slotsOf bs ++ [slotOf b.timestamp] := by
  simp [slotsOf]

theorem lastSlot_append (bs : List Block) (b : Block) :
    lastSlot (bs ++ [b]) = slotOf b.timestamp := by
  rw [lastSlot, slotsOf_append, List.getLast?_concat, Option.getD_some]

theorem lastSlot_mem (bs : List Block) : lastSlot bs = 0 ∨ lastSlot bs ∈ slotsOf bs := by
  unfold lastSlot
  cases h : (slotsOf bs).getLast? with
  | none => exact Or.inl rfl
  | some j => exact Or.inr (List.mem_of_getLast? h)

theorem slotOf_later {t t' : Nat} (hg : genesisTime ≤ t) (ht : t < t') :
    slotOf t' = slotOf t + (t' - t - 1) + 1 := by
  unfold slotOf blockInterval
  rw [Nat.div_one, Nat.div_one]
  omega

theorem slotOf_le (t : Time) : slotOf t ≤ t :=
  Nat.le_trans (Nat.div_le_self _ _) (Nat.sub_le _ _)

theorem Slotted.applyBlock (hr : Slotted bs s.db.gpo) (hn : Numbered s)
    (ht : b.timestamp < two32) (h : s.applyBlock env skip b = .ok s') :
    Slotted (bs ++ [b]) s'.db.gpo := by
  obtain ⟨hlater, htime, hnumber, -⟩ := applyBlock_head hn ht h
  obtain ⟨g, hg, haslot, hfilled, hcount⟩ := applyBlock_slots hn ht h
  obtain ⟨hg₁, hg₂, hg₃⟩ : g.currentAslot = s.db.gpo.currentAslot ∧
      g.recentSlotsFilled = s.db.gpo.recentSlotsFilled ∧
      g.participationCount = s.db.gpo.participationCount := by
    simpa [GlobalProperties.slots] using hg
  have hslot := slotOf_later (Nat.le_trans (Nat.le_add_right _ _) hn.time) hlater
  generalize b.timestamp - s.db.headBlockTime - 1 = m at haslot hfilled hcount hslot
  have hslot' : slotOf b.timestamp = s.db.gpo.currentAslot + m + 1 := by
    rw [hslot, hr.aslot]
    rfl
  have hlt : s.db.gpo.currentAslot + m + 1 < two64 := by
    rw [← hslot']
    exact Nat.lt_of_le_of_lt (slotOf_le _) (Nat.lt_trans ht (by decide))
  rw [hg₁, Nat.mod_eq_of_lt hlt] at haslot
  have hcounted : g.Counted := ⟨hg₂ ▸ hr.counted.small, by rw [hg₂, hg₃, hr.counted.count]⟩
  have hfold := fillSlots_counted hcounted (List.range (m + 1))
  have hmem (j : Nat) (hj : j ≤ s.db.gpo.currentAslot + m) :
      j ∈ slotsOf (bs ++ [b]) ↔ j ∈ slotsOf bs := by
    rw [slotsOf_append, List.mem_append, List.mem_singleton, hslot']
    constructor
    · rintro (hj' | rfl)
      · exact hj'
      · omega
    · exact Or.inl
  refine ⟨⟨hfilled ▸ hfold.small, by rw [hcount, hfilled, hfold.count]⟩, ?_, ?_, ?_, ?_, ?_, ?_⟩
  · rw [haslot, ← hslot']
    exact congrArg slotOf htime.symm
  · rw [List.length_append, List.length_singleton, ← hr.number]
    exact hnumber
  · rw [slotsOf_append, List.pairwise_append]
    refine ⟨hr.increasing, List.pairwise_singleton _ _, ?_⟩
    intro j hj k hk
    rw [List.mem_singleton.1 hk, hslot']
    have hle := (hr.range j hj).2
    omega
  · intro j hj
    rw [slotsOf_append, List.mem_append, List.mem_singleton, hslot'] at hj
    rw [haslot]
    rcases hj with hj | rfl
    · have hrange := hr.range j hj
      omega
    · omega
  · rw [lastSlot_append, hslot', haslot]
  · intro k hk hka
    rw [haslot] at hka ⊢
    rw [hfilled, fillSlots_testBit hk, hmem _ (by omega), hg₂]
    split
    · next hkm =>
      -- a slot that was skipped follows another one
      have hnot : s.db.gpo.currentAslot + m + 1 - k - 1 ∉ slotsOf bs := fun hj => by
        have hrange := hr.range _ hj
        omega
      simp only [Bool.false_eq_true, hnot, or_false, false_iff]
      omega
    · split
      · next hkm =>
        -- the first slot after the last block
        have hprev : s.db.gpo.currentAslot + m + 1 - k - 1 = lastSlot bs := by
          rw [hr.last]
          omega
        simp only [true_iff, hprev]
        exact lastSlot_mem bs
      · next hlt' hne =>
        have hold := hr.bits (k - m - 1) (by omega) (by omega)
        have hsame : s.db.gpo.currentAslot - (k - m - 1) - 1 =
            s.db.gpo.currentAslot + m + 1 - k - 1 := by omega
        rw [hold, hsame]

theorem slotted_initGenesis (supply : Int) : Slotted [] (initGenesis supply).db.gpo where
  counted := ⟨(by decide : two128 - 1 < 2 ^ 128),
    (by decide +kernel : 128 = ShiftRegister.ones 128 (two128 - 1))⟩
  aslot := (by decide : 0 = slotOf genesisTime)
  number := rfl
  increasing := List.Pairwise.nil
  range := nofun
  last := rfl
  bits := nofun

theorem applyEach_slotted {supply : Int} {l : List (Skip × Block)}
    (htime : ∀ x ∈ l, x.2.timestamp < two32)
    (h : (initGenesis supply).applyEach env l = .ok s) : Slotted (l.map (·.2)) s.db.gpo := by
  have hr : Numbered s ∧ Slotted (l.map (·.2)) s.db.gpo := by
    refine run_induction (P := fun done e => Numbered e ∧ Slotted (done.map (·.2)) e.db.gpo) h
      ⟨numbered_initGenesis supply, slotted_initGenesis supply⟩ ?_
    rintro done e x e' ⟨hn, hr⟩ hx hstep
    refine ⟨(applyBlock_numbered hn (htime x hx) hstep).1, ?_⟩
    rw [List.map_append, List.map_singleton]
    exact hr.applyBlock hn (htime x hx) hstep
  exact hr.2

/-- The slots that are not filled are missed. -/
theorem Slotted.missed {g : GlobalProperties} (hr : Slotted bs g) :
    g.currentAslot = g.headBlockNumber + (missedSlots bs g.currentAslot).card := by
  have hsub : (slotsOf bs).toFinset ⊆ Finset.Icc 1 g.currentAslot := by
    intro j hj
    have hrange := hr.range j (List.mem_toFinset.1 hj)
    exact Finset.mem_Icc.2 hrange
  have hmissed : missedSlots bs g.currentAslot =
      Finset.Icc 1 g.currentAslot \ (slotsOf bs).toFinset := by
    ext j
    simp [missedSlots]
  have hcard : (slotsOf bs).toFinset.card = g.headBlockNumber := by
    rw [List.toFinset_card_of_nodup (hr.increasing.imp fun hlt => Nat.ne_of_lt hlt), hr.number]
    exact List.length_map _
  have hle := Finset.card_le_card hsub
  rw [hmissed, Finset.card_sdiff_of_subset hsub, hcard, Nat.card_Icc]
  rw [hcard, Nat.card_Icc] at hle
  omega

/-- The record is right when none of the last 129 slots was missed. -/
theorem Slotted.accounted_iff {g : GlobalProperties} (hr : Slotted bs g) :
    SlotsAccounted bs g ↔
      ∀ j, 0 < j → lastSlot bs ≤ j + 128 → j ≤ lastSlot bs → j ∈ slotsOf bs := by
  rw [hr.last]
  constructor
  · intro ha j hpos hnear hle
    obtain ⟨k, hk⟩ : ∃ k, j + k = g.currentAslot := Nat.exists_eq_add_of_le hle |>.imp
      fun _ h => h.symm
    -- from the slot of the head block backwards
    induction k generalizing j with
    | zero =>
      rcases lastSlot_mem bs with hzero | hmem
      · rw [hr.last] at hzero
        omega
      · rw [hr.last] at hmem
        have hj : j = g.currentAslot := hk
        exact hj ▸ hmem
    | succ k ih =>
      have hnext := ih (j + 1) (Nat.succ_pos j) (by omega) (by omega) (by omega)
      have hsub : g.currentAslot - k = j + 1 := by omega
      have hbit := ha.filled k (by omega) (by omega)
      rw [hr.bits k (by omega) (by omega), hsub, Nat.add_sub_cancel] at hbit
      rcases hbit.2 hnext with hzero | hmem
      · omega
      · exact hmem
  · intro hall
    refine ⟨hr.aslot, hr.missed, hr.counted.count, ?_⟩
    intro k hk hka
    rw [hr.bits k hk hka]
    have hthis := hall (g.currentAslot - k) (by omega) (by omega) (by omega)
    rcases Nat.eq_zero_or_pos (g.currentAslot - k - 1) with hzero | hpos
    · simp [hzero, hthis]
    · have hprev := hall (g.currentAslot - k - 1) hpos (by omega) (by omega)
      simp [hthis, hprev]

/-- Over every run the slots are accounted for when none of the last 129 was missed. -/
theorem slots_accounted_iff {supply : Int} {l : List (Skip × Block)}
    (htime : ∀ x ∈ l, x.2.timestamp < two32)
    (h : (initGenesis supply).applyEach env l = .ok s) :
    SlotsAccounted (l.map (·.2)) s.db.gpo ↔
      ∀ j, 0 < j → lastSlot (l.map (·.2)) ≤ j + 128 → j ≤ lastSlot (l.map (·.2)) →
        j ∈ slotsOf (l.map (·.2)) :=
  (applyEach_slotted htime h).accounted_iff

end ChainState

theorem slots_accounted_firstBlock :
    ∃ s, (ChainState.initGenesis initSupply).applyEach .plain [(.nothing, firstBlock)] = .ok s ∧
      SlotsAccounted [firstBlock] s.db.gpo := by
  obtain ⟨s, hs, -⟩ := map_ok.1 firstBlock_applied
  refine ⟨s, hs, (ChainState.slots_accounted_iff ?_ hs).2 ?_⟩
  · intro x hx
    cases List.mem_singleton.1 hx
    decide
  · intro j hpos _ hle
    have hlast : lastSlot [firstBlock] = 1 := by decide
    obtain rfl : j = 1 := Nat.le_antisymm (hlast ▸ hle) hpos
    decide

/- The first block, in the second slot. -/
def lateBlock : Block := { firstBlock with timestamp := genesisTime + 2 * blockInterval }

/-- After it the record says that the first slot was filled and the second one was missed. -/
theorem lateBlock_not_accounted :
    ∃ s, (ChainState.initGenesis initSupply).applyEach .plain [(.nothing, lateBlock)] = .ok s ∧
      ¬SlotsAccounted [lateBlock] s.db.gpo := by
  have h : ((ChainState.initGenesis initSupply).applyEach .plain [(.nothing, lateBlock)]).map
      (fun s => (s.db.gpo.currentAslot, s.db.gpo.recentSlotsFilled.testBit 0)) =
        .ok (2, false) := by
    decide +kernel
  obtain ⟨s, hs, hg⟩ := map_ok.1 h
  obtain ⟨haslot, hbit⟩ := Prod.mk.inj hg
  refine ⟨s, hs, fun ha => ?_⟩
  have hfilled := ha.filled 0 (by decide) (by rw [haslot]; decide)
  rw [haslot, hbit] at hfilled
  exact absurd (hfilled.2 (by decide)) Bool.false_ne_true

end WeNode.Chain
