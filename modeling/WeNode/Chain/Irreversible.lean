import WeNode.Chain.Duplicates
import WeNode.Lib.OrderStatistics

/-!
# The last irreversible block

A block is irreversible once three quarters of the scheduled witnesses have built on it.
-/

set_option mvcgen.warning false

namespace WeNode.Chain

open WeNode.Lib Std.Do

def KeysConfirmedTo (keys : List (Nat × Name × Nat × Nat)) (n : Nat) : Prop :=
  ∀ k ∈ keys, k.2.2.2 ≤ n

/-- No witness has confirmed a block above `n`. -/
def Core.ConfirmedTo (c : Core) (n : Nat) : Prop := KeysConfirmedTo c.witnesses n

/-- The witnesses of `c'` have confirmed no more than those of `c`. -/
def Core.NoneAhead (c c' : Core) : Prop := ∀ n, c.ConfirmedTo n → c'.ConfirmedTo n

namespace Database

/- The number of the last block of a witness. -/
def confirmedNum (d : Database) (name : Name) : Result Nat :=
  (d.getWitness name).map (·.lastConfirmedBlockNum)

/- Enough of the scheduled witnesses have confirmed the block `n`. -/
def ConfirmedBy (nums : List Nat) (n : Nat) : Prop :=
  irreversibleThreshold * nums.length ≤ percent100 * nums.countP (n ≤ ·)

variable {d d' : Database}

/-! ### Witnesses -/

theorem createWitness_confirmed {owner : Name} {f : Witness → Witness}
    (hf : ∀ w, (f w).lastConfirmedBlockNum = w.lastConfirmedBlockNum) :
    ⦃⌜True⌝⦄ d.createWitness owner f ⦃⇓? d' => ⌜d.core.NoneAhead d'.core⌝⦄ := by
  apply triple_of
  intro _ d' hd
  obtain ⟨-, rfl⟩ := createWitness_ok hd
  intro n h k hk
  obtain ⟨w, hw, rfl⟩ := List.mem_map.1 hk
  rcases List.mem_append.1 hw with hw | hw
  · exact h _ (List.mem_map_of_mem hw)
  · cases List.mem_singleton.1 hw
    have hzero := hf { id := d.witnesses.nextId, owner := owner }
    exact Nat.le_trans (Nat.le_of_eq hzero) (Nat.zero_le n)

theorem modifyWitness_confirmed {owner : Name} {f : Witness → Result Witness}
    (hf : ∀ w, ⦃⌜True⌝⦄ f w ⦃⇓? w' => ⌜w'.lastConfirmedBlockNum = w.lastConfirmedBlockNum⌝⦄) :
    ⦃⌜True⌝⦄ d.modifyWitness owner f ⦃⇓? d' => ⌜d.core.NoneAhead d'.core⌝⦄ := by
  apply triple_of
  intro _ d' hd
  unfold modifyWitness at hd
  obtain ⟨t, ht, rfl⟩ := of_modify hd
  obtain ⟨x, y, hxy, hrep, -⟩ := Table.modify_ok ht
  intro n h k hk
  obtain ⟨w, hw, rfl⟩ := List.mem_map.1 hk
  rcases hrep.of_mem hw with hw | rfl
  · exact h _ (List.mem_map_of_mem hw)
  · have heq := of_triple (hf x) trivial hxy
    exact Nat.le_trans (Nat.le_of_eq heq) (h _ (List.mem_map_of_mem hrep.mem))

end Database

section

open Database

variable {d d' : Database}

theorem WitnessUpdateOperation.apply_confirmed {o : WitnessUpdateOperation} :
    ⦃⌜True⌝⦄ o.apply d ⦃⇓? d' => ⌜d.core.NoneAhead d'.core⌝⦄ := by
  mvcgen [WitnessUpdateOperation.apply, modifyWitness_confirmed, createWitness_confirmed]
  all_goals simp_all

theorem enqueueWorker_confirmed {name : Name} {key : PublicKey} {props : ChainProperties}
    {work : Hash} :
    ⦃⌜True⌝⦄ enqueueWorker d name key props work
      ⦃⇓? d' => ⌜d.core.NoneAhead d'.core⌝⦄ := by
  mvcgen [enqueueWorker, modifyWitness_confirmed, createWitness_confirmed]
  all_goals simp_all

theorem PowOperation.apply_confirmed {o : PowOperation} {w : Name} :
    ⦃⌜True⌝⦄ o.apply d w ⦃⇓? d' => ⌜d.core.NoneAhead d'.core⌝⦄ := by
  mvcgen [PowOperation.apply, createWorker_core, enqueueWorker_confirmed, payPow_core]
  all_goals grind [Core.NoneAhead, Core.ConfirmedTo, core_countPow]

theorem Pow2Operation.enqueue_confirmed {o : Pow2Operation} :
    ⦃⌜True⌝⦄ o.enqueue d ⦃⇓? d' => ⌜d.core.NoneAhead d'.core⌝⦄ := by
  mvcgen [Pow2Operation.enqueue, createWorker_core, createWitness_confirmed,
    modifyWitness_confirmed]
  all_goals grind [Core.NoneAhead, Core.ConfirmedTo]

theorem Pow2Operation.apply_confirmed {o : Pow2Operation} {w : Name} :
    ⦃⌜True⌝⦄ o.apply d w ⦃⇓? d' => ⌜d.core.NoneAhead d'.core⌝⦄ := by
  have henqueue := @Pow2Operation.enqueue_confirmed
  mvcgen [Pow2Operation.apply, henqueue, adjustSupply_core, createTMEfundForSCORE_core]
  all_goals grind [Core.NoneAhead, Core.ConfirmedTo, core_countPow]

theorem applyOperation_confirmed {w : Name} {o : Operation}
    (h : applyOperation w d o = .ok d') : d.core.NoneAhead d'.core := by
  cases hp : o.props with
  | none =>
    have hc := of_triple applyOperation_core trivial h
    rw [if_pos hp] at hc
    have hw : d'.core.witnesses = d.core.witnesses := by rw [hc]
    exact fun n hd k hk => hd k (hw ▸ hk)
  | some p =>
    cases o with
    | witnessUpdate op => exact of_triple WitnessUpdateOperation.apply_confirmed trivial h
    | pow op => exact of_triple PowOperation.apply_confirmed trivial h
    | pow2 op => exact of_triple Pow2Operation.apply_confirmed trivial h
    | _ => cases hp

end

/-! ### Blocks -/

namespace Database

variable {d d' : Database} {b : Block}

theorem updateSigningWitness_confirmed (h : d.updateSigningWitness b = .ok d')
    (hd : d.core.ConfirmedTo (blockNum b)) : d'.core.ConfirmedTo (blockNum b) := by
  obtain ⟨t, ht, rfl⟩ := of_modify h
  obtain ⟨x, y, hxy, hrep, -⟩ := Table.modify_ok ht
  cases hxy
  intro k hk
  obtain ⟨w, hw, rfl⟩ := List.mem_map.1 hk
  rcases hrep.of_mem hw with hw | rfl
  · exact hd _ (List.mem_map_of_mem hw)
  · exact Nat.le_refl _

theorem confirmedNum_congr (h : d'.core.witnesses = d.core.witnesses) :
    d'.confirmedNum = d.confirmedNum := by
  have hkeys (e : Database) (name : Name) : e.confirmedNum name =
      found ((e.core.witnesses.find? (·.2.1 == name)).map (·.2.2.2)) := by
    unfold confirmedNum getWitness findWitness Table.find core
    rw [List.find?_map, Option.map_map]
    simp only [Function.comp_def, Witness.key]
    cases e.witnesses.rows.find? (·.owner == name) <;> rfl
  funext name
  rw [hkeys, hkeys, h]

theorem confirmedBy_iff {nums : List Nat} {n : Nat} :
    ConfirmedBy nums n ↔
      nums.length - (percent100 - irreversibleThreshold) * nums.length / percent100 ≤
        nums.countP (n ≤ ·) := by
  unfold ConfirmedBy percent100 irreversibleThreshold
  omega

theorem exists_ge_of_greatest {nums : List Nat} {n : Nat}
    (h : IsGreatest {n | ConfirmedBy nums n} n) : ∃ k ∈ nums, n ≤ k := by
  by_contra hnone
  have hzero : nums.countP (n ≤ ·) = 0 := by
    rw [List.countP_eq_zero]
    intro k hk hle
    exact hnone ⟨k, hk, of_decide_eq_true hle⟩
  have hmem : irreversibleThreshold * nums.length ≤ percent100 * nums.countP (n ≤ ·) := h.1
  have hlength : nums.length = 0 := by
    rw [hzero] at hmem
    unfold irreversibleThreshold at hmem
    omega
  -- where nobody is scheduled every block would do
  have hnext : n + 1 ≤ n := h.2 (by
    obtain rfl := List.eq_nil_of_length_eq_zero hlength
    exact Nat.le_refl 0)
  omega

theorem confirmedNum_le {n k : Nat} {name : Name} (hd : d.core.ConfirmedTo n)
    (h : d.confirmedNum name = .ok k) : k ≤ n := by
  obtain ⟨w, hw, rfl⟩ := map_ok.1 h
  exact hd _ (List.mem_map_of_mem (List.mem_of_find?_eq_some (found_ok hw)))

/-- What the last irreversible block becomes: before witnesses vote, the block that all of them
have had the time to build on, from then on the last one that enough of them have confirmed. -/
theorem updateLastIrreversibleBlock_cases (h : d.updateLastIrreversibleBlock = .ok d') :
    d.headBlockNum < startMinerVotingBlock ∧ (d'.gpo.lastIrreversibleBlockNum =
        if maxWitnesses < d.headBlockNum then d.headBlockNum - maxWitnesses
        else d.gpo.lastIrreversibleBlockNum) ∨
      startMinerVotingBlock ≤ d.headBlockNum ∧ ∃ nums new,
        d.scheduledNames.mapM d.confirmedNum = .ok nums ∧ IsGreatest {n | ConfirmedBy nums n} new ∧
        d'.gpo.lastIrreversibleBlockNum = max d.gpo.lastIrreversibleBlockNum new := by
  unfold updateLastIrreversibleBlock at h
  split at h
  · next hlt =>
    refine Or.inl ⟨hlt, ?_⟩
    split at h
    · next hmax =>
      cases h
      exact (if_pos hmax).symm
    · next hmax =>
      cases h
      exact (if_neg hmax).symm
  · next hle =>
    obtain ⟨scheduled, hsched, h⟩ := bind_ok.1 h
    obtain ⟨new, hnew, h⟩ := bind_ok.1 h
    have hgreatest : IsGreatest {n | ConfirmedBy (scheduled.map (·.lastConfirmedBlockNum)) n} new := by
      simpa only [confirmedBy_iff, List.length_map] using isGreatest_sorted (found_ok hnew)
    refine Or.inr ⟨Nat.le_of_not_lt hle, _, new, mapM_map_ok hsched, hgreatest, ?_⟩
    split at h
    · next hlt =>
      cases h
      exact (max_eq_right (Nat.le_of_lt hlt)).symm
    · next hge =>
      cases h
      exact (max_eq_left (Nat.le_of_not_lt hge)).symm

end Database

namespace ChainState

variable {env : Env} {skip : Skip} {s s' : ChainState} {b : Block}

/-- No witness has confirmed a block above the head, and the last irreversible block is not above
it either. -/
structure Confirmed (s : ChainState) : Prop where
  confirmed : s.db.core.ConfirmedTo s.db.headBlockNum
  le_head : s.db.gpo.lastIrreversibleBlockNum ≤ s.db.headBlockNum
  early : s.db.headBlockNum < startMinerVotingBlock →
    s.db.gpo.lastIrreversibleBlockNum = s.db.headBlockNum - maxWitnesses

/-- The witnesses scheduled for a block are those that confirm the blocks up to it. -/
def Raises (s s' : ChainState) : Prop :=
  ∃ nums, s.db.scheduledNames.mapM s'.db.confirmedNum = .ok nums ∧
    IsGreatest {n | Database.ConfirmedBy nums n} s'.db.gpo.lastIrreversibleBlockNum

theorem finishBlock_irreversible (h : s.finishBlock env skip b = .ok s') :
    ∃ d : Database, d.core = { s.db.core with
        time := b.timestamp
        headBlockNum := Database.blockNum b
        headBlockId := Database.blockId env b
        slots := d.core.slots
        witnesses := s'.db.core.witnesses } ∧
      (s.db.core.ConfirmedTo (Database.blockNum b) →
        s'.db.core.ConfirmedTo (Database.blockNum b)) ∧
      ∃ d', d.updateLastIrreversibleBlock = .ok d' ∧
        s'.db.gpo.lastIrreversibleBlockNum = d'.gpo.lastIrreversibleBlockNum := by
  obtain ⟨d₁, d₂, d₃, d₄, h₁, h₂, h₃, h₄, rfl⟩ := finishBlock_ok.1 h
  have c₁ := of_triple Database.updateGlobalDynamicData_core trivial h₁
  have c₂ := of_triple Database.updateSigningWitness_core trivial h₂
  have c₃ := of_triple Database.updateLastIrreversibleBlock_core trivial h₃
  have c₄ := of_triple Database.endBlock_core trivial h₄
  have hw₁ : d₁.core.witnesses = s.db.core.witnesses := by rw [c₁]
  have hw₃ : d₃.core.witnesses = d₂.core.witnesses := by rw [c₃]
  have hw₄ : d₄.core.witnesses = d₂.core.witnesses := (congrArg Core.witnesses c₄).trans hw₃
  refine ⟨d₂, ?_, ?_, d₃, h₃, congrArg Core.lastIrreversible c₄⟩
  · rw [hw₄]
    have hslots : d₁.core.slots = d₂.core.slots := by rw [c₂]
    rw [← hslots, c₂, c₁]
  · intro hs k hk
    rw [hw₄] at hk
    refine Database.updateSigningWitness_confirmed h₂ ?_ k hk
    exact fun k hk => hs k (hw₁ ▸ hk)

theorem applyBlock_irreversible (hs : Confirmed s) (hn : Numbered s) (ht : b.timestamp < two32)
    (h : s.applyBlock env skip b = .ok s') :
    Confirmed s' ∧ s.db.gpo.lastIrreversibleBlockNum ≤ s'.db.gpo.lastIrreversibleBlockNum ∧
      (startMinerVotingBlock ≤ s'.db.headBlockNum →
        s.db.gpo.lastIrreversibleBlockNum < s'.db.gpo.lastIrreversibleBlockNum → Raises s s') := by
  obtain ⟨-, -, hnum, -⟩ := applyBlock_head hn ht h
  obtain ⟨s₁, s₂, h₁, h₂, h₃⟩ := applyBlock_ok.1 h
  have hdb : s₁.db = s.db := (startBlock_keeps h₁).1
  -- the transactions leave the schedule and what is irreversible
  obtain ⟨hahead, hsched, hlast⟩ : s.db.core.NoneAhead s₂.db.core ∧
      s₂.db.core.scheduled = s.db.core.scheduled ∧
      s₂.db.core.lastIrreversible = s.db.core.lastIrreversible := by
    refine applyTransactions_induction (P := fun d => s.db.core.NoneAhead d.core ∧
      d.core.scheduled = s.db.core.scheduled ∧
      d.core.lastIrreversible = s.db.core.lastIrreversible) h₂
      (by rw [hdb]; exact ⟨fun _ hc => hc, rfl, rfl⟩) ?_
    rintro w d o d' ⟨hahead, hsched, hlast⟩ ho
    have hc := of_triple applyOperation_core trivial ho
    exact ⟨fun n hn => applyOperation_confirmed ho n (hahead n hn),
      (congrArg Core.scheduled hc).trans hsched, (congrArg Core.lastIrreversible hc).trans hlast⟩
  obtain ⟨d, hc, hconf, d', hd', heq⟩ := finishBlock_irreversible h₃
  have hnum' : s'.db.headBlockNum = Database.blockNum b := (finishBlock_head h₃).2.1
  have hdnum : d.headBlockNum = s'.db.headBlockNum := by
    rw [hnum']
    exact congrArg Core.headBlockNum hc
  have hdlast : d.gpo.lastIrreversibleBlockNum = s.db.gpo.lastIrreversibleBlockNum :=
    (congrArg Core.lastIrreversible hc).trans hlast
  have hdwitnesses : d.core.witnesses = s'.db.core.witnesses := by rw [hc]
  have hdsched : d.scheduledNames = s.db.scheduledNames :=
    (congrArg Core.scheduled hc).trans hsched
  have hconfirmed : s'.db.core.ConfirmedTo s'.db.headBlockNum := by
    rw [hnum']
    refine hconf (hahead _ fun k hk => Nat.le_trans (hs.confirmed k hk) ?_)
    rw [← hnum', hnum]
    exact Nat.le_succ _
  rcases Database.updateLastIrreversibleBlock_cases hd' with
    ⟨hearly, hl⟩ | ⟨hlate, nums, new, hnums, hnew, hl⟩
  · rw [← heq, hdnum] at hl
    rw [hdnum] at hearly
    have hold := hs.early (by omega)
    have hnew : s'.db.gpo.lastIrreversibleBlockNum = s'.db.headBlockNum - maxWitnesses := by
      split at hl <;> omega
    exact ⟨⟨hconfirmed, by omega, fun _ => hnew⟩, by omega, fun hlate => by omega⟩
  · rw [← heq, hdlast] at hl
    rw [hdsched, Database.confirmedNum_congr hdwitnesses] at hnums
    rw [hdnum] at hlate
    have hle : new ≤ s'.db.headBlockNum := by
      obtain ⟨k, hk, hnk⟩ := Database.exists_ge_of_greatest hnew
      obtain ⟨name, -, hname⟩ := mapM_mem hnums hk
      exact Nat.le_trans hnk (Database.confirmedNum_le hconfirmed hname)
    have hold := hs.le_head
    refine ⟨⟨hconfirmed, by omega, fun hlt => by omega⟩, by omega, fun _ hraised => ?_⟩
    have heq : s'.db.gpo.lastIrreversibleBlockNum = new := by omega
    exact ⟨nums, hnums, heq ▸ hnew⟩

theorem confirmed_initGenesis (supply : Int) : Confirmed (initGenesis supply) where
  confirmed := by
    have h0 : ∀ k ∈ (initGenesis 0).db.core.witnesses, k.2.2.2 ≤ 0 := by decide
    exact h0
  le_head := Nat.le_refl 0
  early := fun _ => rfl

/-- The last irreversible block never moves back nor beyond the head, and once witnesses vote it
is raised to the last block that enough of the scheduled witnesses have confirmed. -/
theorem last_irreversible {supply : Int} {l : List (Skip × Block)}
    (htime : ∀ x ∈ l, x.2.timestamp < two32) (ht : b.timestamp < two32)
    (h : (initGenesis supply).applyEach env l = .ok s)
    (hb : s.applyBlock env skip b = .ok s') :
    s.db.gpo.lastIrreversibleBlockNum ≤ s'.db.gpo.lastIrreversibleBlockNum ∧
      s'.db.gpo.lastIrreversibleBlockNum ≤ s'.db.headBlockNum ∧
      (startMinerVotingBlock ≤ s'.db.headBlockNum →
        s.db.gpo.lastIrreversibleBlockNum < s'.db.gpo.lastIrreversibleBlockNum → Raises s s') := by
  have hr : Numbered s ∧ Confirmed s := by
    refine run_induction (P := fun _ e => Numbered e ∧ Confirmed e) h
      ⟨numbered_initGenesis supply, confirmed_initGenesis supply⟩ ?_
    rintro _ e x e' ⟨hn, hc⟩ hx hstep
    exact ⟨(applyBlock_numbered hn (htime x hx) hstep).1,
      (applyBlock_irreversible hc hn (htime x hx) hstep).1⟩
  obtain ⟨hc, hle, hraise⟩ := applyBlock_irreversible hr.2 hr.1 ht hb
  exact ⟨hle, hc.le_head, hraise⟩

end ChainState

/- The only witness that is scheduled signs the block from which on witnesses vote. -/
example :
    (let d := (ChainState.initGenesis 0).db
     let d := { d with gpo := { d.gpo with headBlockNumber := startMinerVotingBlock } }
     d.updateSigningWitness { firstBlock with previous := (startMinerVotingBlock - 1) * two128 }
       >>= Database.updateLastIrreversibleBlock).map (·.gpo.lastIrreversibleBlockNum) =
      .ok startMinerVotingBlock := by
  decide +kernel

theorem last_irreversible_firstBlock :
    ∃ s', (ChainState.initGenesis initSupply).applyBlock .plain .nothing firstBlock = .ok s' ∧
      s'.db.gpo.lastIrreversibleBlockNum ≤ s'.db.headBlockNum := by
  have h : ((ChainState.initGenesis initSupply).applyBlock .plain .nothing firstBlock).map
      (fun _ => ()) = .ok () := by
    decide +kernel
  obtain ⟨s', hs', -⟩ := map_ok.1 h
  exact ⟨s', hs', (ChainState.last_irreversible (l := []) nofun (by decide) rfl hs').2.1⟩

end WeNode.Chain
