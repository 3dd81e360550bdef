import WeNode.Chain.BlockSteps
import WeNode.Chain.CoreBlocks

/-!
# Witnesses in reachable states

The ids and owners of the witnesses are distinct, and each votes for blocks that hold at least one
transaction of the greatest size.
-/

set_option mvcgen.warning false

namespace WeNode.Chain

open WeNode.Lib Std.Do

/-- Of the keys of a table of witnesses and its next id. -/
structure ProperKeys (keys : List (Nat × Name × Nat × Nat)) (next : Nat) : Prop where
  id_lt : ∀ k ∈ keys, k.1 < next
  ids : (keys.map (·.1)).Nodup
  owners : (keys.map (·.2.1)).Nodup
  sizes : ∀ k ∈ keys, minBlockSizeLimit ≤ k.2.2.1

def Core.ProperWitnesses (c : Core) : Prop := ProperKeys c.witnesses c.nextWitness

def Core.owners (c : Core) : List Name := c.witnesses.map (·.2.1)

/-- The witnesses of `c'` are proper, and those of `c` are among them. -/
def Core.MoreWitnesses (c c' : Core) : Prop := c'.ProperWitnesses ∧ c.owners ⊆ c'.owners

/-- As many witnesses of each kind as a round has places. -/
def Core.Full (c : Core) : Prop := c.limits.1 + c.limits.2.1 + c.limits.2.2 = maxWitnesses

structure Core.Sound (c : Core) : Prop where
  witnesses : c.ProperWitnesses
  scheduled : c.scheduled ⊆ c.owners
  size : minBlockSizeLimit ≤ c.maximumBlockSize
  lastHardfork : c.hardforks.2.1 ≤ numHardforks
  version : c.hardforks.2.2 = hardforkVersion c.hardforks.2.1
  full : c.Full

theorem Core.Sound.congr {c c' : Core} (hs : c.Sound)
    (h : (c'.hardforks, c'.scheduled, c'.limits, c'.maximumBlockSize, c'.witnesses,
      c'.nextWitness) = (c.hardforks, c.scheduled, c.limits, c.maximumBlockSize, c.witnesses,
      c.nextWitness)) : c'.Sound := by
  cases c
  cases c'
  cases h
  exact ⟨hs.witnesses, hs.scheduled, hs.size, hs.lastHardfork, hs.version, hs.full⟩

namespace ProperKeys

variable {keys keys' : List (Nat × Name × Nat × Nat)} {next : Nat}

theorem append (h : ProperKeys keys next) {owner : Name} {size : Nat} (confirmed : Nat)
    (howner : owner ∉ keys.map (·.2.1)) (hsize : minBlockSizeLimit ≤ size) :
    ProperKeys (keys ++ [(next, owner, size, confirmed)]) (next + 1) where
  id_lt := by
    intro k hk
    rcases List.mem_append.1 hk with hk | hk
    · exact Nat.lt_succ_of_lt (h.id_lt k hk)
    · cases List.mem_singleton.1 hk
      exact Nat.lt_succ_self next
  ids := by
    rw [List.map_append, List.nodup_append]
    refine ⟨h.ids, List.nodup_singleton _, ?_⟩
    rintro x hx y hy rfl
    obtain ⟨k, hk, rfl⟩ := List.mem_map.1 hx
    have hlt := h.id_lt k hk
    rw [List.mem_singleton.1 hy] at hlt
    exact Nat.lt_irrefl next hlt
  owners := by
    rw [List.map_append, List.nodup_append]
    refine ⟨h.owners, List.nodup_singleton _, ?_⟩
    rintro x hx y hy rfl
    rw [List.mem_singleton.1 hy] at hx
    exact howner hx
  sizes := by
    intro k hk
    rcases List.mem_append.1 hk with hk | hk
    · exact h.sizes k hk
    · cases List.mem_singleton.1 hk
      exact hsize

theorem of_ids (h : ProperKeys keys next) (hids : keys'.map (·.1) = keys.map (·.1))
    (howners : keys'.map (·.2.1) = keys.map (·.2.1))
    (hsizes : ∀ k ∈ keys', minBlockSizeLimit ≤ k.2.2.1) : ProperKeys keys' next where
  id_lt := by
    intro k hk
    have hmem : k.1 ∈ keys.map (·.1) := hids ▸ List.mem_map_of_mem hk
    obtain ⟨k', hk', heq⟩ := List.mem_map.1 hmem
    exact heq ▸ h.id_lt k' hk'
  ids := hids ▸ h.ids
  owners := howners ▸ h.owners
  sizes := hsizes

end ProperKeys

namespace Database

variable {d d' : Database}

theorem createWitness_proper {owner : Name} {f : Witness → Witness}
    (hf : ∀ w, (f w).id = w.id ∧ (f w).owner = w.owner ∧
      minBlockSizeLimit ≤ (f w).props.maximumBlockSize) :
    ⦃⌜d.core.ProperWitnesses⌝⦄ d.createWitness owner f ⦃⇓? d' => ⌜d.core.MoreWitnesses d'.core⌝⦄ := by
  apply triple_of
  intro h d' hd
  obtain ⟨hnone, rfl⟩ := createWitness_ok hd
  have howner : owner ∉ (d.witnesses.rows.map Witness.key).map (·.2.1) := by
    intro hmem
    obtain ⟨k, hk, rfl⟩ := List.mem_map.1 hmem
    obtain ⟨w, hw, rfl⟩ := List.mem_map.1 hk
    exact hnone w hw rfl
  obtain ⟨hid, how, hsize⟩ := hf { id := d.witnesses.nextId, owner := owner }
  have happ := ProperKeys.append h
    (f { id := d.witnesses.nextId, owner := owner }).lastConfirmedBlockNum howner hsize
  constructor
  · simpa [Core.ProperWitnesses, core, Table.create, Witness.key, hid, how] using happ
  · simp [Core.owners, core, Table.create]

theorem modifyWitness_proper {owner : Name} {f : Witness → Result Witness}
    (hf : ∀ w, ⦃⌜minBlockSizeLimit ≤ w.props.maximumBlockSize⌝⦄ f w ⦃⇓? w' =>
      ⌜w'.id = w.id ∧ w'.owner = w.owner ∧ minBlockSizeLimit ≤ w'.props.maximumBlockSize⌝⦄) :
    ⦃⌜d.core.ProperWitnesses⌝⦄ d.modifyWitness owner f ⦃⇓? d' => ⌜d.core.MoreWitnesses d'.core⌝⦄ := by
  apply triple_of
  intro h d' hd
  unfold modifyWitness at hd
  obtain ⟨t, ht, rfl⟩ := of_modify hd
  obtain ⟨x, y, hxy, hrep, hn⟩ := Table.modify_ok ht
  obtain ⟨hid, howner, hsize⟩ :=
    of_triple (hf x) (h.sizes _ (List.mem_map_of_mem hrep.mem)) hxy
  have howners : (t.rows.map Witness.key).map (·.2.1) =
      (d.witnesses.rows.map Witness.key).map (·.2.1) := by
    rw [List.map_map, List.map_map]
    exact hrep.map_eq howner
  have hsub : d.core.owners ⊆ (t.rows.map Witness.key).map (·.2.1) := by
    rw [howners]
    exact List.Subset.refl _
  refine ⟨?_, hsub⟩
  unfold Core.ProperWitnesses core at h ⊢
  rw [hn]
  refine ProperKeys.of_ids h ?_ howners ?_
  · rw [List.map_map, List.map_map]
    exact hrep.map_eq hid
  · intro k hk
    obtain ⟨w, hw, rfl⟩ := List.mem_map.1 hk
    rcases hrep.of_mem hw with hw | rfl
    · exact h.sizes _ (List.mem_map_of_mem hw)
    · exact hsize

end Database

/-! ### Operations -/

section

open Database

variable {d d' : Database}

theorem WitnessUpdateOperation.apply_proper {o : WitnessUpdateOperation}
    (ho : minBlockSizeLimit ≤ o.props.maximumBlockSize) :
    ⦃⌜d.core.ProperWitnesses⌝⦄ o.apply d ⦃⇓? d' => ⌜d.core.MoreWitnesses d'.core⌝⦄ := by
  mvcgen [WitnessUpdateOperation.apply, modifyWitness_proper, createWitness_proper]
  all_goals simp_all

theorem enqueueWorker_proper {name : Name} {key : PublicKey} {props : ChainProperties}
    {work : Hash} (ho : minBlockSizeLimit ≤ props.maximumBlockSize) :
    ⦃⌜d.core.ProperWitnesses⌝⦄ enqueueWorker d name key props work
      ⦃⇓? d' => ⌜d.core.MoreWitnesses d'.core⌝⦄ := by
  mvcgen [enqueueWorker, modifyWitness_proper, createWitness_proper]
  all_goals simp_all

theorem PowOperation.apply_proper {o : PowOperation} {w : Name}
    (ho : minBlockSizeLimit ≤ o.props.maximumBlockSize) :
    ⦃⌜d.core.ProperWitnesses⌝⦄ o.apply d w ⦃⇓? d' => ⌜d.core.MoreWitnesses d'.core⌝⦄ := by
  mvcgen [PowOperation.apply, createWorker_core, enqueueWorker_proper, payPow_core]
  all_goals grind [Core.MoreWitnesses, Core.ProperWitnesses, Core.owners, core_countPow]

theorem Pow2Operation.enqueue_proper {o : Pow2Operation}
    (ho : minBlockSizeLimit ≤ o.props.maximumBlockSize) :
    ⦃⌜d.core.ProperWitnesses⌝⦄ o.enqueue d ⦃⇓? d' => ⌜d.core.MoreWitnesses d'.core⌝⦄ := by
  mvcgen [Pow2Operation.enqueue, createWorker_core, createWitness_proper, modifyWitness_proper]
  all_goals grind [Core.MoreWitnesses, Core.ProperWitnesses, Core.owners]

theorem Pow2Operation.apply_proper {o : Pow2Operation} {w : Name}
    (ho : minBlockSizeLimit ≤ o.props.maximumBlockSize) :
    ⦃⌜d.core.ProperWitnesses⌝⦄ o.apply d w ⦃⇓? d' => ⌜d.core.MoreWitnesses d'.core⌝⦄ := by
  have henqueue := @Pow2Operation.enqueue_proper
  mvcgen [Pow2Operation.apply, henqueue, adjustSupply_core, createTMEfundForSCORE_core]
  all_goals grind [Core.MoreWitnesses, Core.ProperWitnesses, Core.owners, core_countPow]

theorem validate_props {env : Env} {o : Operation} (h : o.validate env = .ok ()) :
    ∀ p ∈ o.props, minBlockSizeLimit ≤ p.maximumBlockSize := by
  have hp : ∀ p : ChainProperties, p.validate = .ok () → minBlockSizeLimit ≤ p.maximumBlockSize := by
    intro p hv
    obtain ⟨_, -, hv⟩ := bind_ok.1 hv
    obtain ⟨_, hsize, -⟩ := bind_ok.1 hv
    exact require_ok hsize
  intro p hmem
  cases o with
  | witnessUpdate op =>
    cases hmem
    obtain ⟨_, -, h⟩ := bind_ok.1 h
    obtain ⟨_, -, h⟩ := bind_ok.1 h
    obtain ⟨_, -, h⟩ := bind_ok.1 h
    obtain ⟨_, -, h⟩ := bind_ok.1 h
    obtain ⟨_, -, h⟩ := bind_ok.1 h
    exact hp _ h
  | pow op =>
    cases hmem
    obtain ⟨_, hv, -⟩ := bind_ok.1 h
    exact hp _ hv
  | pow2 op =>
    cases hmem
    obtain ⟨_, hv, -⟩ := bind_ok.1 h
    exact hp _ hv
  | _ => cases hmem

theorem applyOperation_proper {w : Name} {o : Operation}
    (ho : ∀ p ∈ o.props, minBlockSizeLimit ≤ p.maximumBlockSize) (hd : d.core.ProperWitnesses)
    (h : applyOperation w d o = .ok d') : d.core.MoreWitnesses d'.core := by
  cases hp : o.props with
  | none =>
    have hc := of_triple applyOperation_core trivial h
    rw [if_pos hp, if_pos hp] at hc
    rw [hc]
    exact ⟨hd, List.Subset.refl _⟩
  | some p =>
    have hsize := ho p hp
    cases o with
    | witnessUpdate op =>
      cases hp
      exact of_triple (WitnessUpdateOperation.apply_proper hsize) hd h
    | pow op =>
      cases hp
      exact of_triple (PowOperation.apply_proper hsize) hd h
    | pow2 op =>
      cases hp
      exact of_triple (Pow2Operation.apply_proper hsize) hd h
    | _ => cases hp

theorem applyOperation_sound {w : Name} {o : Operation}
    (ho : ∀ p ∈ o.props, minBlockSizeLimit ≤ p.maximumBlockSize) (hs : d.core.Sound)
    (h : applyOperation w d o = .ok d') : d'.core.Sound := by
  have hc := of_triple applyOperation_core trivial h
  have hm := applyOperation_proper ho hs.witnesses h
  refine ⟨hm.1, ?_, ?_, ?_, ?_, ?_⟩
  · have hscheduled : d'.core.scheduled = d.core.scheduled := by rw [hc]
    rw [hscheduled]
    exact List.Subset.trans hs.scheduled hm.2
  · exact hc ▸ hs.size
  · exact hc ▸ hs.lastHardfork
  · exact hc ▸ hs.version
  · exact hc ▸ hs.full

end

namespace Database

variable {d d' : Database}

/-! ### The size of blocks -/

theorem scheduledWitnesses_mem {l : List Witness} (h : d.scheduledWitnesses = .ok l) :
    ∀ w ∈ l, w ∈ d.witnesses.rows := by
  intro w hw
  obtain ⟨name, -, hget⟩ := mapM_mem h hw
  exact List.mem_of_find?_eq_some (found_ok hget)

theorem medianOn_mem {key : Witness → Int} {l : List Witness} {w : Witness}
    (h : medianOn key l = .ok w) : w ∈ l := by
  have hm := List.mem_of_getElem? (found_ok h)
  exact (List.mem_insertionSort _).1 hm

theorem scheduledNames_subset {l : List Witness} (h : d.scheduledWitnesses = .ok l) :
    d.core.scheduled ⊆ d.core.owners := by
  intro name hname
  obtain ⟨w, hget⟩ := mapM_each h hname
  have hfind := found_ok hget
  have howner : w.owner = name := by simpa using List.find?_some hfind
  rw [← howner]
  exact List.mem_map_of_mem (List.mem_map_of_mem (List.mem_of_find?_eq_some hfind))

theorem updateMedianWitnessProps_sound :
    ⦃⌜d.core.ProperWitnesses⌝⦄ d.updateMedianWitnessProps
      ⦃⇓? d' => ⌜d'.core = { d.core with maximumBlockSize := d'.core.maximumBlockSize } ∧
        minBlockSizeLimit ≤ d'.core.maximumBlockSize ∧ d'.core.scheduled ⊆ d'.core.owners⌝⦄ := by
  apply triple_of
  intro hp d' h
  have hc := of_triple updateMedianWitnessProps_core trivial h
  obtain ⟨l, hl, h⟩ := bind_ok.1 h
  obtain ⟨_, -, h⟩ := bind_ok.1 h
  obtain ⟨w, hw, h⟩ := bind_ok.1 h
  obtain ⟨_, -, h⟩ := bind_ok.1 h
  cases h
  refine ⟨hc, ?_, scheduledNames_subset hl⟩
  have hmem := scheduledWitnesses_mem hl w (medianOn_mem hw)
  exact hp.sizes _ (List.mem_map_of_mem hmem)

theorem updateWitnessSchedule4_sound {versions : Name → WitnessVersion} :
    ⦃⌜d.core.ProperWitnesses⌝⦄ d.updateWitnessSchedule4 versions
      ⦃⇓? d' => ⌜d'.core = { d.core with
          nextHardfork := d'.core.nextHardfork
          scheduled := d'.core.scheduled
          maximumBlockSize := d'.core.maximumBlockSize
          mining := d'.core.mining } ∧
        minBlockSizeLimit ≤ d'.core.maximumBlockSize ∧ d'.core.scheduled ⊆ d'.core.owners⌝⦄ := by
  mvcgen [updateWitnessSchedule4, setSchedule_core, selectMiners_core, advanceSchedule_core,
    tallyVersions_core, updateMedianWitnessProps_sound]
  all_goals grind [core, limits_fillSchedule, requiredWitnesses_fillSchedule, WitnessSchedule.limits,
    Core.ProperWitnesses]

theorem updateWitnessScheduleHF0_sound :
    ⦃⌜d.core.ProperWitnesses⌝⦄ d.updateWitnessScheduleHF0
      ⦃⇓? d' => ⌜d'.core = { d.core with
          scheduled := d'.core.scheduled
          maximumBlockSize := d'.core.maximumBlockSize
          mining := d'.core.mining } ∧
        minBlockSizeLimit ≤ d'.core.maximumBlockSize ∧ d'.core.scheduled ⊆ d'.core.owners⌝⦄ := by
  mvcgen [updateWitnessScheduleHF0, electHF0_core, popMiner_core, updateMedianWitnessProps_sound]
  all_goals grind [core, limits_scheduleHF0, requiredWitnesses_scheduleHF0, Core.ProperWitnesses]

theorem updateWitnessSchedule_sound {versions : Name → WitnessVersion} (hs : d.core.Sound)
    (h : d.updateWitnessSchedule versions = .ok d') : d'.core.Sound := by
  have hnew (hd : d'.core = { d.core with
        nextHardfork := d'.core.nextHardfork
        scheduled := d'.core.scheduled
        maximumBlockSize := d'.core.maximumBlockSize
        mining := d'.core.mining } ∧
      minBlockSizeLimit ≤ d'.core.maximumBlockSize ∧ d'.core.scheduled ⊆ d'.core.owners) :
      d'.core.Sound := by
    obtain ⟨hc, hsize, hsched⟩ := hd
    refine ⟨?_, hsched, hsize, ?_, ?_, ?_⟩
    · exact hc ▸ hs.witnesses
    · exact hc ▸ hs.lastHardfork
    · exact hc ▸ hs.version
    · exact hc ▸ hs.full
  unfold updateWitnessSchedule at h
  split at h
  · split at h
    · exact hnew (of_triple updateWitnessSchedule4_sound hs.witnesses h)
    · obtain ⟨hc, hsize, hsched⟩ := of_triple updateWitnessScheduleHF0_sound hs.witnesses h
      have hnext : d'.core.nextHardfork = d.core.nextHardfork := by rw [hc]
      exact hnew ⟨hnext ▸ hc, hsize, hsched⟩
  · cases h
    exact hs

/-! ### Hardforks -/

theorem createPostFund_full :
    ⦃⌜True⌝⦄ d.createPostFund ⦃⇓? d' => ⌜d'.core.Full⌝⦄ := by
  mvcgen [createPostFund]

theorem applyHardfork17_full : ⦃⌜True⌝⦄ d.applyHardfork17 ⦃⇓? d' => ⌜d'.core.Full⌝⦄ := by
  mvcgen [applyHardfork17, createPostFund_full, extendCashout_core]
  all_goals grind

theorem hardforkStep_full {n : Nat} (hf : d.core.Full) :
    ⦃⌜True⌝⦄ d.hardforkStep n ⦃⇓? d' => ⌜d'.core.Full⌝⦄ := by
  unfold hardforkStep
  mvcgen [performSCOREsplit_core, retallyWitnessVotes_core, resetVirtualScheduleTime_core,
    retallyCommentChildren_core, applyHardfork12_core, applyHardfork17_full, applyHardfork19_core]
  all_goals grind [core, Core.Full, retallyWitnessVoteCounts_core]

theorem applyHardfork_version {n : Nat} :
    ⦃⌜True⌝⦄ d.applyHardfork n
      ⦃⇓? d' => ⌜d'.core.hardforks.2 = (n, hardforkVersion n)⌝⦄ := by
  have hstep : ⦃⌜True⌝⦄ d.hardforkStep n ⦃⇓? _ => ⌜True⌝⦄ := triple_of fun _ _ _ => trivial
  mvcgen [applyHardfork, hstep]

theorem applyHardfork_full {n : Nat} (hf : d.core.Full) :
    ⦃⌜True⌝⦄ d.applyHardfork n ⦃⇓? d' => ⌜d'.core.Full⌝⦄ := by
  have hstep : ⦃⌜True⌝⦄ d.hardforkStep n ⦃⇓? d' => ⌜d'.core.Full⌝⦄ := hardforkStep_full hf
  mvcgen [applyHardfork, hstep]

theorem applyHardfork_sound {n : Nat} (hn : n ≤ numHardforks) (hs : d.core.Sound)
    (h : d.applyHardfork n = .ok d') : d'.core.Sound := by
  have hc := of_triple applyHardfork_core trivial h
  have hv := of_triple applyHardfork_version trivial h
  refine ⟨?_, ?_, ?_, ?_, ?_, of_triple (applyHardfork_full hs.full) trivial h⟩
  · exact hc ▸ hs.witnesses
  · exact hc ▸ hs.scheduled
  · exact hc ▸ hs.size
  · rw [hv]
    exact hn
  · rw [hv]

theorem votedHardforks_sound {fuel : Nat} (hs : d.core.Sound)
    (h : votedHardforks fuel d = .ok d') : d'.core.Sound := by
  induction fuel generalizing d with
  | zero => cases h
  | succ fuel ih =>
    unfold votedHardforks at h
    split at h
    · split at h
      · next hlt =>
        obtain ⟨d₁, h₁, h⟩ := bind_ok.1 h
        exact ih (applyHardfork_sound hlt hs h₁) h
      · cases h
    · cases h
      exact hs

theorem timedHardforks_sound {fuel : Nat} (hs : d.core.Sound)
    (h : timedHardforks fuel d = .ok d') : d'.core.Sound := by
  induction fuel generalizing d with
  | zero => cases h
  | succ fuel ih =>
    unfold timedHardforks at h
    split at h
    · next hlt =>
      obtain ⟨d₁, h₁, h⟩ := bind_ok.1 h
      exact ih (applyHardfork_sound hlt.1 hs h₁) h
    · cases h
      exact hs

theorem processHardforks_sound (hs : d.core.Sound) (h : d.processHardforks = .ok d') :
    d'.core.Sound := by
  unfold processHardforks at h
  split at h
  · exact votedHardforks_sound hs h
  · exact timedHardforks_sound hs h

/-! ### Blocks -/

theorem updateSigningWitness_proper {b : Block} :
    ⦃⌜d.core.ProperWitnesses⌝⦄ d.updateSigningWitness b
      ⦃⇓? d' => ⌜d.core.MoreWitnesses d'.core⌝⦄ := by
  mvcgen [updateSigningWitness, modifyWitness_proper]

theorem updateSigningWitness_sound {b : Block} (hs : d.core.Sound)
    (h : d.updateSigningWitness b = .ok d') : d'.core.Sound := by
  have hc := of_triple updateSigningWitness_core trivial h
  have hm := of_triple updateSigningWitness_proper hs.witnesses h
  refine ⟨hm.1, ?_, hc ▸ hs.size, hc ▸ hs.lastHardfork, hc ▸ hs.version, hc ▸ hs.full⟩
  have hscheduled : d'.core.scheduled = d.core.scheduled := by rw [hc]
  rw [hscheduled]
  exact List.Subset.trans hs.scheduled hm.2

theorem endBlock_sound {w : Name} {versions : Name → WitnessVersion} (hs : d.core.Sound)
    (h : d.endBlock w versions = .ok d') : d'.core.Sound := by
  obtain ⟨d₁, h₁, h⟩ := bind_ok.1 h
  obtain ⟨d₂, h₂, h⟩ := bind_ok.1 h
  obtain ⟨d₃, h₃, h⟩ := bind_ok.1 h
  obtain ⟨d₄, h₄, h⟩ := bind_ok.1 h
  have hs₁ : d₁.core.Sound := hs.congr (by rw [of_triple clearExpiredOrders_core trivial h₁])
  have hs₂ : d₂.core.Sound := hs₁.congr (by rw [of_triple clearExpiredDelegations_core trivial h₂])
  have hs₃ : d₃.core.Sound := updateWitnessSchedule_sound hs₂ h₃
  have hs₄ : d₄.core.Sound := hs₃.congr (by rw [of_triple settle_core trivial h₄])
  exact processHardforks_sound hs₄ h

end Database

namespace ChainState

variable {env : Env} {skip : Skip} {s s' : ChainState} {b : Block} {t : Transaction}

theorem applyTransaction_sound (hskip : skip.validate = false) (hs : s.db.core.Sound)
    (h : s.applyTransaction env skip t = .ok s') : s'.db.core.Sound := by
  obtain ⟨hc, d, hd, rfl⟩ := applyTransaction_ok.1 h
  have hvalid := ((checkTransaction_ok.1 hc).1 hskip).2
  refine run_induction (P := fun _ e => e.core.Sound) hd hs ?_
  intro _ e o e' he ho hstep
  exact applyOperation_sound (validate_props (forM_each hvalid ho)) he hstep

theorem finishBlock_sound (hs : s.db.core.Sound) (h : s.finishBlock env skip b = .ok s') :
    s'.db.core.Sound := by
  obtain ⟨d₁, d₂, d₃, d₄, h₁, h₂, h₃, h₄, rfl⟩ := finishBlock_ok.1 h
  have hs₁ : d₁.core.Sound :=
    hs.congr (by rw [of_triple Database.updateGlobalDynamicData_core trivial h₁])
  have hs₂ : d₂.core.Sound := Database.updateSigningWitness_sound hs₁ h₂
  have hs₃ : d₃.core.Sound :=
    hs₂.congr (by rw [of_triple Database.updateLastIrreversibleBlock_core trivial h₃])
  have hs₄ : (d₃.createBlockSummary env b).core.Sound := hs₃
  exact Database.endBlock_sound hs₄ h₄

theorem applyBlock_sound (hskip : skip.validate = false) (hs : s.db.core.Sound)
    (h : s.applyBlock env skip b = .ok s') : s'.db.core.Sound := by
  obtain ⟨s₁, s₂, h₁, h₂, h₃⟩ := applyBlock_ok.1 h
  have hs₁ : s₁.db.core.Sound := (startBlock_keeps h₁).1 ▸ hs
  have hs₂ : s₂.db.core.Sound := by
    refine run_induction (P := fun _ e => e.db.core.Sound) h₂ hs₁ ?_
    intro _ e t e' he _ ht
    exact applyTransaction_sound hskip he ht
  exact finishBlock_sound hs₂ h₃

theorem sound_initGenesis (supply : Int) : (initGenesis supply).db.core.Sound := by
  have h0 : (initGenesis 0).db.core.Sound :=
    ⟨⟨by decide, by decide, by decide, by decide⟩, by decide, by decide, by decide, by decide,
      rfl⟩
  exact h0.congr rfl

theorem Reachable.sound (h : Reachable env s) : s.db.core.Sound := by
  induction h with
  | genesis => exact sound_initGenesis initSupply
  | block b _ hb ih => exact applyBlock_sound rfl ih hb

end ChainState
end WeNode.Chain
