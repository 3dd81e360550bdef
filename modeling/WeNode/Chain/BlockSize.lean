import WeNode.Chain.CommentBlocks
import WeNode.Chain.Witnesses

/-!
# The size of blocks on the wire

A peer reads messages of at most `MAX_MESSAGE_SIZE` bytes.  The chain itself limits a block by the
median of what the witnesses vote for, and this vote only from below.
-/

set_option mvcgen.warning false

namespace WeNode.Chain

open WeNode.Lib Std.Do

/- `MAX_MESSAGE_SIZE`, and the bytes of the id that a `block_message` carries beside its block -/
def maxMessageSize : Nat := 2097152
def blockIdSize : Nat := 20

/- The `size` of the message that carries a block is an `uint32_t`. -/
def messageSize (env : Env) (b : Block) : Nat := (env.packSize b + blockIdSize) % two32

/-- `read_loop` drops the connection on any other message. -/
def FitsWire (env : Env) (b : Block) : Prop := messageSize env b ≤ maxMessageSize

instance (env : Env) (b : Block) : Decidable (FitsWire env b) :=
  inferInstanceAs (Decidable (_ ≤ _))

/- The greatest block whose message fits. -/
def wireLimit : Nat := maxMessageSize - blockIdSize

theorem fitsWire_of_le {env : Env} {b : Block} (h : env.packSize b ≤ wireLimit) : FitsWire env b := by
  have hsmall : env.packSize b + blockIdSize ≤ maxMessageSize := Nat.add_le_of_le_sub (by decide) h
  exact (Nat.mod_le _ _).trans hsmall

/- All sizes voted for are at most `most`. -/
def SizesWithin (keys : List (Nat × Name × Nat × Nat)) (most : Nat) : Prop :=
  ∀ k ∈ keys, k.2.2.1 ≤ most

def Core.VotesWithin (c : Core) (most : Nat) : Prop := SizesWithin c.witnesses most

/-- All sizes voted for, and their last median, are at most `most`. -/
structure Core.Within (c : Core) (most : Nat) : Prop where
  votes : c.VotesWithin most
  size : c.maximumBlockSize ≤ most

namespace Database

variable {d d' : Database} {most : Nat}

theorem createWitness_within (d : Database) {owner : Name} {f : Witness → Witness}
    (hf : ∀ w, (f w).props.maximumBlockSize ≤ most) :
    ⦃⌜d.core.VotesWithin most⌝⦄ d.createWitness owner f ⦃⇓? d' => ⌜d'.core.VotesWithin most⌝⦄ := by
  apply triple_of
  intro h d' hd
  obtain ⟨-, rfl⟩ := createWitness_ok hd
  intro k hk
  obtain ⟨w, hw, rfl⟩ := List.mem_map.1 hk
  rcases List.mem_append.1 hw with hw | hw
  · exact h _ (List.mem_map_of_mem hw)
  · rw [List.mem_singleton.1 hw]
    exact hf _

theorem modifyWitness_within (d : Database) {owner : Name} {f : Witness → Result Witness}
    (hf : ∀ w, ⦃⌜w.props.maximumBlockSize ≤ most⌝⦄ f w
      ⦃⇓? w' => ⌜w'.props.maximumBlockSize ≤ most⌝⦄) :
    ⦃⌜d.core.VotesWithin most⌝⦄ d.modifyWitness owner f ⦃⇓? d' => ⌜d'.core.VotesWithin most⌝⦄ := by
  apply triple_of
  intro h d' hd
  unfold modifyWitness at hd
  obtain ⟨t, ht, rfl⟩ := of_modify hd
  obtain ⟨x, y, hxy, hrep, -⟩ := Table.modify_ok ht
  intro k hk
  obtain ⟨w, hw, rfl⟩ := List.mem_map.1 hk
  rcases hrep.of_mem hw with hw | rfl
  · exact h _ (List.mem_map_of_mem hw)
  · exact of_triple (hf x) (h _ (List.mem_map_of_mem hrep.mem)) hxy

end Database

/-! ### Operations -/

section

open Database

variable {d d' : Database} {most : Nat}

theorem WitnessUpdateOperation.apply_within {o : WitnessUpdateOperation}
    (ho : o.props.maximumBlockSize ≤ most) :
    ⦃⌜d.core.VotesWithin most⌝⦄ o.apply d ⦃⇓? d' => ⌜d'.core.VotesWithin most⌝⦄ := by
  mvcgen [WitnessUpdateOperation.apply, modifyWitness_within, createWitness_within]
  all_goals simp_all

theorem enqueueWorker_within {name : Name} {key : PublicKey} {props : ChainProperties}
    {work : Hash} (ho : props.maximumBlockSize ≤ most) :
    ⦃⌜d.core.VotesWithin most⌝⦄ enqueueWorker d name key props work
      ⦃⇓? d' => ⌜d'.core.VotesWithin most⌝⦄ := by
  mvcgen [enqueueWorker, modifyWitness_within, createWitness_within]
  all_goals simp_all

theorem PowOperation.apply_within {o : PowOperation} {w : Name}
    (ho : o.props.maximumBlockSize ≤ most) :
    ⦃⌜d.core.VotesWithin most⌝⦄ o.apply d w ⦃⇓? d' => ⌜d'.core.VotesWithin most⌝⦄ := by
  have henqueue : ∀ d : Database, ⦃⌜d.core.VotesWithin most⌝⦄
      enqueueWorker d o.workerAccount o.worker o.props o.work
      ⦃⇓? d' => ⌜d'.core.VotesWithin most⌝⦄ := fun d => enqueueWorker_within ho
  mvcgen [PowOperation.apply, createWorker_core, henqueue, payPow_core]
  all_goals grind [Core.VotesWithin, core_countPow]

theorem Pow2Operation.enqueue_within (d : Database) {o : Pow2Operation}
    (ho : o.props.maximumBlockSize ≤ most) :
    ⦃⌜d.core.VotesWithin most⌝⦄ o.enqueue d ⦃⇓? d' => ⌜d'.core.VotesWithin most⌝⦄ := by
  mvcgen [Pow2Operation.enqueue, createWorker_core, createWitness_within, modifyWitness_within]
  all_goals grind [Core.VotesWithin]

theorem Pow2Operation.apply_within {o : Pow2Operation} {w : Name}
    (ho : o.props.maximumBlockSize ≤ most) :
    ⦃⌜d.core.VotesWithin most⌝⦄ o.apply d w ⦃⇓? d' => ⌜d'.core.VotesWithin most⌝⦄ := by
  have henqueue := fun d : Database => Pow2Operation.enqueue_within d ho
  mvcgen [Pow2Operation.apply, henqueue, adjustSupply_core,
    createTMEfundForSCORE_core]
  all_goals grind [Core.VotesWithin, core_countPow]

theorem applyOperation_within {w : Name} {o : Operation}
    (ho : ∀ p ∈ o.props, p.maximumBlockSize ≤ most) (hd : d.core.Within most)
    (h : applyOperation w d o = .ok d') : d'.core.Within most := by
  have hc := of_triple applyOperation_core trivial h
  refine ⟨?_, by rw [hc]; exact hd.size⟩
  cases hp : o.props with
  | none =>
    rw [if_pos hp] at hc
    rw [hc]
    exact hd.votes
  | some p =>
    have hsize := ho p hp
    cases o with
    | witnessUpdate op =>
      cases hp
      exact of_triple (WitnessUpdateOperation.apply_within hsize) hd.votes h
    | pow op =>
      cases hp
      exact of_triple (PowOperation.apply_within hsize) hd.votes h
    | pow2 op =>
      cases hp
      exact of_triple (Pow2Operation.apply_within hsize) hd.votes h
    | _ => cases hp

end

namespace Database

variable {d d' : Database} {most : Nat}

/-! ### The median -/

theorem updateMedianWitnessProps_within :
    ⦃⌜d.core.VotesWithin most⌝⦄ d.updateMedianWitnessProps
      ⦃⇓? d' => ⌜d'.core = { d.core with maximumBlockSize := d'.core.maximumBlockSize } ∧
        d'.core.maximumBlockSize ≤ most⌝⦄ := by
  apply triple_of
  intro hd d' h
  have hc := of_triple updateMedianWitnessProps_core trivial h
  obtain ⟨l, hl, h⟩ := bind_ok.1 h
  obtain ⟨_, -, h⟩ := bind_ok.1 h
  obtain ⟨w, hw, h⟩ := bind_ok.1 h
  obtain ⟨_, -, h⟩ := bind_ok.1 h
  cases h
  have hmem := scheduledWitnesses_mem hl w (medianOn_mem hw)
  exact ⟨hc, hd _ (List.mem_map_of_mem hmem)⟩

/-- Every new median is one of the votes. -/
theorem updateWitnessSchedule_within {versions : Name → WitnessVersion} (hd : d.core.Within most)
    (h : d.updateWitnessSchedule versions = .ok d') : d'.core.Within most := by
  have hmedian : ∀ d : Database, ⦃⌜d.core.VotesWithin most⌝⦄ d.updateMedianWitnessProps
      ⦃⇓? d' => ⌜d'.core = { d.core with maximumBlockSize := d'.core.maximumBlockSize } ∧
        d'.core.maximumBlockSize ≤ most⌝⦄ := fun _ => updateMedianWitnessProps_within
  have h4 : ⦃⌜d.core.VotesWithin most⌝⦄ d.updateWitnessSchedule4 versions
      ⦃⇓? d' => ⌜d'.core.witnesses = d.core.witnesses ∧ d'.core.maximumBlockSize ≤ most⌝⦄ := by
    mvcgen [updateWitnessSchedule4, setSchedule_core, selectMiners_core, advanceSchedule_core,
      tallyVersions_core, hmedian]
    all_goals grind [core, Core.VotesWithin]
  have hHF0 : ⦃⌜d.core.VotesWithin most⌝⦄ d.updateWitnessScheduleHF0
      ⦃⇓? d' => ⌜d'.core.witnesses = d.core.witnesses ∧ d'.core.maximumBlockSize ≤ most⌝⦄ := by
    mvcgen [updateWitnessScheduleHF0, electHF0_core, popMiner_core, hmedian]
    all_goals grind [core, Core.VotesWithin]
  have hnew (hd' : d'.core.witnesses = d.core.witnesses ∧ d'.core.maximumBlockSize ≤ most) :
      d'.core.Within most := ⟨fun k hk => hd.votes k (hd'.1 ▸ hk), hd'.2⟩
  unfold updateWitnessSchedule at h
  split at h
  · split at h
    · exact hnew (of_triple h4 hd.votes h)
    · exact hnew (of_triple hHF0 hd.votes h)
  · cases h
    exact hd

end Database

/-! ### Blocks -/

theorem Core.Within.congr {c c' : Core} {most : Nat} (h : c.Within most)
    (hw : c'.witnesses = c.witnesses) (hs : c'.maximumBlockSize = c.maximumBlockSize) :
    c'.Within most :=
  ⟨fun k hk => h.votes k (hw ▸ hk), hs ▸ h.size⟩

namespace ChainState

variable {env : Env} {s s' : ChainState} {b : Block} {most : Nat}

/- A block in which no vote is greater. -/
theorem applyBlock_within (hs : s.db.core.Within most)
    (hb : ∀ t ∈ b.transactions, ∀ o ∈ t.operations, ∀ p ∈ o.props, p.maximumBlockSize ≤ most)
    (h : s.applyBlock env .nothing b = .ok s') : s'.db.core.Within most := by
  obtain ⟨s₁, s₂, hstart, htransactions, hfinish⟩ := applyBlock_ok.1 h
  have hs₂ : s₂.db.core.Within most := by
    refine run_induction (P := fun _ e => e.db.core.Within most) htransactions
      (by rwa [(startBlock_keeps hstart).1]) ?_
    intro _ e t e' he ht hstep
    obtain ⟨-, d, hd, rfl⟩ := applyTransaction_ok.1 hstep
    refine run_induction (P := fun _ d => d.core.Within most) hd he ?_
    intro _ d o d' hd ho hop
    exact applyOperation_within (hb t ht o ho) hd hop
  obtain ⟨d₁, d₂, d₃, d₄, h₁, h₂, h₃, h₄, rfl⟩ := finishBlock_ok.1 hfinish
  have hc₁ := of_triple Database.updateGlobalDynamicData_core trivial h₁
  have hs₁ : d₁.core.Within most := hs₂.congr (by rw [hc₁]) (by rw [hc₁])
  have hsigned : ⦃⌜d₁.core.VotesWithin most⌝⦄ d₁.updateSigningWitness b
      ⦃⇓? d => ⌜d.core.VotesWithin most⌝⦄ := by
    mvcgen [Database.updateSigningWitness, Database.modifyWitness_within]
  have hc₂ := of_triple Database.updateSigningWitness_core trivial h₂
  have hs₂' : d₂.core.Within most :=
    ⟨of_triple hsigned hs₁.votes h₂, by rw [hc₂]; exact hs₁.size⟩
  have hc₃ := of_triple Database.updateLastIrreversibleBlock_core trivial h₃
  have hs₃ : (d₃.createBlockSummary env b).core.Within most :=
    hs₂'.congr (by rw [Database.core_createBlockSummary, hc₃])
      (by rw [Database.core_createBlockSummary, hc₃])
  obtain ⟨d₅, h₅, h⟩ := bind_ok.1 h₄
  obtain ⟨d₆, h₆, h⟩ := bind_ok.1 h
  obtain ⟨d₇, h₇, h⟩ := bind_ok.1 h
  obtain ⟨d₈, h₈, h⟩ := bind_ok.1 h
  have hc₅ := of_triple Database.clearExpiredOrders_core trivial h₅
  have hc₆ := of_triple Database.clearExpiredDelegations_core trivial h₆
  have hs₆ : d₆.core.Within most := hs₃.congr (by rw [hc₆, hc₅]) (by rw [hc₆, hc₅])
  have hs₇ := Database.updateWitnessSchedule_within hs₆ h₇
  have hc₈ := of_triple Database.settle_core trivial h₈
  have hc₉ := of_triple Database.processHardforks_core trivial h
  exact hs₇.congr (by rw [hc₉, hc₈]) (by rw [hc₉, hc₈])

/- Hardforks are not undone. -/
theorem applyBlock_hasHardfork {n : Nat} (hn : s.db.hasHardfork n)
    (h : s.applyBlock env .nothing b = .ok s') : s'.db.hasHardfork n := by
  obtain ⟨d, hbefore, hprocess⟩ := applyBlock_hardforks h
  have hd : d.hasHardfork n := by
    rw [Database.hasHardfork_core] at hn ⊢
    rwa [(beforeHardforks_next hbefore).1]
  obtain ⟨hs, hrun, -⟩ := Database.processHardforks_applies hprocess
  refine run_induction (P := fun _ e => e.hasHardfork n) hrun hd ?_
  intro _ e k e' he _ hstep
  obtain ⟨-, -, hforks, -⟩ := Database.applyHardfork_hardforks hstep
  simp only [Database.hasHardfork, hforks, List.length_append, decide_eq_true_eq] at he ⊢
  omega

/-- The states of runs since hardfork 12 in which no vote is for blocks greater than what a
message holds. -/
inductive SmallVotes (env : Env) : ChainState → Prop
  | since {s : ChainState} (h : Reachable env s) (h12 : s.db.hasHardfork 12)
    (hw : ∀ w ∈ s.db.witnesses.rows, w.props.maximumBlockSize ≤ wireLimit)
    (hs : s.db.gpo.maximumBlockSize ≤ wireLimit) : SmallVotes env s
  | block {s s' : ChainState} (b : Block) (h : SmallVotes env s)
    (hb : s.applyBlock env .nothing b = .ok s')
    (hv : ∀ t ∈ b.transactions, ∀ o ∈ t.operations, ∀ p ∈ o.props,
      p.maximumBlockSize ≤ wireLimit) : SmallVotes env s'

theorem SmallVotes.within (h : SmallVotes env s) :
    s.db.hasHardfork 12 ∧ s.db.core.Within wireLimit := by
  induction h with
  | since h h12 hw hs =>
    refine ⟨h12, fun k hk => ?_, hs⟩
    obtain ⟨w, hw', rfl⟩ := List.mem_map.1 hk
    exact hw w hw'
  | block b _ hb hv ih => exact ⟨applyBlock_hasHardfork ih.1 hb, applyBlock_within ih.2 hv hb⟩

/-- In such a run every block accepted fits the wire. -/
theorem SmallVotes.fits (h : SmallVotes env s) (hb : s.applyBlock env .nothing b = .ok s') :
    FitsWire env b := by
  obtain ⟨h12, hwithin⟩ := h.within
  obtain ⟨s₁, s₂, hstart, -, -⟩ := applyBlock_ok.1 hb
  obtain ⟨hcheck, -, -⟩ := startBlock_ok.1 hstart
  exact fitsWire_of_le (((checkBlock_ok.1 hcheck).2.2 h12).trans hwithin.size)

end ChainState

/-! ### Blocks of known size -/

/- `fc::raw` packs lengths and tags in groups of seven bits. -/
def varintSize (n : Nat) : Nat :=
  if n < 2 ^ 7 then 1 else if n < 2 ^ 14 then 2 else if n < 2 ^ 21 then 3
  else if n < 2 ^ 28 then 4 else 5

def packedString (size : Nat) : Nat := varintSize size + size

def packedNames (l : List Name) : Nat :=
  varintSize l.length + (l.map fun name => packedString (nameBytes name).length).sum

/- Of the operations only the one that the example packs has its size. -/
def Operation.packedSize : Operation → Nat
  | .customJson o => 1 + packedNames o.requiredAuths + packedNames o.requiredPostingAuths +
      packedString o.id.length + packedString o.json.size
  | _ => 1

def Transaction.packedSize (t : Transaction) : Nat :=
  2 + 4 + 4 + varintSize t.operations.length + (t.operations.map Operation.packedSize).sum +
    varintSize 0 + varintSize t.signatures.length + 65 * t.signatures.length

def HeaderExtension.packedSize : HeaderExtension → Nat
  | .void => 1
  | .version _ => 1 + 4
  | .hardforkVersionVote _ _ => 1 + 4 + 4

def Block.packedSize (b : Block) : Nat :=
  20 + 4 + packedString (nameBytes b.witness).length + 20 + varintSize b.extensions.length +
    (b.extensions.map HeaderExtension.packedSize).sum + 65 + varintSize b.transactions.length +
    (b.transactions.map Transaction.packedSize).sum

def Env.sized : Env := { Env.plain with packSize := Block.packedSize }

namespace ChainState

def produceSized (extensions : List HeaderExtension) (s : ChainState) (l : List Transaction) :
    Result ChainState := do
  s.applyBlock .sized .nothing (← s.nextBlock extensions l)

theorem Reachable.produceSized {extensions : List HeaderExtension} {s s' : ChainState}
    {blocks : List (List Transaction)} (h : Reachable .sized s)
    (hrun : blocks.foldlM (ChainState.produceSized extensions) s = .ok s') :
    Reachable .sized s' := by
  refine run_induction (P := fun _ s => Reachable .sized s) hrun h ?_
  intro _ s _ s' hs _ hstep
  obtain ⟨b, -, hb⟩ := bind_ok.1 hstep
  exact .block b hs hb

end ChainState

/- Three million bytes signed by a genesis account. -/
def demoBulk : Transaction where
  refBlockNum := 0
  refBlockPrefix := 0
  expiration := genesisTime + 60
  operations := [.customJson {
    requiredAuths := [Database.genesisAccountName 1]
    requiredPostingAuths := []
    id := []
    json := { size := 3000000 } }]
  signatures := [initPublicKey]

/-- Before hardfork 12 no size is checked: the first block may be of three million bytes. -/
theorem bulk_block_accepted : ∃ (s s' : ChainState) (b : Block), ChainState.Reachable .sized s ∧
    s.applyBlock .sized .nothing b = .ok s' ∧ ¬ FitsWire .sized b := by
  have h : (do
      let b ← (ChainState.initGenesis initSupply).nextBlock [] [demoBulk]
      let _ ← (ChainState.initGenesis initSupply).applyBlock .sized .nothing b
      return decide (FitsWire .sized b) : Result Bool) = .ok false := by
    decide +kernel
  obtain ⟨b, -, h⟩ := bind_ok.1 h
  obtain ⟨s', hs', h⟩ := bind_ok.1 h
  cases h' : decide (FitsWire .sized b) with
  | true => rw [h'] at h; cases h
  | false => exact ⟨_, s', b, .genesis, hs', of_decide_eq_false h'⟩

/-- After two rounds of votes the limits in force are those of the witnesses of the genesis. -/
theorem small_block_demo : ∃ (s : ChainState) (b : Block), ChainState.SmallVotes .sized s ∧
    FitsWire .sized b := by
  have h : ((List.replicate 101 []).foldlM (ChainState.produceSized demoVote)
      (ChainState.initGenesis initSupply) >>= fun s =>
        s.nextBlock demoVote [] >>= fun b => s.applyBlock .sized .nothing b >>= fun _ =>
          .ok (s.db.hasHardfork 12, decide (∀ w ∈ s.db.witnesses.rows,
            w.props.maximumBlockSize ≤ wireLimit), decide (s.db.gpo.maximumBlockSize ≤ wireLimit))) =
      .ok (true, true, true) := by
    decide +kernel
  obtain ⟨s, hrun, h⟩ := bind_ok.1 h
  obtain ⟨b, -, h⟩ := bind_ok.1 h
  obtain ⟨s', hs', h⟩ := bind_ok.1 h
  obtain ⟨h12, h⟩ := Prod.mk.inj (Except.ok.inj h)
  obtain ⟨hvotes, hsize⟩ := Prod.mk.inj h
  have hsmall : ChainState.SmallVotes .sized s :=
    .since (.produceSized .genesis hrun) h12 (of_decide_eq_true hvotes) (of_decide_eq_true hsize)
  exact ⟨s, b, hsmall, hsmall.fits hs'⟩

end WeNode.Chain
