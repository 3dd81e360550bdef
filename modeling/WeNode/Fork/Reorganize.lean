import WeNode.Fork.Switch

/-!
# A fork switch from end to end

The switch to a branch that is one block higher than the head: what it leaves when all blocks
of the branch are applied, and what it leaves when one fails and nothing above the fork point
became irreversible.
-/

namespace WeNode.Fork.Database

open WeNode.Lib

variable {τ ρ : Type} {R : Rules τ ρ}

/-- The state `k` blocks below the head. -/
def stateBack (d : Database τ ρ) (k : Nat) : ChainState ρ :=
  (Versioned.undo^[k] d.store).current

/-- The blocks of a branch in the order they are applied. -/
def blocksOf (first : List (ForkItem τ)) : List (SignedBlock τ) := first.reverse.map (·.data)

/-- The push asks for a switch to the branch `first`, one block higher than the head, and the
blocks `second` that would be popped can all be undone. -/
structure Reorg (R : Rules τ ρ) (d : Database τ ρ) (newHead : ForkItem τ)
    (first second : List (ForkItem τ)) : Prop where
  ok : d.forkDb.Ok R.hash
  head : d.forkDb.head = some newHead
  stored : newHead ∈ d.forkDb.index
  next : newHead.num = d.chain.headBlockNumber + 1
  other : newHead.data.previous ≠ d.chain.headBlockId
  branches : d.forkDb.fetchBranchFrom newHead.id d.chain.headBlockId = some (first, second)
  depth : second.length ≤ d.store.stack.length

/-- The locals of `_push_block` during a switch. -/
abbrev heldBy (newHead : ForkItem τ) (first second : List (ForkItem τ)) : List (ForkItem τ) :=
  newHead :: (first ++ second)

namespace Reorg

variable {d : Database τ ρ} {newHead : ForkItem τ} {first second : List (ForkItem τ)}

theorem spec (h : Reorg R d newHead first second) :
    Branches d.forkDb newHead.id d.chain.headBlockId first second :=
  fetchBranchFrom_spec h.branches

/-- A switch goes to a higher block. -/
theorem higher (h : Reorg R d newHead first second) :
    d.chain.headBlockNumber < newHead.data.blockNum := by
  have hnum := h.ok.sound.num_eq (ForkDatabase.index_live h.stored)
  have hnext := h.next
  omega

theorem mem_index (h : Reorg R d newHead first second) {x : ForkItem τ}
    (hx : x ∈ d.forkDb.live []) : x ∈ d.forkDb.index :=
  ForkDatabase.live_of_head_mem h.head h.stored hx

theorem first_index (h : Reorg R d newHead first second) : ∀ x ∈ first, x ∈ d.forkDb.index :=
  fun x hx => h.mem_index (h.spec.first_live x hx)

theorem second_index (h : Reorg R d newHead first second) : ∀ x ∈ second, x ∈ d.forkDb.index :=
  fun x hx => h.mem_index (h.spec.second_live x hx)

theorem first_head (h : Reorg R d newHead first second) : first.head? = some newHead := by
  obtain ⟨x, hx, hh, hid⟩ := h.spec.first_head
  rw [hh, h.ok.unique x hx newHead h.stored hid]

theorem length (h : Reorg R d newHead first second) (hc : Core R d) :
    first.length = second.length + 1 := by
  have hd := h.spec.length_diff h.ok
  have hn := h.ok.sound.id_num (ForkDatabase.index_live h.stored)
  have hn' := h.next
  have hs := hc.sane.id_num
  omega

theorem held_live (h : Reorg R d newHead first second) {x : ForkItem τ}
    (hx : x ∈ d.forkDb.live (heldBy newHead first second)) : x ∈ d.forkDb.live [] := by
  rcases (d.forkDb.mem_live _).mp hx with hx | hx | hx
  · exact ForkDatabase.index_live hx
  · exact ForkDatabase.head_live hx
  · rcases List.mem_cons.mp hx with rfl | hx
    · exact ForkDatabase.index_live h.stored
    · rcases List.mem_append.mp hx with hx | hx
      · exact h.spec.first_live x hx
      · exact h.spec.second_live x hx

/-- The fork point: the state the old branch leads back to. -/
theorem back_core (h : Reorg R d newHead first second) (hc : Core R d) {d' : Database τ ρ}
    (hs : d'.store = Versioned.undo^[second.length] d.store) (hl : d'.blockLog = d.blockLog) :
    Core R d' ∧ d'.chain.headBlockNumber + second.length = d.chain.headBlockNumber ∧
      d'.store.revision + second.length = d.store.revision := by
  have hcore := hc.back _ h.depth hs hl
  obtain ⟨-, hrev⟩ := Versioned.undo_iterate_stack d.store _ h.depth
  have h1 := hcore.revision
  have h2 := hc.revision
  have h3 := hc.records.length_le
  have h4 := h.depth
  rw [← hs] at hrev
  refine ⟨hcore, ?_, ?_⟩ <;> omega

/-- The state below the old branch. -/
theorem back (h : Reorg R d newHead first second) (hc : Core R d) :
    Sane (d.stateBack second.length) ∧
      (d.stateBack second.length).headBlockNumber + second.length = d.chain.headBlockNumber := by
  obtain ⟨hcore, hnum, -⟩ := h.back_core hc (show
    ({ d with store := Versioned.undo^[second.length] d.store } : Database τ ρ).store = _ from rfl)
    rfl
  exact ⟨hcore.sane, hnum⟩

theorem second_run (h : Reorg R d newHead first second) (hc : Core R d)
    (hcf : CollisionFree R.hash) :
    ChainState.coreRun R (d.stateBack second.length) (blocksOf second) = some d.chain ∧
      ∀ m ∈ ChainState.advances R (d.stateBack second.length) (blocksOf second),
        ∃ s, (s = d.chain ∨ ∃ e ∈ d.store.stack, e.state = s) ∧
          m.lastIrreversibleBlockNum = s.lastIrreversibleBlockNum ∧
          m.headBlockNumber = s.headBlockNumber := by
  obtain ⟨y, -, hy, hyid⟩ := h.spec.second_head
  refine records_coreRun h.ok.sound hcf second d.store hc.records h.spec.second_branch
    h.spec.second_live ?_ h.depth
  intro x hx
  rw [hy] at hx
  cases hx
  exact hyid.symm

theorem back_id (h : Reorg R d newHead first second) (hc : Core R d)
    (hcf : CollisionFree R.hash) {a : ForkItem τ} (ha : second.getLast? = some a) :
    (d.stateBack second.length).headBlockId = a.data.previous := by
  obtain ⟨hrun, -⟩ := h.second_run hc hcf
  have hsplit : blocksOf second = a.data :: (blocksOf second).tail := by
    unfold blocksOf
    cases hr : second.reverse with
    | nil =>
      rw [List.reverse_eq_nil_iff] at hr
      rw [hr] at ha
      cases ha
    | cons z l =>
      have hz : second.reverse.head? = some a := by rw [List.head?_reverse, ha]
      rw [hr] at hz
      have : z = a := by simpa using hz
      rw [this]
      rfl
  rw [hsplit] at hrun
  obtain ⟨t, ht, -⟩ := ChainState.coreRun_next hrun
  exact (ChainState.coreApply_head ht).1

/-- The first loop: the old branch is popped, the fork database's head ends at the new
branch's first block. -/
theorem popped (h : Reorg R d newHead first second) (hc : Core R d) (hcf : CollisionFree R.hash)
    {a : ForkItem τ} (ha : second.getLast? = some a) :
    ∃ G txs, first.getLast? = some G ∧
      popUntil R (heldBy newHead first second) a.data.previous (popFuel d) d = .ok
        { d with store := Versioned.undo^[second.length] d.store,
                 forkDb := { d.forkDb with head := some G }, poppedTx := txs } := by
  obtain ⟨y, hyi, hy, hyid⟩ := h.spec.second_head
  have hfuel : second.length < popFuel d := by
    have h1 := Branch.length_le h.ok.sound h.spec.second_branch h.spec.second_live hy
    have h2 := h.ok.sound.ptr_lt (ForkDatabase.index_live hyi)
    unfold popFuel
    omega
  have hlen := h.length hc
  obtain ⟨G, txs, hG, hpop⟩ := popUntil_branch h.ok.sound hcf second first d (popFuel d)
    (fun x hx => h.held_live hx) h.spec.second_branch ha
    (fun x hx => by rw [hy] at hx; cases hx; exact hyid.symm) h.second_index hc.records h.depth
    h.spec.first_branch (by rw [h.first_head, h.head]) (by omega)
    (fun x hx => .inl (h.first_index x hx)) hfuel
  refine ⟨G, txs, ?_, hpop⟩
  rw [List.getLast?_eq_getElem?, hlen]
  exact hG

end Reorg

/-! ### All blocks applied -/

/-- What a switch that goes through leaves behind. -/
structure Switched (R : Rules τ ρ) (d : Database τ ρ) (newHead G : ForkItem τ)
    (first second : List (ForkItem τ)) (d' : Database τ ρ) : Prop where
  core : Core R d'
  bounded : Bounded d'
  run : ChainState.coreRun R (d.stateBack second.length) (blocksOf first) = some d'.chain
  trimmed : Trimmed { d.forkDb with head := some G } d'.forkDb d'.chain.lastIrreversibleBlockNum
  grown : Grown { d.forkDb with head := some G } (heldBy newHead first second) d.blockLog
    d'.blockLog
  log_le : ∀ L, d.blockLog.length ≤ L → (∀ m ∈ ChainState.advances R
    (d.stateBack second.length) (blocksOf first), m.lastIrreversibleBlockNum ≤ L) →
    d'.blockLog.length ≤ L
  saved : ∀ e ∈ d'.store.stack, e ∈ d.store.stack ∨ ∃ bs, bs <+: blocksOf first ∧
    ChainState.coreRun R (d.stateBack second.length) bs = some e.state

theorem blocksOf_length (l : List (ForkItem τ)) : (blocksOf l).length = l.length := by
  simp [blocksOf]

theorem Switched.headBlockNumber {d d' : Database τ ρ} {newHead G : ForkItem τ}
    {first second : List (ForkItem τ)} (hw : Switched R d newHead G first second d')
    (h : Reorg R d newHead first second) (hc : Core R d) :
    d'.chain.headBlockNumber = d.chain.headBlockNumber + 1 := by
  obtain ⟨hsane, hnum⟩ := h.back hc
  obtain ⟨-, -, h3⟩ := ChainState.coreRun_sane hsane hw.run
  rw [h3, blocksOf_length, h.length hc]
  omega

section Loop

variable {d d₁ : Database τ ρ} {newHead G : ForkItem τ} {first second : List (ForkItem τ)}

/-- The state after the first loop. -/
structure AtForkPoint (d : Database τ ρ) (G : ForkItem τ) (k : Nat) (d₁ : Database τ ρ) :
    Prop where
  store : d₁.store = Versioned.undo^[k] d.store
  forkDb : d₁.forkDb = { d.forkDb with head := some G }
  blockLog : d₁.blockLog = d.blockLog

theorem AtForkPoint.chain {k : Nat} (h : AtForkPoint d G k d₁) : d₁.chain = d.stateBack k := by
  unfold Database.chain stateBack
  rw [h.store]

theorem AtForkPoint.mem_stack (hr : Reorg R d newHead first second)
    (h : AtForkPoint d G second.length d₁) {e : Saved (ChainState ρ)}
    (he : e ∈ d₁.store.stack) : e ∈ d.store.stack := by
  rw [h.store, (Versioned.undo_iterate_stack d.store _ hr.depth).1] at he
  exact List.mem_of_mem_drop he

theorem AtForkPoint.live (hr : Reorg R d newHead first second) (hG : first.getLast? = some G)
    {k : Nat} (h : AtForkPoint d G k d₁) {x : ForkItem τ}
    (hx : x ∈ d₁.forkDb.live (heldBy newHead first second)) : x ∈ d.forkDb.live [] := by
  rw [h.forkDb] at hx
  rcases (ForkDatabase.mem_live _ _).mp hx with hx | hx | hx
  · exact ForkDatabase.index_live hx
  · cases hx
    exact hr.spec.first_live G (List.mem_of_getLast? hG)
  · exact hr.held_live ((d.forkDb.mem_live _).mpr (.inr (.inr hx)))

/-- The fork database's head during the second loop is one above the fork point. -/
theorem AtForkPoint.head_num (hr : Reorg R d newHead first second) (hc : Core R d)
    (hcf : CollisionFree R.hash) (hG : first.getLast? = some G)
    (h : AtForkPoint d G second.length d₁) : G.num = d₁.chain.headBlockNumber + 1 := by
  obtain ⟨a, b, ha, hb, hab⟩ := hr.spec.last
  rw [hG] at ha
  cases ha
  obtain ⟨hcore, -, -⟩ := hr.back_core hc h.store h.blockLog
  have h1 := hr.ok.sound.previous_num (hr.spec.first_live G (List.mem_of_getLast? hG))
  have h2 := hr.back_id hc hcf hb
  rw [← h.chain] at h2
  have h3 := hcore.sane.id_num
  rw [h2, ← hab] at h3
  omega

theorem AtForkPoint.thresholds (hr : Reorg R d newHead first second) (hc : Core R d)
    (hcf : CollisionFree R.hash) (hG : first.getLast? = some G)
    (h : AtForkPoint d G second.length d₁) {m : ChainState ρ} {bs : List (SignedBlock τ)}
    (hm : m ∈ ChainState.advances R d₁.chain bs) :
    threshold G.num m ≤ m.lastIrreversibleBlockNum := by
  obtain ⟨hcore, -, -⟩ := hr.back_core hc h.store h.blockLog
  obtain ⟨hs, hlt⟩ := advances_sane hcore.sane hm
  exact threshold_le hs (by rw [h.head_num hr hc hcf hG]; omega)

theorem switched_of_ok (hr : Reorg R d newHead first second) (hc : Core R d)
    (hcf : CollisionFree R.hash) (hG : first.getLast? = some G)
    (h : AtForkPoint d G second.length d₁) {d' : Database τ ρ}
    (hd' : applyItems R (heldBy newHead first second) first.reverse d₁ = .ok d') :
    Switched R d newHead G first second d' := by
  obtain ⟨hcore, -, -⟩ := hr.back_core hc h.store h.blockLog
  obtain ⟨h1, h2, h3, -⟩ := applyItems_core hcore hd'
  have hF : d₁.forkDb.head = some G := by rw [h.forkDb]
  have hle : G.num ≤ d₁.chain.headBlockNumber + 1 := (h.head_num hr hc hcf hG).le
  have hgrown := applyItems_grown hcore hd' hr.ok.sound (fun x hx => h.live hr hG hx) hF hle
  have htrim := applyItems_trimmed hcore hd' hF (T := d'.chain.lastIrreversibleBlockNum)
    fun m hm => (h.thresholds hr hc hcf hG hm).trans (advances_lib_le hcore.sane h3 hm)
  refine ⟨h1, h2 ?_, ?_, ?_, ?_, ?_, ?_⟩
  · simpa using hr.spec.first_ne
  · rw [← h.chain]
    exact h3
  · rw [← h.forkDb]
    exact htrim
  · rw [← h.forkDb, ← h.blockLog]
    exact hgrown
  · intro L hL hm
    rw [← h.chain] at hm
    rw [← h.blockLog] at hL
    exact applyItems_log_le hcore hd' hL hm
  · intro e he
    rw [← h.chain]
    exact (applyItems_saved hcore hd' e he).imp_left fun he' => h.mem_stack hr he'

end Loop

/-! ### A block of the new branch fails -/

theorem removeItems_head (f : ForkDatabase τ) (xs : List (ForkItem τ)) :
    (removeItems f xs).head = f.head ∧ (removeItems f xs).nextPtr = f.nextPtr := by
  unfold removeItems
  induction xs generalizing f with
  | nil => exact ⟨rfl, rfl⟩
  | cons x xs ih => exact ih (f.remove x.id)

theorem mem_removeItems {f : ForkDatabase τ} {xs : List (ForkItem τ)} {x : ForkItem τ} :
    x ∈ (removeItems f xs).index ↔ x ∈ f.index ∧ ∀ y ∈ xs, x.id ≠ y.id := by
  unfold removeItems
  induction xs generalizing f with
  | nil => simp
  | cons y xs ih =>
    rw [List.foldl_cons, ih]
    simp only [ForkDatabase.remove, List.mem_filter, List.forall_mem_cons]
    constructor
    · rintro ⟨⟨h1, h2⟩, h3⟩
      exact ⟨h1, by simpa using h2, h3⟩
    · rintro ⟨h1, h2, h3⟩
      exact ⟨⟨h1, by simpa using h2⟩, h3⟩

/-- The state after the blocks `good` were applied and the next one failed, when nothing above
the state before them became irreversible. -/
structure Stopped (R : Rules τ ρ) (d₁ : Database τ ρ) (F : ForkItem τ)
    (good : List (ForkItem τ)) (ms : List (ChainState ρ)) (d₃ : Database τ ρ) : Prop where
  core : Core R d₃
  run : ChainState.coreRun R d₁.chain (good.map (·.data)) = some d₃.chain
  depth : good.length ≤ d₃.store.stack.length
  back : (Versioned.undo^[good.length] d₃.store).current = d₁.chain
  below : ∀ e ∈ (Versioned.undo^[good.length] d₃.store).stack, e ∈ d₁.store.stack
  trimmed : ∀ T, (∀ m ∈ ms, threshold F.num m ≤ T) → Trimmed d₁.forkDb d₃.forkDb T
  log : d₁.blockLog <+: d₃.blockLog
  log_le : ∀ L, d₁.blockLog.length ≤ L → (∀ m ∈ ms, m.lastIrreversibleBlockNum ≤ L) →
    d₃.blockLog.length ≤ L

theorem stopped_of_error (rest : List (ForkItem τ)) {held good : List (ForkItem τ)}
    {x F : ForkItem τ} {d₁ d₂ d₃ : Database τ ρ} {e : DbError} (hc : Core R d₁)
    (hF : d₁.forkDb.head = some F) (hgood : applyItems R held good d₁ = .ok d₂)
    (hx : applySession R held d₂ x.data = .error (e, d₃))
    (hlib : ∀ m ∈ ChainState.advances R d₁.chain ((good ++ x :: rest).map (·.data)),
      m.lastIrreversibleBlockNum ≤ d₁.store.revision) :
    Stopped R d₁ F good (ChainState.advances R d₁.chain ((good ++ x :: rest).map (·.data)))
      d₃ := by
  obtain ⟨hc₂, -, hrun, hlog₂⟩ := applyItems_core hc hgood
  have hadv : ChainState.advances R d₁.chain ((good ++ x :: rest).map (·.data)) =
      ChainState.advances R d₁.chain (good.map (·.data)) ++
        ChainState.advances R d₂.chain (x.data :: rest.map (·.data)) := by
    rw [List.map_append, ChainState.advances_append hrun, List.map_cons]
  rw [hadv] at hlib ⊢
  have hleft : ∀ m ∈ ChainState.advances R d₁.chain (good.map (·.data)),
      m ∈ ChainState.advances R d₁.chain (good.map (·.data)) ++
        ChainState.advances R d₂.chain (x.data :: rest.map (·.data)) :=
    fun m hm => List.mem_append_left _ hm
  obtain ⟨hrev, hfull, top, low, hst, htl, hlow, hlast, hnil⟩ := applyItems_stack hc hgood
    (Nat.le_refl _) (fun m hm => hlib m (hleft m hm)) (by omega)
  have htrim : ∀ T, (∀ m ∈ ChainState.advances R d₁.chain (good.map (·.data)) ++
      ChainState.advances R d₂.chain (x.data :: rest.map (·.data)), threshold F.num m ≤ T) →
      Trimmed d₁.forkDb d₂.forkDb T :=
    fun T hT => applyItems_trimmed hc hgood hF fun m hm => hT m (hleft m hm)
  have hle : ∀ L, d₁.blockLog.length ≤ L →
      (∀ m ∈ ChainState.advances R d₁.chain (good.map (·.data)) ++
        ChainState.advances R d₂.chain (x.data :: rest.map (·.data)),
        m.lastIrreversibleBlockNum ≤ L) → d₂.blockLog.length ≤ L :=
    fun L hL hm => applyItems_log_le hc hgood hL fun m h => hm m (hleft m h)
  rcases applySession_error hc₂.logOk hx with ⟨-, rfl⟩ | ⟨m, hm, hf⟩
  · refine ⟨hc₂, hrun, by omega, ?_, ?_, htrim, hlog₂, hle⟩
    · rw [← htl]
      exact Versioned.undo_iterate_current _ top low _ hst hlast hnil
    · intro e he
      rw [(Versioned.undo_iterate_stack _ _ (by omega)).1, hst, ← htl, List.drop_left] at he
      exact hlow.subset he
  · have hmem : m ∈ ChainState.advances R d₁.chain (good.map (·.data)) ++
        ChainState.advances R d₂.chain (x.data :: rest.map (·.data)) := by
      refine List.mem_append_right _ ?_
      simp only [ChainState.advances, hm]
      split <;> simp
    have hmlib := hlib m hmem
    have hstore := hf.store (by omega)
    obtain ⟨hc₃, hch, -⟩ := commit_core hc₂ hstore hf.logOk hf.grown.1
    have hlen := hc₂.records.commit_length m.lastIrreversibleBlockNum
    rw [← hstore] at hlen
    have hdepth : good.length ≤ d₃.store.stack.length := by omega
    have htop₂ : top <+: d₂.store.stack := by
      rw [hst]
      exact List.prefix_append _ _
    have hstack₃ : d₃.store.stack <+: d₂.store.stack := by
      rw [hstore]
      exact Versioned.keepAbove_suffix _ _
    have htop : top <+: d₃.store.stack :=
      List.prefix_of_prefix_length_le htop₂ hstack₃ (by omega)
    obtain ⟨low', hlow'⟩ := htop
    refine ⟨hc₃, by rw [hch]; exact hrun, hdepth, ?_, ?_, ?_, hlog₂.trans hf.grown.1, ?_⟩
    · rw [← htl]
      refine Versioned.undo_iterate_current _ top low' _ hlow'.symm hlast fun ht => ?_
      exact hch.trans (hnil ht)
    · intro e he
      rw [(Versioned.undo_iterate_stack _ _ hdepth).1, ← hlow', ← htl, List.drop_left] at he
      have hpre : top ++ low' <+: top ++ low := by
        rw [hlow', ← hst, hstore]
        exact Versioned.keepAbove_suffix _ _
      exact hlow.subset (((List.prefix_append_right_inj top).mp hpre).subset he)
    · intro T hT
      have h1 := htrim T hT
      rcases hf.fork with hfd | hfd
      · rw [hfd]
        exact h1
      · rw [hfd]
        exact h1.trans (setMaxSize_trimmed (by rw [h1.head, hF]) _ (hT m hmem))
    · intro L hL hms
      have h1 := hle L hL hms
      have h2 := hms m hmem
      have h3 := hf.length
      omega

/-- What a failed switch leaves behind once the old branch is restored. -/
structure Restored (R : Rules τ ρ) (d : Database τ ρ) (first second good bad : List (ForkItem τ))
    (d' : Database τ ρ) : Prop where
  core : Core R d'
  bounded : Bounded d'
  chain : d'.chain = d.chain
  head : ∃ F, d'.forkDb.head = some F ∧ F ∈ d.forkDb.index ∧
    F.num + good.length = d.chain.headBlockNumber ∧ (good = [] → F.id = d.chain.headBlockId)
  sub : ∀ x ∈ d'.forkDb.index, x ∈ d.forkDb.index ∧ ∀ y ∈ bad, x.id ≠ y.id
  keep : ∀ T, (∀ m ∈ ChainState.advances R (d.stateBack second.length) (blocksOf first),
      m.lastIrreversibleBlockNum ≤ T) →
    (∀ m ∈ ChainState.advances R (d.stateBack second.length) (blocksOf second),
      threshold (d.chain.headBlockNumber - good.length) m ≤ T) →
    ∀ x ∈ d.forkDb.index, T ≤ x.num → (∀ y ∈ bad, x.id ≠ y.id) → x ∈ d'.forkDb.index
  nextPtr : d'.forkDb.nextPtr = d.forkDb.nextPtr
  log : d.blockLog <+: d'.blockLog
  log_le : ∀ L, d.blockLog.length ≤ L →
    (∀ m ∈ ChainState.advances R (d.stateBack second.length) (blocksOf first),
      m.lastIrreversibleBlockNum ≤ L) → d'.blockLog.length ≤ L
  saved : ∀ e ∈ d'.store.stack, e ∈ d.store.stack ∨ ∃ bs, bs <+: blocksOf second ∧
    ChainState.coreRun R (d.stateBack second.length) bs = some e.state

theorem coreRun_last_id {s t : ChainState ρ} {bs : List (SignedBlock τ)} {b : SignedBlock τ}
    (h : ChainState.coreRun R s (bs ++ [b]) = some t) : t.headBlockId = b.id R.hash := by
  rw [ChainState.coreRun_append] at h
  obtain ⟨u, -, hu⟩ := Option.bind_eq_some_iff.mp h
  obtain ⟨v, hv, hu⟩ := ChainState.coreRun_next hu
  cases hu
  exact (ChainState.coreApply_head hv).2.2

/-- The fork point is still stored, as the parent that the old branch's last item points to. -/
def ForkPointStored (f : ForkDatabase τ) (second : List (ForkItem τ)) : Prop :=
  ∃ a P, second.getLast? = some a ∧ P ∈ f.index ∧ Links a P

section Restore

variable {d d₁ d₃ : Database τ ρ} {newHead G front : ForkItem τ}
  {first second good bad : List (ForkItem τ)}

theorem good_num (hr : Reorg R d newHead first second) (hc : Core R d)
    (hcf : CollisionFree R.hash) (hG : first.getLast? = some G)
    (h : AtForkPoint d G second.length d₁) (hsplit : first.reverse = good ++ bad) :
    (∀ x ∈ good, d₁.chain.headBlockNumber < x.num ∧
      x.num ≤ d₁.chain.headBlockNumber + good.length) ∧
    ∀ x ∈ bad, d₁.chain.headBlockNumber + good.length < x.num := by
  have hnum : ∀ (i : Nat) (x : ForkItem τ), first.reverse[i]? = some x →
      x.num = d₁.chain.headBlockNumber + 1 + i := by
    intro i x hx
    have hi : i < first.length := by
      by_contra hi
      rw [List.getElem?_eq_none (by simp; omega)] at hx
      cases hx
    rw [List.getElem?_reverse hi] at hx
    have hx' := Branch.num_eq hr.ok.sound first hr.spec.first_branch hr.spec.first_live _ newHead x
      hr.first_head hx
    rw [List.getLast?_eq_getElem?] at hG
    have hG' := Branch.num_eq hr.ok.sound first hr.spec.first_branch hr.spec.first_live _ newHead G
      hr.first_head hG
    have := h.head_num hr hc hcf (by rw [List.getLast?_eq_getElem?]; exact hG)
    omega
  refine ⟨fun x hx => ?_, fun x hx => ?_⟩
  · obtain ⟨i, hi⟩ := List.mem_iff_getElem?.mp hx
    have hlt : i < good.length := by
      by_contra hlt
      rw [List.getElem?_eq_none (by omega)] at hi
      cases hi
    have := hnum i x (by rw [hsplit, List.getElem?_append_left hlt, hi])
    omega
  · obtain ⟨i, hi⟩ := List.mem_iff_getElem?.mp hx
    have := hnum (good.length + i) x (by
      rw [hsplit, List.getElem?_append_right (by omega), Nat.add_sub_cancel_left, hi])
    omega

/-- The items the error handling still needs are in the index: those of the new branch that
were applied, and the fork point. -/
theorem kept_index (hr : Reorg R d newHead first second) (hc : Core R d)
    (hcf : CollisionFree R.hash) (hG : first.getLast? = some G)
    (h : AtForkPoint d G second.length d₁) (hsplit : first.reverse = good ++ bad)
    {ms : List (ChainState ρ)} (hst : Stopped R d₁ G good ms d₃)
    (hth : ∀ m ∈ ms, threshold G.num m ≤ d₁.chain.headBlockNumber) {x : ForkItem τ}
    (hx : x ∈ d.forkDb.index) (hlow : d₁.chain.headBlockNumber ≤ x.num)
    (hhigh : x.num ≤ d₁.chain.headBlockNumber + good.length) :
    x ∈ (removeItems d₃.forkDb bad).index := by
  have hS := hr.ok.sound
  refine mem_removeItems.mpr ⟨(hst.trimmed _ hth).keep x (by rw [h.forkDb]; exact hx) hlow, ?_⟩
  intro y hy he
  have hyf : y ∈ first := by
    rw [← List.mem_reverse, hsplit]
    exact List.mem_append_right _ hy
  have h1 := (good_num hr hc hcf hG h hsplit).2 y hy
  have h2 := hS.id_num (ForkDatabase.index_live hx)
  have h3 := hS.id_num (hr.spec.first_live y hyf)
  rw [he] at h2
  omega

theorem restore_pops (hr : Reorg R d newHead first second) (hc : Core R d)
    (hcf : CollisionFree R.hash) (hG : first.getLast? = some G)
    (h : AtForkPoint d G second.length d₁) (hsplit : first.reverse = good ++ bad)
    (hbad : bad ≠ []) {ms : List (ChainState ρ)} (hst : Stopped R d₁ G good ms d₃)
    (hth : ∀ m ∈ ms, threshold G.num m ≤ d₁.chain.headBlockNumber)
    (hfp : good.length = second.length → ForkPointStored d.forkDb second)
    (hfront : second.head? = some front) {a : ForkItem τ} (ha : second.getLast? = some a)
    (d₄ : Database τ ρ) (hs₄ : d₄.store = d₃.store)
    (hf₄ : d₄.forkDb = (removeItems d₃.forkDb bad).setHead front)
    (hl₄ : d₄.blockLog = d₃.blockLog) :
    ∃ F d₅, popUntil R (heldBy newHead first second) a.data.previous (popFuel d₄) d₄ = .ok d₅ ∧
      d₅.store = Versioned.undo^[good.length] d₃.store ∧ d₅.blockLog = d₃.blockLog ∧
      d₅.forkDb = { d₄.forkDb with head := some F } ∧ F ∈ d.forkDb.index ∧
      F.num + good.length = d.chain.headBlockNumber ∧
      (good = [] → F.id = d.chain.headBlockId) := by
  have hS := hr.ok.sound
  obtain ⟨y, hyi, hy, hyid⟩ := hr.spec.second_head
  rw [hfront] at hy
  cases hy
  have hynum : front.num = d.chain.headBlockNumber := by
    rw [← hS.id_num (ForkDatabase.index_live hyi), hyid, hc.sane.id_num]
  obtain ⟨hb, hnum, -⟩ := hr.back_core hc h.store h.blockLog
  obtain ⟨a', b', ha', hb', hab⟩ := hr.spec.last
  rw [hG] at ha'
  cases ha'
  rw [ha] at hb'
  cases hb'
  by_cases hg : good = []
  · subst hg
    have hrun := hst.run
    have hch : d₄.chain = d₁.chain := by
      unfold Database.chain
      rw [hs₄]
      exact (Option.some.inj hrun).symm
    have hstop : d₄.chain.headBlockId = a.data.previous := by
      rw [hch, h.chain]
      exact hr.back_id hc hcf ha
    refine ⟨front, d₄, ?_, hs₄, hl₄, ?_, hyi, by simpa using hynum, fun _ => hyid⟩
    · unfold popFuel
      rw [popUntil, if_pos hstop]
    · rw [hf₄]
      rfl
  · -- the applied part of the new branch, newest first
    have hfirst : first = bad.reverse ++ good.reverse := by
      rw [← List.reverse_append, ← hsplit, List.reverse_reverse]
    have hlen := hr.length hc
    have hcount : good.length + bad.length = first.length := by
      rw [hfirst]
      simp only [List.length_append, List.length_reverse]
      omega
    have hbpos : 0 < bad.length := List.length_pos_of_ne_nil hbad
    have hbranch : Branch good.reverse := by
      have := hr.spec.first_branch
      rw [hfirst] at this
      exact this.right_of_append
    have hglast : good.reverse.getLast? = some G := by
      rw [hfirst, List.getLast?_append] at hG
      cases hgl : good.reverse.getLast? with
      | none =>
        rw [List.getLast?_eq_none_iff, List.reverse_eq_nil_iff] at hgl
        exact absurd hgl hg
      | some z =>
        rw [hgl] at hG
        simpa using hG
    have hgfirst : ∀ x ∈ good, x ∈ first := by
      intro x hx
      rw [hfirst]
      exact List.mem_append_right _ (by simpa using hx)
    have hgnum := (good_num hr hc hcf hG h hsplit).1
    have hlive : ∀ x ∈ d₄.forkDb.live (heldBy newHead first second), x ∈ d.forkDb.live [] := by
      intro x hx
      rw [hf₄] at hx
      rcases (ForkDatabase.mem_live _ _).mp hx with hx | hx | hx
      · have h1 := (mem_removeItems.mp hx).1
        have h2 := (hst.trimmed _ hth).sub x h1
        rw [h.forkDb] at h2
        exact ForkDatabase.index_live h2
      · cases hx
        exact ForkDatabase.index_live hyi
      · exact hr.held_live ((d.forkDb.mem_live _).mpr (.inr (.inr hx)))
    have hidx : ∀ x ∈ good.reverse, x ∈ d₄.forkDb.index := by
      intro x hx
      have hxg : x ∈ good := by simpa using hx
      rw [hf₄]
      exact kept_index hr hc hcf hG h hsplit hst hth (hr.first_index x (hgfirst x hxg))
        (hgnum x hxg).1.le (hgnum x hxg).2
    have hid : ∀ x, good.reverse.head? = some x → d₄.chain.headBlockId = x.id := by
      intro x hx
      rw [List.head?_reverse] at hx
      obtain ⟨ys, rfl⟩ := List.getLast?_eq_some_iff.mp hx
      have hrun := hst.run
      rw [List.map_append] at hrun
      have h1 := coreRun_last_id hrun
      have h2 := hS.id_eq (hr.spec.first_live x (hgfirst x (by simp)))
      unfold Database.chain
      rw [hs₄, h2]
      exact h1
    -- the old branch, with the fork point if it is needed
    obtain ⟨g, hgb, hgh, hgl, hgm, hgi⟩ : ∃ g : List (ForkItem τ), Branch g ∧
        g.head? = some front ∧ good.length < g.length ∧
        (∀ y ∈ g, y ∈ d₄.forkDb.index ∨ y ∈ heldBy newHead first second) ∧
        ∀ y ∈ g, y ∈ d.forkDb.index := by
      have hheld : ∀ z ∈ second, z ∈ heldBy newHead first second := fun z hz =>
        List.mem_cons_of_mem _ (List.mem_append_right _ hz)
      by_cases hk : good.length = second.length
      · obtain ⟨a', P, ha', hP, hlink⟩ := hfp hk
        rw [ha] at ha'
        cases ha'
        have hPnum : P.num + 1 = a.num :=
          hS.prev_num (hr.spec.second_live a (List.mem_of_getLast? ha))
            (ForkDatabase.index_live hP) hlink
        have hanum : a.num = d₁.chain.headBlockNumber + 1 := by
          have h1 := hS.previous_num (hr.spec.second_live a (List.mem_of_getLast? ha))
          have h2 := hS.previous_num (hr.spec.first_live G (List.mem_of_getLast? hG))
          have h3 := h.head_num hr hc hcf hG
          rw [hab] at h2
          omega
        refine ⟨second ++ [P], ?_, ?_, by simp [hk], ?_, ?_⟩
        · refine List.IsChain.append hr.spec.second_branch (List.isChain_singleton _) ?_
          intro u hu v hv
          have hua : a = u := by rw [ha] at hu; simpa using hu
          have hvP : v = P := by simpa using hv.symm
          rw [← hua, hvP]
          exact hlink
        · cases hsec : second with
          | nil => exact absurd hsec hr.spec.second_ne
          | cons z l => rw [hsec] at hfront; simpa using hfront
        · intro z hz
          rcases List.mem_append.mp hz with hz | hz
          · exact .inr (hheld z hz)
          · have : z = P := by simpa using hz
            subst this
            left
            rw [hf₄]
            exact kept_index hr hc hcf hG h hsplit hst hth hP (by omega) (by omega)
        · intro z hz
          rcases List.mem_append.mp hz with hz | hz
          · exact hr.second_index z hz
          · have : z = P := by simpa using hz
            rw [this]
            exact hP
      · exact ⟨second, hr.spec.second_branch, hfront, by omega, fun z hz => .inr (hheld z hz),
          hr.second_index⟩
    have hgfuel : good.reverse.length < popFuel d₄ := by
      have h1 := Branch.length_le hS hgb (fun z hz => ForkDatabase.index_live (hgi z hz)) hgh
      have h2 := hS.ptr_lt (ForkDatabase.index_live hyi)
      have h3 : d₄.forkDb.nextPtr = d.forkDb.nextPtr := by
        rw [hf₄]
        change (removeItems d₃.forkDb bad).nextPtr = _
        rw [(removeItems_head _ _).2, (hst.trimmed _ hth).nextPtr, h.forkDb]
      unfold popFuel
      rw [h3, List.length_reverse]
      omega
    have hrec₄ : d₄.store.Records (Step R) := by
      rw [hs₄]
      exact hst.core.records
    obtain ⟨F, txs, hF, hpop⟩ := popUntil_branch hS hcf good.reverse g d₄ (popFuel d₄) hlive
      hbranch hglast hid hidx hrec₄ (by rw [hs₄, List.length_reverse]; exact hst.depth) hgb
      (by rw [hgh, hf₄]; rfl) (by rw [List.length_reverse]; exact hgl) hgm hgfuel
    rw [List.length_reverse] at hF hpop
    rw [← hab]
    refine ⟨F, _, hpop, by rw [hs₄], hl₄, rfl, hgi F (List.mem_of_getElem? hF), ?_,
      fun hn => absurd hn hg⟩
    have := Branch.num_eq hS g hgb (fun z hz => ForkDatabase.index_live (hgi z hz)) _ front F hgh hF
    omega

/-- **A failed switch is undone**: when a block of the new branch fails and nothing above the
fork point became irreversible, the old branch is restored and the exception leaves. -/
theorem restore_spec (hr : Reorg R d newHead first second) (hc : Core R d)
    (hcf : CollisionFree R.hash) (hG : first.getLast? = some G)
    (h : AtForkPoint d G second.length d₁) (hsplit : first.reverse = good ++ bad)
    (hbad : bad ≠ [])
    (hst : Stopped R d₁ G good (ChainState.advances R d₁.chain (blocksOf first)) d₃)
    (hlib : ∀ m ∈ ChainState.advances R d₁.chain (blocksOf first),
      m.lastIrreversibleBlockNum ≤ d₁.chain.headBlockNumber)
    (hfp : good.length = second.length → ForkPointStored d.forkDb second) (e : DbError) :
    ∃ d', restore R (heldBy newHead first second) second bad e d₃ = (e, d') ∧
      Restored R d first second good bad d' := by
  have hS := hr.ok.sound
  have hth : ∀ m ∈ ChainState.advances R d₁.chain (blocksOf first),
      threshold G.num m ≤ d₁.chain.headBlockNumber :=
    fun m hm => (h.thresholds hr hc hcf hG hm).trans (hlib m hm)
  obtain ⟨front, hyi, hfront, hyid⟩ := hr.spec.second_head
  obtain ⟨-, a, -, ha, -⟩ := hr.spec.last
  obtain ⟨F, d₅, hpop, hs₅, hl₅, hf₅, hFi, hFn, hFid⟩ := restore_pops hr hc hcf hG h hsplit hbad
    hst hth hfp hfront ha { d₃ with forkDb := (removeItems d₃.forkDb bad).setHead front }
    rfl rfl rfl
  have hc₅ : Core R d₅ := hst.core.back _ hst.depth hs₅ hl₅
  have hch₅ : d₅.chain = d.stateBack second.length := by
    unfold Database.chain
    rw [hs₅, hst.back, h.chain]
  have hlog₅ : d.blockLog <+: d₅.blockLog := by
    rw [hl₅, ← h.blockLog]
    exact hst.log
  have hsub₅ : ∀ x ∈ d₅.forkDb.index, x ∈ d.forkDb.index ∧ ∀ y ∈ bad, x.id ≠ y.id := by
    intro x hx
    rw [hf₅] at hx
    obtain ⟨h1, h2⟩ := mem_removeItems.mp hx
    have h3 := (hst.trimmed _ hth).sub x h1
    rw [h.forkDb] at h3
    exact ⟨h3, h2⟩
  obtain ⟨hrun, hadv⟩ := hr.second_run hc hcf
  have hquiet : ∀ m ∈ ChainState.advances R d₅.chain (blocksOf second),
      m.lastIrreversibleBlockNum ≤ d₅.blockLog.length := by
    intro m hm
    rw [hch₅] at hm
    obtain ⟨s, hs, hlib, -⟩ := hadv m hm
    rw [hlib]
    refine le_trans ?_ hlog₅.length_le
    rcases hs with rfl | ⟨e, he, rfl⟩
    · exact hc.logged
    · exact hc.savedLogged e he
  obtain ⟨d', hd', hchain⟩ := applyItems_quiet
    (heldBy newHead first second) second.reverse hc₅ (by rw [hch₅]; exact hrun) hS (by
      intro x hx
      rcases (ForkDatabase.mem_live _ _).mp hx with hx | hx | hx
      · exact ForkDatabase.index_live (hsub₅ x hx).1
      · rw [hf₅] at hx
        cases hx
        exact ForkDatabase.index_live hFi
      · exact hr.held_live ((d.forkDb.mem_live _).mpr (.inr (.inr hx)))) hquiet
  obtain ⟨hc', hb', -, hlog'⟩ := applyItems_core hc₅ hd'
  have hhead₅ : d₅.forkDb.head = some F := by rw [hf₅]
  have htrim' := fun T hT => applyItems_trimmed hc₅ hd' hhead₅ (T := T) hT
  have hall := htrim' (F.num) (fun m _ => by unfold threshold; omega)
  have hnp : d₅.forkDb.nextPtr = d.forkDb.nextPtr := by
    rw [hf₅]
    change (removeItems d₃.forkDb bad).nextPtr = _
    rw [(removeItems_head _ _).2, (hst.trimmed _ hth).nextPtr, h.forkDb]
  refine ⟨d', ?_, hc', hb' (by simpa using hr.spec.second_ne), hchain, ⟨F, ?_, hFi, hFn, hFid⟩,
    fun x hx => hsub₅ x (hall.sub x hx), ?_, by rw [hall.nextPtr, hnp], hlog₅.trans hlog', ?_, ?_⟩
  · simp only [restore, hfront, ha, hpop, hd']
  · rw [hall.head, hhead₅]
  · intro T hT1 hT2 x hx hTx hxb
    refine (htrim' T ?_).keep x ?_ hTx
    · intro m hm
      change m ∈ ChainState.advances R d₅.chain (blocksOf second) at hm
      rw [hch₅] at hm
      have := hT2 m hm
      rwa [show F.num = d.chain.headBlockNumber - good.length by omega]
    · rw [hf₅]
      refine mem_removeItems.mpr ⟨(hst.trimmed T ?_).keep x (by rw [h.forkDb]; exact hx) hTx, hxb⟩
      intro m hm
      refine (h.thresholds hr hc hcf hG hm).trans (hT1 m ?_)
      rw [← h.chain]
      exact hm
  · intro L hL hm
    rw [← h.chain] at hm
    rw [← h.blockLog] at hL
    have h1 := hst.log_le L hL hm
    have h2 := applyItems_log_le hc₅ hd' (Nat.le_refl _) hquiet
    rw [hl₅] at h2
    omega
  · intro e he
    rw [← hch₅]
    refine (applyItems_saved hc₅ hd' e he).imp_left fun he' => ?_
    rw [hs₅] at he'
    exact h.mem_stack hr (hst.below e he')

end Restore

end WeNode.Fork.Database
