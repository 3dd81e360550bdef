import WeNode.Fork.Runs

/-!
# Fork choice

The chain's head is a highest block among those received whose ancestry applies, as long as no
push meets a fork database whose head was left above the chain's by a failed block, and every
switch can be carried out or undone.
-/

namespace WeNode.Fork.Database

open WeNode.Lib

variable {τ ρ : Type} {R : Rules τ ρ}

/-! ### Blocks whose ancestry applies -/

/-- The consensus states that blocks among `recv` lead to from `s₀`: the state after a block
whose whole ancestry down to the initial head applies. -/
inductive Reached (R : Rules τ ρ) (s₀ : ChainState ρ) (recv : List (SignedBlock τ)) :
    ChainState ρ → Prop
  | start : Reached R s₀ recv s₀
  | block {s t : ChainState ρ} (b : SignedBlock τ) (hs : Reached R s₀ recv s) (hb : b ∈ recv)
      (ht : s.coreApply R b = some t) : Reached R s₀ recv t

namespace Reached

variable {s₀ s t : ChainState ρ} {recv : List (SignedBlock τ)}

theorem mono {recv' : List (SignedBlock τ)} (h : Reached R s₀ recv s)
    (hsub : ∀ b ∈ recv, b ∈ recv') : Reached R s₀ recv' s := by
  induction h with
  | start => exact .start
  | block b _ hb ht ih => exact .block b ih (hsub b hb) ht

theorem sane (h : Reached R s₀ recv s) (h0 : Sane s₀) :
    Sane s ∧ s₀.headBlockNumber ≤ s.headBlockNumber := by
  induction h with
  | start => exact ⟨h0, le_rfl⟩
  | block b _ _ ht ih =>
    obtain ⟨h1, -, h3⟩ := ChainState.coreApply_sane ih.1 ht
    exact ⟨h1, by omega⟩

/-- A state above the initial one was reached by the block of its head id. -/
theorem last (h : Reached R s₀ recv s) (hlt : s₀.headBlockNumber < s.headBlockNumber) :
    ∃ p b, Reached R s₀ recv p ∧ b ∈ recv ∧ p.coreApply R b = some s := by
  cases h with
  | start => exact absurd hlt (lt_irrefl _)
  | block b hp hb ht => exact ⟨_, b, hp, hb, ht⟩

/-- The head id determines the state. -/
theorem unique (hcf : CollisionFree R.hash) (h0 : Sane s₀) (hs : Reached R s₀ recv s)
    (ht : Reached R s₀ recv t) (hid : s.headBlockId = t.headBlockId) : s = t := by
  induction hs generalizing t with
  | start =>
    cases ht with
    | start => rfl
    | block b hp hb hbt =>
      obtain ⟨h1, h2⟩ := hp.sane h0
      obtain ⟨h3, -, h4⟩ := ChainState.coreApply_sane h1 hbt
      have h5 := h0.id_num
      have h6 := h3.id_num
      rw [hid] at h5
      omega
  | @block p s b hp hb hbs ih =>
    obtain ⟨h1, h2⟩ := hp.sane h0
    obtain ⟨h3, -, h4⟩ := ChainState.coreApply_sane h1 hbs
    have htn := (ht.sane h0).1.id_num
    have hsn := h3.id_num
    rw [hid] at hsn
    obtain ⟨q, c, hq, -, hct⟩ := ht.last (by omega)
    obtain ⟨hbp, -, hbid⟩ := ChainState.coreApply_head hbs
    obtain ⟨hcp, -, hcid⟩ := ChainState.coreApply_head hct
    have hbc : b = c := hcf b c (by rw [← hbid, ← hcid, hid])
    subst hbc
    have hpq := ih hq (by rw [hbp, hcp])
    subst hpq
    exact Option.some.inj (hbs.symm.trans hct)

theorem run {bs : List (SignedBlock τ)} (hs : Reached R s₀ recv s)
    (hrun : ChainState.coreRun R s bs = some t) (hb : ∀ b ∈ bs, b ∈ recv) :
    Reached R s₀ recv t := by
  induction bs generalizing s with
  | nil =>
    cases hrun
    exact hs
  | cons b bs ih =>
    obtain ⟨u, hu, hrun⟩ := ChainState.coreRun_next hrun
    exact ih (.block b hs (hb b (by simp)) hu) hrun fun c hc => hb c (by simp [hc])

/-- A branch of stored items that ends in a block whose ancestry applies can be applied from
the state it starts at. -/
theorem branch_run (hcf : CollisionFree R.hash) (h0 : Sane s₀) {S : ForkItem τ → Prop} {n : Nat}
    (hS : Sound R.hash S n) {base : ChainState ρ} (hbase : Reached R s₀ recv base) :
    ∀ (l : List (ForkItem τ)) (s : ChainState ρ), Branch l → (∀ x ∈ l, S x) →
      (∀ a, l.getLast? = some a → a.data.previous = base.headBlockId) →
      (∀ x, l.head? = some x → s.headBlockId = x.id) → l ≠ [] → Reached R s₀ recv s →
      ChainState.coreRun R base (blocksOf l) = some s
  | [], _, _, _, _, _, hne, _ => absurd rfl hne
  | x :: l, s, hl, hm, hlast, hhead, _, hs => by
    have hxS := hm x (by simp)
    have hxid := hhead x rfl
    have hsane := hs.sane h0
    have hbs := hbase.sane h0
    have hxnum : x.num = s.headBlockNumber := by
      rw [← hS.id_num hxS, ← hxid, hsane.1.id_num]
    have hlow : base.headBlockNumber < x.num := by
      cases hgl : (x :: l).getLast? with
      | none => simp at hgl
      | some a =>
        have h1 := Branches.length_of_last hS hl hm rfl hgl
        rw [hlast a hgl, hbs.1.id_num, List.length_cons] at h1
        omega
    obtain ⟨p, b, hp, hb, hbs'⟩ := hs.last (by omega)
    obtain ⟨hprev, -, hid⟩ := ChainState.coreApply_head hbs'
    have hxb : x.data = b := hS.data_inj hcf hxS (by rw [← hxid, hid])
    have hstep : ChainState.coreRun R p [x.data] = some s := by
      simp only [ChainState.coreRun, hxb, hbs']
    have hsplit : blocksOf (x :: l) = blocksOf l ++ [x.data] := by simp [blocksOf]
    cases l with
    | nil =>
      have hpb : p = base := hp.unique hcf h0 hbase (by
        rw [hprev, ← hxb]
        exact hlast x rfl)
      rw [← hpb]
      exact hstep
    | cons y l =>
      have hyS := hm y (by simp)
      have hxy := (List.isChain_cons_cons.mp hl).1
      have hrec := branch_run hcf h0 hS hbase (y :: l) p (List.isChain_cons_cons.mp hl).2
        (fun z hz => hm z (List.mem_cons_of_mem _ hz))
        (fun a ha => hlast a (by simpa using ha))
        (fun z hz => by
          have hyz : y = z := by simpa using hz
          rw [← hyz, hprev, ← hxb, hS.prev_id hxS hyS hxy]) (by simp) hp
      rw [hsplit, ChainState.coreRun_append, hrec]
      exact hstep

end Reached

/-! ### The fork database beside the chain -/

/-- No stored block is above the chain's head, and the fork database's head is not either,
unless it is a block that failed on top of it. -/
structure Aligned (d : Database τ ρ) : Prop where
  empty : d.forkDb.head = none → d.forkDb.index = []
  index_le : ∀ x ∈ d.forkDb.index, x.num ≤ d.chain.headBlockNumber
  head_le : ∀ h, d.forkDb.head = some h →
    h.num ≤ d.chain.headBlockNumber ∨ h.data.previous = d.chain.headBlockId

theorem Opened.aligned {d : Database τ ρ} (h : Opened R d) : Aligned d := by
  rcases h.fork with ⟨-, hf⟩ | ⟨b, -, hid, hf⟩
  · constructor <;> simp [hf, ForkDatabase.empty]
  · have hnum : b.blockNum = d.chain.headBlockNumber := by
      rw [← h.sane.id_num, ← hid]
      rfl
    constructor
    · simp [hf, ForkDatabase.startBlock]
    · intro x hx
      have : x = ⟨0, none, b.blockNum, false, b.id R.hash, b⟩ := by
        simpa [hf, ForkDatabase.startBlock, ForkDatabase.insert, ForkDatabase.empty] using hx
      rw [this]
      exact hnum.le
    · intro x hx
      left
      have : (⟨0, none, b.blockNum, false, b.id R.hash, b⟩ : ForkItem τ) = x := by
        simpa [hf, ForkDatabase.startBlock, ForkDatabase.empty] using hx
      rw [← this]
      exact hnum.le

theorem Accepted.item_le {d : Database τ ρ} {b : SignedBlock τ} {f : ForkDatabase τ}
    {item newHead : ForkItem τ} (ha : Accepted R d b f item newHead) :
    item.num ≤ newHead.num := by
  rcases ha.pushed.head with ⟨h1, -⟩ | ⟨h, -, h2, h3⟩
  · rw [ha.head] at h1
    cases h1
    exact le_rfl
  · rw [ha.head] at h2
    cases h2
    exact h3

theorem Accepted.mem_index {d : Database τ ρ} {b : SignedBlock τ} {f : ForkDatabase τ}
    {item newHead : ForkItem τ} (ha : Accepted R d b f item newHead) {x : ForkItem τ}
    (hx : x ∈ f.index) : x ∈ d.forkDb.index ∨ x = item := by
  rcases ha.pushed.index with ⟨hi, -⟩ | ⟨hi, -⟩
  · rw [hi] at hx
    exact (List.mem_append.mp hx).imp_right fun h => by simpa using h
  · rw [hi] at hx
    exact .inl hx

/-- In an aligned database a higher branch ends in the pushed block itself, which is new and
one block above the head. -/
theorem Aligned.higher {d : Database τ ρ} (hal : Aligned d) {b : SignedBlock τ}
    {f : ForkDatabase τ} {item newHead : ForkItem τ} (ha : Accepted R d b f item newHead)
    (hne : newHead.data.previous ≠ d.chain.headBlockId)
    (hlt : d.chain.headBlockNumber < newHead.data.blockNum)
    (hbr : (f.fetchBranchFrom newHead.id d.chain.headBlockId).isSome = true)
    (hsane : Sane d.chain) :
    newHead = item ∧ newHead ∈ f.index ∧ newHead.num = d.chain.headBlockNumber + 1 := by
  have hnum := ha.pushed.ok.sound.num_eq (ForkDatabase.head_live ha.head)
  have hitem : newHead = item ∧ ∀ h, d.forkDb.head = some h → h.num < item.num := by
    rcases ha.pushed.head with ⟨h1, h2⟩ | ⟨h, h1, h2, -⟩
    · rw [ha.head] at h1
      cases h1
      exact ⟨rfl, h2⟩
    · rw [ha.head] at h2
      cases h2
      rcases hal.head_le newHead h1 with h3 | h3
      · omega
      · exact absurd h3 hne
  obtain ⟨rfl, -⟩ := hitem
  have hmem : newHead ∈ f.index := by
    rcases ha.pushed.index with ⟨hi, -⟩ | ⟨-, y, hy, hyid⟩
    · rw [hi]
      simp
    · have h1 := hal.index_le y hy
      have h2 := ha.pushed.ok.sound.id_num (ForkDatabase.head_live ha.head)
      rcases ha.pushed.index with ⟨hi, -⟩ | ⟨hi, -⟩
      · rw [hi]
        simp
      · have h3 := ha.pushed.ok.sound.id_num (ForkDatabase.index_live (hi ▸ hy))
        rw [hyid] at h3
        omega
  refine ⟨rfl, hmem, ?_⟩
  have hbn := ha.pushed.num
  by_cases hz : d.forkDb.head = none ∨ b.previous = BlockId.zero
  · rcases hz with hz | hz
    · -- the fork database was empty: the head block cannot be found in it
      obtain ⟨⟨first, second⟩, hfs⟩ := Option.isSome_iff_exists.mp hbr
      obtain ⟨y, hyi, -, hyid⟩ := (fetchBranchFrom_spec hfs).second_head
      have hy : y = newHead := (ha.mem_index hyi).elim (fun h => by
        rw [hal.empty hz] at h
        cases h) id
      have h1 := ha.pushed.ok.sound.id_num (ForkDatabase.index_live hyi)
      rw [hyid, hsane.id_num, hy] at h1
      omega
    · rw [SignedBlock.blockNum, hz] at hbn
      have : BlockId.zero.num = 0 := rfl
      omega
  · push Not at hz
    obtain ⟨p, hp, hpid, -⟩ := ha.pushed.prev_some hz.1 hz.2
    have h1 := hal.index_le p hp
    have hpf : p ∈ f.index := by
      rcases ha.pushed.index with ⟨hi, -⟩ | ⟨hi, -⟩
      · rw [hi]
        exact List.mem_append_left _ hp
      · rw [hi]
        exact hp
    have h2 := ha.pushed.ok.sound.id_num (ForkDatabase.index_live hpf)
    rw [hpid] at h2
    rw [SignedBlock.blockNum] at hbn
    omega

theorem Aligned.parked {d : Database τ ρ} {b : SignedBlock τ} (hal : Aligned d)
    {f : ForkDatabase τ} {item newHead : ForkItem τ} (ha : Accepted R d b f item newHead)
    (hle : newHead.num ≤ d.chain.headBlockNumber) : Aligned { d with forkDb := f } where
  empty h := by
    have hh : f.head = none := h
    rw [ha.head] at hh
    cases hh
  index_le x hx := by
    rcases ha.mem_index hx with hx | rfl
    · exact hal.index_le x hx
    · exact ha.item_le.trans hle
  head_le h hh := by
    have hh' : f.head = some h := hh
    rw [ha.head] at hh'
    cases hh'
    exact .inl hle

/-- A block refused on top of the head is not in the index; the fork database's head may have
stayed on it. -/
theorem Aligned.removed {d d' : Database τ ρ} {b : SignedBlock τ} (hal : Aligned d)
    {f : ForkDatabase τ} {item newHead : ForkItem τ} (ha : Accepted R d b f item newHead)
    (he : newHead.data.previous = d.chain.headBlockId) (hch : d'.chain = d.chain)
    (hhead : d'.forkDb.head = f.head)
    (hsub : ∀ x ∈ d'.forkDb.index, x ∈ f.index ∧ x.id ≠ b.id R.hash) : Aligned d' where
  empty h := by
    rw [hhead, ha.head] at h
    cases h
  index_le x hx := by
    obtain ⟨h1, h2⟩ := hsub x hx
    rw [hch]
    rcases ha.mem_index h1 with h | h
    · exact hal.index_le x h
    · rw [h] at h2
      exact absurd ha.pushed.id h2
  head_le h hh := by
    rw [hhead, ha.head] at hh
    cases hh
    rw [hch]
    exact .inr he

theorem Outcome.aligned {d : Database τ ρ} {b : SignedBlock τ}
    {r : Except (DbError × Database τ ρ) (Database τ ρ × Bool)} (hi : Inv R d) (hal : Aligned d)
    (hlinked : ∀ f newHead, d.forkDb.pushBlock R.hash b = .ok f → f.head = some newHead →
      newHead.data.previous ≠ d.chain.headBlockId →
      d.chain.headBlockNumber < newHead.data.blockNum →
      (f.fetchBranchFrom newHead.id d.chain.headBlockId).isSome = true)
    (h : Outcome R d b r) : Aligned (after r) := by
  cases h with
  | rejected he => exact hal
  | parked ha hne hle =>
    refine hal.parked ha ?_
    rw [ha.pushed.ok.sound.num_eq (ForkDatabase.head_live ha.head)]
    exact hle
  | unlinked ha hne hlt hb =>
    have := hlinked _ _ ha.push ha.head hne hlt
    rw [hb] at this
    cases this
  | @extended f item newHead d' ha he hd =>
    have hnew : d'.chain.headBlockNumber = d.chain.headBlockNumber + 1 :=
      (ChainState.coreApply_sane hi.sane hd.core).2.2
    have hN : newHead.num = d.chain.headBlockNumber + 1 := ha.newHead_num hi he
    have hhead : d'.forkDb.head = some newHead := by
      rw [hd.fork, ForkDatabase.setMaxSize_head]
      exact ha.head
    refine ⟨fun h => ?_, fun x hx => ?_, fun h hh => ?_⟩
    · rw [after_ok, hhead] at h
      cases h
    · rw [after_ok, hd.fork] at hx
      rw [after_ok]
      rcases ha.mem_index (ForkDatabase.mem_setMaxSize.mp hx).1 with h | rfl
      · have := hal.index_le x h
        omega
      · have := ha.item_le
        omega
    · rw [after_ok, hhead] at hh
      cases hh
      left
      rw [after_ok]
      omega
  | refused ha he hadv =>
    refine hal.removed ha he rfl rfl fun x hx => ?_
    simp only [after_error, ForkDatabase.remove, List.mem_filter] at hx
    exact ⟨hx.1, by simpa using hx.2⟩
  | @undone f item newHead d₁ m e ha he hadv hlib hng hf =>
    have hstore := hf.store (by
      change m.lastIrreversibleBlockNum ≤ d.store.revision
      rw [hi.revision]
      exact hlib)
    refine hal.removed ha he ?_ ?_ fun x hx => ?_
    · change d₁.store.current = d.store.current
      rw [hstore]
      rfl
    · change d₁.forkDb.head = f.head
      rcases hf.fork with h | h
      · rw [h]
      · rw [h, ForkDatabase.setMaxSize_head]
    · simp only [after_error, ForkDatabase.remove, List.mem_filter] at hx
      refine ⟨?_, by simpa using hx.2⟩
      rcases hf.fork with h | h
      · rw [h] at hx
        exact hx.1
      · rw [h] at hx
        exact (ForkDatabase.mem_setMaxSize.mp hx.1).1
  | @switched f item newHead G first second d' ha hr hG hgoes hw =>
    have hc : Core R { d with forkDb := f } := hi.toCore.congr rfl rfl
    have hnum : d'.chain.headBlockNumber = newHead.num := by
      rw [hw.headBlockNumber hr hc, hr.next]
    have hle : ∀ x ∈ f.index, x.num ≤ newHead.num := by
      intro x hx
      rcases ha.mem_index hx with h | rfl
      · have h1 := hal.index_le x h
        have h2 : newHead.num = d.chain.headBlockNumber + 1 := hr.next
        omega
      · exact ha.item_le
    refine ⟨fun h => ?_, fun x hx => ?_, fun h hh => ?_⟩
    · rw [after_ok, hw.trimmed.head] at h
      cases h
    · rw [after_ok, hnum]
      exact hle x (hw.trimmed.sub x hx)
    · rw [after_ok, hw.trimmed.head] at hh
      cases hh
      left
      rw [after_ok, hnum]
      exact hle G (hr.first_index G (List.mem_of_getLast? hG))
  | @restored f item newHead x first second good rest d' e ha hr hsplit hlib hgood hfail hw =>
    obtain ⟨F, hF, hFi, hFn, -⟩ := hw.head
    have hlt : d.chain.headBlockNumber < newHead.data.blockNum := hr.higher
    obtain ⟨hNi, -, -⟩ := hal.higher ha hr.other hlt (by
      have hb : f.fetchBranchFrom newHead.id d.chain.headBlockId = some (first, second) :=
        hr.branches
      rw [hb]
      rfl) hi.sane
    have hbad : newHead ∈ x :: rest := by
      have h1 : (x :: rest).getLast? = some newHead := by
        have h2 : first.reverse.getLast? = some newHead := by
          rw [List.getLast?_reverse, hr.first_head]
        rw [hsplit, List.getLast?_append] at h2
        cases hl : (x :: rest).getLast? with
        | none => simp at hl
        | some z =>
          rw [hl] at h2
          simpa using h2
      exact List.mem_of_getLast? h1
    refine ⟨fun h => ?_, fun y hy => ?_, fun h hh => ?_⟩
    · rw [after_error, hF] at h
      cases h
    · obtain ⟨h1, h2⟩ := hw.sub y hy
      rw [after_error, hw.chain]
      rcases ha.mem_index h1 with h | h
      · exact hal.index_le y h
      · rw [h, ← hNi] at h2
        exact absurd rfl (h2 newHead hbad)
    · rw [after_error, hF] at hh
      cases hh
      left
      rw [after_error, hw.chain]
      have hFn' : F.num + good.length = d.chain.headBlockNumber := hFn
      change F.num ≤ d.chain.headBlockNumber
      omega

/-! ### The condition -/

/-- The push is carried out or undone: a block on the head applies, or fails without making
itself irreversible; a higher branch leads back to the chain within the undo sessions, and
applies as a whole or fails without making a block above the fork point irreversible. -/
def CarriedOut (R : Rules τ ρ) (d : Database τ ρ) (b : SignedBlock τ) : Prop :=
  ∀ f newHead, d.forkDb.pushBlock R.hash b = .ok f → f.head = some newHead →
    (newHead.data.previous = d.chain.headBlockId →
      Goes R f [newHead] d.blockLog d.chain [b] ∨
        (¬ ChainState.coreRun R d.chain [b] ≠ none ∧
          LibBelow R d.chain [b] d.chain.headBlockNumber)) ∧
    (newHead.data.previous ≠ d.chain.headBlockId →
      d.chain.headBlockNumber < newHead.data.blockNum →
      (f.fetchBranchFrom newHead.id d.chain.headBlockId).isSome = true ∧
        ∀ first second,
          f.fetchBranchFrom newHead.id d.chain.headBlockId = some (first, second) →
          second.length ≤ d.store.stack.length ∧
            (Goes R { f with head := first.getLast? } (heldBy newHead first second) d.blockLog
                (d.stateBack second.length) (blocksOf first) ∨
              (¬ ChainState.coreRun R (d.stateBack second.length) (blocksOf first) ≠ none ∧
                LibBelow R (d.stateBack second.length) (blocksOf first)
                  (d.stateBack second.length).headBlockNumber ∧
                (ChainState.coreRun R (d.stateBack second.length)
                  (blocksOf first).dropLast ≠ none → ForkPointStored f second))))

/-- The fork database's head is not above the chain's, or the block extends the chain. -/
def NotStale (d : Database τ ρ) (b : SignedBlock τ) : Prop :=
  (∀ h ∈ d.forkDb.head, h.num ≤ d.chain.headBlockNumber) ∨ b.previous = d.chain.headBlockId

theorem NotStale.extends {d : Database τ ρ} {b : SignedBlock τ} {f : ForkDatabase τ}
    {item newHead : ForkItem τ} (h : NotStale d b) (hi : Inv R d)
    (ha : Accepted R d b f item newHead) (he : newHead.data.previous = d.chain.headBlockId) :
    b.previous = d.chain.headBlockId := by
  rcases ha.pushed.head with ⟨h1, -⟩ | ⟨h', h1, h2, -⟩
  · rw [ha.head] at h1
    cases h1
    rw [← ha.pushed.data]
    exact he
  · rw [ha.head] at h2
    cases h2
    refine h.resolve_left fun hle => ?_
    have h3 := hle newHead h1
    have h4 := ha.newHead_num hi he
    omega

/-- The condition on the push of `b` after `recv` was received, from the initial state `s₀`:
the fork database takes the block unless its ancestry does not apply, its head is not stale,
and the push is carried out or undone. -/
def Chooses (R : Rules τ ρ) (s₀ : ChainState ρ) (recv : List (SignedBlock τ))
    (d : Database τ ρ) (b : SignedBlock τ) : Prop :=
  ((∃ f, d.forkDb.pushBlock R.hash b = .ok f) ∨
      ∀ s, Reached R s₀ recv s → s.coreApply R b = none) ∧
    NotStale d b ∧ CarriedOut R d b

/-- Runs in which every block comes after its parent and meets the condition; the blocks
received so far, the newest first. -/
inductive Receives (R : Rules τ ρ)
    (C : List (SignedBlock τ) → Database τ ρ → SignedBlock τ → Prop) (d₀ : Database τ ρ) :
    List (SignedBlock τ) → Database τ ρ → Prop
  | start : Receives R C d₀ [] d₀
  | push {recv : List (SignedBlock τ)} {d : Database τ ρ} (b : SignedBlock τ)
      (hr : Receives R C d₀ recv d)
      (hp : b.previous = d₀.chain.headBlockId ∨ ∃ p ∈ recv, p.id R.hash = b.previous)
      (hb : C recv d b) : Receives R C d₀ (b :: recv) (Database.push R d b)

theorem CarriedOut.undoable {d : Database τ ρ} {b : SignedBlock τ} (hi : Inv R d)
    (hal : Aligned d) (h : CarriedOut R d b) : Undoable R d b := by
  intro f newHead hp hh
  obtain ⟨item, hpushed⟩ := ForkDatabase.pushBlock_spec hi.forkOk hp
  have ha : Accepted R d b f item newHead := ⟨hp, hpushed, hh⟩
  obtain ⟨h1, h2⟩ := h f newHead hp hh
  refine ⟨fun he => (h1 he).imp_right (·.2), fun hne hlt first second hbr => ?_⟩
  obtain ⟨hsome, h3⟩ := h2 hne hlt
  obtain ⟨-, hmem, hnum⟩ := hal.higher ha hne hlt hsome hi.sane
  obtain ⟨hdepth, hcase⟩ := h3 first second hbr
  exact ⟨hmem, hnum, hdepth, hcase.imp_right (·.2)⟩

/-! ### Greatest height -/

/-- What a run that meets the condition keeps. -/
structure Best (R : Rules τ ρ) (s₀ : ChainState ρ) (recv : List (SignedBlock τ))
    (d : Database τ ρ) : Prop where
  inv : Inv R d
  aligned : Aligned d
  parents : ∀ c ∈ recv, c.previous = s₀.headBlockId ∨ ∃ p ∈ recv, p.id R.hash = c.previous
  stored : ∀ x ∈ d.forkDb.index, x.data ∈ recv ∨ x.num ≤ s₀.headBlockNumber
  chain : Reached R s₀ recv d.chain
  saved : ∀ e ∈ d.store.stack, Reached R s₀ recv e.state
  highest : ∀ s, Reached R s₀ recv s → s.headBlockNumber ≤ d.chain.headBlockNumber

/-- One more block leads to no more states than those it applies to. -/
theorem Reached.cons_cases {s₀ t : ChainState ρ} {recv : List (SignedBlock τ)}
    {b : SignedBlock τ} (hcf : CollisionFree R.hash) (h0 : Sane s₀)
    (hpar : ∀ c ∈ recv, c.previous = s₀.headBlockId ∨ ∃ p ∈ recv, p.id R.hash = c.previous)
    (h : Reached R s₀ (b :: recv) t) :
    Reached R s₀ recv t ∨ ∃ s, Reached R s₀ recv s ∧ s.coreApply R b = some t := by
  induction h with
  | start => exact .inl .start
  | @block s t c hs hc hct ih =>
    obtain ⟨hcp, -, -⟩ := ChainState.coreApply_head hct
    rcases ih with hs' | ⟨p, hp, hpb⟩
    · rcases List.mem_cons.mp hc with rfl | hc
      · exact .inr ⟨s, hs', hct⟩
      · exact .inl (.block c hs' hc hct)
    · -- `c` stands on `b`, so `b` was received before
      obtain ⟨-, -, hid⟩ := ChainState.coreApply_head hpb
      obtain ⟨h1, h2⟩ := hp.sane h0
      obtain ⟨h3, -, h4⟩ := ChainState.coreApply_sane h1 hpb
      have hs3 := h3.id_num
      rcases List.mem_cons.mp hc with rfl | hcr
      · have h5 := congrArg BlockId.num (hcp.symm.trans hid)
        rw [SignedBlock.id_num, SignedBlock.blockNum] at h5
        omega
      · rcases hpar c hcr with hc0 | ⟨q, hq, hqc⟩
        · have h5 := h0.id_num
          rw [← hc0, ← hcp] at h5
          omega
        · have hqb : q = b := hcf q b (by rw [hqc, ← hcp, hid])
          subst hqb
          exact .inl (.block c (.block q hp hq hpb) hcr hct)

theorem Best.base {s₀ : ChainState ρ} {recv : List (SignedBlock τ)} {d : Database τ ρ}
    (hb : Best R s₀ recv d) {k : Nat} (hk : k ≤ d.store.stack.length) :
    Reached R s₀ recv (d.stateBack k) := by
  unfold stateBack
  cases k with
  | zero => exact hb.chain
  | succ k =>
    obtain ⟨e, he⟩ : ∃ e, d.store.stack[k]? = some e := by
      rw [List.getElem?_eq_getElem (by omega)]
      exact ⟨_, rfl⟩
    have hsplit : d.store.stack = d.store.stack.take (k + 1) ++ d.store.stack.drop (k + 1) :=
      (List.take_append_drop _ _).symm
    have hlen : (d.store.stack.take (k + 1)).length = k + 1 := by
      rw [List.length_take]
      omega
    have hcur := Versioned.undo_iterate_current d.store (d.store.stack.take (k + 1))
      (d.store.stack.drop (k + 1)) e.state hsplit (by
        intro e' he'
        rw [List.getLast?_eq_getElem?, hlen, List.getElem?_take] at he'
        simp only [Nat.add_sub_cancel, Nat.lt_succ_self, if_true] at he'
        rw [he] at he'
        cases he'
        rfl) (by
        intro hn
        rw [hn] at hlen
        simp at hlen)
    rw [hlen] at hcur
    rw [hcur]
    exact hb.saved e (List.mem_of_getElem? he)

/-- The blocks of a branch above the fork point were received. -/
theorem Best.branch_received {s₀ : ChainState ρ} {recv : List (SignedBlock τ)}
    {d : Database τ ρ} (hb : Best R s₀ recv d) (h0 : Sane s₀) {f : ForkDatabase τ}
    {b : SignedBlock τ} {item newHead : ForkItem τ} (ha : Accepted R d b f item newHead)
    {first second : List (ForkItem τ)}
    (hr : Reorg R { d with forkDb := f } newHead first second) {l : List (ForkItem τ)}
    (hl : Branch l) (hm : ∀ x ∈ l, x ∈ f.index) {a : ForkItem τ} (hlast : l.getLast? = some a)
    (hprev : a.data.previous = (d.stateBack second.length).headBlockId) :
    ∀ c ∈ blocksOf l, c ∈ b :: recv := by
  intro c hc
  obtain ⟨x, hx, rfl⟩ := List.mem_map.mp hc
  have hxl : x ∈ l := by simpa using hx
  have hS := hr.ok.sound
  obtain ⟨hs, hge⟩ := (hb.base hr.depth).sane h0
  have hhigh : s₀.headBlockNumber < x.num := by
    cases hh : l.head? with
    | none =>
      rw [List.head?_eq_none_iff] at hh
      rw [hh] at hxl
      cases hxl
    | some y =>
      have hlive : ∀ z ∈ l, z ∈ f.live [] := fun z hz => ForkDatabase.index_live (hm z hz)
      have h1 := Branches.length_of_last hS hl hlive hh hlast
      obtain ⟨i, hi⟩ := List.mem_iff_getElem?.mp hxl
      have h2 := Branch.num_eq hS l hl hlive i y x hh hi
      have hi' : i < l.length := by
        by_contra hn
        rw [List.getElem?_eq_none (by omega)] at hi
        cases hi
      rw [hprev, hs.id_num] at h1
      have hge' : s₀.headBlockNumber ≤ (d.stateBack second.length).headBlockNumber := hge
      omega
  rcases ha.mem_index (hm x hxl) with hxi | rfl
  · rcases hb.stored x hxi with h | h
    · exact List.mem_cons_of_mem _ h
    · omega
  · rw [ha.pushed.data]
    exact List.mem_cons_self ..

theorem Best.parents_cons {s₀ : ChainState ρ} {recv : List (SignedBlock τ)} {d : Database τ ρ}
    {b : SignedBlock τ} (hb : Best R s₀ recv d)
    (hpar : b.previous = s₀.headBlockId ∨ ∃ p ∈ recv, p.id R.hash = b.previous) :
    ∀ c ∈ b :: recv, c.previous = s₀.headBlockId ∨ ∃ p ∈ b :: recv, p.id R.hash = c.previous := by
  have hmono : ∀ {c : SignedBlock τ},
      (c.previous = s₀.headBlockId ∨ ∃ p ∈ recv, p.id R.hash = c.previous) →
        (c.previous = s₀.headBlockId ∨ ∃ p ∈ b :: recv, p.id R.hash = c.previous) := by
    rintro c (h | ⟨p, hp, hpc⟩)
    · exact .inl h
    · exact .inr ⟨p, List.mem_cons_of_mem _ hp, hpc⟩
  intro c hc
  rcases List.mem_cons.mp hc with rfl | hc
  · exact hmono hpar
  · exact hmono (hb.parents c hc)

/-- A step that leaves the chain and its saved states keeps what was reached. -/
theorem Best.same_chain {s₀ : ChainState ρ} {recv : List (SignedBlock τ)} {d d' : Database τ ρ}
    {b : SignedBlock τ} (hb : Best R s₀ recv d) (hcf : CollisionFree R.hash) (h0 : Sane s₀)
    (hpar : b.previous = s₀.headBlockId ∨ ∃ p ∈ recv, p.id R.hash = b.previous)
    (hi : Inv R d') (hal : Aligned d') (hch : d'.chain = d.chain)
    (hsaved : ∀ e ∈ d'.store.stack, Reached R s₀ (b :: recv) e.state)
    (hstored : ∀ x ∈ d'.forkDb.index, x.data ∈ b :: recv ∨ x.num ≤ s₀.headBlockNumber)
    (hlow : ∀ s t, Reached R s₀ recv s → s.coreApply R b = some t →
      t.headBlockNumber ≤ d.chain.headBlockNumber) : Best R s₀ (b :: recv) d' where
  inv := hi
  aligned := hal
  parents := hb.parents_cons hpar
  stored := hstored
  chain := by
    rw [hch]
    exact hb.chain.mono fun c hc => List.mem_cons_of_mem _ hc
  saved := hsaved
  highest := by
    intro s hs
    rw [hch]
    rcases hs.cons_cases hcf h0 hb.parents with hs | ⟨p, hp, hpb⟩
    · exact hb.highest s hs
    · exact hlow p s hp hpb

/-- A step that moves the chain one block up to a reached state. -/
theorem Best.one_higher {s₀ : ChainState ρ} {recv : List (SignedBlock τ)} {d d' : Database τ ρ}
    {b : SignedBlock τ} (hb : Best R s₀ recv d) (hcf : CollisionFree R.hash) (h0 : Sane s₀)
    (hpar : b.previous = s₀.headBlockId ∨ ∃ p ∈ recv, p.id R.hash = b.previous)
    (hi : Inv R d') (hal : Aligned d') (hch : Reached R s₀ (b :: recv) d'.chain)
    (hnum : d'.chain.headBlockNumber = d.chain.headBlockNumber + 1)
    (hsaved : ∀ e ∈ d'.store.stack, Reached R s₀ (b :: recv) e.state)
    (hstored : ∀ x ∈ d'.forkDb.index, x.data ∈ b :: recv ∨ x.num ≤ s₀.headBlockNumber) :
    Best R s₀ (b :: recv) d' where
  inv := hi
  aligned := hal
  parents := hb.parents_cons hpar
  stored := hstored
  chain := hch
  saved := hsaved
  highest := by
    intro s hs
    rcases hs.cons_cases hcf h0 hb.parents with hs | ⟨p, hp, hpb⟩
    · have := hb.highest s hs
      omega
    · have h1 := hb.highest p hp
      have h2 := (ChainState.coreApply_sane (hp.sane h0).1 hpb).2.2
      omega

theorem push_best {s₀ : ChainState ρ} {recv : List (SignedBlock τ)} {d : Database τ ρ}
    {b : SignedBlock τ} (hcf : CollisionFree R.hash) (h0 : Sane s₀) (hb : Best R s₀ recv d)
    (hpar : b.previous = s₀.headBlockId ∨ ∃ p ∈ recv, p.id R.hash = b.previous)
    (hc : Chooses R s₀ recv d b) : Best R s₀ (b :: recv) (push R d b) := by
  obtain ⟨hadm, hstale, hcar⟩ := hc
  have hu := hcar.undoable hb.inv hb.aligned
  have hout := pushBlock_cases hb.inv hcf hu
  have hi' : Inv R (push R d b) := push_inv hb.inv hcf hu
  have hal' : Aligned (push R d b) := hout.aligned hb.inv hb.aligned
    fun f newHead hp hh hne hlt => ((hcar f newHead hp hh).2 hne hlt).1
  have hmono : ∀ {s}, Reached R s₀ recv s → Reached R s₀ (b :: recv) s :=
    fun hs => hs.mono fun c hc => List.mem_cons_of_mem _ hc
  have hsaved : ∀ e ∈ d.store.stack, Reached R s₀ (b :: recv) e.state :=
    fun e he => hmono (hb.saved e he)
  have hstored : ∀ {f : ForkDatabase τ} {item newHead : ForkItem τ},
      Accepted R d b f item newHead → ∀ x ∈ f.index,
        x.data ∈ b :: recv ∨ x.num ≤ s₀.headBlockNumber := by
    intro f item newHead ha x hx
    rcases ha.mem_index hx with h | rfl
    · exact (hb.stored x h).imp_left (List.mem_cons_of_mem _)
    · rw [ha.pushed.data]
      exact .inl (List.mem_cons_self ..)
  -- a block that failed on top of the head does not apply to any reached state
  have hfresh : ∀ {f : ForkDatabase τ} {item newHead : ForkItem τ},
      Accepted R d b f item newHead → newHead.data.previous = d.chain.headBlockId →
        b.previous = d.chain.headBlockId :=
    fun ha he => hstale.extends hb.inv ha he
  have hfail : ∀ {f : ForkDatabase τ} {item newHead : ForkItem τ},
      Accepted R d b f item newHead → newHead.data.previous = d.chain.headBlockId →
      d.chain.coreApply R b = none → ∀ s t, Reached R s₀ recv s → s.coreApply R b = some t →
        t.headBlockNumber ≤ d.chain.headBlockNumber := by
    intro f item newHead ha he hnone s t hs ht
    have hsd : s = d.chain := hs.unique hcf h0 hb.chain (by
      rw [(ChainState.coreApply_head ht).1, hfresh ha he])
    rw [hsd, hnone] at ht
    cases ht
  unfold push at hi' hal' ⊢
  generalize pushBlock R d b = r at hout hi' hal'
  cases hout with
  | rejected he =>
    refine hb.same_chain hcf h0 hpar hi' hal' rfl hsaved
      (fun x hx => (hb.stored x hx).imp_left (List.mem_cons_of_mem _)) ?_
    intro s t hs ht
    rcases hadm with ⟨f, hf⟩ | hnone
    · rw [he] at hf
      cases hf
    · rw [hnone s hs] at ht
      cases ht
  | @parked f item newHead ha hne hle =>
    refine hb.same_chain hcf h0 hpar hi' hal' rfl hsaved (hstored ha) ?_
    intro s t hs ht
    have h1 := ha.item_le
    rw [ha.pushed.num, ha.pushed.ok.sound.num_eq (ForkDatabase.head_live ha.head)] at h1
    rw [(ChainState.coreApply_head ht).2.1]
    omega
  | unlinked ha hne hlt hbr =>
    have := ((hcar _ _ ha.push ha.head).2 hne hlt).1
    rw [hbr] at this
    cases this
  | @extended f item newHead d' ha he hd =>
    have hcore : d.chain.coreApply R b = some d'.chain := hd.core
    have hch : Reached R s₀ (b :: recv) d'.chain :=
      .block b (hmono hb.chain) (List.mem_cons_self ..) hcore
    refine hb.one_higher hcf h0 hpar hi' hal' hch
      (ChainState.coreApply_sane hb.inv.sane hcore).2.2 ?_ ?_
    · intro e he'
      rw [after_ok, hd.store] at he'
      have he'' : e ∈ (d.store.startSession.modify d'.chain).stack :=
        (Versioned.keepAbove_suffix _ _).subset he'
      rcases List.mem_cons.mp he'' with rfl | he''
      · exact hmono hb.chain
      · exact hsaved e he''
    · intro x hx
      rw [after_ok, hd.fork] at hx
      exact hstored ha x (ForkDatabase.mem_setMaxSize.mp hx).1
  | @refused f item newHead e ha he hadv =>
    refine hb.same_chain hcf h0 hpar hi' hal' rfl hsaved ?_
      (hfail ha he (by simp only [ChainState.coreApply, hadv]))
    intro x hx
    simp only [after_error, ForkDatabase.remove, List.mem_filter] at hx
    exact hstored ha x hx.1
  | @undone f item newHead d₁ m e ha he hadv hlib hng hf =>
    have hstore := hf.store (by
      change m.lastIrreversibleBlockNum ≤ d.store.revision
      rw [hb.inv.revision]
      exact hlib)
    have hnone : d.chain.coreApply R b = none := by
      obtain ⟨h1, -⟩ := ((hcar _ _ ha.push ha.head).1 he).resolve_left hng
      cases hcore : d.chain.coreApply R b with
      | none => rfl
      | some t => simp [ChainState.coreRun, hcore] at h1
    refine hb.same_chain hcf h0 hpar hi' hal' ?_ ?_ ?_ (hfail ha he hnone)
    · change d₁.store.current = d.store.current
      rw [hstore]
      rfl
    · intro e' he'
      have he'' : e' ∈ d₁.store.stack := he'
      rw [hstore] at he''
      exact hsaved e' ((Versioned.keepAbove_suffix _ _).subset he'')
    · intro x hx
      simp only [after_error, ForkDatabase.remove, List.mem_filter] at hx
      rcases hf.fork with h | h
      · rw [h] at hx
        exact hstored ha x hx.1
      · rw [h] at hx
        exact hstored ha x (ForkDatabase.mem_setMaxSize.mp hx.1).1
  | @switched f item newHead G first second d' ha hr hG hgoes hw =>
    have hcd : Core R { d with forkDb := f } := hb.inv.toCore.congr rfl rfl
    have hbase : Reached R s₀ (b :: recv) (d.stateBack second.length) := hmono (hb.base hr.depth)
    obtain ⟨a, z, haG, hz, haz⟩ := hr.spec.last
    have hrecv : ∀ c ∈ blocksOf first, c ∈ b :: recv :=
      hb.branch_received h0 ha hr hr.spec.first_branch hr.first_index haG (by
        rw [haz]
        exact (hr.back_id hcd hcf hz).symm)
    refine hb.one_higher hcf h0 hpar hi' hal' (hbase.run hw.run hrecv)
      (hw.headBlockNumber hr hcd) ?_ (fun x hx => hstored ha x (hw.trimmed.sub x hx))
    intro e he
    rcases hw.saved e he with he' | ⟨bs, hbs, hrun⟩
    · exact hsaved e he'
    · exact hbase.run hrun fun c hc => hrecv c (hbs.subset hc)
  | @restored f item newHead x first second good rest d' e ha hr hsplit hlib hgood hfail' hw =>
    have hcd : Core R { d with forkDb := f } := hb.inv.toCore.congr rfl rfl
    have hbase : Reached R s₀ recv (d.stateBack second.length) := hb.base hr.depth
    have hlt : d.chain.headBlockNumber < newHead.data.blockNum := hr.higher
    obtain ⟨hsome, hcase⟩ := (hcar _ _ ha.push ha.head).2 hr.other hlt
    obtain ⟨hitem, -, -⟩ := hb.aligned.higher ha hr.other hlt hsome hb.inv.sane
    obtain ⟨-, hcase⟩ := hcase first second hr.branches
    obtain ⟨a, z, haG, hz, haz⟩ := hr.spec.last
    refine hb.same_chain hcf h0 hpar hi' hal' hw.chain ?_
      (fun y hy => hstored ha y (hw.sub y hy).1) ?_
    · have hrecv : ∀ c ∈ blocksOf second, c ∈ b :: recv :=
        hb.branch_received h0 ha hr hr.spec.second_branch hr.second_index hz
          (hr.back_id hcd hcf hz).symm
      intro e' he'
      rcases hw.saved e' he' with he'' | ⟨bs, hbs, hrun⟩
      · exact hsaved e' he''
      · exact (hmono hbase).run hrun fun c hc => hrecv c (hbs.subset hc)
    · -- were the ancestry of `b` to apply, so would the whole branch
      intro s t hs ht
      exfalso
      have hreach : Reached R s₀ (b :: recv) t :=
        .block b (hmono hs) (List.mem_cons_self ..) ht
      have hrun := Reached.branch_run hcf h0 hr.ok.sound (hmono hbase) first t
        hr.spec.first_branch hr.spec.first_live (by
          intro a' ha'
          rw [haG] at ha'
          cases ha'
          rw [haz]
          exact (hr.back_id hcd hcf hz).symm) (by
          intro y hy
          rw [hr.first_head] at hy
          cases hy
          rw [(ChainState.coreApply_head ht).2.2, hitem, ha.pushed.id]) hr.spec.first_ne hreach
      rcases hcase with hg | ⟨hnone, -⟩
      · refine hfail' ?_
        have hblocks : blocksOf first =
            (good ++ [x]).map (·.data) ++ rest.map (·.data) := by
          unfold blocksOf
          rw [hsplit]
          simp
        rw [hblocks] at hg
        exact hg.append_left
      · exact hnone (by rw [hrun]; simp)

/-- In every run in which each block comes after its parent and the pushes meet the condition,
the chain's head is a block of greatest height among the blocks received whose ancestry down
to the initial head applies. -/
theorem head_is_highest {d₀ d : Database τ ρ} {recv : List (SignedBlock τ)}
    (hcf : CollisionFree R.hash) (ho : Opened R d₀)
    (hr : Receives R (Chooses R d₀.chain) d₀ recv d) :
    Reached R d₀.chain recv d.chain ∧
      ∀ s, Reached R d₀.chain recv s → s.headBlockNumber ≤ d.chain.headBlockNumber := by
  have hbest : Best R d₀.chain recv d := by
    induction hr with
    | start =>
      refine { inv := ho.inv, aligned := ho.aligned, parents := by simp, stored := ?_,
               chain := .start, saved := by rw [ho.stack]; simp, highest := ?_ }
      · intro x hx
        exact .inr (ho.aligned.index_le x hx)
      · intro s hs
        cases hs with
        | start => exact le_rfl
        | block b _ hb _ => cases hb
    | push b _ hp hb ih => exact push_best hcf ho.sane ih hp hb
  exact ⟨hbest.chain, hbest.highest⟩

instance [DecidableEq τ] (d : Database τ ρ) (b : SignedBlock τ) : Decidable (CarriedOut R d b) :=
  inferInstanceAs (Decidable (∀ f x, d.forkDb.pushBlock R.hash b = .ok f → f.head = some x →
    ((x.data.previous = d.chain.headBlockId → Goes R f [x] d.blockLog d.chain [b] ∨
      (¬ ChainState.coreRun R d.chain [b] ≠ none ∧
        LibBelow R d.chain [b] d.chain.headBlockNumber)) ∧
    (x.data.previous ≠ d.chain.headBlockId → d.chain.headBlockNumber < x.data.blockNum →
      ((f.fetchBranchFrom x.id d.chain.headBlockId).isSome = true ∧ ∀ first second,
        f.fetchBranchFrom x.id d.chain.headBlockId = some (first, second) →
        (second.length ≤ d.store.stack.length ∧
          (Goes R { f with head := first.getLast? } (heldBy x first second) d.blockLog
              (d.stateBack second.length) (blocksOf first) ∨
            (¬ ChainState.coreRun R (d.stateBack second.length) (blocksOf first) ≠ none ∧
              LibBelow R (d.stateBack second.length) (blocksOf first)
                (d.stateBack second.length).headBlockNumber ∧
              (ChainState.coreRun R (d.stateBack second.length)
                (blocksOf first).dropLast ≠ none → ForkPointStored f second)))))))))

instance (d : Database τ ρ) (b : SignedBlock τ) : Decidable (NotStale d b) :=
  inferInstanceAs (Decidable (_ ∨ _))

/-- The blocks of a list, pushed one after the other, come after their parents and meet the
condition. -/
def ReceivesAlong (R : Rules τ ρ)
    (C : List (SignedBlock τ) → Database τ ρ → SignedBlock τ → Prop) (d₀ : Database τ ρ) :
    List (SignedBlock τ) → Database τ ρ → List (SignedBlock τ) → Prop
  | _, _, [] => True
  | recv, d, b :: bs =>
    (b.previous = d₀.chain.headBlockId ∨ ∃ p ∈ recv, p.id R.hash = b.previous) ∧ C recv d b ∧
      ReceivesAlong R C d₀ (b :: recv) (push R d b) bs

instance decidableReceivesAlong
    (C : List (SignedBlock τ) → Database τ ρ → SignedBlock τ → Prop)
    [∀ l d b, Decidable (C l d b)] (d₀ : Database τ ρ) :
    ∀ (recv : List (SignedBlock τ)) (d : Database τ ρ) (bs : List (SignedBlock τ)),
      Decidable (ReceivesAlong R C d₀ recv d bs)
  | _, _, [] => isTrue trivial
  | recv, d, b :: bs =>
    have := decidableReceivesAlong C d₀ (b :: recv) (push R d b) bs
    inferInstanceAs (Decidable (_ ∧ C recv d b ∧ _))

theorem Receives.along {C C' : List (SignedBlock τ) → Database τ ρ → SignedBlock τ → Prop}
    {d₀ d : Database τ ρ} {recv : List (SignedBlock τ)} (h : Receives R C d₀ recv d)
    (bs : List (SignedBlock τ)) (hb : ReceivesAlong R C' d₀ recv d bs)
    (hC : ∀ l d b, C' l d b → C l d b) : Receives R C d₀ (bs.reverse ++ recv) (pushAll R d bs) := by
  induction bs generalizing recv d with
  | nil => exact h
  | cons b bs ih =>
    rw [List.reverse_cons, List.append_assoc]
    exact ih (.push b h hb.1 (hC _ _ _ hb.2.1)) hb.2.2

/-- The chain follows a branch that overtakes it: blocks 1 and 2, then 2' and 3' beside 2. -/
theorem head_is_highest_switch :
    let b₁ := blockOn BlockId.zero 0
    let b₂ := blockOn (b₁.id linkDigest) 0
    let b₂' := blockOn (b₁.id linkDigest) 1
    let b₃' := blockOn (b₂'.id linkDigest) 1
    let bs := [b₁, b₂, b₂', b₃']
    (pushAll linkRules newNode bs).chain.headBlockId = b₃'.id linkDigest ∧
      Reached linkRules newNode.chain (bs.reverse ++ []) (pushAll linkRules newNode bs).chain := by
  intro b₁ b₂ b₂' b₃' bs
  have hb : ReceivesAlong linkRules (fun _ d b => (d.forkDb.pushBlock linkRules.hash b).isOk = true ∧
      NotStale d b ∧ CarriedOut linkRules d b) newNode [] newNode bs := by
    decide
  have hr : Receives linkRules (Chooses linkRules newNode.chain) newNode (bs.reverse ++ [])
      (pushAll linkRules newNode bs) := by
    refine Receives.start.along bs hb ?_
    rintro l d b ⟨h1, h2, h3⟩
    refine ⟨.inl ?_, h2, h3⟩
    cases hp : d.forkDb.pushBlock linkRules.hash b with
    | error e =>
      rw [hp] at h1
      cases h1
    | ok g => exact ⟨g, rfl⟩
  exact ⟨by decide, (head_is_highest linkDigest_collisionFree newNode_opened hr).1⟩

/-- A block that failed on top of the head blocks a higher branch: blocks 1, 2 and a stored 2',
then a block 3 on 2 that does not verify.  The fork database's head stays on it, so the valid
3' on 2' is applied on top of 2, fails there and is removed. -/
theorem head_is_not_highest :
    ¬ ∀ (R : Rules Nat Unit) (d₀ d : Database Nat Unit) (recv : List (SignedBlock Nat)),
      CollisionFree R.hash → Opened R d₀ → Receives R (fun _ _ _ => True) d₀ recv d →
      Reached R d₀.chain recv d.chain ∧
        ∀ s, Reached R d₀.chain recv s → s.headBlockNumber ≤ d.chain.headBlockNumber := by
  intro h
  let b₁ := blockOn BlockId.zero 0
  let b₂ := blockOn (b₁.id linkDigest) 0
  let b₂' := blockOn (b₁.id linkDigest) 1
  let b₃ := blockOn (b₂.id linkDigest) 9
  let b₃' := blockOn (b₂'.id linkDigest) 1
  have hb : ReceivesAlong linkRules (fun _ _ _ => True) newNode [] newNode
      [b₁, b₂, b₂', b₃, b₃'] := by
    decide
  have hr := Receives.start.along _ hb fun _ _ _ h => h
  have hmax := (h linkRules newNode _ _ linkDigest_collisionFree newNode_opened hr).2
  obtain ⟨t, ht⟩ : ∃ t, ChainState.coreRun linkRules newNode.chain [b₁, b₂', b₃'] = some t :=
    Option.isSome_iff_exists.mp (by decide)
  have hreach : Reached linkRules newNode.chain ([b₁, b₂, b₂', b₃, b₃'].reverse ++ []) t :=
    Reached.start.run ht (by simp)
  have h3 : t.headBlockNumber = 3 :=
    (ChainState.coreRun_sane newNode_opened.sane ht).2.2
  have h2 : (pushAll linkRules newNode [b₁, b₂, b₂', b₃, b₃']).chain.headBlockNumber = 2 := by
    decide
  have := hmax t hreach
  omega

end WeNode.Fork.Database
