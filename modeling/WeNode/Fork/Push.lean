import WeNode.Fork.Reorganize

/-!
# The outcomes of `push_block`

When what a push does can be undone, `push_block` has seven outcomes; every later result about
it goes by cases over them.
-/

namespace WeNode.Fork.Database

open WeNode.Lib

variable {τ ρ : Type} {R : Rules τ ρ}

/-- What `push_block` keeps between two calls. -/
structure Inv (R : Rules τ ρ) (d : Database τ ρ) : Prop extends Core R d where
  forkOk : d.forkDb.Ok R.hash
  bounded : Bounded d

/-! ### Conditions on a push -/

/-- The blocks apply one after the other, and the block log can follow. -/
def Goes (R : Rules τ ρ) (f : ForkDatabase τ) (held : List (ForkItem τ))
    (log : List (SignedBlock τ)) (s : ChainState ρ) (bs : List (SignedBlock τ)) : Prop :=
  ChainState.coreRun R s bs ≠ none ∧ LogReady f held log (ChainState.advances R s bs)

/-- As far as the blocks are applied, no block above number `c` becomes irreversible. -/
def LibBelow (R : Rules τ ρ) (s : ChainState ρ) (bs : List (SignedBlock τ)) (c : Nat) : Prop :=
  ∀ m ∈ ChainState.advances R s bs, m.lastIrreversibleBlockNum ≤ c

/-- A push onto the head: the block applies, or it does not make itself irreversible. -/
def ExtendSafe (R : Rules τ ρ) (d : Database τ ρ) (f : ForkDatabase τ) (newHead : ForkItem τ)
    (b : SignedBlock τ) : Prop :=
  Goes R f [newHead] d.blockLog d.chain [b] ∨
    LibBelow R d.chain [b] d.chain.headBlockNumber

/-- A switch: the popped blocks can be undone, and either the whole branch applies or nothing
above the fork point becomes irreversible on the way and, should only the last block fail, the
fork point is still stored. -/
def SwitchSafe (R : Rules τ ρ) (d : Database τ ρ) (f : ForkDatabase τ) (newHead : ForkItem τ)
    (first second : List (ForkItem τ)) : Prop :=
  newHead ∈ f.index ∧ newHead.num = d.chain.headBlockNumber + 1 ∧
    second.length ≤ d.store.stack.length ∧
    (Goes R { f with head := first.getLast? } (heldBy newHead first second) d.blockLog
        (d.stateBack second.length) (blocksOf first) ∨
      LibBelow R (d.stateBack second.length) (blocksOf first)
          (d.stateBack second.length).headBlockNumber ∧
        (ChainState.coreRun R (d.stateBack second.length) (blocksOf first).dropLast ≠ none →
          ForkPointStored f second))

/-- Whatever fails in this push can be undone. -/
def Undoable (R : Rules τ ρ) (d : Database τ ρ) (b : SignedBlock τ) : Prop :=
  ∀ f newHead, d.forkDb.pushBlock R.hash b = .ok f → f.head = some newHead →
    (newHead.data.previous = d.chain.headBlockId → ExtendSafe R d f newHead b) ∧
    (newHead.data.previous ≠ d.chain.headBlockId →
      d.chain.headBlockNumber < newHead.data.blockNum → ∀ first second,
      f.fetchBranchFrom newHead.id d.chain.headBlockId = some (first, second) →
      SwitchSafe R d f newHead first second)

/-- Blocks that go together go in part. -/
theorem Goes.append_left {f : ForkDatabase τ} {held : List (ForkItem τ)}
    {log : List (SignedBlock τ)} {s : ChainState ρ} {bs cs : List (SignedBlock τ)}
    (h : Goes R f held log s (bs ++ cs)) : Goes R f held log s bs := by
  obtain ⟨hrun, hready⟩ := h
  cases hbs : ChainState.coreRun R s bs with
  | none =>
    rw [ChainState.coreRun_append, hbs] at hrun
    exact absurd rfl hrun
  | some t =>
    refine ⟨by rw [hbs]; simp, fun m hm => hready m ?_⟩
    rw [ChainState.advances_append hbs]
    exact List.mem_append_left _ hm

/-! ### Outcomes -/

/-- The fork database took the block. -/
structure Accepted (R : Rules τ ρ) (d : Database τ ρ) (b : SignedBlock τ) (f : ForkDatabase τ)
    (item newHead : ForkItem τ) : Prop where
  push : d.forkDb.pushBlock R.hash b = .ok f
  pushed : ForkDatabase.Pushed R.hash d.forkDb b f item
  head : f.head = some newHead

inductive Outcome (R : Rules τ ρ) (d : Database τ ρ) (b : SignedBlock τ) :
    Except (DbError × Database τ ρ) (Database τ ρ × Bool) → Prop
  /-- The fork database refuses the block. -/
  | rejected {e : ForkError} (he : d.forkDb.pushBlock R.hash b = .error e) :
      Outcome R d b (.error (.fork e, d))
  /-- The block is stored; no branch is higher than the head. -/
  | parked {f : ForkDatabase τ} {item newHead : ForkItem τ}
      (ha : Accepted R d b f item newHead)
      (hne : newHead.data.previous ≠ d.chain.headBlockId)
      (hle : newHead.data.blockNum ≤ d.chain.headBlockNumber) :
      Outcome R d b (.ok ({ d with forkDb := f }, false))
  /-- A higher branch does not lead back to the chain. -/
  | unlinked {f : ForkDatabase τ} {item newHead : ForkItem τ}
      (ha : Accepted R d b f item newHead)
      (hne : newHead.data.previous ≠ d.chain.headBlockId)
      (hlt : d.chain.headBlockNumber < newHead.data.blockNum)
      (hb : f.fetchBranchFrom newHead.id d.chain.headBlockId = none) :
      Outcome R d b (.error (.branches, { d with forkDb := f }))
  /-- The block was applied on top of the head. -/
  | extended {f : ForkDatabase τ} {item newHead : ForkItem τ} {d' : Database τ ρ}
      (ha : Accepted R d b f item newHead)
      (he : newHead.data.previous = d.chain.headBlockId)
      (hd : Applied R [newHead] { d with forkDb := f } b d') : Outcome R d b (.ok (d', false))
  /-- The block failed on top of the head before it moved the irreversible block. -/
  | refused {f : ForkDatabase τ} {item newHead : ForkItem τ} {e : DbError}
      (ha : Accepted R d b f item newHead)
      (he : newHead.data.previous = d.chain.headBlockId)
      (hadv : d.chain.advance R b = none) :
      Outcome R d b (.error (e, { d with forkDb := f.remove (b.id R.hash) }))
  /-- The block failed on top of the head after that. -/
  | undone {f : ForkDatabase τ} {item newHead : ForkItem τ} {d₁ : Database τ ρ}
      {m : ChainState ρ} {e : DbError} (ha : Accepted R d b f item newHead)
      (he : newHead.data.previous = d.chain.headBlockId) (hadv : d.chain.advance R b = some m)
      (hlib : m.lastIrreversibleBlockNum ≤ d.chain.headBlockNumber)
      (hng : ¬ Goes R f [newHead] d.blockLog d.chain [b])
      (hf : Failed R [newHead] { d with forkDb := f } m d₁) :
      Outcome R d b (.error (e, { d₁ with forkDb := d₁.forkDb.remove (b.id R.hash) }))
  /-- The chain switched to a higher branch. -/
  | switched {f : ForkDatabase τ} {item newHead G : ForkItem τ} {first second : List (ForkItem τ)}
      {d' : Database τ ρ} (ha : Accepted R d b f item newHead)
      (hr : Reorg R { d with forkDb := f } newHead first second)
      (hG : first.getLast? = some G)
      (hgoes : Goes R { f with head := first.getLast? } (heldBy newHead first second) d.blockLog
        (d.stateBack second.length) (blocksOf first))
      (hw : Switched R { d with forkDb := f } newHead G first second d') :
      Outcome R d b (.ok (d', true))
  /-- A block of a higher branch failed and the chain is back on the old branch. -/
  | restored {f : ForkDatabase τ} {item newHead x : ForkItem τ}
      {first second good rest : List (ForkItem τ)} {d' : Database τ ρ} {e : DbError}
      (ha : Accepted R d b f item newHead)
      (hr : Reorg R { d with forkDb := f } newHead first second)
      (hsplit : first.reverse = good ++ x :: rest)
      (hlib : LibBelow R (d.stateBack second.length) (blocksOf first)
        (d.stateBack second.length).headBlockNumber)
      (hgood : Goes R { f with head := first.getLast? } (heldBy newHead first second) d.blockLog
        (d.stateBack second.length) (good.map (·.data)))
      (hfail : ¬ Goes R { f with head := first.getLast? } (heldBy newHead first second) d.blockLog
        (d.stateBack second.length) ((good ++ [x]).map (·.data)))
      (hw : Restored R { d with forkDb := f } first second good (x :: rest) d') :
      Outcome R d b (.error (e, d'))

theorem applyItems_append_ok {held : List (ForkItem τ)} {xs ys : List (ForkItem τ)}
    {d d₁ : Database τ ρ} (h : applyItems R held xs d = .ok d₁) :
    applyItems R held (xs ++ ys) d = applyItems R held ys d₁ := by
  induction xs generalizing d with
  | nil =>
    cases h
    rfl
  | cons x xs ih =>
    simp only [List.cons_append, applyItems] at h ⊢
    split at h
    · cases h
    · next d₂ hd₂ => exact ih h

/-- Blocks that were applied went. -/
theorem goes_of_applyItems {held : List (ForkItem τ)} {xs : List (ForkItem τ)}
    {d d' : Database τ ρ} (hc : Core R d) (h : applyItems R held xs d = .ok d')
    {S : ForkItem τ → Prop} {n : Nat} (hS : Sound R.hash S n)
    (hlive : ∀ x ∈ d.forkDb.live held, S x) {F : ForkItem τ} (hF : d.forkDb.head = some F)
    (hle : F.num ≤ d.chain.headBlockNumber + 1) :
    Goes R d.forkDb held d.blockLog d.chain (xs.map (·.data)) := by
  obtain ⟨hc', -, hrun, -⟩ := applyItems_core hc h
  have hgrown := applyItems_grown hc h hS hlive hF hle
  refine ⟨by rw [hrun]; simp, fun m hm i h1 h2 => ?_⟩
  have h3 := advances_lib_le hc.sane hrun hm
  have h4 := hc'.logged
  obtain ⟨b, hb⟩ : ∃ b, d'.blockLog[i - 1]? = some b := by
    rw [List.getElem?_eq_getElem (by omega)]
    exact ⟨_, rfl⟩
  obtain ⟨x, hx, -⟩ := hgrown.2 (i - 1) b (by omega) hb
  rw [show i - 1 + 1 = i by omega] at hx
  rw [hx]
  simp

theorem switchFork_cases {d : Database τ ρ} {b : SignedBlock τ} (hi : Inv R d)
    (hcf : CollisionFree R.hash) {f : ForkDatabase τ} {item newHead : ForkItem τ}
    (ha : Accepted R d b f item newHead) (hne : newHead.data.previous ≠ d.chain.headBlockId)
    (hlt : d.chain.headBlockNumber < newHead.data.blockNum)
    (hsafe : ∀ first second,
      f.fetchBranchFrom newHead.id d.chain.headBlockId = some (first, second) →
      SwitchSafe R d f newHead first second) :
    Outcome R d b
      ((switchFork R { d with forkDb := f } newHead).map (fun d' => (d', true))) := by
  cases hb : f.fetchBranchFrom newHead.id d.chain.headBlockId with
  | none =>
    have hsw : switchFork R { d with forkDb := f } newHead =
        .error (.branches, { d with forkDb := f }) := by
      simp only [switchFork, Database.chain] at hb ⊢
      rw [hb]
    rw [hsw]
    exact .unlinked ha hne hlt hb
  | some p =>
    obtain ⟨first, second⟩ := p
    obtain ⟨hst, hnx, hdepth, hcase⟩ := hsafe first second hb
    have hr : Reorg R { d with forkDb := f } newHead first second :=
      ⟨ha.pushed.ok, ha.head, hst, hnx, hne, hb, hdepth⟩
    have hc : Core R { d with forkDb := f } := hi.toCore.congr rfl rfl
    obtain ⟨-, a, -, hlast, -⟩ := hr.spec.last
    obtain ⟨G, txs, hG, hpop⟩ := hr.popped hc hcf hlast
    have hat : AtForkPoint { d with forkDb := f } G second.length
        ({ d with
            store := Versioned.undo^[second.length] d.store
            forkDb := { f with head := some G }
            poppedTx := txs } : Database τ ρ) := ⟨rfl, rfl, rfl⟩
    generalize hd₁ : ({ d with
            store := Versioned.undo^[second.length] d.store
            forkDb := { f with head := some G }
            poppedTx := txs } : Database τ ρ) = d₁ at hat
    have hpop' : popUntil R (heldBy newHead first second) a.data.previous
        (popFuel { d with forkDb := f }) { d with forkDb := f } = .ok d₁ := by
      rw [hpop, ← hd₁]
    have hb' : ({ d with forkDb := f } : Database τ ρ).forkDb.fetchBranchFrom newHead.id
        ({ d with forkDb := f } : Database τ ρ).chain.headBlockId = some (first, second) := hb
    have hch : d₁.chain = d.stateBack second.length := hat.chain
    obtain ⟨hcore, -, -⟩ := hr.back_core hc hat.store hat.blockLog
    have hF : d₁.forkDb.head = some G := by rw [hat.forkDb]
    have hle : G.num ≤ d₁.chain.headBlockNumber + 1 := (hat.head_num hr hc hcf hG).le
    have hgoes : ∀ xs : List (ForkItem τ),
        Goes R { f with head := first.getLast? } (heldBy newHead first second) d.blockLog
          (d.stateBack second.length) (xs.map (·.data)) →
        ∃ d', applyItems R (heldBy newHead first second) xs d₁ = .ok d' := by
      intro xs hxs
      obtain ⟨t, ht⟩ := Option.ne_none_iff_exists'.mp hxs.1
      obtain ⟨d', hd', -⟩ := applyItems_goes (heldBy newHead first second) xs hcore
        (by rw [hch]; exact ht) hr.ok.sound (fun x hx => hat.live hr hG hx) hF hle (by
          rw [hat.forkDb, hat.blockLog, hch]
          have := hxs.2
          rw [hG] at this
          exact this)
      exact ⟨d', hd'⟩
    have hwent : ∀ (xs : List (ForkItem τ)) (d' : Database τ ρ),
        applyItems R (heldBy newHead first second) xs d₁ = .ok d' →
        Goes R { f with head := first.getLast? } (heldBy newHead first second) d.blockLog
          (d.stateBack second.length) (xs.map (·.data)) := by
      intro xs d' hxs
      have := goes_of_applyItems hcore hxs hr.ok.sound (fun x hx => hat.live hr hG hx) hF hle
      rw [hat.forkDb, hat.blockLog, hch] at this
      rw [hG]
      exact this
    cases hd' : applyItems R (heldBy newHead first second) first.reverse d₁ with
    | ok d' =>
      have hsw : switchFork R { d with forkDb := f } newHead = .ok d' := by
        simp only [switchFork, hb', hlast, hpop', hd']
      rw [hsw]
      exact .switched ha hr hG (hwent _ _ hd') (switched_of_ok hr hc hcf hG hat hd')
    | error r =>
      obtain ⟨e, d₃, bad⟩ := r
      obtain ⟨good, x, rest, d₂, hsplit, rfl, hgood, hx⟩ := applyItems_error_split hd'
      -- a branch that goes through does not fail
      rcases hcase with hg | ⟨hlib, hfp⟩
      · obtain ⟨d', hd''⟩ := hgoes first.reverse hg
        rw [hd''] at hd'
        cases hd'
      · obtain ⟨-, -, hrun, -⟩ := applyItems_core hcore hgood
        rw [hch] at hrun
        have hblocks : (good ++ x :: rest).map (·.data) = blocksOf first := by
          rw [← hsplit]
          rfl
        have hstop := stopped_of_error rest hcore hF hgood hx (by
          rw [hblocks, hch, hcore.revision, hch]
          exact hlib)
        rw [hblocks] at hstop
        obtain ⟨d', hd'', hw⟩ := restore_spec hr hc hcf hG hat hsplit (by simp) hstop
          (by rw [hch]; exact hlib) (by
            intro hlen
            refine hfp ?_
            have hrl : rest = [] := by
              have h1 := hr.length hc
              have h2 := congrArg List.length hsplit
              simp only [List.length_reverse, List.length_append, List.length_cons] at h2
              exact List.length_eq_zero_iff.mp (by omega)
            rw [← hblocks, hrl, List.map_append, List.map_cons, List.map_nil,
              List.dropLast_concat, hrun]
            simp) e
        have hsw : switchFork R { d with forkDb := f } newHead = .error (e, d') := by
          simp only [switchFork, hb', hlast, hpop', hd', hd'']
        rw [hsw]
        refine .restored ha hr hsplit hlib (hwent _ _ hgood) ?_ hw
        intro hg
        obtain ⟨d₄, hd₄⟩ := hgoes _ hg
        rw [applyItems_append_ok hgood] at hd₄
        simp only [applyItems, hx] at hd₄
        cases hd₄

/-- The new head keeps nothing alive that the fork database does not. -/
theorem Accepted.live_newHead {d : Database τ ρ} {b : SignedBlock τ} {f : ForkDatabase τ}
    {item newHead x : ForkItem τ} (ha : Accepted R d b f item newHead)
    (hx : x ∈ f.live [newHead]) : x ∈ f.live [] := by
  rcases (f.mem_live _).mp hx with hx | hx | hx
  · exact ForkDatabase.index_live hx
  · exact ForkDatabase.head_live hx
  · rw [List.mem_singleton.mp hx]
    exact ForkDatabase.head_live ha.head

/-- A block onto the head has the next number. -/
theorem Accepted.newHead_num {d : Database τ ρ} {b : SignedBlock τ} {f : ForkDatabase τ}
    {item newHead : ForkItem τ} (ha : Accepted R d b f item newHead) (hi : Inv R d)
    (he : newHead.data.previous = d.chain.headBlockId) :
    newHead.num = d.chain.headBlockNumber + 1 := by
  have hnum := ha.pushed.ok.sound.previous_num (ForkDatabase.head_live ha.head)
  rw [he, hi.sane.id_num] at hnum
  omega

theorem extend_cases {d : Database τ ρ} {b : SignedBlock τ} (hi : Inv R d)
    {f : ForkDatabase τ} {item newHead : ForkItem τ} (ha : Accepted R d b f item newHead)
    (he : newHead.data.previous = d.chain.headBlockId) (hsafe : ExtendSafe R d f newHead b) :
    Outcome R d b
      ((extend R { d with forkDb := f } newHead b).map (fun d' => (d', false))) := by
  have hlive : ∀ x ∈ f.live [newHead], x ∈ f.live [] := fun _ => ha.live_newHead
  unfold extend
  cases hs : applySession R [newHead] { d with forkDb := f } b with
  | ok d' => exact .extended ha he (applySession_ok hi.logOk hs)
  | error r =>
    obtain ⟨e, d₁⟩ := r
    rcases applySession_error (d := { d with forkDb := f }) hi.logOk hs with ⟨hadv, rfl⟩ | ⟨m, hadv, hf⟩
    · exact .refused ha he hadv
    · have hng : ¬ Goes R f [newHead] d.blockLog d.chain [b] := by
        rintro ⟨hrun, hready⟩
        obtain ⟨t, ht⟩ := Option.ne_none_iff_exists'.mp hrun
        obtain ⟨u, hu, ht⟩ := ChainState.coreRun_next ht
        obtain ⟨m', -, hl', -, hadv'⟩ := ChainState.advances_cons [] hu
        obtain ⟨d', hd', -⟩ := applySession_goes [newHead] (d := { d with forkDb := f })
          ha.pushed.ok.sound hlive hi.logOk hu (by
            intro i h1 h2
            rw [← hl'] at h2
            exact hready m' (by rw [hadv']; simp) i h1 h2)
        rw [hd'] at hs
        cases hs
      refine .undone ha he hadv (hsafe.resolve_left hng m ?_) hng hf
      have hadv' : d.chain.advance R b = some m := hadv
      simp only [ChainState.advances, hadv']
      split <;> simp

/-- Every push whose effects can be undone has one of the outcomes. -/
theorem pushBlock_cases {d : Database τ ρ} {b : SignedBlock τ} (hi : Inv R d)
    (hcf : CollisionFree R.hash) (hu : Undoable R d b) : Outcome R d b (pushBlock R d b) := by
  unfold pushBlock
  cases hp : d.forkDb.pushBlock R.hash b with
  | error e => exact .rejected hp
  | ok f =>
    obtain ⟨item, hpushed⟩ := ForkDatabase.pushBlock_spec hi.forkOk hp
    obtain ⟨newHead, hh⟩ : ∃ N, f.head = some N := by
      rcases hpushed.head with ⟨h, -⟩ | ⟨h, -, h', -⟩
      · exact ⟨item, h⟩
      · exact ⟨h, h'⟩
    have ha : Accepted R d b f item newHead := ⟨hp, hpushed, hh⟩
    obtain ⟨hext, hsw⟩ := hu f newHead hp hh
    simp only [hh]
    split
    · next hne =>
      split
      · next hlt => exact switchFork_cases hi hcf ha hne hlt (hsw hne hlt)
      · next hge => exact .parked ha hne (by omega)
    · next he =>
      exact extend_cases hi ha (not_not.mp he) (hext (not_not.mp he))

end WeNode.Fork.Database
