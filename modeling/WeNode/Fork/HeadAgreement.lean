import WeNode.Fork.Runs

/-!
# The two heads

The fork database keeps a head of its own beside the chain's.  They name the same block after a
push as long as every block that extends the chain applies and no switch gets past the first
block of its branch.
-/

namespace WeNode.Fork.Database

open WeNode.Lib

variable {τ ρ : Type} {R : Rules τ ρ}

/-- The fork database's head is the item of the chain's head block. -/
def Agree (d : Database τ ρ) : Prop :=
  ∃ h, d.forkDb.head = some h ∧ h.id = d.chain.headBlockId

/-- Undoable pushes on which both heads move together: a block on the head applies, and a
switch finds its branches and stops at the first block of the new one. -/
def InStep (R : Rules τ ρ) (d : Database τ ρ) (b : SignedBlock τ) : Prop :=
  Undoable R d b ∧
    ∀ f newHead, d.forkDb.pushBlock R.hash b = .ok f → f.head = some newHead →
      (newHead.data.previous = d.chain.headBlockId →
        Goes R f [newHead] d.blockLog d.chain [b]) ∧
      (newHead.data.previous ≠ d.chain.headBlockId →
        d.chain.headBlockNumber < newHead.data.blockNum →
        (f.fetchBranchFrom newHead.id d.chain.headBlockId).isSome = true ∧
          ∀ first second,
            f.fetchBranchFrom newHead.id d.chain.headBlockId = some (first, second) →
            ¬ Goes R { f with head := first.getLast? } (heldBy newHead first second) d.blockLog
              (d.stateBack second.length) ((blocksOf first).take 1))

instance [DecidableEq τ] (d : Database τ ρ) (b : SignedBlock τ) : Decidable (InStep R d b) :=
  inferInstanceAs (Decidable (Undoable R d b ∧ ∀ f x, d.forkDb.pushBlock R.hash b = .ok f →
    f.head = some x →
      ((x.data.previous = d.chain.headBlockId → Goes R f [x] d.blockLog d.chain [b]) ∧
      (x.data.previous ≠ d.chain.headBlockId → d.chain.headBlockNumber < x.data.blockNum →
        ((f.fetchBranchFrom x.id d.chain.headBlockId).isSome = true ∧ ∀ first second,
          f.fetchBranchFrom x.id d.chain.headBlockId = some (first, second) →
          ¬ Goes R { f with head := first.getLast? } (heldBy x first second) d.blockLog
            (d.stateBack second.length) ((blocksOf first).take 1))))))

theorem Goes.take_one {f : ForkDatabase τ} {held : List (ForkItem τ)}
    {log : List (SignedBlock τ)} {s : ChainState ρ} {bs : List (SignedBlock τ)}
    (h : Goes R f held log s bs) : Goes R f held log s (bs.take 1) := by
  rw [← List.take_append_drop 1 bs] at h
  exact h.append_left

/-- The heads agree, or nothing was pushed yet. -/
def AgreeOrNew (d : Database τ ρ) : Prop :=
  Agree d ∨ (d.forkDb.head = none ∧ d.chain.headBlockNumber = 0)

theorem Opened.agreeOrNew {d : Database τ ρ} (h : Opened R d) : AgreeOrNew d := by
  rcases h.fork with ⟨hid, hf⟩ | ⟨b, -, hid, hf⟩
  · right
    rw [hf, ← h.sane.id_num, hid]
    exact ⟨rfl, rfl⟩
  · left
    rw [Agree, hf]
    exact ⟨_, rfl, hid⟩

/-- Under agreement, the head the fork database returns after a push is the old one, or the
pushed block when that is higher. -/
theorem AgreeOrNew.newHead {d : Database τ ρ} (hag : AgreeOrNew d) (hi : Inv R d)
    {b : SignedBlock τ} {f : ForkDatabase τ} {item newHead : ForkItem τ}
    (ha : Accepted R d b f item newHead) :
    (newHead = item ∧ d.chain.headBlockNumber < item.num) ∨
      (newHead.id = d.chain.headBlockId ∧ newHead.num = d.chain.headBlockNumber) := by
  have hhead := ha.head
  rcases hag with ⟨h, hh, hid⟩ | ⟨hh, hz⟩
  · have hnum : h.num = d.chain.headBlockNumber := by
      rw [← hi.forkOk.sound.id_num (ForkDatabase.head_live hh), hid, hi.sane.id_num]
    rcases ha.pushed.head with ⟨h1, h2⟩ | ⟨h', h1, h2, -⟩
    · rw [hhead] at h1
      cases h1
      exact .inl ⟨rfl, by rw [← hnum]; exact h2 h hh⟩
    · rw [hh] at h1
      cases h1
      rw [hhead] at h2
      cases h2
      exact .inr ⟨hid, hnum⟩
  · rcases ha.pushed.head with ⟨h1, -⟩ | ⟨h', h1, -⟩
    · rw [hhead] at h1
      cases h1
      refine .inl ⟨rfl, ?_⟩
      rw [hz, ha.pushed.num]
      exact Nat.succ_pos _
    · rw [hh] at h1
      cases h1

theorem push_agree {d : Database τ ρ} {b : SignedBlock τ} (hi : Inv R d)
    (hcf : CollisionFree R.hash) (hag : AgreeOrNew d) (hs : InStep R d b) :
    Agree (push R d b) := by
  have hout := pushBlock_cases hi hcf hs.1
  unfold push
  generalize pushBlock R d b = r at hout
  cases hout with
  | rejected he =>
    rcases hag with hag | ⟨hnone, -⟩
    · exact hag
    · simp only [ForkDatabase.pushBlock, ForkDatabase.findParent, hnone] at he
      cases he
  | @parked f item newHead ha hne hle =>
    rcases hag.newHead hi ha with ⟨rfl, hlt⟩ | ⟨hid, -⟩
    · rw [ha.pushed.num, ← ha.pushed.data] at hlt
      omega
    · exact ⟨newHead, ha.head, hid⟩
  | unlinked ha hne hlt hb =>
    have := ((hs.2 _ _ ha.push ha.head).2 hne hlt).1
    rw [hb] at this
    cases this
  | @extended f item newHead d' ha he hd =>
    rcases hag.newHead hi ha with ⟨rfl, -⟩ | ⟨-, hnum⟩
    · refine ⟨newHead, ?_, ?_⟩
      · rw [after_ok, hd.fork, ForkDatabase.setMaxSize_head]
        exact ha.head
      · rw [after_ok, (ChainState.coreApply_head hd.core).2.2, ha.pushed.id]
    · have h1 := ha.newHead_num hi he
      omega
  | refused ha he hadv =>
    have hg := ((hs.2 _ _ ha.push ha.head).1 he).1
    simp [ChainState.coreRun, ChainState.coreApply, hadv] at hg
  | undone ha he hadv hlib hng hf => exact absurd ((hs.2 _ _ ha.push ha.head).1 he) hng
  | @switched f item newHead G first second d' ha hr hG hgoes hw =>
    exact absurd hgoes.take_one
      (((hs.2 _ _ ha.push ha.head).2 hr.other hr.higher).2 first second hr.branches)
  | @restored f item newHead x first second good rest d' e ha hr hsplit hlib hgood hfail hw =>
    have hno := ((hs.2 _ _ ha.push ha.head).2 hr.other hr.higher).2 first second hr.branches
    obtain ⟨F, hF, -, -, hnil⟩ := hw.head
    refine ⟨F, hF, ?_⟩
    rw [after_error, hw.chain]
    refine hnil ?_
    -- a block applied before the failing one would be the first of the branch
    cases good with
    | nil => rfl
    | cons g good =>
      have htake : (blocksOf first).take 1 = ((g :: good).map (·.data)).take 1 := by
        simp [blocksOf, hsplit]
      rw [htake] at hno
      exact absurd hgood.take_one hno

/-- In every run of such pushes the two heads agree after every push. -/
theorem push_heads_agree {d₀ d : Database τ ρ} {b : SignedBlock τ}
    (hcf : CollisionFree R.hash) (ho : Opened R d₀) (hr : Run R (InStep R) d₀ d)
    (hs : InStep R d b) : Agree (push R d b) := by
  have hboth : Inv R d ∧ AgreeOrNew d :=
    hr.invariant (P := fun d => Inv R d ∧ AgreeOrNew d) ⟨ho.inv, ho.agreeOrNew⟩
      fun d b hd hb => ⟨push_inv hd.1 hcf hb.1, .inl (push_agree hd.1 hcf hd.2 hb)⟩
  exact push_agree hboth.1 hcf hboth.2 hs

/-- A switch that stops at its first block, after two blocks and a stored competitor. -/
theorem push_heads_agree_switch :
    let i₁ := (blockOn BlockId.zero 0).id linkDigest
    let i₂ := (blockOn i₁ 9).id linkDigest
    let d := pushAll linkRules newNode [blockOn BlockId.zero 0, blockOn i₁ 0, blockOn i₁ 9]
    throws linkRules d (blockOn i₂ 0) = true ∧ Agree (push linkRules d (blockOn i₂ 0)) := by
  intro i₁ i₂ d
  have hrun : Run linkRules (InStep linkRules) newNode d :=
    Run.start.along _ (by decide)
  exact ⟨by decide, push_heads_agree linkDigest_collisionFree newNode_opened hrun
    (by decide)⟩

/-- The heads part on a switch that goes through: the pops of the old branch also take the fork
database's head down the new one, and nothing moves it up again.  After blocks 1, 2 and a
branch 2', 3' the chain's head is 3' and the fork database's is 2'. -/
theorem push_heads_disagree :
    ¬ ∀ (R : Rules Nat Unit) (d₀ d : Database Nat Unit) (b : SignedBlock Nat),
      CollisionFree R.hash → Opened R d₀ → Run R (fun _ _ => True) d₀ d →
      Agree (push R d b) := by
  intro h
  let i₁ := (blockOn BlockId.zero 0).id linkDigest
  let i₂ := (blockOn i₁ 1).id linkDigest
  have hrun : Run linkRules (fun _ _ => True) newNode
      (pushAll linkRules newNode [blockOn BlockId.zero 0, blockOn i₁ 0, blockOn i₁ 1]) :=
    Run.start.pushes _
  obtain ⟨x, hx, hid⟩ := h linkRules newNode _ (blockOn i₂ 1) linkDigest_collisionFree
    newNode_opened hrun
  have hne : (push linkRules (pushAll linkRules newNode
        [blockOn BlockId.zero 0, blockOn i₁ 0, blockOn i₁ 1]) (blockOn i₂ 1)).forkDb.head.map
          (·.id) ≠
      some (push linkRules (pushAll linkRules newNode
        [blockOn BlockId.zero 0, blockOn i₁ 0, blockOn i₁ 1])
          (blockOn i₂ 1)).chain.headBlockId := by
    decide
  rw [hx, Option.map_some, hid] at hne
  exact hne rfl

end WeNode.Fork.Database
