import WeNode.Fork.Runs

/-!
# Atomicity of `push_block`

"Push block may fail in which case every partial change is unwound" (database.cpp:498): a push
that throws leaves the consensus state and the undo revision as they were, as long as what it
did can be undone.
-/

namespace WeNode.Fork.Database

open WeNode.Lib

variable {τ ρ : Type} {R : Rules τ ρ}

/-- In every run of pushes that can be undone, a push that throws leaves the consensus state
and the undo revision of the state before it. -/
theorem push_throws_unchanged {d₀ d : Database τ ρ} {b : SignedBlock τ}
    (hcf : CollisionFree R.hash) (ho : Opened R d₀) (hr : Run R (Undoable R) d₀ d)
    (hu : Undoable R d b) (ht : throws R d b = true) :
    (push R d b).chain = d.chain ∧ (push R d b).store.revision = d.store.revision := by
  have hi := hr.inv (fun _ _ h => h) hcf ho.inv
  have hout := pushBlock_cases hi hcf hu
  unfold throws at ht
  unfold push
  split at ht
  · next e he =>
    rw [he] at hout ⊢
    exact hout.throw_unchanged hi
  · cases ht

/-- A switch that fails in its second block: the first block of the new branch is popped
again and the old branch is applied once more. -/
theorem push_throws_unchanged_switch :
    let i₁ := (blockOn BlockId.zero 0).id linkDigest
    let i₂ := (blockOn i₁ 1).id linkDigest
    let d := pushAll linkRules newNode [blockOn BlockId.zero 0, blockOn i₁ 0, blockOn i₁ 1]
    throws linkRules d (blockOn i₂ 9) = true ∧
      (push linkRules d (blockOn i₂ 9)).chain = d.chain ∧
      (push linkRules d (blockOn i₂ 9)).store.revision = d.store.revision := by
  intro i₁ i₂ d
  have ht : throws linkRules d (blockOn i₂ 9) = true := by decide
  have hrun : Run linkRules (Undoable linkRules) newNode d :=
    Run.start.along _ (by decide)
  exact ⟨ht, push_throws_unchanged linkDigest_collisionFree newNode_opened hrun
    (by decide) ht⟩

/-- Not every failed push is undone.  Two blocks on genesis compete; the branch of the second
fails in its next block.  The error handling moves the fork database's head to block 1 before
it pops the block of the bad branch, so that pop asks for the parent of block 1 and throws:
the chain stays on the bad branch. -/
theorem push_throws_not_unchanged :
    ¬ ∀ (R : Rules Nat Unit) (d₀ d : Database Nat Unit) (b : SignedBlock Nat),
      CollisionFree R.hash → Opened R d₀ → Run R (fun _ _ => True) d₀ d →
      throws R d b = true →
      (push R d b).chain = d.chain ∧ (push R d b).store.revision = d.store.revision := by
  intro h
  let i₁ := (blockOn BlockId.zero 1).id linkDigest
  have hrun : Run linkRules (fun _ _ => True) newNode
      (pushAll linkRules newNode [blockOn BlockId.zero 0, blockOn BlockId.zero 1]) :=
    Run.start.pushes _
  have hch := (h linkRules newNode _ (blockOn i₁ 9) linkDigest_collisionFree newNode_opened hrun
    (by decide)).1
  have hid : (push linkRules (pushAll linkRules newNode
      [blockOn BlockId.zero 0, blockOn BlockId.zero 1]) (blockOn i₁ 9)).chain.headBlockId ≠
      (pushAll linkRules newNode
        [blockOn BlockId.zero 0, blockOn BlockId.zero 1]).chain.headBlockId := by
    decide
  exact hid (congrArg ChainState.headBlockId hch)

end WeNode.Fork.Database
