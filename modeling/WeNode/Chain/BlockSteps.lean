import WeNode.Chain.Block
import WeNode.Lib.Runs

/-!
# Steps of a block

When the steps of `_apply_block` succeed, and with which result.
-/

namespace WeNode.Chain

open WeNode.Lib

namespace Database

variable {env : Env} {skip : Skip} {d d' : Database} {b : Block} {t : Transaction}

theorem validateBlockHeader_ok :
    d.validateBlockHeader env skip b = .ok () ↔
      d.gpo.headBlockId = b.previous ∧ d.headBlockTime < b.timestamp ∧
      ∃ w, d.getWitness b.witness = .ok w ∧
        (skip.witnessSignature = false → env.validateSignee b w.signingKey = true) ∧
        (skip.witnessScheduleCheck = false → 0 < d.getSlotAtTime b.timestamp ∧
          d.getScheduledWitness (d.getSlotAtTime b.timestamp) = .ok w.owner) := by
  unfold validateBlockHeader
  cases hw : skip.witnessSignature <;> cases hs : skip.witnessScheduleCheck <;>
    simp [bind_ok, require_eq_ok, Unique.exists_iff, pure, Except.pure]

theorem checkExpiration_ok :
    d.checkExpiration skip t = .ok () ↔ d.headBlockNum = 0 ∨
      (skip.taposCheck = false → t.refBlockPrefix = idPrefix (d.blockSummaries t.refBlockNum)) ∧
      t.expiration ≤ timeAdd d.headBlockTime maxTimeUntilExpiration ∧
      (d.hasHardfork 9 = true → d.headBlockTime < t.expiration) ∧
      d.headBlockTime ≤ t.expiration := by
  unfold checkExpiration
  by_cases h0 : d.headBlockNum = 0
  · simp [h0, pure, Except.pure]
  · cases ht : skip.taposCheck <;> cases h9 : d.hasHardfork 9 <;>
      simp [h0, bind_ok, require_eq_ok]

theorem updateGlobalDynamicData_ok :
    d.updateGlobalDynamicData env skip b = .ok d' ↔
      (skip.undoHistoryCheck = false →
        d'.headBlockNum - d'.gpo.lastIrreversibleBlockNum < maxUndoHistory) ∧
      let missed := if d.headBlockTime = 0 then 0 else d.getSlotAtTime b.timestamp - 1
      ∃ d₁, (List.range missed).foldlM (missSlot b.witness) d = .ok d₁ ∧
        d' = d₁.setHead env b missed := by
  unfold updateGlobalDynamicData
  simp only [bind_ok]
  constructor
  · rintro ⟨d₁, hm, h⟩
    cases hu : skip.undoHistoryCheck with
    | true =>
      rw [hu] at h
      cases h
      exact ⟨fun hf => Bool.noConfusion hf, d₁, hm, rfl⟩
    | false =>
      rw [hu] at h
      obtain ⟨_, hr, h⟩ := bind_ok.1 h
      cases h
      exact ⟨fun _ => require_ok hr, d₁, hm, rfl⟩
  · rintro ⟨hr, d₁, hm, rfl⟩
    refine ⟨d₁, hm, ?_⟩
    cases hu : skip.undoHistoryCheck with
    | true => rfl
    | false => exact bind_ok.2 ⟨(), require_eq_ok.2 (hr hu), rfl⟩

end Database

namespace ChainState

variable {env : Env} {skip : Skip} {s s' : ChainState} {b : Block} {t : Transaction}

theorem checkTransaction_ok :
    s.checkTransaction env skip t = .ok () ↔
      (skip.validate = false → 0 < t.operations.length ∧
        t.operations.forM (Operation.validate env) = .ok ()) ∧
      (skip.transactionDupeCheck = false → s.isKnownTransaction (env.trxId t) = false) ∧
      (skip.transactionSignatures = false → skip.authorityCheck = false →
        s.db.checkAuthorities env t = .ok ()) ∧
      s.db.checkExpiration skip t = .ok () := by
  unfold checkTransaction
  cases hv : skip.validate <;> cases hd : skip.transactionDupeCheck <;>
    cases hs : skip.transactionSignatures <;> cases ha : skip.authorityCheck <;>
    simp [bind_ok, require_eq_ok, Unique.exists_iff, and_assoc]

theorem applyTransaction_ok :
    s.applyTransaction env skip t = .ok s' ↔ s.checkTransaction env skip t = .ok () ∧
      ∃ d, t.operations.foldlM (Database.applyOperation s.currentWitness) s.db = .ok d ∧
        s' = { s with
          db := d
          transactions := if skip.transactionDupeCheck then s.transactions
            else s.transactions.create fun id => ⟨id, env.trxId t, t.expiration⟩ } := by
  unfold applyTransaction
  simp only [bind_ok]
  constructor
  · rintro ⟨_, hc, d, hd, hs⟩
    cases hs
    exact ⟨hc, d, hd, rfl⟩
  · rintro ⟨hc, d, hd, rfl⟩
    exact ⟨(), hc, d, hd, rfl⟩

theorem checkBlock_ok :
    s.checkBlock env skip b = .ok () ↔
      (skip.merkleCheck = false → Database.checkMerkle env b = .ok ()) ∧
      s.db.validateBlockHeader env skip b = .ok () ∧
      (s.db.hasHardfork 12 = true → env.packSize b ≤ s.db.gpo.maximumBlockSize) := by
  unfold checkBlock
  cases hm : skip.merkleCheck <;> cases hf : s.db.hasHardfork 12 <;>
    simp [bind_ok, require_eq_ok, Unique.exists_iff, pure, Except.pure]

theorem startBlock_ok :
    s.startBlock env skip b = .ok s' ↔ s.checkBlock env skip b = .ok () ∧
      s'.checkVersion b.witness = .ok () ∧
      s' = processHeaderExtensions { s with currentWitness := b.witness } b := by
  unfold startBlock
  simp only [bind_ok]
  constructor
  · rintro ⟨_, hc, _, hv, hs⟩
    cases hs
    exact ⟨hc, hv, rfl⟩
  · rintro ⟨hc, hv, rfl⟩
    exact ⟨(), hc, (), hv, rfl⟩

theorem processHeaderExtensions_keeps (s : ChainState) (b : Block) :
    (s.processHeaderExtensions b).db = s.db ∧
      (s.processHeaderExtensions b).transactions = s.transactions := by
  unfold processHeaderExtensions
  induction b.extensions generalizing s with
  | nil => exact ⟨rfl, rfl⟩
  | cons e l ih =>
    have he := ih (s.processHeaderExtension b.witness e)
    cases e <;> exact he

theorem startBlock_keeps (h : s.startBlock env skip b = .ok s') :
    s'.db = s.db ∧ s'.transactions = s.transactions := by
  obtain ⟨-, -, rfl⟩ := startBlock_ok.1 h
  exact processHeaderExtensions_keeps _ b

theorem finishBlock_ok :
    s.finishBlock env skip b = .ok s' ↔ ∃ d₁ d₂ d₃ d₄,
      s.db.updateGlobalDynamicData env skip b = .ok d₁ ∧ d₁.updateSigningWitness b = .ok d₂ ∧
      d₂.updateLastIrreversibleBlock = .ok d₃ ∧
      (d₃.createBlockSummary env b).endBlock s.currentWitness s.versions = .ok d₄ ∧
      s' = { clearExpiredTransactions { s with db := d₃.createBlockSummary env b } with
        db := d₄ } := by
  unfold finishBlock
  simp only [bind_ok]
  constructor
  · rintro ⟨d₁, h₁, d₂, h₂, d₃, h₃, d₄, h₄, hs⟩
    cases hs
    exact ⟨d₁, d₂, d₃, d₄, h₁, h₂, h₃, h₄, rfl⟩
  · rintro ⟨d₁, d₂, d₃, d₄, h₁, h₂, h₃, h₄, rfl⟩
    exact ⟨d₁, h₁, d₂, h₂, d₃, h₃, d₄, h₄, rfl⟩

/-- What every operation keeps is kept by the transactions of a block. -/
theorem applyTransactions_induction {P : Database → Prop} {l : List Transaction}
    (h : l.foldlM (applyTransaction env skip) s = .ok s') (hs : P s.db)
    (hop : ∀ w d o d', P d → Database.applyOperation w d o = .ok d' → P d') : P s'.db := by
  refine run_induction (P := fun _ e => P e.db) h hs ?_
  intro _ e t e' he _ ht
  obtain ⟨-, d, hd, rfl⟩ := applyTransaction_ok.1 ht
  refine run_induction (P := fun _ d => P d) hd he ?_
  intro _ d o d' hd _ ho
  exact hop e.currentWitness d o d' hd ho

theorem applyBlock_ok :
    s.applyBlock env skip b = .ok s' ↔ ∃ s₁ s₂, s.startBlock env skip b = .ok s₁ ∧
      b.transactions.foldlM (applyTransaction env skip) s₁ = .ok s₂ ∧
      s₂.finishBlock env skip b = .ok s' := by
  unfold applyBlock
  simp [bind_ok]

/- The block of the next slot with these transactions, as the witness scheduled for it makes it. -/
def nextBlock (s : ChainState) (extensions : List HeaderExtension) (l : List Transaction) :
    Result Block := do
  let witness ← s.db.getScheduledWitness 1
  let w ← s.db.getWitness witness
  return {
    previous := s.db.gpo.headBlockId
    timestamp := s.db.getSlotTime 1
    witness := witness
    transactionMerkleRoot := 0
    extensions := extensions
    transactions := l
    witnessSignature := w.signingKey }

end ChainState

/- An environment of signatures that are the keys, and hashes good enough for small runs. -/
def Env.plain : Env where
  isUtf8 _ := true
  validPow _ := true
  validPow2 _ := true
  trxId t := t.expiration
  signatureKeys t := .ok t.signatures
  headerDigest _ := 0
  merkleRoot _ := 0
  validateSignee b key := b.witnessSignature == key
  packSize _ := 1000

namespace ChainState

/- The next block with the transactions `l`, produced and applied. -/
def produce (extensions : List HeaderExtension) (s : ChainState) (l : List Transaction) :
    Result ChainState := do
  s.applyBlock .plain .nothing (← s.nextBlock extensions l)

theorem Reachable.produce {extensions : List HeaderExtension} {s s' : ChainState}
    {blocks : List (List Transaction)} (h : Reachable .plain s)
    (hrun : blocks.foldlM (ChainState.produce extensions) s = .ok s') : Reachable .plain s' := by
  refine run_induction (P := fun _ s => Reachable .plain s) hrun h ?_
  intro _ s _ s' hs _ hstep
  obtain ⟨b, -, hb⟩ := bind_ok.1 hstep
  exact .block b hs hb

end ChainState

end WeNode.Chain
