import WeNode.Chain.BlockSteps

/-!
# Opening and replaying the chain

libraries/chain/database.cpp: `open` (98-145) of an empty directory, `reindex` (147-201), the
checkpoints of `apply_block` (2508-2530) and `validate_invariants` (3921-4045).
-/

namespace WeNode.Chain

open WeNode.Lib

/-! ### `validate_invariants` -/

/- The sums that `validate_invariants` compares with the global properties. -/
structure Totals where
  supply : Int := 0
  tsd : Int := 0
  score : Int := 0
  pendingSCOREvalueInTME : Int := 0
  votes : Int := 0

namespace Totals

def addAccount (t : Totals) (a : Account) : Result Totals := do
  return {
    supply := ← [a.balance, a.tmeSavingsBalance, a.tmeRewardBalance].foldlM safeAdd t.supply
    tsd := ← [a.tsdBalance, a.tsdSavingsBalance, a.tsdRewardBalance].foldlM safeAdd t.tsd
    score := ← [a.score, a.scoreRewardBalance].foldlM safeAdd t.score
    pendingSCOREvalueInTME := ← safeAdd t.pendingSCOREvalueInTME a.scoreRewardBalanceInTME
    votes := ← safeAdd t.votes (← if a.proxy = proxyToSelfAccount then a.witnessVoteWeight
      else pure (a.proxiedVotes ⟨maxProxyRecursionDepth - 1, by decide⟩)) }

def addAsset (text : String) (t : Totals) (a : Asset) : Result Totals :=
  if a.symbol = symbolCoin then do return { t with supply := ← safeAdd t.supply a.amount }
  else if a.symbol = symbolUsd then do return { t with tsd := ← safeAdd t.tsd a.amount }
  else .error (.assertion text)

/- An order that sells anything else is not counted. -/
def addOrder (t : Totals) (o : LimitOrder) : Result Totals :=
  if o.sellPrice.base.symbol = symbolCoin then do
    return { t with supply := ← safeAdd t.supply o.forSale }
  else if o.sellPrice.base.symbol = symbolUsd then do
    return { t with tsd := ← safeAdd t.tsd o.forSale }
  else .ok t

def addEscrow (t : Totals) (e : Escrow) : Result Totals := do
  let supply ← Asset.add (.coin t.supply) e.tmeBalance
  let tsd ← Asset.add (.usd t.tsd) e.tsdBalance
  addAsset "found escrow pending fee that is not TSD or TME"
    { t with supply := supply.amount, tsd := tsd.amount } e.pendingFee

end Totals

/- The sums over all objects. -/
def Database.totals (d : Database) : Result Totals := do
  let t ← d.accounts.rows.foldlM Totals.addAccount {}
  let t ← (d.convertRequests.rows.map (·.amount)).foldlM
    (Totals.addAsset "Encountered illegal symbol in convert_request_object") t
  let t ← d.limitOrders.rows.foldlM Totals.addOrder t
  let t ← d.escrows.rows.foldlM Totals.addEscrow t
  let t ← (d.savingsWithdraws.rows.map (·.amount)).foldlM
    (Totals.addAsset "found savings withdraw that is not TSD or TME") t
  let supply ← (d.rewardFunds.rows.map (·.rewardBalance)).foldlM safeAdd t.supply
  let funds ← [d.gpo.totalRewardFundTME, d.gpo.pendingRewardedSCOREvalueInTME].foldlM safeAdd
    d.gpo.totalTMEfundForSCORE
  return { t with supply := ← safeAdd supply funds }

/-- `validate_invariants` -/
def Database.validateInvariants (d : Database) : Result Unit := do
  require (∀ w ∈ d.witnesses.rows, w.votes ≤ d.gpo.totalSCORE) ""
  let t ← d.totals
  require (d.gpo.currentSupply = t.supply) ""
  require (d.gpo.currentTSDsupply = t.tsd) ""
  require ((← safeAdd d.gpo.totalSCORE d.gpo.pendingRewardedSCORE) = t.score) ""
  require (d.gpo.totalSCORE = t.votes) ""
  require (d.gpo.pendingRewardedSCOREvalueInTME = t.pendingSCOREvalueInTME) ""
  require (d.gpo.currentSupply ≤ d.gpo.virtualSupply) ""
  let median := d.feed.currentMedianHistory
  if !median.isNull then
    let converted ← Asset.mul (.usd d.gpo.currentTSDsupply) median
    require ((← converted.add (.coin d.gpo.currentSupply)) = .coin d.gpo.virtualSupply) ""

/-! ### Opening -/

/- The two callers of `open` on an empty directory, each with a supply of its own. -/
inductive Opening where
  /-- `application_impl::startup` -/
  | application
  | reindex
deriving DecidableEq

def Opening.initialSupply : Opening → Int
  | .application => initSupply
  | .reindex => 0

namespace ChainState

/-- `open` -/
def openEmpty (initialSupply : Int) : Result ChainState := do
  let s := initGenesis initialSupply
  s.db.validateInvariants
  return s

/-! ### Checkpoints -/

def matchCheckpoint (env : Env) (checkpoints : List (Nat × Hash)) (b : Block) : Result Unit :=
  match checkpoints.find? fun c => c.1 == Database.blockNum b with
  | none => .ok ()
  | some c => require (Database.blockId env b = c.2) "Block did not match checkpoint"

/- The flags a block is applied with; up to the last checkpoint few checks are left. -/
def checkpointFlags (env : Env) (checkpoints : List (Nat × Hash)) (skip : Skip) (b : Block) :
    Result Skip :=
  match checkpoints.getLast? with
  | none => .ok skip
  | some last =>
    if last.2 = 0 then .ok skip
    else do
      matchCheckpoint env checkpoints b
      return if Database.blockNum b ≤ last.1 then .checkpoint else skip

/-- `apply_block` -/
def applyBlockWith (env : Env) (checkpoints : List (Nat × Hash)) (skip : Skip) (s : ChainState)
    (b : Block) : Result ChainState := do
  let skip ← checkpointFlags env checkpoints skip b
  s.applyBlock env skip b

/- The blocks one after the other. -/
def applyBlocks (env : Env) (checkpoints : List (Nat × Hash)) (skip : Skip) (s : ChainState)
    (l : List Block) : Result ChainState :=
  l.foldlM (applyBlockWith env checkpoints skip) s

/-- `reindex` of a log that holds these blocks -/
def reindex (env : Env) (checkpoints : List (Nat × Hash)) (log : List Block) :
    Result ChainState := do
  let s ← openEmpty 0
  require (log ≠ []) "No blocks in block log. Cannot reindex an empty chain."
  s.applyBlocks env checkpoints .reindex log

end ChainState

/-! ### Leaving out checks -/

/-- Every check that `a` leaves out, `b` leaves out. -/
structure Skip.Le (a b : Skip) : Prop where
  witnessSignature : b.witnessSignature = false → a.witnessSignature = false
  transactionSignatures : b.transactionSignatures = false → a.transactionSignatures = false
  taposCheck : b.taposCheck = false → a.taposCheck = false
  authorityCheck : b.authorityCheck = false → a.authorityCheck = false
  merkleCheck : b.merkleCheck = false → a.merkleCheck = false
  undoHistoryCheck : b.undoHistoryCheck = false → a.undoHistoryCheck = false
  witnessScheduleCheck : b.witnessScheduleCheck = false → a.witnessScheduleCheck = false
  validate : b.validate = false → a.validate = false

namespace ChainState

/-- The two states differ in the transactions kept to find duplicates only. -/
structure SameObjects (s t : ChainState) : Prop where
  db : s.db = t.db
  currentWitness : s.currentWitness = t.currentWitness
  versions : s.versions = t.versions

section

variable {env : Env} {a b : Skip} {s t s' : ChainState}

theorem checkTransaction_weaken {x : Transaction} (hab : a.Le b) (hb : b.transactionDupeCheck)
    (hst : SameObjects s t) (h : s.checkTransaction env a x = .ok ()) :
    t.checkTransaction env b x = .ok () := by
  obtain ⟨hv, -, hs, he⟩ := checkTransaction_ok.1 h
  rw [hst.db] at hs he
  refine checkTransaction_ok.2 ⟨fun hbv => hv (hab.validate hbv), ?_, ?_, ?_⟩
  · simp [hb]
  · intro hbs hba
    exact hs (hab.transactionSignatures hbs) (hab.authorityCheck hba)
  · rw [Database.checkExpiration_ok] at he ⊢
    rcases he with h0 | ⟨htapos, he⟩
    · exact Or.inl h0
    · exact Or.inr ⟨fun hbt => htapos (hab.taposCheck hbt), he⟩

theorem applyTransaction_weaken {x : Transaction} (hab : a.Le b) (hb : b.transactionDupeCheck)
    (hst : SameObjects s t) (h : s.applyTransaction env a x = .ok s') :
    ∃ t', t.applyTransaction env b x = .ok t' ∧ SameObjects s' t' := by
  obtain ⟨hc, d, hd, rfl⟩ := applyTransaction_ok.1 h
  rw [hst.db, hst.currentWitness] at hd
  exact ⟨_, applyTransaction_ok.2 ⟨checkTransaction_weaken hab hb hst hc, d, hd, rfl⟩,
    rfl, hst.currentWitness, hst.versions⟩

theorem processHeaderExtensions_same {x : Block} (hst : SameObjects s t) :
    SameObjects (s.processHeaderExtensions x) (t.processHeaderExtensions x) := by
  unfold processHeaderExtensions
  induction x.extensions generalizing s t with
  | nil => exact hst
  | cons e l ih =>
    apply ih
    cases e with
    | void => exact hst
    | version v =>
      exact ⟨hst.db, hst.currentWitness, by simp [processHeaderExtension, setVersion, hst.versions]⟩
    | hardforkVersionVote v time =>
      exact ⟨hst.db, hst.currentWitness, by simp [processHeaderExtension, setVersion, hst.versions]⟩

theorem checkBlock_weaken {x : Block} (hab : a.Le b) (hst : SameObjects s t)
    (h : s.checkBlock env a x = .ok ()) : t.checkBlock env b x = .ok () := by
  obtain ⟨hm, hh, hsize⟩ := checkBlock_ok.1 h
  rw [hst.db] at hh hsize
  obtain ⟨hid, htime, w, hw, hsig, hslot⟩ := Database.validateBlockHeader_ok.1 hh
  exact checkBlock_ok.2 ⟨fun hbm => hm (hab.merkleCheck hbm), Database.validateBlockHeader_ok.2
    ⟨hid, htime, w, hw, fun hbs => hsig (hab.witnessSignature hbs),
      fun hbs => hslot (hab.witnessScheduleCheck hbs)⟩, hsize⟩

theorem startBlock_weaken {x : Block} (hab : a.Le b) (hst : SameObjects s t)
    (h : s.startBlock env a x = .ok s') :
    ∃ t', t.startBlock env b x = .ok t' ∧ SameObjects s' t' := by
  obtain ⟨hc, hv, rfl⟩ := startBlock_ok.1 h
  have hsame : SameObjects (processHeaderExtensions { s with currentWitness := x.witness } x)
      (processHeaderExtensions { t with currentWitness := x.witness } x) :=
    processHeaderExtensions_same ⟨hst.db, rfl, hst.versions⟩
  refine ⟨_, startBlock_ok.2 ⟨checkBlock_weaken hab hst hc, ?_, rfl⟩, hsame⟩
  unfold checkVersion at hv ⊢
  rwa [← hsame.db, ← hsame.versions]

theorem finishBlock_weaken {x : Block} (hab : a.Le b) (hst : SameObjects s t)
    (h : s.finishBlock env a x = .ok s') :
    ∃ t', t.finishBlock env b x = .ok t' ∧ SameObjects s' t' := by
  obtain ⟨d₁, d₂, d₃, d₄, h₁, h₂, h₃, h₄, rfl⟩ := finishBlock_ok.1 h
  rw [hst.db] at h₁
  rw [hst.currentWitness, hst.versions] at h₄
  obtain ⟨hu, hm⟩ := Database.updateGlobalDynamicData_ok.1 h₁
  have h₁' := Database.updateGlobalDynamicData_ok.2 ⟨fun hbu => hu (hab.undoHistoryCheck hbu), hm⟩
  exact ⟨_, finishBlock_ok.2 ⟨d₁, d₂, d₃, d₄, h₁', h₂, h₃, h₄, rfl⟩, rfl, hst.currentWitness,
    hst.versions⟩

/-- What is applied with more checks is applied with fewer, to the same effect. -/
theorem applyBlock_weaken {x : Block} (hab : a.Le b) (hb : b.transactionDupeCheck)
    (hst : SameObjects s t) (h : s.applyBlock env a x = .ok s') :
    ∃ t', t.applyBlock env b x = .ok t' ∧ SameObjects s' t' := by
  obtain ⟨s₁, s₂, h₁, h₂, h₃⟩ := applyBlock_ok.1 h
  obtain ⟨t₁, ht₁, hst₁⟩ := startBlock_weaken hab hst h₁
  obtain ⟨t₂, ht₂, hst₂⟩ := run_simulates h₂ hst₁
    fun _ _ _ _ hR hx => applyTransaction_weaken hab hb hR hx
  obtain ⟨t₃, ht₃, hst₃⟩ := finishBlock_weaken hab hst₂ h₃
  exact ⟨t₃, applyBlock_ok.2 ⟨t₁, t₂, ht₁, ht₂, ht₃⟩, hst₃⟩

end

/-! ### Replay -/

/- Checkpoints replace the flags of some blocks, whatever these were. -/
theorem checkpointFlags_cases {env : Env} {checkpoints : List (Nat × Hash)} {x : Block}
    {skip a : Skip} (h : checkpointFlags env checkpoints skip x = .ok a) :
    (a = skip ∧ ∀ b, checkpointFlags env checkpoints b x = .ok b) ∨
      (a = .checkpoint ∧ ∀ b, checkpointFlags env checkpoints b x = .ok .checkpoint) := by
  unfold checkpointFlags at h ⊢
  cases hl : checkpoints.getLast? with
  | none =>
    rw [hl] at h
    cases h
    exact Or.inl ⟨rfl, fun _ => rfl⟩
  | some last =>
    rw [hl] at h
    dsimp only at h ⊢
    by_cases h0 : last.2 = 0
    · rw [if_pos h0] at h
      cases h
      exact Or.inl ⟨rfl, fun _ => if_pos h0⟩
    · rw [if_neg h0] at h
      obtain ⟨_, hmatch, h⟩ := bind_ok.1 h
      cases h
      by_cases hnum : Database.blockNum x ≤ last.1
      · refine Or.inr ⟨if_pos hnum, fun b => ?_⟩
        rw [if_neg h0]
        exact bind_ok.2 ⟨(), hmatch, congrArg Except.ok (if_pos hnum)⟩
      · refine Or.inl ⟨if_neg hnum, fun b => ?_⟩
        rw [if_neg h0]
        exact bind_ok.2 ⟨(), hmatch, congrArg Except.ok (if_neg hnum)⟩

theorem applyBlockWith_reindex {env : Env} {checkpoints : List (Nat × Hash)} {x : Block}
    {s t s' : ChainState} (hst : SameObjects s t)
    (h : s.applyBlockWith env checkpoints .nothing x = .ok s') :
    ∃ t', t.applyBlockWith env checkpoints .reindex x = .ok t' ∧ SameObjects s' t' := by
  obtain ⟨a, ha, hx⟩ := bind_ok.1 h
  rcases checkpointFlags_cases ha with ⟨rfl, hb⟩ | ⟨rfl, hb⟩
  · obtain ⟨t', ht', hst'⟩ := applyBlock_weaken (b := .reindex) (by constructor <;> decide) rfl
      hst hx
    exact ⟨t', bind_ok.2 ⟨_, hb _, ht'⟩, hst'⟩
  · obtain ⟨t', ht', hst'⟩ := applyBlock_weaken (b := .checkpoint) ⟨id, id, id, id, id, id, id, id⟩
      rfl hst hx
    exact ⟨t', bind_ok.2 ⟨_, hb _, ht'⟩, hst'⟩

end ChainState

/-- Whatever a database opened so accepts block by block, a replay makes the same objects of. -/
def Opening.Replays (o : Opening) : Prop :=
  ∀ (env : Env) (checkpoints : List (Nat × Hash)) (log : List Block) (s₀ s : ChainState),
    log ≠ [] → ChainState.openEmpty o.initialSupply = .ok s₀ →
    s₀.applyBlocks env checkpoints .nothing log = .ok s →
    ∃ t, ChainState.reindex env checkpoints log = .ok t ∧ s.SameObjects t

theorem replays_reindex : Opening.reindex.Replays := by
  intro env checkpoints log s₀ s hlog hopen hrun
  obtain ⟨t, ht, hst⟩ := run_simulates hrun (R := ChainState.SameObjects) ⟨rfl, rfl, rfl⟩
    fun _ _ _ _ hR hx => ChainState.applyBlockWith_reindex hR hx
  refine ⟨t, ?_, hst⟩
  exact bind_ok.2 ⟨s₀, hopen, bind_ok.2 ⟨(), require_eq_ok.2 hlog, ht⟩⟩

/- The block of the first witness without any transaction. -/
def firstBlock : Block where
  previous := 0
  timestamp := genesisTime + blockInterval
  witness := Database.genesisAccountName 0
  transactionMerkleRoot := 0
  extensions := []
  transactions := []
  witnessSignature := initPublicKey

theorem firstBlock_accepted :
    (ChainState.openEmpty initSupply >>= fun s =>
      s.applyBlocks .plain [] .nothing [firstBlock]).map (·.db.gpo.currentSupply) =
      .ok 1030000000 := by
  decide +kernel

theorem firstBlock_replayed :
    (ChainState.reindex .plain [] [firstBlock]).map (·.db.gpo.currentSupply) = .ok 30000000 := by
  decide +kernel

theorem not_replays_application : ¬ Opening.application.Replays := by
  intro h
  obtain ⟨s, ha, hs⟩ := map_ok.1 firstBlock_accepted
  obtain ⟨s₀, hopen, hrun⟩ := bind_ok.1 ha
  obtain ⟨t, ht, hst⟩ := h .plain [] [firstBlock] s₀ s (List.cons_ne_nil _ _) hopen hrun
  obtain ⟨t', ht', hr⟩ := map_ok.1 firstBlock_replayed
  cases ht.symm.trans ht'
  rw [hst.db, hr] at hs
  omega

/-- A replay agrees with the run it repeats exactly where the database had been opened with the
supply that `reindex` opens it with. -/
theorem replays_iff (o : Opening) : o.Replays ↔ o = .reindex := by
  constructor
  · intro h
    cases o with
    | application => exact absurd h not_replays_application
    | reindex => rfl
  · rintro rfl
    exact replays_reindex

theorem application_replay_differs :
    ∃ s₀ s t, ChainState.openEmpty initSupply = .ok s₀ ∧
      s₀.applyBlocks .plain [] .nothing [firstBlock] = .ok s ∧
      ChainState.reindex .plain [] [firstBlock] = .ok t ∧
      s.db.gpo.currentSupply ≠ t.db.gpo.currentSupply := by
  obtain ⟨s, ha, hs⟩ := map_ok.1 firstBlock_accepted
  obtain ⟨s₀, hopen, hrun⟩ := bind_ok.1 ha
  obtain ⟨t, ht, hr⟩ := map_ok.1 firstBlock_replayed
  refine ⟨s₀, s, t, hopen, hrun, ht, ?_⟩
  rw [hs, hr]
  decide

end WeNode.Chain
