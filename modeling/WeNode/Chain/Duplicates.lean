import WeNode.Chain.CoreBlocks
import WeNode.Chain.Replay

/-!
# Duplicate transactions

A transaction that is applied with the check for duplicates is stored until it expires, so that
no later check passes it.  Up to the last checkpoint and in a replay transactions are applied
without the check, and then they are not stored either.
-/

namespace WeNode.Chain

open WeNode.Lib

namespace Database

theorem applyOperations_head {w : Name} {l : List Operation} {d d' : Database}
    (h : l.foldlM (applyOperation w) d = .ok d') :
    d'.headBlockTime = d.headBlockTime ∧ d'.headBlockNum = d.headBlockNum := by
  refine run_induction (P := fun _ e => e.headBlockTime = d.headBlockTime ∧
    e.headBlockNum = d.headBlockNum) h ⟨rfl, rfl⟩ ?_
  intro _ e o e' he _ ho
  have hc := of_triple applyOperation_core trivial ho
  exact ⟨(congrArg Core.time hc).trans he.1, (congrArg Core.headBlockNum hc).trans he.2⟩

theorem numFromId_blockId (env : Env) (b : Block) : numFromId (blockId env b) = blockNum b := by
  have hd : env.headerDigest b % two128 < two128 := Nat.mod_lt _ (by decide)
  have hn : blockNum b < two32 := Nat.mod_lt _ (by decide)
  unfold numFromId blockId
  rw [Nat.add_comm, Nat.add_mul_div_right _ _ (by decide), Nat.div_eq_of_lt hd, Nat.zero_add,
    Nat.mod_eq_of_lt hn]

end Database

namespace ChainState

variable {env : Env} {skip : Skip} {s s' : ChainState} {b : Block} {t : Transaction}

/- The blocks one after the other, each with its flags. -/
def applyEach (env : Env) (s : ChainState) (l : List (Skip × Block)) : Result ChainState :=
  l.foldlM (fun s x => s.applyBlock env x.1 x.2) s

/-! ### The head block -/

/-- The number of the head block is the one in its id, and no more than the seconds passed. -/
structure Numbered (s : ChainState) : Prop where
  id : numFromId s.db.gpo.headBlockId = s.db.headBlockNum
  time : genesisTime + s.db.headBlockNum ≤ s.db.headBlockTime

theorem applyTransaction_head (h : s.applyTransaction env skip t = .ok s') :
    s'.db.headBlockTime = s.db.headBlockTime ∧ s'.db.headBlockNum = s.db.headBlockNum := by
  obtain ⟨-, d, hd, rfl⟩ := applyTransaction_ok.1 h
  exact Database.applyOperations_head hd

theorem finishBlock_head (h : s.finishBlock env skip b = .ok s') :
    s'.db.headBlockTime = b.timestamp ∧ s'.db.headBlockNum = Database.blockNum b ∧
      s'.db.gpo.headBlockId = Database.blockId env b ∧
      s'.transactions.rows = s.transactions.rows.filter
        fun r => decide (b.timestamp ≤ r.expiration) := by
  obtain ⟨d₁, d₂, d₃, d₄, h₁, h₂, h₃, h₄, rfl⟩ := finishBlock_ok.1 h
  have c₁ := of_triple Database.updateGlobalDynamicData_core trivial h₁
  have c₂ := of_triple Database.updateSigningWitness_core trivial h₂
  have c₃ := of_triple Database.updateLastIrreversibleBlock_core trivial h₃
  have c₄ := of_triple Database.endBlock_core trivial h₄
  have hc : (d₃.createBlockSummary env b).core =
      { s.db.core with
        time := b.timestamp
        headBlockNum := Database.blockNum b
        headBlockId := Database.blockId env b
        slots := d₁.core.slots
        lastIrreversible := d₃.core.lastIrreversible
        witnesses := d₂.core.witnesses } := by
    rw [Database.core_createBlockSummary, c₃, c₂, c₁]
  have htime : (d₃.createBlockSummary env b).headBlockTime = b.timestamp :=
    congrArg Core.time hc
  refine ⟨(congrArg Core.time c₄).trans htime, (congrArg Core.headBlockNum c₄).trans
    (congrArg Core.headBlockNum hc), (congrArg Core.headBlockId c₄).trans
    (congrArg Core.headBlockId hc), ?_⟩
  simp only [clearExpiredTransactions, htime]

theorem applyTransactions_head {l : List Transaction}
    (h : l.foldlM (applyTransaction env skip) s = .ok s') :
    s'.db.headBlockTime = s.db.headBlockTime ∧ s'.db.headBlockNum = s.db.headBlockNum := by
  refine run_induction (P := fun _ e => e.db.headBlockTime = s.db.headBlockTime ∧
    e.db.headBlockNum = s.db.headBlockNum) h ⟨rfl, rfl⟩ ?_
  intro _ e t e' he _ ht
  have hh := applyTransaction_head ht
  exact ⟨hh.1.trans he.1, hh.2.trans he.2⟩

theorem applyBlock_head (hs : Numbered s) (ht : b.timestamp < two32)
    (h : s.applyBlock env skip b = .ok s') :
    s.db.headBlockTime < b.timestamp ∧ s'.db.headBlockTime = b.timestamp ∧
      s'.db.headBlockNum = s.db.headBlockNum + 1 ∧
      s'.db.gpo.headBlockId = Database.blockId env b := by
  obtain ⟨s₁, s₂, h₁, h₂, h₃⟩ := applyBlock_ok.1 h
  obtain ⟨hc, -, -⟩ := startBlock_ok.1 h₁
  obtain ⟨hid, hlater, -⟩ := Database.validateBlockHeader_ok.1 (checkBlock_ok.1 hc).2.1
  obtain ⟨htime, hnumber, hhead, -⟩ := finishBlock_head h₃
  refine ⟨hlater, htime, ?_, hhead⟩
  have hsmall := Nat.lt_trans (Nat.lt_of_le_of_lt hs.time hlater) ht
  rw [hnumber]
  unfold Database.blockNum
  rw [← hid, hs.id, Nat.mod_eq_of_lt]
  unfold genesisTime at hsmall
  omega

theorem applyBlock_numbered (hs : Numbered s) (ht : b.timestamp < two32)
    (h : s.applyBlock env skip b = .ok s') :
    Numbered s' ∧ s.db.headBlockTime < s'.db.headBlockTime ∧ 0 < s'.db.headBlockNum := by
  obtain ⟨hlater, htime, hnumber, hhead⟩ := applyBlock_head hs ht h
  refine ⟨⟨?_, ?_⟩, htime ▸ hlater, by omega⟩
  · obtain ⟨s₁, s₂, -, -, h₃⟩ := applyBlock_ok.1 h
    rw [hhead, (finishBlock_head h₃).2.1]
    exact Database.numFromId_blockId env b
  · rw [htime, hnumber]
    exact Nat.lt_of_le_of_lt hs.time hlater

theorem numbered_initGenesis (supply : Int) : Numbered (initGenesis supply) :=
  ⟨(by decide : numFromId 0 = 0), Nat.le_refl _⟩

/-! ### Recorded transactions -/

/-- The transactions applied so far have different ids, and those that have not expired are
stored.  In the first block, where expiration is not checked, all of them are. -/
structure Recorded (env : Env) (l : List Transaction) (s : ChainState) : Prop where
  distinct : (l.map env.trxId).Nodup
  stored : ∀ t ∈ l, s.db.headBlockNum = 0 ∨ s.db.headBlockTime ≤ t.expiration →
    ∃ r ∈ s.transactions.rows, r.trxId = env.trxId t ∧ r.expiration = t.expiration

theorem isKnownTransaction_of_mem {r : StoredTransaction} (hr : r ∈ s.transactions.rows) :
    s.isKnownTransaction r.trxId := by
  unfold isKnownTransaction Table.find
  rw [List.find?_isSome]
  exact ⟨r, hr, beq_self_eq_true _⟩

theorem Recorded.applyTransaction {l : List Transaction} (hr : Recorded env l s)
    (hid : ∀ t u, env.trxId t = env.trxId u → t.expiration = u.expiration)
    (hskip : skip.transactionDupeCheck = false)
    (h : s.applyTransaction env skip t = .ok s') : Recorded env (l ++ [t]) s' := by
  obtain ⟨htime, hnum⟩ := applyTransaction_head h
  obtain ⟨hc, d, hd, rfl⟩ := applyTransaction_ok.1 h
  obtain ⟨-, hdupe, -, hexp⟩ := checkTransaction_ok.1 hc
  have hunknown := hdupe hskip
  constructor
  · rw [List.map_append, List.nodup_append]
    refine ⟨hr.distinct, List.nodup_singleton _, ?_⟩
    rintro x hx y hy rfl
    obtain ⟨u, hu, rfl⟩ := List.mem_map.1 hx
    have hut : env.trxId u = env.trxId t := List.mem_singleton.1 hy
    have hlive : s.db.headBlockNum = 0 ∨ s.db.headBlockTime ≤ u.expiration := by
      rw [hid u t hut]
      rcases Database.checkExpiration_ok.1 hexp with h0 | ⟨-, -, -, hle⟩
      · exact Or.inl h0
      · exact Or.inr hle
    obtain ⟨r, hmem, hru, -⟩ := hr.stored u hu hlive
    have hknown := isKnownTransaction_of_mem hmem
    rw [hru, hut, hunknown] at hknown
    cases hknown
  · intro u hu hlive
    rw [hskip]
    rw [htime, hnum] at hlive
    rcases List.mem_append.1 hu with hu | hu
    · obtain ⟨r, hmem, hru⟩ := hr.stored u hu hlive
      exact ⟨r, List.mem_append_left _ hmem, hru⟩
    · cases List.mem_singleton.1 hu
      exact ⟨_, List.mem_append_right _ (List.mem_singleton_self _), rfl, rfl⟩

theorem Recorded.applyBlock {l : List Transaction} (hr : Recorded env l s) (hs : Numbered s)
    (hid : ∀ t u, env.trxId t = env.trxId u → t.expiration = u.expiration)
    (ht : b.timestamp < two32) (hskip : skip.transactionDupeCheck = false)
    (h : s.applyBlock env skip b = .ok s') : Recorded env (l ++ b.transactions) s' := by
  obtain ⟨-, hlater, hpos⟩ := applyBlock_numbered hs ht h
  obtain ⟨s₁, s₂, h₁, h₂, h₃⟩ := applyBlock_ok.1 h
  obtain ⟨hdb, htrx⟩ := startBlock_keeps h₁
  have hr₁ : Recorded env (l ++ []) s₁ := by
    rw [List.append_nil]
    exact ⟨hr.distinct, by rw [hdb, htrx]; exact hr.stored⟩
  have hr₂ : Recorded env (l ++ b.transactions) s₂ := by
    refine run_induction (P := fun done e => Recorded env (l ++ done) e) h₂ hr₁ ?_
    intro done e x e' he _ hx
    rw [← List.append_assoc]
    exact he.applyTransaction hid hskip hx
  have htime : s₂.db.headBlockTime = s.db.headBlockTime := by
    rw [(applyTransactions_head h₂).1, hdb]
  obtain ⟨h₃t, -, -, hrows⟩ := finishBlock_head h₃
  refine ⟨hr₂.distinct, ?_⟩
  rintro u hu (h0 | hlive)
  · omega
  · have hlive₂ : s₂.db.headBlockTime ≤ u.expiration :=
      htime ▸ Nat.le_trans (Nat.le_of_lt hlater) hlive
    obtain ⟨r, hmem, hru, hre⟩ := hr₂.stored u hu (Or.inr hlive₂)
    refine ⟨r, ?_, hru, hre⟩
    rw [hrows, List.mem_filter]
    exact ⟨hmem, by rw [hre]; exact decide_eq_true (h₃t ▸ hlive)⟩

/-- What is recorded stays so while pending transactions are applied, and is not applied again. -/
theorem Recorded.not_applied {l : List Transaction} (hr : Recorded env l s) (ht : t ∈ l)
    (hlive : s.db.headBlockTime ≤ t.expiration) {pending : List Transaction}
    (hp : pending.foldlM (ChainState.applyTransaction env skip) s = .ok s') (s'' : ChainState) :
    s'.applyTransaction env .nothing t ≠ .ok s'' := by
  intro h
  obtain ⟨r, hmem, hrt, -⟩ := hr.stored t ht (Or.inr hlive)
  have hmem' : r ∈ s'.transactions.rows := by
    refine run_induction (P := fun _ e => r ∈ e.transactions.rows) hp hmem ?_
    intro _ e x e' he _ hx
    obtain ⟨-, d, -, rfl⟩ := applyTransaction_ok.1 hx
    cases skip.transactionDupeCheck with
    | true => exact he
    | false => exact List.mem_append_left _ he
  have hknown := isKnownTransaction_of_mem hmem'
  rw [hrt, (checkTransaction_ok.1 (applyTransaction_ok.1 h).1).2.1 rfl] at hknown
  cases hknown

/-- Along a chain of blocks that are applied with the check for duplicates no transaction occurs
twice, and none that has not expired is applied again. -/
theorem applied_once {supply : Int} {l : List (Skip × Block)}
    (hid : ∀ t u, env.trxId t = env.trxId u → t.expiration = u.expiration)
    (htime : ∀ x ∈ l, x.2.timestamp < two32)
    (hchecked : ∀ x ∈ l, x.1.transactionDupeCheck = false)
    (h : (initGenesis supply).applyEach env l = .ok s) :
    ((l.flatMap (·.2.transactions)).map env.trxId).Nodup ∧
      ∀ t ∈ l.flatMap (·.2.transactions), s.db.headBlockTime ≤ t.expiration →
        ∀ (pending : List Transaction) (skip : Skip) (s' s'' : ChainState),
          pending.foldlM (applyTransaction env skip) s = .ok s' →
          s'.applyTransaction env .nothing t ≠ .ok s'' := by
  have hr : Numbered s ∧ Recorded env (l.flatMap (·.2.transactions)) s := by
    refine run_induction (P := fun done e => Numbered e ∧
      Recorded env (done.flatMap (·.2.transactions)) e) h
      ⟨numbered_initGenesis supply, List.nodup_nil, nofun⟩ ?_
    rintro done e x e' ⟨hn, hrec⟩ hx hstep
    refine ⟨(applyBlock_numbered hn (htime x hx) hstep).1, ?_⟩
    rw [List.flatMap_append, List.flatMap_singleton]
    exact hrec.applyBlock hn hid (htime x hx) (hchecked x hx) hstep
  refine ⟨hr.2.distinct, ?_⟩
  intro t ht hlive pending skip s' s'' hp
  exact hr.2.not_applied ht hlive hp s''

end ChainState

theorem firstBlock_applied :
    ((ChainState.initGenesis initSupply).applyEach .plain [(.nothing, firstBlock)]).map
      (fun _ => ()) = .ok () := by
  decide +kernel

/- A transfer between two accounts of the genesis that expires a minute after it. -/
def oneTransfer : Transaction where
  refBlockNum := 0
  refBlockPrefix := 0
  expiration := genesisTime + 60
  operations := [.transfer {
    fromAccount := Database.genesisAccountName 1
    toAccount := Database.genesisAccountName 2
    amount := .coin 1
    memo := { size := 0 } }]
  signatures := [initPublicKey]

def transferBlock : Block := { firstBlock with transactions := [oneTransfer] }

theorem transferBlock_applied :
    ((ChainState.initGenesis initSupply).applyEach .plain [(.nothing, transferBlock)]).map
      (·.db.headBlockTime) = .ok (genesisTime + blockInterval) := by
  decide +kernel

theorem applied_once_transfer :
    ∃ s, (ChainState.initGenesis initSupply).applyEach .plain [(.nothing, transferBlock)] =
      .ok s ∧ ∀ s', s.applyTransaction .plain .nothing oneTransfer ≠ .ok s' := by
  obtain ⟨s, hs, htime⟩ := map_ok.1 transferBlock_applied
  refine ⟨s, hs, fun s' => ?_⟩
  refine (ChainState.applied_once (fun _ _ h => h) ?_ ?_ hs).2 oneTransfer ?_ ?_ [] .nothing s s' rfl
  · intro x hx
    cases List.mem_singleton.1 hx
    decide
  · intro x hx
    cases List.mem_singleton.1 hx
    rfl
  · exact List.mem_singleton_self _
  · rw [htime]
    decide

/-- Below a checkpoint the transfer is not stored, and once more checks are made it is applied
again. -/
theorem transfer_applied_twice :
    ∃ s s', (ChainState.initGenesis initSupply).applyBlocks .plain
        [(1, Database.blockId .plain transferBlock)] .nothing [transferBlock] = .ok s ∧
      s.db.headBlockTime ≤ oneTransfer.expiration ∧
      s.applyTransaction .plain .nothing oneTransfer = .ok s' := by
  have h : ((ChainState.initGenesis initSupply).applyBlocks .plain
      [(1, Database.blockId .plain transferBlock)] .nothing [transferBlock] >>= fun s =>
        (s.applyTransaction .plain .nothing oneTransfer).map fun _ => s.db.headBlockTime) =
      .ok (genesisTime + blockInterval) := by
    decide +kernel
  obtain ⟨s, hs, hmap⟩ := bind_ok.1 h
  obtain ⟨s', hs', htime⟩ := map_ok.1 hmap
  refine ⟨s, s', hs, ?_, hs'⟩
  rw [htime]
  decide

end WeNode.Chain
