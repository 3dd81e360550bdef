import WeNode.Chain.Duplicates

/-!
# Runs operation by operation

What was done on the way to a state: the operations that were applied, each with the database it
met.  Blocks are such runs, and so is what pending transactions do after them.
-/

namespace WeNode.Chain

open WeNode.Lib

/-- A database reached from the genesis by operations and by the ends of blocks; `hist` are the
operations applied so far. -/
inductive OperationRun (env : Env) : List (Database × Operation) → Database → Prop
  | genesis (supply : Int) : OperationRun env [] (Database.initGenesis supply)
  | operation {hist : List (Database × Operation)} {d d' : Database} (w : Name) (o : Operation)
    (h : OperationRun env hist d) (ho : Database.applyOperation w d o = .ok d') :
    OperationRun env (hist ++ [(d, o)]) d'
  | finish {hist : List (Database × Operation)} {s s' : ChainState} (skip : Skip) (b : Block)
    (h : OperationRun env hist s.db) (hafter : s.db.headBlockTime < b.timestamp)
    (hf : s.finishBlock env skip b = .ok s') : OperationRun env hist s'.db

def Block.operations (b : Block) : List Operation := b.transactions.flatMap (·.operations)

namespace OperationRun

variable {env : Env} {skip : Skip} {hist : List (Database × Operation)} {d d' : Database}

theorem operations {w : Name} {l : List Operation} (h : OperationRun env hist d)
    (hl : l.foldlM (Database.applyOperation w) d = .ok d') :
    ∃ hist', OperationRun env (hist ++ hist') d' ∧ hist'.map (·.2) = l := by
  refine run_induction (P := fun done e => ∃ hist', OperationRun env (hist ++ hist') e ∧
    hist'.map (·.2) = done) hl ⟨[], by rwa [List.append_nil], rfl⟩ ?_
  intro done e o e' he _ ho
  obtain ⟨hist', hrun, hdone⟩ := he
  refine ⟨hist' ++ [(e, o)], ?_, ?_⟩
  · rw [← List.append_assoc]
    exact hrun.operation w o ho
  · rw [List.map_append, hdone]
    rfl

theorem transactions {s s' : ChainState} {l : List Transaction} (h : OperationRun env hist s.db)
    (hl : l.foldlM (ChainState.applyTransaction env skip) s = .ok s') :
    ∃ hist', OperationRun env (hist ++ hist') s'.db ∧
      hist'.map (·.2) = l.flatMap (·.operations) := by
  refine run_induction (P := fun done e => ∃ hist', OperationRun env (hist ++ hist') e.db ∧
    hist'.map (·.2) = done.flatMap (·.operations)) hl ⟨[], by rwa [List.append_nil], rfl⟩ ?_
  intro done e t e' he _ ht
  obtain ⟨hist', hrun, hdone⟩ := he
  obtain ⟨-, d, hd, rfl⟩ := ChainState.applyTransaction_ok.1 ht
  obtain ⟨more, hrun', hmore⟩ := hrun.operations hd
  refine ⟨hist' ++ more, ?_, ?_⟩
  · rw [← List.append_assoc]
    exact hrun'
  · rw [List.map_append, hdone, hmore, List.flatMap_append, List.flatMap_singleton]

theorem block {s s' : ChainState} {b : Block} (h : OperationRun env hist s.db)
    (hb : s.applyBlock env skip b = .ok s') :
    ∃ hist', OperationRun env (hist ++ hist') s'.db ∧ hist'.map (·.2) = b.operations := by
  obtain ⟨s₁, s₂, hstart, htransactions, hfinish⟩ := ChainState.applyBlock_ok.1 hb
  obtain ⟨hcheck, -, -⟩ := ChainState.startBlock_ok.1 hstart
  have hafter := (Database.validateBlockHeader_ok.1 (ChainState.checkBlock_ok.1 hcheck).2.1).2.1
  rw [← (ChainState.startBlock_keeps hstart).1] at h hafter
  obtain ⟨hist', hrun, hops⟩ := h.transactions htransactions
  -- the transactions leave the clock
  have htime : s₂.db.headBlockTime = s₁.db.headBlockTime :=
    run_induction (P := fun _ s => s.db.headBlockTime = s₁.db.headBlockTime) htransactions rfl
      fun _ _ _ _ hs _ ht => (ChainState.applyTransaction_head ht).1.trans hs
  exact ⟨hist', hrun.finish skip b (htime ▸ hafter) hfinish, hops⟩

/-- The blocks of a run, each with any flags, are a run of their operations. -/
theorem of_blocks {supply : Int} {l : List (Skip × Block)} {s : ChainState}
    (h : (ChainState.initGenesis supply).applyEach env l = .ok s) :
    ∃ hist, OperationRun env hist s.db ∧ hist.map (·.2) = l.flatMap fun x => x.2.operations := by
  refine run_induction (P := fun done e => ∃ hist, OperationRun env hist e.db ∧
    hist.map (·.2) = done.flatMap fun x => x.2.operations) h ⟨[], .genesis supply, rfl⟩ ?_
  intro done e x e' he _ hx
  obtain ⟨hist, hrun, hdone⟩ := he
  obtain ⟨more, hrun', hmore⟩ := hrun.block hx
  exact ⟨hist ++ more, hrun', by
    rw [List.map_append, hdone, hmore, List.flatMap_append, List.flatMap_singleton]⟩

end OperationRun

end WeNode.Chain
