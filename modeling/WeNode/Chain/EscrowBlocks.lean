import WeNode.Chain.BlockSteps
import WeNode.Chain.CoreBlocks
import WeNode.Chain.Escrows

/-!
# Escrows through blocks

A block is a run of actions on the escrows: those of its operations, then the ratification timer.
-/

set_option mvcgen.warning false

namespace WeNode.Chain

open WeNode.Lib Std.Do

/- A database is reached by actions on the escrows. -/
def EscrowMove (d d' : Database) : Prop := ∃ hist, EscrowRun d hist d'

namespace EscrowMove

variable {d d₁ d' : Database}

theorem refl (d : Database) : EscrowMove d d := ⟨[], .start⟩

theorem step {a : EscrowAction} (h : EscrowMove d d₁) (ha : a.Happens d₁ d') : EscrowMove d d' := by
  obtain ⟨hist, hrun⟩ := h
  exact ⟨_, hrun.step ha⟩

theorem of_core (h : EscrowMove d d₁) (he : d'.core.escrows = d₁.core.escrows) :
    EscrowMove d d' := h.step (a := .other) he

end EscrowMove

namespace Database

variable {d d' : Database} {env : Env}

/- The timer is the only step of `settle` that touches the escrows. -/
theorem settle_escrows {w : Name} :
    ⦃⌜True⌝⦄ d.settle w ⦃⇓? d' => ⌜∃ d₁ d₂ : Database, d₁.core.escrows = d.core.escrows ∧
      d₁.expireEscrowRatification = .ok d₂ ∧ d'.core.escrows = d₂.core.escrows⌝⦄ := by
  have hexpire {d : Database} : ⦃⌜True⌝⦄ d.expireEscrowRatification
      ⦃⇓? d' => ⌜d.expireEscrowRatification = .ok d'⌝⦄ := triple_ok
  mvcgen [settle, updateMedianFeed_core, updateVirtualSupply_core,
    clearNullAccountBalance_core, processFunds_core, processConversions_core,
    processCommentCashout_core, processTMEfundForSCOREwithdrawals_core,
    processSavingsWithdraws_core, payLiquidityReward_core, accountRecoveryProcessing_core,
    hexpire, processDeclineVotingRights_core]
  next hexpired _ =>
    intro hdecline
    refine ⟨_, _, ?_, hexpired, by rw [hdecline]⟩
    grind

theorem endBlock_escrows {w : Name} {versions : Name → WitnessVersion} :
    ⦃⌜True⌝⦄ d.endBlock w versions ⦃⇓? d' => ⌜EscrowMove d d'⌝⦄ := by
  have hsettle := @settle_escrows
  mvcgen [endBlock, clearExpiredOrders_core, clearExpiredDelegations_core,
    updateWitnessSchedule_core, hsettle, processHardforks_core]
  next hsettle _ =>
    obtain ⟨d₁, d₂, hbefore, hexpire, hafter⟩ := hsettle
    intro hhardforks
    have hsame : EscrowMove d d₁ := (EscrowMove.refl d).of_core (by grind)
    refine (hsame.step (a := .expire) hexpire).of_core ?_
    rw [hhardforks]
    exact hafter

theorem applyOperation_escrows {w : Name} {o : Operation} (hv : o.validate env = .ok ())
    (h : applyOperation w d o = .ok d') : EscrowMove d d' := by
  have hcore := of_triple applyOperation_core trivial h
  cases o with
  | escrowTransfer op => exact (EscrowMove.refl d).step (a := .transfer op) ⟨hv, h⟩
  | escrowApprove op => exact (EscrowMove.refl d).step (a := .approve op) ⟨hv, h⟩
  | escrowDispute op => exact (EscrowMove.refl d).step (a := .dispute op) ⟨hv, h⟩
  | escrowRelease op => exact (EscrowMove.refl d).step (a := .release op) ⟨hv, h⟩
  | _ => exact (EscrowMove.refl d).of_core (by rw [hcore]; rfl)

end Database

namespace EscrowMove

variable {d d₁ d' : Database}

theorem trans (h : EscrowMove d d₁) (h' : EscrowMove d₁ d') : EscrowMove d d' := by
  obtain ⟨hist, hrun⟩ := h'
  induction hrun with
  | start => exact h
  | step _ ha ih => exact step ih ha

end EscrowMove

namespace ChainState

variable {env : Env} {skip : Skip} {s s' : ChainState} {b : Block} {t : Transaction}

theorem applyTransaction_escrows (hskip : skip.validate = false)
    (h : s.applyTransaction env skip t = .ok s') : EscrowMove s.db s'.db := by
  obtain ⟨hcheck, d, hd, rfl⟩ := applyTransaction_ok.1 h
  obtain ⟨-, hvalid⟩ := (checkTransaction_ok.1 hcheck).1 hskip
  refine run_induction (P := fun _ d => EscrowMove s.db d) hd (.refl _) ?_
  intro _ d₁ o d₂ hmove ho happly
  exact hmove.trans (Database.applyOperation_escrows (forM_each hvalid ho) happly)

/-- A block whose operations are validated is a run of actions on the escrows. -/
theorem applyBlock_escrows (hskip : skip.validate = false)
    (h : s.applyBlock env skip b = .ok s') : EscrowMove s.db s'.db := by
  obtain ⟨s₁, s₂, hstart, htransactions, hfinish⟩ := applyBlock_ok.1 h
  have hmoves : EscrowMove s₁.db s₂.db := by
    refine run_induction (P := fun _ e => EscrowMove s₁.db e.db) htransactions (.refl _) ?_
    intro _ e t e' hmove _ ht
    exact hmove.trans (applyTransaction_escrows hskip ht)
  obtain ⟨d₁, d₂, d₃, d₄, h₁, h₂, h₃, h₄, rfl⟩ := finishBlock_ok.1 hfinish
  have hcore₁ := of_triple Database.updateGlobalDynamicData_core trivial h₁
  have hcore₂ := of_triple Database.updateSigningWitness_core trivial h₂
  have hcore₃ := of_triple Database.updateLastIrreversibleBlock_core trivial h₃
  have hend := of_triple Database.endBlock_escrows trivial h₄
  rw [(startBlock_keeps hstart).1] at hmoves
  have hsame : (d₃.createBlockSummary env b).core.escrows = s₂.db.core.escrows := by
    rw [Database.core_createBlockSummary, hcore₃, hcore₂, hcore₁]
  exact (hmoves.of_core hsame).trans hend

end ChainState

end WeNode.Chain
