import Mathlib
import WeNode.Chain.Block
import WeNode.Chain.CoreHardforks
import WeNode.Chain.CoreOperations

/-!
# The core through a block

What the steps of a block before and after its transactions do with the core: the header sets the
clock, the schedule and the hardforks change at the end.
-/

set_option mvcgen.warning false

namespace WeNode.Chain

open WeNode.Lib Std.Do

namespace Database

variable {d : Database}

@[spec] theorem getScheduledWitness_spec {slot : Nat} :
    ⦃⌜True⌝⦄ d.getScheduledWitness slot
      ⦃⇓? name => ⌜d.getScheduledWitness slot = .ok name⌝⦄ := triple_ok

theorem missSlot_core {producer : Name} {i : Nat} :
    ⦃⌜True⌝⦄ missSlot producer d i ⦃⇓? d' => ⌜d'.core = d.core⌝⦄ := by
  mvcgen [missSlot, modifyWitness_core]

theorem fillSlots_maximumBlockSize (l : List Nat) (g : GlobalProperties) :
    (l.foldl fillSlot g).maximumBlockSize = g.maximumBlockSize := by
  induction l generalizing g with
  | nil => rfl
  | cons i l ih => exact ih (fillSlot g i)

theorem fillSlots_lastIrreversible (l : List Nat) (g : GlobalProperties) :
    (l.foldl fillSlot g).lastIrreversibleBlockNum = g.lastIrreversibleBlockNum := by
  induction l generalizing g with
  | nil => rfl
  | cons i l ih => exact ih (fillSlot g i)

theorem fillSlots_pow (l : List Nat) (g : GlobalProperties) :
    (l.foldl fillSlot g).totalPow = g.totalPow ∧
      (l.foldl fillSlot g).numPowWitnesses = g.numPowWitnesses := by
  induction l generalizing g with
  | nil => exact ⟨rfl, rfl⟩
  | cons i l ih => exact ih (fillSlot g i)

@[simp] theorem core_setHead (env : Env) (b : Block) (missed : Nat) (d : Database) :
    (d.setHead env b missed).core = { d.core with
      time := b.timestamp
      headBlockNum := blockNum b
      headBlockId := blockId env b
      slots := (d.setHead env b missed).gpo.slots } := by
  simp [core, setHead, fillSlots_maximumBlockSize, fillSlots_lastIrreversible, fillSlots_pow]

theorem updateGlobalDynamicData_core {env : Env} {skip : Skip} {b : Block} :
    ⦃⌜True⌝⦄ d.updateGlobalDynamicData env skip b
      ⦃⇓? d' => ⌜d'.core = { d.core with
        time := b.timestamp
        headBlockNum := blockNum b
        headBlockId := blockId env b
        slots := d'.core.slots }⌝⦄ := by
  mvcgen [updateGlobalDynamicData, missSlot_core] invariants
  · ⇓? r => ⌜r.2.core = d.core⌝
  all_goals grind [core, core_setHead]

theorem updateSigningWitness_core {b : Block} :
    ⦃⌜True⌝⦄ d.updateSigningWitness b
      ⦃⇓? d' => ⌜d'.core = { d.core with witnesses := d'.core.witnesses }⌝⦄ := by
  mvcgen [updateSigningWitness, modifyWitness_keys]

theorem updateLastIrreversibleBlock_core :
    ⦃⌜True⌝⦄ d.updateLastIrreversibleBlock
      ⦃⇓? d' => ⌜d'.core = { d.core with lastIrreversible := d'.core.lastIrreversible }⌝⦄ := by
  mvcgen [updateLastIrreversibleBlock]

@[simp] theorem core_createBlockSummary (env : Env) (d : Database) (b : Block) :
    (d.createBlockSummary env b).core = d.core := rfl

theorem updateMedianFeed_core :
    ⦃⌜True⌝⦄ d.updateMedianFeed ⦃⇓? d' => ⌜d'.core = d.core⌝⦄ := by
  mvcgen [updateMedianFeed]

theorem settle_core {w : Name} :
    ⦃⌜True⌝⦄ d.settle w
      ⦃⇓? d' => ⌜d'.core = { d.core with
        withdrawals := d'.core.withdrawals
        counts := d'.core.counts
        witnessVotes := d'.witnessVotes
        ownerHistory := d'.ownerHistory
        recoveryRequests := d'.recoveryRequests
        convertRequests := d'.convertRequests
        escrows := d'.escrows
        savingsWithdraws := d'.savingsWithdraws
        tallies := d'.core.tallies
        commentVotes := d'.commentVotes }⌝⦄ := by
  have hupdateMedianFeed := @updateMedianFeed_core
  mvcgen [settle, hupdateMedianFeed, updateVirtualSupply_core, clearNullAccountBalance_core,
    processFunds_core, processConversions_core, processCommentCashout_core,
    processTMEfundForSCOREwithdrawals_core, processSavingsWithdraws_core, payLiquidityReward_core,
    accountRecoveryProcessing_core, expireEscrowRatification_core, processDeclineVotingRights_core]
  all_goals grind [core]

theorem endBlock_core {w : Name} {versions : Name → WitnessVersion} :
    ⦃⌜True⌝⦄ d.endBlock w versions
      ⦃⇓? d' => ⌜d'.core = { d'.core with
        time := d.core.time
        headBlockNum := d.core.headBlockNum
        headBlockId := d.core.headBlockId
        slots := d.core.slots
        lastIrreversible := d.core.lastIrreversible
        requiredWitnesses := d.core.requiredWitnesses
        witnesses := d.core.witnesses
        nextWitness := d.core.nextWitness
        nextAccount := d.core.nextAccount
        powers := d.core.powers
        ownerAuthorities := d.core.ownerAuthorities
        withdrawRoutes := d.withdrawRoutes
        comments := d.core.comments
        nextComment := d.core.nextComment }⌝⦄ := by
  have hsettle := @settle_core
  mvcgen [endBlock, clearExpiredOrders_core, clearExpiredDelegations_core,
    updateWitnessSchedule_core, hsettle, processHardforks_core]
  all_goals grind [core]

end Database
end WeNode.Chain
