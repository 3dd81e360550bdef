import Mathlib
import WeNode.Chain.Core
import WeNode.Lib.Runs

/-!
# What is held and the supply

libraries/chain/database.cpp: `validate_invariants` (3921-4035) adds up what accounts, requests,
orders, escrows and funds hold and compares it with the supplies.  The gap is what is held beyond
the supply.
-/

set_option mvcgen.warning false

namespace WeNode.Chain

open WeNode.Lib Std.Do

/-- What is added up: TME, TSD, SCORE, the SCORE of rewards not claimed yet and their value. -/
inductive Holding where
  | tme
  | tsd
  | score
  | reward
  | rewardValue
deriving DecidableEq

/- The symbol of the assets that objects hold. -/
def Holding.symbol : Holding → Option Nat
  | .tme => some symbolCoin
  | .tsd => some symbolUsd
  | .score => none
  | .reward => none
  | .rewardValue => none

/- An amount among what is held of its symbol. -/
def entry (symbol : Nat) (x : Int) (b : Holding) : Int := if b.symbol = some symbol then x else 0

section

variable (s : Nat) (x y : Int)

@[simp] theorem entry_add : entry s (x + y) = entry s x + entry s y := by
  funext b
  simp only [entry, Pi.add_apply]
  split <;> rfl

@[simp] theorem entry_neg : entry s (-x) = -entry s x := by
  funext b
  simp only [entry, Pi.neg_apply]
  split <;> rfl

@[simp] theorem entry_zero : entry s 0 = 0 := by
  funext b
  simp only [entry, ite_self, Pi.zero_apply]

@[simp] theorem entry_sub : entry s (x - y) = entry s x - entry s y := by
  rw [Int.sub_eq_add_neg, entry_add, entry_neg, ← sub_eq_add_neg]

theorem entry_coin (b : Holding) : entry symbolCoin x b = if b = .tme then x else 0 := by
  cases b <;> rfl

theorem entry_usd (b : Holding) : entry symbolUsd x b = if b = .tsd then x else 0 := by
  cases b <;> rfl

end

/-! ### What is held -/

def Account.worth (a : Account) : Holding → Int
  | .tme => a.balance + a.tmeSavingsBalance + a.tmeRewardBalance
  | .tsd => a.tsdBalance + a.tsdSavingsBalance + a.tsdRewardBalance
  | .score => a.score
  | .reward => a.scoreRewardBalance
  | .rewardValue => a.scoreRewardBalanceInTME

def Asset.worth (a : Asset) : Holding → Int := entry a.symbol a.amount

def Escrow.worth (e : Escrow) : Holding → Int :=
  e.tmeBalance.worth + e.tsdBalance.worth + e.pendingFee.worth

/-- The supply less what no account or object holds. -/
def GlobalProperties.issued (g : GlobalProperties) : Holding → Int
  | .tme => g.currentSupply - g.totalTMEfundForSCORE - g.totalRewardFundTME -
      g.pendingRewardedSCOREvalueInTME
  | .tsd => g.currentTSDsupply
  | .score => g.totalSCORE
  | .reward => g.pendingRewardedSCORE
  | .rewardValue => g.pendingRewardedSCOREvalueInTME

namespace Database

def held (d : Database) : Holding → Int :=
  d.accounts.sum Account.worth + d.convertRequests.sum (·.amount.worth) +
    d.limitOrders.sum (·.amountForSale.worth) + d.escrows.sum Escrow.worth +
    d.savingsWithdraws.sum (·.amount.worth) +
    entry symbolCoin (d.rewardFunds.sum RewardFund.rewardBalance)

/-- What is held beyond the supply. -/
def gap (d : Database) : Holding → Int := d.held - d.gpo.issued

variable {d d' : Database} {x : Holding → Int}

/-! ### Single changes -/

theorem modifyAccount_gap {name : Name} {f : Account → Result Account} :
    ⦃⌜True⌝⦄ d.modifyAccount name f
      ⦃⇓? d' => ⌜∃ a a', d.getAccount name = .ok a ∧ f a = .ok a' ∧
        d'.gap = d.gap + (a'.worth - a.worth)⌝⦄ := by
  apply triple_of
  intro _ d' h
  obtain ⟨t, ht, rfl⟩ := of_modify h
  obtain ⟨a, a', hf, hrep, -⟩ := Table.modify_ok ht
  refine ⟨a, a', ?_, hf, ?_⟩
  · unfold getAccount findAccount Table.find
    rw [hrep.find_eq]
    rfl
  · have hsum : t.sum Account.worth = d.accounts.sum Account.worth + (a'.worth - a.worth) :=
      hrep.sum_eq _
    simp only [gap, held, hsum]
    abel

/- An account whose worth changes by `x`. -/
theorem modifyAccount_adds {name : Name} {f : Account → Result Account}
    (h : d.modifyAccount name f = .ok d')
    (hf : ∀ a, ⦃⌜True⌝⦄ f a ⦃⇓? a' => ⌜a'.worth = a.worth + x⌝⦄) : d'.gap = d.gap + x := by
  obtain ⟨a, a', -, ha, hgap⟩ := of_triple modifyAccount_gap trivial h
  rw [hgap, of_triple (hf a) trivial ha, add_sub_cancel_left]

theorem modifyAccount_same {name : Name} {f : Account → Result Account}
    (hf : ∀ a, ⦃⌜True⌝⦄ f a ⦃⇓? a' => ⌜a'.worth = a.worth⌝⦄) :
    ⦃⌜True⌝⦄ d.modifyAccount name f ⦃⇓? d' => ⌜d'.gap = d.gap⌝⦄ := by
  apply triple_of
  intro _ d' h
  have hgap : d'.gap = d.gap + 0 := modifyAccount_adds h (by simpa only [add_zero] using hf)
  rw [hgap, add_zero]

theorem modifyGpo_gap {f : GlobalProperties → Result GlobalProperties} :
    ⦃⌜True⌝⦄ d.modifyGpo f
      ⦃⇓? d' => ⌜∃ g, f d.gpo = .ok g ∧ d'.gap = d.gap - (g.issued - d.gpo.issued)⌝⦄ := by
  apply triple_of
  intro _ d' h
  obtain ⟨g, hg, h⟩ := bind_ok.1 h
  cases h
  refine ⟨g, hg, ?_⟩
  simp only [gap, held]
  abel

/- Global properties whose supply changes by `x`. -/
theorem modifyGpo_adds {f : GlobalProperties → Result GlobalProperties}
    (h : d.modifyGpo f = .ok d')
    (hf : ∀ g, ⦃⌜True⌝⦄ f g ⦃⇓? g' => ⌜g'.issued = g.issued + x⌝⦄) :
    d'.accounts = d.accounts ∧ d'.gap = d.gap - x := by
  obtain ⟨g, hg, h⟩ := bind_ok.1 h
  cases h
  refine ⟨rfl, ?_⟩
  simp only [gap, held, of_triple (hf d.gpo) trivial hg]
  abel

theorem modifyGpo_same {f : GlobalProperties → Result GlobalProperties}
    (hf : ∀ g, ⦃⌜True⌝⦄ f g ⦃⇓? g' => ⌜g'.issued = g.issued⌝⦄) :
    ⦃⌜True⌝⦄ d.modifyGpo f ⦃⇓? d' => ⌜d'.gap = d.gap⌝⦄ := by
  apply triple_of
  intro _ d' h
  have hgap : d'.gap = d.gap - 0 := (modifyGpo_adds h (by simpa only [add_zero] using hf)).2
  rw [hgap, sub_zero]

theorem modifyWitness_gap {owner : Name} {f : Witness → Result Witness} :
    ⦃⌜True⌝⦄ d.modifyWitness owner f ⦃⇓? d' => ⌜d'.gap = d.gap⌝⦄ := by
  apply triple_of
  intro _ d' h
  obtain ⟨t, -, rfl⟩ := of_modify h
  rfl

theorem modifyComment_gap {id : Nat} {f : Comment → Result Comment} :
    ⦃⌜True⌝⦄ d.modifyComment id f ⦃⇓? d' => ⌜d'.gap = d.gap⌝⦄ := by
  apply triple_of
  intro _ d' h
  obtain ⟨t, -, rfl⟩ := of_modify h
  rfl

theorem modifyCommentVote_gap {id : Nat} {f : CommentVote → Result CommentVote} :
    ⦃⌜True⌝⦄ d.modifyCommentVote id f ⦃⇓? d' => ⌜d'.gap = d.gap⌝⦄ := by
  apply triple_of
  intro _ d' h
  obtain ⟨t, -, rfl⟩ := of_modify h
  rfl

theorem modifyAuthority_gap {name : Name} {f : AccountAuthority → AccountAuthority} :
    ⦃⌜True⌝⦄ d.modifyAuthority name f ⦃⇓? d' => ⌜d'.gap = d.gap⌝⦄ := by
  apply triple_of
  intro _ d' h
  obtain ⟨t, -, rfl⟩ := of_modify h
  rfl

/- A fund whose balance changes by `y`. -/
theorem modifyRewardFund_adds {id : Nat} {f : RewardFund → Result RewardFund} {y : Int}
    (h : d.modifyRewardFund id f = .ok d')
    (hf : ∀ r, ⦃⌜True⌝⦄ f r ⦃⇓? r' => ⌜r'.rewardBalance = r.rewardBalance + y⌝⦄) :
    d'.gap = d.gap + entry symbolCoin y := by
  obtain ⟨t, ht, rfl⟩ := of_modify h
  have hsum : t.sum RewardFund.rewardBalance = d.rewardFunds.sum RewardFund.rewardBalance + y :=
    Table.sum_modify ht fun r r' _ hr => of_triple (hf r) trivial hr
  simp only [gap, held, hsum, entry_add]
  abel

/-! ### Tables that hold nothing -/

section

variable (d : Database)

@[simp] theorem gap_authorities (t) : gap { d with authorities := t } = d.gap := rfl
@[simp] theorem gap_witnesses (t) : gap { d with witnesses := t } = d.gap := rfl
@[simp] theorem gap_witnessVotes (t) : gap { d with witnessVotes := t } = d.gap := rfl
@[simp] theorem gap_removeWitnessVotes (account : Nat) :
    (d.removeWitnessVotes account).gap = d.gap := rfl
@[simp] theorem gap_comments (t) : gap { d with comments := t } = d.gap := rfl
@[simp] theorem gap_commentVotes (t) : gap { d with commentVotes := t } = d.gap := rfl
@[simp] theorem gap_liquidityRewards (t) : gap { d with liquidityRewards := t } = d.gap := rfl
@[simp] theorem gap_withdrawRoutes (t) : gap { d with withdrawRoutes := t } = d.gap := rfl
@[simp] theorem gap_declineRequests (t) : gap { d with declineRequests := t } = d.gap := rfl
@[simp] theorem gap_delegations (t) : gap { d with delegations := t } = d.gap := rfl
@[simp] theorem gap_delegationExpirations (t) :
    gap { d with delegationExpirations := t } = d.gap := rfl
@[simp] theorem gap_ownerHistory (t) : gap { d with ownerHistory := t } = d.gap := rfl
@[simp] theorem gap_recoveryRequests (t) : gap { d with recoveryRequests := t } = d.gap := rfl
@[simp] theorem gap_changeRecoveryRequests (t) :
    gap { d with changeRecoveryRequests := t } = d.gap := rfl
@[simp] theorem gap_schedule (t) : gap { d with schedule := t } = d.gap := rfl
@[simp] theorem gap_feed (t) : gap { d with feed := t } = d.gap := rfl
@[simp] theorem gap_hardforks (t) : gap { d with hardforks := t } = d.gap := rfl

end

/-! ### Votes -/

theorem adjustWitnessVote_gap {witness : Name} {delta : Int} :
    ⦃⌜True⌝⦄ d.adjustWitnessVote witness delta ⦃⇓? d' => ⌜d'.gap = d.gap⌝⦄ := by
  mvcgen [adjustWitnessVote, modifyWitness_gap]

theorem adjustWitnessVotes_gap {name : Name} {delta : Int} :
    ⦃⌜True⌝⦄ d.adjustWitnessVotes name delta ⦃⇓? d' => ⌜d'.gap = d.gap⌝⦄ := by
  mvcgen [adjustWitnessVotes, adjustWitnessVote_gap] invariants
  · ⇓? r => ⌜r.2.gap = d.gap⌝
  all_goals simp_all

theorem walkProxies_gap {change : Fin maxProxyRecursionDepth → Account → Result Account}
    {total : Nat → Result Int} {l : List (Fin maxProxyRecursionDepth)} {name : Name}
    (hf : ∀ i a, ⦃⌜True⌝⦄ change i a ⦃⇓? a' => ⌜a'.worth = a.worth⌝⦄) :
    ⦃⌜True⌝⦄ walkProxies change total l d name ⦃⇓? d' => ⌜d'.gap = d.gap⌝⦄ := by
  have hadjustWitnessVotes := @adjustWitnessVotes_gap
  have ht : ∀ n, ⦃⌜True⌝⦄ total n ⦃⇓? r => ⌜total n = .ok r⌝⦄ := fun _ => triple_ok
  induction l generalizing d name with
  | nil => mvcgen [walkProxies, hadjustWitnessVotes, ht]
  | cons depth rest ih =>
    have hm : ∀ (d : Database) n, ⦃⌜True⌝⦄ d.modifyAccount n (change depth)
        ⦃⇓? d' => ⌜d'.gap = d.gap⌝⦄ := fun d n => modifyAccount_same (hf depth)
    mvcgen [walkProxies, hadjustWitnessVotes, ht, hm, ih]
    simp_all

theorem addProxiedVote_worth {a : Account} {i : Fin maxProxyRecursionDepth} {delta : Int} :
    ⦃⌜True⌝⦄ a.addProxiedVote i delta ⦃⇓? a' => ⌜a'.worth = a.worth⌝⦄ := by
  mvcgen [Account.addProxiedVote]

theorem adjustProxiedWitnessVotes_gap {name : Name} {delta : Int} :
    ⦃⌜True⌝⦄ d.adjustProxiedWitnessVotes name delta ⦃⇓? d' => ⌜d'.gap = d.gap⌝⦄ :=
  walkProxies_gap fun _ _ => addProxiedVote_worth

theorem adjustProxiedWitnessVotesArray_gap {name : Name}
    {delta : Fin (maxProxyRecursionDepth + 1) → Int} :
    ⦃⌜True⌝⦄ d.adjustProxiedWitnessVotesArray name delta ⦃⇓? d' => ⌜d'.gap = d.gap⌝⦄ := by
  apply walkProxies_gap
  intro i a
  mvcgen [addProxiedVote_worth] invariants
  · ⇓? r => ⌜r.2.worth = a.worth⌝
  all_goals simp_all

theorem clearWitnessVotes_gap {name : Name} :
    ⦃⌜True⌝⦄ d.clearWitnessVotes name ⦃⇓? d' => ⌜d'.gap = d.gap⌝⦄ := by
  mvcgen [clearWitnessVotes, modifyAccount_same]

/-! ### Balances -/

theorem accrueInterest_balance {i i' : Interest} (h : d.accrueInterest i = .ok i')
    (hi : i.paid = none) : i'.balance = i.balance + i'.paid.getD 0 := by
  unfold accrueInterest at h
  dsimp only at h
  split at h
  · cases h
    simp [hi]
  · split at h
    · obtain ⟨n, -, h⟩ := bind_ok.1 h
      obtain ⟨x, hx, h⟩ := bind_ok.1 h
      cases h
      exact safeAdd_ok hx
    · cases h
      simp [hi]

theorem payInterest_gap {paid : Option Int} (h : d.payInterest paid = .ok d') :
    d'.accounts = d.accounts ∧ d'.gap = d.gap - entry symbolUsd (paid.getD 0) := by
  cases paid with
  | none =>
    cases h
    simp
  | some x =>
    unfold payInterest at h
    refine modifyGpo_adds h fun g => ?_
    mvcgen
    subst_vars
    funext b
    cases b <;> simp [GlobalProperties.issued, entry_usd]

/- A balance that bears interest: the interest is paid, and the account changed by it and more. -/
theorem adjustInterest_gap {name : Name} {i : Account → Interest}
    {f : Interest → Account → Result Account}
    (h : (do
      let a ← d.getAccount name
      let i ← d.accrueInterest (i a)
      let d ← d.payInterest i.paid
      d.modifyAccount name (f i)) = .ok d') (hi : ∀ a, (i a).paid = none)
    (hf : ∀ a j, j.balance = (i a).balance + j.paid.getD 0 → ⦃⌜True⌝⦄ f j a
      ⦃⇓? a' => ⌜a'.worth = a.worth + (entry symbolUsd (j.paid.getD 0) + x)⌝⦄) :
    d'.gap = d.gap + x := by
  obtain ⟨a, ha, h⟩ := bind_ok.1 h
  obtain ⟨j, hj, h⟩ := bind_ok.1 h
  obtain ⟨d₁, h₁, h⟩ := bind_ok.1 h
  obtain ⟨haccounts, hpaid⟩ := payInterest_gap h₁
  obtain ⟨a₁, a', ha₁, ha', hgap⟩ := of_triple modifyAccount_gap trivial h
  unfold getAccount findAccount at ha ha₁
  rw [haccounts, ha] at ha₁
  cases ha₁
  rw [hgap, hpaid, of_triple (hf a j (accrueInterest_balance hj (hi a))) trivial ha']
  abel

theorem adjustBalance_gap {name : Name} {delta : Asset} :
    ⦃⌜True⌝⦄ d.adjustBalance name delta ⦃⇓? d' => ⌜d'.gap = d.gap + delta.worth⌝⦄ := by
  apply triple_of
  intro _ d' h
  unfold adjustBalance at h
  split at h
  · next hcoin =>
    refine modifyAccount_adds h fun a => ?_
    mvcgen
    subst_vars
    funext b
    cases b <;> simp [Account.worth, Asset.worth, hcoin, entry_coin]
    omega
  · split at h
    · next husd =>
      refine adjustInterest_gap h (fun _ => rfl) fun a j hj => ?_
      mvcgen
      subst_vars
      funext b
      cases b <;> simp [Account.worth, Asset.worth, husd, entry_usd, hj]
      omega
    · cases h

theorem adjustTMEsavingsBalance_gap {name : Name} {delta : Asset} :
    ⦃⌜True⌝⦄ d.adjustTMEsavingsBalance name delta
      ⦃⇓? d' => ⌜d'.gap = d.gap + delta.worth⌝⦄ := by
  apply triple_of
  intro _ d' h
  unfold adjustTMEsavingsBalance at h
  split at h
  · next hcoin =>
    refine modifyAccount_adds h fun a => ?_
    mvcgen
    subst_vars
    funext b
    cases b <;> simp [Account.worth, Asset.worth, hcoin, entry_coin]
    omega
  · split at h
    · next husd =>
      refine adjustInterest_gap h (fun _ => rfl) fun a j hj => ?_
      mvcgen
      subst_vars
      funext b
      cases b <;> simp [Account.worth, Asset.worth, husd, entry_usd, hj]
      omega
    · cases h

theorem adjustRewardBalance_gap {name : Name} {delta : Asset} :
    ⦃⌜True⌝⦄ d.adjustRewardBalance name delta
      ⦃⇓? d' => ⌜d'.gap = d.gap + delta.worth⌝⦄ := by
  apply triple_of
  intro _ d' h
  unfold adjustRewardBalance at h
  split at h
  · next hcoin =>
    refine modifyAccount_adds h fun a => ?_
    mvcgen
    subst_vars
    funext b
    cases b <;> simp [Account.worth, Asset.worth, hcoin, entry_coin]
    omega
  · split at h
    · next husd =>
      refine modifyAccount_adds h fun a => ?_
      mvcgen
      subst_vars
      funext b
      cases b <;> simp [Account.worth, Asset.worth, husd, entry_usd]
      omega
    · cases h

theorem adjustPayout_gap {reward : Bool} {name : Name} {delta : Asset} :
    ⦃⌜True⌝⦄ d.adjustPayout reward name delta
      ⦃⇓? d' => ⌜d'.gap = d.gap + delta.worth⌝⦄ := by
  have hadjustRewardBalance := @adjustRewardBalance_gap
  have hadjustBalance := @adjustBalance_gap
  mvcgen [adjustPayout, hadjustRewardBalance, hadjustBalance]

/-- What the supply grows by leaves the gap. -/
theorem adjustSupply_gap {delta : Asset} {adjustFund : Bool} :
    ⦃⌜True⌝⦄ d.adjustSupply delta adjustFund
      ⦃⇓? d' => ⌜d'.gap = d.gap - delta.worth⌝⦄ := by
  apply triple_of
  intro _ d' h
  unfold adjustSupply at h
  dsimp only at h
  split at h
  · next hcoin =>
    refine (modifyGpo_adds h fun g => ?_).2
    mvcgen
    all_goals
      subst_vars
      funext b
      cases b <;> simp [GlobalProperties.issued, Asset.worth, hcoin, entry_coin]
      omega
  · split at h
    · next husd =>
      refine (modifyGpo_adds h fun g => ?_).2
      mvcgen
      subst_vars
      funext b
      cases b <;> simp [GlobalProperties.issued, Asset.worth, husd, entry_usd]
    · cases h

end Database
end WeNode.Chain
