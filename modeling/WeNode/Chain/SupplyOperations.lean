import Mathlib
import WeNode.Chain.CoreOperations
import WeNode.Chain.Discussion
import WeNode.Chain.EscrowBlocks
import WeNode.Chain.SupplyHardforks
import WeNode.Chain.SupplyMaintenance
import WeNode.Chain.SupplyMarket

/-!
# The supply through operations
-/

set_option mvcgen.warning false

namespace WeNode.Chain

open WeNode.Lib Std.Do Database

variable {d d' : Database}

/-! ### Transfers -/

theorem TransferOperation.apply_gap {o : TransferOperation} :
    ⦃⌜True⌝⦄ o.apply d ⦃⇓? d' => ⌜d'.gap = d.gap⌝⦄ := by
  mvcgen [TransferOperation.apply, modifyAccount_same, adjustBalance_gap]
  all_goals simp_all [Asset.worth]

theorem TransferTMEtoSCOREfundOperation.apply_gap {o : TransferTMEtoSCOREfundOperation} :
    ⦃⌜True⌝⦄ o.apply d ⦃⇓? d' => ⌜d'.gap = d.gap⌝⦄ := by
  mvcgen [TransferTMEtoSCOREfundOperation.apply, createTMEfundForSCORE_gap, adjustBalance_gap]
  all_goals simp_all [Asset.worth, Asset.symbol_coin]

theorem WithdrawSCOREoperation.apply_gap {o : WithdrawSCOREoperation} :
    ⦃⌜True⌝⦄ o.apply d ⦃⇓? d' => ⌜d'.gap = d.gap⌝⦄ := by
  mvcgen [WithdrawSCOREoperation.apply, modifyAccount_same, stopWithdrawal, startWithdrawal]

theorem SetWithdrawSCOREasTMErouteOperation.apply_gap {o : SetWithdrawSCOREasTMErouteOperation} :
    ⦃⌜True⌝⦄ o.apply d ⦃⇓? d' => ⌜d'.gap = d.gap⌝⦄ := by
  mvcgen [SetWithdrawSCOREasTMErouteOperation.apply, SetWithdrawSCOREasTMErouteOperation.setRoute,
    modifyAccount_same]

/- An amount to be converted leaves the balance for its request. -/
theorem ConvertOperation.apply_gap {o : ConvertOperation} :
    ⦃⌜True⌝⦄ o.apply d ⦃⇓? d' => ⌜d'.gap = d.gap⌝⦄ := by
  mvcgen [ConvertOperation.apply, adjustBalance_gap]
  simp_all [gap_convertRequests, Asset.worth]

theorem LimitOrderCancelOperation.apply_gap {o : LimitOrderCancelOperation} :
    ⦃⌜True⌝⦄ o.apply d ⦃⇓? d' => ⌜d'.gap = d.gap⌝⦄ := by
  mvcgen [LimitOrderCancelOperation.apply, cancelOrder_gap]

theorem TransferToSavingsOperation.apply_gap {o : TransferToSavingsOperation} :
    ⦃⌜True⌝⦄ o.apply d ⦃⇓? d' => ⌜d'.gap = d.gap⌝⦄ := by
  mvcgen [TransferToSavingsOperation.apply, adjustBalance_gap, adjustTMEsavingsBalance_gap]
  all_goals simp_all [Asset.worth]

theorem TransferFromSavingsOperation.apply_gap {o : TransferFromSavingsOperation} :
    ⦃⌜True⌝⦄ o.apply d ⦃⇓? d' => ⌜d'.gap = d.gap⌝⦄ := by
  mvcgen [TransferFromSavingsOperation.apply, adjustTMEsavingsBalance_gap, modifyAccount_same]
  simp_all +zetaDelta [gap_savingsWithdraws, Asset.worth]

/- A request is found by its account and its number, and removed by its id. -/
theorem CancelTransferFromSavingsOperation.apply_gap {o : CancelTransferFromSavingsOperation}
    (hk : d.savingsWithdraws.Keyed SavingsWithdraw.id) (h : o.apply d = .ok d') :
    d'.gap = d.gap := by
  obtain ⟨r, hr, h⟩ := bind_ok.1 h
  obtain ⟨d₁, h₁, h⟩ := bind_ok.1 h
  have hsame : d₁.savingsWithdraws = d.savingsWithdraws :=
    congrArg Core.savingsWithdraws (of_triple adjustTMEsavingsBalance_core trivial h₁)
  have hrow : d₁.savingsWithdraws.row SavingsWithdraw.id r.id = some r := by
    rw [hsame]
    exact hk.row_iff.2 ⟨List.mem_of_find?_eq_some (found_ok hr), rfl⟩
  rw [of_triple (modifyAccount_same fun a => by mvcgen) trivial h, gap_savingsWithdraws,
    Table.sum_remove hrow, of_triple adjustTMEsavingsBalance_gap trivial h₁]
  abel

/- An order brings what it sells to the book. -/
theorem createOrder_gap {owner : Name} {id : Nat} {sell : Asset} {price : Result Price} {kill : Bool}
    {t : Time} (hprice : ∀ p, price = .ok p → p.base.symbol = sell.symbol) :
    ⦃⌜True⌝⦄ createOrder d owner id sell price kill t ⦃⇓? d' => ⌜d'.gap = d.gap⌝⦄ := by
  have hp : ⦃⌜True⌝⦄ price ⦃⇓? p => ⌜p.base.symbol = sell.symbol⌝⦄ :=
    triple_of fun _ _ h => hprice _ h
  mvcgen [createOrder, adjustBalance_gap, hp, applyOrder_gap]
  all_goals simp_all +zetaDelta [gap_limitOrders, Asset.worth, LimitOrder.amountForSale]

theorem LimitOrderCreateOperation.apply_gap {o : LimitOrderCreateOperation} :
    ⦃⌜True⌝⦄ o.apply d ⦃⇓? d' => ⌜d'.gap = d.gap⌝⦄ := by
  refine createOrder_gap fun p hp => ?_
  obtain ⟨_, -, hp⟩ := bind_ok.1 hp
  obtain ⟨_, -, hp⟩ := bind_ok.1 hp
  obtain ⟨_, -, hp⟩ := bind_ok.1 hp
  cases hp
  rfl

theorem LimitOrderCreate2Operation.apply_gap {o : LimitOrderCreate2Operation}
    (hv : o.validate = .ok ()) :
    ⦃⌜True⌝⦄ o.apply d ⦃⇓? d' => ⌜d'.gap = d.gap⌝⦄ := by
  refine createOrder_gap fun p hp => ?_
  obtain ⟨_, -, hv⟩ := bind_ok.1 hv
  obtain ⟨_, hsymbol, hv⟩ := bind_ok.1 hv
  cases hp
  exact (require_ok hsymbol).symm

/-! ### Rewards and delegations -/

/- SCORE of a reward is claimed with a part of the TME it is worth. -/
theorem ClaimRewardBalanceOperation.apply_gap {o : ClaimRewardBalanceOperation} :
    ⦃⌜True⌝⦄ o.apply d ⦃⇓? d' => ⌜d'.gap = d.gap⌝⦄ := by
  apply triple_of
  intro _ d' h
  obtain ⟨a, -, h⟩ := bind_ok.1 h
  obtain ⟨_, -, h⟩ := bind_ok.1 h
  obtain ⟨_, -, h⟩ := bind_ok.1 h
  obtain ⟨_, -, h⟩ := bind_ok.1 h
  obtain ⟨_, -, h⟩ := bind_ok.1 h
  obtain ⟨_, -, h⟩ := bind_ok.1 h
  obtain ⟨_, -, h⟩ := bind_ok.1 h
  obtain ⟨value, -, h⟩ := bind_ok.1 h
  obtain ⟨tme, htme, h⟩ := bind_ok.1 h
  obtain ⟨d₁, h₁, h⟩ := bind_ok.1 h
  obtain ⟨tsd, htsd, h⟩ := bind_ok.1 h
  obtain ⟨d₂, h₂, h⟩ := bind_ok.1 h
  obtain ⟨d₃, h₃, h⟩ := bind_ok.1 h
  obtain ⟨d₄, h₄, h⟩ := bind_ok.1 h
  obtain ⟨d₅, h₅, h⟩ := bind_ok.1 h
  obtain ⟨d₆, h₆, h⟩ := bind_ok.1 h
  have htme := of_triple Asset.neg_spec trivial htme
  have htsd := of_triple Asset.neg_spec trivial htsd
  have hd₄ : d₄.gap = d.gap := by
    rw [of_triple adjustBalance_gap trivial h₄, of_triple adjustBalance_gap trivial h₃,
      of_triple adjustRewardBalance_gap trivial h₂, of_triple adjustRewardBalance_gap trivial h₁]
    simp only [htme, htsd, Asset.worth, entry_neg]
    abel
  rw [of_triple adjustProxiedWitnessVotes_gap trivial h,
    (modifyGpo_adds (x := Pi.single Holding.score o.scoreReward.amount -
      Pi.single Holding.reward o.scoreReward.amount - Pi.single Holding.rewardValue value) h₆ ?_).2,
    modifyAccount_adds (x := Pi.single Holding.score o.scoreReward.amount -
      Pi.single Holding.reward o.scoreReward.amount - Pi.single Holding.rewardValue value) h₅ ?_,
    hd₄]
  · abel
  · intro a
    clear * -
    mvcgen [claimSCORE]
    subst_vars
    funext b
    cases b <;> simp [Account.worth, Pi.single, Function.update] <;> omega
  · intro g
    clear * -
    mvcgen
    subst_vars
    funext b
    cases b <;> simp [GlobalProperties.issued, Pi.single, Function.update] <;> omega

theorem addDelegated_gap {name : Name} {a : Asset} :
    ⦃⌜True⌝⦄ addDelegated d name a ⦃⇓? d' => ⌜d'.gap = d.gap⌝⦄ := by
  mvcgen [addDelegated, modifyAccount_same]

theorem addReceived_gap {name : Name} {a : Asset} :
    ⦃⌜True⌝⦄ addReceived d name a ⦃⇓? d' => ⌜d'.gap = d.gap⌝⦄ := by
  mvcgen [addReceived, modifyAccount_same]

theorem setDelegation_gap {id : Nat} {a : Asset} :
    ⦃⌜True⌝⦄ setDelegation d id a ⦃⇓? d' => ⌜d'.gap = d.gap⌝⦄ := by
  mvcgen [setDelegation]

theorem DelegateSCOREoperation.lower_gap {o : DelegateSCOREoperation} {v : Delegation}
    {a b : Asset} : ⦃⌜True⌝⦄ o.lower d v a b ⦃⇓? d' => ⌜d'.gap = d.gap⌝⦄ := by
  mvcgen [DelegateSCOREoperation.lower, addReceived_gap, setDelegation_gap]
  all_goals simp_all +zetaDelta

theorem DelegateSCOREoperation.apply_gap {o : DelegateSCOREoperation} :
    ⦃⌜True⌝⦄ o.apply d ⦃⇓? d' => ⌜d'.gap = d.gap⌝⦄ := by
  have hlower := @DelegateSCOREoperation.lower_gap
  mvcgen [DelegateSCOREoperation.apply, addDelegated_gap, addReceived_gap, setDelegation_gap,
    hlower]
  all_goals simp_all +zetaDelta

/-! ### Escrows -/

/- The escrows have different ids, and those that are approved have paid their fee. -/
structure Database.EscrowsPaid (d : Database) : Prop where
  keyed : d.escrows.Keyed Escrow.id
  paid : ∀ {i e}, d.escrow i = some e → e.isApproved = true → e.pendingFee.amount = 0

namespace Database.EscrowsPaid

theorem of_acts {e : Escrow} {event : EscrowEvent} {ps : List Payment} (hd : d.EscrowsPaid)
    (h : Acts d d' e event ps) : d'.EscrowsPaid := by
  obtain ⟨e', hstep, hrows⟩ := h.step
  refine ⟨h.keyed, fun {i x} hx happroved => ?_⟩
  rw [hrows] at hx
  split at hx
  · subst hx
    cases hstep with
    | approve _ hone => exact absurd happroved (by simp [hone])
    | ratify => rfl
    | dispute happroved =>
      have hfee := hd.paid h.row happroved
      exact hfee
    | release happroved =>
      have hfee := hd.paid h.row happroved
      exact hfee
  · exact hd.paid hx happroved

theorem of_action {a : EscrowAction} (hd : d.EscrowsPaid) (h : a.Happens d d') : d'.EscrowsPaid := by
  cases a with
  | transfer o =>
    have hescrows := of_triple EscrowTransferOperation.apply_escrows trivial h.2
    refine ⟨hescrows ▸ hd.keyed.create rfl, fun {i x} hx happroved => ?_⟩
    unfold escrow at hx
    rw [hescrows, hd.keyed.row_create rfl] at hx
    split at hx
    · cases hx
      cases happroved
    · exact hd.paid hx happroved
  | approve o =>
    obtain ⟨e, -, hacts⟩ := EscrowApproveOperation.acts hd.keyed h.1 h.2
    exact hd.of_acts hacts
  | dispute o =>
    obtain ⟨e, -, hacts⟩ := EscrowDisputeOperation.acts hd.keyed h.2
    exact hd.of_acts hacts
  | release o =>
    obtain ⟨e, -, hacts⟩ := EscrowReleaseOperation.acts hd.keyed h.1 h.2
    exact hd.of_acts hacts
  | expire =>
    obtain ⟨-, hkeyed, -, hrows⟩ := refundEscrows_ok hd.keyed h
    refine ⟨hkeyed, fun {i x} hx => ?_⟩
    rw [hrows] at hx
    split at hx
    · cases hx
    · exact hd.paid hx
  | other =>
    have hescrows : d'.escrows = d.escrows := h
    refine ⟨hescrows ▸ hd.keyed, fun {i x} hx => ?_⟩
    unfold escrow at hx
    rw [hescrows] at hx
    exact hd.paid hx

theorem of_move (hd : d.EscrowsPaid) (h : EscrowMove d d') : d'.EscrowsPaid := by
  obtain ⟨hist, hrun⟩ := h
  induction hrun with
  | start => exact hd
  | step _ ha ih => exact ih.of_action ha

end Database.EscrowsPaid

theorem modifyEscrow_adds {id : Nat} {e : Escrow} {f : Escrow → Result Escrow} {x : Holding → Int}
    (he : d.escrows.row Escrow.id id = some e) (h : d.modifyEscrow id f = .ok d')
    (hf : ∀ e', f e = .ok e' → e'.worth = e.worth + x) : d'.gap = d.gap + x := by
  obtain ⟨t, ht, rfl⟩ := of_modify h
  obtain ⟨y, y', hy, hrep, -⟩ := Table.modify_ok ht
  cases Option.some.inj (hrep.find_eq.symm.trans he)
  have hsum : t.sum Escrow.worth = d.escrows.sum Escrow.worth + (y'.worth - e.worth) :=
    hrep.sum_eq _
  rw [gap_escrows, hsum, hf y' hy]
  abel

/- The amounts of an escrow leave the balance of its sender. -/
theorem EscrowTransferOperation.apply_gap {o : EscrowTransferOperation} :
    ⦃⌜True⌝⦄ o.apply d ⦃⇓? d' => ⌜d'.gap = d.gap⌝⦄ := by
  mvcgen [EscrowTransferOperation.apply, adjustBalance_gap]
  all_goals
    simp_all +zetaDelta [gap_escrows, Escrow.worth, Asset.worth]
    abel

theorem EscrowDisputeOperation.apply_gap {o : EscrowDisputeOperation}
    (hk : d.escrows.Keyed Escrow.id) (h : o.apply d = .ok d') : d'.gap = d.gap := by
  obtain ⟨_, -, h⟩ := bind_ok.1 h
  obtain ⟨e, he, h⟩ := bind_ok.1 h
  obtain ⟨_, -, h⟩ := bind_ok.1 h
  obtain ⟨_, -, h⟩ := bind_ok.1 h
  obtain ⟨_, -, h⟩ := bind_ok.1 h
  obtain ⟨_, -, h⟩ := bind_ok.1 h
  obtain ⟨_, -, h⟩ := bind_ok.1 h
  have hrow := (Acts.row_of_find hk he).2
  have hgap : d'.gap = d.gap + 0 := modifyEscrow_adds hrow h fun e' he' => by
    cases he'
    exact (add_zero _).symm
  rw [hgap, add_zero]

/- An escrow that is not approved goes back, and one that both approve pays its fee. -/
theorem EscrowApproveOperation.apply_gap {o : EscrowApproveOperation}
    (hk : d.escrows.Keyed Escrow.id) (h : o.apply d = .ok d') : d'.gap = d.gap := by
  obtain ⟨e, he, h⟩ := bind_ok.1 h
  obtain ⟨_, hto, h⟩ := bind_ok.1 h
  obtain ⟨_, hagent, h⟩ := bind_ok.1 h
  obtain ⟨_, -, h⟩ := bind_ok.1 h
  obtain ⟨approved, happroved, h⟩ := bind_ok.1 h
  obtain ⟨d₁, h₁, h⟩ := bind_ok.1 h
  have hrow := (Acts.row_of_find hk he).2
  obtain ⟨hid, hworth, hfee⟩ : approved.id = e.id ∧ approved.worth = e.worth ∧
      approved.pendingFee = e.pendingFee := by
    rw [(approveEscrow_ok (require_ok hto) (require_ok hagent) happroved).2.2]
    split <;> exact ⟨rfl, rfl, rfl⟩
  have hgap₁ : d₁.gap = d.gap + 0 := modifyEscrow_adds hrow h₁ fun e' he' => by
    cases he'
    rw [hworth, add_zero]
  obtain ⟨-, -, -, x, y, hx, hy, hrows⟩ := modifyEscrow_ok hk h₁ fun x y hx hy => by
    cases hy
    cases hx.symm.trans hrow
    exact hid
  cases hy
  have hrow₁ : d₁.escrows.row Escrow.id e.id = some approved := by
    rw [show d₁.escrows.row Escrow.id e.id = _ from hrows e.id, if_pos rfl]
  rw [add_zero] at hgap₁
  split at h
  · exact (refundEscrow_gap hrow₁ hworth h).1.trans hgap₁
  · split at h
    · obtain ⟨d₂, h₂, h⟩ := bind_ok.1 h
      have hsame : d₂.escrows = d₁.escrows :=
        congrArg Core.escrows (of_triple adjustBalance_core trivial h₂)
      have hgap : d'.gap = d₂.gap + -e.pendingFee.worth :=
        modifyEscrow_adds (hsame ▸ hrow₁) h fun e' he' => by
          cases he'
          simp only [Escrow.worth, Asset.worth, hfee, entry_zero, add_zero]
          abel
      rw [hgap, of_triple adjustBalance_gap trivial h₂, hgap₁, add_neg_cancel_right]
    · cases h
      exact hgap₁

/- What is released is what the escrow loses; with its amounts all is gone. -/
theorem EscrowReleaseOperation.apply_gap {o : EscrowReleaseOperation} (hd : d.EscrowsPaid)
    (h : o.apply d = .ok d') : d'.gap = d.gap := by
  unfold EscrowReleaseOperation.apply at h
  obtain ⟨_, -, h⟩ := bind_ok.1 h
  obtain ⟨_, -, h⟩ := bind_ok.1 h
  obtain ⟨e, he, h⟩ := bind_ok.1 h
  obtain ⟨_, -, h⟩ := bind_ok.1 h
  obtain ⟨_, -, h⟩ := bind_ok.1 h
  obtain ⟨_, -, h⟩ := bind_ok.1 h
  obtain ⟨_, -, h⟩ := bind_ok.1 h
  obtain ⟨_, -, h⟩ := bind_ok.1 h
  obtain ⟨_, -, h⟩ := bind_ok.1 h
  obtain ⟨_, -, h⟩ := bind_ok.1 h
  obtain ⟨_, happroved, h⟩ := bind_ok.1 h
  obtain ⟨_, -, h⟩ := bind_ok.1 h
  obtain ⟨d₁, h₁, h⟩ := bind_ok.1 h
  obtain ⟨d₂, h₂, h⟩ := bind_ok.1 h
  obtain ⟨tme, htme, h⟩ := bind_ok.1 h
  obtain ⟨tsd, htsd, h⟩ := bind_ok.1 h
  obtain ⟨htmeSymbol, rfl⟩ := of_triple Asset.sub_spec trivial htme
  obtain ⟨htsdSymbol, rfl⟩ := of_triple Asset.sub_spec trivial htsd
  have hsame : d₂.escrows = d.escrows := congrArg Core.escrows
    ((of_triple adjustBalance_core trivial h₂).trans (of_triple adjustBalance_core trivial h₁))
  have hrow := (Acts.row_of_find hd.keyed he).2
  have hfee := hd.paid hrow (require_ok happroved)
  have hrow₂ : d₂.escrows.row Escrow.id e.id = some e := hsame ▸ hrow
  have hgap₂ : d₂.gap = d.gap + o.tmeAmount.worth + o.tsdAmount.worth := by
    rw [of_triple adjustBalance_gap trivial h₂, of_triple adjustBalance_gap trivial h₁]
  split at h
  · next hzero =>
    cases h
    have htme : e.tmeBalance.amount = o.tmeAmount.amount := Int.sub_eq_zero.1 hzero.1
    have htsd : e.tsdBalance.amount = o.tsdAmount.amount := Int.sub_eq_zero.1 hzero.2
    rw [gap_escrows, Table.sum_remove hrow₂, hgap₂]
    simp only [Escrow.worth, Asset.worth, htme, htsd, hfee, htmeSymbol, htsdSymbol, entry_zero]
    abel
  · have hgap : d'.gap = d₂.gap + (-o.tmeAmount.worth - o.tsdAmount.worth) :=
      modifyEscrow_adds hrow₂ h fun e' he' => by
        cases he'
        simp only [Escrow.worth, Asset.worth, htmeSymbol, htsdSymbol, entry_sub]
        abel
    rw [hgap, hgap₂]
    abel

/-! ### Accounts and witnesses -/

theorem createAccount_gap {name : Name} {f : Account → Account} (hf : ∀ a, (f a).worth = a.worth) :
    ⦃⌜True⌝⦄ d.createAccount name f ⦃⇓? d' => ⌜d'.gap = d.gap⌝⦄ := by
  apply triple_of
  intro _ d' h
  unfold createAccount at h
  split at h
  · cases h
  · cases h
    simp only [gap, held, Table.sum_create, hf]
    funext b
    cases b <;> simp [Account.worth]

@[simp] theorem gap_createAuthority (d : Database) (name : Name) (a b c : Authority) :
    (createAuthority d name a b c).gap = d.gap := rfl

theorem createWitness_gap {owner : Name} {f : Witness → Witness} :
    ⦃⌜True⌝⦄ d.createWitness owner f ⦃⇓? d' => ⌜d'.gap = d.gap⌝⦄ := by
  mvcgen [createWitness]

theorem Asset.nonneg_of_ge {a : Asset} {x : Int} {enough : Bool} (h : a.ge (.coin x) = .ok enough)
    (henough : enough = true) : x ≤ a.amount := by
  obtain ⟨-, rfl⟩ := of_triple Asset.ge_spec trivial h
  exact of_decide_eq_true henough

/- The fee of a new account becomes its SCORE. -/
theorem AccountCreateOperation.apply_gap {o : AccountCreateOperation} (hv : o.validate = .ok ()) :
    ⦃⌜True⌝⦄ o.apply d ⦃⇓? d' => ⌜d'.gap = d.gap⌝⦄ := by
  have hcreateAccount := @createAccount_gap
  have hfee : ¬0 < o.fee.amount → o.fee.amount = 0 := by
    obtain ⟨_, -, hv⟩ := bind_ok.1 hv
    obtain ⟨_, -, hv⟩ := bind_ok.1 hv
    obtain ⟨_, -, hv⟩ := bind_ok.1 hv
    obtain ⟨_, -, hv⟩ := bind_ok.1 hv
    obtain ⟨_, -, hv⟩ := bind_ok.1 hv
    obtain ⟨enough, henough, hv⟩ := bind_ok.1 hv
    have hnonneg := Asset.nonneg_of_ge henough (require_ok hv)
    omega
  have hpay : ⦃⌜True⌝⦄ d.modifyAccount o.creator (fun c => do
      let balance ← Asset.sub (.coin c.balance) o.fee
      return { c with balance := balance.amount })
      ⦃⇓? d' => ⌜d'.gap = d.gap + -entry symbolCoin o.fee.amount⌝⦄ := by
    apply triple_of
    intro _ d' h
    refine modifyAccount_adds h fun a => ?_
    mvcgen
    simp_all
    funext b
    cases b <;> simp [Account.worth, entry_coin]
    omega
  mvcgen [AccountCreateOperation.apply, hpay, hcreateAccount, createTMEfundForSCORE_gap]
  all_goals first
    | exact fun _ => rfl
    | simp_all +zetaDelta

theorem AccountCreateWithDelegationOperation.apply_gap {o : AccountCreateWithDelegationOperation}
    (hv : o.validate = .ok ()) : ⦃⌜True⌝⦄ o.apply d ⦃⇓? d' => ⌜d'.gap = d.gap⌝⦄ := by
  have hcreateAccount := @createAccount_gap
  have hfee : ¬0 < o.fee.amount → o.fee.amount = 0 := by
    unfold AccountCreateWithDelegationOperation.validate at hv
    obtain ⟨_, -, hv⟩ := bind_ok.1 hv
    obtain ⟨_, -, hv⟩ := bind_ok.1 hv
    obtain ⟨_, -, hv⟩ := bind_ok.1 hv
    obtain ⟨_, -, hv⟩ := bind_ok.1 hv
    obtain ⟨_, -, hv⟩ := bind_ok.1 hv
    obtain ⟨_, -, hv⟩ := bind_ok.1 hv
    obtain ⟨_, -, hv⟩ := bind_ok.1 hv
    obtain ⟨_, -, hv⟩ := bind_ok.1 hv
    obtain ⟨enough, henough, hv⟩ := bind_ok.1 hv
    obtain ⟨_, hrequire, hv⟩ := bind_ok.1 hv
    have hnonneg := Asset.nonneg_of_ge henough (require_ok hrequire)
    omega
  have hpay : ⦃⌜True⌝⦄ d.modifyAccount o.creator (fun c => do
      let balance ← Asset.sub (.coin c.balance) o.fee
      let delegated ← Asset.add (.score c.scoreDelegated) o.delegation
      return { c with balance := balance.amount, scoreDelegated := delegated.amount })
      ⦃⇓? d' => ⌜d'.gap = d.gap + -entry symbolCoin o.fee.amount⌝⦄ := by
    apply triple_of
    intro _ d' h
    refine modifyAccount_adds h fun a => ?_
    mvcgen
    simp_all
    funext b
    cases b <;> simp [Account.worth, entry_coin]
    omega
  mvcgen [AccountCreateWithDelegationOperation.apply, hpay, hcreateAccount,
    createTMEfundForSCORE_gap]
  all_goals first
    | exact fun _ => rfl
    | simp_all +zetaDelta [apply_ite gap]

theorem AccountUpdateOperation.apply_gap {o : AccountUpdateOperation} :
    ⦃⌜True⌝⦄ o.apply d ⦃⇓? d' => ⌜d'.gap = d.gap⌝⦄ := by
  mvcgen [AccountUpdateOperation.apply, AccountUpdateOperation.updateOwner, updateOwnerAuthority_gap,
    checkIfAny_spec, modifyAuthority_gap, modifyAccount_same]
  all_goals simp_all

theorem WitnessUpdateOperation.apply_gap {o : WitnessUpdateOperation} :
    ⦃⌜True⌝⦄ o.apply d ⦃⇓? d' => ⌜d'.gap = d.gap⌝⦄ := by
  mvcgen [WitnessUpdateOperation.apply, modifyWitness_gap, createWitness_gap]

theorem FeedPublishOperation.apply_gap {o : FeedPublishOperation} :
    ⦃⌜True⌝⦄ o.apply d ⦃⇓? d' => ⌜d'.gap = d.gap⌝⦄ := by
  mvcgen [FeedPublishOperation.apply, modifyWitness_gap]

theorem AccountWitnessProxyOperation.apply_gap {o : AccountWitnessProxyOperation} :
    ⦃⌜True⌝⦄ o.apply d ⦃⇓? d' => ⌜d'.gap = d.gap⌝⦄ := by
  have hm : ∀ f : Fin (maxProxyRecursionDepth + 1) → Int,
      ⦃⌜True⌝⦄ (List.finRange (maxProxyRecursionDepth + 1)).mapM (fun i => safeNeg (f i))
      ⦃⇓? _ => ⌜True⌝⦄ := fun _ => triple_of fun _ _ _ => trivial
  mvcgen [AccountWitnessProxyOperation.apply, adjustProxiedWitnessVotesArray_gap,
    clearWitnessVotes_gap, modifyAccount_same, hm]
  all_goals simp_all

theorem addWitnessVote_gap {voter witness : Name} {weight : Int} :
    ⦃⌜True⌝⦄ addWitnessVote d voter witness weight ⦃⇓? d' => ⌜d'.gap = d.gap⌝⦄ := by
  mvcgen [addWitnessVote, adjustWitnessVote_gap, adjustProxiedWitnessVotes_gap, modifyWitness_gap]

theorem AccountWitnessVoteOperation.apply_gap {o : AccountWitnessVoteOperation} :
    ⦃⌜True⌝⦄ o.apply d ⦃⇓? d' => ⌜d'.gap = d.gap⌝⦄ := by
  mvcgen [AccountWitnessVoteOperation.apply, addWitnessVote_gap, modifyAccount_same]
  all_goals simp_all +zetaDelta

theorem DeclineVotingRightsOperation.apply_gap {o : DeclineVotingRightsOperation} :
    ⦃⌜True⌝⦄ o.apply d ⦃⇓? d' => ⌜d'.gap = d.gap⌝⦄ := by
  mvcgen [DeclineVotingRightsOperation.apply]

theorem createWorker_gap {name recovery : Name} {key : PublicKey} :
    ⦃⌜True⌝⦄ createWorker d name key recovery ⦃⇓? d' => ⌜d'.gap = d.gap⌝⦄ := by
  mvcgen [createWorker, createAccount_gap]
  exact fun _ => rfl

@[simp] theorem gap_countPow (d : Database) : (countPow d).gap = d.gap := rfl

theorem enqueueWorker_gap {name : Name} {key : PublicKey} {props : ChainProperties} {work : Hash} :
    ⦃⌜True⌝⦄ enqueueWorker d name key props work ⦃⇓? d' => ⌜d'.gap = d.gap⌝⦄ := by
  mvcgen [enqueueWorker, modifyWitness_gap, createWitness_gap]

/- The reward of a proof of work is what the supply grows by. -/
theorem payPow_gap {w : Name} :
    ⦃⌜True⌝⦄ payPow d w ⦃⇓? d' => ⌜d'.gap = d.gap⌝⦄ := by
  mvcgen [payPow, adjustSupply_gap, adjustBalance_gap, createTMEfundForSCORE_gap]
  all_goals simp_all

theorem PowOperation.apply_gap {o : PowOperation} {w : Name} :
    ⦃⌜True⌝⦄ o.apply d w ⦃⇓? d' => ⌜d'.gap = d.gap⌝⦄ := by
  have hpayPow := @payPow_gap
  mvcgen [PowOperation.apply, createWorker_gap, enqueueWorker_gap, hpayPow]
  all_goals simp_all +zetaDelta

theorem Pow2Operation.enqueue_gap {o : Pow2Operation} :
    ⦃⌜True⌝⦄ o.enqueue d ⦃⇓? d' => ⌜d'.gap = d.gap⌝⦄ := by
  mvcgen [Pow2Operation.enqueue, createWorker_gap, createWitness_gap, modifyWitness_gap]
  all_goals simp_all

theorem Pow2Operation.apply_gap {o : Pow2Operation} {w : Name} :
    ⦃⌜True⌝⦄ o.apply d w ⦃⇓? d' => ⌜d'.gap = d.gap⌝⦄ := by
  have henqueue := @Pow2Operation.enqueue_gap
  mvcgen [Pow2Operation.apply, henqueue, adjustSupply_gap, createTMEfundForSCORE_gap]
  all_goals simp_all +zetaDelta

theorem ChallengeAuthorityOperation.apply_gap {o : ChallengeAuthorityOperation} :
    ⦃⌜True⌝⦄ o.apply d ⦃⇓? d' => ⌜d'.gap = d.gap⌝⦄ := by
  mvcgen [ChallengeAuthorityOperation.apply, payChallenge, adjustBalance_gap,
    createTMEfundForSCORE_gap, modifyAccount_same]
  all_goals simp_all

theorem ProveAuthorityOperation.apply_gap {o : ProveAuthorityOperation} :
    ⦃⌜True⌝⦄ o.apply d ⦃⇓? d' => ⌜d'.gap = d.gap⌝⦄ := by
  mvcgen [ProveAuthorityOperation.apply, modifyAccount_same]

theorem RequestAccountRecoveryOperation.apply_gap {o : RequestAccountRecoveryOperation} :
    ⦃⌜True⌝⦄ o.apply d ⦃⇓? d' => ⌜d'.gap = d.gap⌝⦄ := by
  mvcgen [RequestAccountRecoveryOperation.apply]

theorem RecoverAccountOperation.apply_gap {o : RecoverAccountOperation} :
    ⦃⌜True⌝⦄ o.apply d ⦃⇓? d' => ⌜d'.gap = d.gap⌝⦄ := by
  mvcgen [RecoverAccountOperation.apply, updateOwnerAuthority_gap, modifyAccount_same]
  all_goals simp_all +zetaDelta

theorem ChangeRecoveryAccountOperation.apply_gap {o : ChangeRecoveryAccountOperation} :
    ⦃⌜True⌝⦄ o.apply d ⦃⇓? d' => ⌜d'.gap = d.gap⌝⦄ := by
  mvcgen [ChangeRecoveryAccountOperation.apply]

/-! ### Comments and votes -/

theorem DeleteCommentOperation.apply_gap {o : DeleteCommentOperation} :
    ⦃⌜True⌝⦄ o.apply d ⦃⇓? d' => ⌜d'.gap = d.gap⌝⦄ := by
  mvcgen [DeleteCommentOperation.apply, walkParents_gap]

theorem CommentOptionsOperation.apply_gap {o : CommentOptionsOperation} :
    ⦃⌜True⌝⦄ o.apply d ⦃⇓? d' => ⌜d'.gap = d.gap⌝⦄ := by
  mvcgen [CommentOptionsOperation.apply, modifyComment_gap]
  all_goals simp_all

theorem CommentOperation.create_gap {o : CommentOperation} {a : Account} {parent : Option Comment} :
    ⦃⌜True⌝⦄ o.create d a parent ⦃⇓? d' => ⌜d'.gap = d.gap⌝⦄ := by
  mvcgen [CommentOperation.create, modifyAccount_same, walkParents_gap]
  all_goals simp_all +zetaDelta

theorem CommentOperation.edit_gap {o : CommentOperation} {c : Comment} :
    ⦃⌜True⌝⦄ o.edit d c ⦃⇓? d' => ⌜d'.gap = d.gap⌝⦄ := by
  mvcgen [CommentOperation.edit, modifyComment_gap]

theorem CommentOperation.apply_gap {o : CommentOperation} :
    ⦃⌜True⌝⦄ o.apply d ⦃⇓? d' => ⌜d'.gap = d.gap⌝⦄ := by
  have hcreate := @CommentOperation.create_gap
  mvcgen [CommentOperation.apply, hcreate, CommentOperation.edit_gap]

theorem spendPower_gap {voter : Name} {p : VotePower} :
    ⦃⌜True⌝⦄ spendPower d voter p ⦃⇓? d' => ⌜d'.gap = d.gap⌝⦄ := by
  mvcgen [spendPower, modifyAccount_same]

theorem claimVotes_gap {old new : Int} :
    ⦃⌜True⌝⦄ claimVotes d old new ⦃⇓? d' => ⌜d'.gap = d.gap⌝⦄ := by
  mvcgen [claimVotes]

theorem VoteOperation.newVote_gap {o : VoteOperation} {c : Comment} {a : Account} {p : VotePower} :
    ⦃⌜True⌝⦄ o.newVote d c a p ⦃⇓? d' => ⌜d'.gap = d.gap⌝⦄ := by
  mvcgen [VoteOperation.newVote, spendPower_gap, modifyComment_gap, claimVotes_gap]
  all_goals simp_all +zetaDelta

theorem VoteOperation.changeVote_gap {o : VoteOperation} {c : Comment} {v : CommentVote}
    {p : VotePower} : ⦃⌜True⌝⦄ o.changeVote d c v p ⦃⇓? d' => ⌜d'.gap = d.gap⌝⦄ := by
  mvcgen [VoteOperation.changeVote, spendPower_gap, modifyComment_gap, modifyCommentVote_gap,
    claimVotes_gap]
  all_goals simp_all +zetaDelta

theorem VoteOperation.apply_gap {o : VoteOperation} :
    ⦃⌜True⌝⦄ o.apply d ⦃⇓? d' => ⌜d'.gap = d.gap⌝⦄ := by
  have hnewVote := @VoteOperation.newVote_gap
  have hchangeVote := @VoteOperation.changeVote_gap
  mvcgen [VoteOperation.apply, hnewVote, hchangeVote]

end WeNode.Chain
