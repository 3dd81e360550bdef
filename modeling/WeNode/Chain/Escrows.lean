import WeNode.Chain.CoreFunds
import WeNode.Chain.EscrowLife
import WeNode.Chain.Transfers
import WeNode.Chain.Validate
import WeNode.Lib.Runs

/-!
# Escrows of the database

The evaluators and the ratification timer take an escrow through its life, and make the payments of
every event.
-/

set_option mvcgen.warning false

namespace WeNode.Chain

open WeNode.Lib Std.Do

namespace Database

variable {d d' : Database}

def escrow (d : Database) (i : Nat) : Option Escrow := d.escrows.row (·.id) i

/- The escrow an operation is about. -/
def findEscrow (d : Database) (name : Name) (escrowId : Nat) : Option Escrow :=
  d.escrows.find fun e => e.fromAccount == name && e.escrowId == escrowId

/- The escrows whose ratification the clock has overtaken. -/
def expiring (d : Database) : List Escrow :=
  sortOn (·.ratificationDeadline) (·.id) (d.escrows.rows.filter fun e =>
    !e.isApproved && decide (e.ratificationDeadline ≤ d.headBlockTime))

def pay (d : Database) (p : Payment) : Result Database := d.adjustBalance p.receiver p.amount

def payAll (d : Database) (ps : List Payment) : Result Database := ps.foldlM pay d

def setEscrows (d : Database) (t : Table Escrow) : Database := { d with escrows := t }

/-- The payments of an event are made, and nothing but the escrows changes besides. -/
def Pays (d d' : Database) (ps : List Payment) : Prop :=
  ∃ d₁, d.payAll ps = .ok d₁ ∧ d' = d₁.setEscrows d'.escrows

theorem modifyAccount_setEscrows (t : Table Escrow) (name : Name)
    (f : Account → Result Account) :
    (d.setEscrows t).modifyAccount name f = (d.modifyAccount name f).map (·.setEscrows t) := by
  have haccounts : (d.setEscrows t).accounts = d.accounts := rfl
  unfold modifyAccount
  rw [haccounts]
  cases d.accounts.modify .notFound (fun a => a.name == name) f <;> rfl

theorem payInterest_setEscrows (t : Table Escrow) (paid : Option Int) :
    (d.setEscrows t).payInterest paid = (d.payInterest paid).map (·.setEscrows t) := by
  cases paid with
  | none => rfl
  | some paid =>
    have hgpo : (d.setEscrows t).gpo = d.gpo := rfl
    have hfeed : (d.setEscrows t).feed = d.feed := rfl
    simp only [payInterest, modifyGpo, hgpo, hfeed, bind, Except.bind]
    split <;> rfl

theorem adjustBalance_setEscrows (t : Table Escrow) (name : Name) (delta : Asset) :
    (d.setEscrows t).adjustBalance name delta =
      (d.adjustBalance name delta).map (·.setEscrows t) := by
  have haccount : (d.setEscrows t).getAccount name = d.getAccount name := rfl
  have hinterest (i : Interest) : (d.setEscrows t).accrueInterest i = d.accrueInterest i := rfl
  unfold adjustBalance
  split
  · exact modifyAccount_setEscrows t name _
  · split
    · rw [haccount]
      cases d.getAccount name with
      | error e => rfl
      | ok a =>
        simp only [bind, Except.bind, hinterest]
        cases d.accrueInterest ⟨a.tsdBalance, a.tsdSeconds, a.tsdSecondsLastUpdate,
            a.tsdLastInterestPayment, none⟩ with
        | error e => rfl
        | ok i =>
          simp only [payInterest_setEscrows]
          cases d.payInterest i.paid with
          | error e => rfl
          | ok d₁ => exact modifyAccount_setEscrows t name _
    · rfl

theorem payAll_setEscrows (t : Table Escrow) (ps : List Payment) :
    (d.setEscrows t).payAll ps = (d.payAll ps).map (·.setEscrows t) := by
  induction ps generalizing d with
  | nil => rfl
  | cons p ps ih =>
    unfold payAll at ih ⊢
    rw [List.foldlM_cons, List.foldlM_cons, pay, adjustBalance_setEscrows]
    cases h : d.adjustBalance p.receiver p.amount with
    | error e =>
      rw [pay, h]
      rfl
    | ok d₁ =>
      rw [pay, h]
      exact ih

theorem payAll_escrows {ps : List Payment} (h : d.payAll ps = .ok d') :
    d'.escrows = d.escrows := by
  refine run_induction (P := fun _ d' => d'.escrows = d.escrows) h rfl ?_
  intro _ d₁ p d₂ hd₁ _ hp
  have hcore : d₂.core = d₁.core := of_triple adjustBalance_core trivial hp
  exact (congrArg Core.escrows hcore).trans hd₁

theorem Pays.nil (t : Table Escrow) : Pays d (d.setEscrows t) [] := ⟨d, rfl, rfl⟩

/- A payment after a change of the escrows. -/
theorem Pays.of_setEscrows {t : Table Escrow} {ps : List Payment}
    (h : (d.setEscrows t).payAll ps = .ok d') (t' : Table Escrow) :
    Pays d (d'.setEscrows t') ps := by
  rw [payAll_setEscrows] at h
  obtain ⟨d₁, hpay, rfl⟩ := map_ok.1 h
  exact ⟨d₁, hpay, rfl⟩

theorem refundEscrow_eq (e : Escrow) :
    d.refundEscrow e = (d.payAll e.refund).map fun d =>
      d.setEscrows (d.escrows.remove fun x => x.id == e.id) := by
  simp only [refundEscrow, payAll, Escrow.refund, List.foldlM_cons, List.foldlM_nil, pay,
    setEscrows, bind, Except.bind]
  cases d.adjustBalance e.fromAccount e.tmeBalance with
  | error err => rfl
  | ok d₁ =>
    cases h₁ : d₁.adjustBalance e.fromAccount e.tsdBalance with
    | error err =>
      simp only [h₁]
      rfl
    | ok d₂ =>
      cases h₂ : d₂.adjustBalance e.fromAccount e.pendingFee with
      | error err =>
        simp only [h₁, h₂]
        rfl
      | ok d₃ =>
        simp only [h₁, h₂]
        rfl

theorem modifyEscrow_ok {i : Nat} {f : Escrow → Result Escrow} (hk : d.escrows.Keyed (·.id))
    (h : d.modifyEscrow i f = .ok d') (hf : ∀ x y, d.escrow i = some x → f x = .ok y → y.id = x.id) :
    d' = d.setEscrows d'.escrows ∧ d'.escrows.Keyed (·.id) ∧
      d'.escrows.nextId = d.escrows.nextId ∧ ∃ x y, d.escrow i = some x ∧ f x = .ok y ∧
        ∀ j, d'.escrow j = if j = i then some y else d.escrow j := by
  unfold modifyEscrow at h
  obtain ⟨t, ht, h⟩ := bind_ok.1 h
  cases h
  obtain ⟨hk', hnext, hrow⟩ := hk.modify ht hf
  exact ⟨rfl, hk', hnext, hrow⟩

theorem findEscrow_row {name : Name} {escrowId : Nat} {e : Escrow} (hk : d.escrows.Keyed (·.id))
    (h : d.findEscrow name escrowId = some e) : d.escrow e.id = some e :=
  hk.row_iff.2 ⟨List.mem_of_find?_eq_some h, rfl⟩

/-- An event of the escrow `e`: it is taken a step further, the payments are made and the other
escrows are left. -/
structure Acts (d d' : Database) (e : Escrow) (event : EscrowEvent) (ps : List Payment) : Prop where
  row : d.escrow e.id = some e
  step : ∃ e', e.Step d.headBlockTime event e' ps ∧
    ∀ j, d'.escrow j = if j = e.id then e' else d.escrow j
  pays : Pays d d' ps
  keyed : d'.escrows.Keyed (·.id)
  nextId : d'.escrows.nextId = d.escrows.nextId

end Database

open Database

variable {d d' : Database}

theorem approveEscrow_ok {e approved : Escrow} {o : EscrowApproveOperation}
    (hto : e.toAccount = o.toAccount) (hagent : e.agent = o.agent)
    (h : approveEscrow e o = .ok approved) :
    (o.who = e.toAccount → e.toApproved = false) ∧ (o.who = e.agent → e.agentApproved = false) ∧
      approved = if o.approve then e.approvedBy o.who else e := by
  have hchecks : (o.who = e.toAccount → e.toApproved = false) ∧
      (o.who = e.agent → e.agentApproved = false) ∧ approved = { e with
        toApproved := e.toApproved || (o.approve && decide (o.who = e.toAccount))
        agentApproved := e.agentApproved || (o.approve && decide (o.who = e.agent)) } := by
    unfold approveEscrow at h
    rw [← hto, ← hagent] at h
    have hguard {p : Prop} [Decidable p] {b : Bool} {text : String} {r : Result Escrow}
        (hr : (if p then require (!b) text >>= fun _ => r else r) = .ok approved) :
        (p → b = false) ∧ r = .ok approved := by
      split at hr
      · obtain ⟨_, hb, hr⟩ := bind_ok.1 hr
        exact ⟨fun _ => by simpa using require_ok hb, hr⟩
      · next hp => exact ⟨fun hp' => absurd hp' hp, hr⟩
    obtain ⟨hto, h⟩ := hguard h
    obtain ⟨hagent, h⟩ := hguard h
    exact ⟨hto, hagent, (Except.ok.inj h).symm⟩
  refine ⟨hchecks.1, hchecks.2.1, hchecks.2.2.trans ?_⟩
  cases o.approve with
  | true => rfl
  | false =>
    simp only [Bool.false_and, Bool.or_false]
    rfl

theorem Database.Acts.row_of_find {name : Name} {escrowId : Nat} {e : Escrow}
    (hk : d.escrows.Keyed (·.id)) (h : d.getEscrow name escrowId = .ok e) :
    d.findEscrow name escrowId = some e ∧ d.escrow e.id = some e :=
  ⟨found_ok h, findEscrow_row hk (found_ok h)⟩

theorem EscrowApproveOperation.acts {o : EscrowApproveOperation} (hk : d.escrows.Keyed (·.id))
    (hv : o.validate = .ok ()) (h : o.apply d = .ok d') :
    ∃ e, d.findEscrow o.fromAccount o.escrowId = some e ∧
      Acts d d' e (.approve o.who o.approve) (e.approvalPayments o.who o.approve) := by
  unfold EscrowApproveOperation.apply at h
  obtain ⟨e, he, h⟩ := bind_ok.1 h
  obtain ⟨_, hto, h⟩ := bind_ok.1 h
  obtain ⟨_, hagent, h⟩ := bind_ok.1 h
  obtain ⟨_, htime, h⟩ := bind_ok.1 h
  obtain ⟨approved, happroved, h⟩ := bind_ok.1 h
  obtain ⟨d₁, hmodify, h⟩ := bind_ok.1 h
  have hto := require_ok hto
  have hagent := require_ok hagent
  obtain ⟨hfind, hrow⟩ := Acts.row_of_find hk he
  obtain ⟨htoOnce, hagentOnce, happroved⟩ := approveEscrow_ok hto hagent happroved
  have hmay : e.MayApprove d.headBlockTime o.who := by
    refine ⟨require_ok htime, ?_, htoOnce, hagentOnce⟩
    unfold EscrowApproveOperation.validate at hv
    obtain ⟨_, -, hv⟩ := bind_ok.1 hv
    rw [hto, hagent]
    exact require_ok hv
  have hid : approved.id = e.id := by
    rw [happroved]
    split <;> rfl
  obtain ⟨hset, hk₁, hnext₁, x, y, hx, hy, hrows₁⟩ := modifyEscrow_ok hk hmodify (by
    intro x y hx hy
    cases hy
    cases hx.symm.trans hrow
    exact hid)
  cases hy
  refine ⟨e, hfind, ?_⟩
  cases happrove : o.approve with
  | false =>
    rw [happrove] at h happroved
    rw [Bool.not_false, if_pos rfl, refundEscrow_eq] at h
    obtain ⟨d₂, hpay, rfl⟩ := map_ok.1 h
    have hescrows : d₂.escrows = d₁.escrows := payAll_escrows hpay
    rw [hset] at hpay
    exact {
      row := hrow
      step := by
        refine ⟨none, .reject hmay, fun j => ?_⟩
        have hremove := hk₁.row_remove (i := e.id) (j := j)
        unfold escrow setEscrows at *
        rw [hescrows, hremove, hrows₁]
        split <;> rfl
      pays := Pays.of_setEscrows hpay _
      keyed := hescrows ▸ hk₁.remove e.id
      nextId := (congrArg Table.nextId hescrows).trans hnext₁ }
  | true =>
    rw [happrove] at h happroved
    rw [Bool.not_true, if_neg Bool.false_ne_true] at h
    rw [if_pos rfl] at happroved
    cases hboth : approved.isApproved with
    | false =>
      rw [hboth, if_neg Bool.false_ne_true] at h
      cases h
      have hone : (e.approvedBy o.who).isApproved = false := happroved ▸ hboth
      rw [Escrow.approvalPayments, Bool.not_true, if_neg Bool.false_ne_true, hone,
        if_neg Bool.false_ne_true]
      exact {
        row := hrow
        step := ⟨some approved, happroved ▸ .approve hmay hone, hrows₁⟩
        pays := by
          rw [hset]
          exact Pays.nil _
        keyed := hk₁
        nextId := hnext₁ }
    | true =>
      rw [hboth, if_pos rfl] at h
      obtain ⟨d₂, hpay, h⟩ := bind_ok.1 h
      have hboth : (e.approvedBy o.who).isApproved = true := happroved ▸ hboth
      have hescrows : d₂.escrows = d₁.escrows :=
        congrArg Core.escrows (of_triple adjustBalance_core trivial hpay : d₂.core = d₁.core)
      obtain ⟨hset₂, hk₂, hnext₂, x, y, hx, hy, hrows₂⟩ := modifyEscrow_ok (hescrows ▸ hk₁) h (by
        intro x y hx hy
        cases hy
        rfl)
      cases hy
      have hx : d₁.escrow e.id = some x := by
        unfold escrow at hx ⊢
        rw [← hescrows]
        exact hx
      rw [hrows₁, if_pos rfl] at hx
      cases hx
      have hpays : Pays d d' [⟨true, e.agent, e.pendingFee⟩] := by
        rw [hset, ← hagent] at hpay
        rw [hset₂]
        refine Pays.of_setEscrows (t := d₁.escrows) ?_ _
        rw [payAll, List.foldlM_cons, pay, hpay]
        rfl
      rw [Escrow.approvalPayments, Bool.not_true, if_neg Bool.false_ne_true, if_pos hboth]
      exact {
        row := hrow
        step := by
          refine ⟨some (e.approvedBy o.who).settleFee, .ratify hmay hboth, fun j => ?_⟩
          have hsame : d₂.escrow j = d₁.escrow j := by
            unfold escrow
            rw [hescrows]
          rw [hrows₂, hsame, hrows₁, happroved]
          split <;> rfl
        pays := hpays
        keyed := hk₂
        nextId := hnext₂.trans ((congrArg Table.nextId hescrows).trans hnext₁) }

theorem EscrowDisputeOperation.acts {o : EscrowDisputeOperation} (hk : d.escrows.Keyed (·.id))
    (h : o.apply d = .ok d') :
    ∃ e, d.findEscrow o.fromAccount o.escrowId = some e ∧ Acts d d' e .dispute [] := by
  unfold EscrowDisputeOperation.apply at h
  obtain ⟨_, -, h⟩ := bind_ok.1 h
  obtain ⟨e, he, h⟩ := bind_ok.1 h
  obtain ⟨_, htime, h⟩ := bind_ok.1 h
  obtain ⟨_, happroved, h⟩ := bind_ok.1 h
  obtain ⟨_, hdisputed, h⟩ := bind_ok.1 h
  obtain ⟨_, -, h⟩ := bind_ok.1 h
  obtain ⟨_, -, h⟩ := bind_ok.1 h
  obtain ⟨hfind, hrow⟩ := Acts.row_of_find hk he
  obtain ⟨hset, hk', hnext, x, y, hx, hy, hrows⟩ := modifyEscrow_ok hk h (by
    intro x y hx hy
    cases hy
    rfl)
  cases hx.symm.trans hrow
  cases hy
  have hdisputed : e.disputed = false := by simpa using require_ok hdisputed
  exact ⟨e, hfind, {
    row := hrow
    step := ⟨some { e with disputed := true },
      .dispute (require_ok happroved) hdisputed (require_ok htime), hrows⟩
    pays := by
      rw [hset]
      exact Pays.nil _
    keyed := hk'
    nextId := hnext }⟩

/- The payments of a release. -/
def EscrowReleaseOperation.payments (o : EscrowReleaseOperation) : List Payment :=
  [⟨false, o.receiver, o.tmeAmount⟩, ⟨false, o.receiver, o.tsdAmount⟩]

theorem checkRelease_ok {e : Escrow} {o : EscrowReleaseOperation}
    (hreceiver : o.receiver = e.fromAccount ∨ o.receiver = e.toAccount)
    (h : checkRelease d e o = .ok ()) :
    e.MayRelease d.headBlockTime (e.disputed = true) o.who o.receiver := by
  unfold checkRelease at h
  split at h
  · next hdisputed =>
    exact ⟨hreceiver, fun _ => require_ok h, absurd hdisputed, absurd hdisputed⟩
  · next hdisputed =>
    obtain ⟨_, hparty, h⟩ := bind_ok.1 h
    refine ⟨hreceiver, fun hd => absurd hd hdisputed, fun _ => require_ok hparty, ?_⟩
    intro _ htime
    rw [if_pos htime] at h
    split at h
    · next hfrom =>
      have hto := require_ok h
      refine ⟨fun _ => hto, fun hwho => ?_⟩
      rw [hto, ← hwho, hfrom]
    · next hfrom =>
      refine ⟨fun hwho => absurd hwho hfrom, fun hwho => ?_⟩
      rw [if_pos hwho] at h
      exact require_ok h

theorem Asset.ge_ok {a b : Asset} {r : Bool} (h : a.ge b = .ok r) :
    a.symbol = b.symbol ∧ (r = true → b.amount ≤ a.amount) := by
  unfold Asset.ge Asset.lt at h
  obtain ⟨lt, hlt, h⟩ := bind_ok.1 h
  obtain ⟨_, hsymbol, hlt⟩ := bind_ok.1 hlt
  cases hlt
  cases h
  refine ⟨require_ok hsymbol, fun hr => ?_⟩
  simpa using hr

theorem Asset.sub_ok {a b c : Asset} (h : a.sub b = .ok c) :
    c = ⟨a.amount - b.amount, a.symbol⟩ := by
  unfold Asset.sub at h
  obtain ⟨_, -, h⟩ := bind_ok.1 h
  obtain ⟨x, hx, h⟩ := bind_ok.1 h
  cases h
  rw [safeSub_ok hx]

theorem EscrowReleaseOperation.mayWithdraw {o : EscrowReleaseOperation} {e : Escrow}
    (hv : o.validate = .ok ()) (htme : o.tmeAmount.amount ≤ e.tmeBalance.amount)
    (htsd : o.tsdAmount.amount ≤ e.tsdBalance.amount) : e.MayWithdraw o.tmeAmount o.tsdAmount := by
  unfold EscrowReleaseOperation.validate at hv
  obtain ⟨_, -, hv⟩ := bind_ok.1 hv
  obtain ⟨_, -, hv⟩ := bind_ok.1 hv
  obtain ⟨_, -, hv⟩ := bind_ok.1 hv
  obtain ⟨_, -, hv⟩ := bind_ok.1 hv
  obtain ⟨_, htsd', hv⟩ := bind_ok.1 hv
  obtain ⟨_, htme', hv⟩ := bind_ok.1 hv
  obtain ⟨_, -, hv⟩ := bind_ok.1 hv
  obtain ⟨_, htsdSymbol, hv⟩ := bind_ok.1 hv
  exact ⟨⟨require_ok htme', htme⟩, ⟨require_ok htsd', htsd⟩, require_ok hv, require_ok htsdSymbol⟩

theorem EscrowReleaseOperation.acts {o : EscrowReleaseOperation} (hk : d.escrows.Keyed (·.id))
    (hv : o.validate = .ok ()) (h : o.apply d = .ok d') :
    ∃ e, d.findEscrow o.fromAccount o.escrowId = some e ∧
      Acts d d' e (.release o.who o.receiver o.tmeAmount o.tsdAmount) o.payments := by
  unfold EscrowReleaseOperation.apply at h
  obtain ⟨_, -, h⟩ := bind_ok.1 h
  obtain ⟨_, -, h⟩ := bind_ok.1 h
  obtain ⟨e, he, h⟩ := bind_ok.1 h
  obtain ⟨tmeEnough, htmeEnough, h⟩ := bind_ok.1 h
  obtain ⟨_, htmeOk, h⟩ := bind_ok.1 h
  obtain ⟨tsdEnough, htsdEnough, h⟩ := bind_ok.1 h
  obtain ⟨_, htsdOk, h⟩ := bind_ok.1 h
  obtain ⟨_, -, h⟩ := bind_ok.1 h
  obtain ⟨_, -, h⟩ := bind_ok.1 h
  obtain ⟨_, hreceiver, h⟩ := bind_ok.1 h
  obtain ⟨_, happroved, h⟩ := bind_ok.1 h
  obtain ⟨_, hcheck, h⟩ := bind_ok.1 h
  obtain ⟨d₁, hpayTme, h⟩ := bind_ok.1 h
  obtain ⟨d₂, hpayTsd, h⟩ := bind_ok.1 h
  obtain ⟨tme, htme, h⟩ := bind_ok.1 h
  obtain ⟨tsd, htsd, h⟩ := bind_ok.1 h
  obtain rfl := Asset.sub_ok htme
  obtain rfl := Asset.sub_ok htsd
  obtain ⟨hfind, hrow⟩ := Acts.row_of_find hk he
  have hw := o.mayWithdraw hv ((Asset.ge_ok htmeEnough).2 (require_ok htmeOk))
    ((Asset.ge_ok htsdEnough).2 (require_ok htsdOk))
  have hrelease := checkRelease_ok (require_ok hreceiver) hcheck
  have hpay : d.payAll o.payments = .ok d₂ := by
    unfold payAll payments
    exact run_cons.2 ⟨d₁, hpayTme, run_cons.2 ⟨d₂, hpayTsd, rfl⟩⟩
  have hescrows : d₂.escrows = d.escrows := payAll_escrows hpay
  have hsame (j : Nat) : d₂.escrow j = d.escrow j := by
    unfold escrow
    rw [hescrows]
  refine ⟨e, hfind, ?_⟩
  split at h
  · next hzero =>
    cases h
    exact {
      row := hrow
      step := by
        refine ⟨none, .finish (require_ok happroved) hrelease hw ?_ ?_, fun j => ?_⟩
        · exact (Int.sub_eq_zero.1 hzero.1).symm
        · exact (Int.sub_eq_zero.1 hzero.2).symm
        · have hremove := hk.row_remove (i := e.id) (j := j)
          unfold escrow
          rw [hescrows]
          exact hremove
      pays := ⟨d₂, hpay, rfl⟩
      keyed := hescrows ▸ hk.remove e.id
      nextId := by
        unfold Table.remove
        rw [hescrows] }
  · obtain ⟨hset, hk', hnext, x, y, hx, hy, hrows⟩ := modifyEscrow_ok (hescrows ▸ hk) h (by
      intro x y hx hy
      cases hy
      rfl)
    rw [hsame] at hx
    cases hx.symm.trans hrow
    cases hy
    exact {
      row := hrow
      step := by
        refine ⟨some (e.withdraw o.tmeAmount.amount o.tsdAmount.amount),
          .release (require_ok happroved) hrelease hw, fun j => ?_⟩
        rw [hrows, hsame]
        rfl
      pays := ⟨d₂, hpay, hset⟩
      keyed := hk'
      nextId := hnext.trans (congrArg Table.nextId hescrows) }

theorem Database.Pays.trans {d₁ : Database} {ps qs : List Payment} (h : Pays d d₁ ps)
    (h' : Pays d₁ d' qs) : Pays d d' (ps ++ qs) := by
  obtain ⟨d₂, hps, hd₁⟩ := h
  obtain ⟨d₃, hqs, hd'⟩ := h'
  rw [hd₁, payAll_setEscrows] at hqs
  obtain ⟨d₄, hqs₄, rfl⟩ := map_ok.1 hqs
  exact ⟨d₄, run_append.2 ⟨d₂, hps, hqs₄⟩, hd'⟩

/-- The refunds of a list of escrows. -/
theorem refundEscrows_ok {l : List Escrow} (hk : d.escrows.Keyed (·.id))
    (h : l.foldlM refundEscrow d = .ok d') :
    Pays d d' (l.flatMap (·.refund)) ∧ d'.escrows.Keyed (·.id) ∧
      d'.escrows.nextId = d.escrows.nextId ∧
      ∀ j, d'.escrow j = if j ∈ l.map (·.id) then none else d.escrow j := by
  induction l generalizing d with
  | nil =>
    cases h
    exact ⟨⟨_, rfl, rfl⟩, hk, rfl, fun j => (if_neg List.not_mem_nil).symm⟩
  | cons e l ih =>
    obtain ⟨d₁, he, h⟩ := run_cons.1 h
    rw [refundEscrow_eq] at he
    obtain ⟨d₂, hpay, rfl⟩ := map_ok.1 he
    have hescrows : d₂.escrows = d.escrows := payAll_escrows hpay
    obtain ⟨hpays, hk', hnext, hrows⟩ := ih (d := d₂.setEscrows (d₂.escrows.remove fun x =>
      x.id == e.id)) (hescrows ▸ hk.remove e.id) h
    refine ⟨Pays.trans ⟨d₂, hpay, rfl⟩ hpays, hk', hnext.trans ?_, fun j => ?_⟩
    · rw [← hescrows]
      rfl
    · have hremove : (d₂.setEscrows (d₂.escrows.remove fun x => x.id == e.id)).escrow j =
          if j = e.id then none else d.escrow j := by
        unfold escrow setEscrows
        rw [hescrows]
        exact hk.row_remove
      rw [hrows, hremove, List.map_cons]
      by_cases hj : j = e.id
      · simp [hj]
      · simp [hj]

theorem mem_expiring {e : Escrow} : e ∈ d.expiring ↔ e ∈ d.escrows.rows ∧
    e.isApproved = false ∧ e.ratificationDeadline ≤ d.headBlockTime := by
  unfold expiring sortOn
  rw [List.mem_insertionSort, List.mem_filter]
  simp

/-- What may happen to the escrows: the operations, the timer, and what leaves them alone. -/
inductive EscrowAction where
  | transfer (o : EscrowTransferOperation)
  | approve (o : EscrowApproveOperation)
  | dispute (o : EscrowDisputeOperation)
  | release (o : EscrowReleaseOperation)
  | expire
  | other

namespace EscrowAction

variable (d d' : Database) (i : Nat)

def Happens : EscrowAction → Prop
  | transfer o => o.validate = .ok () ∧ o.apply d = .ok d'
  | approve o => o.validate = .ok () ∧ o.apply d = .ok d'
  | dispute o => o.validate = .ok () ∧ o.apply d = .ok d'
  | release o => o.validate = .ok () ∧ o.apply d = .ok d'
  | expire => d.expireEscrowRatification = .ok d'
  | other => d'.escrows = d.escrows

/- The payments, each with the id of its escrow. -/
def payments : EscrowAction → List (Nat × Payment)
  | approve o => ((d.findEscrow o.fromAccount o.escrowId).map fun e =>
      (e.approvalPayments o.who o.approve).map (e.id, ·)).getD []
  | release o => ((d.findEscrow o.fromAccount o.escrowId).map fun e =>
      o.payments.map (e.id, ·)).getD []
  | expire => d.expiring.flatMap fun e => e.refund.map (e.id, ·)
  | _ => []

/- The event of an action for the escrow with an id. -/
def event : EscrowAction → Option EscrowEvent
  | approve o =>
    if (d.findEscrow o.fromAccount o.escrowId).map (·.id) = some i then
      some (.approve o.who o.approve)
    else none
  | dispute o =>
    if (d.findEscrow o.fromAccount o.escrowId).map (·.id) = some i then some .dispute else none
  | release o =>
    if (d.findEscrow o.fromAccount o.escrowId).map (·.id) = some i then
      some (.release o.who o.receiver o.tmeAmount o.tsdAmount)
    else none
  | expire => if i ∈ d.expiring.map (·.id) then some .expire else none
  | _ => none

end EscrowAction

/- An action, with the database before and after it. -/
structure EscrowMoment where
  before : Database
  action : EscrowAction
  after : Database

namespace EscrowMoment

variable (m : EscrowMoment)

/- The entry of an action in the history of an escrow. -/
def entry (i : Nat) : Option EscrowEntry :=
  (m.action.event m.before i).map fun event =>
    { time := m.before.headBlockTime
      event := event
      payments := ((m.action.payments m.before).filter (·.1 = i)).map (·.2) }

/- The payments of an action are made, and change nothing but balances. -/
def Executed : Prop :=
  match m.action with
  | .transfer _ => True
  | .other => True
  | a => Pays m.before m.after ((a.payments m.before).map (·.2))

end EscrowMoment

/-- The runs of actions from a database. -/
inductive EscrowRun (d₀ : Database) : List EscrowMoment → Database → Prop where
  | start : EscrowRun d₀ [] d₀
  | step {hist : List EscrowMoment} {d d' : Database} {a : EscrowAction} :
    EscrowRun d₀ hist d → a.Happens d d' → EscrowRun d₀ (hist ++ [⟨d, a, d'⟩]) d'

/- The escrow an `escrow_transfer` creates. -/
def EscrowTransferOperation.escrow (o : EscrowTransferOperation) (id : Nat) : Escrow where
  id := id
  escrowId := o.escrowId
  fromAccount := o.fromAccount
  toAccount := o.toAccount
  agent := o.agent
  ratificationDeadline := o.ratificationDeadline
  escrowExpiration := o.escrowExpiration
  tsdBalance := o.tsdAmount
  tmeBalance := o.tmeAmount
  pendingFee := o.fee

theorem adjustBalance_escrows {name : Name} {delta : Asset} :
    ⦃⌜True⌝⦄ d.adjustBalance name delta ⦃⇓? d' => ⌜d'.escrows = d.escrows⌝⦄ :=
  triple_of fun _ _ h => by
    have hcore := of_triple adjustBalance_core trivial h
    exact congrArg Core.escrows hcore

theorem EscrowTransferOperation.apply_escrows {o : EscrowTransferOperation} :
    ⦃⌜True⌝⦄ o.apply d ⦃⇓? d' => ⌜d'.escrows = d.escrows.create o.escrow⌝⦄ := by
  mvcgen [EscrowTransferOperation.apply, adjustBalance_escrows]
  all_goals
    simp only [*]
    rfl

namespace EscrowMoment

/-- What an action makes of the escrow with an id: a step of its life, or nothing. -/
structure Follows (m : EscrowMoment) (i : Nat) : Prop where
  some : ∀ entry, m.entry i = some entry → ∃ e, m.before.escrow i = some e ∧
    e.Step entry.time entry.event (m.after.escrow i) entry.payments
  none : m.entry i = none → m.after.escrow i = m.before.escrow i

theorem follows_acts {a : EscrowAction} {e : Escrow} {event : EscrowEvent} {ps : List Payment}
    (h : Acts d d' e event ps) (hevent : ∀ i, a.event d i = if e.id = i then some event else none)
    (hpay : a.payments d = ps.map (e.id, ·)) (i : Nat) : Follows ⟨d, a, d'⟩ i := by
  obtain ⟨e', hstep, hrows⟩ := h.step
  constructor
  · intro entry hentry
    obtain ⟨event', hevent', rfl⟩ := Option.map_eq_some_iff.1 hentry
    rw [hevent] at hevent'
    split at hevent'
    · next hi =>
      cases hevent'
      subst hi
      refine ⟨e, h.row, ?_⟩
      have hfilter : ((a.payments d).filter (·.1 = e.id)).map (·.2) = ps := by
        rw [hpay, List.filter_map, List.map_map]
        simp [Function.comp_def]
      simp only [hrows, if_pos, hfilter]
      exact hstep
    · cases hevent'
  · intro hnone
    have hi := Option.map_eq_none_iff.1 hnone
    rw [hevent] at hi
    split at hi
    · cases hi
    · next hne =>
      exact (hrows i).trans (if_neg (Ne.symm hne))

/- The payments tagged with the id of one of the escrows. -/
theorem filter_tagged {f : Escrow → List Payment} {l : List Escrow} {e : Escrow}
    (hl : (l.map (·.id)).Nodup) (he : e ∈ l) :
    ((l.flatMap fun x => (f x).map (x.id, ·)).filter (·.1 = e.id)).map (·.2) = f e := by
  have hother (x : Escrow) (hx : x.id ≠ e.id) :
      (((f x).map (x.id, ·)).filter (·.1 = e.id)).map (·.2) = [] := by
    rw [List.filter_map, List.map_map]
    simp [Function.comp_def, hx]
  have hnone (l : List Escrow) (hl : e.id ∉ l.map (·.id)) :
      ((l.flatMap fun x => (f x).map (x.id, ·)).filter (·.1 = e.id)).map (·.2) = [] := by
    rw [List.filter_flatMap, List.map_flatMap, List.flatMap_eq_nil_iff]
    intro x hx
    exact hother x fun hxe => hl (hxe ▸ List.mem_map_of_mem hx)
  obtain ⟨pre, post, rfl⟩ := List.append_of_mem he
  rw [List.map_append, List.map_cons, List.nodup_middle, List.nodup_cons, List.mem_append] at hl
  rw [List.flatMap_append, List.flatMap_cons, List.filter_append, List.filter_append,
    List.map_append, List.map_append, hnone pre fun h => hl.1 (Or.inl h),
    hnone post fun h => hl.1 (Or.inr h), List.filter_map, List.map_map]
  simp [Function.comp_def]

theorem expiring_nodup (hk : d.escrows.Keyed (·.id)) : (d.expiring.map (·.id)).Nodup := by
  have hperm := List.perm_insertionSort (fun a b : Escrow =>
    a.ratificationDeadline < b.ratificationDeadline ∨
      a.ratificationDeadline = b.ratificationDeadline ∧ a.id ≤ b.id)
    (d.escrows.rows.filter fun e =>
      !e.isApproved && decide (e.ratificationDeadline ≤ d.headBlockTime))
  exact (hperm.map (·.id)).nodup_iff.2 (hk.nodup.sublist (List.filter_sublist.map _))

/-- The timer refunds every escrow it finds, once. -/
theorem follows_expire (hk : d.escrows.Keyed (·.id)) (h : d.expireEscrowRatification = .ok d')
    (i : Nat) : Follows ⟨d, .expire, d'⟩ i := by
  obtain ⟨-, -, -, hrows⟩ := refundEscrows_ok hk h
  constructor
  · intro entry hentry
    obtain ⟨event, hevent, rfl⟩ := Option.map_eq_some_iff.1 hentry
    rw [EscrowAction.event] at hevent
    split at hevent
    · next hi =>
      cases hevent
      obtain ⟨e, he, rfl⟩ := List.mem_map.1 hi
      obtain ⟨hmem, happroved, htime⟩ := mem_expiring.1 he
      have hgone : d'.escrow e.id = none := (hrows e.id).trans (if_pos hi)
      refine ⟨e, hk.row_iff.2 ⟨hmem, rfl⟩, ?_⟩
      have hpayments := filter_tagged (f := Escrow.refund) (expiring_nodup hk) he
      simp only [EscrowAction.payments, hpayments, hgone]
      exact .expire happroved htime
    · cases hevent
  · intro hnone
    have hi := Option.map_eq_none_iff.1 hnone
    rw [EscrowAction.event] at hi
    split at hi
    · cases hi
    · next hne => exact (hrows i).trans (if_neg hne)

end EscrowMoment

/- What an action keeps of the table of escrows, and what it makes of each. -/
structure EscrowMoment.Sound (m : EscrowMoment) : Prop where
  keyed : m.after.escrows.Keyed (·.id)
  nextId : m.before.escrows.nextId ≤ m.after.escrows.nextId
  executed : m.Executed
  follows : ∀ i < m.before.escrows.nextId, m.Follows i

open EscrowMoment

theorem EscrowMoment.sound_of_acts {a : EscrowAction} {e : Escrow} {event : EscrowEvent}
    {ps : List Payment} (h : Acts d d' e event ps)
    (hevent : ∀ i, a.event d i = if e.id = i then some event else none)
    (hpay : a.payments d = ps.map (e.id, ·))
    (hexecuted : Pays d d' ((a.payments d).map (·.2)) → Executed ⟨d, a, d'⟩) :
    Sound ⟨d, a, d'⟩ where
  keyed := h.keyed
  nextId := Nat.le_of_eq h.nextId.symm
  executed := hexecuted (by
    rw [hpay, List.map_map]
    simpa [Function.comp_def] using h.pays)
  follows i _ := follows_acts h hevent hpay i

/-- Every action takes the escrows it is about a step further and leaves the others. -/
theorem EscrowAction.sound {a : EscrowAction} (hk : d.escrows.Keyed (·.id))
    (h : a.Happens d d') : Sound ⟨d, a, d'⟩ := by
  cases a with
  | transfer o =>
    have hescrows := of_triple EscrowTransferOperation.apply_escrows trivial h.2
    exact {
      keyed := hescrows ▸ hk.create rfl
      nextId := by
        simp only [hescrows]
        exact Nat.le_succ _
      executed := trivial
      follows := by
        intro i hi
        refine ⟨nofun, fun _ => ?_⟩
        unfold escrow
        rw [hescrows, hk.row_create rfl, if_neg (Nat.ne_of_lt hi)] }
  | approve o =>
    obtain ⟨e, hfind, hacts⟩ := EscrowApproveOperation.acts hk h.1 h.2
    refine sound_of_acts hacts (fun i => ?_) ?_ id
    · simp [EscrowAction.event, hfind]
    · simp [EscrowAction.payments, hfind]
  | dispute o =>
    obtain ⟨e, hfind, hacts⟩ := EscrowDisputeOperation.acts hk h.2
    refine sound_of_acts hacts (fun i => ?_) rfl id
    simp [EscrowAction.event, hfind]
  | release o =>
    obtain ⟨e, hfind, hacts⟩ := EscrowReleaseOperation.acts hk h.1 h.2
    refine sound_of_acts hacts (fun i => ?_) ?_ id
    · simp [EscrowAction.event, hfind]
    · simp [EscrowAction.payments, hfind]
  | expire =>
    obtain ⟨hpays, hk', hnext, -⟩ := refundEscrows_ok hk h
    exact {
      keyed := hk'
      nextId := Nat.le_of_eq hnext.symm
      executed := by
        have hpayments : (EscrowAction.payments d .expire).map (·.2) =
            d.expiring.flatMap (·.refund) := by
          rw [EscrowAction.payments, List.map_flatMap]
          simp [Function.comp_def]
        unfold Executed
        simp only [hpayments]
        exact hpays
      follows := fun i _ => follows_expire hk h i }
  | other =>
    have hescrows : d'.escrows = d.escrows := h
    exact {
      keyed := hescrows ▸ hk
      nextId := Nat.le_of_eq (congrArg Table.nextId hescrows).symm
      executed := trivial
      follows := by
        intro i _
        refine ⟨nofun, fun _ => ?_⟩
        unfold escrow
        rw [hescrows] }

namespace EscrowRun

variable {d₀ d₁ d₂ : Database} {hist past future : List EscrowMoment}

/-- Along a run the ids stay unique, and the payments are made. -/
theorem sound (hk : d₀.escrows.Keyed (·.id)) (h : EscrowRun d₀ hist d) :
    d.escrows.Keyed (·.id) ∧ d₀.escrows.nextId ≤ d.escrows.nextId ∧ ∀ m ∈ hist, m.Executed := by
  induction h with
  | start => exact ⟨hk, Nat.le_refl _, fun m hm => absurd hm List.not_mem_nil⟩
  | step _ ha ih =>
    obtain ⟨hkeyed, hnext, hexecuted⟩ := ih
    have hsound := EscrowAction.sound hkeyed ha
    refine ⟨hsound.keyed, Nat.le_trans hnext hsound.nextId, ?_⟩
    intro m hm
    rcases List.mem_append.1 hm with hm | hm
    · exact hexecuted m hm
    · obtain rfl := List.mem_singleton.1 hm
      exact hsound.executed

/-- The run takes every escrow through its life. -/
theorem life {i : Nat} {e₀ : Escrow} (hk : d₀.escrows.Keyed (·.id))
    (hi : i < d₀.escrows.nextId) (he : d₀.escrow i = some e₀) (h : EscrowRun d₀ hist d) :
    EscrowLife e₀ (hist.filterMap (·.entry i)) (d.escrow i) := by
  induction h with
  | start =>
    rw [he]
    exact .created
  | @step hist d d' a hrun ha ih =>
    obtain ⟨hkeyed, hnext, -⟩ := sound hk hrun
    have hfollows := (EscrowAction.sound hkeyed ha).follows i (Nat.lt_of_lt_of_le hi hnext)
    rw [List.filterMap_append, List.filterMap_cons, List.filterMap_nil]
    cases hentry : entry ⟨d, a, d'⟩ i with
    | none =>
      rw [List.append_nil]
      have hsame : d'.escrow i = d.escrow i := hfollows.none hentry
      rw [hsame]
      exact ih
    | some entry =>
      obtain ⟨e, hrow, hstep⟩ := hfollows.some entry hentry
      have hrow : d.escrow i = some e := hrow
      rw [hrow] at ih
      exact .step ih hstep

theorem created_kept {o : EscrowTransferOperation} (hv : o.validate = .ok ()) (i : Nat) :
    EscrowLife.Kept (o.escrow i) [] (o.escrow i) := by
  unfold EscrowTransferOperation.validate at hv
  obtain ⟨_, -, hv⟩ := bind_ok.1 hv
  obtain ⟨_, -, hv⟩ := bind_ok.1 hv
  obtain ⟨_, -, hv⟩ := bind_ok.1 hv
  obtain ⟨_, -, hv⟩ := bind_ok.1 hv
  obtain ⟨_, -, hv⟩ := bind_ok.1 hv
  obtain ⟨_, -, hv⟩ := bind_ok.1 hv
  obtain ⟨_, -, hv⟩ := bind_ok.1 hv
  obtain ⟨_, -, hv⟩ := bind_ok.1 hv
  obtain ⟨_, -, hv⟩ := bind_ok.1 hv
  obtain ⟨_, htsd, hv⟩ := bind_ok.1 hv
  obtain ⟨_, htme, hv⟩ := bind_ok.1 hv
  exact .created rfl rfl rfl (require_ok htme) (require_ok htsd)

/-- In every order of the actions an escrow settles its fee and its funds, and releases are made by
those permitted to make them. -/
theorem escrow_settled {o : EscrowTransferOperation} (hempty : d₀.escrows = {})
    (hpast : EscrowRun d₀ past d₁) (hcreated : (EscrowAction.transfer o).Happens d₁ d₂)
    (hfuture : EscrowRun d₂ future d) :
    let i := d₁.escrows.nextId
    let hist := future.filterMap (·.entry i)
    EscrowLife.Settled (o.escrow i) hist (d.escrow i) ∧
      EscrowLife.Permitted (o.escrow i) hist ∧ ∀ m ∈ future, m.Executed := by
  intro i hist
  obtain ⟨hkeyed, -, -⟩ := sound (hempty ▸ Table.Keyed.empty) hpast
  have hescrows := of_triple EscrowTransferOperation.apply_escrows trivial hcreated.2
  have hkeyed₂ : d₂.escrows.Keyed (·.id) := hescrows ▸ hkeyed.create rfl
  have hrow : d₂.escrow i = some (o.escrow i) := by
    unfold escrow
    rw [hescrows, hkeyed.row_create rfl, if_pos rfl]
  have hi : i < d₂.escrows.nextId := by
    rw [hescrows]
    exact Nat.lt_succ_self _
  have hlife := life hkeyed₂ hi hrow hfuture
  have hkept := created_kept hcreated.1 i
  exact ⟨EscrowLife.settled hkept hlife, EscrowLife.permitted hkept hlife,
    (sound hkeyed₂ hfuture).2.2⟩

/- An escrow that is approved and released. -/
def demoTransfer : EscrowTransferOperation where
  fromAccount := genesisAccountName 1
  toAccount := genesisAccountName 2
  agent := genesisAccountName 3
  escrowId := 30
  tsdAmount := .usd 0
  tmeAmount := .coin 5
  fee := .coin 1
  ratificationDeadline := genesisTime + 60
  escrowExpiration := genesisTime + 120
  json := { size := 0 }

def demoApprove (who : Name) : EscrowApproveOperation where
  fromAccount := genesisAccountName 1
  toAccount := genesisAccountName 2
  agent := genesisAccountName 3
  who := who
  escrowId := 30
  approve := true

def demoRelease : EscrowReleaseOperation where
  fromAccount := genesisAccountName 1
  toAccount := genesisAccountName 2
  agent := genesisAccountName 3
  who := genesisAccountName 1
  receiver := genesisAccountName 2
  escrowId := 30
  tsdAmount := .usd 0
  tmeAmount := .coin 5

theorem demo_succeeds :
    (do
      demoTransfer.validate
      let d ← demoTransfer.apply (initGenesis initSupply)
      (demoApprove (genesisAccountName 2)).validate
      let d ← (demoApprove (genesisAccountName 2)).apply d
      (demoApprove (genesisAccountName 3)).validate
      let d ← (demoApprove (genesisAccountName 3)).apply d
      demoRelease.validate
      let d ← demoRelease.apply d
      return (d.escrow 0).isNone) = .ok true := by
  decide

theorem escrow_settled_demo : ∃ hist, EscrowLife.Settled (demoTransfer.escrow 0) hist none ∧
    EscrowLife.Permitted (demoTransfer.escrow 0) hist := by
  obtain ⟨_, hv₁, h⟩ := bind_ok.1 demo_succeeds
  obtain ⟨d₁, h₁, h⟩ := bind_ok.1 h
  obtain ⟨_, hv₂, h⟩ := bind_ok.1 h
  obtain ⟨d₂, h₂, h⟩ := bind_ok.1 h
  obtain ⟨_, hv₃, h⟩ := bind_ok.1 h
  obtain ⟨d₃, h₃, h⟩ := bind_ok.1 h
  obtain ⟨_, hv₄, h⟩ := bind_ok.1 h
  obtain ⟨d₄, h₄, h⟩ := bind_ok.1 h
  have hgone : d₄.escrow 0 = none := by simpa using Except.ok.inj h
  have hrun : EscrowRun d₁ _ d₄ := .step (a := .release demoRelease) (.step (a := .approve _)
    (.step (a := .approve _) .start ⟨hv₂, h₂⟩) ⟨hv₃, h₃⟩) ⟨hv₄, h₄⟩
  obtain ⟨hsettled, hpermitted, -⟩ := escrow_settled (o := demoTransfer)
    (show (initGenesis initSupply).escrows = {} from rfl) .start ⟨hv₁, h₁⟩ hrun
  have hzero : (initGenesis initSupply).escrows.nextId = 0 := rfl
  rw [hzero] at hsettled hpermitted
  rw [hgone] at hsettled
  exact ⟨_, hsettled, hpermitted⟩

end EscrowRun

end WeNode.Chain
