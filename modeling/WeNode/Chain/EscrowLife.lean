import WeNode.Chain.Objects

/-!
# The life of an escrow

What may happen to an escrow, what each event makes of it and what it pays.  The fee goes to the
agent when the second party approves, or back with the rest.
-/

namespace WeNode.Chain

/- A payment out of an escrow, of its fee or of the funds deposited. -/
structure Payment where
  isFee : Bool
  receiver : Name
  amount : Asset
deriving DecidableEq

inductive EscrowEvent where
  | approve (who : Name) (approve : Bool)
  | dispute
  | release (who receiver : Name) (tme tsd : Asset)
  | expire
deriving DecidableEq

namespace Escrow

variable (now : Time) (e : Escrow)

def refund : List Payment :=
  [⟨false, e.fromAccount, e.tmeBalance⟩, ⟨false, e.fromAccount, e.tsdBalance⟩,
    ⟨true, e.fromAccount, e.pendingFee⟩]

/- The escrow with the approval of one party more. -/
def approvedBy (who : Name) : Escrow :=
  { e with
    toApproved := e.toApproved || decide (who = e.toAccount)
    agentApproved := e.agentApproved || decide (who = e.agent) }

def settleFee : Escrow := { e with pendingFee := ⟨0, e.pendingFee.symbol⟩ }

/- What an approval or a rejection pays. -/
def approvalPayments (who : Name) (approve : Bool) : List Payment :=
  if !approve then e.refund
  else if (e.approvedBy who).isApproved then [⟨true, e.agent, e.pendingFee⟩]
  else []

def withdraw (tme tsd : Int) : Escrow :=
  { e with
    tmeBalance := ⟨e.tmeBalance.amount - tme, e.tmeBalance.symbol⟩
    tsdBalance := ⟨e.tsdBalance.amount - tsd, e.tsdBalance.symbol⟩ }

/- A party that has not approved may approve or reject. -/
structure MayApprove (who : Name) : Prop where
  inTime : now ≤ e.ratificationDeadline
  party : who = e.toAccount ∨ who = e.agent
  toOnce : who = e.toAccount → e.toApproved = false
  agentOnce : who = e.agent → e.agentApproved = false

/- Who may release, and to whom, where the escrow is in dispute and where it is not. -/
structure MayRelease (disputed : Prop) (who receiver : Name) : Prop where
  party : receiver = e.fromAccount ∨ receiver = e.toAccount
  byAgent : disputed → who = e.agent
  byParty : ¬disputed → who = e.fromAccount ∨ who = e.toAccount
  toOther : ¬disputed → now < e.escrowExpiration →
    (who = e.fromAccount → receiver = e.toAccount) ∧
      (who = e.toAccount → receiver = e.fromAccount)

structure MayWithdraw (tme tsd : Asset) : Prop where
  tmeBounds : 0 ≤ tme.amount ∧ tme.amount ≤ e.tmeBalance.amount
  tsdBounds : 0 ≤ tsd.amount ∧ tsd.amount ≤ e.tsdBalance.amount
  tmeSymbol : tme.symbol = symbolCoin
  tsdSymbol : tsd.symbol = symbolUsd

/-- What an event makes of an escrow, and the payments it makes. -/
inductive Step : EscrowEvent → Option Escrow → List Payment → Prop where
  | reject {who : Name} (h : MayApprove now e who) : Step (.approve who false) none e.refund
  | approve {who : Name} (h : MayApprove now e who) (hone : (e.approvedBy who).isApproved = false) :
    Step (.approve who true) (some (e.approvedBy who)) []
  | ratify {who : Name} (h : MayApprove now e who) (hboth : (e.approvedBy who).isApproved = true) :
    Step (.approve who true) (some (e.approvedBy who).settleFee) [⟨true, e.agent, e.pendingFee⟩]
  | dispute (happroved : e.isApproved = true) (hdisputed : e.disputed = false)
      (htime : now < e.escrowExpiration) : Step .dispute (some { e with disputed := true }) []
  | release {who receiver : Name} {tme tsd : Asset} (happroved : e.isApproved = true)
      (h : MayRelease now e (e.disputed = true) who receiver) (hw : MayWithdraw e tme tsd) :
    Step (.release who receiver tme tsd) (some (e.withdraw tme.amount tsd.amount))
      [⟨false, receiver, tme⟩, ⟨false, receiver, tsd⟩]
  | finish {who receiver : Name} {tme tsd : Asset} (happroved : e.isApproved = true)
      (h : MayRelease now e (e.disputed = true) who receiver) (hw : MayWithdraw e tme tsd)
      (htme : tme.amount = e.tmeBalance.amount) (htsd : tsd.amount = e.tsdBalance.amount) :
    Step (.release who receiver tme tsd) none [⟨false, receiver, tme⟩, ⟨false, receiver, tsd⟩]
  | expire (happroved : e.isApproved = false) (htime : e.ratificationDeadline ≤ now) :
    Step .expire none e.refund

end Escrow

/- An event of the history of an escrow. -/
structure EscrowEntry where
  time : Time
  event : EscrowEvent
  payments : List Payment

/-- The histories of an escrow, each with what is left of it at its end. -/
inductive EscrowLife (e₀ : Escrow) : List EscrowEntry → Option Escrow → Prop where
  | created : EscrowLife e₀ [] (some e₀)
  | step {hist : List EscrowEntry} {e : Escrow} {e' : Option Escrow} {entry : EscrowEntry} :
    EscrowLife e₀ hist (some e) → e.Step entry.time entry.event e' entry.payments →
      EscrowLife e₀ (hist ++ [entry]) e'

namespace EscrowLife

/- The payments of the fee. -/
def fees (hist : List EscrowEntry) : List Payment :=
  (hist.flatMap (·.payments)).filter (·.isFee)

/- The funds paid out. -/
def funds (hist : List EscrowEntry) : List Payment :=
  (hist.flatMap (·.payments)).filter (!·.isFee)

def total (symbol : Nat) (ps : List Payment) : Int :=
  ((ps.filter (·.amount.symbol = symbol)).map (·.amount.amount)).sum

def ApprovedBy (who : Name) (hist : List EscrowEntry) : Prop :=
  ∃ entry ∈ hist, entry.event = .approve who true

def Disputed (hist : List EscrowEntry) : Prop := ∃ entry ∈ hist, entry.event = .dispute

/-- The fee is paid once, to the agent when both parties have approved and back otherwise; the
funds are paid in full. -/
structure Settled (e₀ : Escrow) (hist : List EscrowEntry) (e : Option Escrow) : Prop where
  paid : ApprovedBy e₀.toAccount hist → ApprovedBy e₀.agent hist →
    fees hist = [⟨true, e₀.agent, e₀.pendingFee⟩]
  returned : ¬(ApprovedBy e₀.toAccount hist ∧ ApprovedBy e₀.agent hist) →
    fees hist = if e.isSome then [] else [⟨true, e₀.fromAccount, e₀.pendingFee⟩]
  tme : total symbolCoin (funds hist) + (e.map (·.tmeBalance.amount)).getD 0 =
    e₀.tmeBalance.amount
  tsd : total symbolUsd (funds hist) + (e.map (·.tsdBalance.amount)).getD 0 =
    e₀.tsdBalance.amount
  receivers : ∀ p ∈ funds hist, p.receiver = e₀.fromAccount ∨ p.receiver = e₀.toAccount

/-- Funds are released after both approvals, by those whom the history allows to. -/
def Permitted (e₀ : Escrow) (hist : List EscrowEntry) : Prop :=
  ∀ pre entry post who receiver tme tsd, hist = pre ++ entry :: post →
    entry.event = .release who receiver tme tsd →
      ApprovedBy e₀.toAccount pre ∧ ApprovedBy e₀.agent pre ∧
        e₀.MayRelease entry.time (Disputed pre) who receiver

/- What a history makes of an escrow that is still there. -/
structure Kept (e₀ : Escrow) (hist : List EscrowEntry) (e : Escrow) : Prop where
  fromAccount : e.fromAccount = e₀.fromAccount
  toAccount : e.toAccount = e₀.toAccount
  agent : e.agent = e₀.agent
  escrowExpiration : e.escrowExpiration = e₀.escrowExpiration
  tmeSymbol : e.tmeBalance.symbol = symbolCoin
  tsdSymbol : e.tsdBalance.symbol = symbolUsd
  toApproved : e.toApproved = true ↔ ApprovedBy e₀.toAccount hist
  agentApproved : e.agentApproved = true ↔ ApprovedBy e₀.agent hist
  disputed : e.disputed = true ↔ Disputed hist
  pending : e.isApproved = false → e.pendingFee = e₀.pendingFee
  paidFees : fees hist = if e.isApproved then [⟨true, e₀.agent, e₀.pendingFee⟩] else []
  untouched : e.isApproved = false → funds hist = []
  tme : total symbolCoin (funds hist) + e.tmeBalance.amount = e₀.tmeBalance.amount
  tsd : total symbolUsd (funds hist) + e.tsdBalance.amount = e₀.tsdBalance.amount
  receivers : ∀ p ∈ funds hist, p.receiver = e₀.fromAccount ∨ p.receiver = e₀.toAccount

def After (e₀ : Escrow) (hist : List EscrowEntry) : Option Escrow → Prop
  | some e => Kept e₀ hist e
  | none => Settled e₀ hist none

section

variable {e₀ e : Escrow} {e' : Option Escrow} {hist : List EscrowEntry} {entry : EscrowEntry}
  {who : Name}

theorem fees_concat : fees (hist ++ [entry]) = fees hist ++ entry.payments.filter (·.isFee) := by
  simp [fees]

theorem funds_concat :
    funds (hist ++ [entry]) = funds hist ++ entry.payments.filter (!·.isFee) := by
  simp [funds]

theorem total_append (symbol : Nat) (ps qs : List Payment) :
    total symbol (ps ++ qs) = total symbol ps + total symbol qs := by
  simp [total]

theorem approvedBy_concat : ApprovedBy who (hist ++ [entry]) ↔
    ApprovedBy who hist ∨ entry.event = .approve who true := by
  simp [ApprovedBy, or_and_right, exists_or]

theorem disputed_concat :
    Disputed (hist ++ [entry]) ↔ Disputed hist ∨ entry.event = .dispute := by
  simp [Disputed, or_and_right, exists_or]

namespace Kept

/- An approval is possible only before both are there. -/
theorem notApproved {now : Time} (h : e.MayApprove now who) : e.isApproved = false := by
  unfold Escrow.isApproved
  rcases h.party with hto | hagent
  · rw [h.toOnce hto, Bool.false_and]
  · rw [h.agentOnce hagent, Bool.and_false]

theorem created (hto : e₀.toApproved = false) (hagent : e₀.agentApproved = false)
    (hdisputed : e₀.disputed = false) (htme : e₀.tmeBalance.symbol = symbolCoin)
    (htsd : e₀.tsdBalance.symbol = symbolUsd) : Kept e₀ [] e₀ := by
  constructor <;> simp [ApprovedBy, Disputed, fees, funds, total, Escrow.isApproved, *]

theorem approvedBy (h : Kept e₀ hist e) (hevent : entry.event = .approve who true) :
    ((e.approvedBy who).toApproved = true ↔ ApprovedBy e₀.toAccount (hist ++ [entry])) ∧
      ((e.approvedBy who).agentApproved = true ↔ ApprovedBy e₀.agent (hist ++ [entry])) ∧
      (e.disputed = true ↔ Disputed (hist ++ [entry])) := by
  simp only [Escrow.approvedBy, Bool.or_eq_true, decide_eq_true_eq, approvedBy_concat,
    disputed_concat, hevent, h.toApproved, h.agentApproved, h.disputed, h.toAccount, h.agent,
    EscrowEvent.approve.injEq, and_true, reduceCtorEq, or_false, and_self]

/- Another event changes no approval. -/
theorem approvals (h : Kept e₀ hist e) (hevent : ∀ who, entry.event ≠ .approve who true) :
    (e.toApproved = true ↔ ApprovedBy e₀.toAccount (hist ++ [entry])) ∧
      (e.agentApproved = true ↔ ApprovedBy e₀.agent (hist ++ [entry])) := by
  simp only [approvedBy_concat, h.toApproved, h.agentApproved, hevent, or_false, and_self]

theorem isApproved_iff (h : Kept e₀ hist e) :
    e.isApproved = true ↔ ApprovedBy e₀.toAccount hist ∧ ApprovedBy e₀.agent hist := by
  rw [Escrow.isApproved, Bool.and_eq_true, h.toApproved, h.agentApproved]

theorem settled (h : Kept e₀ hist e) : Settled e₀ hist (some e) := by
  constructor
  · intro hto hagent
    rw [h.paidFees, if_pos (h.isApproved_iff.2 ⟨hto, hagent⟩)]
  · intro hnot
    rw [h.paidFees, if_neg fun hboth => hnot (h.isApproved_iff.1 hboth)]
    rfl
  · exact h.tme
  · exact h.tsd
  · exact h.receivers

/-- What is not approved goes back as it was deposited. -/
theorem refunded (h : Kept e₀ hist e) (happroved : e.isApproved = false)
    (hevent : ∀ who, entry.event ≠ .approve who true) (hpayments : entry.payments = e.refund) :
    Settled e₀ (hist ++ [entry]) none := by
  have hnot : ¬(ApprovedBy e₀.toAccount (hist ++ [entry]) ∧
      ApprovedBy e₀.agent (hist ++ [entry])) := by
    obtain ⟨hto, hagent⟩ := h.approvals hevent
    rw [← hto, ← hagent, ← Bool.and_eq_true]
    exact Bool.eq_false_iff.1 happroved
  have hfees : fees (hist ++ [entry]) = [⟨true, e₀.fromAccount, e₀.pendingFee⟩] := by
    rw [fees_concat, h.paidFees, happroved, hpayments, ← h.fromAccount, ← h.pending happroved]
    rfl
  have hfunds : funds (hist ++ [entry]) =
      [⟨false, e₀.fromAccount, e.tmeBalance⟩, ⟨false, e₀.fromAccount, e.tsdBalance⟩] := by
    rw [funds_concat, h.untouched happroved, hpayments, ← h.fromAccount]
    rfl
  have hsymbols : symbolCoin ≠ symbolUsd := by decide
  have htme := h.tme
  have htsd := h.tsd
  rw [h.untouched happroved] at htme htsd
  constructor
  · exact fun hto hagent => absurd ⟨hto, hagent⟩ hnot
  · exact fun _ => hfees
  · rw [hfunds, ← htme]
    simp [total, h.tmeSymbol, h.tsdSymbol, hsymbols.symm]
  · rw [hfunds, ← htsd]
    simp [total, h.tmeSymbol, h.tsdSymbol, hsymbols]
  · intro p hp
    rw [hfunds] at hp
    simp only [List.mem_cons, List.not_mem_nil, or_false] at hp
    rcases hp with rfl | rfl
    · exact Or.inl rfl
    · exact Or.inl rfl

/- A release pays one party, and leaves the fee. -/
theorem released (h : Kept e₀ hist e) {receiver : Name} {tme tsd : Asset} {disputed : Prop}
    (happroved : e.isApproved = true) (hrelease : e.MayRelease entry.time disputed who receiver)
    (hw : e.MayWithdraw tme tsd)
    (hpayments : entry.payments = [⟨false, receiver, tme⟩, ⟨false, receiver, tsd⟩]) :
    fees (hist ++ [entry]) = [⟨true, e₀.agent, e₀.pendingFee⟩] ∧
      total symbolCoin (funds (hist ++ [entry])) = total symbolCoin (funds hist) + tme.amount ∧
      total symbolUsd (funds (hist ++ [entry])) = total symbolUsd (funds hist) + tsd.amount ∧
      ∀ p ∈ funds (hist ++ [entry]), p.receiver = e₀.fromAccount ∨ p.receiver = e₀.toAccount := by
  have hfunds : funds (hist ++ [entry]) =
      funds hist ++ [⟨false, receiver, tme⟩, ⟨false, receiver, tsd⟩] := by
    rw [funds_concat, hpayments]
    rfl
  have hsymbols : symbolCoin ≠ symbolUsd := by decide
  refine ⟨?_, ?_, ?_, ?_⟩
  · rw [fees_concat, hpayments, h.paidFees, if_pos happroved]
    rfl
  · rw [hfunds, total_append]
    simp [total, hw.tmeSymbol, hw.tsdSymbol, hsymbols.symm]
  · rw [hfunds, total_append]
    simp [total, hw.tmeSymbol, hw.tsdSymbol, hsymbols]
  · intro p hp
    rw [hfunds, List.mem_append] at hp
    rcases hp with hp | hp
    · exact h.receivers p hp
    · have hparty := hrelease.party
      rw [h.fromAccount, h.toAccount] at hparty
      simp only [List.mem_cons, List.not_mem_nil, or_false] at hp
      rcases hp with rfl | rfl
      · exact hparty
      · exact hparty

/- An event that pays no funds changes the approvals, the dispute and the fee alone. -/
theorem unpaid (h : Kept e₀ hist e) {e₁ : Escrow}
    (hsame : { e₁ with
      pendingFee := e.pendingFee
      toApproved := e.toApproved
      agentApproved := e.agentApproved
      disputed := e.disputed } = e)
    (hpayments : entry.payments.filter (!·.isFee) = [])
    (hto : e₁.toApproved = true ↔ ApprovedBy e₀.toAccount (hist ++ [entry]))
    (hagent : e₁.agentApproved = true ↔ ApprovedBy e₀.agent (hist ++ [entry]))
    (hdisputed : e₁.disputed = true ↔ Disputed (hist ++ [entry]))
    (hpending : e₁.isApproved = false → e₁.pendingFee = e₀.pendingFee)
    (hfees : fees (hist ++ [entry]) =
      if e₁.isApproved then [⟨true, e₀.agent, e₀.pendingFee⟩] else [])
    (hbefore : e₁.isApproved = false → e.isApproved = false) :
    Kept e₀ (hist ++ [entry]) e₁ := by
  have hfunds : funds (hist ++ [entry]) = funds hist := by
    rw [funds_concat, hpayments, List.append_nil]
  have hfrom : e₁.fromAccount = e.fromAccount := by rw [← hsame]
  have hreceiver : e₁.toAccount = e.toAccount := by rw [← hsame]
  have hagency : e₁.agent = e.agent := by rw [← hsame]
  have hexpiration : e₁.escrowExpiration = e.escrowExpiration := by rw [← hsame]
  have htme : e₁.tmeBalance = e.tmeBalance := by rw [← hsame]
  have htsd : e₁.tsdBalance = e.tsdBalance := by rw [← hsame]
  exact {
    fromAccount := hfrom.trans h.fromAccount
    toAccount := hreceiver.trans h.toAccount
    agent := hagency.trans h.agent
    escrowExpiration := hexpiration.trans h.escrowExpiration
    tmeSymbol := htme ▸ h.tmeSymbol
    tsdSymbol := htsd ▸ h.tsdSymbol
    toApproved := hto
    agentApproved := hagent
    disputed := hdisputed
    pending := hpending
    paidFees := hfees
    untouched := fun hnot => hfunds.trans (h.untouched (hbefore hnot))
    tme := by rw [hfunds, htme, h.tme]
    tsd := by rw [hfunds, htsd, h.tsd]
    receivers := hfunds.symm ▸ h.receivers }

/-- One event keeps an escrow that is left, and settles one that is gone. -/
theorem step (h : Kept e₀ hist e)
    (hstep : e.Step entry.time entry.event e' entry.payments) :
    After e₀ (hist ++ [entry]) e' := by
  generalize hevent : entry.event = event at hstep
  generalize hpayments : entry.payments = payments at hstep
  cases hstep with
  | reject hmay => exact h.refunded (notApproved hmay) (by simp [hevent]) hpayments
  | approve hmay hone =>
    obtain ⟨hto, hagent, hdisputed⟩ := h.approvedBy hevent
    have hbefore := notApproved hmay
    refine h.unpaid rfl (by rw [hpayments]; rfl) hto hagent hdisputed ?_ ?_ ?_
    · exact fun _ => h.pending hbefore
    · rw [fees_concat, h.paidFees, hpayments, hbefore, hone]
      rfl
    · exact fun _ => hbefore
  | ratify hmay hboth =>
    obtain ⟨hto, hagent, hdisputed⟩ := h.approvedBy hevent
    have hbefore := notApproved hmay
    refine h.unpaid rfl (by rw [hpayments]; rfl) hto hagent hdisputed ?_ ?_ ?_
    · exact fun hnot => absurd (hboth.symm.trans hnot) (by decide)
    · rw [fees_concat, h.paidFees, hpayments, hbefore, ← h.agent, ← h.pending hbefore]
      exact (if_pos hboth).symm
    · exact fun _ => hbefore
  | dispute happroved =>
    obtain ⟨hto, hagent⟩ := h.approvals fun who =>
      (by simp [hevent] : entry.event ≠ .approve who true)
    refine h.unpaid rfl (by rw [hpayments]; rfl) hto hagent ?_ ?_ ?_ ?_
    · simp [disputed_concat, hevent]
    · exact fun hnot => absurd (happroved.symm.trans hnot) (by decide)
    · rw [fees_concat, h.paidFees, hpayments, if_pos happroved]
      exact (if_pos happroved).symm
    · exact fun hnot => hnot
  | @release who receiver tme tsd happroved hrelease hw =>
    obtain ⟨hfees, htme, htsd, hreceivers⟩ := h.released happroved hrelease hw hpayments
    obtain ⟨hto, hagent⟩ := h.approvals fun who =>
      (by simp [hevent] : entry.event ≠ .approve who true)
    exact {
      fromAccount := h.fromAccount
      toAccount := h.toAccount
      agent := h.agent
      escrowExpiration := h.escrowExpiration
      tmeSymbol := h.tmeSymbol
      tsdSymbol := h.tsdSymbol
      toApproved := hto
      agentApproved := hagent
      disputed := by
        rw [disputed_concat, hevent, ← h.disputed]
        simp [Escrow.withdraw]
      pending := fun hnot => absurd (happroved.symm.trans hnot) (by decide)
      paidFees := hfees.trans (if_pos happroved).symm
      untouched := fun hnot => absurd (happroved.symm.trans hnot) (by decide)
      tme := by
        rw [htme, ← h.tme]
        simp only [Escrow.withdraw]
        omega
      tsd := by
        rw [htsd, ← h.tsd]
        simp only [Escrow.withdraw]
        omega
      receivers := hreceivers }
  | @finish who receiver tme tsd happroved hrelease hw hall hall' =>
    obtain ⟨hfees, htme, htsd, hreceivers⟩ := h.released happroved hrelease hw hpayments
    obtain ⟨hto, hagent⟩ := h.approvals fun who =>
      (by simp [hevent] : entry.event ≠ .approve who true)
    constructor
    · exact fun _ _ => hfees
    · rw [← hto, ← hagent, ← Bool.and_eq_true]
      exact fun hnot => absurd happroved hnot
    · rw [htme, hall, ← h.tme]
      exact Int.add_zero _
    · rw [htsd, hall', ← h.tsd]
      exact Int.add_zero _
    · exact hreceivers
  | expire happroved => exact h.refunded happroved (by simp [hevent]) hpayments

end Kept

/-- Over its life an escrow keeps its terms, and is settled. -/
theorem kept (h₀ : Kept e₀ [] e₀) (h : EscrowLife e₀ hist e') : After e₀ hist e' := by
  induction h with
  | created => exact h₀
  | step _ hstep ih => exact Kept.step ih hstep

theorem settled (h₀ : Kept e₀ [] e₀) (h : EscrowLife e₀ hist e') : Settled e₀ hist e' := by
  have hkept := kept h₀ h
  cases e' with
  | some e => exact Kept.settled hkept
  | none => exact hkept

/-- Every release of a life was permitted when it took place. -/
theorem permitted (h₀ : Kept e₀ [] e₀) (h : EscrowLife e₀ hist e') : Permitted e₀ hist := by
  induction h with
  | created =>
    intro pre entry post who receiver tme tsd hsplit
    exact absurd hsplit (by simp)
  | @step hist e e' entry hlife hstep ih =>
    intro pre entry' post who receiver tme tsd hsplit hevent
    rcases List.eq_nil_or_concat' post with rfl | ⟨post, last, rfl⟩
    · obtain ⟨rfl, hlast⟩ := List.append_inj' hsplit rfl
      obtain rfl := List.singleton_inj.1 hlast
      have hkept : Kept e₀ hist e := kept h₀ hlife
      have hreleased : e.isApproved = true ∧
          e.MayRelease entry.time (e.disputed = true) who receiver := by
        rw [hevent] at hstep
        generalize entry.payments = payments at hstep
        cases hstep with
        | release happroved hrelease _ => exact ⟨happroved, hrelease⟩
        | finish happroved hrelease _ _ _ => exact ⟨happroved, hrelease⟩
      obtain ⟨happroved, hrelease⟩ := hreleased
      obtain ⟨hto, hagent⟩ := hkept.isApproved_iff.1 happroved
      refine ⟨hto, hagent, ?_, ?_, ?_, ?_⟩
      · rw [← hkept.fromAccount, ← hkept.toAccount]
        exact hrelease.party
      · rw [← hkept.agent, ← hkept.disputed]
        exact hrelease.byAgent
      · rw [← hkept.fromAccount, ← hkept.toAccount, ← hkept.disputed]
        exact hrelease.byParty
      · rw [← hkept.fromAccount, ← hkept.toAccount, ← hkept.escrowExpiration, ← hkept.disputed]
        exact hrelease.toOther
    · rw [← List.cons_append, ← List.append_assoc] at hsplit
      obtain ⟨hsplit, -⟩ := List.append_inj' hsplit rfl
      exact ih pre entry' post who receiver tme tsd hsplit hevent

end

end EscrowLife

end WeNode.Chain
