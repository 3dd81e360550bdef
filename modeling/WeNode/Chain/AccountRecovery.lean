import Mathlib
import WeNode.Chain.CoreBlocks
import WeNode.Chain.OperationRuns

/-!
# Recovery of accounts

The evaluator of `recover_account` checks no time.  What a request and an entry of the history of
owner authorities still prove depends on the purge at the end of every block.
-/

set_option mvcgen.warning false

namespace WeNode.Chain

open WeNode.Lib Std.Do Database

/- The account whose request an operation makes, changes, cancels or uses. -/
def Operation.requestFor : Operation → Option Name
  | .requestAccountRecovery op => some op.accountToRecover
  | .recoverAccount op => some op.accountToRecover
  | _ => none

/- Who may ask for the recovery of an account: its recovery account, or if it has none the top
witness. -/
def IsRecoveryAccount (d : Database) (who account : Name) : Prop :=
  ∃ a, d.getAccount account = .ok a ∧
    if a.recoveryAccount = 0 then (d.byVoteName.map (·.owner)).head? = some who
    else a.recoveryAccount = who

variable {env : Env} {hist : List (Database × Operation)} {d d' : Database} {now : Time}

/-! ### Requests -/

/-- The last operation on the request for an account asks for this authority and does not cancel; it
was made by the recovery account and not longer ago than requests last. -/
def Requested (hist : List (Database × Operation)) (now : Time) (account : Name)
    (authority : Authority) (expires : Time) : Prop :=
  ∃ pre d o post, hist = pre ++ (d, .requestAccountRecovery o) :: post ∧
    o.accountToRecover = account ∧ o.newOwnerAuthority = authority ∧
    o.newOwnerAuthority.weightThreshold ≠ 0 ∧
    IsRecoveryAccount d o.recoveryAccount account ∧
    expires = timeAdd d.headBlockTime accountRecoveryRequestExpirationPeriod ∧
    now < d.headBlockTime + accountRecoveryRequestExpirationPeriod ∧
    ∀ e ∈ post, e.2.requestFor ≠ some account

/-- What the requests say of the operations made. -/
structure RequestsKept (hist : List (Database × Operation)) (d : Database) : Prop where
  once : (d.recoveryRequests.rows.map (·.accountToRecover)).Nodup
  requested : ∀ r ∈ d.recoveryRequests.rows,
    Requested hist d.headBlockTime r.accountToRecover r.newOwnerAuthority r.expires

theorem Requested.later {account : Name} {authority : Authority} {expires : Time}
    {e : Database × Operation} (h : Requested hist now account authority expires)
    (he : e.2.requestFor ≠ some account) :
    Requested (hist ++ [e]) now account authority expires := by
  obtain ⟨pre, d, o, post, rfl, haccount, hauthority, hopen, hpartner, hexpires, hlive, hpost⟩ := h
  refine ⟨pre, d, o, post ++ [e], by simp, haccount, hauthority, hopen, hpartner, hexpires, hlive,
    ?_⟩
  intro x hx
  rcases List.mem_append.1 hx with hx | hx
  · exact hpost x hx
  · rw [List.mem_singleton.1 hx]
    exact he

/-- A request that is made or changed now. -/
theorem Requested.made {o : RequestAccountRecoveryOperation}
    (hopen : o.newOwnerAuthority.weightThreshold ≠ 0)
    (hpartner : IsRecoveryAccount d o.recoveryAccount o.accountToRecover) :
    Requested (hist ++ [(d, .requestAccountRecovery o)]) d.headBlockTime o.accountToRecover
      o.newOwnerAuthority
      (timeAdd d.headBlockTime accountRecoveryRequestExpirationPeriod) := by
  have hperiod : 0 < accountRecoveryRequestExpirationPeriod := by decide
  refine ⟨hist, d, o, [], rfl, rfl, rfl, hopen, hpartner, rfl, ?_, ?_⟩
  · exact Nat.lt_add_of_pos_right hperiod
  · intro e he
    cases he

theorem checkPartner_ok {o : RequestAccountRecoveryOperation} {u : Unit}
    (h : o.checkPartner d = .ok u) :
    IsRecoveryAccount d o.recoveryAccount o.accountToRecover := by
  obtain ⟨a, ha, h⟩ := bind_ok.1 h
  refine ⟨a, ha, ?_⟩
  split at h
  · next hrecovery =>
    rw [if_neg hrecovery]
    exact require_ok h
  · next hrecovery =>
    rw [if_pos (not_not.1 hrecovery)]
    exact require_ok h

/-- An operation makes a request, cancels the one there is, or changes it. -/
theorem RequestAccountRecoveryOperation.apply_spec {o : RequestAccountRecoveryOperation} :
    ⦃⌜True⌝⦄ o.apply d
      ⦃⇓? d' => ⌜IsRecoveryAccount d o.recoveryAccount o.accountToRecover ∧
        ((d.recoveryRequests.find (fun r => r.accountToRecover == o.accountToRecover) = none ∧
            o.newOwnerAuthority.weightThreshold ≠ 0 ∧
            d'.recoveryRequests = d.recoveryRequests.create fun id =>
              ⟨id, o.accountToRecover, o.newOwnerAuthority,
                timeAdd d.headBlockTime accountRecoveryRequestExpirationPeriod⟩) ∨
          d'.recoveryRequests =
            d.recoveryRequests.remove (fun r => r.accountToRecover == o.accountToRecover) ∨
          (o.newOwnerAuthority.weightThreshold ≠ 0 ∧
            d.recoveryRequests.modify Exception.notFound
              (fun r => r.accountToRecover == o.accountToRecover)
              (fun r => Except.ok { r with
                newOwnerAuthority := o.newOwnerAuthority
                expires := timeAdd d.headBlockTime accountRecoveryRequestExpirationPeriod }) =
              .ok d'.recoveryRequests))⌝⦄ := by
  have hm : ∀ f, ⦃⌜True⌝⦄ d.recoveryRequests.modify Exception.notFound
      (fun r => r.accountToRecover == o.accountToRecover) f
      ⦃⇓? t => ⌜d.recoveryRequests.modify Exception.notFound
        (fun r => r.accountToRecover == o.accountToRecover) f = .ok t⌝⦄ := fun _ => triple_ok
  mvcgen [RequestAccountRecoveryOperation.apply, hm]
  all_goals
    refine ⟨checkPartner_ok ‹checkPartner d o = _›, ?_⟩
    first
      | exact .inl ⟨‹_ = none›, ‹_ ≠ 0›, rfl⟩
      | exact .inr (.inl rfl)
      | exact .inr (.inr ⟨‹_›, ‹_›⟩)

/-- A request that was made is found, and the authority given is one of the history. -/
theorem RecoverAccountOperation.apply_spec {o : RecoverAccountOperation} :
    ⦃⌜True⌝⦄ o.apply d
      ⦃⇓? d' => ⌜∃ r d₁, d.recoveryRequests.find
          (fun r => r.accountToRecover == o.accountToRecover) = some r ∧
        r.newOwnerAuthority = o.newOwnerAuthority ∧
        (∃ h ∈ d.ownerHistory.rows, h.account = o.accountToRecover ∧
          h.previousOwnerAuthority = o.recentOwnerAuthority) ∧
        updateOwnerAuthority
          { d with
            recoveryRequests :=
              d.recoveryRequests.remove fun r => r.accountToRecover == o.accountToRecover }
          o.accountToRecover o.newOwnerAuthority = .ok d₁ ∧
        d'.core = d₁.core⌝⦄ := by
  have hu : ∀ (d : Database) name owner, ⦃⌜True⌝⦄ d.updateOwnerAuthority name owner
      ⦃⇓? d' => ⌜d.updateOwnerAuthority name owner = .ok d'⌝⦄ := fun _ _ _ => triple_ok
  mvcgen [RecoverAccountOperation.apply, hu, modifyAccount_core]
  all_goals
    intro hcore
    obtain ⟨h, hh, hany⟩ := List.any_eq_true.1 ‹List.any _ _ = true›
    obtain ⟨haccount, hauthority⟩ := Bool.and_eq_true_iff.1 hany
    exact ⟨_, _, ‹Table.find _ _ = some _›, ‹_›,
      ⟨h, hh, beq_iff_eq.1 haccount, of_decide_eq_true hauthority⟩,
      ‹updateOwnerAuthority _ _ _ = _›, hcore⟩

/-! ### The history of owner authorities -/

/-- What the history says of the owners of accounts in the run. -/
structure HistoryKept (hist : List (Database × Operation)) (d : Database) : Prop where
  noted : ∀ h ∈ d.ownerHistory.rows, ∃ e ∈ hist,
    (e.1.getAuthority h.account).map (·.owner) = .ok h.previousOwnerAuthority ∧
      e.1.headBlockTime = h.lastValidTime
  ordered : d.ownerHistory.rows.Pairwise fun a b => a.lastValidTime ≤ b.lastValidTime
  past : ∀ h ∈ d.ownerHistory.rows, h.lastValidTime ≤ d.headBlockTime
  recent : ∀ h ∈ d.ownerHistory.rows, d.headBlockTime ≤ h.lastValidTime + ownerAuthRecoveryPeriod

/- The owner authority that an operation replaces goes to the history. -/
def NotesOwner (d d' : Database) : Prop :=
  d'.ownerHistory = d.ownerHistory ∨ ∃ name auth, d.getAuthority name = .ok auth ∧
    d'.ownerHistory = d.ownerHistory.create fun id => ⟨id, name, auth.owner, d.headBlockTime⟩

theorem updateOwnerAuthority_notes {name : Name} {owner : Authority}
    (h : d.updateOwnerAuthority name owner = .ok d') : NotesOwner d d' := by
  obtain ⟨auth, hauth, h⟩ := bind_ok.1 h
  have hcore := of_triple modifyAuthority_ownerAuthorities trivial h
  have hhistory : d'.ownerHistory = (d.noteOwnerAuthority name auth.owner).ownerHistory :=
    congrArg Core.ownerHistory hcore
  unfold NotesOwner
  rw [hhistory]
  unfold noteOwnerAuthority
  split
  · exact .inr ⟨name, auth, hauth, rfl⟩
  · exact .inl rfl

theorem NotesOwner.of_history {d₁ : Database} (h : NotesOwner d d₁)
    (hhistory : d'.ownerHistory = d₁.ownerHistory) : NotesOwner d d' := by
  unfold NotesOwner
  rw [hhistory]
  exact h

theorem AccountUpdateOperation.updateOwner_notes {o : AccountUpdateOperation} :
    ⦃⌜True⌝⦄ o.updateOwner d ⦃⇓? d' => ⌜NotesOwner d d'⌝⦄ := by
  have hn : ∀ name owner, ⦃⌜True⌝⦄ d.updateOwnerAuthority name owner
      ⦃⇓? d' => ⌜NotesOwner d d'⌝⦄ :=
    fun _ _ => triple_of fun _ _ h => updateOwnerAuthority_notes h
  mvcgen [AccountUpdateOperation.updateOwner, hn]
  exact .inl rfl

theorem AccountUpdateOperation.apply_notes {o : AccountUpdateOperation} :
    ⦃⌜True⌝⦄ o.apply d ⦃⇓? d' => ⌜NotesOwner d d'⌝⦄ := by
  mvcgen [AccountUpdateOperation.apply, AccountUpdateOperation.updateOwner_notes, checkIfAny_spec,
    setAuthorities_core, modifyAccount_core]
  all_goals first
    | exact fun hcore => NotesOwner.of_history ‹NotesOwner _ _› (by grind [core])
    | exact NotesOwner.of_history ‹NotesOwner _ _› (by grind [core])

namespace HistoryKept

theorem of_eq {e : Database × Operation} (h : HistoryKept hist d)
    (hhistory : d'.ownerHistory = d.ownerHistory) (htime : d'.headBlockTime = d.headBlockTime) :
    HistoryKept (hist ++ [e]) d' := by
  constructor
  · intro x hx
    obtain ⟨e₀, he₀, howner⟩ := h.noted x (hhistory ▸ hx)
    exact ⟨e₀, List.mem_append_left _ he₀, howner⟩
  · rw [hhistory]
    exact h.ordered
  · rw [hhistory, htime]
    exact h.past
  · rw [hhistory, htime]
    exact h.recent

/-- An operation that replaces an owner authority. -/
theorem note {o : Operation} (h : HistoryKept hist d) (hn : NotesOwner d d')
    (htime : d'.headBlockTime = d.headBlockTime) : HistoryKept (hist ++ [(d, o)]) d' := by
  rcases hn with hsame | ⟨name, auth, hauth, hnew⟩
  · exact h.of_eq hsame htime
  · have hmem {x : OwnerAuthorityHistory} (hx : x ∈ d'.ownerHistory.rows) :
        x ∈ d.ownerHistory.rows ∨
          x = ⟨d.ownerHistory.nextId, name, auth.owner, d.headBlockTime⟩ := by
      rw [hnew] at hx
      simpa [Table.create] using hx
    constructor
    · intro x hx
      rcases hmem hx with hx | rfl
      · obtain ⟨e, he, howner⟩ := h.noted x hx
        exact ⟨e, List.mem_append_left _ he, howner⟩
      · exact ⟨(d, o), by simp, by rw [hauth]; rfl, rfl⟩
    · rw [hnew]
      simp only [Table.create]
      rw [List.pairwise_append]
      refine ⟨h.ordered, List.pairwise_singleton _ _, ?_⟩
      intro x hx y hy
      rw [List.mem_singleton.1 hy]
      exact h.past x hx
    · intro x hx
      rw [htime]
      rcases hmem hx with hx | rfl
      · exact h.past x hx
      · exact Nat.le_refl _
    · intro x hx
      rw [htime]
      rcases hmem hx with hx | rfl
      · exact h.recent x hx
      · exact Nat.le_add_right _ _

end HistoryKept

/-! ### Operations -/

namespace RequestsKept

theorem of_eq {e : Database × Operation} (h : RequestsKept hist d)
    (hrequests : d'.recoveryRequests = d.recoveryRequests)
    (htime : d'.headBlockTime = d.headBlockTime) (he : e.2.requestFor = none) :
    RequestsKept (hist ++ [e]) d' := by
  constructor
  · rw [hrequests]
    exact h.once
  · intro r hr
    rw [hrequests] at hr
    rw [htime]
    exact (h.requested r hr).later (by rw [he]; exact nofun)

/-- A request that is cancelled or used is gone. -/
theorem remove {e : Database × Operation} {name : Name} (h : RequestsKept hist d)
    (hrequests : d'.recoveryRequests =
      d.recoveryRequests.remove fun r => r.accountToRecover == name)
    (htime : d'.headBlockTime = d.headBlockTime) (he : e.2.requestFor = some name) :
    RequestsKept (hist ++ [e]) d' := by
  constructor
  · rw [hrequests]
    exact h.once.sublist (List.Sublist.map _ List.eraseP_sublist)
  · intro r hr
    rw [hrequests, Table.mem_remove_of_nodup h.once] at hr
    rw [htime]
    refine (h.requested r hr.1).later ?_
    rw [he]
    exact fun hname => hr.2 (Option.some.inj hname).symm

theorem request {o : RequestAccountRecoveryOperation} (h : RequestsKept hist d)
    (htime : d'.headBlockTime = d.headBlockTime) (ho : o.apply d = .ok d') :
    RequestsKept (hist ++ [(d, .requestAccountRecovery o)]) d' := by
  obtain ⟨hpartner, ⟨hnone, hopen, hnew⟩ | hremoved | ⟨hopen, hchanged⟩⟩ :=
    of_triple RequestAccountRecoveryOperation.apply_spec trivial ho
  · have hother : ∀ r ∈ d.recoveryRequests.rows, r.accountToRecover ≠ o.accountToRecover :=
      fun r hr => by simpa using List.find?_eq_none.1 hnone r hr
    constructor
    · rw [hnew]
      simp only [Table.create, List.map_append, List.map_singleton]
      refine List.Nodup.append h.once (List.nodup_singleton _) ?_
      rw [List.disjoint_singleton]
      intro hmem
      obtain ⟨r, hr, heq⟩ := List.mem_map.1 hmem
      exact hother r hr heq
    · intro r hr
      rw [hnew] at hr
      rw [htime]
      rcases List.mem_append.1 hr with hr | hr
      · exact (h.requested r hr).later fun hname => hother r hr (Option.some.inj hname).symm
      · rw [List.mem_singleton.1 hr]
        exact Requested.made hopen hpartner
  · exact h.remove hremoved htime rfl
  · obtain ⟨x, y, hxy, hrep, -⟩ := Table.modify_ok hchanged
    cases hxy
    have hname : x.accountToRecover = o.accountToRecover := by simpa using hrep.key_x
    constructor
    · rw [hrep.map_eq rfl]
      exact h.once
    · intro r hr
      rw [htime]
      rcases hrep.of_mem_nodup h.once hr with rfl | ⟨hr, hne⟩
      · have hmade : Requested (hist ++ [(d, Operation.requestAccountRecovery o)]) d.headBlockTime
            o.accountToRecover _ _ := Requested.made hopen hpartner
        rwa [← hname] at hmade
      · refine (h.requested r hr).later fun hfor => hne ?_
        exact (Option.some.inj hfor).symm.trans hname.symm

end RequestsKept

/- The clock, the requests and the history are the same. -/
def SameRecovery (d d' : Database) : Prop :=
  d'.core.time = d.core.time ∧ d'.core.ownerHistory = d.core.ownerHistory ∧
    d'.core.recoveryRequests = d.core.recoveryRequests

/-- A request that is used is gone, and the authority it replaces goes to the history. -/
theorem RecoverAccountOperation.apply_keeps {o : RecoverAccountOperation}
    (ho : o.apply d = .ok d') :
    d'.recoveryRequests =
        d.recoveryRequests.remove (fun r => r.accountToRecover == o.accountToRecover) ∧
      NotesOwner d d' := by
  obtain ⟨r, d₁, -, -, -, hupdate, hcore⟩ := of_triple apply_spec trivial ho
  have hsame := of_triple updateOwnerAuthority_core trivial hupdate
  constructor
  · have h₁ : d'.recoveryRequests = d₁.recoveryRequests := congrArg Core.recoveryRequests hcore
    have h₂ : d₁.recoveryRequests = d.recoveryRequests.remove
        (fun r => r.accountToRecover == o.accountToRecover) := congrArg Core.recoveryRequests hsame
    exact h₁.trans h₂
  · have hnotes := updateOwnerAuthority_notes hupdate
    exact NotesOwner.of_history (d := d) hnotes (congrArg Core.ownerHistory hcore)

theorem applyOperation_recovery {w : Name} {o : Operation} (hr : RequestsKept hist d)
    (hh : HistoryKept hist d) (ho : applyOperation w d o = .ok d') :
    RequestsKept (hist ++ [(d, o)]) d' ∧ HistoryKept (hist ++ [(d, o)]) d' := by
  have hcore := of_triple applyOperation_core trivial ho
  have htime : d'.headBlockTime = d.headBlockTime := congrArg Core.time hcore
  have hrequests := congrArg Core.recoveryRequests hcore
  have hhistory := congrArg Core.ownerHistory hcore
  cases o with
  | requestAccountRecovery op => exact ⟨hr.request htime ho, hh.of_eq hhistory htime⟩
  | recoverAccount op =>
    obtain ⟨hremoved, hnotes⟩ := RecoverAccountOperation.apply_keeps ho
    exact ⟨hr.remove hremoved htime rfl, hh.note hnotes htime⟩
  | accountUpdate op =>
    exact ⟨hr.of_eq hrequests htime rfl,
      hh.note (of_triple AccountUpdateOperation.apply_notes trivial ho) htime⟩
  | _ => exact ⟨hr.of_eq hrequests htime rfl, hh.of_eq hhistory htime⟩

/-! ### The purge -/

namespace Database

theorem changeRecoveryAccount_core {r : ChangeRecoveryAccountRequest} :
    ⦃⌜True⌝⦄ d.changeRecoveryAccount r ⦃⇓? d' => ⌜d'.core = d.core⌝⦄ := by
  mvcgen [changeRecoveryAccount, modifyAccount_core]

/- The requests that are not expired and the entries from the first that is recent on stay. -/
def purged (d : Database) : Database :=
  { d with
    recoveryRequests := { d.recoveryRequests with
      rows := d.recoveryRequests.rows.filter fun r => decide (d.headBlockTime < r.expires) }
    ownerHistory := { d.ownerHistory with
      rows := d.ownerHistory.rows.dropWhile fun h =>
        decide (timeAdd h.lastValidTime ownerAuthRecoveryPeriod < d.headBlockTime) } }

theorem accountRecoveryProcessing_ok (h : d.accountRecoveryProcessing = .ok d') :
    d'.core = d.purged.core :=
  run_induction (P := fun _ e => e.core = d.purged.core) h rfl fun _ _ _ _ he _ hr =>
    (of_triple changeRecoveryAccount_core trivial hr).trans he

/- The purge is the only step of `settle` that touches requests and history. -/
theorem settle_recovery {w : Name} :
    ⦃⌜True⌝⦄ d.settle w ⦃⇓? d' => ⌜∃ d₁ d₂ : Database, d₁.accountRecoveryProcessing = .ok d₂ ∧
      SameRecovery d d₁ ∧ SameRecovery d₂ d'⌝⦄ := by
  have hp {d : Database} : ⦃⌜True⌝⦄ d.accountRecoveryProcessing
      ⦃⇓? d' => ⌜d.accountRecoveryProcessing = .ok d'⌝⦄ := triple_ok
  mvcgen [settle, updateMedianFeed_core, updateVirtualSupply_core,
    clearNullAccountBalance_core, processFunds_core, processConversions_core,
    processCommentCashout_core, processTMEfundForSCOREwithdrawals_core,
    processSavingsWithdraws_core, payLiquidityReward_core, hp,
    expireEscrowRatification_core, processDeclineVotingRights_core]
  all_goals
    intro hdecline
    exact ⟨_, _, ‹accountRecoveryProcessing _ = _›, by grind [SameRecovery],
      by grind [SameRecovery]⟩

theorem endBlock_recovery {w : Name} {versions : Name → WitnessVersion} :
    ⦃⌜True⌝⦄ d.endBlock w versions
      ⦃⇓? d' => ⌜∃ d₁ d₂ : Database, d₁.accountRecoveryProcessing = .ok d₂ ∧
        SameRecovery d d₁ ∧ SameRecovery d₂ d'⌝⦄ := by
  have hsettle := @settle_recovery
  mvcgen [endBlock, clearExpiredOrders_core, clearExpiredDelegations_core,
    updateWitnessSchedule_core, hsettle, processHardforks_core]
  next hsettle _ =>
    obtain ⟨d₁, d₂, hpurge, hbefore, hafter⟩ := hsettle
    intro hhardforks
    exact ⟨d₁, d₂, hpurge, by grind [SameRecovery], by grind [SameRecovery]⟩

end Database

theorem timeAdd_le (t d : Nat) : timeAdd t d ≤ t + d := Nat.mod_le _ _

/-- A block ends with what the purge at its time leaves. -/
theorem finishBlock_purges {s s' : ChainState} {skip : Skip} {b : Block}
    (h : s.finishBlock env skip b = .ok s') :
    s'.db.headBlockTime = b.timestamp ∧
      s'.db.recoveryRequests.rows =
        s.db.recoveryRequests.rows.filter (fun r => decide (b.timestamp < r.expires)) ∧
      s'.db.ownerHistory.rows = s.db.ownerHistory.rows.dropWhile (fun h =>
        decide (timeAdd h.lastValidTime ownerAuthRecoveryPeriod < b.timestamp)) := by
  obtain ⟨d₁, d₂, d₃, d₄, h₁, h₂, h₃, h₄, rfl⟩ := ChainState.finishBlock_ok.1 h
  have hcore₁ := of_triple updateGlobalDynamicData_core trivial h₁
  have hcore₂ := of_triple updateSigningWitness_core trivial h₂
  have hcore₃ := of_triple updateLastIrreversibleBlock_core trivial h₃
  obtain ⟨d₅, d₆, hpurge, ⟨htime, hhistory, hrequests⟩, htime', hhistory', hrequests'⟩ :=
    of_triple endBlock_recovery trivial h₄
  rw [core_createBlockSummary, hcore₃, hcore₂, hcore₁] at htime hhistory hrequests
  have hpurged := accountRecoveryProcessing_ok hpurge
  have hnow : d₅.headBlockTime = b.timestamp := htime
  have hsame₁ : d₅.ownerHistory = s.db.ownerHistory := hhistory
  have hsame₂ : d₅.recoveryRequests = s.db.recoveryRequests := hrequests
  refine ⟨?_, ?_, ?_⟩
  · exact htime'.trans ((congrArg Core.time hpurged).trans hnow)
  · have hrows := congrArg Table.rows (hrequests'.trans (congrArg Core.recoveryRequests hpurged))
    rw [← hnow, ← hsame₂]
    exact hrows
  · have hrows := congrArg Table.rows (hhistory'.trans (congrArg Core.ownerHistory hpurged))
    rw [← hnow, ← hsame₁]
    exact hrows

section

variable {s s' : ChainState} {skip : Skip} {b : Block}

/-- The requests at the end of a block are not expired. -/
theorem RequestsKept.finish (h : RequestsKept hist s.db)
    (hf : s.finishBlock env skip b = .ok s') :
    RequestsKept hist s'.db ∧
      ∀ r ∈ s'.db.recoveryRequests.rows, s'.db.headBlockTime < r.expires := by
  obtain ⟨htime, hrequests, -⟩ := finishBlock_purges hf
  have hlive : ∀ r ∈ s'.db.recoveryRequests.rows,
      r ∈ s.db.recoveryRequests.rows ∧ b.timestamp < r.expires := by
    intro r hr
    rw [hrequests, List.mem_filter, decide_eq_true_eq] at hr
    exact hr
  refine ⟨⟨?_, ?_⟩, ?_⟩
  · rw [hrequests]
    exact h.once.sublist (List.filter_sublist.map _)
  · intro r hr
    obtain ⟨hold, hexpires⟩ := hlive r hr
    obtain ⟨pre, d, o, post, hhist, haccount, hauthority, hopen, hpartner, hr, -, hpost⟩ :=
      h.requested r hold
    refine ⟨pre, d, o, post, hhist, haccount, hauthority, hopen, hpartner, hr, ?_, hpost⟩
    rw [htime]
    rw [hr] at hexpires
    exact Nat.lt_of_lt_of_le hexpires (timeAdd_le _ _)
  · intro r hr
    rw [htime]
    exact (hlive r hr).2

/-- The purge stops at the first entry that is recent; the ones after it are of no earlier time. -/
theorem HistoryKept.finish (h : HistoryKept hist s.db)
    (hafter : s.db.headBlockTime < b.timestamp) (hf : s.finishBlock env skip b = .ok s') :
    HistoryKept hist s'.db := by
  obtain ⟨htime, -, hhistory⟩ := finishBlock_purges hf
  have hsuffix := List.dropWhile_suffix (l := s.db.ownerHistory.rows) fun h =>
    decide (timeAdd h.lastValidTime ownerAuthRecoveryPeriod < b.timestamp)
  rw [← hhistory] at hsuffix
  have hordered := h.ordered.sublist hsuffix.sublist
  constructor
  · exact fun x hx => h.noted x (hsuffix.subset hx)
  · exact hordered
  · intro x hx
    rw [htime]
    exact (h.past x (hsuffix.subset hx)).trans (Nat.le_of_lt hafter)
  · intro x hx
    rw [htime]
    cases hrows : s'.db.ownerHistory.rows with
    | nil =>
      rw [hrows] at hx
      cases hx
    | cons y l =>
      have hfirst : b.timestamp ≤ y.lastValidTime + ownerAuthRecoveryPeriod := by
        have hkept := List.head?_dropWhile_not (fun h : OwnerAuthorityHistory =>
          decide (timeAdd h.lastValidTime ownerAuthRecoveryPeriod < b.timestamp))
          s.db.ownerHistory.rows
        rw [← hhistory, hrows] at hkept
        have hle : b.timestamp ≤ timeAdd y.lastValidTime ownerAuthRecoveryPeriod := by
          simpa using hkept
        exact hle.trans (timeAdd_le _ _)
      rw [hrows] at hx hordered
      rcases List.mem_cons.1 hx with rfl | hx
      · exact hfirst
      · exact hfirst.trans (Nat.add_le_add_right (List.rel_of_pairwise_cons hordered hx) _)

end

/-! ### Runs -/

theorem OperationRun.recovery (h : OperationRun env hist d) :
    RequestsKept hist d ∧ HistoryKept hist d := by
  induction h with
  | genesis supply =>
    refine ⟨⟨List.nodup_nil, ?_⟩, ⟨?_, List.Pairwise.nil, ?_, ?_⟩⟩
    all_goals
      intro x hx
      cases hx
  | operation w o _ ho ih => exact applyOperation_recovery ih.1 ih.2 ho
  | finish skip b _ hafter hf ih => exact ⟨(ih.1.finish hf).1, ih.2.finish hafter hf⟩

/-- What a recovery proves wherever in a run it is made, and what a block leaves. -/
theorem OperationRun.recovery_guarded (h : OperationRun env hist d) :
    (∀ (w : Name) (o : RecoverAccountOperation) (d' : Database),
      applyOperation w d (.recoverAccount o) = .ok d' →
      (∃ expires,
        Requested hist d.headBlockTime o.accountToRecover o.newOwnerAuthority expires) ∧
      ∃ e ∈ hist,
        (e.1.getAuthority o.accountToRecover).map (·.owner) = .ok o.recentOwnerAuthority ∧
        e.1.headBlockTime ≤ d.headBlockTime ∧
        d.headBlockTime ≤ e.1.headBlockTime + ownerAuthRecoveryPeriod) ∧
    ∀ (s s' : ChainState) (skip : Skip) (b : Block), s.db = d →
      s.db.headBlockTime < b.timestamp → s.finishBlock env skip b = .ok s' →
      (∀ r ∈ s'.db.recoveryRequests.rows, s'.db.headBlockTime < r.expires) ∧
      ∀ x ∈ s'.db.ownerHistory.rows,
        s'.db.headBlockTime ≤ x.lastValidTime + ownerAuthRecoveryPeriod := by
  obtain ⟨hrequests, hhistory⟩ := h.recovery
  constructor
  · intro w o d' ho
    obtain ⟨r, -, hfind, hnew, ⟨x, hx, haccount, hrecent⟩, -, -⟩ :=
      of_triple RecoverAccountOperation.apply_spec trivial ho
    have hr := hrequests.requested r (List.mem_of_find?_eq_some hfind)
    have hname : r.accountToRecover = o.accountToRecover := by
      simpa using List.find?_some hfind
    rw [hname, hnew] at hr
    obtain ⟨e, he, howner, htime⟩ := hhistory.noted x hx
    refine ⟨⟨_, hr⟩, e, he, ?_, ?_, ?_⟩
    · rw [← haccount, ← hrecent]
      exact howner
    · rw [htime]
      exact hhistory.past x hx
    · rw [htime]
      exact hhistory.recent x hx
  · rintro s s' skip b rfl hafter hf
    exact ⟨(hrequests.finish hf).2, (hhistory.finish hafter hf).recent⟩

/- An owner authority from the genesis, and another one. -/
def demoOwner : Authority := { weightThreshold := 1, keyAuths := [(initPublicKey, 1)] }

def demoThief : Authority := { weightThreshold := 2, keyAuths := [(initPublicKey, 2)] }

/- The owner authority of the second account is replaced, and the top witness asks for the old
one. -/
def demoLoss : List Operation :=
  [.accountUpdate ⟨genesisAccountName 1, some demoThief, none, none, { size := 0 }⟩,
    .requestAccountRecovery ⟨genesisAccountName 0, genesisAccountName 1, demoOwner⟩]

def demoRecovery : RecoverAccountOperation := ⟨genesisAccountName 1, demoOwner, demoOwner⟩

theorem recovery_guarded_demo : ∃ hist d d', OperationRun .plain hist d ∧
    applyOperation (genesisAccountName 0) d (.recoverAccount demoRecovery) = .ok d' ∧
    ∃ expires, Requested hist d.headBlockTime (genesisAccountName 1) demoOwner expires := by
  have h : (do
      let s ← (ChainState.initGenesis initSupply).applyEach .plain [(.nothing, firstBlock)]
      let d ← demoLoss.foldlM (applyOperation (genesisAccountName 0)) s.db
      applyOperation (genesisAccountName 0) d (.recoverAccount demoRecovery)).map
        (fun _ => ()) = .ok () := by
    decide +kernel
  obtain ⟨d', h, -⟩ := map_ok.1 h
  obtain ⟨s, hblock, h⟩ := bind_ok.1 h
  obtain ⟨d, hloss, hrecover⟩ := bind_ok.1 h
  obtain ⟨before, hbefore, -⟩ := OperationRun.of_blocks hblock
  obtain ⟨after, hrun, -⟩ := hbefore.operations hloss
  exact ⟨_, d, d', hrun, hrecover,
    (OperationRun.recovery_guarded hrun).1 (genesisAccountName 0) demoRecovery d' hrecover |>.1⟩

end WeNode.Chain
