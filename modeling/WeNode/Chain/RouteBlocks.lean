import WeNode.Chain.Routes
import WeNode.Chain.CoreBlocks
import WeNode.Chain.BlockSteps

/-!
# The routes of a run

The percentages of an account's routes over whole runs.  The check that ends an operation does not
see a route to the account with id 0; where none is ever set, it sees them all.
-/

namespace WeNode.Chain

open WeNode.Lib Std.Do

namespace Database

variable {d d' : Database} {id : Nat}

/- The percentages of all routes of an account. -/
def allotted (d : Database) (id : Nat) : Nat := ((d.routesFrom id).map (·.percent)).sum

/-- No route leads to the account with id 0, and no account allots more than there is. -/
structure Spare (d : Database) : Prop where
  dest : ∀ r ∈ d.withdrawRoutes.rows, r.toAccount ≠ 0
  allotted : ∀ id, d.allotted id ≤ percent100

/- What a route takes of the account with an id. -/
def takes (id : Nat) (r : WithdrawRoute) : Int := if r.fromAccount = id then r.percent else 0

theorem allotted_eq (d : Database) (id : Nat) : (d.allotted id : Int) = d.withdrawRoutes.sum (takes id) := by
  unfold allotted routesFrom Table.sum takes
  induction d.withdrawRoutes.rows with
  | nil => rfl
  | cons r l ih =>
    rw [List.map_cons, List.sum_cons, ← ih]
    by_cases hr : r.fromAccount = id <;> simp [hr]

theorem allotted_visible (hd : ∀ r ∈ d.withdrawRoutes.rows, r.toAccount ≠ 0) :
    ((d.routesOf id).map (·.percent)).sum = d.allotted id :=
  ((routesOf_perm fun r hr => hd r (List.mem_of_mem_filter hr)).map _).sum_eq

theorem Spare.percent (h : d.Spare) {r : WithdrawRoute} (hr : r ∈ d.routesFrom id) :
    r.percent ≤ percent100 :=
  (List.single_le_sum (by simp) _ (List.mem_map_of_mem hr)).trans (h.allotted id)

end Database

open Database

namespace SetWithdrawSCOREasTMErouteOperation

variable {o : SetWithdrawSCOREasTMErouteOperation} {d d' : Database} {sender receiver : Account}

/- A change of a route takes no more of any other account, and of its own at most its percentage. -/
theorem setRoute_allotted (hd : ∀ r ∈ d.withdrawRoutes.rows, r.toAccount ≠ 0)
    (hdest : receiver.id ≠ 0) (h : o.setRoute d sender receiver = .ok d') :
    (∀ r ∈ d'.withdrawRoutes.rows, r.toAccount ≠ 0) ∧
      (∀ id, d'.allotted id ≤ d.allotted id + if id = sender.id then o.percent else 0) := by
  have hkept : ∀ {d₁ d₂ : Database} {name : Name} {f : Account → Result Account},
      d₁.modifyAccount name f = .ok d₂ → d₂.withdrawRoutes = d₁.withdrawRoutes := by
    intro d₁ d₂ name f hm
    obtain ⟨t, -, rfl⟩ := of_modify hm
    rfl
  -- a change by what the new sum is, in integers
  have hsum : ∀ {t : Table WithdrawRoute}, d'.withdrawRoutes = t →
      (∀ id, t.sum (takes id) ≤ d.withdrawRoutes.sum (takes id) +
        if id = sender.id then (o.percent : Int) else 0) →
      ∀ id, d'.allotted id ≤ d.allotted id + if id = sender.id then o.percent else 0 := by
    rintro t rfl ht id
    have hid := ht id
    rw [← allotted_eq, ← allotted_eq] at hid
    split at hid <;> simp_all
    all_goals omega
  unfold setRoute at h
  dsimp only at h
  split at h
  · obtain ⟨_, hpercent, h⟩ := bind_ok.1 h
    obtain ⟨_, -, h⟩ := bind_ok.1 h
    have hroutes := hkept h
    refine ⟨fun r hr => ?_, hsum hroutes fun id => ?_⟩
    · rw [hroutes] at hr
      rcases List.mem_append.1 hr with hr | hr
      · exact hd r hr
      · rw [List.mem_singleton.1 hr]
        exact hdest
    · rw [Table.sum_create]
      unfold takes
      dsimp only
      by_cases hid : id = sender.id
      · simp [hid]
      · have hid' : sender.id ≠ id := fun he => hid he.symm
        simp [hid, hid']
  · next x hx =>
    have hkey : x.fromAccount = sender.id := by
      have := List.find?_some hx
      simp at this
      exact this.1
    have hpos : ∀ id, 0 ≤ takes id x := by
      intro id
      unfold takes
      split <;> simp
    split at h
    · have hroutes := hkept h
      refine ⟨fun r hr => ?_, hsum hroutes fun id => ?_⟩
      · rw [hroutes] at hr
        exact hd r (List.mem_of_mem_eraseP hr)
      · rw [Table.sum_remove hx]
        have := hpos id
        split <;> omega
    · obtain ⟨t, ht, rfl⟩ := of_modify h
      refine ⟨fun r hr => ?_, hsum rfl fun id => ?_⟩
      · obtain ⟨y, z, hyz, hrep, -⟩ := Table.modify_ok ht
        cases hyz
        rcases hrep.of_mem hr with hr | rfl
        · exact hd r hr
        · exact hd y hrep.mem
      · rw [Table.sum_modify ht (g := takes id)
          (d := if id = sender.id then (o.percent : Int) - x.percent else 0)]
        · split <;> omega
        · intro y z hy hyz
          cases hx.symm.trans hy
          cases hyz
          unfold takes
          dsimp only
          by_cases hid : id = sender.id
          · simp [hid, hkey]
          · have hid' : sender.id ≠ id := fun he => hid he.symm
            simp [hid, hid', hkey]

theorem apply_spare (hd : d.Spare) (hvalid : o.percent ≤ percent100)
    (hdest : ∀ a, d.getAccount o.toAccount = .ok a → a.id ≠ 0) (h : o.apply d = .ok d') :
    d'.Spare := by
  obtain ⟨sender, hsender, h⟩ := bind_ok.1 h
  obtain ⟨receiver, hreceiver, h⟩ := bind_ok.1 h
  obtain ⟨d₁, h₁, h⟩ := bind_ok.1 h
  obtain ⟨_, htotal, h⟩ := bind_ok.1 h
  cases h
  obtain ⟨hd', hmore⟩ := setRoute_allotted hd.dest (hdest receiver hreceiver) h₁
  refine ⟨hd', fun id => ?_⟩
  by_cases hid : id = sender.id
  · subst hid
    have htotal := require_ok htotal
    have hmost := hmore sender.id
    rw [if_pos rfl] at hmost
    have hold := hd.allotted sender.id
    rw [allotted_visible hd', Nat.mod_eq_of_lt] at htotal
    · exact htotal
    · unfold percent100 at hold hvalid
      omega
  · have hmost := hmore id
    rw [if_neg hid, Nat.add_zero] at hmost
    exact hmost.trans (hd.allotted id)

end SetWithdrawSCOREasTMErouteOperation

/- The operation sets a route to the account with id 0. -/
def Operation.routesToFirst (d : Database) : Operation → Prop
  | .setWithdrawSCOREasTMEroute op => ∃ a, d.getAccount op.toAccount = .ok a ∧ a.id = 0
  | _ => False

namespace Database

variable {d d' : Database} {env : Env} {w : Name} {o : Operation}

theorem Spare.congr (h : d.Spare) (hr : d'.withdrawRoutes = d.withdrawRoutes) : d'.Spare := by
  refine ⟨hr ▸ h.dest, fun id => ?_⟩
  unfold Database.allotted routesFrom
  rw [hr]
  exact h.allotted id

theorem applyOperation_spare (hd : d.Spare) (hv : o.validate env = .ok ())
    (hn : ¬ o.routesToFirst d) (h : applyOperation w d o = .ok d') : d'.Spare := by
  cases hroute : o.onRoute with
  | false =>
    have hcore := of_triple applyOperation_core trivial h
    rw [hroute] at hcore
    exact hd.congr (congrArg Core.withdrawRoutes hcore)
  | true =>
    cases o with
    | setWithdrawSCOREasTMEroute op =>
      obtain ⟨_, -, hv⟩ := bind_ok.1 hv
      obtain ⟨_, -, hv⟩ := bind_ok.1 hv
      exact op.apply_spare hd (require_ok hv) (fun a ha hid => hn ⟨a, ha, hid⟩) h
    | _ => cases hroute

end Database

namespace ChainState

variable {env : Env} {s s' : ChainState} {b : Block}

/-- `o` is an operation of the block `b`, and `d` what it is applied to. -/
def Meets (env : Env) (s : ChainState) (b : Block) (d : Database) (o : Operation) : Prop :=
  ∃ s₁ s₂ before t after ops rest, b.transactions = before ++ t :: after ∧
    s.startBlock env .nothing b = .ok s₁ ∧
    before.foldlM (applyTransaction env .nothing) s₁ = .ok s₂ ∧
    t.operations = ops ++ o :: rest ∧
    ops.foldlM (Database.applyOperation s₂.currentWitness) s₂.db = .ok d

/-- The states of the runs in which no operation sets a route to the account with id 0. -/
inductive Spared (env : Env) : ChainState → Prop
  | genesis : Spared env (initGenesis initSupply)
  | block {s s' : ChainState} (b : Block) (h : Spared env s)
    (hb : s.applyBlock env .nothing b = .ok s')
    (hop : ∀ d o, Meets env s b d o → ¬ o.routesToFirst d) : Spared env s'

/- The routes that the transactions of a block leave are those at its end. -/
theorem finishBlock_routes {skip : Skip} (h : s.finishBlock env skip b = .ok s') :
    s'.db.withdrawRoutes = s.db.withdrawRoutes := by
  obtain ⟨d₁, d₂, d₃, d₄, h₁, h₂, h₃, h₄, rfl⟩ := finishBlock_ok.1 h
  have hcore := Database.core_createBlockSummary env d₃ b
  rw [of_triple Database.updateLastIrreversibleBlock_core trivial h₃,
    of_triple Database.updateSigningWitness_core trivial h₂,
    of_triple Database.updateGlobalDynamicData_core trivial h₁] at hcore
  exact (congrArg Core.withdrawRoutes (of_triple Database.endBlock_core trivial h₄)).trans
    (congrArg Core.withdrawRoutes hcore)

theorem applyBlock_spare (hs : s.db.Spare) (hop : ∀ d o, Meets env s b d o → ¬ o.routesToFirst d)
    (h : s.applyBlock env .nothing b = .ok s') : s'.db.Spare := by
  obtain ⟨s₁, s₂, hstart, htransactions, hfinish⟩ := applyBlock_ok.1 h
  refine Database.Spare.congr ?_ (finishBlock_routes hfinish)
  refine run_prefix (P := fun e => e.db.Spare) htransactions
    (by rwa [(startBlock_keeps hstart).1]) ?_
  intro before t after e e' hl hbefore he ht
  obtain ⟨hcheck, d, hd, rfl⟩ := applyTransaction_ok.1 ht
  have hvalid := ((checkTransaction_ok.1 hcheck).1 rfl).2
  refine run_prefix (P := Database.Spare) hd he ?_
  intro ops o rest d₁ d₂ ho hops hd₁ hd₂
  refine Database.applyOperation_spare hd₁ (forM_each hvalid (by rw [ho]; simp)) ?_ hd₂
  exact hop d₁ o ⟨s₁, e, before, t, after, ops, rest, hl, hstart, hbefore, ho, hops⟩

theorem Spared.spare (h : Spared env s) : s.db.Spare := by
  induction h with
  | genesis => exact ⟨nofun, fun _ => Nat.zero_le _⟩
  | block b _ hb hop ih => exact applyBlock_spare ih hop hb

/-- In a run in which no route is set to the account with id 0, the routes of an account never
take more than all of a withdrawal, and every instalment, of whatever database with the routes of
a state of the run, pays them exactly. -/
theorem Spared.routes (h : Spared env s) :
    (∀ id, s.db.allotted id ≤ percent100) ∧
      ∀ (d : Database) name a w d', d.withdrawRoutes = s.db.withdrawRoutes → d.Indexed →
        d.getAccount name = .ok a → Database.instalment a = .ok w →
        int64Min ≤ w ∧ w ≤ int64Max → d.withdrawInstalment name = .ok d' →
        ∃ tme rest, d.PaysOut a w tme rest d' := by
  have hspare := h.spare
  refine ⟨hspare.allotted, fun d name a w d' hroutes hd ha hw hrange hd' => ?_⟩
  have hd'' : d.Spare := hspare.congr hroutes
  exact Database.withdrawInstalment_pays hd ha hw hrange
    (fun r hr => ⟨hd''.dest r (List.mem_of_mem_filter hr), hd''.percent hr⟩) hd'

end ChainState

/- Routes of the second genesis account, each for all of a withdrawal. -/
def demoRoutes (destinations : List Name) : Transaction where
  refBlockNum := 0
  refBlockPrefix := 0
  expiration := genesisTime + 60
  operations := destinations.map fun name =>
    .setWithdrawSCOREasTMEroute ⟨genesisAccountName 1, name, percent100, true⟩
  signatures := [initPublicKey]

/-- A run with one route. -/
theorem routes_demo : ∃ s : ChainState, s.db.withdrawRoutes.rows.map (·.toAccount) = [5] ∧
    ∀ id, s.db.allotted id ≤ percent100 := by
  have h : ((ChainState.initGenesis initSupply).produce [] [demoRoutes [genesisAccountName 2]]).map
      (fun s => s.db.withdrawRoutes.rows.map (·.toAccount)) = .ok [5] := by
    decide +kernel
  have hid : ((ChainState.initGenesis initSupply).db.getAccount (genesisAccountName 2)).map
      (·.id) = .ok 5 := by
    decide +kernel
  obtain ⟨s, hs, hroutes⟩ := map_ok.1 h
  obtain ⟨b, hb, happly⟩ := bind_ok.1 hs
  have htransactions : b.transactions = [demoRoutes [genesisAccountName 2]] := by
    obtain ⟨_, -, hb⟩ := bind_ok.1 hb
    obtain ⟨_, -, hb⟩ := bind_ok.1 hb
    cases hb
    rfl
  refine ⟨s, hroutes, (ChainState.Spared.routes (.block b .genesis happly ?_)).1⟩
  rintro d o ⟨s₁, s₂, before, t, after, ops, rest, hl, hstart, hbefore, ho, hops⟩ hfirst
  rw [htransactions] at hl
  obtain ⟨rfl, ht⟩ : before = [] ∧ t = demoRoutes [genesisAccountName 2] := by
    cases before with
    | nil => exact ⟨rfl, (List.cons.inj hl).1.symm⟩
    | cons x l => exact absurd (List.cons.inj hl).2 (by simp)
  subst ht
  obtain ⟨rfl, hroute⟩ : ops = [] ∧
      o = .setWithdrawSCOREasTMEroute
        ⟨genesisAccountName 1, genesisAccountName 2, percent100, true⟩ := by
    cases ops with
    | nil => exact ⟨rfl, (List.cons.inj ho).1.symm⟩
    | cons x l => exact absurd (List.cons.inj ho).2 (by simp)
  subst hroute
  cases hbefore
  cases hops
  obtain ⟨a, ha, hzero⟩ := hfirst
  rw [(ChainState.startBlock_keeps hstart).1] at ha
  rw [ha] at hid
  exact absurd (hzero.symm.trans (Except.ok.inj hid)) (by decide)

/-- A route to the account with id 0, and another one: both for all of a withdrawal. -/
theorem first_account_unseen : ∃ s : ChainState, ChainState.Reachable .plain s ∧
    s.db.withdrawRoutes.rows.map (fun r => (r.fromAccount, r.toAccount, r.percent)) =
      [(4, 0, percent100), (4, 5, percent100)] ∧ ¬ s.db.allotted 4 ≤ percent100 := by
  have h : ([[demoRoutes [minerAccount, genesisAccountName 2]]].foldlM (ChainState.produce [])
      (ChainState.initGenesis initSupply)).map (fun s =>
        (s.db.withdrawRoutes.rows.map (fun r => (r.fromAccount, r.toAccount, r.percent)),
          s.db.allotted 4)) =
      .ok ([(4, 0, percent100), (4, 5, percent100)], 20000) := by
    decide +kernel
  obtain ⟨s, hrun, hs⟩ := map_ok.1 h
  obtain ⟨hroutes, htotal⟩ := Prod.mk.inj hs
  refine ⟨s, .produce .genesis hrun, hroutes, ?_⟩
  rw [htotal]
  decide

end WeNode.Chain
