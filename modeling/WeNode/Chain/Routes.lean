import Mathlib
import WeNode.Chain.Core
import WeNode.Lib.Runs

/-!
# Withdraw routes

What an instalment of a power-down pays, in terms of the accounts' purses: the abstract account of
a payout, and that `withdrawInstalment` makes it where no route leads to the account with id 0.
-/

set_option mvcgen.warning false

namespace WeNode.Chain

open WeNode.Lib Std.Do

/-! ### Purses -/

/- What a payout sees of an account. -/
structure Purse where
  id : Nat
  name : Name
  score : Int
  balance : Int

def Purse.credit (score balance : Int) (p : Purse) : Purse :=
  { p with score := p.score + score, balance := p.balance + balance }

def Account.purse (a : Account) : Purse := ⟨a.id, a.name, a.score, a.balance⟩

namespace Database

def purses (d : Database) : List Purse := d.accounts.rows.map Account.purse

/- What an instalment reads and changes. -/
def vault (d : Database) : List Purse × GlobalProperties × Table WithdrawRoute :=
  (d.purses, d.gpo, d.withdrawRoutes)

/- The unique indexes of accounts. -/
structure Indexed (d : Database) : Prop where
  ids : (d.purses.map Purse.id).Nodup
  names : (d.purses.map Purse.name).Nodup

variable {d d' : Database} {name : Name}

theorem Indexed.congr (h : d.Indexed) (hid : d'.purses.map Purse.id = d.purses.map Purse.id)
    (hname : d'.purses.map Purse.name = d.purses.map Purse.name) : d'.Indexed :=
  ⟨hid ▸ h.ids, hname ▸ h.names⟩

/- A change of one account changes its purse only. -/
theorem modifyAccount_purses {f : Account → Result Account} {g : Purse → Purse}
    (hd : d.Indexed) (h : d.modifyAccount name f = .ok d')
    (hf : ∀ a b, f a = .ok b → b.purse = g a.purse) :
    d'.vault = (d.purses.map fun p => if p.name = name then g p else p, d.gpo, d.withdrawRoutes) := by
  unfold modifyAccount at h
  obtain ⟨t, ht, rfl⟩ := of_modify h
  obtain ⟨x, y, hxy, hrep, -⟩ := Table.modify_ok ht
  obtain ⟨pre, post, hl, hl', hpre⟩ := hrep.split
  have hx : x.name = name := by simpa using hrep.key_x
  have hnames : ((pre ++ x :: post).map fun a => a.name).Nodup := by
    have := hd.names
    rw [purses, List.map_map, hl] at this
    exact this
  have hpre' : ∀ a ∈ pre, a.name ≠ name := fun a ha => by simpa using hpre a ha
  have hpost : ∀ a ∈ post, a.name ≠ name := by
    intro a ha heq
    rw [List.map_append, List.map_cons, List.nodup_append, List.nodup_cons] at hnames
    exact hnames.2.1.1 (hx.trans heq.symm ▸ List.mem_map_of_mem ha)
  have hsame : ∀ l : List Account, (∀ a ∈ l, a.name ≠ name) →
      (l.map Account.purse).map (fun p => if p.name = name then g p else p) =
        l.map Account.purse := by
    intro l hne
    rw [List.map_map]
    refine List.map_congr_left fun a ha => ?_
    exact if_neg (hne a ha)
  refine Prod.ext ?_ rfl
  change (t.rows).map Account.purse = (d.accounts.rows.map Account.purse).map _
  rw [hl, hl', List.map_append, List.map_append, List.map_append, List.map_cons, List.map_cons,
    List.map_cons, hsame pre hpre', hsame post hpost, hf x y hxy]
  exact congrArg (fun p => pre.map Account.purse ++ p :: post.map Account.purse)
    (if_pos hx : (if x.purse.name = name then g x.purse else x.purse) = _).symm

/-! ### Votes leave the purses -/

theorem modifyWitness_vault {f : Witness → Result Witness} :
    ⦃⌜True⌝⦄ d.modifyWitness name f ⦃⇓? d' => ⌜d'.vault = d.vault⌝⦄ := by
  apply triple_of
  intro _ d' h
  unfold modifyWitness at h
  obtain ⟨t, -, rfl⟩ := of_modify h
  rfl

theorem modifyAccount_vault {f : Account → Result Account}
    (hf : ∀ a, ⦃⌜True⌝⦄ f a ⦃⇓? b => ⌜b.purse = a.purse⌝⦄) :
    ⦃⌜True⌝⦄ d.modifyAccount name f ⦃⇓? d' => ⌜d'.vault = d.vault⌝⦄ := by
  apply triple_of
  intro _ d' h
  unfold modifyAccount at h
  obtain ⟨t, ht, rfl⟩ := of_modify h
  simp [vault, purses, (map_modify ht hf).1]

theorem adjustWitnessVotes_vault {delta : Int} :
    ⦃⌜True⌝⦄ d.adjustWitnessVotes name delta ⦃⇓? d' => ⌜d'.vault = d.vault⌝⦄ := by
  mvcgen [adjustWitnessVotes, adjustWitnessVote, modifyWitness_vault] invariants
  · ⇓? r => ⌜r.2.vault = d.vault⌝
  all_goals simp_all

theorem adjustProxiedWitnessVotes_vault {delta : Int} :
    ⦃⌜True⌝⦄ d.adjustProxiedWitnessVotes name delta ⦃⇓? d' => ⌜d'.vault = d.vault⌝⦄ := by
  have hadjustWitnessVotes := @adjustWitnessVotes_vault
  unfold adjustProxiedWitnessVotes
  generalize List.finRange maxProxyRecursionDepth = l
  induction l generalizing d name with
  | nil => mvcgen [walkProxies, hadjustWitnessVotes]
  | cons depth rest ih =>
    have hm : ∀ (d : Database) n, ⦃⌜True⌝⦄ d.modifyAccount n (fun p => p.addProxiedVote depth delta)
        ⦃⇓? d' => ⌜d'.vault = d.vault⌝⦄ := fun d n => modifyAccount_vault fun a => by
      mvcgen [addProxiedVote_spec]
      simp_all [Account.setProxiedVote, Account.purse]
    mvcgen [walkProxies, hadjustWitnessVotes, hm, ih]
    simp_all

/-! ### Shares -/

/- The part of an instalment that goes along a route. -/
def share (w : Int) (r : WithdrawRoute) : Int := w * r.percent / percent100

def shares (w : Int) (l : List WithdrawRoute) : Int := (l.map (share w)).sum

/- A negative amount extends its sign, and its share does not fit. -/
theorem routeShare_neg {m p : Nat} (hm : 0 < m ∧ m ≤ 9223372036854775808)
    (hp : 0 < p ∧ p ≤ 10000) : two64 ≤ (two128 - m) * p % two128 / 10000 := by
  have hproduct : m * p ≤ 9223372036854775808 * 10000 := Nat.mul_le_mul hm.2 hp.2
  have hpos : 0 < m * p := Nat.mul_pos hm.1 hp.1
  have hsplit : (two128 - m) * p = two128 - m * p + two128 * (p - 1) := by
    obtain ⟨q, rfl⟩ : ∃ q, p = q + 1 := ⟨p - 1, by omega⟩
    rw [Nat.sub_mul, Nat.mul_succ, Nat.add_sub_cancel]
    unfold two128
    omega
  rw [hsplit, Nat.add_mul_mod_self_left]
  unfold two128 two64
  omega

theorem routeShare_ok {w x : Int} {r : WithdrawRoute} (hw : int64Min ≤ w ∧ w ≤ int64Max)
    (hr : r.percent ≤ percent100) (h : routeShare w r = .ok x) :
    x = share w r ∧ 0 ≤ x := by
  obtain ⟨n, hn, h⟩ := bind_ok.1 h
  cases h
  obtain ⟨rfl, hsmall⟩ := toUint64_ok hn
  have hmin := hw.1
  have hmax := hw.2
  unfold int64Min at hmin
  unfold int64Max at hmax
  unfold percent100 at hr hsmall ⊢
  unfold u128Mul u128 at hsmall ⊢
  unfold share percent100
  by_cases hneg : 0 ≤ w
  · obtain ⟨n, rfl⟩ := Int.eq_ofNat_of_zero_le hneg
    have hn : n ≤ 9223372036854775807 := by exact_mod_cast hmax
    have hproduct : n * r.percent ≤ 9223372036854775807 * 10000 := Nat.mul_le_mul hn hr
    have hword : ((n : Int) % (two128 : Int)).toNat = n := by
      unfold two128
      omega
    rw [hword, Nat.mod_eq_of_lt (by unfold two128; omega), ofUint64_of_lt (by omega)]
    exact ⟨by push_cast; rfl, by omega⟩
  · obtain ⟨m, rfl⟩ : ∃ m : Nat, w = -m := ⟨w.natAbs, by omega⟩
    have hword : (-(m : Int) % (two128 : Int)).toNat = two128 - m := by
      unfold two128
      omega
    rw [hword] at hsmall ⊢
    rcases Nat.eq_zero_or_pos r.percent with hzero | hpos
    · rw [hzero]
      simp [ofUint64]
    · exact absurd hsmall (Nat.not_lt.2 (routeShare_neg ⟨by omega, by omega⟩ ⟨hpos, hr⟩))

/-! ### Payouts -/

/-- Amounts of SCORE leave the fund one after the other, each for its value at the price then. -/
inductive Converts : GlobalProperties → List (Int × Int) → GlobalProperties → Prop
  | nil (g : GlobalProperties) : Converts g [] g
  | cons {g g' : GlobalProperties} {x v : Int} {l : List (Int × Int)}
      (hv : (Asset.score x).mul g.scorePrice = .ok (.coin v))
      (hl : Converts { g with
        totalTMEfundForSCORE := g.totalTMEfundForSCORE - v
        totalSCORE := g.totalSCORE - x } l g') : Converts g ((x, v) :: l) g'

theorem Converts.append {g g₁ g' : GlobalProperties} {l l' : List (Int × Int)}
    (h : Converts g l g₁) (h' : Converts g₁ l' g') : Converts g (l ++ l') g' := by
  induction h with
  | nil g => exact h'
  | cons hv _ ih => exact .cons hv (ih h')

/- The purse of the account is credited. -/
def credited (id : Nat) (score balance : Int) (l : List Purse) : List Purse :=
  l.map fun p => if p.id = id then p.credit score balance else p

theorem credited_zero (id : Nat) (l : List Purse) : credited id 0 0 l = l := by
  have hsame : ∀ p : Purse, p.credit 0 0 = p := fun p => by simp [Purse.credit]
  simp [credited, hsame]

theorem Indexed.credited (hd : d.Indexed) (id : Nat) (score balance : Int)
    (h : d'.purses = credited id score balance d.purses) : d'.Indexed := by
  have hsame : ∀ {β : Type} (g : Purse → β), (∀ p, g (p.credit score balance) = g p) →
      d'.purses.map g = d.purses.map g := by
    intro β g hg
    rw [h, Database.credited, List.map_map]
    refine List.map_congr_left fun p _ => ?_
    change g (if p.id = id then p.credit score balance else p) = g p
    split
    · exact hg p
    · rfl
  exact hd.congr (hsame Purse.id fun _ => rfl) (hsame Purse.name fun _ => rfl)

/-- A change of an account found by its id credits the purse with this id. -/
theorem credit_ok {id : Nat} {target : Account} {score balance : Int} {f : Account → Result Account}
    (hd : d.Indexed) (ht : d.getAccountById id = .ok target)
    (h : d.modifyAccount target.name f = .ok d')
    (hf : ∀ a b, f a = .ok b → b.purse = a.purse.credit score balance) :
    d'.vault = (credited id score balance d.purses, d.gpo, d.withdrawRoutes) := by
  have hfound := found_ok ht
  have hmem : target.purse ∈ d.purses := List.mem_map_of_mem (List.mem_of_find?_eq_some hfound)
  have hid' : target.id = id := by simpa using List.find?_some hfound
  have hid : target.purse.id = id := hid'
  rw [modifyAccount_purses hd h hf, credited]
  congr 1
  refine List.map_congr_left fun p hp => ?_
  have hiff : p.name = target.name ↔ p.id = id := by
    constructor
    · intro hname
      rw [List.inj_on_of_nodup_map hd.names hp hmem hname, hid]
    · intro hp'
      rw [List.inj_on_of_nodup_map hd.ids hp hmem (hp'.trans hid.symm)]
      rfl
  by_cases hp' : p.id = id
  · rw [if_pos hp', if_pos (hiff.2 hp')]
  · rw [if_neg hp', if_neg fun hname => hp' (hiff.1 hname)]

variable {w : Int} {r : WithdrawRoute} {l : List WithdrawRoute}

/- What a route deposits in each of the two passes. -/
def asSCORE (w : Int) (r : WithdrawRoute) : Int := if r.autoSCORE then share w r else 0
def asTME (w : Int) (r : WithdrawRoute) : Int := if r.autoSCORE then 0 else share w r

theorem depositSCORE_ok {x x' : Int} (hd : d.Indexed) (hw : int64Min ≤ w ∧ w ≤ int64Max)
    (hr : r.percent ≤ percent100) (h : depositSCORE w (d, x) r = .ok (d', x')) :
    x' = x + asSCORE w r ∧
      d'.vault = (credited r.toAccount (asSCORE w r) 0 d.purses, d.gpo, d.withdrawRoutes) := by
  unfold depositSCORE at h
  dsimp only at h
  unfold asSCORE
  cases hauto : r.autoSCORE with
  | false =>
    rw [hauto] at h
    cases h
    exact ⟨by simp, by rw [if_neg Bool.false_ne_true, credited_zero]; rfl⟩
  | true =>
    rw [hauto, if_neg (by simp)] at h
    rw [if_pos rfl]
    obtain ⟨deposit, hshare, h⟩ := bind_ok.1 h
    obtain ⟨hdeposit, hpos⟩ := routeShare_ok hw hr hshare
    obtain ⟨sum, hsum, h⟩ := bind_ok.1 h
    have hsum := safeAdd_ok hsum
    by_cases hzero : 0 < deposit
    · rw [if_pos hzero] at h
      obtain ⟨target, ht, h⟩ := bind_ok.1 h
      obtain ⟨d₁, hd₁, h⟩ := bind_ok.1 h
      obtain ⟨d₂, hd₂, h⟩ := bind_ok.1 h
      cases h
      have hvault := of_triple adjustProxiedWitnessVotes_vault trivial hd₂
      refine ⟨by rw [hsum, hdeposit], hvault.trans (credit_ok hd ht hd₁ fun a b hab => ?_)⟩
      obtain ⟨score, hscore, hab⟩ := bind_ok.1 hab
      cases hab
      simp [Account.purse, Purse.credit, safeAdd_ok hscore, hdeposit]
    · rw [if_neg hzero] at h
      cases h
      have hnone : share w r = 0 := by omega
      exact ⟨by rw [hsum, hdeposit], by rw [hnone, credited_zero]; rfl⟩

theorem mul_zero_ok {p : Price} {v : Asset} (h : (Asset.score 0).mul p = .ok v) : v.amount = 0 := by
  have hzero : ∀ num den x : Int, convert 0 num den = .ok x → x = 0 := by
    intro num den x hx
    obtain ⟨-, -, hx⟩ := bind_ok.1 hx
    obtain ⟨q, hq, hx⟩ := bind_ok.1 hx
    obtain ⟨-, -, hx⟩ := bind_ok.1 hx
    unfold u128Div at hq
    split at hq
    · cases hq
    · cases hq
      cases hx
      simp [u128, u128Mul, ofUint64]
  obtain ⟨name, -, h⟩ := bind_ok.1 h
  obtain ⟨base, -, h⟩ := bind_ok.1 h
  split at h
  · obtain ⟨x, hx, h⟩ := bind_ok.1 h
    cases h
    exact hzero _ _ x hx
  · obtain ⟨quote, -, h⟩ := bind_ok.1 h
    split at h
    · obtain ⟨x, hx, h⟩ := bind_ok.1 h
      cases h
      exact hzero _ _ x hx
    · cases h

theorem leaveFund_ok {x : Int} {v : Asset} (h : d.leaveFund x v = .ok d') :
    v = .coin v.amount ∧ d' = { d with gpo := { d.gpo with
      totalTMEfundForSCORE := d.gpo.totalTMEfundForSCORE - v.amount
      totalSCORE := d.gpo.totalSCORE - x } } := by
  obtain ⟨g, hg, h⟩ := bind_ok.1 h
  cases h
  obtain ⟨fund, hfund, hg⟩ := bind_ok.1 hg
  obtain ⟨score, hscore, hg⟩ := bind_ok.1 hg
  cases hg
  obtain ⟨_, hsymbol, hfund⟩ := bind_ok.1 hfund
  obtain ⟨amount, hamount, hfund⟩ := bind_ok.1 hfund
  cases hfund
  have hsymbol : symbolCoin = v.symbol := require_ok hsymbol
  refine ⟨?_, by rw [safeSub_ok hscore, safeSub_ok hamount]; rfl⟩
  unfold Asset.coin
  rw [hsymbol]

theorem coin_add {x : Int} {a b : Asset} (h : (Asset.coin x).add a = .ok b) :
    a = .coin a.amount ∧ b = .coin (x + a.amount) := by
  obtain ⟨_, hsymbol, h⟩ := bind_ok.1 h
  obtain ⟨sum, hsum, h⟩ := bind_ok.1 h
  cases h
  have hsymbol : symbolCoin = a.symbol := require_ok hsymbol
  refine ⟨?_, by rw [safeAdd_ok hsum]; rfl⟩
  unfold Asset.coin
  rw [hsymbol]

theorem depositTME_ok {x x' total : Int} {total' : Asset} (hd : d.Indexed)
    (hw : int64Min ≤ w ∧ w ≤ int64Max) (hr : r.percent ≤ percent100)
    (h : depositTME w (d, x, .coin total) r = .ok (d', x', total')) :
    x' = x + asTME w r ∧ total' = .coin total'.amount ∧ ∃ v,
      d'.vault = (credited r.toAccount 0 v d.purses, d'.gpo, d.withdrawRoutes) ∧
      Converts d.gpo (if r.autoSCORE then [] else [(share w r, v)]) d'.gpo ∧
      (r.autoSCORE = true → v = 0) := by
  unfold depositTME at h
  dsimp only at h
  unfold asTME
  cases hauto : r.autoSCORE with
  | true =>
    rw [hauto, if_pos rfl] at h
    cases h
    exact ⟨by simp, rfl, 0, by rw [credited_zero]; rfl, .nil _, fun _ => rfl⟩
  | false =>
    rw [hauto, if_neg Bool.false_ne_true] at h
    simp only [Bool.false_eq_true, if_false, false_implies, and_true]
    obtain ⟨target, ht, h⟩ := bind_ok.1 h
    obtain ⟨deposit, hshare, h⟩ := bind_ok.1 h
    obtain ⟨hdeposit, hpos⟩ := routeShare_ok hw hr hshare
    obtain ⟨sum, hsum, h⟩ := bind_ok.1 h
    have hsum := safeAdd_ok hsum
    obtain ⟨converted, hconverted, h⟩ := bind_ok.1 h
    obtain ⟨all, hall, h⟩ := bind_ok.1 h
    obtain ⟨hcoin, hall⟩ := coin_add hall
    rw [hdeposit] at hsum
    rw [hcoin, hdeposit] at hconverted
    by_cases hzero : 0 < deposit
    · rw [if_pos hzero] at h
      obtain ⟨d₁, hd₁, h⟩ := bind_ok.1 h
      obtain ⟨d₂, hd₂, h⟩ := bind_ok.1 h
      cases h
      have hvault : d₁.vault = (credited r.toAccount 0 converted.amount d.purses, d.gpo,
          d.withdrawRoutes) := credit_ok hd ht hd₁ fun a b hab => by
        obtain ⟨balance, hbalance, hab⟩ := bind_ok.1 hab
        cases hab
        simp [Account.purse, Purse.credit, (coin_add hbalance).2, Asset.coin]
      have hfund := (leaveFund_ok hd₂).2
      have hgpo : d₁.gpo = d.gpo := congrArg (·.2.1) hvault
      refine ⟨hsum, by rw [hall]; rfl, converted.amount, ?_, ?_⟩
      · rw [hfund]
        exact Prod.ext (congrArg (·.1) hvault) (Prod.ext rfl (congrArg (·.2.2) hvault))
      · rw [hfund, hgpo, hdeposit]
        exact .cons hconverted (.nil _)
    · rw [if_neg hzero] at h
      cases h
      have hnone : share w r = 0 := by omega
      have hnothing := hconverted
      rw [hnone] at hnothing
      have hnone' := mul_zero_ok hnothing
      have hv : converted.amount = 0 := hnone'
      refine ⟨hsum, by rw [hall]; rfl, converted.amount, ?_, ?_⟩
      · rw [hv, credited_zero]
        rfl
      · refine .cons hconverted ?_
        rw [hnone, hv, sub_zero, sub_zero]
        exact .nil _

/-! ### Both passes -/

/- What the purse with an id gets of credits, each to an id. -/
def received (id : Nat) (l : List (Nat × Int)) : Int := ((l.filter (·.1 == id)).map (·.2)).sum

theorem received_cons (id : Nat) (c : Nat × Int) (l : List (Nat × Int)) :
    received id (c :: l) = (if c.1 = id then c.2 else 0) + received id l := by
  unfold received
  by_cases hc : c.1 = id <;> simp [hc]

theorem received_zero {γ : Type} (id : Nat) (g : γ → Nat) (l : List γ) :
    received id (l.map fun c => (g c, 0)) = 0 := by
  induction l with
  | nil => rfl
  | cons c l ih => rw [List.map_cons, received_cons, ih, ite_self, add_zero]

theorem credited_foldl {γ : Type} (f : γ → Nat × Int × Int) (l : List γ) (ps : List Purse) :
    l.foldl (fun ps c => credited (f c).1 (f c).2.1 (f c).2.2 ps) ps =
      ps.map fun p => p.credit (received p.id (l.map fun c => ((f c).1, (f c).2.1)))
        (received p.id (l.map fun c => ((f c).1, (f c).2.2))) := by
  induction l generalizing ps with
  | nil =>
    have hsame : ∀ p : Purse, p.credit 0 0 = p := fun p => by simp [Purse.credit]
    simp [received, hsame]
  | cons c l ih =>
    rw [List.foldl_cons, ih, credited, List.map_map]
    refine List.map_congr_left fun p _ => ?_
    simp only [Function.comp_apply, List.map_cons, received_cons]
    by_cases hp : p.id = (f c).1
    · simp [hp, Purse.credit, add_assoc]
    · have hp' : (f c).1 ≠ p.id := fun h => hp h.symm
      simp [hp, hp', Purse.credit]

theorem foldSCORE_ok {x x' : Int} (hd : d.Indexed) (hw : int64Min ≤ w ∧ w ≤ int64Max)
    (hl : ∀ r ∈ l, r.percent ≤ percent100)
    (h : l.foldlM (depositSCORE w) (d, x) = .ok (d', x')) :
    x' = x + (l.map (asSCORE w)).sum ∧ d'.Indexed ∧
      d'.vault = (l.foldl (fun ps r => credited r.toAccount (asSCORE w r) 0 ps) d.purses, d.gpo,
        d.withdrawRoutes) := by
  induction l generalizing d x with
  | nil =>
    cases h
    exact ⟨by simp, hd, rfl⟩
  | cons r l ih =>
    obtain ⟨⟨d₁, x₁⟩, h₁, h⟩ := run_cons.1 h
    obtain ⟨hx, hvault⟩ := depositSCORE_ok hd hw (hl r List.mem_cons_self) h₁
    have hd₁ := hd.credited r.toAccount _ _ (congrArg (·.1) hvault)
    obtain ⟨hx', hd', hvault'⟩ := ih hd₁ (fun q hq => hl q (List.mem_cons_of_mem r hq)) h
    refine ⟨by rw [hx', hx, List.map_cons, List.sum_cons, add_assoc], hd', hvault'.trans ?_⟩
    have hpurses : d₁.purses = credited r.toAccount (asSCORE w r) 0 d.purses :=
      congrArg (·.1) hvault
    rw [List.foldl_cons, ← hpurses]
    exact Prod.ext rfl (congrArg (·.2) hvault)

theorem foldTME_ok {x x' total : Int} {total' : Asset} (hd : d.Indexed)
    (hw : int64Min ≤ w ∧ w ≤ int64Max) (hl : ∀ r ∈ l, r.percent ≤ percent100)
    (h : l.foldlM (depositTME w) (d, x, .coin total) = .ok (d', x', total')) :
    x' = x + (l.map (asTME w)).sum ∧ d'.Indexed ∧ ∃ paid : List (WithdrawRoute × Int),
      paid.map (·.1) = l.filter (!·.autoSCORE) ∧
      d'.vault = (paid.foldl (fun ps c => credited c.1.toAccount 0 c.2 ps) d.purses, d'.gpo,
        d.withdrawRoutes) ∧
      Converts d.gpo (paid.map fun c => (share w c.1, c.2)) d'.gpo := by
  induction l generalizing d x total with
  | nil =>
    cases h
    exact ⟨by simp, hd, [], rfl, rfl, .nil _⟩
  | cons r l ih =>
    obtain ⟨⟨d₁, x₁, total₁⟩, h₁, h⟩ := run_cons.1 h
    obtain ⟨hx, htotal, v, hvault, hconverts, hauto⟩ :=
      depositTME_ok hd hw (hl r List.mem_cons_self) h₁
    have hd₁ := hd.credited r.toAccount _ _ (congrArg (·.1) hvault)
    rw [htotal] at h
    obtain ⟨hx', hd', paid, hpaid, hvault', hconverts'⟩ :=
      ih hd₁ (fun q hq => hl q (List.mem_cons_of_mem r hq)) h
    have hpurses : d₁.purses = credited r.toAccount 0 v d.purses := congrArg (·.1) hvault
    have hroutes : d₁.withdrawRoutes = d.withdrawRoutes := congrArg (·.2.2) hvault
    refine ⟨by rw [hx', hx, List.map_cons, List.sum_cons, add_assoc], hd', ?_⟩
    rw [hpurses, hroutes] at hvault'
    cases hr : r.autoSCORE with
    | true =>
      rw [hauto hr, credited_zero] at hvault'
      rw [hr, if_pos rfl] at hconverts
      exact ⟨paid, by rw [hpaid, List.filter_cons_of_neg (by simp [hr])], hvault',
        hconverts.append hconverts'⟩
    | false =>
      rw [hr, if_neg Bool.false_ne_true] at hconverts
      exact ⟨(r, v) :: paid, by rw [List.map_cons, hpaid, List.filter_cons_of_pos (by simp [hr])],
        hvault', hconverts.append hconverts'⟩

/- The routes of an account, wherever they lead. -/
def routesFrom (d : Database) (id : Nat) : List WithdrawRoute :=
  d.withdrawRoutes.rows.filter fun r => r.fromAccount == id

/-- An instalment `w` of an account: every route credits its destination with its share, in SCORE
or as the TME it is converted to, and the account itself has the rest converted. -/
structure PaysOut (d : Database) (a : Account) (w : Int) (tme : List (WithdrawRoute × Int))
    (rest : Int) (d' : Database) : Prop where
  routes : (tme.map (·.1)).Perm ((d.routesFrom a.id).filter (!·.autoSCORE))
  converted : Converts d.gpo
    ((tme.map fun c => (share w c.1, c.2)) ++ [(w - shares w (d.routesFrom a.id), rest)]) d'.gpo
  paid : d'.purses = d.purses.map fun p => { p with
    score := p.score - (if p.id = a.id then w else 0) +
      shares w ((d.routesFrom a.id).filter fun r => r.autoSCORE && r.toAccount == p.id)
    balance := p.balance + (if p.id = a.id then rest else 0) +
      ((tme.filter fun c => c.1.toAccount == p.id).map (·.2)).sum }

/- No route of the account leads to the account with id 0. -/
theorem routesOf_perm {id : Nat} (h : ∀ r ∈ d.routesFrom id, r.toAccount ≠ 0) :
    (d.routesOf id).Perm (d.routesFrom id) := by
  unfold routesOf sortOn
  refine (List.perm_insertionSort _ _).trans (List.Perm.of_eq ?_)
  refine List.filter_congr fun r hr => ?_
  cases hfrom : r.fromAccount == id with
  | false => rfl
  | true =>
    have hne := h r (List.mem_filter.2 ⟨hr, hfrom⟩)
    simpa [hfrom] using Nat.pos_of_ne_zero hne

theorem received_asSCORE (id : Nat) (l : List WithdrawRoute) :
    received id (l.map fun r => (r.toAccount, asSCORE w r)) =
      shares w (l.filter fun r => r.autoSCORE && r.toAccount == id) := by
  induction l with
  | nil => rfl
  | cons r l ih =>
    rw [List.map_cons, received_cons, ih]
    unfold asSCORE shares
    cases hauto : r.autoSCORE <;> by_cases hid : r.toAccount = id <;> simp [hauto, hid]

theorem sum_passes (w : Int) (l : List WithdrawRoute) :
    (l.map (asSCORE w)).sum + (l.map (asTME w)).sum = shares w l := by
  induction l with
  | nil => rfl
  | cons r l ih =>
    unfold shares at ih ⊢
    have hone : asSCORE w r + asTME w r = share w r := by
      unfold asSCORE asTME
      cases r.autoSCORE <;> simp
    rw [List.map_cons, List.map_cons, List.map_cons, List.sum_cons, List.sum_cons, List.sum_cons,
      ← ih, ← hone]
    ring

theorem shares_perm {l' : List WithdrawRoute} (h : l.Perm l') : shares w l = shares w l' :=
  (h.map (share w)).sum_eq

theorem withdrawInstalment_pays {a : Account} (hd : d.Indexed) (ha : d.getAccount name = .ok a)
    (hw : instalment a = .ok w) (hrange : int64Min ≤ w ∧ w ≤ int64Max)
    (hroutes : ∀ r ∈ d.routesFrom a.id, r.toAccount ≠ 0 ∧ r.percent ≤ percent100)
    (h : d.withdrawInstalment name = .ok d') : ∃ tme rest, d.PaysOut a w tme rest d' := by
  have hperm := routesOf_perm fun r hr => (hroutes r hr).1
  have hpercent : ∀ r ∈ d.routesOf a.id, r.percent ≤ percent100 :=
    fun r hr => (hroutes r (hperm.mem_iff.1 hr)).2
  obtain ⟨a', ha', h⟩ := bind_ok.1 h
  cases ha.symm.trans ha'
  obtain ⟨w', hw', h⟩ := bind_ok.1 h
  cases hw.symm.trans hw'
  obtain ⟨⟨d₁, x₁⟩, h₁, h⟩ := bind_ok.1 h
  obtain ⟨⟨d₂, x₂, total⟩, h₂, h⟩ := bind_ok.1 h
  obtain ⟨left, hleft, h⟩ := bind_ok.1 h
  obtain ⟨toConvert, hconvert, h⟩ := bind_ok.1 h
  obtain ⟨-, -, h⟩ := bind_ok.1 h
  obtain ⟨converted, hconverted, h⟩ := bind_ok.1 h
  obtain ⟨d₃, h₃, h⟩ := bind_ok.1 h
  obtain ⟨d₄, h₄, h⟩ := bind_ok.1 h
  -- the first pass
  obtain ⟨hx₁, hd₁, hvault₁⟩ := foldSCORE_ok hd hrange hpercent h₁
  have hpurses₁ := congrArg (·.1) hvault₁
  have hgpo₁ : d₁.gpo = d.gpo := congrArg (·.2.1) hvault₁
  have hroutes₁ : d₁.withdrawRoutes = d.withdrawRoutes := congrArg (·.2.2) hvault₁
  have hsame : d₁.routesOf a.id = d.routesOf a.id := by
    unfold routesOf
    rw [hroutes₁]
  -- the second pass
  rw [hsame] at h₂
  obtain ⟨hx₂, hd₂, tme, htme, hvault₂, hconverts⟩ := foldTME_ok hd₁ hrange hpercent h₂
  have hpurses₂ := congrArg (·.1) hvault₂
  -- the rest
  have hvault' : d'.vault = d₄.vault := by
    split at h
    · obtain ⟨delta, -, h⟩ := bind_ok.1 h
      exact of_triple adjustProxiedWitnessVotes_vault trivial h
    · cases h
      rfl
  obtain ⟨hcoin, hfund⟩ := leaveFund_ok h₄
  have hvault₃ := modifyAccount_purses (g := Purse.credit (-w) converted.amount) hd₂ h₃
    fun b c hbc => by
      obtain ⟨score, hscore, hbc⟩ := bind_ok.1 hbc
      obtain ⟨balance, hbalance, hbc⟩ := bind_ok.1 hbc
      obtain ⟨withdrawn, -, hbc⟩ := bind_ok.1 hbc
      have hbalance := (coin_add hbalance).2
      dsimp only at hbc
      split at hbc <;> cases hbc <;>
        simp [Account.purse, Purse.credit, safeSub_ok hscore, hbalance, Asset.coin, sub_eq_add_neg]
  have hpurses₃ := congrArg (·.1) hvault₃
  have hgpo₃ : d₃.gpo = d₂.gpo := congrArg (·.2.1) hvault₃
  have hpurses' : d'.purses = d₃.purses := by
    rw [hfund] at hvault'
    exact congrArg (·.1) hvault'
  have hgpo' : d'.gpo = { d₂.gpo with
      totalTMEfundForSCORE := d₂.gpo.totalTMEfundForSCORE - converted.amount
      totalSCORE := d₂.gpo.totalSCORE - toConvert } := by
    rw [hfund, hgpo₃] at hvault'
    exact congrArg (·.2.1) hvault'
  have hsum : toConvert = w - shares w (d.routesFrom a.id) := by
    rw [safeSub_ok hconvert, safeSub_ok hleft, hx₁, hx₂, ← shares_perm hperm, ← sum_passes]
    ring
  have hname : a.name = name := by simpa using List.find?_some (found_ok ha)
  refine ⟨tme, converted.amount, htme ▸ hperm.filter _, ?_, ?_⟩
  · rw [hgpo₁] at hconverts
    refine hconverts.append (.cons ?_ ?_)
    · rw [← hsum, ← hcoin]
      exact hconverted
    · rw [← hsum, ← hgpo']
      exact .nil _
  · have hpaid : d'.purses = ((d.purses.map fun p =>
        p.credit (received p.id ((d.routesOf a.id).map fun r => (r.toAccount, asSCORE w r))) 0).map
        fun p => p.credit 0 (received p.id (tme.map fun c => (c.1.toAccount, c.2)))).map
        fun p => if p.name = name then p.credit (-w) converted.amount else p := by
      refine hpurses'.trans (hpurses₃.trans (congrArg (List.map _) (hpurses₂.trans ?_)))
      refine (congrArg (List.foldl _ · tme) hpurses₁).trans ?_
      dsimp only
      rw [credited_foldl (fun c : WithdrawRoute × Int => (c.1.toAccount, 0, c.2)),
        credited_foldl (fun r : WithdrawRoute => (r.toAccount, asSCORE w r, 0))]
      simp only [received_zero]
    rw [hpaid, List.map_map, List.map_map]
    refine List.map_congr_left fun p hp => ?_
    have hiff : p.name = name ↔ p.id = a.id := by
      have hmem : a.purse ∈ d.purses :=
        List.mem_map_of_mem (List.mem_of_find?_eq_some (found_ok ha))
      constructor
      · intro hp'
        rw [List.inj_on_of_nodup_map hd.names hp hmem (hp'.trans hname.symm)]
        rfl
      · intro hp'
        rw [List.inj_on_of_nodup_map hd.ids hp hmem hp']
        exact hname
    have hscore : received p.id ((d.routesOf a.id).map fun r => (r.toAccount, asSCORE w r)) =
        shares w ((d.routesFrom a.id).filter fun r => r.autoSCORE && r.toAccount == p.id) :=
      (received_asSCORE p.id _).trans (shares_perm (hperm.filter _))
    have htme : received p.id (tme.map fun c => (c.1.toAccount, c.2)) =
        ((tme.filter fun c => c.1.toAccount == p.id).map (·.2)).sum := by
      rw [received, List.filter_map, List.map_map]
      rfl
    rw [← hscore, ← htme]
    by_cases hp' : p.id = a.id
    · simp [Purse.credit, hp', hiff.2 hp']
      constructor <;> ring
    · simp [Purse.credit, hp', mt hiff.1 hp']

end Database
end WeNode.Chain
