import WeNode.Chain.HardforkVotes

/-!
# The keys of accounts

Which keys occur in the authorities of an account, and which steps of the chain change them: six
operations set authorities of one account each, and hardfork 12 takes the posting keys from the
reserved accounts.
-/

set_option mvcgen.warning false

namespace WeNode.Chain

open WeNode.Lib Std.Do

def Authority.keys (a : Authority) : Finset PublicKey := (a.keyAuths.map (·.1)).toFinset

/-- The keys that occur in an authority of the account. -/
def AccountAuthority.keys (a : AccountAuthority) : Finset PublicKey :=
  a.owner.keys ∪ a.active.keys ∪ a.posting.keys

/- The keys of an account among authorities. -/
def keysIn (l : List AccountAuthority) (name : Name) : Finset PublicKey :=
  ((l.find? fun a => a.account == name).map AccountAuthority.keys).getD ∅

/-- The accounts whose posting authorities hardfork 12 closes. -/
def reservedAccounts : List Name := [minerAccount, nullAccount, tempAccount]

/-- The account whose authorities an operation may set. -/
def Operation.authorityTarget : Operation → Option Name
  | .accountCreate op => some op.newAccountName
  | .accountCreateWithDelegation op => some op.newAccountName
  | .accountUpdate op => some op.account
  | .recoverAccount op => some op.accountToRecover
  | .pow op => some op.workerAccount
  | .pow2 op => some op.work.workerAccount
  | _ => none

theorem Operation.onOwner_of_target {o : Operation} {a : Name} (ha : o.authorityTarget = some a)
    (ho : o.creates = false) : o.onOwner = true := by
  cases o with
  | accountCreate | accountCreateWithDelegation | pow | pow2 => cases ho
  | accountUpdate | recoverAccount => rfl
  | _ => cases ha

section

variable {l l' l'' : List AccountAuthority} {name : Name}

theorem keysIn_replaced {x y : AccountAuthority}
    (h : Table.Replaced (fun a => a.account == name) l l' x y) (hy : y.account = x.account)
    (b : Name) : keysIn l' b = if b = name then y.keys else keysIn l b := by
  obtain ⟨pre, post, rfl, rfl, hpre⟩ := h.split
  have hx : x.account = name := eq_of_beq h.key_x
  have hother : b ≠ name → (name == b) = false := fun hb => beq_false_of_ne (Ne.symm hb)
  unfold keysIn
  rw [List.find?_append, List.find?_append, List.find?_cons, List.find?_cons, hy, hx]
  by_cases hb : b = name
  · rw [if_pos hb, hb, List.find?_eq_none.2 (by simpa using hpre), beq_self_eq_true]
    rfl
  · rw [if_neg hb, hother hb]

theorem replaced_keys {x y : AccountAuthority}
    (h : Table.Replaced (fun a => a.account == name) l l' x y) : keysIn l name = x.keys := by
  unfold keysIn
  rw [h.find_eq]
  rfl

/-! ### Changes of one account -/

/- Only `name` has other keys than before, and no account comes or goes. -/
def OneChanged (name : Name) (l l' : List AccountAuthority) : Prop :=
  (∀ b, b ≠ name → keysIn l' b = keysIn l b) ∧
    l'.map AccountAuthority.account = l.map AccountAuthority.account

/- Only `name` has other keys than before, and none less. -/
structure KeysAdded (name : Name) (l l' : List AccountAuthority) : Prop where
  others : ∀ b, b ≠ name → keysIn l' b = keysIn l b
  kept : keysIn l name ⊆ keysIn l' name

/- Keys are lost only, and those of reserved accounts. -/
structure ReservedLose (l l' : List AccountAuthority) : Prop where
  subset : ∀ b, keysIn l' b ⊆ keysIn l b
  others : ∀ b, b ∉ reservedAccounts → keysIn l' b = keysIn l b

theorem OneChanged.refl : OneChanged name l l := ⟨fun _ _ => rfl, rfl⟩

theorem KeysAdded.refl : KeysAdded name l l := ⟨fun _ _ => rfl, Finset.Subset.refl _⟩

theorem KeysAdded.append {a : AccountAuthority} (ha : a.account = name) :
    KeysAdded name l (l ++ [a]) := by
  have hfind (b : Name) : (l ++ [a]).find? (fun x => x.account == b) =
      (l.find? fun x => x.account == b).or (if a.account == b then some a else none) := by
    rw [List.find?_append, List.find?_cons]
    cases a.account == b <;> rfl
  constructor
  · intro b hb
    unfold keysIn
    rw [hfind, ha, beq_false_of_ne (Ne.symm hb), if_neg Bool.false_ne_true, Option.or_none]
  · unfold keysIn
    rw [hfind]
    cases l.find? fun x => x.account == name with
    | none => exact Finset.empty_subset _
    | some x => exact Finset.Subset.refl _

theorem ReservedLose.refl : ReservedLose l l := ⟨fun _ => Finset.Subset.refl _, fun _ _ => rfl⟩

theorem ReservedLose.trans (h : ReservedLose l l') (h' : ReservedLose l' l'') :
    ReservedLose l l'' :=
  ⟨fun b => (h'.subset b).trans (h.subset b),
    fun b hb => (h'.others b hb).trans (h.others b hb)⟩

end

namespace Database

variable {d d' : Database} {name : Name}

def findAuthority (d : Database) (name : Name) : Option AccountAuthority :=
  d.authorities.find fun a => a.account == name

/-- The keys that occur in an authority of the account, if there is one. -/
def keysOf (d : Database) (name : Name) : Finset PublicKey := keysIn d.authorities.rows name

theorem keysOf_some {a : AccountAuthority} (h : d.findAuthority name = some a) :
    a.account = name ∧ a.keys = d.keysOf name := by
  unfold findAuthority Table.find at h
  refine ⟨by simpa using List.find?_some h, ?_⟩
  unfold keysOf keysIn
  rw [h]
  rfl

theorem keysOf_none (h : d.findAuthority name = none) : d.keysOf name = ∅ := by
  unfold findAuthority Table.find at h
  unfold keysOf keysIn
  rw [h]
  rfl

/-! ### Operations -/

theorem modifyAuthority_keys {f : AccountAuthority → AccountAuthority}
    (hf : ∀ a, (f a).account = a.account) :
    ⦃⌜True⌝⦄ d.modifyAuthority name f
      ⦃⇓? d' => ⌜OneChanged name d.core.authorities d'.core.authorities⌝⦄ := by
  apply triple_of
  intro _ d' h
  unfold modifyAuthority at h
  obtain ⟨t, ht, rfl⟩ := of_modify h
  obtain ⟨x, y, hxy, hrep, -⟩ := Table.modify_ok ht
  cases hxy
  exact ⟨fun b hb => (keysIn_replaced hrep (hf x) b).trans (if_neg hb), hrep.map_eq (hf x)⟩

theorem updateOwnerAuthority_keys {owner : Authority} :
    ⦃⌜True⌝⦄ d.updateOwnerAuthority name owner
      ⦃⇓? d' => ⌜OneChanged name d.core.authorities d'.core.authorities⌝⦄ := by
  apply triple_of
  intro _ d' h
  obtain ⟨auth, -, h⟩ := bind_ok.1 h
  have hnote : (d.noteOwnerAuthority name auth.owner).core.authorities = d.core.authorities := by
    rw [core_noteOwnerAuthority]
  have hmodify := of_triple (modifyAuthority_keys (by exact fun _ => rfl)) trivial h
  rwa [hnote] at hmodify

theorem createAuthority_keys (d : Database) (name : Name) (owner active posting : Authority) :
    KeysAdded name d.core.authorities
      (createAuthority d name owner active posting).core.authorities :=
  KeysAdded.append rfl

end Database

open Database

variable {d d' : Database}

theorem AccountUpdateOperation.updateOwner_keys {o : AccountUpdateOperation} :
    ⦃⌜True⌝⦄ o.updateOwner d
      ⦃⇓? d' => ⌜OneChanged o.account d.core.authorities d'.core.authorities⌝⦄ := by
  mvcgen [AccountUpdateOperation.updateOwner, updateOwnerAuthority_keys]
  exact .refl

theorem AccountUpdateOperation.apply_keys {o : AccountUpdateOperation} :
    ⦃⌜True⌝⦄ o.apply d
      ⦃⇓? d' => ⌜OneChanged o.account d.core.authorities d'.core.authorities⌝⦄ := by
  have hm : ∀ (d : Database) (active posting : Option Authority), ⦃⌜True⌝⦄
      d.modifyAuthority o.account (fun a => { a with
        active := active.getD a.active
        posting := posting.getD a.posting })
      ⦃⇓? d' => ⌜OneChanged o.account d.core.authorities d'.core.authorities⌝⦄ :=
    fun _ _ _ => modifyAuthority_keys fun _ => rfl
  mvcgen [AccountUpdateOperation.apply, AccountUpdateOperation.updateOwner_keys, checkIfAny_spec, hm,
    modifyAccount_core]
  all_goals grind [OneChanged]

theorem RecoverAccountOperation.apply_keys {o : RecoverAccountOperation} :
    ⦃⌜True⌝⦄ o.apply d
      ⦃⇓? d' => ⌜OneChanged o.accountToRecover d.core.authorities d'.core.authorities⌝⦄ := by
  mvcgen [RecoverAccountOperation.apply, updateOwnerAuthority_keys, modifyAccount_core]
  all_goals grind [OneChanged, core]

theorem AccountCreateOperation.apply_keys {o : AccountCreateOperation} :
    ⦃⌜True⌝⦄ o.apply d
      ⦃⇓? d' => ⌜KeysAdded o.newAccountName d.core.authorities d'.core.authorities⌝⦄ := by
  mvcgen [AccountCreateOperation.apply, modifyAccount_core, createAccount_core,
    createTMEfundForSCORE_core]
  all_goals grind [createAuthority_keys]

theorem AccountCreateWithDelegationOperation.apply_keys {o : AccountCreateWithDelegationOperation} :
    ⦃⌜True⌝⦄ o.apply d
      ⦃⇓? d' => ⌜KeysAdded o.newAccountName d.core.authorities d'.core.authorities⌝⦄ := by
  mvcgen [AccountCreateWithDelegationOperation.apply, modifyAccount_accounts, createAccount_core,
    createTMEfundForSCORE_core]
  all_goals grind [core, createAuthority_keys]

theorem createWorker_keys {name recovery : Name} {key : PublicKey} :
    ⦃⌜True⌝⦄ createWorker d name key recovery
      ⦃⇓? d' => ⌜KeysAdded name d.core.authorities d'.core.authorities⌝⦄ := by
  mvcgen [createWorker, createAccount_core]
  all_goals grind [createAuthority_keys]

theorem PowOperation.apply_keys {o : PowOperation} {w : Name} :
    ⦃⌜True⌝⦄ o.apply d w
      ⦃⇓? d' => ⌜KeysAdded o.workerAccount d.core.authorities d'.core.authorities⌝⦄ := by
  mvcgen [PowOperation.apply, createWorker_keys, enqueueWorker_core, payPow_core]
  all_goals grind [core_countPow, KeysAdded.refl]

theorem Pow2Operation.enqueue_keys {o : Pow2Operation} :
    ⦃⌜True⌝⦄ o.enqueue d
      ⦃⇓? d' => ⌜KeysAdded o.work.workerAccount d.core.authorities d'.core.authorities⌝⦄ := by
  mvcgen [Pow2Operation.enqueue, createWorker_keys, createWitness_core, modifyWitness_witnesses]
  all_goals grind [KeysAdded.refl]

theorem Pow2Operation.apply_keys {o : Pow2Operation} {w : Name} :
    ⦃⌜True⌝⦄ o.apply d w
      ⦃⇓? d' => ⌜KeysAdded o.work.workerAccount d.core.authorities d'.core.authorities⌝⦄ := by
  have henqueue := @Pow2Operation.enqueue_keys
  mvcgen [Pow2Operation.apply, henqueue, adjustSupply_core, createTMEfundForSCORE_core]
  all_goals grind [core_countPow]

namespace Database

/-- An operation changes the keys of its target only. -/
theorem applyOperation_keys {w : Name} {o : Operation} (h : applyOperation w d o = .ok d')
    {b : Name} (hb : o.authorityTarget ≠ some b) : d'.keysOf b = d.keysOf b := by
  have hcore := congrArg (fun c => keysIn c.authorities b) (of_triple applyOperation_core trivial h)
  have hne {name : Name} (hname : some name ≠ some b) : b ≠ name := fun he => hname (he ▸ rfl)
  cases o with
  | accountCreate op =>
    exact (of_triple AccountCreateOperation.apply_keys trivial h).others b (hne hb)
  | accountCreateWithDelegation op =>
    exact (of_triple AccountCreateWithDelegationOperation.apply_keys trivial h).others b (hne hb)
  | accountUpdate op => exact (of_triple AccountUpdateOperation.apply_keys trivial h).1 b (hne hb)
  | recoverAccount op => exact (of_triple RecoverAccountOperation.apply_keys trivial h).1 b (hne hb)
  | pow op => exact (of_triple PowOperation.apply_keys trivial h).others b (hne hb)
  | pow2 op => exact (of_triple Pow2Operation.apply_keys trivial h).others b (hne hb)
  | _ => exact hcore

/-- An operation that creates an account takes no keys away. -/
theorem applyOperation_adds {w : Name} {o : Operation} (h : applyOperation w d o = .ok d')
    (ho : o.creates = true) (b : Name) : d.keysOf b ⊆ d'.keysOf b := by
  by_cases hb : o.authorityTarget = some b
  · cases o with
    | accountCreate op =>
      cases hb
      exact (of_triple AccountCreateOperation.apply_keys trivial h).kept
    | accountCreateWithDelegation op =>
      cases hb
      exact (of_triple AccountCreateWithDelegationOperation.apply_keys trivial h).kept
    | pow op =>
      cases hb
      exact (of_triple PowOperation.apply_keys trivial h).kept
    | pow2 op =>
      cases hb
      exact (of_triple Pow2Operation.apply_keys trivial h).kept
    | _ => cases ho
  · rw [applyOperation_keys h hb]

theorem findAuthority_isSome :
    (d.findAuthority name).isSome ↔ name ∈ d.authorities.rows.map AccountAuthority.account := by
  unfold findAuthority Table.find
  rw [List.find?_isSome]
  simp

/-- An operation on the authorities of an account leaves it some. -/
theorem applyOperation_present {w : Name} {o : Operation} (h : applyOperation w d o = .ok d')
    (ho : o.onOwner = true) (hd : (d.findAuthority name).isSome) :
    (d'.findAuthority name).isSome := by
  rw [findAuthority_isSome] at hd ⊢
  have hsame : d'.authorities.rows.map AccountAuthority.account =
      d.authorities.rows.map AccountAuthority.account := by
    cases o with
    | accountUpdate op => exact (of_triple AccountUpdateOperation.apply_keys trivial h).2
    | recoverAccount op => exact (of_triple RecoverAccountOperation.apply_keys trivial h).2
    | _ => cases ho
  rwa [hsame]

/-! ### Hardforks -/

theorem closePosting_keys (hname : name ∈ reservedAccounts) :
    ⦃⌜True⌝⦄ d.closePosting name
      ⦃⇓? d' => ⌜ReservedLose d.core.authorities d'.core.authorities⌝⦄ := by
  apply triple_of
  intro _ d' h
  unfold closePosting modifyAuthority at h
  obtain ⟨t, ht, rfl⟩ := of_modify h
  obtain ⟨x, y, hxy, hrep, -⟩ := Table.modify_ok ht
  cases hxy
  have hclosed := keysIn_replaced hrep rfl
  constructor
  · intro b
    by_cases hb : b = name
    · subst hb
      have hkeys : keysIn d.core.authorities b = x.keys := replaced_keys hrep
      rw [hkeys]
      refine ((hclosed b).trans (if_pos rfl)).subset.trans ?_
      exact Finset.union_subset_union_right (Finset.empty_subset _)
    · exact ((hclosed b).trans (if_neg hb)).subset
  · intro b hb
    exact (hclosed b).trans (if_neg (ne_of_mem_of_not_mem hname hb).symm)

theorem applyHardfork12_keys :
    ⦃⌜True⌝⦄ d.applyHardfork12
      ⦃⇓? d' => ⌜ReservedLose d.core.authorities d'.core.authorities⌝⦄ := by
  have hminer : minerAccount ∈ reservedAccounts := List.mem_cons_self
  have hnull : nullAccount ∈ reservedAccounts := List.mem_cons_of_mem _ List.mem_cons_self
  have htemp : tempAccount ∈ reservedAccounts :=
    List.mem_cons_of_mem _ (List.mem_cons_of_mem _ List.mem_cons_self)
  apply triple_of
  intro _ d' h
  obtain ⟨d₁, h₁, h⟩ := bind_ok.1 h
  obtain ⟨d₂, h₂, h⟩ := bind_ok.1 h
  exact ((of_triple (closePosting_keys hminer) trivial h₁).trans
    (of_triple (closePosting_keys hnull) trivial h₂)).trans
    (of_triple (closePosting_keys htemp) trivial h)

/- Hardfork 12 is the only one that changes authorities. -/
theorem hardforkStep_authorities {n : Nat} (hn : n ≠ 12) :
    ⦃⌜True⌝⦄ d.hardforkStep n ⦃⇓? d' => ⌜d'.core.authorities = d.core.authorities⌝⦄ := by
  unfold hardforkStep
  mvcgen [performSCOREsplit_core, retallyWitnessVotes_core, retallyCommentChildren_core,
    resetVirtualScheduleTime_core, applyHardfork17_core, applyHardfork19_core]
  all_goals grind [core, retallyWitnessVoteCounts_core]

theorem hardforkStep_keys {n : Nat} (h : d.hardforkStep n = .ok d') :
    ReservedLose d.core.authorities d'.core.authorities := by
  by_cases hn : n = 12
  · subst hn
    exact of_triple applyHardfork12_keys trivial h
  · rw [of_triple (hardforkStep_authorities hn) trivial h]
    exact .refl

theorem processHardforks_keys (h : d.processHardforks = .ok d') :
    ReservedLose d.core.authorities d'.core.authorities := by
  obtain ⟨hs, hrun, -⟩ := processHardforks_applies h
  refine run_induction
    (P := fun _ d' => ReservedLose d.core.authorities d'.core.authorities) hrun .refl ?_
  intro _ d₁ n d₂ hd₁ _ hstep
  obtain ⟨d₃, h₃, hstep⟩ := bind_ok.1 hstep
  obtain ⟨_, -, hstep⟩ := bind_ok.1 hstep
  obtain ⟨_, -, hstep⟩ := bind_ok.1 hstep
  cases hstep
  have hlose := hardforkStep_keys h₃
  exact hd₁.trans hlose

/- Before the hardforks a block ends without a change of authorities. -/
theorem endBlock_authorities {w : Name} {versions : Name → WitnessVersion} :
    ⦃⌜True⌝⦄ d.endBlock w versions ⦃⇓? d' => ⌜∃ d₁ : Database,
      d₁.core.authorities = d.core.authorities ∧ d₁.processHardforks = .ok d'⌝⦄ := by
  have hfork : ∀ d : Database, ⦃⌜True⌝⦄ d.processHardforks
      ⦃⇓? d' => ⌜d.processHardforks = .ok d'⌝⦄ := fun _ => triple_ok
  mvcgen [endBlock, clearExpiredOrders_core, clearExpiredDelegations_core,
    updateWitnessSchedule_core, settle_core, hfork]
  all_goals grind

/-! ### Genesis -/

theorem genesisAccountName_reserved {i : Nat} (hi : i < genesisAccounts) :
    genesisAccountName i ∉ reservedAccounts := by
  have hall : ∀ i < genesisAccounts, genesisAccountName i ∉ reservedAccounts := by decide
  exact hall i hi

theorem genesisAuthorityRow_keys (id : Nat) :
    (genesisAuthorityRow id).keys = ∅ ∧ (genesisAuthorityRow id).account ∈ reservedAccounts ∨
      3 ≤ id ∧ (genesisAuthorityRow id).keys = {initPublicKey} ∧
        (genesisAuthorityRow id).account = genesisAccountName (id - 3) := by
  match id with
  | 0 | 1 | 2 => exact .inl (by decide)
  | id + 3 => exact .inr ⟨Nat.le_add_left 3 id, rfl, rfl⟩

/-- At the genesis the accounts that hold the supply have one key, the others none. -/
theorem initGenesis_keys {supply : Int} {k : PublicKey} {a : Name} :
    k ∈ (initGenesis supply).keysOf a ↔
      k = initPublicKey ∧ ∃ i < genesisAccounts, a = genesisAccountName i := by
  cases ha : (initGenesis supply).findAuthority a with
  | none =>
    rw [keysOf_none ha]
    refine iff_of_false (Finset.notMem_empty k) ?_
    rintro ⟨-, i, hi, rfl⟩
    have hnone := List.find?_eq_none.1 ha (genesisAuthorityRow (i + 3))
      (List.mem_map_of_mem (List.mem_range.2 (Nat.add_lt_add_right hi 3)))
    exact hnone (beq_self_eq_true _)
  | some x =>
    obtain ⟨haccount, hkeys⟩ := keysOf_some ha
    obtain ⟨id, hid, rfl⟩ := List.mem_map.1 (List.mem_of_find?_eq_some ha)
    rw [← hkeys]
    rcases genesisAuthorityRow_keys id with ⟨hempty, hreserved⟩ | ⟨hle, hinit, hname⟩
    · rw [hempty]
      refine iff_of_false (Finset.notMem_empty k) ?_
      rintro ⟨-, i, hi, rfl⟩
      exact genesisAccountName_reserved hi (haccount ▸ hreserved)
    · rw [hinit, Finset.mem_singleton]
      have hlt : id < genesisAccounts + 3 := List.mem_range.1 hid
      exact (and_iff_left ⟨id - 3, by omega, haccount.symm.trans hname⟩).symm

end Database

/-- The end of a block takes keys from the reserved accounts only. -/
theorem ChainState.finishBlock_keys {env : Env} {skip : Skip} {s s' : ChainState} {b : Block}
    (h : s.finishBlock env skip b = .ok s') (name : Name) :
    s'.db.keysOf name ⊆ s.db.keysOf name ∧
      (name ∉ reservedAccounts → s'.db.keysOf name = s.db.keysOf name) := by
  obtain ⟨d₁, d₂, d₃, d₄, h₁, h₂, h₃, h₄, rfl⟩ := finishBlock_ok.1 h
  have hcore₁ := of_triple updateGlobalDynamicData_core trivial h₁
  have hcore₂ := of_triple updateSigningWitness_core trivial h₂
  have hcore₃ := of_triple updateLastIrreversibleBlock_core trivial h₃
  obtain ⟨d₅, hsame, hprocess⟩ := of_triple endBlock_authorities trivial h₄
  have hlose := processHardforks_keys hprocess
  change d₅.core.authorities = (d₃.createBlockSummary env b).core.authorities at hsame
  rw [core_createBlockSummary, hcore₃, hcore₂, hcore₁] at hsame
  rw [hsame] at hlose
  exact ⟨hlose.subset name, hlose.others name⟩

end WeNode.Chain
