import WeNode.Chain.AuthorityWalk

/-!
# Minimal sets of signatures

`minimize_required_signatures` starts from the available keys that the authorities named first ask
for.  `verify_authority` falls back to the active and owner authorities of an account, whose keys
are not among them, so the set returned passes exactly when the keys asked for suffice.
-/

namespace WeNode.Chain

open WeNode.Lib

namespace Assignment

/-- `get_required_signatures` with the authorities assigned. -/
def required (g : Assignment) (r : Required) (signers availableKeys : List PublicKey) (depth : Nat) :
    Result (List PublicKey) :=
  getRequiredSignatures r signers availableKeys (fun n => .ok (g.active n))
    (fun n => .ok (g.owner n)) (fun n => .ok (g.posting n)) depth

/-- `minimize_required_signatures` with the authorities assigned. -/
def minimize (g : Assignment) (r : Required) (signers availableKeys : List PublicKey) (depth : Nat) :
    Result (List PublicKey) :=
  minimizeRequiredSignatures r signers availableKeys (fun n => .ok (g.active n))
    (fun n => .ok (g.owner n)) (fun n => .ok (g.posting n)) depth

/-- Available keys are returned that pass, and none of them can be left out. -/
def Minimizes (g : Assignment) (r : Required) (signers availableKeys : List PublicKey) (depth : Nat) :
    Prop :=
  ∃ result, g.minimize r signers availableKeys depth = .ok result ∧ result ⊆ availableKeys ∧
    g.verify r result depth = .ok () ∧ ∀ k ∈ result, g.verify r (result.erase k) depth ≠ .ok ()

/-- What `get_required_signatures` goes through. -/
def walked (g : Assignment) (r : Required) : List Entry :=
  if r.posting ≠ [] then (flatSet r.posting).map .account
  else r.other.map .authority ++ (flatSet r.owner).map (fun id => .authority (g.owner id)) ++
    (flatSet r.active).map .account

/-- What `verify_authority` checks. -/
def requirements (g : Assignment) (r : Required) : List Requirement :=
  if r.posting ≠ [] then
    (flatSet r.posting).map fun id =>
      ⟨.missingPostingAuth, .account id, [.authority (g.active id), .authority (g.owner id)]⟩
  else
    r.other.map (fun a => ⟨.missingOtherAuth, .authority a, []⟩) ++
      (flatSet r.active).map (fun id =>
        ⟨.missingActiveAuth, .account id, [.authority (g.owner id)]⟩) ++
      (flatSet r.owner).map fun id => ⟨.missingOwnerAuth, .authority (g.owner id), []⟩

open Classical in
/-- The available keys that the entries gone through ask for, of the keys at hand: those available
and those that have signed. -/
noncomputable def askedKeys (g : Assignment) (r : Required) (signers availableKeys : List PublicKey) :
    List PublicKey :=
  availableKeys.filter fun k =>
    ∃ e ∈ g.walked r, e.Uses (signers ++ availableKeys) (g.inner r) k

/-- Posting authorities are not mixed with others. -/
def Unmixed (r : Required) : Prop := r.posting ≠ [] → r.active = [] ∧ r.owner = [] ∧ r.other = []

variable {g : Assignment} {r : Required} {keys keys' signers availableKeys : List PublicKey}
  {depth : Nat}

theorem verify_eq (hmix : Unmixed r) : g.verify r keys depth =
    (g.requirements r).foldlM (fun s q => q.check (g.inner r) depth s) { signatures := keys } >>=
      checkUsed := by
  unfold verify verifyAuthority requirements inner
  by_cases hposting : r.posting = []
  · rw [if_neg (not_not_intro hposting), if_neg (not_not_intro hposting), if_pos hposting,
      List.foldlM_append, List.foldlM_append]
    simp only [List.foldlM_map, bind_assoc]
    rfl
  · obtain ⟨hactive, howner, hother⟩ := hmix hposting
    rw [if_pos hposting, if_pos hposting, if_neg hposting, (require_eq_ok (u := ())).2 hactive,
      (require_eq_ok (u := ())).2 howner, (require_eq_ok (u := ())).2 hother]
    simp only [List.foldlM_map]
    rfl

theorem required_eq (hmix : Unmixed r) (hsigners : signers.Nodup) :
    g.required r signers availableKeys depth =
      (g.walked r).foldlM (fun s e => goThrough (e.check (g.inner r) depth) s)
          { signatures := signers, availableKeys } >>= fun s => .ok s.requiredKeys := by
  unfold required getRequiredSignatures getSignatureKeys walked inner
  by_cases hposting : r.posting = []
  · rw [if_neg (not_not_intro hposting), if_neg (not_not_intro hposting), if_pos hposting,
      if_pos hsigners, List.foldlM_append, List.foldlM_append]
    simp only [List.foldlM_map, bind_assoc]
    rfl
  · obtain ⟨hactive, howner, hother⟩ := hmix hposting
    rw [if_pos hposting, if_pos hposting, if_neg hposting, if_pos hsigners,
      (require_eq_ok (u := ())).2 hactive, (require_eq_ok (u := ())).2 howner]
    simp only [List.foldlM_map]
    rfl

theorem own_mem_walked {q : Requirement} (hq : q ∈ g.requirements r) : q.own ∈ g.walked r := by
  unfold requirements at hq
  unfold walked
  split at hq
  · next hposting =>
    rw [if_pos hposting]
    obtain ⟨id, hid, rfl⟩ := List.mem_map.1 hq
    exact List.mem_map_of_mem hid
  · next hposting =>
    rw [if_neg hposting]
    simp only [List.mem_append, List.mem_map] at hq ⊢
    rcases hq with (⟨a, ha, rfl⟩ | ⟨id, hid, rfl⟩) | ⟨id, hid, rfl⟩
    · exact .inl (.inl ⟨a, ha, rfl⟩)
    · exact .inr ⟨id, hid, rfl⟩
    · exact .inl (.inr ⟨id, hid, rfl⟩)

theorem mem_walked {e : Entry} (he : e ∈ g.walked r) : ∃ q ∈ g.requirements r, q.own = e := by
  unfold walked at he
  unfold requirements
  split at he
  · next hposting =>
    rw [if_pos hposting]
    obtain ⟨id, hid, rfl⟩ := List.mem_map.1 he
    exact ⟨_, List.mem_map_of_mem hid, rfl⟩
  · next hposting =>
    rw [if_neg hposting]
    simp only [List.mem_append, List.mem_map] at he ⊢
    rcases he with (⟨a, ha, rfl⟩ | ⟨id, hid, rfl⟩) | ⟨id, hid, rfl⟩
    · exact ⟨_, .inl (.inl ⟨a, ha, rfl⟩), rfl⟩
    · exact ⟨_, .inr ⟨id, hid, rfl⟩, rfl⟩
    · exact ⟨_, .inl (.inr ⟨id, hid, rfl⟩), rfl⟩

/- The authorities of every entry are named by the transaction. -/
theorem entries_root {q : Requirement} (hq : q ∈ g.requirements r) {e : Entry} (he : e ∈ q.entries)
    {a : Authority} (ha : e.Root (g.inner r) a) : g.Root r a := by
  unfold requirements at hq
  split at hq
  · next hposting =>
    obtain ⟨id, hid, rfl⟩ := List.mem_map.1 hq
    have hid := mem_flatSet.1 hid
    simp only [Requirement.entries, List.mem_cons, List.not_mem_nil, or_false] at he
    rcases he with rfl | rfl | rfl
    · obtain ⟨-, rfl⟩ := ha
      rw [inner, if_neg hposting]
      exact .posting hid
    · exact ha ▸ .active (.inr hid)
    · exact ha ▸ .owner (.inr (.inr hid))
  · next hposting =>
    have hinner : g.inner r = g.active := if_pos (not_not.1 hposting)
    rw [hinner] at ha
    simp only [List.mem_append, List.mem_map] at hq
    rcases hq with (⟨b, hb, rfl⟩ | ⟨id, hid, rfl⟩) | ⟨id, hid, rfl⟩
    · simp only [Requirement.entries, List.mem_cons, List.not_mem_nil, or_false] at he
      rcases he with rfl
      exact ha ▸ .other hb
    · have hid := mem_flatSet.1 hid
      simp only [Requirement.entries, List.mem_cons, List.not_mem_nil, or_false] at he
      rcases he with rfl | rfl
      · exact ha.2 ▸ .active (.inl hid)
      · exact ha ▸ .owner (.inl hid)
    · have hid := mem_flatSet.1 hid
      simp only [Requirement.entries, List.mem_cons, List.not_mem_nil, or_false] at he
      rcases he with rfl
      exact ha ▸ .owner (.inr (.inl hid))

theorem account_met {id : Name} {S : List PublicKey} :
    (Entry.account id).Met S (g.inner r) ↔ id = tempAccount ∨
      ((g.inner r id).quorum S).Met (satisfiedAccounts S (g.inner r)) :=
  Quorum.mem_counted

/-- What `verify_authority` checks is that every requirement is met. -/
theorem meets_iff (hmix : Unmixed r) : (∀ q ∈ g.requirements r, q.Met keys (g.inner r)) ↔
    g.Meets r keys (satisfiedAccounts keys (g.inner r)) := by
  unfold requirements
  by_cases hposting : r.posting = []
  · have hinner : g.inner r = g.active := if_pos hposting
    rw [if_neg (not_not_intro hposting)]
    simp only [List.forall_mem_append, List.forall_mem_map, Requirement.Met, Requirement.entries,
      List.exists_mem_cons_iff, List.not_mem_nil, false_and, exists_false, or_false, account_met]
    constructor
    · rintro ⟨⟨hother, hactive⟩, howner⟩
      refine ⟨hother, fun id hid => ?_, fun id hid => howner id (mem_flatSet.2 hid), ?_⟩
      · have := hactive id (mem_flatSet.2 hid)
        rwa [hinner] at this ⊢
      · simp [hposting]
    · rintro ⟨hother, hactive, howner, -⟩
      refine ⟨⟨hother, fun id hid => ?_⟩, fun id hid => howner id (mem_flatSet.1 hid)⟩
      have := hactive id (mem_flatSet.1 hid)
      rwa [hinner] at this ⊢
  · obtain ⟨hactive, howner, hother⟩ := hmix hposting
    have hinner : g.inner r = g.posting := if_neg hposting
    rw [if_pos hposting]
    simp only [List.forall_mem_map, Requirement.Met, Requirement.entries,
      List.exists_mem_cons_iff, List.not_mem_nil, false_and, exists_false, or_false, account_met]
    constructor
    · intro hmet
      refine ⟨by simp [hother], by simp [hactive], by simp [howner], fun id hid => ?_⟩
      have := hmet id (mem_flatSet.2 hid)
      rwa [hinner] at this ⊢
    · rintro ⟨-, -, -, hmet⟩ id hid
      have := hmet id (mem_flatSet.1 hid)
      rwa [hinner] at this ⊢

theorem exception_missing {q : Requirement} (hq : q ∈ g.requirements r) :
    q.exception.isMissingAuth = true := by
  unfold requirements at hq
  split at hq
  · obtain ⟨id, -, rfl⟩ := List.mem_map.1 hq
    rfl
  · simp only [List.mem_append, List.mem_map] at hq
    rcases hq with (⟨a, -, rfl⟩ | ⟨id, -, rfl⟩) | ⟨id, -, rfl⟩ <;> rfl

/-- Accounts nested deeper than the recursion limit are idle, and no sum of weights wraps around. -/
structure Shallow (g : Assignment) (r : Required) (keys : List PublicKey) (depth : Nat) : Prop where
  settled : ∀ a, g.Root r a → Settled keys (g.inner r) depth a
  small : ∀ a, g.Reaches r a → a.totalWeight < two32

theorem Shallow.plain (h : g.Shallow r keys' depth) (hkeys : keys ⊆ keys') :
    ∀ q ∈ g.requirements r, ∀ e ∈ q.entries, e.Plain keys (g.inner r) depth := by
  intro q hq e he a ha
  have hroot := entries_root hq he ha
  exact ⟨(h.settled a hroot).anti hkeys, fun b hb => h.small b ⟨a, hroot, hb⟩⟩

theorem walking_start (roots : Authority → Prop)
    (h : ∀ k, k ∈ signers ∨ k ∈ availableKeys ↔ k ∈ keys) :
    Walking keys availableKeys (g.inner r) roots { signatures := signers, availableKeys } where
  available := rfl
  atHand := h
  signed := nofun
  temp := List.mem_singleton.2 rfl
  approved _ hn := Quorum.mem_counted.2 (.inl (List.mem_singleton.1 hn))
  done _ hn htemp := absurd (List.mem_singleton.1 hn) htemp
  used := nofun

/-- Keys pass that meet every requirement and are all asked for. -/
theorem verify_ok (hmix : Unmixed r) (hshallow : g.Shallow r keys depth)
    (hmet : ∀ q ∈ g.requirements r, q.Met keys (g.inner r))
    (huses : ∀ k ∈ keys, ∃ e ∈ g.walked r, e.Uses keys (g.inner r) k) :
    g.verify r keys depth = .ok () := by
  have hstart : Walking keys [] (g.inner r) (g.Root r) { signatures := keys, availableKeys := [] } :=
    walking_start _ (by simp)
  rw [verify_eq hmix]
  rcases Requirement.checks_walk (hshallow.plain (List.Subset.refl _))
    (fun q hq e he a ha => entries_root hq he ha) hstart with
    ⟨s, hrun, hs, -, hall⟩ | ⟨q, hq, -, hnot⟩
  · rw [hrun]
    show checkUsed s = .ok ()
    unfold checkUsed
    rw [if_pos]
    refine List.all_eq_true.2 fun k hk => decide_eq_true ?_
    obtain ⟨e, he, hasked⟩ := huses k ((hs.atHand k).1 (.inl hk))
    obtain ⟨q, hq, rfl⟩ := mem_walked he
    exact (hall q hq).2 k hasked
  · exact absurd (hmet q hq) hnot

theorem verify_missing (hmix : Unmixed r) (hshallow : g.Shallow r keys depth)
    (hnot : ¬ ∀ q ∈ g.requirements r, q.Met keys (g.inner r)) :
    ∃ e, g.verify r keys depth = .error e ∧ e.isMissingAuth = true := by
  have hstart : Walking keys [] (g.inner r) (g.Root r) { signatures := keys, availableKeys := [] } :=
    walking_start _ (by simp)
  rw [verify_eq hmix]
  rcases Requirement.checks_walk (hshallow.plain (List.Subset.refl _))
    (fun q hq e he a ha => entries_root hq he ha) hstart with
    ⟨s, -, -, -, hall⟩ | ⟨q, hq, hrun, -⟩
  · exact absurd (fun q hq => (hall q hq).1) hnot
  · rw [hrun]
    exact ⟨q.exception, rfl, exception_missing hq⟩

theorem mem_askedKeys {k : PublicKey} : k ∈ g.askedKeys r signers availableKeys ↔
    k ∈ availableKeys ∧ ∃ e ∈ g.walked r, e.Uses (signers ++ availableKeys) (g.inner r) k := by
  classical
  unfold askedKeys
  rw [List.mem_filter, decide_eq_true_iff]

/-- What `get_required_signatures` returns are the available keys asked for. -/
theorem required_spec (hmix : Unmixed r) (hshallow : g.Shallow r (signers ++ availableKeys) depth)
    (hsigners : signers.Nodup) :
    ∃ s, g.required r signers availableKeys depth = .ok s ∧ s.Nodup ∧
      ∀ k, k ∈ s ↔ k ∈ g.askedKeys r signers availableKeys := by
  let roots : Authority → Prop := fun a => ∃ e ∈ g.walked r, e.Root (g.inner r) a
  have hplain : ∀ e ∈ g.walked r, e.Plain (signers ++ availableKeys) (g.inner r) depth := by
    intro e he
    obtain ⟨q, hq, rfl⟩ := mem_walked he
    exact hshallow.plain (List.Subset.refl _) q hq _ List.mem_cons_self
  obtain ⟨s, hrun, hs, -, hall⟩ := Entry.goThrough_walk hplain (fun e he a ha => ⟨e, he, ha⟩)
    (walking_start roots fun k => List.mem_append.symm)
  rw [required_eq hmix hsigners, hrun]
  refine ⟨s.requiredKeys, rfl, List.nodup_dedup _, fun k => ?_⟩
  unfold SignState.requiredKeys
  rw [mem_flatSet, List.mem_filter, decide_eq_true_iff, hs.available, mem_askedKeys]
  constructor
  · rintro ⟨-, hused, hk⟩
    obtain ⟨a, ⟨e, he, ha⟩, huses⟩ := hs.used k hused
    exact ⟨hk, e, he, a, ha, huses⟩
  · rintro ⟨hk, e, he, huses⟩
    have hused := hall e he k huses
    exact ⟨hs.signed k hused, hused, hk⟩

theorem Shallow.anti (h : g.Shallow r keys' depth) (hkeys : keys ⊆ keys') : g.Shallow r keys depth :=
  ⟨fun a ha => (h.settled a ha).anti hkeys, h.small⟩

theorem unmixed_of_verify (h : g.verify r keys depth = .ok ()) : Unmixed r := by
  intro hposting
  unfold verify verifyAuthority at h
  rw [if_pos hposting] at h
  obtain ⟨_, hactive, h⟩ := bind_ok.1 h
  obtain ⟨_, howner, h⟩ := bind_ok.1 h
  obtain ⟨_, hother, -⟩ := bind_ok.1 h
  exact ⟨require_ok hactive, require_ok howner, require_ok hother⟩

theorem meets_mono (hmix : Unmixed r) (hkeys : keys ⊆ keys')
    (h : g.Meets r keys (satisfiedAccounts keys (g.inner r))) :
    g.Meets r keys' (satisfiedAccounts keys' (g.inner r)) :=
  (meets_iff hmix).1 fun q hq => ((meets_iff hmix).2 h q hq).mono hkeys

/-- Of the keys asked for, those pass that meet every requirement. -/
theorem verify_asked (hmix : Unmixed r) (hshallow : g.Shallow r (signers ++ availableKeys) depth)
    (hkeys : ∀ k ∈ keys, k ∈ g.askedKeys r signers availableKeys) :
    (g.verify r keys depth = .ok () ↔ g.Meets r keys (satisfiedAccounts keys (g.inner r))) ∧
      (g.verify r keys depth = .ok () ∨
        ∃ e, g.verify r keys depth = .error e ∧ e.isMissingAuth = true) := by
  have hsub : keys ⊆ signers ++ availableKeys :=
    fun k hk => List.mem_append_right _ (mem_askedKeys.1 (hkeys k hk)).1
  have hbounded := hshallow.anti hsub
  rw [← meets_iff hmix]
  by_cases hmet : ∀ q ∈ g.requirements r, q.Met keys (g.inner r)
  · have hok : g.verify r keys depth = .ok () := by
      refine verify_ok hmix hbounded hmet fun k hk => ?_
      obtain ⟨-, e, he, huses⟩ := mem_askedKeys.1 (hkeys k hk)
      exact ⟨e, he, huses.anti hsub hk⟩
    exact ⟨iff_of_true hok hmet, .inl hok⟩
  · obtain ⟨e, herror, hmissing⟩ := verify_missing hmix hbounded hmet
    exact ⟨iff_of_false (by rw [herror]; nofun) hmet, .inr ⟨e, herror, hmissing⟩⟩

/-- Keys at hand that are available suffice for what the authorities named first ask for. -/
theorem meets_askedKeys (hmix : Unmixed r) (hshallow : g.Shallow r (signers ++ availableKeys) depth)
    (havailable : ∀ k ∈ signers, (∃ a, g.Reaches r a ∧ k ∈ a.keyAuths.map (·.1)) → k ∈ availableKeys)
    (hmet : ∀ e ∈ g.walked r, e.Met (signers ++ availableKeys) (g.inner r)) :
    g.Meets r (g.askedKeys r signers availableKeys)
      (satisfiedAccounts (g.askedKeys r signers availableKeys) (g.inner r)) := by
  rw [← meets_iff hmix]
  intro q hq
  have hown := own_mem_walked hq
  have hsettled : ∀ a, q.own.Root (g.inner r) a →
      Settled (signers ++ availableKeys) (g.inner r) depth a := fun a ha =>
    (hshallow.plain (List.Subset.refl _) q hq _ List.mem_cons_self a ha).1
  refine ⟨q.own, List.mem_cons_self, Entry.met_of_uses hsettled (fun k huses => ?_) (hmet _ hown)⟩
  refine mem_askedKeys.2 ⟨?_, q.own, hown, huses⟩
  obtain ⟨a, ha, hkey⟩ := huses
  have hatHand : k ∈ signers ++ availableKeys := by
    obtain ⟨_, _, _, hk⟩ := hkey
    exact hk
  rcases List.mem_append.1 hatHand with hk | hk
  · obtain ⟨b, hpath, hb⟩ := hkey.key
    exact havailable k hk ⟨b, ⟨a, entries_root hq List.mem_cons_self ha, hpath⟩, hb⟩
  · exact hk

theorem required_duplicate (hsigners : ¬ signers.Nodup) :
    g.required r signers availableKeys depth = .error .duplicateSig := by
  unfold required getRequiredSignatures getSignatureKeys
  rw [if_neg hsigners]
  split <;> rfl

theorem minimize_eq : g.minimize r signers availableKeys depth =
    g.required r signers availableKeys depth >>= fun s =>
      minimizeLoop (fun l => g.verify r l depth) s s := rfl

/-- `verify_authority` accepts the keys. -/
def passes (g : Assignment) (r : Required) (depth : Nat) (keys : List PublicKey) : Bool :=
  g.verify r keys depth = .ok ()

theorem passes_iff : g.passes r depth keys = true ↔ g.verify r keys depth = .ok () :=
  decide_eq_true_iff

/- An account whose active and owner authorities have a key each. -/
def keyPair : Assignment where
  active _ := { weightThreshold := 1, keyAuths := [(7, 1)] }
  owner _ := { weightThreshold := 1, keyAuths := [(8, 1)] }
  posting _ := { weightThreshold := 1 }

theorem keyPair_shallow {keys : List PublicKey} : keyPair.Shallow { active := [1] } keys 2 := by
  have hroot : ∀ a, keyPair.Root { active := [1] } a → a.accountAuths = [] ∧ a.totalWeight = 1 := by
    rintro a (ha | - | - | hid)
    · cases ha
    · exact ⟨rfl, rfl⟩
    · exact ⟨rfl, rfl⟩
    · cases hid
  constructor
  · intro a ha m hm
    rw [(hroot a ha).1] at hm
    cases hm
  · rintro a ⟨root, hr, hpath⟩
    rcases hpath.cases_head with rfl | ⟨b, ⟨m, hm, -⟩, -⟩
    · rw [(hroot root hr).2]
      decide
    · rw [(hroot root hr).1] at hm
      cases hm

end Assignment

end WeNode.Chain
