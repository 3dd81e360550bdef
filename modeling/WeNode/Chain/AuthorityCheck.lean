import Mathlib.Data.List.Dedup
import Mathlib.Data.List.Sort
import WeNode.Chain.Authorities
import WeNode.Lib.Quorum
import WeNode.Lib.Runs

/-!
# What `verify_authority` accepts

An authority is met by keys and by accounts whose own authority is met, which may refer to each
other.  The checks approve accounts that count under that rule, and miss none that counts within
the depth they go to.
-/

namespace WeNode.Chain

open WeNode.Lib

/-- The rule of an authority, under the keys that signed. -/
def Authority.quorum (sigs : List PublicKey) (a : Authority) : Quorum Name where
  threshold := a.weightThreshold
  own := ((a.keyAuths.filter (·.1 ∈ sigs)).map (·.2)).sum
  members := a.accountAuths

def Authority.totalWeight (a : Authority) : Nat :=
  (a.keyAuths.map (·.2)).sum + (a.accountAuths.map (·.2)).sum

/- The second authority is that of an account named in the first. -/
def Refers (inner : Name → Authority) (a b : Authority) : Prop :=
  ∃ m ∈ a.accountAuths, b = inner m.1

/-- The accounts that count: `temp`, and those whose authority is met by the keys and by accounts
that count. -/
def satisfiedAccounts (sigs : List PublicKey) (inner : Name → Authority) : Set Name :=
  Quorum.counted {tempAccount} fun n => (inner n).quorum sigs

/-- The accounts that count with no more than `d` of them nested in each other. -/
def satisfiedWithin (sigs : List PublicKey) (inner : Name → Authority) (d : Nat) : Set Name :=
  Quorum.within {tempAccount} (fun n => (inner n).quorum sigs) d

section Checks

variable {sigs : List PublicKey} {inner : Name → Authority} {reached : Authority → Prop}

/-- What a check keeps: the keys, and that only accounts that count are approved and only keys of
authorities reached are marked as used. -/
structure Checking (sigs : List PublicKey) (inner : Name → Authority) (reached : Authority → Prop)
    (s : SignState) : Prop where
  signatures : s.signatures = sigs
  available : s.availableKeys = []
  temp : tempAccount ∈ s.approvedBy
  approved : ∀ n ∈ s.approvedBy, n ∈ satisfiedAccounts sigs inner
  used : ∀ k ∈ s.used, ∃ a, reached a ∧ k ∈ a.keyAuths.map (·.1)

/-- A check that never throws, approves only what is `sound` and accepts whatever is `complete`. -/
def Checks (sigs : List PublicKey) (inner : Name → Authority) (reached : Authority → Prop)
    (check : SignState → Result (Bool × SignState)) (sound complete : Prop) : Prop :=
  ∀ s, Checking sigs inner reached s → ∃ ok s', check s = .ok (ok, s') ∧
    Checking sigs inner reached s' ∧ (ok = true → sound) ∧ (complete → ok = true)

theorem Checks.imp {check : SignState → Result (Bool × SignState)}
    {sound sound' complete complete' : Prop} (h : Checks sigs inner reached check sound complete)
    (hsound : sound → sound') (hcomplete : complete' → complete) :
    Checks sigs inner reached check sound' complete' := by
  intro s hs
  obtain ⟨ok, s', hrun, hs', hok, hdone⟩ := h s hs
  exact ⟨ok, s', hrun, hs', fun h => hsound (hok h), fun h => hdone (hcomplete h)⟩

theorem Checking.signedBy {s : SignState} (h : Checking sigs inner reached s) {key : PublicKey}
    (hkey : ∃ a, reached a ∧ key ∈ a.keyAuths.map (·.1)) :
    (s.signedBy key).1 = decide (key ∈ sigs) ∧ Checking sigs inner reached (s.signedBy key).2 := by
  unfold SignState.signedBy
  rw [h.signatures, h.available]
  by_cases hmem : key ∈ sigs
  · rw [if_pos hmem]
    refine ⟨(decide_eq_true hmem).symm, rfl, rfl, h.temp, h.approved, ?_⟩
    intro k hk
    rcases List.mem_cons.1 hk with rfl | hk
    · exact hkey
    · exact h.used k hk
  · rw [if_neg hmem, if_neg List.not_mem_nil]
    exact ⟨(decide_eq_false hmem).symm, h⟩

/- The weight of the keys that signed. -/
def signedWeight (sigs : List PublicKey) (keys : List (PublicKey × Nat)) : Nat :=
  ((keys.filter (·.1 ∈ sigs)).map (·.2)).sum

theorem signedWeight_of_mem {m : PublicKey × Nat} {keys : List (PublicKey × Nat)} (h : m.1 ∈ sigs) :
    signedWeight sigs (m :: keys) = m.2 + signedWeight sigs keys := by
  unfold signedWeight
  rw [List.filter_cons_of_pos (by simpa using h)]
  rfl

theorem signedWeight_of_not_mem {m : PublicKey × Nat} {keys : List (PublicKey × Nat)}
    (h : m.1 ∉ sigs) : signedWeight sigs (m :: keys) = signedWeight sigs keys := by
  unfold signedWeight
  rw [List.filter_cons_of_neg (by simpa using h)]

theorem signedWeight_le (sigs : List PublicKey) (keys : List (PublicKey × Nat)) :
    signedWeight sigs keys ≤ (keys.map (·.2)).sum := by
  induction keys with
  | nil => rfl
  | cons m keys ih =>
    rw [List.map_cons, List.sum_cons]
    by_cases h : m.1 ∈ sigs
    · rw [signedWeight_of_mem h]
      omega
    · rw [signedWeight_of_not_mem h]
      omega

theorem checkKeys_spec {threshold total total' : Nat} {keys : List (PublicKey × Nat)}
    {s s' : SignState} {ok : Bool} (hs : Checking sigs inner reached s)
    (hkeys : ∀ m ∈ keys, ∃ a, reached a ∧ m.1 ∈ a.keyAuths.map (·.1))
    (h : checkKeys threshold keys total s = (ok, total', s')) :
    Checking sigs inner reached s' ∧ (ok = true → threshold ≤ total + signedWeight sigs keys) ∧
      total' ≤ total + signedWeight sigs keys ∧
      (total + (keys.map (·.2)).sum < two32 → ok = false →
        total' = total + signedWeight sigs keys) := by
  induction keys generalizing total s with
  | nil =>
    cases h
    exact ⟨hs, nofun, Nat.le_refl _, fun _ _ => rfl⟩
  | cons m keys ih =>
    obtain ⟨key, weight⟩ := m
    obtain ⟨hsigned, hs₁⟩ := hs.signedBy (hkeys (key, weight) (by simp))
    have hrest := fun m hm => hkeys m (List.mem_cons_of_mem _ hm)
    have hmod := Nat.mod_le (total + weight) two32
    simp only [checkKeys, hsigned] at h
    rw [List.map_cons, List.sum_cons]
    by_cases hmem : key ∈ sigs
    · rw [signedWeight_of_mem hmem]
      rw [if_pos (decide_eq_true hmem)] at h
      split at h
      · next hreached =>
        cases h
        exact ⟨hs₁, fun _ => by omega, by omega, nofun⟩
      · obtain ⟨hs', hsound, hle, hexact⟩ := ih hs₁ hrest h
        refine ⟨hs', fun hok => ?_, by omega, fun hsmall hok => ?_⟩
        · have := hsound hok
          omega
        · have hno : (total + weight) % two32 = total + weight := Nat.mod_eq_of_lt (by omega)
          have := hexact (by dsimp only at hsmall; omega) hok
          omega
    · rw [signedWeight_of_not_mem hmem]
      rw [if_neg (by simpa using hmem)] at h
      obtain ⟨hs', hsound, hle, hexact⟩ := ih hs₁ hrest h
      exact ⟨hs', hsound, hle, fun hsmall => hexact (by omega)⟩

/- An account is approved already, or its authority is checked now. -/
theorem approve_spec {check : Name → SignState → Result (Bool × SignState)} {counting : Set Name}
    {s : SignState} {account : Name} (hs : Checking sigs inner reached s)
    (hcheck : Checks sigs inner reached (check account)
      (account ∈ satisfiedAccounts sigs inner) (account ≠ tempAccount ∧ account ∈ counting)) :
    ∃ approved s', approve check account s = .ok (approved, s') ∧ Checking sigs inner reached s' ∧
      (approved = true → account ∈ satisfiedAccounts sigs inner) ∧
      (account ∈ counting → approved = true) := by
  unfold approve
  by_cases happroved : account ∈ s.approvedBy
  · rw [if_pos happroved]
    exact ⟨true, s, rfl, hs, fun _ => hs.approved account happroved, fun _ => rfl⟩
  · obtain ⟨ok, s₁, hrun, hs₁, hsound, hcomplete⟩ := hcheck s hs
    have htemp : account ≠ tempAccount := by
      rintro rfl
      exact happroved hs.temp
    rw [if_neg happroved, hrun]
    cases ok with
    | false => exact ⟨false, s₁, rfl, hs₁, nofun, fun h => hcomplete ⟨htemp, h⟩⟩
    | true =>
      refine ⟨true, { s₁ with approvedBy := account :: s₁.approvedBy }, rfl, ?_,
        fun _ => hsound rfl, fun _ => rfl⟩
      refine ⟨hs₁.signatures, hs₁.available, List.mem_cons_of_mem _ hs₁.temp, ?_, hs₁.used⟩
      intro n hn
      rcases List.mem_cons.1 hn with rfl | hn
      · exact hsound rfl
      · exact hs₁.approved n hn

theorem checkAccounts_spec {check : Name → SignState → Result (Bool × SignState)}
    {counting : Set Name} {accounts : List (Name × Nat)} (threshold total : Nat)
    (hcheck : ∀ m ∈ accounts, Checks sigs inner reached (check m.1)
      (m.1 ∈ satisfiedAccounts sigs inner) (m.1 ≠ tempAccount ∧ m.1 ∈ counting)) :
    Checks sigs inner reached (checkAccounts check threshold accounts total)
      (threshold ≤ total + Quorum.weightIn (satisfiedAccounts sigs inner) accounts)
      (total + (accounts.map (·.2)).sum < two32 ∧
        threshold ≤ total + Quorum.weightIn counting accounts) := by
  induction accounts generalizing total with
  | nil =>
    intro s hs
    exact ⟨decide (threshold ≤ total), s, rfl, hs, of_decide_eq_true,
      fun h => decide_eq_true h.2⟩
  | cons m accounts ih =>
    obtain ⟨account, weight⟩ := m
    have hrest := fun m hm => hcheck m (List.mem_cons_of_mem _ hm)
    intro s hs
    obtain ⟨approved, s₁, hrun, hs₁, hsound, hcomplete⟩ :=
      approve_spec hs (hcheck (account, weight) (by simp))
    have hmod := Nat.mod_le (total + weight) two32
    unfold checkAccounts
    rw [hrun, List.map_cons, List.sum_cons]
    cases approved with
    | true =>
      have hcounts := Quorum.weightIn_of_mem (m := (account, weight)) (l := accounts) (hsound rfl)
      have hcounting := Quorum.weightIn_cons_le (S := counting) (m := (account, weight))
        (l := accounts)
      dsimp only at hcounts hcounting ⊢
      by_cases hreached : threshold ≤ (total + weight) % two32
      · refine ⟨true, s₁, ?_, hs₁, fun _ => by omega, fun _ => rfl⟩
        show (if threshold ≤ (total + weight) % two32 then _ else _) = _
        rw [if_pos hreached]
        rfl
      · obtain ⟨ok, s', hrun', hs', hsound', hcomplete'⟩ := ih _ hrest s₁ hs₁
        refine ⟨ok, s', ?_, hs', fun hok => ?_, fun h => ?_⟩
        · show (if threshold ≤ (total + weight) % two32 then _ else _) = _
          rw [if_neg hreached]
          exact hrun'
        · have := hsound' hok
          omega
        · have hno : (total + weight) % two32 = total + weight := Nat.mod_eq_of_lt (by omega)
          exact hcomplete' (by omega)
    | false =>
      have hcounting : account ∉ counting := fun h => by simpa using hcomplete h
      have hsame := Quorum.weightIn_of_not_mem (m := (account, weight)) (l := accounts) hcounting
      have hgrows := Quorum.le_weightIn_cons (S := satisfiedAccounts sigs inner)
        (m := (account, weight)) (l := accounts)
      dsimp only at hsame hgrows ⊢
      obtain ⟨ok, s', hrun', hs', hsound', hcomplete'⟩ := ih _ hrest s₁ hs₁
      refine ⟨ok, s', hrun', hs', fun hok => ?_, fun h => hcomplete' (by omega)⟩
      have := hsound' hok
      omega

/- The keys of an authority, then its accounts. -/
theorem checkParts_spec (check : Name → SignState → Result (Bool × SignState))
    (counting : Set Name) {auth : Authority} (hauth : reached auth)
    (hcheck : ∀ m ∈ auth.accountAuths, Checks sigs inner reached (check m.1)
      (m.1 ∈ satisfiedAccounts sigs inner) (m.1 ≠ tempAccount ∧ m.1 ∈ counting)) :
    Checks sigs inner reached
      (fun s => match checkKeys auth.weightThreshold auth.keyAuths 0 s with
        | (met, total, s) => if met then .ok (true, s)
          else checkAccounts check auth.weightThreshold auth.accountAuths total s)
      ((auth.quorum sigs).Met (satisfiedAccounts sigs inner))
      (auth.totalWeight < two32 ∧ (auth.quorum sigs).Met counting) := by
  intro s hs
  obtain ⟨met, total, s₁, hkeys⟩ : ∃ met total s₁,
      checkKeys auth.weightThreshold auth.keyAuths 0 s = (met, total, s₁) := ⟨_, _, _, rfl⟩
  obtain ⟨hs₁, hsound, hle, hexact⟩ := checkKeys_spec hs
    (fun m hm => ⟨auth, hauth, List.mem_map_of_mem hm⟩) hkeys
  have hsigned := signedWeight_le sigs auth.keyAuths
  unfold Quorum.Met
  show ∃ ok s', _ ∧ _ ∧ (ok = true → auth.weightThreshold ≤ signedWeight sigs auth.keyAuths + _) ∧
    (_ ∧ auth.weightThreshold ≤ signedWeight sigs auth.keyAuths + _ → ok = true)
  simp only [hkeys]
  cases met with
  | true =>
    refine ⟨true, s₁, rfl, hs₁, fun _ => ?_, fun _ => rfl⟩
    have := hsound rfl
    omega
  | false =>
    obtain ⟨ok, s', hrun, hs', hsound', hcomplete'⟩ :=
      checkAccounts_spec auth.weightThreshold total hcheck s₁ hs₁
    refine ⟨ok, s', hrun, hs', fun hok => ?_, fun h => hcomplete' ?_⟩
    · have := hsound' hok
      show auth.weightThreshold ≤ _ + Quorum.weightIn _ auth.accountAuths
      omega
    · obtain ⟨hsmall, hmet⟩ := h
      unfold Authority.totalWeight at hsmall
      have hmet : auth.weightThreshold ≤ signedWeight sigs auth.keyAuths +
        Quorum.weightIn counting auth.accountAuths := hmet
      have := hexact (by omega) rfl
      omega

/-- One authority: what is accepted counts, and what counts within the recursion left is
accepted. -/
theorem checkAuthorityAt_spec (hclosed : ∀ a b, reached a → Refers inner a b → reached b)
    (left : Nat) {auth : Authority} (hauth : reached auth) :
    Checks sigs inner reached (checkAuthorityAt (fun n => .ok (inner n)) left auth)
      ((auth.quorum sigs).Met (satisfiedAccounts sigs inner))
      ((∀ a, reached a → a.totalWeight < two32) ∧
        (auth.quorum sigs).Met (satisfiedWithin sigs inner left)) := by
  induction left generalizing auth with
  | zero =>
    intro s hs
    obtain ⟨ok, s', hrun, hs', hsound, hcomplete⟩ := checkParts_spec
      (fun _ s => .ok (false, s)) (satisfiedWithin sigs inner 0) hauth
      (fun _ _ s hs => ⟨false, s, rfl, hs, nofun, fun h => absurd h.2 h.1⟩) s hs
    exact ⟨ok, s', hrun, hs', hsound, fun h => hcomplete ⟨h.1 auth hauth, h.2⟩⟩
  | succ left ih =>
    intro s hs
    have hcheck : ∀ m ∈ auth.accountAuths, Checks sigs inner reached
        (checkAuthorityAt (fun n => .ok (inner n)) left (inner m.1))
        (m.1 ∈ satisfiedAccounts sigs inner) (m.1 ≠ tempAccount ∧
          (∀ a, reached a → a.totalWeight < two32) ∧ m.1 ∈ satisfiedWithin sigs inner (left + 1)) := by
      intro m hm s hs
      obtain ⟨ok, s', hrun, hs', hsound, hcomplete⟩ := ih (hclosed auth _ hauth ⟨m, hm, rfl⟩) s hs
      refine ⟨ok, s', hrun, hs', fun hok => Quorum.mem_counted.2 (.inr (hsound hok)), ?_⟩
      rintro ⟨htemp, hsmall, hmem⟩
      exact hcomplete ⟨hsmall, (Quorum.mem_within_succ.1 hmem).resolve_left htemp⟩
    obtain ⟨ok, s', hrun, hs', hsound, hcomplete⟩ := checkParts_spec
      (fun n => checkAuthorityAt (fun n => .ok (inner n)) left (inner n))
      {n | (∀ a, reached a → a.totalWeight < two32) ∧ n ∈ satisfiedWithin sigs inner (left + 1)}
      hauth hcheck s hs
    refine ⟨ok, s', hrun, hs', hsound, fun h => hcomplete ⟨h.1 auth hauth, ?_⟩⟩
    exact h.2.mono fun n hn => ⟨h.1, hn⟩

/-- The account itself, or its authority. -/
theorem checkAccountAuthority_spec (hclosed : ∀ a b, reached a → Refers inner a b → reached b)
    (depth : Nat) {id : Name} (hid : reached (inner id)) :
    Checks sigs inner reached (checkAccountAuthority (fun n => .ok (inner n)) depth id)
      (id = tempAccount ∨ ((inner id).quorum sigs).Met (satisfiedAccounts sigs inner))
      ((∀ a, reached a → a.totalWeight < two32) ∧ (id = tempAccount ∨
        ((inner id).quorum sigs).Met (satisfiedWithin sigs inner depth))) := by
  intro s hs
  unfold checkAccountAuthority
  by_cases happroved : id ∈ s.approvedBy
  · rw [if_pos happroved]
    exact ⟨true, s, rfl, hs, fun _ => Quorum.mem_counted.1 (hs.approved id happroved), fun _ => rfl⟩
  · rw [if_neg happroved]
    obtain ⟨ok, s', hrun, hs', hsound, hcomplete⟩ := checkAuthorityAt_spec hclosed depth hid s hs
    refine ⟨ok, s', hrun, hs', fun hok => .inr (hsound hok), fun h => hcomplete ⟨h.1, ?_⟩⟩
    refine h.2.resolve_left ?_
    rintro rfl
    exact happroved hs.temp

/-- Checks made in turn accept what one of them stands for, and throw only where none is
complete. -/
theorem checkAny_spec {e : Exception} {checks : List (SignState → Result (Bool × SignState))}
    {sound complete : Prop} (hall : ∀ c ∈ checks, Checks sigs inner reached c sound False)
    (hsome : complete → ∃ c ∈ checks, Checks sigs inner reached c sound True) {s : SignState}
    (hs : Checking sigs inner reached s) :
    (∃ s', checkAny e checks s = .ok s' ∧ Checking sigs inner reached s' ∧ sound) ∨
      checkAny e checks s = .error e ∧ ¬ complete := by
  induction checks generalizing s with
  | nil =>
    refine .inr ⟨rfl, fun h => ?_⟩
    obtain ⟨c, hc, -⟩ := hsome h
    cases hc
  | cons c checks ih =>
    obtain ⟨ok, s₁, hrun, hs₁, hsound, -⟩ := hall c (by simp) s hs
    unfold checkAny
    rw [hrun]
    cases ok with
    | true => exact .inl ⟨s₁, rfl, hs₁, hsound rfl⟩
    | false =>
      refine ih (fun c hc => hall c (List.mem_cons_of_mem _ hc)) (fun h => ?_) hs₁
      obtain ⟨c', hc', hcheck⟩ := hsome h
      rcases List.mem_cons.1 hc' with rfl | hc'
      · -- the check that has failed was not complete
        obtain ⟨ok, s₂, hrun', -, -, hok⟩ := hcheck s hs
        rw [hrun] at hrun'
        cases hrun'
        exact absurd (hok trivial) (by decide)
      · exact ⟨c', hc', hcheck⟩

/- The checks of some authorities. -/
theorem authorityChecks_all (hclosed : ∀ a b, reached a → Refers inner a b → reached b)
    {depth : Nat} {auths : List Authority} {sound : Prop} (hauths : ∀ a ∈ auths, reached a ∧
      ((a.quorum sigs).Met (satisfiedAccounts sigs inner) → sound)) :
    ∀ c ∈ auths.map (checkAuthority (fun n => .ok (inner n)) depth),
      Checks sigs inner reached c sound False := by
  intro c hc
  obtain ⟨a, ha, rfl⟩ := List.mem_map.1 hc
  obtain ⟨hreached, hsound⟩ := hauths a ha
  exact (checkAuthorityAt_spec hclosed depth hreached).imp hsound False.elim

theorem authorityChecks_some (hclosed : ∀ a b, reached a → Refers inner a b → reached b)
    (hsmall : ∀ a, reached a → a.totalWeight < two32) {depth : Nat} {auths : List Authority}
    {sound : Prop} {a : Authority} (ha : a ∈ auths) (hreached : reached a)
    (hsound : (a.quorum sigs).Met (satisfiedAccounts sigs inner) → sound)
    (hmet : (a.quorum sigs).Met (satisfiedWithin sigs inner depth)) :
    ∃ c ∈ auths.map (checkAuthority (fun n => .ok (inner n)) depth),
      Checks sigs inner reached c sound True :=
  ⟨_, List.mem_map_of_mem ha,
    (checkAuthorityAt_spec hclosed depth hreached).imp hsound fun _ => ⟨hsmall, hmet⟩⟩

/-- The requirements of one kind, one after the other. -/
theorem checkEach_spec {β : Type} {e : Exception} {l : List β}
    {checks : β → List (SignState → Result (Bool × SignState))} {sound complete : β → Prop}
    (hall : ∀ x ∈ l, ∀ c ∈ checks x, Checks sigs inner reached c (sound x) False)
    (hsome : ∀ x ∈ l, complete x → ∃ c ∈ checks x, Checks sigs inner reached c (sound x) True)
    {s : SignState} (hs : Checking sigs inner reached s) :
    (∃ s', l.foldlM (fun s x => checkAny e (checks x) s) s = .ok s' ∧
      Checking sigs inner reached s' ∧ ∀ x ∈ l, sound x) ∨
    l.foldlM (fun s x => checkAny e (checks x) s) s = .error e ∧ ∃ x ∈ l, ¬ complete x := by
  induction l generalizing s with
  | nil => exact .inl ⟨s, rfl, hs, nofun⟩
  | cons x l ih =>
    rw [List.foldlM_cons]
    rcases checkAny_spec (e := e) (hall x (by simp)) (hsome x (by simp)) hs with
      ⟨s₁, hrun, hs₁, hsound⟩ | ⟨hrun, hnot⟩
    · rw [hrun]
      rcases ih (fun y hy => hall y (List.mem_cons_of_mem _ hy))
        (fun y hy => hsome y (List.mem_cons_of_mem _ hy)) hs₁ with
        ⟨s', hrun', hs', hrest⟩ | ⟨hrun', y, hy, hnot⟩
      · refine .inl ⟨s', hrun', hs', ?_⟩
        intro y hy
        rcases List.mem_cons.1 hy with rfl | hy
        · exact hsound
        · exact hrest y hy
      · exact .inr ⟨hrun', y, List.mem_cons_of_mem _ hy, hnot⟩
    · rw [hrun]
      exact .inr ⟨rfl, x, by simp, hnot⟩

/-- Requirements that authorities of a list meet. -/
theorem authorities_spec {β : Type} (e : Exception) (auths : β → List Authority) (depth : Nat)
    {l : List β} (hclosed : ∀ a b, reached a → Refers inner a b → reached b)
    (hauths : ∀ x ∈ l, ∀ a ∈ auths x, reached a) {s : SignState}
    (hs : Checking sigs inner reached s) :
    (∃ s', l.foldlM (fun s x => checkAny e
          ((auths x).map (checkAuthority (fun n => .ok (inner n)) depth)) s) s = .ok s' ∧
        Checking sigs inner reached s' ∧
        ∀ x ∈ l, ∃ a ∈ auths x, (a.quorum sigs).Met (satisfiedAccounts sigs inner)) ∨
      l.foldlM (fun s x => checkAny e
          ((auths x).map (checkAuthority (fun n => .ok (inner n)) depth)) s) s = .error e ∧
        ∃ x ∈ l, ¬ ((∀ a, reached a → a.totalWeight < two32) ∧
          ∃ a ∈ auths x, (a.quorum sigs).Met (satisfiedWithin sigs inner depth)) := by
  refine checkEach_spec ?_ ?_ hs
  · intro x hx
    exact authorityChecks_all hclosed fun a ha => ⟨hauths x hx a ha, fun h => ⟨a, ha, h⟩⟩
  · rintro x hx ⟨hsmall, a, ha, hmet⟩
    exact authorityChecks_some hclosed hsmall ha (hauths x hx a ha) (fun h => ⟨a, ha, h⟩) hmet

/-- Requirements of accounts, that their own authority or one of a list meets. -/
theorem accounts_spec (e : Exception) (auths : Name → List Authority) (depth : Nat) {l : List Name}
    (hclosed : ∀ a b, reached a → Refers inner a b → reached b)
    (hinner : ∀ id ∈ l, reached (inner id)) (hauths : ∀ id ∈ l, ∀ a ∈ auths id, reached a)
    {s : SignState} (hs : Checking sigs inner reached s) :
    (∃ s', l.foldlM (fun s id => checkAny e
          (checkAccountAuthority (fun n => .ok (inner n)) depth id ::
            (auths id).map (checkAuthority (fun n => .ok (inner n)) depth)) s) s = .ok s' ∧
        Checking sigs inner reached s' ∧
        ∀ id ∈ l, (id = tempAccount ∨
            ((inner id).quorum sigs).Met (satisfiedAccounts sigs inner)) ∨
          ∃ a ∈ auths id, (a.quorum sigs).Met (satisfiedAccounts sigs inner)) ∨
      l.foldlM (fun s id => checkAny e
          (checkAccountAuthority (fun n => .ok (inner n)) depth id ::
            (auths id).map (checkAuthority (fun n => .ok (inner n)) depth)) s) s = .error e ∧
        ∃ id ∈ l, ¬ ((∀ a, reached a → a.totalWeight < two32) ∧ ((id = tempAccount ∨
            ((inner id).quorum sigs).Met (satisfiedWithin sigs inner depth)) ∨
          ∃ a ∈ auths id, (a.quorum sigs).Met (satisfiedWithin sigs inner depth))) := by
  refine checkEach_spec ?_ ?_ hs
  · intro id hid c hc
    rcases List.mem_cons.1 hc with rfl | hc
    · exact (checkAccountAuthority_spec hclosed depth (hinner id hid)).imp .inl False.elim
    · exact authorityChecks_all hclosed (fun a ha => ⟨hauths id hid a ha, fun h => .inr ⟨a, ha, h⟩⟩)
        c hc
  · rintro id hid ⟨hsmall, hmet | ⟨a, ha, hmet⟩⟩
    · have hcheck : Checks sigs inner reached _ _ _ :=
        checkAccountAuthority_spec hclosed depth (hinner id hid)
      exact ⟨_, List.mem_cons_self, hcheck.imp .inl fun _ => ⟨hsmall, hmet⟩⟩
    · refine Exists.imp (fun c h => ⟨List.mem_cons_of_mem _ h.1, h.2⟩)
        (authorityChecks_some hclosed hsmall ha (hauths id hid a ha) ?_ hmet)
      exact fun h => .inr ⟨a, ha, h⟩

end Checks

/-! ### The requirements of a transaction -/

/-- The authorities of every account. -/
structure Assignment where
  active : Name → Authority
  owner : Name → Authority
  posting : Name → Authority

namespace Assignment

variable {g : Assignment} {r : Required} {sigs : List PublicKey} {depth : Nat}

/-- `verify_authority` with the authorities assigned. -/
def verify (g : Assignment) (r : Required) (sigs : List PublicKey) (depth : Nat) : Result Unit :=
  verifyAuthority r sigs (fun n => .ok (g.active n)) (fun n => .ok (g.owner n))
    (fun n => .ok (g.posting n)) depth

/-- The authority through which an account counts that an authority names. -/
def inner (g : Assignment) (r : Required) : Name → Authority :=
  if r.posting = [] then g.active else g.posting

/-- Every requirement is met by the keys and by accounts of `S`. -/
structure Meets (g : Assignment) (r : Required) (sigs : List PublicKey) (S : Set Name) : Prop where
  other : ∀ a ∈ r.other, (a.quorum sigs).Met S
  active : ∀ id ∈ r.active, (id = tempAccount ∨ ((g.active id).quorum sigs).Met S) ∨
    ((g.owner id).quorum sigs).Met S
  owner : ∀ id ∈ r.owner, ((g.owner id).quorum sigs).Met S
  posting : ∀ id ∈ r.posting, (id = tempAccount ∨ ((g.posting id).quorum sigs).Met S) ∨
    ((g.active id).quorum sigs).Met S ∨ ((g.owner id).quorum sigs).Met S

/-- The authorities that a requirement names. -/
inductive Root (g : Assignment) (r : Required) : Authority → Prop
  | other {a : Authority} : a ∈ r.other → Root g r a
  | active {id : Name} : id ∈ r.active ∨ id ∈ r.posting → Root g r (g.active id)
  | owner {id : Name} : id ∈ r.active ∨ id ∈ r.owner ∨ id ∈ r.posting → Root g r (g.owner id)
  | posting {id : Name} : id ∈ r.posting → Root g r (g.posting id)

/-- The authorities that a requirement reaches through the accounts that authorities name. -/
def Reaches (g : Assignment) (r : Required) (a : Authority) : Prop :=
  ∃ root, g.Root r root ∧ Relation.ReflTransGen (Refers (g.inner r)) root a

theorem Reaches.closed : ∀ a b, g.Reaches r a → Refers (g.inner r) a b → g.Reaches r b := by
  rintro a b ⟨root, hroot, hpath⟩ hab
  exact ⟨root, hroot, hpath.tail hab⟩

theorem Root.reaches {a : Authority} (h : g.Root r a) : g.Reaches r a := ⟨a, h, .refl⟩

theorem mem_flatSet {n : Name} {l : List Name} : n ∈ flatSet l ↔ n ∈ l := by
  unfold flatSet
  rw [List.mem_dedup, List.mem_insertionSort]

theorem checking_start : Checking sigs (g.inner r) (g.Reaches r) { signatures := sigs } where
  signatures := rfl
  available := rfl
  temp := List.mem_singleton.2 rfl
  approved _ hn := Quorum.mem_counted.2 (.inl (List.mem_singleton.1 hn))
  used := nofun

theorem checkUsed_ok {s : SignState} (hs : Checking sigs (g.inner r) (g.Reaches r) s)
    (h : checkUsed s = .ok ()) :
    ∀ key ∈ sigs, ∃ a, g.Reaches r a ∧ key ∈ a.keyAuths.map (·.1) := by
  intro key hkey
  unfold checkUsed at h
  split at h
  · next hall =>
    rw [hs.signatures, List.all_eq_true] at hall
    exact hs.used key (of_decide_eq_true (hall key hkey))
  · cases h

theorem checkUsed_cases (s : SignState) : checkUsed s = .ok () ∨ checkUsed s = .error .irrelevantSig := by
  unfold checkUsed
  split
  · exact .inl rfl
  · exact .inr rfl

/- Posting authorities, which cannot be mixed with others. -/
theorem verify_posting (hposting : r.posting ≠ []) (hactive : r.active = []) (howner : r.owner = [])
    (hother : r.other = []) :
    (g.verify r sigs depth = .ok () → g.Meets r sigs (satisfiedAccounts sigs (g.inner r)) ∧
      ∀ key ∈ sigs, ∃ a, g.Reaches r a ∧ key ∈ a.keyAuths.map (·.1)) ∧
    ((∀ a, g.Reaches r a → a.totalWeight < two32) →
      g.Meets r sigs (satisfiedWithin sigs (g.inner r) depth) →
      g.verify r sigs depth = .ok () ∨ g.verify r sigs depth = .error .irrelevantSig) := by
  have hinner : g.inner r = g.posting := if_neg hposting
  have hrun : g.verify r sigs depth = (flatSet r.posting).foldlM (fun s id =>
      checkAny .missingPostingAuth
        (checkAccountAuthority (fun n => .ok (g.inner r n)) depth id ::
          [g.active id, g.owner id].map (checkAuthority (fun n => .ok (g.inner r n)) depth)) s)
      { signatures := sigs } >>= checkUsed := by
    unfold verify verifyAuthority
    rw [if_pos hposting, (require_eq_ok (u := ())).2 hactive, (require_eq_ok (u := ())).2 howner,
      (require_eq_ok (u := ())).2 hother, hinner]
    rfl
  have hroots : ∀ id ∈ flatSet r.posting, ∀ a ∈ [g.active id, g.owner id], g.Reaches r a := by
    intro id hid a ha
    have hid := mem_flatSet.1 hid
    rcases List.mem_pair.1 ha with rfl | rfl
    · exact (Root.active (.inr hid)).reaches
    · exact (Root.owner (.inr (.inr hid))).reaches
  have hown : ∀ id ∈ flatSet r.posting, g.Reaches r (g.inner r id) := by
    intro id hid
    rw [hinner]
    exact (Root.posting (mem_flatSet.1 hid)).reaches
  rw [hrun]
  have hstart : Checking sigs (g.inner r) (g.Reaches r) { signatures := sigs } := checking_start
  rcases accounts_spec .missingPostingAuth (fun id => [g.active id, g.owner id]) depth
    Reaches.closed hown hroots hstart with ⟨s, hs, hchecking, hmet⟩ | ⟨hfails, id, hid, hnot⟩
  · rw [hs]
    refine ⟨fun h => ⟨?_, checkUsed_ok hchecking h⟩, fun _ _ => checkUsed_cases s⟩
    refine ⟨by simp [hother], by simp [hactive], by simp [howner], fun id hid => ?_⟩
    have := hmet id (mem_flatSet.2 hid)
    simpa [hinner] using this
  · rw [hfails]
    refine ⟨nofun, fun hsmall hmeets => absurd ⟨hsmall, ?_⟩ hnot⟩
    have := hmeets.posting id (mem_flatSet.1 hid)
    simpa [hinner] using this

/- The other kinds, in the order other, active, owner. -/
theorem verify_active (hposting : r.posting = []) :
    (g.verify r sigs depth = .ok () → g.Meets r sigs (satisfiedAccounts sigs (g.inner r)) ∧
      ∀ key ∈ sigs, ∃ a, g.Reaches r a ∧ key ∈ a.keyAuths.map (·.1)) ∧
    ((∀ a, g.Reaches r a → a.totalWeight < two32) →
      g.Meets r sigs (satisfiedWithin sigs (g.inner r) depth) →
      g.verify r sigs depth = .ok () ∨ g.verify r sigs depth = .error .irrelevantSig) := by
  have hinner : g.inner r = g.active := if_pos hposting
  have hrun : g.verify r sigs depth = (do
      let s ← r.other.foldlM (fun s auth => checkAny .missingOtherAuth
        ([auth].map (checkAuthority (fun n => .ok (g.inner r n)) depth)) s) { signatures := sigs }
      let s ← (flatSet r.active).foldlM (fun s id => checkAny .missingActiveAuth
        (checkAccountAuthority (fun n => .ok (g.inner r n)) depth id ::
          [g.owner id].map (checkAuthority (fun n => .ok (g.inner r n)) depth)) s) s
      let s ← (flatSet r.owner).foldlM (fun s id => checkAny .missingOwnerAuth
        ([g.owner id].map (checkAuthority (fun n => .ok (g.inner r n)) depth)) s) s
      checkUsed s) := by
    unfold verify verifyAuthority
    rw [if_neg (not_not_intro hposting), hinner]
    rfl
  have hstart : Checking sigs (g.inner r) (g.Reaches r) { signatures := sigs } := checking_start
  have hown : ∀ id ∈ flatSet r.active, g.Reaches r (g.inner r id) := by
    intro id hid
    rw [hinner]
    exact (Root.active (.inl (mem_flatSet.1 hid))).reaches
  rcases authorities_spec .missingOtherAuth (fun a => [a]) depth Reaches.closed
    (fun x hx a ha => List.mem_singleton.1 ha ▸ (Root.other hx).reaches) hstart with
    ⟨s₁, hs₁, hchecking₁, hother⟩ | ⟨hfails, x, hx, hnot⟩
  · rcases accounts_spec .missingActiveAuth (fun id => [g.owner id]) depth Reaches.closed hown
      (fun id hid a ha => List.mem_singleton.1 ha ▸
        (Root.owner (.inl (mem_flatSet.1 hid))).reaches) hchecking₁ with
      ⟨s₂, hs₂, hchecking₂, hactive⟩ | ⟨hfails, id, hid, hnot⟩
    · rcases authorities_spec .missingOwnerAuth (fun id => [g.owner id]) depth Reaches.closed
        (fun id hid a ha => List.mem_singleton.1 ha ▸
          (Root.owner (.inr (.inl (mem_flatSet.1 hid)))).reaches) hchecking₂ with
        ⟨s₃, hs₃, hchecking₃, howner⟩ | ⟨hfails, id, hid, hnot⟩
      · have hend : g.verify r sigs depth = checkUsed s₃ := by
          rw [hrun, hs₁, ok_bind, hs₂, ok_bind, hs₃, ok_bind]
        rw [hend]
        refine ⟨fun h => ⟨⟨?_, ?_, ?_, ?_⟩, checkUsed_ok hchecking₃ h⟩, fun _ _ => checkUsed_cases s₃⟩
        · intro a ha
          simpa using hother a ha
        · intro id hid
          simpa [hinner] using hactive id (mem_flatSet.2 hid)
        · intro id hid
          simpa using howner id (mem_flatSet.2 hid)
        · simp [hposting]
      · have hend : g.verify r sigs depth = .error .missingOwnerAuth := by
          rw [hrun, hs₁, ok_bind, hs₂, ok_bind, hfails, error_bind]
        rw [hend]
        refine ⟨nofun, fun hsmall hmeets => absurd ⟨hsmall, ?_⟩ hnot⟩
        simpa using hmeets.owner id (mem_flatSet.1 hid)
    · have hend : g.verify r sigs depth = .error .missingActiveAuth := by
        rw [hrun, hs₁, ok_bind, hfails, error_bind]
      rw [hend]
      refine ⟨nofun, fun hsmall hmeets => absurd ⟨hsmall, ?_⟩ hnot⟩
      simpa [hinner] using hmeets.active id (mem_flatSet.1 hid)
  · have hend : g.verify r sigs depth = .error .missingOtherAuth := by
      rw [hrun, hfails, error_bind]
    rw [hend]
    refine ⟨nofun, fun hsmall hmeets => absurd ⟨hsmall, ?_⟩ hnot⟩
    simpa using hmeets.other x hx

/-- `verify_authority` accepts only requirements that are met, with keys of authorities that they
reach, and misses no authority that is met within the depth it goes to. -/
theorem verify_sound_complete (g : Assignment) (r : Required) (sigs : List PublicKey) (depth : Nat) :
    (g.verify r sigs depth = .ok () → g.Meets r sigs (satisfiedAccounts sigs (g.inner r)) ∧
      ∀ key ∈ sigs, ∃ a, g.Reaches r a ∧ key ∈ a.keyAuths.map (·.1)) ∧
    ((r.posting ≠ [] → r.active = [] ∧ r.owner = [] ∧ r.other = []) →
      (∀ a, g.Reaches r a → a.totalWeight < two32) →
      g.Meets r sigs (satisfiedWithin sigs (g.inner r) depth) →
      g.verify r sigs depth = .ok () ∨ g.verify r sigs depth = .error .irrelevantSig) := by
  by_cases hposting : r.posting = []
  · obtain ⟨hsound, hcomplete⟩ := verify_active hposting
    exact ⟨hsound, fun _ => hcomplete⟩
  · constructor
    · intro h
      -- accepted requirements are not mixed
      have hrun := h
      unfold verify verifyAuthority at hrun
      rw [if_pos hposting] at hrun
      obtain ⟨_, hactive, hrun⟩ := bind_ok.1 hrun
      obtain ⟨_, howner, hrun⟩ := bind_ok.1 hrun
      obtain ⟨_, hother, -⟩ := bind_ok.1 hrun
      exact (verify_posting hposting (require_ok hactive) (require_ok howner)
        (require_ok hother)).1 h
    · intro hmix
      obtain ⟨hactive, howner, hother⟩ := hmix hposting
      exact (verify_posting hposting hactive howner hother).2

/- Two accounts that name each other; the second also has a key. -/
def mutualPair : Assignment where
  active n := if n = 1 then { weightThreshold := 1, accountAuths := [(2, 1)] }
    else { weightThreshold := 1, accountAuths := [(1, 1)], keyAuths := [(7, 1)] }
  owner _ := { weightThreshold := 1 }
  posting _ := { weightThreshold := 1 }

theorem verify_sound_mutualPair :
    mutualPair.Meets { active := [1] } [7] (satisfiedAccounts [7] (mutualPair.inner { active := [1] })) :=
  ((verify_sound_complete mutualPair { active := [1] } [7] 2).1 (by decide)).1

end Assignment

end WeNode.Chain
