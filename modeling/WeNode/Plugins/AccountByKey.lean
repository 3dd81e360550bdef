import Mathlib.Data.Finset.Sort
import WeNode.Chain.AccountKeys
import WeNode.Chain.OperationRuns

/-!
# Accounts by key

libraries/plugins/account_by_key/account_by_key_plugin.cpp (37-230): the hooks before and after an
operation keep a lookup from every key to the accounts whose authorities it occurs in.
-/

namespace WeNode.Plugins

open WeNode.Lib WeNode.Chain

/-! ### The lookups -/

/-- `key_lookup_object` -/
structure KeyLookup where
  id : Nat
  key : PublicKey
  account : Name

def KeyLookup.tuple (l : KeyLookup) : PublicKey × Name := (l.key, l.account)

/-- `key_lookup_index`, where `by_key` is unique -/
structure KeyLookups extends Table KeyLookup where
  unique : (rows.map KeyLookup.tuple).Nodup := by exact List.nodup_nil

namespace KeyLookups

variable (t : KeyLookups) {k : PublicKey} {a b : Name}

/-- There is a lookup from the key to the account. -/
instance : Membership (PublicKey × Name) KeyLookups where
  mem t p := p ∈ t.rows.map KeyLookup.tuple

instance (p : PublicKey × Name) : Decidable (p ∈ t) :=
  inferInstanceAs (Decidable (p ∈ t.rows.map KeyLookup.tuple))

/- A lookup is created where there is none. -/
def create (key : PublicKey) (name : Name) : KeyLookups :=
  if h : (key, name) ∈ t then t
  else
    { t.toTable.create fun id => ⟨id, key, name⟩ with
      unique := by
        have hnodup : (t.rows.map KeyLookup.tuple ++ [(key, name)]).Nodup :=
          t.unique.append (List.nodup_singleton _) (List.disjoint_singleton.2 h)
        simpa [Table.create, KeyLookup.tuple] using hnodup }

/- A lookup is removed where there is one. -/
def remove (key : PublicKey) (name : Name) : KeyLookups :=
  { t.toTable.remove fun l => decide (l.tuple = (key, name)) with
    unique := t.unique.sublist (List.eraseP_sublist.map _) }

variable {t}

theorem mem_create {key : PublicKey} :
    (k, b) ∈ t.create key a ↔ (k, b) ∈ t ∨ k = key ∧ b = a := by
  unfold create
  split
  · next h =>
    constructor
    · exact Or.inl
    · rintro (hk | ⟨rfl, rfl⟩)
      · exact hk
      · exact h
  · show (k, b) ∈ (t.rows ++ [_]).map KeyLookup.tuple ↔ _
    rw [List.map_append, List.mem_append]
    refine or_congr_right ?_
    simp [KeyLookup.tuple]

theorem mem_remove {key : PublicKey} :
    (k, b) ∈ t.remove key a ↔ (k, b) ∈ t ∧ ¬(k = key ∧ b = a) := by
  have hrow (l : KeyLookup) : l ∈ (t.remove key a).rows ↔ l ∈ t.rows ∧ l.tuple ≠ (key, a) := by
    unfold remove
    exact Table.mem_remove_of_nodup t.unique
  constructor
  · intro h
    obtain ⟨l, hl, htuple⟩ := List.mem_map.1 h
    obtain ⟨hmem, hne⟩ := (hrow l).1 hl
    rw [htuple, Ne, Prod.mk.injEq] at hne
    exact ⟨List.mem_map.2 ⟨l, hmem, htuple⟩, hne⟩
  · rintro ⟨h, hne⟩
    obtain ⟨l, hl, htuple⟩ := List.mem_map.1 h
    rw [← Prod.mk.injEq, ← Ne, ← htuple] at hne
    exact List.mem_map.2 ⟨l, (hrow l).2 ⟨hl, hne⟩, htuple⟩

end KeyLookups

/-! ### The hooks -/

/-- `account_by_key_plugin_impl`, with the objects it creates -/
structure AccountByKey where
  lookups : KeyLookups := {}
  cachedKeys : Finset PublicKey := ∅

namespace AccountByKey

variable (s : AccountByKey)

def clearCache : AccountByKey := { s with cachedKeys := ∅ }

def cacheAuths (a : AccountAuthority) : AccountByKey :=
  { s with cachedKeys := s.cachedKeys ∪ a.keys }

/- A key that was not in the authority is looked up, another is not to be removed. -/
def enterKey (name : Name) (s : AccountByKey) (key : PublicKey) : AccountByKey :=
  if key ∈ s.cachedKeys then { s with cachedKeys := s.cachedKeys.erase key }
  else { s with lookups := s.lookups.create key name }

def updateKeyLookup (a : AccountAuthority) : AccountByKey :=
  let s := (a.keys.sort (· ≤ ·)).foldl (enterKey a.account) s
  -- the keys that are in the authority no longer
  { lookups := (s.cachedKeys.sort (· ≤ ·)).foldl (fun t key => t.remove key a.account) s.lookups
    cachedKeys := ∅ }

variable (d : Database)

def cacheAuthsOf (name : Name) : AccountByKey :=
  match d.findAuthority name with
  | some a => s.cacheAuths a
  | none => s

def updateKeyLookupOf (name : Name) : AccountByKey :=
  match d.findAuthority name with
  | some a => s.updateKeyLookup a
  | none => s

/-- `pre_operation_visitor` -/
def preOperation : Operation → AccountByKey
  | .accountCreate _ => s.clearCache
  | .accountCreateWithDelegation _ => s.clearCache
  | .accountUpdate op => s.clearCache.cacheAuthsOf d op.account
  | .recoverAccount op => s.clearCache.cacheAuthsOf d op.accountToRecover
  | .pow _ => s.clearCache
  | .pow2 _ => s.clearCache
  | _ => s

/-- `post_operation_visitor`; at hardfork 9 it goes through the compromised accounts, of which
`get_compromised_accounts` names none. -/
def postOperation : Operation → AccountByKey
  | .accountCreate op => s.updateKeyLookupOf d op.newAccountName
  | .accountCreateWithDelegation op => s.updateKeyLookupOf d op.newAccountName
  | .accountUpdate op => s.updateKeyLookupOf d op.account
  | .recoverAccount op => s.updateKeyLookupOf d op.accountToRecover
  | .pow op => s.updateKeyLookupOf d op.workerAccount
  | .pow2 op => s.updateKeyLookupOf d op.work.workerAccount
  | _ => s

variable {s d} {k : PublicKey} {b : Name}

theorem enterKeys {a : Name} {l : List PublicKey} (hl : l.Nodup) :
    (∀ x, x ∈ (l.foldl (enterKey a) s).cachedKeys ↔ x ∈ s.cachedKeys ∧ x ∉ l) ∧
      ((k, b) ∈ (l.foldl (enterKey a) s).lookups ↔
        (k, b) ∈ s.lookups ∨ b = a ∧ k ∈ l ∧ k ∉ s.cachedKeys) := by
  induction l generalizing s with
  | nil => simp
  | cons key l ih =>
    obtain ⟨hkey, hl⟩ := List.nodup_cons.1 hl
    obtain ⟨hcached, hlookups⟩ := ih hl (s := s.enterKey a key)
    rw [List.foldl_cons, hlookups]
    unfold enterKey at hcached ⊢
    by_cases hk : key ∈ s.cachedKeys
    · rw [if_pos hk] at hcached ⊢
      constructor
      · intro x
        rw [hcached, Finset.mem_erase, List.mem_cons]
        tauto
      · rw [Finset.mem_erase, List.mem_cons]
        by_cases he : k = key
        · simp [he, hk, hkey]
        · simp [he]
    · rw [if_neg hk] at hcached ⊢
      have hne {x : PublicKey} (hx : x ∈ s.cachedKeys) : x ≠ key := ne_of_mem_of_not_mem hx hk
      constructor
      · intro x
        rw [hcached, List.mem_cons]
        exact and_congr_right fun hx => not_congr (or_iff_right (hne hx)).symm
      · rw [KeyLookups.mem_create, List.mem_cons]
        by_cases he : k = key
        · simp [he, hk, hkey]
        · simp [he]

theorem removeKeys {a : Name} {l : List PublicKey} {t : KeyLookups} :
    (k, b) ∈ l.foldl (fun t key => t.remove key a) t ↔ (k, b) ∈ t ∧ ¬(k ∈ l ∧ b = a) := by
  induction l generalizing t with
  | nil => simp
  | cons key l ih =>
    rw [List.foldl_cons, ih, KeyLookups.mem_remove, List.mem_cons]
    tauto

/-- The keys of the authority that were not cached get lookups, and cached ones that are not among
them lose theirs. -/
theorem mem_updateKeyLookup {a : AccountAuthority} :
    (k, b) ∈ (s.updateKeyLookup a).lookups ↔
      b = a.account ∧ k ∈ a.keys ∧ k ∉ s.cachedKeys ∨
        (k, b) ∈ s.lookups ∧ ¬(b = a.account ∧ k ∈ s.cachedKeys ∧ k ∉ a.keys) := by
  obtain ⟨hcached, hlookups⟩ := enterKeys (s := s) (k := k) (b := b) (a := a.account)
    (a.keys.sort_nodup (· ≤ ·))
  unfold updateKeyLookup
  rw [removeKeys, hlookups, Finset.mem_sort, Finset.mem_sort, hcached, Finset.mem_sort]
  tauto

/- The lookups of the account that is updated. -/
theorem mem_updateKeyLookupOf (hb : d.findAuthority b = none → s.cachedKeys = ∅) :
    (k, b) ∈ (s.updateKeyLookupOf d b).lookups ↔ k ∈ d.keysOf b ∧ k ∉ s.cachedKeys ∨
      (k, b) ∈ s.lookups ∧ ¬(k ∈ s.cachedKeys ∧ k ∉ d.keysOf b) := by
  unfold updateKeyLookupOf
  split
  · next x hx =>
    obtain ⟨haccount, hkeys⟩ := Database.keysOf_some hx
    rw [mem_updateKeyLookup, haccount, hkeys]
    simp
  · next hx =>
    rw [Database.keysOf_none hx, hb hx]
    simp

theorem mem_updateKeyLookupOf_of_ne {a : Name} (hne : b ≠ a) :
    (k, b) ∈ (s.updateKeyLookupOf d a).lookups ↔ (k, b) ∈ s.lookups := by
  unfold updateKeyLookupOf
  split
  · next x hx =>
    rw [mem_updateKeyLookup, (Database.keysOf_some hx).1]
    tauto
  · rfl

theorem preOperation_lookups (o : Operation) : (s.preOperation d o).lookups = s.lookups := by
  have hcache (name : Name) : (s.clearCache.cacheAuthsOf d name).lookups = s.lookups := by
    unfold cacheAuthsOf
    split <;> rfl
  cases o <;> first | rfl | exact hcache _

/- The cache holds what the account had, where it is not one to be created. -/
theorem preOperation_cached {o : Operation} {a : Name} (ha : o.authorityTarget = some a) :
    (s.preOperation d o).cachedKeys = if o.creates then ∅ else d.keysOf a := by
  have hcache (name : Name) : (s.clearCache.cacheAuthsOf d name).cachedKeys = d.keysOf name := by
    unfold cacheAuthsOf
    split
    · next x hx => exact (Finset.empty_union _).trans (Database.keysOf_some hx).2
    · next hx => exact (Database.keysOf_none hx).symm
  cases o <;> cases ha <;> first | rfl | exact hcache _

theorem postOperation_eq (o : Operation) : s.postOperation d o =
    match o.authorityTarget with
    | some a => s.updateKeyLookupOf d a
    | none => s := by
  cases o <;> rfl

end AccountByKey

/-! ### A node with the plugin -/

structure KeyNode where
  db : Database
  plugin : AccountByKey := {}

namespace KeyNode

/-- `apply_operation` with the hooks; where it throws, the cache stays as it is. -/
def applyOperation (currentWitness : Name) (n : KeyNode) (o : Operation) :
    Except (Finset PublicKey) KeyNode :=
  let plugin := n.plugin.preOperation n.db o
  match Database.applyOperation currentWitness n.db o with
  | .ok d => .ok ⟨d, plugin.postOperation d o⟩
  | .error _ => .error plugin.cachedKeys

/-- The operations of a transaction in a session of their own: where one fails, the objects are as
they were, and the cache is not. -/
def pushTransaction (currentWitness : Name) (n : KeyNode) (l : List Operation) : KeyNode :=
  match l.foldlM (applyOperation currentWitness) n with
  | .ok n' => n'
  | .error cachedKeys => { n with plugin := { n.plugin with cachedKeys := cachedKeys } }

variable {w : Name} {n n' : KeyNode} {o : Operation} {k : PublicKey} {b : Name}

theorem applyOperation_ok : n.applyOperation w o = .ok n' ↔
    Database.applyOperation w n.db o = .ok n'.db ∧
      n'.plugin = (n.plugin.preOperation n.db o).postOperation n'.db o := by
  unfold applyOperation
  cases Database.applyOperation w n.db o with
  | ok d =>
    constructor
    · rintro ⟨⟩
      exact ⟨rfl, rfl⟩
    · rintro ⟨hd, hplugin⟩
      cases hd
      show Except.ok (KeyNode.mk n'.db _) = Except.ok n'
      rw [← hplugin]
  | error e => exact ⟨nofun, fun h => nomatch h.1⟩

/-- Other accounts than the target keep their lookups. -/
theorem applyOperation_others (h : n.applyOperation w o = .ok n')
    (hb : o.authorityTarget ≠ some b) :
    (k, b) ∈ n'.plugin.lookups ↔ (k, b) ∈ n.plugin.lookups := by
  obtain ⟨-, hplugin⟩ := applyOperation_ok.1 h
  have hpre : (n.plugin.preOperation n.db o).lookups = n.plugin.lookups :=
    AccountByKey.preOperation_lookups o
  rw [hplugin, AccountByKey.postOperation_eq]
  cases ha : o.authorityTarget with
  | none => rw [← hpre]
  | some a =>
    have hne : b ≠ a := fun he => hb (he ▸ ha)
    show (k, b) ∈ (AccountByKey.updateKeyLookupOf _ n'.db a).lookups ↔ _
    rw [AccountByKey.mem_updateKeyLookupOf_of_ne hne, hpre]

/-- An operation that creates accounts enters every key that its target has. -/
theorem applyOperation_creates (h : n.applyOperation w o = .ok n')
    (hb : o.authorityTarget = some b) (ho : o.creates = true) :
    (k, b) ∈ n'.plugin.lookups ↔ k ∈ n'.db.keysOf b ∨ (k, b) ∈ n.plugin.lookups := by
  obtain ⟨-, hplugin⟩ := applyOperation_ok.1 h
  have hcached := AccountByKey.preOperation_cached (s := n.plugin) (d := n.db) hb
  rw [if_pos ho] at hcached
  rw [hplugin, AccountByKey.postOperation_eq, hb]
  show (k, b) ∈ (AccountByKey.updateKeyLookupOf _ n'.db b).lookups ↔ _
  rw [AccountByKey.mem_updateKeyLookupOf fun _ => hcached, hcached,
    AccountByKey.preOperation_lookups]
  simp

/-- Another operation on authorities enters what is new and removes what is gone. -/
theorem applyOperation_sets (h : n.applyOperation w o = .ok n')
    (hb : o.authorityTarget = some b) (ho : o.creates = false) :
    (k, b) ∈ n'.plugin.lookups ↔ k ∈ n'.db.keysOf b ∧ k ∉ n.db.keysOf b ∨
      (k, b) ∈ n.plugin.lookups ∧ ¬(k ∈ n.db.keysOf b ∧ k ∉ n'.db.keysOf b) := by
  obtain ⟨hd, hplugin⟩ := applyOperation_ok.1 h
  have hcached := AccountByKey.preOperation_cached (s := n.plugin) (d := n.db) hb
  rw [if_neg (by rw [ho]; exact Bool.false_ne_true)] at hcached
  have hnone : n'.db.findAuthority b = none → n.db.keysOf b = ∅ := by
    intro hx
    -- there was no authority before either
    refine Database.keysOf_none ?_
    by_contra hsome
    have hpresent := Database.applyOperation_present hd (Operation.onOwner_of_target hb ho)
      (Option.isSome_iff_ne_none.2 hsome)
    rw [hx] at hpresent
    cases hpresent
  rw [hplugin, AccountByKey.postOperation_eq, hb]
  show (k, b) ∈ (AccountByKey.updateKeyLookupOf _ n'.db b).lookups ↔ _
  rw [AccountByKey.mem_updateKeyLookupOf fun hx => hcached.trans (hnone hx), hcached,
    AccountByKey.preOperation_lookups]

end KeyNode

/-! ### Runs -/

/-- A change of the database: by an operation, or at the end of a block. -/
structure Change where
  before : Database
  after : Database
  operation : Option Operation

/-- A node that ran the plugin from the genesis on; `hist` are the changes so far.  Transactions,
blocks and pending transactions that are undone leave a cache behind. -/
inductive KeyRun (env : Env) : List Change → KeyNode → Prop
  | genesis (supply : Int) : KeyRun env [] { db := Database.initGenesis supply }
  | operation {hist : List Change} {n n' : KeyNode} (w : Name) (o : Operation)
    (h : KeyRun env hist n) (ho : n.applyOperation w o = .ok n') :
    KeyRun env (hist ++ [⟨n.db, n'.db, some o⟩]) n'
  | finish {hist : List Change} {n : KeyNode} {s s' : ChainState} (skip : Skip) (b : Block)
    (h : KeyRun env hist n) (hs : s.db = n.db) (hf : s.finishBlock env skip b = .ok s') :
    KeyRun env (hist ++ [⟨n.db, s'.db, none⟩]) { n with db := s'.db }
  | undone {hist : List Change} {n : KeyNode} (cachedKeys : Finset PublicKey)
    (h : KeyRun env hist n) :
    KeyRun env hist { n with plugin := { n.plugin with cachedKeys := cachedKeys } }

/-- The key of a genesis account that has been in its authorities ever since, while no proof of
work of the account entered it. -/
def Unregistered (hist : List Change) (k : PublicKey) (a : Name) : Prop :=
  k = initPublicKey ∧ (∃ i < Database.genesisAccounts, a = Database.genesisAccountName i) ∧
    ∀ c ∈ hist, k ∈ c.after.keysOf a ∧
      ∀ o, c.operation = some o → o.creates = true → o.authorityTarget ≠ some a

/-- A key that the end of a block took from a reserved account and that is not back since. -/
def Stale (hist : List Change) (k : PublicKey) (a : Name) : Prop :=
  a ∈ reservedAccounts ∧ ∃ pre c post, hist = pre ++ c :: post ∧ c.operation = none ∧
    k ∈ c.before.keysOf a ∧ ∀ x ∈ c :: post, k ∉ x.after.keysOf a

section

variable {hist : List Change} {c : Change} {k : PublicKey} {a : Name}

theorem unregistered_append : Unregistered (hist ++ [c]) k a ↔
    Unregistered hist k a ∧ k ∈ c.after.keysOf a ∧
      ∀ o, c.operation = some o → o.creates = true → o.authorityTarget ≠ some a := by
  unfold Unregistered
  rw [List.forall_mem_append, List.forall_mem_singleton, and_assoc, and_assoc]

theorem not_stale_nil : ¬Stale [] k a := by
  rintro ⟨-, pre, c, post, h, -⟩
  exact List.append_ne_nil_of_right_ne_nil pre (List.cons_ne_nil c post) h.symm

theorem stale_append : Stale (hist ++ [c]) k a ↔ k ∉ c.after.keysOf a ∧
    (Stale hist k a ∨ a ∈ reservedAccounts ∧ c.operation = none ∧ k ∈ c.before.keysOf a) := by
  constructor
  · rintro ⟨ha, pre, x, post, h, hop, hbefore, hafter⟩
    induction post using List.reverseRecOn with
    | nil =>
      obtain ⟨-, rfl⟩ := List.append_singleton_inj.1 h
      exact ⟨hafter c List.mem_cons_self, .inr ⟨ha, hop, hbefore⟩⟩
    | append_singleton post y =>
      rw [← List.cons_append, ← List.append_assoc] at h
      obtain ⟨hhist, rfl⟩ := List.append_singleton_inj.1 h
      refine ⟨hafter c (by simp), .inl ⟨ha, pre, x, post, hhist, hop, hbefore, fun z hz => ?_⟩⟩
      exact hafter z (List.mem_append_left [c] hz)
  · rintro ⟨hk, ⟨ha, pre, x, post, rfl, hop, hbefore, hafter⟩ | ⟨ha, hop, hbefore⟩⟩
    · refine ⟨ha, pre, x, post ++ [c], by simp, hop, hbefore, ?_⟩
      rw [← List.cons_append, List.forall_mem_append, List.forall_mem_singleton]
      exact ⟨hafter, hk⟩
    · exact ⟨ha, hist, c, [], rfl, hop, hbefore, by simpa using hk⟩

end

/- What the lookups of a node hold after the changes of its run. -/
structure Looked (hist : List Change) (n : KeyNode) (k : PublicKey) (a : Name) : Prop where
  lookups : (k, a) ∈ n.plugin.lookups ↔
    k ∈ n.db.keysOf a ∧ ¬Unregistered hist k a ∨ Stale hist k a
  unregistered : Unregistered hist k a → k ∈ n.db.keysOf a ∧ a ∉ reservedAccounts
  stale : Stale hist k a → k ∉ n.db.keysOf a ∧ a ∈ reservedAccounts

namespace Looked

variable {env : Env} {hist : List Change} {n n' : KeyNode} {k : PublicKey} {a : Name}

theorem genesis (supply : Int) : Looked [] { db := Database.initGenesis supply } k a := by
  have hinit : Unregistered [] k a ↔ k ∈ (Database.initGenesis supply).keysOf a := by
    rw [Database.initGenesis_keys]
    unfold Unregistered
    simp
  constructor
  · refine iff_of_false List.not_mem_nil ?_
    rintro (⟨hk, hnot⟩ | hstale)
    · exact hnot (hinit.2 hk)
    · exact not_stale_nil hstale
  · intro h
    refine ⟨hinit.1 h, ?_⟩
    obtain ⟨-, ⟨i, hi, rfl⟩, -⟩ := h
    exact Database.genesisAccountName_reserved hi
  · exact fun h => absurd h not_stale_nil

theorem operation {w : Name} {o : Operation} (h : Looked hist n k a)
    (ho : n.applyOperation w o = .ok n') :
    Looked (hist ++ [⟨n.db, n'.db, some o⟩]) n' k a := by
  obtain ⟨hlookups, hunregistered, hstale⟩ := h
  obtain ⟨hd, -⟩ := KeyNode.applyOperation_ok.1 ho
  have hunregistered' : Unregistered (hist ++ [⟨n.db, n'.db, some o⟩]) k a ↔
      Unregistered hist k a ∧ k ∈ n'.db.keysOf a ∧
        (o.creates = true → o.authorityTarget ≠ some a) := by
    rw [unregistered_append]
    simp
  have hstale' : Stale (hist ++ [⟨n.db, n'.db, some o⟩]) k a ↔
      k ∉ n'.db.keysOf a ∧ Stale hist k a := by
    rw [stale_append]
    simp
  refine ⟨?_, fun hu => ?_, fun hs => ?_⟩
  · rw [hunregistered', hstale']
    by_cases ha : o.authorityTarget = some a
    · cases hc : o.creates with
      | true =>
        have hadds := @Database.applyOperation_adds _ _ _ _ hd hc a k
        rw [KeyNode.applyOperation_creates ho ha hc, hlookups]
        grind
      | false =>
        rw [KeyNode.applyOperation_sets ho ha hc, hlookups]
        grind
    · rw [KeyNode.applyOperation_others ho ha, hlookups, Database.applyOperation_keys hd ha]
      grind
  · obtain ⟨hold, hk, -⟩ := hunregistered'.1 hu
    exact ⟨hk, (hunregistered hold).2⟩
  · obtain ⟨hk, hold⟩ := hstale'.1 hs
    exact ⟨hk, (hstale hold).2⟩

theorem finish {s s' : ChainState} {skip : Skip} {b : Block} (h : Looked hist n k a)
    (hs : s.db = n.db) (hf : s.finishBlock env skip b = .ok s') :
    Looked (hist ++ [⟨n.db, s'.db, none⟩]) { n with db := s'.db } k a := by
  obtain ⟨hlookups, hunregistered, hstale⟩ := h
  obtain ⟨hsub, hothers⟩ := ChainState.finishBlock_keys hf a
  rw [hs] at hsub hothers
  have hk := @hsub k
  have hunregistered' : Unregistered (hist ++ [⟨n.db, s'.db, none⟩]) k a ↔
      Unregistered hist k a ∧ k ∈ s'.db.keysOf a := by
    rw [unregistered_append]
    simp
  have hstale' : Stale (hist ++ [⟨n.db, s'.db, none⟩]) k a ↔ k ∉ s'.db.keysOf a ∧
      (Stale hist k a ∨ a ∈ reservedAccounts ∧ k ∈ n.db.keysOf a) := by
    rw [stale_append]
    simp
  refine ⟨?_, fun hu => ?_, fun hs => ?_⟩
  · rw [hunregistered', hstale']
    show (k, a) ∈ n.plugin.lookups ↔ _
    rw [hlookups]
    show _ ↔ k ∈ s'.db.keysOf a ∧ _ ∨ _
    by_cases ha : a ∈ reservedAccounts
    · grind
    · rw [hothers ha]
      grind
  · obtain ⟨hold, hk⟩ := hunregistered'.1 hu
    exact ⟨hk, (hunregistered hold).2⟩
  · obtain ⟨hk, hold | ⟨ha, -⟩⟩ := hstale'.1 hs
    · exact ⟨hk, (hstale hold).2⟩
    · exact ⟨hk, ha⟩

end Looked

namespace KeyRun

variable {env : Env} {hist : List Change} {n : KeyNode} {k : PublicKey} {a : Name}

theorem looked (h : KeyRun env hist n) (k : PublicKey) (a : Name) : Looked hist n k a := by
  induction h with
  | genesis supply => exact .genesis supply
  | operation w o _ ho ih => exact ih.operation ho
  | finish skip b _ hs hf ih => exact ih.finish hs hf
  | undone cachedKeys _ ih => exact ⟨ih.lookups, ih.unregistered, ih.stale⟩

/-- A transaction leaves a node of a run, whether it is applied or fails. -/
theorem pushTransaction (h : KeyRun env hist n) (w : Name) (l : List Operation) :
    ∃ hist', KeyRun env hist' (n.pushTransaction w l) := by
  unfold KeyNode.pushTransaction
  cases hl : l.foldlM (KeyNode.applyOperation w) n with
  | ok n' =>
    refine run_induction (P := fun _ n' => ∃ hist', KeyRun env hist' n') hl ⟨hist, h⟩ ?_
    rintro _ n₁ o n₂ ⟨hist₁, h₁⟩ _ ho
    exact ⟨_, h₁.operation w o ho⟩
  | error cachedKeys => exact ⟨hist, h.undone cachedKeys⟩

/-- The plugin never stands in the way of the chain. -/
theorem of_operations {ops : List (Database × Operation)} {d : Database}
    (h : OperationRun env ops d) : ∃ hist plugin, KeyRun env hist ⟨d, plugin⟩ := by
  induction h with
  | genesis supply => exact ⟨[], {}, .genesis supply⟩
  | @operation _ d d' w o _ ho ih =>
    obtain ⟨hist, plugin, hrun⟩ := ih
    have hstep : KeyNode.applyOperation w ⟨d, plugin⟩ o =
        .ok ⟨d', (plugin.preOperation d o).postOperation d' o⟩ :=
      KeyNode.applyOperation_ok.2 ⟨ho, rfl⟩
    exact ⟨_, _, hrun.operation w o hstep⟩
  | finish skip b _ _ hf ih =>
    obtain ⟨hist, plugin, hrun⟩ := ih
    exact ⟨_, _, hrun.finish skip b rfl hf⟩

end KeyRun

/-- There is a lookup from a key to an account exactly if the key occurs in its authorities, but for
keys of the genesis that were never entered and for those that a hardfork took away. -/
theorem account_by_key {env : Env} {hist : List Change} {n : KeyNode} (h : KeyRun env hist n)
    (k : PublicKey) (a : Name) :
    ((k, a) ∈ n.plugin.lookups ↔ k ∈ n.db.keysOf a) ↔
      ¬Unregistered hist k a ∧ ¬Stale hist k a := by
  obtain ⟨hlookups, hunregistered, hstale⟩ := h.looked k a
  rw [hlookups]
  constructor
  · intro hexact
    constructor
    · intro hu
      have hk := (hunregistered hu).1
      rcases hexact.2 hk with ⟨-, hnot⟩ | hs
      · exact hnot hu
      · exact (hstale hs).1 hk
    · exact fun hs => (hstale hs).1 (hexact.1 (.inr hs))
  · rintro ⟨hu, hs⟩
    constructor
    · rintro (⟨hk, -⟩ | hs')
      · exact hk
      · exact absurd hs' hs
    · exact fun hk => .inl ⟨hk, hu⟩

/- An account with one key, created by a genesis account. -/
def createAlice : AccountCreateOperation where
  fee := .coin 0
  creator := Database.genesisAccountName 0
  newAccountName := fixedString [97, 108, 105, 99, 101]
  owner := { weightThreshold := 1, keyAuths := [(5, 1)] }
  active := { weightThreshold := 1, keyAuths := [(5, 1)] }
  posting := { weightThreshold := 1, keyAuths := [(5, 1)] }
  json := { size := 0 }

theorem account_by_key_demo : ∃ hist n, KeyRun .plain hist n ∧
    (5, createAlice.newAccountName) ∈ n.plugin.lookups ∧
    ((5, createAlice.newAccountName) ∈ n.plugin.lookups ↔
        5 ∈ n.db.keysOf createAlice.newAccountName) ∧
    ((initPublicKey, createAlice.newAccountName) ∈ n.plugin.lookups ↔
        initPublicKey ∈ n.db.keysOf createAlice.newAccountName) := by
  have hrun : ((KeyNode.applyOperation 0 { db := Database.initGenesis initSupply }
      (.accountCreate createAlice)).toOption.map fun n =>
        decide ((5, createAlice.newAccountName) ∈ n.plugin.lookups)) = some true := by
    decide +kernel
  obtain ⟨n, hn, hlookup⟩ := Option.map_eq_some_iff.1 hrun
  obtain ⟨hist, h⟩ : ∃ hist, KeyRun .plain hist n :=
    ⟨_, (KeyRun.genesis initSupply).operation 0 _ (toOption_ok hn)⟩
  have hstale (k : PublicKey) : ¬Stale hist k createAlice.newAccountName :=
    fun hs => absurd hs.1 (by decide)
  have hnew : ∀ i < Database.genesisAccounts,
      createAlice.newAccountName ≠ Database.genesisAccountName i := by
    decide
  have hunregistered (k : PublicKey) : ¬Unregistered hist k createAlice.newAccountName := by
    rintro ⟨-, ⟨i, hi, he⟩, -⟩
    exact hnew i hi he
  exact ⟨hist, n, h, of_decide_eq_true hlookup,
    (account_by_key h 5 _).2 ⟨hunregistered 5, hstale 5⟩,
    (account_by_key h initPublicKey _).2 ⟨hunregistered _, hstale _⟩⟩

/-- The keys of the genesis are not looked up. -/
theorem genesis_keys_missed : ∃ n, KeyRun .plain [] n ∧
    initPublicKey ∈ n.db.keysOf (Database.genesisAccountName 0) ∧
    (initPublicKey, Database.genesisAccountName 0) ∉ n.plugin.lookups :=
  ⟨_, .genesis initSupply, Database.initGenesis_keys.2 ⟨rfl, 0, by decide, rfl⟩, List.not_mem_nil⟩

end WeNode.Plugins
