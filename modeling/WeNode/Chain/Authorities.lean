import WeNode.Chain.Validate
import WeNode.Chain.State

/-!
# Authority of a transaction

libraries/protocol/sign_state.cpp, `verify_authority` of libraries/protocol/transaction.cpp
(85-172; its callers pass no approvals) and the authorities the operations of node_operations.hpp
require.
-/

namespace WeNode.Chain

open WeNode.Lib

/-- What the operations of a transaction require: accounts by the kind of authority, and further
authorities. -/
structure Required where
  active : List Name := []
  owner : List Name := []
  posting : List Name := []
  other : List Authority := []

namespace Required

def append (a b : Required) : Required :=
  ⟨a.active ++ b.active, a.owner ++ b.owner, a.posting ++ b.posting, a.other ++ b.other⟩

end Required

/-- `operation_get_required_authorities` -/
def Operation.required : Operation → Required
  | .vote op => { posting := [op.voter] }
  | .comment op => { posting := [op.author] }
  | .transfer op =>
    if op.amount.symbol = symbolScore then { owner := [op.fromAccount] }
    else { active := [op.fromAccount] }
  | .transferTMEtoSCOREfund op => { active := [op.fromAccount] }
  | .withdrawSCORE op => { active := [op.account] }
  | .limitOrderCreate op => { active := [op.owner] }
  | .limitOrderCancel op => { active := [op.owner] }
  | .feedPublish op => { active := [op.publisher] }
  | .convert op => { active := [op.owner] }
  | .accountCreate op => { active := [op.creator] }
  | .accountUpdate op =>
    if op.owner.isSome then { owner := [op.account] } else { active := [op.account] }
  | .witnessUpdate op => { active := [op.owner] }
  | .accountWitnessVote op => { active := [op.account] }
  | .accountWitnessProxy op => { active := [op.account] }
  | .pow _ => {}
  | .custom op => { active := op.requiredAuths }
  | .reportOverProduction _ => {}
  | .deleteComment op => { posting := [op.author] }
  | .customJson op => { active := op.requiredAuths, posting := op.requiredPostingAuths }
  | .commentOptions op => { posting := [op.author] }
  | .setWithdrawSCOREasTMEroute op => { active := [op.fromAccount] }
  | .limitOrderCreate2 op => { active := [op.owner] }
  | .challengeAuthority op => { active := [op.challenger] }
  | .proveAuthority op =>
    if op.requireOwner then { owner := [op.challenged] } else { active := [op.challenged] }
  | .requestAccountRecovery op => { active := [op.recoveryAccount] }
  | .recoverAccount op => { other := [op.newOwnerAuthority, op.recentOwnerAuthority] }
  | .changeRecoveryAccount op => { owner := [op.accountToRecover] }
  | .escrowTransfer op => { active := [op.fromAccount] }
  | .escrowDispute op => { active := [op.who] }
  | .escrowRelease op => { active := [op.who] }
  | .pow2 op =>
    match op.newOwnerKey with
    | some key => { other := [{ weightThreshold := 1, keyAuths := [(key, 1)] }] }
    | none => { active := [op.work.workerAccount] }
  | .escrowApprove op => { active := [op.who] }
  | .transferToSavings op => { active := [op.fromAccount] }
  | .transferFromSavings op => { active := [op.fromAccount] }
  | .cancelTransferFromSavings op => { active := [op.fromAccount] }
  | .customBinary op =>
    { owner := op.requiredOwnerAuths
      active := op.requiredActiveAuths
      posting := op.requiredPostingAuths
      other := op.requiredAuths }
  | .declineVotingRights op => { owner := [op.account] }
  | .resetAccount op => { active := [op.resetAccount] }
  | .setResetAccount op =>
    if op.currentResetAccount = 0 then { posting := [op.account] } else { owner := [op.account] }
  | .claimRewardBalance op => { posting := [op.account] }
  | .delegateSCORE op => { active := [op.delegator] }
  | .accountCreateWithDelegation op => { active := [op.creator] }

/-! ### Checking an authority -/

/-- `sign_state`: the keys provided, those of them used, the keys that could sign as well, and the
accounts approved -/
structure SignState where
  signatures : List PublicKey
  used : List PublicKey := []
  availableKeys : List PublicKey := []
  approvedBy : List Name := [tempAccount]

abbrev AuthorityGetter := Name → Result Authority

/-- `signed_by` -/
def SignState.signedBy (s : SignState) (key : PublicKey) : Bool × SignState :=
  if key ∈ s.signatures then (true, { s with used := key :: s.used })
  else if key ∈ s.availableKeys then
    (true, { s with signatures := key :: s.signatures, used := key :: s.used })
  else (false, s)

/- The keys of an authority: the weight so far, and whether the threshold is reached. -/
def checkKeys (threshold : Nat) :
    List (PublicKey × Nat) → Nat → SignState → Bool × Nat × SignState
  | [], total, s => (false, total, s)
  | (key, weight) :: rest, total, s =>
    let (signed, s) := s.signedBy key
    if signed then
      let total := (total + weight) % two32
      if threshold ≤ total then (true, total, s) else checkKeys threshold rest total s
    else checkKeys threshold rest total s

/- An account counts that is approved already, or whose authority is met now. -/
def approve (check : Name → SignState → Result (Bool × SignState)) (account : Name) (s : SignState) :
    Result (Bool × SignState) :=
  if account ∈ s.approvedBy then .ok (true, s)
  else do
    let (ok, s) ← check account s
    return (ok, if ok then { s with approvedBy := account :: s.approvedBy } else s)

/- The accounts of an authority; `check` asks for the active authority of one of them. -/
def checkAccounts (check : Name → SignState → Result (Bool × SignState)) (threshold : Nat) :
    List (Name × Nat) → Nat → SignState → Result (Bool × SignState)
  | [], total, s => .ok (decide (threshold ≤ total), s)
  | (account, weight) :: rest, total, s => do
    let (approved, s) ← approve check account s
    if approved then
      let total := (total + weight) % two32
      if threshold ≤ total then return (true, s)
      checkAccounts check threshold rest total s
    else checkAccounts check threshold rest total s

/- `check_authority` with the recursion left -/
def checkAuthorityAt (get : AuthorityGetter) : Nat → Authority → SignState → Result (Bool × SignState)
  | left, auth, s =>
    let (reached, total, s) := checkKeys auth.weightThreshold auth.keyAuths 0 s
    if reached then .ok (true, s)
    else checkAccounts (fun account s =>
      match left with
      | 0 => .ok (false, s)
      | left + 1 => do checkAuthorityAt get left (← get account) s)
      auth.weightThreshold auth.accountAuths total s

/- `MAX_SIG_CHECK_DEPTH` -/
def maxSigCheckDepth : Nat := 2

/-- `check_authority( auth )` -/
def checkAuthority (get : AuthorityGetter) (maxRecursion : Nat) (auth : Authority) (s : SignState) :
    Result (Bool × SignState) :=
  checkAuthorityAt get maxRecursion auth s

/-- `check_authority( id )` -/
def checkAccountAuthority (get : AuthorityGetter) (maxRecursion : Nat) (id : Name) (s : SignState) :
    Result (Bool × SignState) := do
  if id ∈ s.approvedBy then return (true, s)
  checkAuthority get maxRecursion (← get id) s

/- The authorities of one account in turn, until one is met. -/
def checkAny (e : Exception) :
    List (SignState → Result (Bool × SignState)) → SignState → Result SignState
  | [], _ => .error e
  | check :: rest, s => do
    let (ok, s) ← check s
    if ok then return s else checkAny e rest s

/- Every signature has to be used. -/
def checkUsed (s : SignState) : Result Unit :=
  if s.signatures.all (· ∈ s.used) then .ok () else .error .irrelevantSig

/- The order of a `flat_set` of names. -/
def flatSet (l : List Name) : List Name := (l.insertionSort (· ≤ ·)).dedup

/- What meets a requirement of the posting, active or owner authority of an account. -/
def postingChecks (getActive getOwner getPosting : AuthorityGetter) (depth : Nat) (id : Name) :
    List (SignState → Result (Bool × SignState)) :=
  [checkAccountAuthority getPosting depth id,
    fun s => do checkAuthority getPosting depth (← getActive id) s,
    fun s => do checkAuthority getPosting depth (← getOwner id) s]

def activeChecks (getActive getOwner : AuthorityGetter) (depth : Nat) (id : Name) :
    List (SignState → Result (Bool × SignState)) :=
  [checkAccountAuthority getActive depth id,
    fun s => do checkAuthority getActive depth (← getOwner id) s]

def ownerChecks (getActive getOwner : AuthorityGetter) (depth : Nat) (id : Name) :
    List (SignState → Result (Bool × SignState)) :=
  [fun s => do checkAuthority getActive depth (← getOwner id) s]

/-- `verify_authority` -/
def verifyAuthority (r : Required) (sigs : List PublicKey)
    (getActive getOwner getPosting : AuthorityGetter)
    (maxRecursionDepth : Nat := maxSigCheckDepth) : Result Unit := do
  if r.posting ≠ [] then
    require (r.active = []) "required_active.size() == 0"
    require (r.owner = []) "required_owner.size() == 0"
    require (r.other = []) "other.size() == 0"
    let s ← (flatSet r.posting).foldlM (fun s id => checkAny .missingPostingAuth
      (postingChecks getActive getOwner getPosting maxRecursionDepth id) s) { signatures := sigs }
    checkUsed s
  else
    let s ← r.other.foldlM (fun s auth => checkAny .missingOtherAuth
      [checkAuthority getActive maxRecursionDepth auth] s) { signatures := sigs }
    let s ← (flatSet r.active).foldlM (fun s id => checkAny .missingActiveAuth
      (activeChecks getActive getOwner maxRecursionDepth id) s) s
    let s ← (flatSet r.owner).foldlM (fun s id => checkAny .missingOwnerAuth
      (ownerChecks getActive getOwner maxRecursionDepth id) s) s
    checkUsed s

end WeNode.Chain
