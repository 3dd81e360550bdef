import WeNode.Chain.State

/-!
# Witness votes

The tally of witness votes, libraries/chain/database.cpp (1106-1213).
-/

namespace WeNode.Chain

open WeNode.Lib

/-- `witness_vote_weight` -/
def Account.witnessVoteWeight (a : Account) : Result Int :=
  (List.finRange maxProxyRecursionDepth).foldlM (fun sum i => safeAdd sum (a.proxiedVotes i)) a.score

def Account.setProxiedVote (a : Account) (i : Fin maxProxyRecursionDepth) (v : Int) : Account :=
  { a with proxiedVotes := fun j => if j = i then v else a.proxiedVotes j }

def Account.addProxiedVote (a : Account) (i : Fin maxProxyRecursionDepth) (delta : Int) :
    Result Account := do
  return a.setProxiedVote i (← safeAdd (a.proxiedVotes i) delta)

namespace Database

/-- `adjust_witness_vote` -/
def adjustWitnessVote (d : Database) (witness : Name) (delta : Int) : Result Database :=
  d.modifyWitness witness fun w => do
    let now := d.schedule.currentVirtualTime
    let deltaPos := u128Mul (u128 w.votes) (u128Sub now w.virtualLastUpdate)
    let position := u128Add w.virtualPosition deltaPos
    let votes ← safeAdd w.votes delta
    require (votes ≤ d.gpo.totalSCORE) ""
    let lap := if d.hasHardfork 2 then virtualScheduleLapLength2 else virtualScheduleLapLength
    let rest ← u128Div (u128Sub lap position) (u128 (votes + 1))
    let time := u128Add now rest
    -- a witness with few votes could overflow the time field
    let time := if d.hasHardfork 4 ∧ time < now then two128 - 1 else time
    return { w with
      votes := votes
      virtualPosition := position
      virtualLastUpdate := now
      virtualScheduledTime := time }

/- The votes of an account in the order of `by_account_witness`. -/
def votesOf (d : Database) (account : Nat) : List WitnessVote :=
  sortOn (·.witness) (·.id) (d.witnessVotes.rows.filter fun v => v.account == account)

/-- `adjust_witness_votes` -/
def adjustWitnessVotes (d : Database) (name : Name) (delta : Int) : Result Database := do
  let a ← d.getAccount name
  (d.votesOf a.id).foldlM (fun d v => do
    let w ← d.getWitnessById v.witness
    d.adjustWitnessVote w.owner delta) d

/- The walk along the proxies of an account: `change` is made to the proxy at each depth, and the
account without a proxy at the end of the chain has its votes adjusted by `total` of the depth it
was found at.  A chain longer than `MAX_PROXY_RECURSION_DEPTH` does not propagate. -/
def walkProxies (change : Fin maxProxyRecursionDepth → Account → Result Account)
    (total : Nat → Result Int) :
    List (Fin maxProxyRecursionDepth) → Database → Name → Result Database
  | [], d, name => do
    let a ← d.getAccount name
    if a.proxy = proxyToSelfAccount then
      d.adjustWitnessVotes name (← total maxProxyRecursionDepth)
    else return d
  | depth :: rest, d, name => do
    let a ← d.getAccount name
    if a.proxy = proxyToSelfAccount then
      d.adjustWitnessVotes name (← total (maxProxyRecursionDepth - (rest.length + 1)))
    else do
      let d ← d.modifyAccount a.proxy (change depth)
      walkProxies change total rest d a.proxy

/-- `adjust_proxied_witness_votes( a, delta )` for a single difference -/
def adjustProxiedWitnessVotes (d : Database) (name : Name) (delta : Int) : Result Database :=
  walkProxies (fun depth p => p.addProxiedVote depth delta) (fun _ => .ok delta)
    (List.finRange maxProxyRecursionDepth) d name

/-- `adjust_proxied_witness_votes( a, delta )` for the differences of every depth -/
def adjustProxiedWitnessVotesArray (d : Database) (name : Name)
    (delta : Fin (maxProxyRecursionDepth + 1) → Int) : Result Database :=
  walkProxies
    (fun depth p => ((List.finRange maxProxyRecursionDepth).reverse.filter (depth ≤ ·)).foldlM
      (fun p j => p.addProxiedVote j (delta (Fin.ofNat _ (j - depth)))) p)
    (fun depth => ((List.finRange (maxProxyRecursionDepth + 1)).reverse.filter
      (fun i => i.val + depth ≤ maxProxyRecursionDepth)).foldlM
        (fun sum i => safeAdd sum (delta i)) 0)
    (List.finRange maxProxyRecursionDepth) d name

/- `-SCORE` and the negated votes proxied to the account, the differences with which an account
leaves its proxy -/
def leavingDelta (a : Account) : Result (Fin (maxProxyRecursionDepth + 1) → Int) := do
  let own ← safeNeg a.score
  let proxied ← (List.finRange maxProxyRecursionDepth).mapM fun i => safeNeg (a.proxiedVotes i)
  return fun i => (own :: proxied).getD i 0

def removeWitnessVotes (d : Database) (account : Nat) : Database :=
  { d with witnessVotes :=
    { d.witnessVotes with rows := d.witnessVotes.rows.filter fun v => v.account != account } }

/-- `clear_witness_votes` -/
def clearWitnessVotes (d : Database) (name : Name) : Result Database := do
  let a ← d.getAccount name
  let d := d.removeWitnessVotes a.id
  if d.hasHardfork 6 then
    d.modifyAccount name fun a => .ok { a with witnessesVotedFor := 0 }
  else return d

end Database

end WeNode.Chain
