import Firo.Llmq.DkgMessages
import Firo.Lib.Run

/-! How `CSigSharesManager` of `llmq/quorums_signing_shares.cpp` collects the shares that peers
sent, verifies them in a batch and stores them. The batch verifier is a parameter that gives the
right verdict on what is pushed to it; so are the iteration orders of the unordered maps. -/
namespace Firo.Llmq

open Firo.Lib Firo.Spark Firo.Bls

variable {G₁ G₂ : Type}

structure CSigShare (G₂ : Type) where
  llmqType : UInt8
  quorumHash : Uint256
  quorumMember : Nat
  id : Uint256
  msgHash : Uint256
  sigShare : CBLSSignature G₂

structure ShareQuorum (G₁ : Type) where
  type : UInt8
  quorumHash : Uint256
  threshold : Nat
  proTxHashes : List Uint256
  validMembers : List Bool
  /-- `GetMemberIndex` of this node; `none` if it is not a member. -/
  memberIndex : Option Nat
  hasVvec : Bool
  quorumPublicKey : CBLSPublicKey G₁
  pubKeyShare : Nat → CBLSPublicKey G₁

structure ShareEnv (G₁ G₂ : Type) where
  scheme : Scheme G₁ G₂
  buildSignHash : UInt8 → Uint256 → Uint256 → Uint256 → Uint256
  getQuorum : UInt8 → Uint256 → Option (ShareQuorum G₁)
  getQuorum_type : ∀ {llmqType quorumHash quorum},
    getQuorum llmqType quorumHash = some quorum → quorum.type = llmqType
  /-- `CBLSSignature::Recover` from shares and the ids of their members. -/
  recover : List (CBLSSignature G₂) → List Uint256 → Option (CBLSSignature G₂)
  /-- The peers that share the quorum with this node. -/
  masternodeQuorumNodes : UInt8 → Uint256 → List NodeId
  /-- The order of the iteration over a map of shares. -/
  shareOrder : List (CSigShare G₂) → List (CSigShare G₂)
  shareOrder_perm : ∀ l, (shareOrder l).Perm l
  /-- The order of the iteration over the shares by node. -/
  iterate : List (NodeId × List (CSigShare G₂)) → List (NodeId × List (CSigShare G₂))
  iterate_perm : ∀ l, (iterate l).Perm l

namespace ShareEnv

variable (env : ShareEnv G₁ G₂)

def signHash (s : CSigShare G₂) : Uint256 :=
  env.buildSignHash s.llmqType s.quorumHash s.id s.msgHash

def key (s : CSigShare G₂) : Uint256 × Nat :=
  (env.signHash s, s.quorumMember)

def valid (s : CSigShare G₂) : Bool :=
  (env.getQuorum s.llmqType s.quorumHash).any fun quorum =>
    CBLSSignature.verifyInsecure env.scheme s.sigShare (quorum.pubKeyShare s.quorumMember)
      (env.signHash s)

end ShareEnv

/-- A batch verifier that gives the right verdict: the bad sources are those that pushed an
invalid share. -/
structure BatchVerdict (env : ShareEnv G₁ G₂) where
  badSources : List (NodeId × CSigShare G₂) → NodeId → Bool
  right : ∀ pushes node, badSources pushes node = true ↔
    ∃ s, (node, s) ∈ pushes ∧ env.valid s = false

structure NodeState (G₂ : Type) where
  banned : Bool := false
  pendingIncomingSigShares : List (CSigShare G₂) := []

/-- What the filter of a round does with a share: it skips it because its id has a recovered
signature, pushes it to the batch verifier, bans the node because the signature is
malformed, or does not read it any more. -/
inductive Filtered
  | recovered
  | pushed
  | malformed
  | unread
  deriving DecidableEq

/-- A share of a peer that was passed to `ProcessSigShare`, with what the filter did and
whether its id had a recovered signature when it was passed. -/
structure PassedShare (G₂ : Type) where
  nodeId : NodeId
  sigShare : CSigShare G₂
  filtered : Filtered
  hasRecoveredSig : Bool

structure CSigSharesManager (G₂ : Type) where
  nodeStates : NodeId → Option (NodeState G₂)
  sigShares : List (CSigShare G₂)
  recoveredSigs : UInt8 × Uint256 → Bool
  recoveredSigsCounter : Nat
  /-- All shares of peers passed to `ProcessSigShare` so far. -/
  passed : List (PassedShare G₂)

namespace CSigSharesManager

variable (env : ShareEnv G₁ G₂) (m : CSigSharesManager G₂)

def init : CSigSharesManager G₂ where
  nodeStates _ := none
  sigShares := []
  recoveredSigs _ := false
  recoveredSigsCounter := 0
  passed := []

def hasRecoveredSigForId (llmqType : UInt8) (id : Uint256) : Bool :=
  m.recoveredSigs (llmqType, id)

variable (shares : List (CSigShare G₂)) (s : CSigShare G₂)

def hasShare : Bool :=
  shares.any fun s' => env.key s' == env.key s

def addShare : List (CSigShare G₂) :=
  if hasShare env shares s then shares else shares ++ [s]

def eraseShare : List (CSigShare G₂) :=
  shares.filter fun s' => !(env.key s' == env.key s)

/-- `BanNode`: this node itself, with number -1, and a node without a state are not marked. -/
def banNode (nodeId : NodeId) : CSigSharesManager G₂ :=
  match m.nodeStates nodeId with
  | none => m
  | some _ =>
    if nodeId = -1 then m
    else { m with nodeStates := Function.update m.nodeStates nodeId (some { banned := true }) }

def removeSigSharesForSession (signHash : Uint256) : CSigSharesManager G₂ :=
  { m with
    nodeStates := fun n => (m.nodeStates n).map fun ns =>
      { ns with pendingIncomingSigShares :=
          ns.pendingIncomingSigShares.filter fun s => !(env.signHash s == signHash) }
    sigShares := m.sigShares.filter fun s => !(env.signHash s == signHash) }

def announce (nodeId : NodeId) : CSigSharesManager G₂ :=
  match m.nodeStates nodeId with
  | none => { m with nodeStates := Function.update m.nodeStates nodeId (some {}) }
  | some _ => m

structure SessionInfo where
  llmqType : UInt8
  quorumHash : Uint256
  id : Uint256
  msgHash : Uint256

/-- `PreVerifyBatchedSigShares`: whether the batch is accepted, and whether the node is
banned when it is not. -/
def preVerifyBatchedSigShares (quorum : ShareQuorum G₁) (active : Bool)
    (members : List Nat) : Bool × Bool :=
  if !active || quorum.memberIndex.isNone || !quorum.hasVvec then (false, false)
  else if members.Nodup ∧ members.all fun i =>
      decide (i < quorum.proTxHashes.length) && quorum.validMembers.getD i false
  then (true, false)
  else (false, true)

def rebuildSigShare (session : SessionInfo) (share : Nat × CBLSSignature G₂) : CSigShare G₂ where
  llmqType := session.llmqType
  quorumHash := session.quorumHash
  quorumMember := share.1
  id := session.id
  msgHash := session.msgHash
  sigShare := share.2

/-- `ProcessMessageBatchedSigShares` for the session that the message names. A session has the
quorum that its announcement found. -/
def processBatchedSigShares (nodeId : NodeId) (session : SessionInfo) (active : Bool)
    (batch : List (Nat × CBLSSignature G₂)) : CSigSharesManager G₂ :=
  match m.nodeStates nodeId, env.getQuorum session.llmqType session.quorumHash with
  | some ns, some quorum =>
    if ns.banned then m
    else
      let verdict := preVerifyBatchedSigShares quorum active (batch.map Prod.fst)
      if !verdict.1 then if verdict.2 then m.banNode nodeId else m
      else
        let shares := (batch.map (rebuildSigShare session)).filter fun s =>
          !hasShare env m.sigShares s && !m.hasRecoveredSigForId s.llmqType s.id
        { m with nodeStates := Function.update m.nodeStates nodeId (some { ns with
            pendingIncomingSigShares :=
              shares.foldl (addShare env) ns.pendingIncomingSigShares }) }
  | _, _ => m

structure Collect (G₂ : Type) where
  nodeStates : NodeId → Option (NodeState G₂)
  rndNodes : List NodeId
  idx : Nat
  uniqueSignHashes : List (NodeId × Uint256)
  retSigShares : List (NodeId × List (CSigShare G₂))

def appendShare (nodeId : NodeId) (s : CSigShare G₂) :
    List (NodeId × List (CSigShare G₂)) → List (NodeId × List (CSigShare G₂))
  | [] => [(nodeId, [s])]
  | (n, v) :: rest =>
    if n = nodeId then (n, v ++ [s]) :: rest else (n, v) :: appendShare nodeId s rest

def Collect.setPending (c : Collect G₂) (nodeId : NodeId) (ns : NodeState G₂)
    (pending : List (CSigShare G₂)) : Collect G₂ :=
  { c with nodeStates :=
      Function.update c.nodeStates nodeId (some { ns with pendingIncomingSigShares := pending }) }

/-- The callback for a node: whether the node stays in the iteration. -/
def collectFrom (sigShares : List (CSigShare G₂)) (nodeId : NodeId) (c : Collect G₂) :
    Collect G₂ × Bool :=
  match c.nodeStates nodeId with
  | none => (c, false)
  | some ns =>
    if ns.banned then (c.setPending nodeId ns [], false)
    else
      match (env.shareOrder ns.pendingIncomingSigShares).head? with
      | none => (c, false)
      | some s =>
        let rest := eraseShare env ns.pendingIncomingSigShares s
        let c := c.setPending nodeId ns rest
        let c := if hasShare env sigShares s then c else
          { c with
            uniqueSignHashes := c.uniqueSignHashes.insert (nodeId, env.signHash s)
            retSigShares := appendShare nodeId s c.retSigShares }
        (c, !rest.isEmpty)

/-- `IterateNodesRandom` over the shuffled nodes, until there are `maxUniqueSessions`
sessions. The fuel bounds the number of calls. -/
def iterateNodes (sigShares : List (CSigShare G₂)) (maxUniqueSessions : Nat) :
    Nat → Collect G₂ → Collect G₂
  | 0, c => c
  | fuel + 1, c =>
    match c.rndNodes[c.idx]? with
    | none => c
    | some nodeId =>
      if maxUniqueSessions ≤ c.uniqueSignHashes.length then c
      else
        let (c, stays) := collectFrom env sigShares nodeId c
        if stays then
          iterateNodes sigShares maxUniqueSessions fuel
            { c with idx := (c.idx + 1) % c.rndNodes.length }
        else
          let rndNodes := c.rndNodes.eraseIdx c.idx
          iterateNodes sigShares maxUniqueSessions fuel
            { c with rndNodes := rndNodes, idx := c.idx % rndNodes.length }

def iterateFuel (rndNodes : List NodeId) : Nat :=
  rndNodes.length + (rndNodes.map fun n =>
    ((m.nodeStates n).map fun ns => ns.pendingIncomingSigShares.length).getD 0).sum

def collectPending (rndNodes : List NodeId) (maxUniqueSessions : Nat) : Collect G₂ :=
  iterateNodes env m.sigShares maxUniqueSessions (m.iterateFuel rndNodes)
    { nodeStates := m.nodeStates, rndNodes, idx := 0, uniqueSignHashes := [], retSigShares := [] }

def filterShares (recovered : UInt8 × Uint256 → Bool) :
    List (CSigShare G₂) → List (CSigShare G₂ × Filtered)
  | [] => []
  | s :: rest =>
    if recovered (s.llmqType, s.id) then (s, .recovered) :: filterShares recovered rest
    else if s.sigShare.isNone then (s, .malformed) :: rest.map (·, .unread)
    else (s, .pushed) :: filterShares recovered rest

/-- The collected shares of all nodes with what the filter does, in the order of the
iteration. -/
def filterNodes (collected : List (NodeId × List (CSigShare G₂))) :
    List (NodeId × List (CSigShare G₂ × Filtered)) :=
  (env.iterate collected).map fun (n, v) => (n, filterShares m.recoveredSigs v)

def pushes (nodes : List (NodeId × List (CSigShare G₂ × Filtered))) :
    List (NodeId × CSigShare G₂) :=
  nodes.flatMap fun (n, items) =>
    (items.filter fun item => item.2 = .pushed).map fun item => (n, item.1)

/-- The assertions of a round: every collected share has its quorum, and every pushed share
has a valid key share. -/
def assertions (collected : List (NodeId × List (CSigShare G₂)))
    (nodes : List (NodeId × List (CSigShare G₂ × Filtered))) : Bool :=
  (collected.all fun (_, v) => v.all fun s =>
    (env.getQuorum s.llmqType s.quorumHash).isSome) &&
  (pushes nodes).all fun (_, s) =>
    (env.getQuorum s.llmqType s.quorumHash).any fun quorum =>
      (quorum.pubKeyShare s.quorumMember).isSome

/-- `ProcessRecoveredSig` and its listener for a signature of the id. -/
def processRecoveredSig (llmqType : UInt8) (id signHash : Uint256) : CSigSharesManager G₂ :=
  if m.hasRecoveredSigForId llmqType id then m
  else
    { m with recoveredSigs := Function.update m.recoveredSigs (llmqType, id) true
      }.removeSigSharesForSession env signHash

/-- `TryRecoverSig`. Every hundredth recovered signature is verified. -/
def tryRecoverSig (quorum : ShareQuorum G₁) (id msgHash : Uint256) : CSigSharesManager G₂ :=
  if m.hasRecoveredSigForId quorum.type id then m
  else
    let signHash := env.buildSignHash quorum.type quorum.quorumHash id msgHash
    let shares := (env.shareOrder (m.sigShares.filter fun s => env.signHash s == signHash)).take
      quorum.threshold
    if shares.length < quorum.threshold then m
    else
      match env.recover (shares.map CSigShare.sigShare)
        (shares.map fun s => quorum.proTxHashes.getD s.quorumMember 0) with
      | none => m
      | some sig =>
        let checked := m.recoveredSigsCounter % 100 == 0
        let m := { m with recoveredSigsCounter := m.recoveredSigsCounter + 1 }
        if checked && !CBLSSignature.verifyInsecure env.scheme sig quorum.quorumPublicKey signHash
        then m
        else m.processRecoveredSig env quorum.type id signHash

/-- `ProcessSigShare` for a share of a peer. A share of this node's own member creates the
states of the nodes that it is pushed to. -/
def processSigShare (quorum : ShareQuorum G₁) (s : CSigShare G₂) : CSigSharesManager G₂ :=
  if m.hasRecoveredSigForId quorum.type s.id then m
  else if hasShare env m.sigShares s then m
  else
    let m := { m with sigShares := m.sigShares ++ [s] }
    let m :=
      if quorum.memberIndex = some s.quorumMember then
        (env.masternodeQuorumNodes s.llmqType s.quorumHash).foldl announce m
      else m
    let count := (m.sigShares.filter fun s' => env.signHash s' == env.signHash s).length
    if quorum.threshold ≤ count then m.tryRecoverSig env quorum s.id s.msgHash else m

/-- One call of `ProcessSigShare`, recorded. The quorum was found when the share was
collected. -/
def passShare (nodeId : NodeId) (s : CSigShare G₂) (filtered : Filtered) : CSigSharesManager G₂ :=
  let recorded := { m with passed := m.passed ++
    [⟨nodeId, s, filtered, m.hasRecoveredSigForId s.llmqType s.id⟩] }
  match env.getQuorum s.llmqType s.quorumHash with
  | none => recorded
  | some quorum => recorded.processSigShare env quorum s

def processFromNode (nodeId : NodeId) (m : CSigSharesManager G₂) :
    List (CSigShare G₂ × Filtered) → CSigSharesManager G₂
  | [] => m
  | (s, filtered) :: rest =>
    processFromNode nodeId (m.passShare env nodeId s filtered) rest

def processNodes (bad : NodeId → Bool) (m : CSigSharesManager G₂)
    (nodes : List (NodeId × List (CSigShare G₂ × Filtered))) : CSigSharesManager G₂ :=
  nodes.foldl (fun m (n, items) =>
    if bad n then m.banNode n else processFromNode env n m items) m

/-- `ProcessPendingSigShares` for the shuffled nodes; `none` is a failed assertion. -/
def processPendingSigShares (verifier : BatchVerdict env) (rndNodes : List NodeId) :
    Option (CSigSharesManager G₂) :=
  let c := m.collectPending env rndNodes 32
  let nodes := m.filterNodes env c.retSigShares
  if !assertions env c.retSigShares nodes then none
  else
    let m := { m with nodeStates := c.nodeStates }
    let malformed := nodes.filter fun (_, items) => items.any fun item => item.2 == .malformed
    let m := malformed.foldl (fun m (n, _) => m.banNode n) m
    some (processNodes env (verifier.badSources (pushes nodes)) m nodes)

inductive ShareAction (G₁ G₂ : Type)
  /-- A session announcement creates the state of the node. -/
  | sigSesAnn (nodeId : NodeId)
  | batchedSigShares (nodeId : NodeId) (session : SessionInfo) (active : Bool)
      (batch : List (Nat × CBLSSignature G₂))
  | ban (nodeId : NodeId)
  | removeNodeState (nodeId : NodeId)
  /-- A recovered signature that comes from elsewhere. -/
  | recoveredSig (llmqType : UInt8) (id signHash : Uint256)
  | forgetRecoveredSig (llmqType : UInt8) (id : Uint256)
  | cleanup (signHash : Uint256)
  | processPending (rndNodes : List NodeId)

def step (verifier : BatchVerdict env) (m : CSigSharesManager G₂) :
    ShareAction G₁ G₂ → Option (CSigSharesManager G₂)
  | .sigSesAnn nodeId => some (m.announce nodeId)
  | .batchedSigShares nodeId session active batch =>
    some (m.processBatchedSigShares env nodeId session active batch)
  | .ban nodeId => some (m.banNode nodeId)
  | .removeNodeState nodeId =>
    some { m with nodeStates := Function.update m.nodeStates nodeId none }
  | .recoveredSig llmqType id signHash => some (m.processRecoveredSig env llmqType id signHash)
  | .forgetRecoveredSig llmqType id =>
    some { m with recoveredSigs := Function.update m.recoveredSigs (llmqType, id) false }
  | .cleanup signHash => some (m.removeSigSharesForSession env signHash)
  | .processPending rndNodes => m.processPendingSigShares env verifier rndNodes

end CSigSharesManager

end Firo.Llmq
