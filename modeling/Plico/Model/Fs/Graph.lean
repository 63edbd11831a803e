import Mathlib.Data.Finset.Basic
import Plico.Framework.Multimap
import Plico.Framework.Paths
import Plico.Model.Memory.Content

/-!
# The knowledge graph (fs/graph/types.rs, fs/graph/backend.rs)

The persistent backend: two tables of edge copies in memory, and two tables of an embedded database in which every
node and every version of an edge is a row. The clock is an input of each operation, and a transaction of the database
always commits. The index of the nodes by content stands beside the backend (`IndexedGraph`), the choice of the
documents that a new one is associated with is an input, and the counter of writes is left out.
-/

namespace Plico.Graph

/-! ## Records -/

inductive KGNodeType where
  | entity
  | fact
  | document
  | agent
  | memory
  | event
  deriving DecidableEq, Repr

inductive KGEdgeType where
  | associatesWith
  | follows
  | mentions
  | causes
  | reminds
  | partOf
  | similarTo
  | relatedTo
  | hasParticipant
  | hasArtifact
  | hasRecording
  | hasResolution
  | hasFact
  | causedBy
  | dependsOn
  | produces
  | supersedes
  | isAliasOf
  deriving DecidableEq, Repr

/-- The `Debug` text of an edge type, which is part of the key of a row. -/
def KGEdgeType.debug : KGEdgeType → String
  | .associatesWith => "AssociatesWith"
  | .follows => "Follows"
  | .mentions => "Mentions"
  | .causes => "Causes"
  | .reminds => "Reminds"
  | .partOf => "PartOf"
  | .similarTo => "SimilarTo"
  | .relatedTo => "RelatedTo"
  | .hasParticipant => "HasParticipant"
  | .hasArtifact => "HasArtifact"
  | .hasRecording => "HasRecording"
  | .hasResolution => "HasResolution"
  | .hasFact => "HasFact"
  | .causedBy => "CausedBy"
  | .dependsOn => "DependsOn"
  | .produces => "Produces"
  | .supersedes => "Supersedes"
  | .isAliasOf => "IsAliasOf"

structure KGNode where
  id : String
  label : String
  nodeType : KGNodeType
  contentCid : Option String
  properties : Value
  agentId : String
  tenantId : String
  createdAt : Nat
  validAt : Option Nat
  invalidAt : Option Nat
  expiredAt : Option Nat
  deriving DecidableEq

/-- The weight is the bits of an `f32`. -/
structure KGEdge where
  src : String
  dst : String
  edgeType : KGEdgeType
  weight : BitVec 32
  evidenceCid : Option String
  createdAt : Nat
  validAt : Option Nat
  invalidAt : Option Nat
  expiredAt : Option Nat
  episode : Option String
  deriving DecidableEq

namespace KGEdge

/-- `KGEdge::new`, with the reading of the clock that stamps it. -/
def new (src dst : String) (edgeType : KGEdgeType) (weight : BitVec 32) (now : Nat) : KGEdge where
  src
  dst
  edgeType
  weight
  evidenceCid := none
  createdAt := now
  validAt := some now
  invalidAt := none
  expiredAt := none
  episode := none

def isValidAt (e : KGEdge) (t : Nat) : Bool :=
  e.validAt.all (· ≤ t) && e.invalidAt.all (· > t) && e.expiredAt.all (· > t)

end KGEdge

/-- The JSON codecs of the rows. -/
structure GraphPlatform where
  node : Serde KGNode
  edge : Serde KGEdge

/-! ## The backend -/

abbrev EdgeMap := Multimap String (String × KGEdge)

structure PetgraphBackend where
  nodes : AList (fun _ : String => KGNode)
  outEdges : EdgeMap
  inEdges : EdgeMap
  kgNodes : AList (fun _ : String => Bytes)
  kgEdges : AList (fun _ : String => Bytes)

def PetgraphBackend.empty : PetgraphBackend := ⟨∅, ∅, ∅, ∅, ∅⟩

inductive KGError where
  | nodeNotFound (message : String)
  deriving DecidableEq, Repr

def edgeKey (src dst : String) (edgeType : KGEdgeType) (createdAt : Nat) : String :=
  src ++ "|" ++ dst ++ "|" ++ edgeType.debug ++ "|" ++ toString createdAt

def KGEdge.key (e : KGEdge) : String := edgeKey e.src e.dst e.edgeType e.createdAt

variable (P : GraphPlatform) (src dst : String)

/-! ## Rows -/

def persistNode (nodeId : String) (node : KGNode) (g : PetgraphBackend) : PetgraphBackend :=
  match P.node.toVec node with
  | some data => { g with kgNodes := g.kgNodes.insert nodeId data }
  | none => g

/-- The rows of some edges, written in one transaction: none of them if one cannot be encoded. -/
def putEdges (edges : List KGEdge) (table : AList (fun _ : String => Bytes)) : AList (fun _ : String => Bytes) :=
  if edges.all fun e => (P.edge.toVec e).isSome then
    edges.foldl (fun table e => table.insert e.key ((P.edge.toVec e).getD [])) table
  else table

def removeEdges (edges : List KGEdge) (table : AList (fun _ : String => Bytes)) : AList (fun _ : String => Bytes) :=
  edges.foldl (fun table e => table.erase e.key) table

/-! ## Operations -/

def addNode (node : KGNode) (g : PetgraphBackend) : PetgraphBackend :=
  persistNode P node.id node { g with nodes := g.nodes.insert node.id node }

/-- An edge of the table that a new edge of the same endpoints and type puts an end to. -/
def conflicts (endpoint : String) (edgeType : KGEdgeType) (entry : String × KGEdge) : Bool :=
  entry.1 = endpoint && entry.2.edgeType = edgeType && entry.2.invalidAt.isNone

def invalidate (now : Nat) (e : KGEdge) : KGEdge := { e with invalidAt := some now }

/-- The loop over one list of edges that stamps those that match. -/
def invalidateWhere (p : String × KGEdge → Bool) (now : Nat) (list : List (String × KGEdge)) :
    List (String × KGEdge) :=
  list.map fun entry => if p entry then (entry.1, invalidate now entry.2) else entry

/-- The edges that the loop has stamped, as they are after it. -/
def invalidatedBy (p : String × KGEdge → Bool) (now : Nat) (list : List (String × KGEdge)) : List KGEdge :=
  (list.filter p).map fun entry => invalidate now entry.2

def invalidateConflictsInternal (newEdge : KGEdge) (now : Nat) (g : PetgraphBackend) :
    PetgraphBackend × List KGEdge :=
  let outConflict := conflicts newEdge.dst newEdge.edgeType
  let inConflict := conflicts newEdge.src newEdge.edgeType
  ({ g with
      outEdges := g.outEdges.modify newEdge.src (invalidateWhere outConflict now)
      inEdges := g.inEdges.modify newEdge.dst (invalidateWhere inConflict now) },
    invalidatedBy outConflict now (g.outEdges.values newEdge.src))

def addEdge (e : KGEdge) (now : Nat) (g : PetgraphBackend) : PetgraphBackend :=
  let (g, invalidated) := invalidateConflictsInternal e now g
  { g with
    outEdges := g.outEdges.push e.src (e.dst, e)
    inEdges := g.inEdges.push e.dst (e.src, e)
    kgEdges := putEdges P (invalidated ++ [e]) g.kgEdges }

def removeNode (id : String) (g : PetgraphBackend) : PetgraphBackend :=
  let outList := g.outEdges.values id
  let inEdges := outList.foldl (fun m entry => m.modify entry.1 (List.filter fun e => e.1 ≠ id)) g.inEdges
  let inList := inEdges.values id
  let outEdges := inList.foldl (fun m entry => Multimap.modify m entry.1 (List.filter fun e => e.1 ≠ id))
    (g.outEdges.erase id)
  { nodes := g.nodes.erase id
    outEdges
    inEdges := inEdges.erase id
    kgNodes := g.kgNodes.erase id
    kgEdges := removeEdges (outList.map Prod.snd ++ inList.map Prod.snd) g.kgEdges }

/-- An edge that `remove_edge` is asked to remove. -/
def removable (endpoint : String) (edgeType : Option KGEdgeType) (entry : String × KGEdge) : Bool :=
  entry.1 = endpoint && edgeType.all (· = entry.2.edgeType)

def removeEdge (edgeType : Option KGEdgeType) (g : PetgraphBackend) :
    PetgraphBackend × Except KGError Unit :=
  let removedEdges := ((g.outEdges.values src).filter (removable dst edgeType)).map Prod.snd
  let g := { g with
    outEdges := g.outEdges.modify src (List.filter fun entry => !removable dst edgeType entry)
    inEdges := g.inEdges.modify dst (List.filter fun entry => !removable src edgeType entry) }
  if removedEdges = [] then (g, .error (.nodeNotFound ("edge " ++ src ++ "→" ++ dst ++ " not found")))
  else ({ g with kgEdges := removeEdges removedEdges g.kgEdges }, .ok ())

/-- An edge that `invalidate_edge` is asked to end; here the loop looks at the edge and not at its endpoint. -/
def endable (dst : String) (edgeType : KGEdgeType) (entry : String × KGEdge) : Bool :=
  entry.2.dst = dst && entry.2.edgeType = edgeType && entry.2.invalidAt.isNone

def invalidateEdge (edgeType : KGEdgeType) (now : Nat) (g : PetgraphBackend) :
    PetgraphBackend × Bool :=
  let invalidated := invalidatedBy (endable dst edgeType) now (g.outEdges.values src)
  let g := { g with outEdges := g.outEdges.modify src (invalidateWhere (endable dst edgeType) now) }
  if invalidated = [] then (g, false) else ({ g with kgEdges := putEdges P invalidated g.kgEdges }, true)

/-- `Map::insert` on the fields of an object, which are sorted by key. -/
def insertField (key : String) (value : Value) : List (String × Value) → List (String × Value)
  | [] => [(key, value)]
  | field :: fields =>
    if key = field.1 then (key, value) :: fields
    else if key < field.1 then (key, value) :: field :: fields
    else field :: insertField key value fields

def mergeProperties (existing new : Value) : Value :=
  match existing, new with
  | .object fields, .object newFields => .object (newFields.foldl (fun fields f => insertField f.1 f.2 fields) fields)
  | _, _ => new

def KGNode.update (node : KGNode) (label : Option String) (properties : Option Value) : KGNode :=
  { node with
    label := label.getD node.label
    properties := (properties.map (mergeProperties node.properties)).getD node.properties }

def updateNode (id : String) (label : Option String) (properties : Option Value) (g : PetgraphBackend) :
    PetgraphBackend × Except KGError Unit :=
  match g.nodes.lookup id with
  | none => (g, .error (.nodeNotFound id))
  | some node =>
    let node := node.update label properties
    (persistNode P id node { g with nodes := g.nodes.insert id node }, .ok ())

/-- `max_age_ms`: seven days. -/
def maxAgeMs : Nat := 7 * 24 * 3600 * 1000

def isStale (now : Nat) (e : KGEdge) : Bool :=
  (e.invalidAt.or e.expiredAt).any fun t => now - t > maxAgeMs

/-- The entry is not the one that is compacted away; only its endpoint, type and time of creation are compared. -/
def survives (endpoint : String) (e : KGEdge) (entry : String × KGEdge) : Bool :=
  !(entry.1 = endpoint && entry.2.edgeType = e.edgeType && entry.2.createdAt = e.createdAt)

def compactEdges (now : Nat) (g : PetgraphBackend) : PetgraphBackend × Nat :=
  let toRemove := (g.outEdges.toList.map Prod.snd).filter (isStale now)
  if toRemove = [] then (g, 0)
  else
    ({ g with
        outEdges := toRemove.foldl (fun m e => m.modify e.src (List.filter (survives e.dst e))) g.outEdges
        inEdges := toRemove.foldl (fun m e => m.modify e.dst (List.filter (survives e.src e))) g.inEdges
        kgEdges := removeEdges toRemove g.kgEdges },
      toRemove.length)

/-! ## Reopening -/

/-- `split('|')`. -/
def splitKey (key : String) : List String :=
  (key.toList.splitOn '|').map String.ofList

/-- One row of the edges: what is filed, if it can be read and its key has four parts. -/
def readRow (row : Sigma fun _ : String => Bytes) : Option (String × String × KGEdge) :=
  match P.edge.fromSlice row.2, splitKey row.1 with
  | some e, [src, dst, _, _] => some (src, dst, e)
  | _, _ => none

def readNode (row : Sigma fun _ : String => Bytes) : Option (String × KGNode) :=
  (P.node.fromSlice row.2).map fun node => (row.1, node)

def loadFromRedb (kgNodes kgEdges : AList (fun _ : String => Bytes)) : PetgraphBackend :=
  let filed := kgEdges.entries.filterMap (readRow P)
  { nodes := (kgNodes.entries.filterMap (readNode P)).foldl (fun nodes e => nodes.insert e.1 e.2) ∅
    outEdges := filed.foldl (fun m e => m.push e.1 (e.2.1, e.2.2)) ∅
    inEdges := filed.foldl (fun m e => m.push e.2.1 (e.1, e.2.2)) ∅
    kgNodes
    kgEdges }

/-- `PetgraphBackend::open` on the database that the backend has written. -/
def reopen (g : PetgraphBackend) : PetgraphBackend := loadFromRedb P g.kgNodes g.kgEdges

/-! ## Queries -/

def getNode (id : String) (g : PetgraphBackend) : Option KGNode := g.nodes.lookup id

/-- `list_nodes` for nodes of every type. -/
def listNodes (agentId : String) (g : PetgraphBackend) : List KGNode :=
  (g.nodes.entries.map Sigma.snd).filter fun node => node.agentId = agentId && node.expiredAt.isNone

/-- `get_neighbors` at a depth of one. -/
def getNeighbors (id : String) (edgeType : Option KGEdgeType) (g : PetgraphBackend) : List (KGNode × KGEdge) :=
  (g.outEdges.values id ++ g.inEdges.values id).filterMap fun entry =>
    if edgeType.all (· = entry.2.edgeType) then (g.nodes.lookup entry.1).map (·, entry.2) else none

def getValidEdgesAt (t : Nat) (g : PetgraphBackend) : List KGEdge :=
  (g.outEdges.toList.map Prod.snd).filter fun e => e.isValidAt t

/-- The order of optional times, in which an absent one is less than every other. -/
def earlier : Option Nat → Option Nat → Bool
  | none, some _ => true
  | some a, some b => a < b
  | _, none => false

/-- `max_by_key(valid_at)`: the last of the greatest. -/
def latest : List KGEdge → Option KGEdge
  | [] => none
  | e :: es =>
    match latest es with
    | none => some e
    | some later => if earlier later.validAt e.validAt then some e else some later

/-- The edge type that is asked for is not read. -/
def getValidEdgeBetween (_edgeType : Option KGEdgeType) (t : Nat) (g : PetgraphBackend) :
    Option KGEdge :=
  latest (((g.outEdges.values src).filter fun entry => entry.1 = dst && entry.2.isValidAt t).map Prod.snd)

def edgeHistory (edgeType : Option KGEdgeType) (g : PetgraphBackend) : List KGEdge :=
  ((g.outEdges.values src).filter (removable dst edgeType)).map Prod.snd

/-! ## Differences over time (fs/graph/mod.rs) -/

structure TemporalDiff where
  added : List KGEdge
  removed : List KGEdge
  unchanged : List KGEdge
  deriving DecidableEq

/-- The text by which `temporal_diff` compares edges. -/
def KGEdge.diffKey (e : KGEdge) : String := e.src ++ "|" ++ e.dst ++ "|" ++ e.edgeType.debug

/-- The filter for the agent's edges keeps every edge. -/
def temporalDiff (_agentId : String) (t1 t2 : Nat) (g : PetgraphBackend) : TemporalDiff :=
  let edgesT1 := (getValidEdgesAt t1 g).filter fun _ => true
  let edgesT2 := (getValidEdgesAt t2 g).filter fun _ => true
  let t1Keys := edgesT1.map KGEdge.diffKey
  let t2Keys := edgesT2.map KGEdge.diffKey
  { added := edgesT2.filter fun e => e.diffKey ∉ t1Keys
    removed := edgesT1.filter fun e => e.diffKey ∉ t2Keys
    unchanged := edgesT2.filter fun e => e.diffKey ∈ t1Keys }

/-! ## Consolidation (fs/graph/mod.rs) -/

/-- A version that has been put an end to and has not expired. -/
def isPast (e : KGEdge) : Bool := e.invalidAt.isSome && e.expiredAt.isNone

/-- The sort is unstable: `rank` is the order it gives to versions of the same end. -/
def byRecency (rank : KGEdge → Nat) (versions : List KGEdge) : List KGEdge :=
  versions.mergeSort fun a b => b.invalidAt.getD 0 < a.invalidAt.getD 0 ||
    b.invalidAt.getD 0 = a.invalidAt.getD 0 && rank a ≤ rank b

/-- The versions in excess are inserted once more, stamped with `now`; `clock` is what the insertions read. -/
def consolidateVersions (edgeType : KGEdgeType) (keepLastN now : Nat) (rank : KGEdge → Nat) (clock : Nat → Nat)
    (g : PetgraphBackend) : PetgraphBackend × Nat :=
  let invalidated := (edgeHistory src dst (some edgeType) g).filter isPast
  if invalidated.length ≤ keepLastN then (g, 0)
  else
    let toExpire := (byRecency rank invalidated).drop keepLastN
    (toExpire.zipIdx.foldl (fun g x => addEdge P { x.1 with expiredAt := some now } (clock x.2) g) g, toExpire.length)

/-! ## Conflicts (kernel/ops/conflict_detector.rs) -/

def listEdges (agentId : String) (g : PetgraphBackend) : List KGEdge :=
  g.outEdges.entries.flatMap fun x =>
    if (g.nodes.lookup x.1).all (·.agentId ≠ agentId) then []
    else (x.2.map Prod.snd).filter (·.expiredAt.isNone)

/-- The edge is in force. -/
def KGEdge.inForce (e : KGEdge) : Bool := e.invalidAt.isNone && e.expiredAt.isNone

def KGEdge.groupKey (e : KGEdge) : String := e.src ++ "|" ++ e.edgeType.debug

/-- The edges in force by source and type, and of these groups those with several edges. -/
def conflictGroups (agentId : String) (g : PetgraphBackend) : List (Sigma fun _ : String => List KGEdge) :=
  (((listEdges agentId g).filter KGEdge.inForce).foldl (fun m e => m.push e.groupKey e)
    (∅ : Multimap String KGEdge)).entries.filter fun x => x.2.length > 1

inductive ConflictSeverity where
  | low
  | medium
  | high
  deriving DecidableEq, Repr

structure DetectedConflict where
  conflictId : String
  conflictType : String
  description : String
  involvedCids : List String
  agentId : String
  severity : ConflictSeverity
  deriving DecidableEq, Repr

/-- `debug` is the `Debug` text of a list of strings. -/
def detectTemporalConflicts (debug : List String → String) (agentId : String) (now : Nat) (g : PetgraphBackend) :
    List DetectedConflict :=
  (conflictGroups agentId g).map fun x =>
    { conflictId := "tc_" ++ x.1.map (fun c => if c = '|' then '_' else c) ++ "_" ++ toString now
      conflictType := "temporal_inconsistency"
      description := "Multiple valid edges from " ++ (x.2.head?.elim "" (·.src)) ++ " type " ++
        (x.2.head?.elim "" (·.edgeType.debug)) ++ " to: " ++ debug (x.2.map (·.dst))
      involvedCids := x.2.filterMap (·.evidenceCid)
      agentId
      severity := .medium }

def newestFirst (group : List KGEdge) : List KGEdge :=
  group.mergeSort fun a b => b.createdAt ≤ a.createdAt

/-- The edges to end: all but the newest of each group. -/
def olderEdges (agentId : String) (g : PetgraphBackend) : List KGEdge :=
  (conflictGroups agentId g).flatMap fun x => (newestFirst x.2).tail

/-- `duplicates` is what the search for duplicate entities has found, and `clock` what the repairs read. -/
def detectAndRepair (debug : List String → String) (agentId : String) (duplicates : List DetectedConflict) (now : Nat)
    (clock : Nat → Nat) (g : PetgraphBackend) : PetgraphBackend × List DetectedConflict × Nat :=
  let conflicts := detectTemporalConflicts debug agentId now g ++ duplicates
  if conflicts.any (·.conflictType = "temporal_inconsistency") then
    let (g, repairs) := (olderEdges agentId g).zipIdx.foldl (fun (g, repairs) older =>
      let (g, done) := invalidateEdge P older.1.src older.1.dst older.1.edgeType (clock older.2) g
      (g, if done then repairs + 1 else repairs)) (g, 0)
    (g, conflicts, repairs)
  else (g, conflicts, 0)

/-! ## Paths -/

/-- The edges are followed both ways. -/
def neighborIds (g : PetgraphBackend) (id : String) : List String :=
  (g.outEdges.values id ++ g.inEdges.values id).map Prod.fst

def maxResults : Nat := 20

def pathQuery (maxDepth : Nat) (g : PetgraphBackend) : PathQuery String := ⟨neighborIds g, dst, maxDepth, maxResults⟩

def nodePath (g : PetgraphBackend) (path : List String) : List KGNode := path.filterMap g.nodes.lookup

/-- The answer, if the loop has come to its end. -/
def findPaths (maxDepth : Nat) (g : PetgraphBackend) (turns : Nat) : Option (List (List KGNode)) :=
  let s := (pathQuery dst maxDepth g).turn^[turns] ⟨[.start src], []⟩
  if s.stack.isEmpty then some (s.found.map (nodePath g)) else none

/-! ## Runs -/

inductive GraphOp where
  | addNode (node : KGNode)
  | addEdge (e : KGEdge) (now : Nat)
  | updateNode (id : String) (label : Option String) (properties : Option Value)
  | removeNode (id : String)
  | removeEdge (src dst : String) (edgeType : Option KGEdgeType)
  | invalidateEdge (src dst : String) (edgeType : KGEdgeType) (now : Nat)
  | compactEdges (now : Nat)
  | reopen

def apply (g : PetgraphBackend) : GraphOp → PetgraphBackend
  | .addNode node => addNode P node g
  | .addEdge e now => addEdge P e now g
  | .updateNode id label properties => (updateNode P id label properties g).1
  | .removeNode id => removeNode id g
  | .removeEdge src dst edgeType => (removeEdge src dst edgeType g).1
  | .invalidateEdge src dst edgeType now => (invalidateEdge P src dst edgeType now g).1
  | .compactEdges now => (compactEdges now g).1
  | .reopen => reopen P g

def runGraph (g : PetgraphBackend) (ops : List GraphOp) : PetgraphBackend :=
  ops.foldl (apply P) g

/-! ## Nodes by content -/

abbrev CidRefs := AList (fun _ : String => Finset String)

/-- The backend with its index of the nodes by content. -/
structure IndexedGraph where
  graph : PetgraphBackend
  cidRefs : CidRefs

def IndexedGraph.empty : IndexedGraph := ⟨.empty, ∅⟩

def CidRefs.ids (refs : CidRefs) (cid : String) : Finset String := (refs.lookup cid).getD ∅

/-- `entry(cid).or_default().insert(id)`, for a node that has content. -/
def CidRefs.refer (refs : CidRefs) (id : String) : Option String → CidRefs
  | none => refs
  | some cid => refs.insert cid (insert id (refs.ids cid))

/-- The id is taken out of its set, and a set that this leaves empty is removed. -/
def CidRefs.release (refs : CidRefs) (id : String) : Option String → CidRefs
  | none => refs
  | some cid =>
    match refs.lookup cid with
    | none => refs
    | some set => if set.erase id = ∅ then refs.erase cid else refs.insert cid (set.erase id)

/-- The rebuild of `open`. -/
def CidRefs.ofNodes (nodes : AList (fun _ : String => KGNode)) : CidRefs :=
  nodes.entries.foldl (fun refs x => refs.refer x.1 x.2.contentCid) ∅

/-- The content of the node under an id. -/
def contentOf (nodes : AList (fun _ : String => KGNode)) (id : String) : Option String :=
  (nodes.lookup id).bind (·.contentCid)

def documentNode (cid : String) (tags : List String) (agentId : String) (now : Nat) : KGNode where
  id := cid
  label := "doc:" ++ String.Pos.Raw.extract cid 0 ⟨8⟩
  nodeType := .document
  contentCid := some cid
  properties := .object [("tags", .array (tags.map .string))]
  agentId
  tenantId := "default"
  createdAt := now
  validAt := none
  invalidAt := none
  expiredAt := none

/-- An operation on the backend, the node of a document with the edges that associate it, or the tables of files. -/
inductive IndexedOp where
  | graph (op : GraphOp)
  | upsertDocument (cid : String) (tags : List String) (agentId : String) (now : Nat) (associated : List (KGEdge × Nat))
  | loadFromDisk (nodes : AList (fun _ : String => KGNode)) (outEdges inEdges : EdgeMap)

def IndexedGraph.applyGraph (s : IndexedGraph) (op : GraphOp) : IndexedGraph where
  graph := apply P s.graph op
  cidRefs :=
    match op with
    | .addNode node => s.cidRefs.refer node.id node.contentCid
    | .removeNode id => s.cidRefs.release id (contentOf s.graph.nodes id)
    | .reopen => .ofNodes (reopen P s.graph).nodes
    | _ => s.cidRefs

def IndexedGraph.apply (s : IndexedGraph) : IndexedOp → IndexedGraph
  | .graph op => s.applyGraph P op
  | .upsertDocument cid tags agentId now associated =>
    associated.foldl (fun s x => s.applyGraph P (.addEdge x.1 x.2))
      (s.applyGraph P (.addNode (documentNode cid tags agentId now)))
  | .loadFromDisk nodes outEdges inEdges => { s with graph := { s.graph with nodes, outEdges, inEdges } }

def runIndexed (s : IndexedGraph) (ops : List IndexedOp) : IndexedGraph := ops.foldl (·.apply P) s

def hasNodeWithCid (cid : String) (s : IndexedGraph) : Bool := (s.cidRefs.lookup cid).any (· ≠ ∅)

end Plico.Graph
