import Clustodian.Model.Names
import Clustodian.Planner.CrushHash

namespace Clustodian

def defaultNodeWeight : ℕ := 1000

def maxRetry : ℕ := 10

def maxLoopbackCount : ℕ := 50

/-- Errors raised by the placement. -/
inductive CrushError
  | duplicateInstance (instance_ : InstanceId)
  | duplicatePartition (partition : PartitionId)
  | emptyFaultZone
  | liveInstanceUnknown (instance_ : InstanceId)
  | noInstances
  | noPartitions
  | selectedNonInstance
  | unsupportedTopology (path faultZoneType endNodeType : String)
  deriving DecidableEq

structure CrushTopology where
  path : String
  faultZoneType : String
  endNodeType : String
  deriving DecidableEq

namespace CrushTopology

/-- The components of a path between its slashes, without empty ones. -/
def components (path : String) : List (List Char) :=
  (path.toList.splitOn '/').filter (· ≠ [])

def validate (topology : CrushTopology) : Except CrushError Unit :=
  let path := components topology.path
  let flat := path = [topology.endNodeType.toList] ∧
    topology.faultZoneType = topology.endNodeType
  let hierarchical := path = [topology.faultZoneType.toList, topology.endNodeType.toList]
  if ¬ flat ∧ ¬ hierarchical then
    .error (.unsupportedTopology topology.path topology.faultZoneType topology.endNodeType)
  else .ok ()

def new (path faultZoneType endNodeType : String) : Except CrushError CrushTopology := do
  let topology : CrushTopology := ⟨path, faultZoneType, endNodeType⟩
  topology.validate
  return topology

/-- The mode that `build` and `add_replicas_for_attempt` test for. -/
abbrev Flat (topology : CrushTopology) : Prop := topology.faultZoneType = topology.endNodeType

end CrushTopology

/-- An instance and its fault zone; zones are never empty. -/
structure CrushInstance where
  instance_ : InstanceId
  faultZone : String
  faultZone_ne : faultZone ≠ ""

def CrushInstance.new (instance_ : InstanceId) (faultZone : String) :
    Except CrushError CrushInstance :=
  if h : faultZone = "" then .error .emptyFaultZone else .ok ⟨instance_, faultZone, h⟩

/-- A node of the arena; children are indexes of it. -/
structure Node where
  name : String
  nodeType : String
  id : BitVec 64
  weight : ℕ
  failed : Bool
  children : List ℕ
  instance_ : Option InstanceId

instance : Inhabited Node := ⟨⟨"", "", 0, 0, false, [], none⟩⟩

structure TopologyTree where
  nodes : List Node
  root : ℕ
  topology : CrushTopology

/-- How a run can end without a value. -/
inductive Halt
  | outOfFuel
  | panicked
  deriving DecidableEq

/-- The input and round of a call of `choose_child`. -/
abbrev SelectCall : Type := BitVec 64 × ℕ

/-- The `f32` and `f64` operations behind straw lengths. -/
structure FloatOps where
  F32 : Type
  F64 : Type
  ofNat : ℕ → F32
  add : F32 → F32 → F32
  sub : F32 → F32 → F32
  mul : F32 → F32 → F32
  div : F32 → F32 → F32
  beq : F32 → F32 → Bool
  toF64 : F32 → F64
  div64 : F64 → F64 → F64
  powf : F64 → F64 → F64
  toF32 : F64 → F32
  toU64 : F32 → ℕ

/-- What the lengths of equal weights rest on: a number equals itself, and `1.0 * 65536.0` is
exact. -/
structure FloatOps.Exact (ops : FloatOps) : Prop where
  beq_self (n : ℕ) : ops.beq (ops.ofNat n) (ops.ofNat n) = true
  toU64_unit : ops.toU64 (ops.mul (ops.ofNat 1) (ops.ofNat 65536)) = 65536

section Straws

variable (ops : FloatOps)

structure StrawState where
  numLeft : ops.F32
  straw : ops.F32
  wBelow : ops.F32
  lastW : ops.F32

/-- The drop from one weight to the next smaller one, of which `group` children follow. -/
def nextWeight (state : StrawState ops) (previous current : ℕ) (group : ℕ) : StrawState ops :=
  let currentWeight := ops.ofNat current
  let previousWeight := ops.ofNat previous
  let wBelow := ops.add state.wBelow
    (ops.mul (ops.sub previousWeight state.lastW) state.numLeft)
  let numLeft := (List.range group).foldl (fun n _ ↦ ops.sub n (ops.ofNat 1)) state.numLeft
  let wNext := ops.mul numLeft (ops.sub currentWeight previousWeight)
  let pBelow := ops.div wBelow (ops.add wBelow wNext)
  let one64 := ops.toF64 (ops.ofNat 1)
  let factor := ops.powf (ops.div64 one64 (ops.toF64 pBelow)) (ops.div64 one64 (ops.toF64 numLeft))
  ⟨numLeft, ops.mul state.straw (ops.toF32 factor), wBelow, previousWeight⟩

/-- The loop over the weights in descending order. -/
def strawLoop : StrawState ops → List ℕ → List ℕ
  | _, [] => []
  | state, 0 :: weights => 0 :: strawLoop state weights
  | state, (weight + 1) :: weights =>
    let length := ops.toU64 (ops.mul state.straw (ops.ofNat 65536))
    match weights with
    | [] => [length]
    | next :: _ =>
      if ops.beq (ops.ofNat next) (ops.ofNat (weight + 1)) then length :: strawLoop state weights
      else
        let group := (weights.takeWhile fun w ↦ ops.beq (ops.ofNat w) (ops.ofNat next)).length
        length :: strawLoop (nextWeight ops state (weight + 1) next group) weights

/-- The straw lengths of children whose weights are given in descending order. -/
def strawLengths (weights : List ℕ) : List ℕ :=
  strawLoop ops ⟨ops.ofNat weights.length, ops.ofNat 1, ops.ofNat 0, ops.ofNat 0⟩ weights

end Straws

namespace TopologyTree

/-- Indexes stay within the arena, so that looking a node up does not panic. -/
def node (tree : TopologyTree) (index : ℕ) : Node := tree.nodes.getD index default

def addNode (tree : TopologyTree) (name nodeType : String) (instance_ : Option InstanceId)
    (failed : Bool) : TopologyTree × ℕ :=
  let node : Node := ⟨name, nodeType, Crush.sha1FirstU32 name, 0, failed, [], instance_⟩
  ({ tree with nodes := tree.nodes ++ [node] }, tree.nodes.length)

def modify (tree : TopologyTree) (index : ℕ) (f : Node → Node) : TopologyTree :=
  { tree with nodes := tree.nodes.modify index f }

def setWeight (tree : TopologyTree) (index weight : ℕ) : TopologyTree :=
  tree.modify index fun node ↦ { node with weight := weight }

def addWeight (tree : TopologyTree) (index weight : ℕ) : TopologyTree :=
  tree.modify index fun node ↦ { node with weight := node.weight + weight }

def pushChild (tree : TopologyTree) (index child : ℕ) : TopologyTree :=
  tree.modify index fun node ↦ { node with children := node.children ++ [child] }

section Build

variable (liveInstances : BTreeSet InstanceId) (topology : CrushTopology)

def addFlatLeaf (tree : TopologyTree) (item : CrushInstance) : TopologyTree :=
  let isLive := liveInstances.contains item.instance_
  let (tree, leaf) := tree.addNode item.instance_.asStr topology.endNodeType
    (some item.instance_) (!isLive)
  let tree := if isLive then
      (tree.setWeight leaf defaultNodeWeight).addWeight tree.root defaultNodeWeight
    else tree
  tree.pushChild tree.root leaf

def zoneOf (tree : TopologyTree) (zones : BTreeMap String ℕ) (item : CrushInstance) :
    TopologyTree × BTreeMap String ℕ × ℕ :=
  match zones[item.faultZone]? with
  | some zone => (tree, zones, zone)
  | none =>
    let (tree, zone) := tree.addNode item.faultZone topology.faultZoneType none false
    (tree.pushChild tree.root zone, zones.insert item.faultZone zone, zone)

def addZoneLeaf (tree : TopologyTree) (zones : BTreeMap String ℕ) (item : CrushInstance) :
    TopologyTree × BTreeMap String ℕ :=
  let (tree, zones, zone) := zoneOf topology tree zones item
  let isLive := liveInstances.contains item.instance_
  let (tree, leaf) := tree.addNode item.instance_.asStr topology.endNodeType
    (some item.instance_) (!isLive)
  let tree := if isLive then
      ((tree.setWeight leaf defaultNodeWeight).addWeight zone defaultNodeWeight).addWeight
        tree.root defaultNodeWeight
    else tree
  (tree.pushChild zone leaf, zones)

def build (instances : List CrushInstance) : TopologyTree :=
  let (tree, root) := addNode ⟨[], 0, topology⟩ "root" "ROOT" none false
  let tree := { tree with root := root }
  (instances.foldl (fun (tree, zones) item ↦
    if topology.faultZoneType = topology.endNodeType then
      (addFlatLeaf liveInstances topology tree item, zones)
    else addZoneLeaf liveInstances topology tree zones item) (tree, (∅ : BTreeMap String ℕ))).1

end Build

section Choose

variable (tree : TopologyTree)

/-- The children by descending weight; equal weights keep their order. -/
def sortedChildren (parent : ℕ) : List ℕ :=
  (tree.node parent).children.insertionSort
    fun left right ↦ (tree.node right).weight ≤ (tree.node left).weight

/-- The children with their straw lengths in the iteration order of a Java hash map. -/
def strawEntries (straws : List ℕ → List ℕ) (parent : ℕ) : List (ℕ × ℕ) :=
  let sorted := tree.sortedChildren parent
  let lengths := straws (sorted.map fun child ↦ (tree.node child).weight)
  let entries := sorted.zipIdx.map fun (child, index) ↦ (child, lengths.getD index 0)
  let capacity := Crush.javaHashMapCapacity entries.length
  entries.insertionSort fun left right ↦
    Crush.javaHashMapBucket (tree.node left.1).name capacity ≤
      Crush.javaHashMapBucket (tree.node right.1).name capacity

def scoreHash (node : ℕ) (input : BitVec 64) (round : ℕ) : ℕ :=
  (Crush.jenkinsHashThree input (tree.node node).id (.ofNat 64 round) &&& 0xffff).toNat

/-- Scores are `u64` products. -/
def score (entry : ℕ × ℕ) (input : BitVec 64) (round : ℕ) : ℕ :=
  tree.scoreHash entry.1 input round * entry.2 % 2 ^ 64

def chooseChild (straws : List ℕ → List ℕ) (parent : ℕ) (input : BitVec 64) (round : ℕ) :
    Except Halt ℕ :=
  match tree.strawEntries straws parent with
  | [] => .error .panicked
  | first :: rest =>
    .ok ((first :: rest).foldl (fun (selected, highScore) entry ↦
      let score := tree.score entry input round
      if score > highScore then (entry.1, score) else (selected, highScore)) (first.1, 0)).1

def isNodeUnavailable (node : ℕ) : Prop :=
  (tree.node node).weight = 0 ∨ ((tree.node node).children = [] ∧ (tree.node node).failed = true)

instance (node : ℕ) : Decidable (tree.isNodeUnavailable node) :=
  inferInstanceAs (Decidable (_ ∨ _))

def allChildrenEliminated (parent : ℕ) (selected : List ℕ) (rejected : BTreeSet ℕ) : Prop :=
  ∀ child ∈ (tree.node parent).children,
    tree.isNodeUnavailable child ∨ child ∈ selected ∨ child ∈ rejected

instance (parent : ℕ) (selected : List ℕ) (rejected : BTreeSet ℕ) :
    Decidable (tree.allChildrenEliminated parent selected rejected) :=
  inferInstanceAs (Decidable (∀ child ∈ _, _))

end Choose

section Select

variable (tree : TopologyTree) (straws : List ℕ → List ℕ)

/-- The loops for one replica `r`: the outer one starts over at `parent` with nothing rejected.
`none` is an escape. The calls of `choose_child` are kept beside the result. -/
def selectNode (parent : ℕ) (input : BitVec 64) (nodeType : String) (selected : List ℕ)
    (excluded : BTreeSet ℕ) (r : ℕ) :
    ℕ → ℕ → BTreeSet ℕ → ℕ → ℕ → Except Halt (Option ℕ × List SelectCall)
  | 0, _, _, _, _ => .error .outOfFuel
  | fuel + 1, inputNode, rejected, failure, loopbackCount => do
    let round := r + failure
    let candidate ← tree.chooseChild straws inputNode input round
    let (out, calls) ← (
      if (tree.node candidate).nodeType ≠ nodeType then
        selectNode parent input nodeType selected excluded r fuel candidate rejected failure
          loopbackCount
      else if candidate ∈ selected ∨ candidate ∈ excluded then
        let rejected := rejected.insert candidate
        if tree.allChildrenEliminated inputNode selected rejected then
          if loopbackCount = maxLoopbackCount then .ok (none, [])
          else
            selectNode parent input nodeType selected excluded r fuel parent ∅ (failure + 1)
              (loopbackCount + 1)
        else
          selectNode parent input nodeType selected excluded r fuel inputNode rejected
            (failure + 1) loopbackCount
      else if tree.isNodeUnavailable candidate then
        if loopbackCount = maxLoopbackCount then .ok (none, [])
        else
          selectNode parent input nodeType selected excluded r fuel parent ∅ (failure + 1)
            (loopbackCount + 1)
      else .ok (some candidate, []))
    return (out, (input, round) :: calls)

/-- The loop body of `select_nodes_of_type`; an escape leaves the replica out. -/
def selectSeat (fuel parent : ℕ) (input : BitVec 64) (nodeType : String) (excluded : BTreeSet ℕ)
    (state : List ℕ × List SelectCall) (r : ℕ) : Except Halt (List ℕ × List SelectCall) := do
  let (selected, calls) := state
  let (out, more) ← tree.selectNode straws parent input nodeType selected excluded r fuel parent ∅
    0 0
  return (selected ++ out.toList, calls ++ more)

def selectNodesOfType (fuel parent : ℕ) (input : BitVec 64) (count : ℕ) (nodeType : String)
    (excluded : BTreeSet ℕ) : Except Halt (List ℕ × List SelectCall) :=
  (List.range' 1 count).foldlM (tree.selectSeat straws fuel parent input nodeType excluded) ([], [])

/-- The loop body over the zones of an attempt. -/
def selectEndNode (fuel : ℕ) (input : BitVec 64) (state : List ℕ × List SelectCall) (zone : ℕ) :
    Except Halt (List ℕ × List SelectCall) := do
  let (selectedNodes, calls) := state
  let (endNodes, more) ← tree.selectNodesOfType straws fuel zone input 1 tree.topology.endNodeType ∅
  return (selectedNodes ++ endNodes, calls ++ more)

/-- The nodes and zones after one attempt. -/
def addReplicasForAttempt (fuel topNode : ℕ) (input : BitVec 64) (replicaCount : ℕ)
    (selectedNodes : List ℕ) (selectedZones : BTreeSet ℕ) :
    Except Halt (List ℕ × BTreeSet ℕ × List SelectCall) :=
  if tree.topology.faultZoneType ≠ tree.topology.endNodeType then do
    let (zones, calls) ← tree.selectNodesOfType straws fuel topNode input replicaCount
      tree.topology.faultZoneType selectedZones
    let selectedZones := zones.foldl (·.insert ·) selectedZones
    let (selectedNodes, calls) ← zones.foldlM (tree.selectEndNode straws fuel input)
      (selectedNodes, calls)
    return (selectedNodes, selectedZones, calls)
  else do
    let selected := selectedNodes.foldl (·.insert ·) (∅ : BTreeSet ℕ)
    let (nodes, calls) ← tree.selectNodesOfType straws fuel topNode input replicaCount
      tree.topology.endNodeType selected
    return (selectedNodes ++ nodes, selectedZones, calls)

/-- The attempts; the first number is how many tries are left. -/
def attemptReplicas (fuel topNode replicaCount : ℕ) :
    ℕ → BitVec 64 → ℕ → List ℕ → BTreeSet ℕ → Except Halt (List ℕ × List SelectCall)
  | 0, _, _, nodes, _ => .ok (nodes, [])
  | tries + 1, input, count, nodes, selectedZones =>
    if nodes.length < replicaCount then do
      let (nodes, selectedZones, calls) ← tree.addReplicasForAttempt straws fuel topNode input
        count nodes selectedZones
      let count := replicaCount - nodes.length
      if count > 0 then
        let (nodes, more) ← attemptReplicas fuel topNode replicaCount tries
          (Crush.jenkinsHashOne input) count nodes selectedZones
        return (nodes, calls ++ more)
      else return (nodes, calls)
    else .ok (nodes, [])

def selectReplicas (fuel topNode : ℕ) (data : BitVec 64) (replicaCount : ℕ) :
    Except Halt (List ℕ × List SelectCall) :=
  tree.attemptReplicas straws fuel topNode replicaCount maxRetry data replicaCount [] ∅

end Select

end TopologyTree

/-- The checks at the head of `compute_crush_assignment`. -/
def checkCrushInputs (partitions : List PartitionId) (instances : List CrushInstance)
    (liveInstances : BTreeSet InstanceId) (topology : CrushTopology) : Except CrushError Unit := do
  topology.validate
  if partitions = [] then .error .noPartitions
  if instances.isEmpty then .error .noInstances
  let _ ← partitions.foldlM (fun (names : BTreeSet PartitionId) partition ↦
    if partition ∈ names then .error (.duplicatePartition partition)
    else .ok (names.insert partition)) ∅
  let names ← instances.foldlM (fun (names : BTreeSet InstanceId) item ↦
    if item.instance_ ∈ names then .error (.duplicateInstance item.instance_)
    else .ok (names.insert item.instance_)) ∅
  liveInstances.toList.forM fun instance_ ↦
    if instance_ ∈ names then .ok () else .error (.liveInstanceUnknown instance_)

/-- `java_string_hash(partition) as i32 as i64`. -/
def partitionInput (partition : PartitionId) : BitVec 64 :=
  (Crush.javaStringHash partition.asStr).signExtend 64

/-- The loop over the partitions. -/
def assignPartitions (straws : List ℕ → List ℕ) (fuel : ℕ) (tree : TopologyTree)
    (replicaCount : ℕ) :
    List PartitionId → BTreeMap PartitionId (List InstanceId) →
      Except Halt (Except CrushError (BTreeMap PartitionId (List InstanceId)) × List SelectCall)
  | [], assignment => .ok (.ok assignment, [])
  | partition :: partitions, assignment => do
    let (selected, calls) ← tree.selectReplicas straws fuel tree.root (partitionInput partition)
      replicaCount
    match selected.mapM fun node ↦ (tree.node node).instance_ with
    | none => return (.error .selectedNonInstance, calls)
    | some preferenceList =>
      let (result, more) ← assignPartitions straws fuel tree replicaCount partitions
        (assignment.insert partition preferenceList)
      return (result, calls ++ more)

/-- Compute preference lists, with `fuel` rounds for every replica. -/
def computeCrushAssignment (straws : List ℕ → List ℕ) (fuel : ℕ) (_resource : ResourceId)
    (partitions : List PartitionId) (replicaCount : ℕ) (instances : List CrushInstance)
    (liveInstances : BTreeSet InstanceId) (topology : CrushTopology) :
    Except Halt (Except CrushError (BTreeMap PartitionId (List InstanceId)) × List SelectCall) :=
  match checkCrushInputs partitions instances liveInstances topology with
  | .error e => .ok (.error e, [])
  | .ok () =>
    assignPartitions straws fuel (TopologyTree.build liveInstances topology instances) replicaCount
      partitions ∅

end Clustodian
