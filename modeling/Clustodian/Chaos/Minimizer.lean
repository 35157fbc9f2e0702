import Clustodian.Chaos.Carried
import Clustodian.Lib.DeltaDebugging

/-! The minimizer of failing traces; `reproduces` tells whether a trace still fails the same way. -/

namespace Clustodian.Chaos

open DeltaDebugging

section Ranges

variable {trace candidate : Trace} {start stop : ℕ}

theorem length_removeActionRange (h : removeActionRange trace start stop = some candidate) :
    candidate.actions.length < trace.actions.length := by
  unfold removeActionRange at h
  split at h
  · cases h
  · obtain rfl := Option.some.inj h
    simp only [List.length_append, List.length_take, List.length_drop]
    omega

theorem length_removeFaultRange (h : removeFaultRange trace start stop = some candidate) :
    candidate.faults.length < trace.faults.length := by
  unfold removeFaultRange at h
  split at h
  · cases h
  · obtain rfl := Option.some.inj h
    simp only [List.length_append, List.length_take, List.length_drop]
    omega

theorem valid_removeFaultRange (h : removeFaultRange trace start stop = some candidate) :
    start < stop ∧ stop ≤ trace.faults.length := by
  unfold removeFaultRange at h
  split at h
  · cases h
  · omega

def actionRanges : Ranges Trace where
  size trace := trace.actions.length
  remove := removeActionRange
  size_lt _ _ _ _ := length_removeActionRange

def faultRanges : Ranges Trace where
  size trace := trace.faults.length
  remove := removeFaultRange
  size_lt _ _ _ _ := length_removeFaultRange

end Ranges

section CandidateTester

variable (reproduces : Trace → Bool)

def minimizeActionRanges (current : Trace) : Trace :=
  actionRanges.minimize reproduces ⟨2, le_rfl⟩ current

def minimizeFaultRanges (current : Trace) : Trace :=
  faultRanges.minimize reproduces ⟨2, le_rfl⟩ current

/-- The candidates in the order in which `minimize_fault_parameters` tests them. -/
def faultCandidates (current : Trace) : List Trace :=
  (List.range current.faults.length).flatMap (reduceFault current)

/-- The loops that need not end have a bound on their rounds; without a result it was too small. -/
def minimizeFaultParameters (rounds : ℕ) (current : Trace) : Option Trace :=
  descend faultCandidates reproduces rounds current

def minimizeTopology (rounds : ℕ) (current : Trace) : Option Trace :=
  descend reduceClusterAndResources reproduces rounds current

def minimize : ℕ → Trace → Option Trace
  | 0, _ => none
  | rounds + 1, before => do
    let current := minimizeActionRanges reproduces before
    let current := minimizeFaultRanges reproduces current
    let current ← minimizeFaultParameters reproduces rounds current
    let current ← minimizeTopology reproduces rounds current
    if current = before then some current else minimize rounds current

/-- A trace of one action and one fault. -/
def single : Trace where
  schemaVersion := 1
  seed := 7
  profile := "nightly"
  initialConfig := ⟨["controller-a"], [], [], []⟩
  actions := [.startController "controller-a"]
  faults := [⟨0, .etcdCompaction⟩]

end CandidateTester

end Clustodian.Chaos
