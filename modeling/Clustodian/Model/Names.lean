import Mathlib

namespace Clustodian

/-- Ordered maps and sets of the source: iteration is in increasing key order. -/
abbrev BTreeMap (K V : Type) [Ord K] : Type := Std.ExtTreeMap K V compare

abbrev BTreeSet (K : Type) [Ord K] : Type := Std.ExtTreeSet K compare

inductive NameKind
  | ofInstance
  | ofPartition
  | ofResource
  | ofState
  deriving DecidableEq

/-- Identifiers and state names are non-empty strings; the kind keeps them apart. -/
def Name (_ : NameKind) : Type := {value : String // value ≠ ""}

abbrev InstanceId := Name .ofInstance
abbrev PartitionId := Name .ofPartition
abbrev ResourceId := Name .ofResource
abbrev State := Name .ofState

/-- Logical session tokens; `wire_value` and `sequence` are the number itself. -/
abbrev SessionId := ℕ

namespace Name

variable {k : NameKind}

instance : DecidableEq (Name k) := inferInstanceAs (DecidableEq {value : String // value ≠ ""})
instance : LinearOrder (Name k) := inferInstanceAs (LinearOrder {value : String // value ≠ ""})

def asStr (name : Name k) : String := name.val

instance : ToString (Name k) := ⟨asStr⟩

/-- The texts of `IdentifierError::Empty` and `StateError::EmptyName`. -/
def emptyMessage : NameKind → String
  | .ofInstance => "instance identifier must not be empty"
  | .ofPartition => "partition identifier must not be empty"
  | .ofResource => "resource identifier must not be empty"
  | .ofState => "state name must not be empty"

def new (k : NameKind) (value : String) : Except String (Name k) :=
  if h : value = "" then .error (emptyMessage k) else .ok ⟨value, h⟩

theorem asStr_injective : Function.Injective (asStr (k := k)) := fun _ _ h ↦ Subtype.ext h

@[simp] theorem asStr_inj {a b : Name k} : a.asStr = b.asStr ↔ a = b := asStr_injective.eq_iff

theorem asStr_ne (name : Name k) : name.asStr ≠ "" := name.property

@[simp] theorem toString_eq (name : Name k) : toString name = name.asStr := rfl

@[simp] theorem new_asStr (name : Name k) : new k name.asStr = .ok name := dif_neg name.property

theorem new_eq_ok {value : String} {name : Name k} :
    new k value = .ok name ↔ value = name.asStr := by
  constructor
  · intro h
    unfold new at h
    split at h
    · cases h
    · cases h; rfl
  · rintro rfl
    exact new_asStr name

end Name

section Laws

/-! The laws of the orders and equalities of keys, each under one name. -/

instance : Std.TransCmp (compare : InstanceId → InstanceId → Ordering) := inferInstance
instance : Std.TransCmp (compare : PartitionId → PartitionId → Ordering) := inferInstance
instance : Std.TransCmp (compare : ResourceId → ResourceId → Ordering) := inferInstance
instance : Std.TransCmp (compare : State → State → Ordering) := inferInstance

instance : Std.LawfulEqCmp (compare : InstanceId → InstanceId → Ordering) := inferInstance
instance : Std.LawfulEqCmp (compare : PartitionId → PartitionId → Ordering) := inferInstance
instance : Std.LawfulEqCmp (compare : ResourceId → ResourceId → Ordering) := inferInstance
instance : Std.LawfulEqCmp (compare : State → State → Ordering) := inferInstance

instance : Std.TransOrd (PartitionId ×ₗ InstanceId) := inferInstance
instance : Std.TransOrd (InstanceId ×ₗ SessionId) := inferInstance

instance : LawfulBEq InstanceId := inferInstance
instance : LawfulBEq PartitionId := inferInstance
instance : LawfulBEq ResourceId := inferInstance
instance : LawfulBEq State := inferInstance
instance lawfulBEqNames : LawfulBEq (List String) := inferInstance

end Laws

end Clustodian
