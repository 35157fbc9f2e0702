import Clustodian.Lib.Client
import Clustodian.Controller.Queue

namespace Clustodian

open RevisionStore

/-- The keys below the prefix of one coordination namespace. -/
inductive Key
  | active
  | candidate (controller : String)
  | currentState (instance_ : InstanceId) (session : SessionId) (resource : ResourceId)
      (partition : PartitionId)
  | sequence
  | live (instance_ : InstanceId)
  | metadata (key : String)
  | session (instance_ : InstanceId) (session : SessionId)
  deriving DecidableEq

section Text

def startsWith (text lead : String) : Bool := lead.toList.isPrefixOf text.toList

def endsWith (text tail : String) : Bool := tail.toList.isSuffixOf text.toList

theorem toString_injective : Function.Injective (toString : ℕ → String) := by
  intro a b h
  have digits : Nat.toDigits 10 a = Nat.toDigits 10 b := by
    simpa [Nat.toString_eq_ofList_toDigits] using congrArg String.toList h
  simpa using congrArg (fun digits ↦ Nat.ofDigitChars 10 digits 0) digits

theorem parseDigits_toDigits (n : ℕ) : parseDigits (Nat.toDigits 10 n) = some n := by
  have numeric : (Nat.toDigits 10 n).all Char.isDigit = true := by
    rw [List.all_eq_true]
    exact fun c hc ↦ Nat.isDigit_of_mem_toDigits (by decide) (by decide) hc
  have value := Nat.ofDigitChars_ten_toDigits (n := n)
  rw [Nat.ofDigitChars_eq_foldl] at value
  unfold parseDigits
  rw [if_neg (by simp [numeric, Nat.toDigits_ne_nil]), value]

theorem parseU64_toString (n : ℕ) :
    parseU64 (toString n) = if n < 2 ^ 64 then some n else none := by
  have unsigned : ∀ rest, Nat.toDigits 10 n ≠ '+' :: rest := by
    intro rest eq
    have digit := Nat.isDigit_of_mem_toDigits (b := 10) (n := n) (c := '+') (by decide) (by decide)
      (by rw [eq]; exact List.mem_cons_self)
    exact absurd digit (by decide)
  have text : (toString n).toList = Nat.toDigits 10 n := by
    simp
  unfold parseU64
  rw [text]
  split
  · next rest eq => exact absurd eq (unsigned rest)
  · simp only [parseDigits_toDigits, Option.filter, decide_eq_true_eq]

end Text

def hexDigit (n : ℕ) : Char := "0123456789abcdef".toList.getD n '0'

/-- Segments are hex texts, so they contain no separator. -/
def encodeSegment (value : String) : String :=
  String.ofList (value.toUTF8.toList.flatMap fun byte ↦
    [hexDigit (byte.toNat / 16), hexDigit (byte.toNat % 16)])

def internalSessionSequence : String := "internal/session-sequence"
def authoritativeInputMarker : String := "internal/authoritative-input"

def sessionText (session : SessionId) : String := toString session

namespace Key

/-- The text of a key below the prefix. -/
def relative : Key → String
  | .active => "controller/election/active"
  | .candidate controller => "controller/election/candidates/" ++ encodeSegment controller
  | .currentState i ticket resource partition =>
    "current-state/" ++ encodeSegment i.asStr ++ "/" ++ sessionText ticket ++ "/" ++
      encodeSegment resource.asStr ++ "/" ++ encodeSegment partition.asStr
  | .sequence => internalSessionSequence
  | .live i => "live/" ++ encodeSegment i.asStr
  | .metadata key => "metadata/" ++ encodeSegment key
  | .session i ticket =>
    "sessions/" ++ encodeSegment i.asStr ++ "/" ++ sessionText ticket

def metadataKey : Key → Option String
  | .metadata key => some key
  | _ => none

/-- Keys sort as their texts do; the separator is smaller than every hex digit. -/
def sortKey : Key → ℕ ×ₗ String ×ₗ String ×ₗ String ×ₗ String
  | .active => toLex (0, toLex ("", toLex ("", toLex ("", ""))))
  | .candidate controller => toLex (1, toLex (controller, toLex ("", toLex ("", ""))))
  | .currentState i ticket resource partition =>
    toLex (2, toLex (i.asStr, toLex (sessionText ticket,
      toLex (resource.asStr, partition.asStr))))
  | .sequence => toLex (3, toLex ("", toLex ("", toLex ("", ""))))
  | .live i => toLex (4, toLex (i.asStr, toLex ("", toLex ("", ""))))
  | .metadata key => toLex (5, toLex (key, toLex ("", toLex ("", ""))))
  | .session i ticket =>
    toLex (6, toLex (i.asStr, toLex (sessionText ticket, toLex ("", ""))))

theorem sortKey_injective : Function.Injective sortKey := by
  have text : ∀ a b, sessionText a = sessionText b ↔ a = b := fun a b ↦
    toString_injective.eq_iff
  intro a b h
  cases a <;> cases b <;>
    simp_all [sortKey, Prod.mk.injEq]

instance : LinearOrder Key := LinearOrder.lift' sortKey sortKey_injective

instance : Std.TransCmp (compare : Key → Key → Ordering) := inferInstance

end Key

/-- Keys whose revisions the controller takes as changes of its input. -/
def isAuthoritativeKey (relative : String) (metadataKey : Option String) : Bool :=
  let isDerived := metadataKey.any (startsWith · "controller/output/")
  let isParticipantProgress := metadataKey.any fun key ↦
    startsWith key "participant/" && endsWith key "/processed-revision"
  let isElectionRecord := startsWith relative "controller/election/"
  let isSessionSequence := relative == internalSessionSequence
  !isDerived && !isParticipantProgress && !isElectionRecord && !isSessionSequence

/-- Metadata keys whose writers also write the marker. -/
def isAuthoritativeMetadataKey (key : String) : Bool :=
  key != authoritativeInputMarker && !startsWith key "controller/output/" &&
    !(startsWith key "participant/" && endsWith key "/processed-revision")

namespace Key

def counted (key : Key) : Bool := isAuthoritativeKey key.relative key.metadataKey

def marker : Key := .metadata authoritativeInputMarker
def queue : Key := .metadata pendingOutputKey

/-- Two texts that begin differently are told apart by their first characters. -/
theorem not_startsWith (text lead other : String)
    (h : text.toList.take 2 ≠ lead.toList.take 2) (long : 2 ≤ text.toList.length)
    (long' : 2 ≤ lead.toList.length) : startsWith (text ++ other) lead = false := by
  rw [Bool.eq_false_iff]
  intro prefixed
  rw [startsWith, List.isPrefixOf_iff_prefix, String.toList_append] at prefixed
  obtain ⟨rest, eq⟩ := prefixed
  have heads := congrArg (List.take 2) eq
  rw [List.take_append_of_le_length long', List.take_append_of_le_length long] at heads
  exact h heads.symm

/-- A key outside the election records and the session sequence is counted. -/
theorem isAuthoritativeKey_append (text other : String) (h : text.toList.take 2 ≠ ['c', 'o'])
    (h' : text.toList.take 2 ≠ ['i', 'n']) (long : 2 ≤ text.toList.length)
    (metadataKey : Option String) :
    isAuthoritativeKey (text ++ other) metadataKey =
      (!metadataKey.any (startsWith · "controller/output/") && !metadataKey.any fun key ↦
        startsWith key "participant/" && endsWith key "/processed-revision") := by
  have notElection : startsWith (text ++ other) "controller/election/" = false :=
    not_startsWith text _ other (by simpa using h) long (by decide)
  have notSequence : (text ++ other == internalSessionSequence) = false := by
    rw [beq_eq_false_iff_ne]
    intro same
    have clash := not_startsWith text internalSessionSequence other
      (by simpa [internalSessionSequence] using h') long (by decide)
    rw [same] at clash
    exact absurd clash (by decide)
  rw [isAuthoritativeKey, notElection, notSequence, Bool.not_false, Bool.and_true, Bool.and_true]

theorem counted_live (i : InstanceId) : (live i).counted = true :=
  isAuthoritativeKey_append "live/" (encodeSegment i.asStr) (by decide)
    (by decide) (by decide) none

theorem counted_session (i : InstanceId) (ticket : SessionId) :
    (session i ticket).counted = true := by
  change isAuthoritativeKey ("sessions/" ++ encodeSegment i.asStr ++ "/" ++ sessionText ticket)
    none = true
  simp only [String.append_assoc]
  exact isAuthoritativeKey_append "sessions/" _ (by decide) (by decide)
    (by decide) none

theorem counted_currentState (i : InstanceId) (ticket : SessionId) (r : ResourceId)
    (p : PartitionId) : (currentState i ticket r p).counted = true := by
  change isAuthoritativeKey ("current-state/" ++ encodeSegment i.asStr ++ "/" ++
    sessionText ticket ++ "/" ++ encodeSegment r.asStr ++ "/" ++ encodeSegment p.asStr) none = true
  simp only [String.append_assoc]
  exact isAuthoritativeKey_append "current-state/" _ (by decide) (by decide)
    (by decide) none

theorem counted_active : active.counted = false := by decide

theorem counted_sequence : sequence.counted = false := by decide

theorem counted_candidate (controller : String) : (candidate controller).counted = false := by
  have election : startsWith ("controller/election/candidates/" ++ encodeSegment controller)
      "controller/election/" = true := by
    rw [startsWith, List.isPrefixOf_iff_prefix, String.toList_append]
    exact List.IsPrefix.trans (by decide) (List.prefix_append _ _)
  change isAuthoritativeKey ("controller/election/candidates/" ++ encodeSegment controller) none =
    false
  rw [isAuthoritativeKey, election, Bool.not_true, Bool.and_false, Bool.false_and]

/-- The two classifications of metadata keys agree except on the marker itself. -/
theorem counted_metadata (key : String) : (metadata key).counted =
    (isAuthoritativeMetadataKey key || key == authoritativeInputMarker) := by
  have split : (metadata key).counted = (!startsWith key "controller/output/" &&
      !(startsWith key "participant/" && endsWith key "/processed-revision")) :=
    isAuthoritativeKey_append "metadata/" (encodeSegment key) (by decide)
      (by decide) (by decide) (some key)
  rw [split, isAuthoritativeMetadataKey]
  by_cases same : key = authoritativeInputMarker
  · rw [same]
    decide
  · rw [bne_iff_ne.mpr same, beq_eq_false_iff_ne.mpr same, Bool.true_and, Bool.or_false]

theorem counted_marker : marker.counted = true := by
  rw [marker, counted_metadata, beq_self_eq_true, Bool.or_true]

theorem counted_queue : queue.counted = false := by
  rw [queue, counted_metadata]
  decide

end Key

end Clustodian
