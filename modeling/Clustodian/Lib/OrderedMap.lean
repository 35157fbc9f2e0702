import Mathlib

namespace OrderedMap

variable {K V : Type} [LinearOrder K]

instance transCmp : Std.TransCmp (compare : K → K → Ordering) := inferInstance

instance (priority := low) lawfulEqCmp : Std.LawfulEqCmp (compare : K → K → Ordering) :=
  inferInstance

/-- Lookups after the basic updates, with equality of keys in place of `compare`. -/
theorem getElem?_insert (map : Std.ExtTreeMap K V compare) (key other : K) (value : V) :
    (map.insert key value)[other]? = if other = key then some value else map[other]? := by
  rw [Std.ExtTreeMap.getElem?_insert]
  simp only [compare_eq_iff_eq, eq_comm (a := key)]

theorem getElem?_erase (map : Std.ExtTreeMap K V compare) (key other : K) :
    (map.erase key)[other]? = if other = key then none else map[other]? := by
  rw [Std.ExtTreeMap.getElem?_erase]
  simp only [compare_eq_iff_eq, eq_comm (a := key)]

theorem getElem?_filter (map : Std.ExtTreeMap K V compare) (keep : K → V → Bool) (key : K) :
    (map.filter keep)[key]? = (map[key]?).filter (keep key) := by
  simp only [Std.ExtTreeMap.getElem?_filter, Std.ExtTreeMap.getKey_eq]
  exact Option.pfilter_eq_filter

theorem mem_iff (map : Std.ExtTreeMap K V compare) (key : K) :
    key ∈ map ↔ ∃ value, map[key]? = some value := by
  rw [Std.ExtTreeMap.mem_iff_isSome_getElem?, Option.isSome_iff_exists]

theorem not_mem_iff (map : Std.ExtTreeMap K V compare) (key : K) :
    key ∉ map ↔ map[key]? = none := by
  rw [Std.ExtTreeMap.mem_iff_isSome_getElem?, Option.not_isSome_iff_eq_none]

theorem mem_toList (map : Std.ExtTreeMap K V compare) (key : K) (value : V) :
    (key, value) ∈ map.toList ↔ map[key]? = some value :=
  Std.ExtTreeMap.mem_toList_iff_getElem?_eq_some

@[simp] theorem toList_empty : (∅ : Std.ExtTreeMap K V compare).toList = [] :=
  List.eq_nil_iff_forall_not_mem.mpr fun (key, value) h ↦ by simp at h

theorem keys_nodup (map : Std.ExtTreeMap K V compare) : (map.toList.map Prod.fst).Nodup := by
  have ordered := map.ordered_keys_toList
  rw [List.Nodup, List.pairwise_map]
  refine ordered.imp fun {a b} h eq ↦ ?_
  rw [compare_eq_iff_eq.mpr eq] at h
  cases h

theorem mem_keys (map : Std.ExtTreeMap K V compare) (key : K) :
    key ∈ map.toList.map Prod.fst ↔ (map[key]?).isSome := by
  simp only [List.mem_map, Prod.exists, exists_and_right, exists_eq_right, mem_toList,
    Option.isSome_iff_exists]

/-- An iteration in key order meets every key once. -/
theorem visited {map : Std.ExtTreeMap K V compare} {done rest : List (K × V)} {key : K} {value : V}
    (split : map.toList = done ++ (key, value) :: rest) :
    map[key]? = some value ∧ key ∉ done.map Prod.fst := by
  refine ⟨(mem_toList _ _ _).mp (by rw [split]; simp), fun h ↦ ?_⟩
  have nodup := keys_nodup map
  rw [split, List.map_append, List.nodup_append] at nodup
  exact nodup.2.2 _ h key (by simp) rfl

/-- The first entry of an ordered iteration. -/
theorem head?_toList {map : Std.ExtTreeMap K V compare} {key : K}
    {value : V} (h : map.toList.head? = some (key, value)) :
    map[key]? = some value ∧ ∀ (other : K) (v : V), map[other]? = some v → other ≠ key →
      key < other := by
  obtain ⟨rest, list⟩ : ∃ rest, map.toList = (key, value) :: rest := by
    cases list : map.toList with
    | nil =>
      rw [list] at h
      cases h
    | cons first rest =>
      rw [list] at h
      cases h
      exact ⟨rest, rfl⟩
  refine ⟨(mem_toList _ _ _).mp (by rw [list]; exact List.mem_cons_self), ?_⟩
  intro other v found differ
  have mem := (mem_toList _ _ _).mpr found
  have ordered := map.ordered_keys_toList
  rw [list] at mem ordered
  rcases List.mem_cons.mp mem with same | later
  · cases same
    exact absurd rfl differ
  · exact compare_lt_iff_lt.mp ((List.pairwise_cons.mp ordered).1 _ later)

theorem eq_empty_of_head? {map : Std.ExtTreeMap K V compare} (h : map.toList.head? = none) :
    map = ∅ := by
  rw [List.head?_eq_none_iff] at h
  refine Std.ExtTreeMap.eq_empty_iff_forall_not_mem.mpr fun key mem ↦ ?_
  obtain ⟨value, found⟩ := (mem_iff _ _).mp mem
  have listed := (mem_toList _ _ _).mpr found
  rw [h] at listed
  cases listed

theorem ext {left right : Std.ExtTreeMap K V compare}
    (same : ∀ key : K, left[key]? = right[key]?) : left = right :=
  Std.ExtTreeMap.ext_getElem? fun {key} ↦ same key

theorem mem_insert (set : Std.ExtTreeSet K compare) (key other : K) :
    other ∈ set.insert key ↔ other = key ∨ other ∈ set := by
  rw [Std.ExtTreeSet.mem_insert, compare_eq_iff_eq, eq_comm]

theorem mem_foldl_insert (keys : List K) (set : Std.ExtTreeSet K compare) (key : K) :
    key ∈ keys.foldl (fun set key ↦ set.insert key) set ↔ key ∈ keys ∨ key ∈ set := by
  induction keys generalizing set with
  | nil => simp
  | cons first keys ih =>
    rw [List.foldl_cons, ih, mem_insert, List.mem_cons]
    tauto

/-- A map that is filled from a list without repeated keys; a pass may leave its key out. -/
theorem getElem?_foldl_insert {α : Type} (key : α → K) (value : α → Option V) {items : List α}
    (nodup : (items.map key).Nodup) (start : Std.ExtTreeMap K V compare) (k : K) :
    (items.foldl (fun map item ↦ match value item with
      | some v => map.insert (key item) v
      | none => map) start)[k]? =
      ((items.find? fun item ↦ key item = k).bind value).or start[k]? := by
  induction items generalizing start with
  | nil => rfl
  | cons item items ih =>
    rw [List.map_cons, List.nodup_cons] at nodup
    rw [List.foldl_cons, ih nodup.2, List.find?_cons]
    have step : (match value item with
        | some v => start.insert (key item) v
        | none => start)[k]? = if k = key item then (value item).or start[k]? else start[k]? := by
      cases value item with
      | none => exact (ite_self _).symm
      | some v => exact getElem?_insert start (key item) k v
    rw [step]
    by_cases same : key item = k
    · have absent : (items.find? fun item ↦ key item = k) = none := by
        refine List.find?_eq_none.mpr fun other mem found ↦ nodup.1 ?_
        rw [same, ← of_decide_eq_true found]
        exact List.mem_map_of_mem mem
      rw [absent, if_pos same.symm, decide_eq_true same]
      rfl
    · rw [if_neg (Ne.symm same), decide_eq_false same]

theorem getElem?_foldl_insert_some {α : Type} (key : α → K) (value : α → V) {items : List α}
    (nodup : (items.map key).Nodup) (start : Std.ExtTreeMap K V compare) (k : K) :
    (items.foldl (fun map item ↦ map.insert (key item) (value item)) start)[k]? =
      ((items.find? fun item ↦ key item = k).map value).or start[k]? := by
  have found := getElem?_foldl_insert key (fun item ↦ some (value item)) nodup start k
  rw [Option.map_eq_bind]
  exact found

/-- Bucket items by key, keeping their order: `entry(key).or_default().push(item)`. -/
def groupBy (key : V → K) (items : List V) : Std.ExtTreeMap K (List V) compare :=
  items.foldl (fun groups item ↦ groups.insert (key item) ((groups[key item]?).getD [] ++ [item])) ∅

theorem getElem?_groupBy (key : V → K) (items : List V) (k : K) :
    ((groupBy key items)[k]?).getD [] = items.filter (fun item ↦ key item = k) := by
  suffices general : ∀ (rest : List V) (groups : Std.ExtTreeMap K (List V) compare),
      ((rest.foldl (fun groups item ↦
        groups.insert (key item) ((groups[key item]?).getD [] ++ [item])) groups)[k]?).getD [] =
      (groups[k]?).getD [] ++ rest.filter (fun item ↦ key item = k) by
    simpa [groupBy] using general items ∅
  intro rest
  induction rest with
  | nil => simp
  | cons item rest ih =>
    intro groups
    rw [List.foldl_cons, ih, getElem?_insert, List.filter_cons]
    by_cases h : k = key item
    · simp [h]
    · simp [h, Ne.symm h]

theorem groupBy_nonempty (key : V → K) (items : List V) (k : K) :
    (groupBy key items)[k]? ≠ some [] := by
  suffices general : ∀ (rest : List V) (groups : Std.ExtTreeMap K (List V) compare),
      groups[k]? ≠ some [] → (rest.foldl (fun groups item ↦
        groups.insert (key item) ((groups[key item]?).getD [] ++ [item])) groups)[k]? ≠ some [] from
    general items ∅ (by simp)
  intro rest
  induction rest with
  | nil => exact fun _ h ↦ h
  | cons item rest ih =>
    intro groups h
    refine ih _ ?_
    rw [getElem?_insert]
    split
    · simp
    · exact h

/-- Walking the buckets meets exactly the items. -/
theorem mem_groupBy (key : V → K) (items : List V) (item : V) :
    item ∈ (groupBy key items).toList.flatMap Prod.snd ↔ item ∈ items := by
  simp only [List.mem_flatMap, Prod.exists, mem_toList]
  constructor
  · rintro ⟨k, group, found, mem⟩
    have bucket := getElem?_groupBy key items k
    rw [found, Option.getD_some] at bucket
    rw [bucket] at mem
    exact (List.mem_filter.mp mem).1
  · intro mem
    have bucket := getElem?_groupBy key items (key item)
    have inBucket : item ∈ items.filter (fun other ↦ key other = key item) := by simpa using mem
    cases found : (groupBy key items)[key item]? with
    | none => simp [found, ← bucket] at inBucket
    | some group =>
      rw [found, Option.getD_some] at bucket
      exact ⟨key item, group, found, bucket ▸ inBucket⟩

end OrderedMap
