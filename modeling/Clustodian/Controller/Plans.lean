import Clustodian.Controller.Visibility

namespace Clustodian

theorem stripPrefix_eq_some {text lead rest : String} :
    stripPrefix text lead = some rest ↔ text = lead ++ rest := by
  unfold stripPrefix
  constructor
  · intro h
    split at h <;> rename_i leads
    · cases h
      rw [List.isPrefixOf_iff_prefix] at leads
      rw [← String.toList_inj, String.toList_append, String.toList_ofList]
      exact (List.prefix_iff_eq_append.mp leads).symm
    · cases h
  · rintro rfl
    rw [if_pos]
    · simp [String.toList_append]
    · rw [List.isPrefixOf_iff_prefix, String.toList_append]
      exact List.prefix_append _ _

theorem append_left_injective {lead a b : String} (h : lead ++ a = lead ++ b) : a = b := by
  rw [← String.toList_inj, String.toList_append, String.toList_append] at h
  exact String.toList_inj.mp (List.append_cancel_left h)

@[simp] theorem orMessage_eq_ok {ε α : Type} {text : ε → String} {x : Except ε α} {a : α} :
    orMessage text x = .ok a ↔ x = .ok a := by
  cases x <;> simp [orMessage]

theorem resourcePlan_resource {crush : Crush} {configs : BTreeMap InstanceId String}
    {live : BTreeSet InstanceId} {name : String} {entry : MetadataEntry} {plan : ResourcePlan}
    (h : resourcePlan crush configs live name entry = .ok plan) : plan.resource.asStr = name := by
  unfold resourcePlan at h
  obtain ⟨record, -, h⟩ := CheckedLoop.bind_eq_ok.mp h
  split at h <;> rename_i differs
  · cases h
  rw [ne_eq, not_not] at differs
  split at h
  · cases h
  obtain ⟨resource, hresource, h⟩ := CheckedLoop.bind_eq_ok.mp h
  obtain ⟨_, -, h⟩ := CheckedLoop.bind_eq_ok.mp h
  obtain ⟨_, -, h⟩ := CheckedLoop.bind_eq_ok.mp h
  cases h
  rw [orMessage_eq_ok, Name.new_eq_ok] at hresource
  rw [← hresource, differs]

/-- Plans are in one-to-one correspondence with the resource records of the snapshot. -/
theorem resourcePlans_spec {crush : Crush} {snapshot : CoordinationSnapshot}
    {configs : BTreeMap InstanceId String} {live : BTreeSet InstanceId} {plans : List ResourcePlan}
    (h : resourcePlans crush snapshot configs live = .ok plans) :
    (plans.map (·.resource)).Nodup ∧
    (∀ plan ∈ plans, ∃ entry, snapshot.metadata[resourceKeyLead ++ plan.resource.asStr]? =
      some entry) ∧
    ∀ (name : String) (entry : MetadataEntry),
      snapshot.metadata[resourceKeyLead ++ name]? = some entry →
      ∃ plan ∈ plans, plan.resource.asStr = name := by
  obtain ⟨nodup, sound, complete⟩ := CheckedLoop.foldlM_inv (fun done (plans : List ResourcePlan) ↦
      (plans.map (·.resource)).Nodup ∧
      (∀ plan ∈ plans, ∃ entry, (resourceKeyLead ++ plan.resource.asStr, entry) ∈ done) ∧
      ∀ (name : String) (entry : MetadataEntry), (resourceKeyLead ++ name, entry) ∈ done →
        ∃ plan ∈ plans, plan.resource.asStr = name)
    snapshot.metadata.toList h (by simp) fun done item rest plans plans' split inv step ↦ by
      obtain ⟨key, entry⟩ := item
      obtain ⟨nodup, sound, complete⟩ := inv
      obtain ⟨-, unseen⟩ := OrderedMap.visited split
      simp only at step
      cases strip : stripPrefix key resourceKeyLead with
      | none =>
        rw [strip] at step
        cases step
        refine ⟨nodup, fun plan hp ↦ ?_, fun name e he ↦ ?_⟩
        · obtain ⟨e, he⟩ := sound plan hp
          exact ⟨e, List.mem_append_left _ he⟩
        · rcases List.mem_append.mp he with he | he
          · exact complete name e he
          · rw [List.mem_singleton, Prod.mk.injEq] at he
            rw [stripPrefix_eq_some.mpr he.1.symm] at strip
            cases strip
      | some name =>
        rw [strip] at step
        obtain ⟨plan, hplan, step⟩ := CheckedLoop.bind_eq_ok.mp step
        cases step
        obtain rfl := stripPrefix_eq_some.mp strip
        have resource := resourcePlan_resource hplan
        refine ⟨?_, fun other ho ↦ ?_, fun other e he ↦ ?_⟩
        · rw [List.map_append, List.map_singleton, List.nodup_append]
          refine ⟨nodup, List.nodup_singleton _, fun a ha b hb same ↦ ?_⟩
          obtain ⟨old, hold, rfl⟩ := List.mem_map.mp ha
          obtain ⟨e, he⟩ := sound old hold
          rw [List.mem_singleton.mp hb] at same
          rw [same, resource] at he
          exact unseen (List.mem_map_of_mem he)
        · rcases List.mem_append.mp ho with ho | ho
          · obtain ⟨e, he⟩ := sound other ho
            exact ⟨e, List.mem_append_left _ he⟩
          · rw [List.mem_singleton.mp ho, resource]
            exact ⟨entry, by simp⟩
        · rcases List.mem_append.mp he with he | he
          · obtain ⟨old, hold, hname⟩ := complete other e he
            exact ⟨old, List.mem_append_left _ hold, hname⟩
          · rw [List.mem_singleton, Prod.mk.injEq] at he
            exact ⟨plan, by simp, by rw [resource, append_left_injective he.1]⟩
  refine ⟨nodup, fun plan hp ↦ ?_, fun name entry found ↦ ?_⟩
  · obtain ⟨entry, he⟩ := sound plan hp
    exact ⟨entry, (OrderedMap.mem_toList _ _ _).mp he⟩
  · exact complete name entry ((OrderedMap.mem_toList _ _ _).mpr found)

theorem findPlan_eq_some {plans : List ResourcePlan} (nodup : (plans.map (·.resource)).Nodup)
    {resource : String} {plan : ResourcePlan} :
    findPlan plans resource = some plan ↔ plan ∈ plans ∧ plan.resource.asStr = resource := by
  unfold findPlan
  constructor
  · intro h
    exact ⟨List.mem_of_find?_eq_some h, by simpa using List.find?_some h⟩
  · rintro ⟨mem, same⟩
    cases found : plans.find? (·.resource.asStr = resource) with
    | none =>
      rw [List.find?_eq_none] at found
      exact absurd same (by simpa using found plan mem)
    | some other =>
      have hother : other.resource.asStr = resource := by simpa using List.find?_some found
      have eq : other.resource = plan.resource := Name.asStr_injective (hother.trans same.symm)
      exact congrArg some (List.inj_on_of_nodup_map nodup (List.mem_of_find?_eq_some found) mem eq)

end Clustodian
