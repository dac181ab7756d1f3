import IndexFleet.SyncGroup

namespace IndexFleet

namespace SyncGroup

theorem outstanding_record (group : SyncGroup) (failure : Failure) :
    (group.record failure).1.outstanding = group.outstanding := by
  unfold record
  split <;> rfl

theorem failure_record (group : SyncGroup) (failure : Failure) :
    (group.record failure).1.failure = group.failure.or (some failure) := by
  unfold record
  cases hfailure : group.failure <;> simp [hfailure]

theorem outstanding_decrement (group : SyncGroup) :
    group.decrement.1.outstanding = group.outstanding - 1 := by
  unfold decrement
  split
  case isTrue hzero => simp [hzero]
  case isFalse => rfl

theorem failure_decrement (group : SyncGroup) : group.decrement.1.failure = group.failure := by
  unfold decrement
  split <;> rfl

theorem isDrained_iff {group : SyncGroup} : group.isDrained = true ↔ group.outstanding = 0 := by
  simp [isDrained]

theorem result_eq_ok {group after : SyncGroup} (hresult : group.result = (after, .ok ())) :
    group.failure = none ∧ after = group := by
  obtain ⟨outstanding, failure⟩ := group
  cases failure <;> simp_all [result, take]

theorem result_eq_error {group after : SyncGroup} {failure : Failure}
    (hresult : group.result = (after, .error failure)) :
    group.failure = some failure ∧ after = { group with failure := none } := by
  obtain ⟨outstanding, failure⟩ := group
  cases failure <;> simp_all [result, take]

theorem snd_result_eq_error {group : SyncGroup} {failure : Failure} :
    group.result.2 = .error failure ↔ group.failure = some failure := by
  obtain ⟨outstanding, slot⟩ := group
  cases slot <;> simp [result, take]

theorem outstanding_result (group : SyncGroup) :
    group.result.1.outstanding = group.outstanding := by
  obtain ⟨outstanding, failure⟩ := group
  cases failure <;> rfl

end SyncGroup

end IndexFleet
