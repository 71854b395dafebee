import CachePolicies.Mockingjay.Run

/-! The eviction-table feedback of `mockingjay.cc`. With learning on, `getVictim` records the
victim's PC, tick and features in the slot of its PC; a later `touch` or `reset` whose PC finds
that entry valid calls `updateWeights` on it and clears it. A slot holds one eviction: a victim
whose PC shares the slot overwrites the one before, which then never trains the model.

Counting the valid entries gives the accounting. Over every run, the calls that train the model
plus the valid entries left are at most the valid entries at the start plus the `getVictim`
calls, so from the constructor each recorded eviction trains the weights at most once. -/

namespace CachePolicies.ReplacementPolicy

def validCount (table : Fin evictTableSize → EvictedEntry) : Nat :=
  ∑ slot, (table slot).valid.toNat

theorem validCount_update (table : Fin evictTableSize → EvictedEntry) (slot : Fin evictTableSize)
    (entry : EvictedEntry) :
    validCount (Function.update table slot entry) + (table slot).valid.toNat =
      validCount table + entry.valid.toNat := by
  unfold validCount
  rw [← Finset.add_sum_erase _ _ (Finset.mem_univ slot),
    ← Finset.add_sum_erase _ (fun i => (table i).valid.toNat) (Finset.mem_univ slot)]
  have rest : ∑ i ∈ Finset.univ.erase slot, (Function.update table slot entry i).valid.toNat =
      ∑ i ∈ Finset.univ.erase slot, (table i).valid.toNat :=
    Finset.sum_congr rfl fun i other => by rw [Function.update_noteq (Finset.ne_of_mem_erase other)]
  rw [rest, Function.update_same]
  omega

def PolicyCall.records : PolicyCall → Nat
  | .getVictim _ _ => 1
  | _ => 0

def PolicyCall.evictions : List PolicyCall → Nat
  | [] => 0
  | call :: rest => call.records + evictions rest

namespace Mockingjay

/-- `checkEvictedReuse` finds an eviction of `pc`: learning is on and the slot of `pc` holds a
valid entry for `pc`. -/
def findsEviction (m : Mockingjay) (pc : BitVec 64) : Bool :=
  m.enableOnlineLearning && (m.evictTable (evictIndex pc)).valid &&
    (m.evictTable (evictIndex pc)).pc == pc

/-- The call trains the model: it is a `touch` or `reset` with a PC on which `checkEvictedReuse`
calls `updateWeights`. -/
def trains (m : Mockingjay) : PolicyCall → Bool
  | .touch _ (some pc) _ | .reset _ (some pc) _ => m.findsEviction pc
  | _ => false

noncomputable def weightUpdates (m : Mockingjay) : List PolicyCall → Nat
  | [] => 0
  | call :: rest => (m.trains call).toNat + (m.apply call).weightUpdates rest

theorem checkEvictedReuse_of_not_findsEviction (m : Mockingjay) {pc : BitVec 64}
    (missed : m.findsEviction pc = false) (currentTick : BitVec 64) :
    m.checkEvictedReuse pc currentTick = m := by
  cases learning : m.enableOnlineLearning
  · simp only [checkEvictedReuse, learning, Bool.not_false, if_true]
  · have stale : ¬((m.evictTable (evictIndex pc)).valid = true ∧
        (m.evictTable (evictIndex pc)).pc = pc) := by
      simpa [findsEviction, learning] using missed
    simp only [checkEvictedReuse, learning, Bool.not_true, Bool.false_eq_true, if_false, stale]

theorem checkEvictedReuse_evictTable_of_findsEviction (m : Mockingjay) {pc : BitVec 64}
    (found : m.findsEviction pc = true) (currentTick : BitVec 64) :
    (m.checkEvictedReuse pc currentTick).evictTable =
      Function.update m.evictTable (evictIndex pc)
        { m.evictTable (evictIndex pc) with valid := false } := by
  simp only [findsEviction, Bool.and_eq_true, beq_iff_eq] at found
  obtain ⟨⟨learning, valid⟩, same⟩ := found
  simp only [checkEvictedReuse, learning, valid, same, Bool.not_true, Bool.false_eq_true, if_false,
    and_self, if_true, updateWeights_evictTable]

theorem validCount_checkEvictedReuse (m : Mockingjay) (pc currentTick : BitVec 64) :
    (m.findsEviction pc).toNat + validCount (m.checkEvictedReuse pc currentTick).evictTable =
      validCount m.evictTable := by
  cases found : m.findsEviction pc
  · rw [m.checkEvictedReuse_of_not_findsEviction found, Bool.toNat_false, zero_add]
  · have cleared := validCount_update m.evictTable (evictIndex pc)
      { m.evictTable (evictIndex pc) with valid := false }
    have valid : (m.evictTable (evictIndex pc)).valid = true := by
      simp only [findsEviction, Bool.and_eq_true] at found
      exact found.1.2
    rw [valid, Bool.toNat_true, Bool.toNat_false] at cleared
    rw [m.checkEvictedReuse_evictTable_of_findsEviction found, Bool.toNat_true]
    omega

theorem validCount_trackEviction (m : Mockingjay) (pc evictTick : BitVec 64)
    (features : Fin 4 → ℝ) :
    validCount (m.trackEviction pc evictTick features).evictTable ≤
      validCount m.evictTable + 1 := by
  unfold trackEviction
  split_ifs
  · omega
  · have written := validCount_update m.evictTable (evictIndex pc)
      { pc := pc, evictTick := evictTick, features := features, valid := true }
    rw [Bool.toNat_true] at written
    dsimp only
    omega

theorem apply_validCount (m : Mockingjay) (call : PolicyCall) :
    (m.trains call).toNat + validCount (m.apply call).evictTable ≤
      validCount m.evictTable + call.records := by
  cases call with
  | touch data pc currentTick | reset data pc currentTick =>
    simp only [apply, touch_fst, reset_fst]
    cases pc with
    | none => simp only [trains, PolicyCall.records, Bool.toNat_false]; omega
    | some pc =>
      have cleared := validCount_checkEvictedReuse
        { m with globalAccessCounter := m.globalAccessCounter + 1 } pc currentTick
      dsimp only [trains, PolicyCall.records, findsEviction] at cleared ⊢
      omega
  | getVictim candidates currentTick =>
    rw [apply]
    rcases getVictim_policy m candidates currentTick with same | ⟨pc, features, tracked⟩
    · simp only [same, trains, Bool.toNat_false, PolicyCall.records]
      omega
    · simp only [tracked, trains, Bool.toNat_false, PolicyCall.records]
      have written := validCount_trackEviction m pc currentTick features
      omega

theorem run_validCount (m : Mockingjay) (calls : List PolicyCall) :
    m.weightUpdates calls + validCount (m.run calls).evictTable ≤
      validCount m.evictTable + PolicyCall.evictions calls := by
  induction calls generalizing m with
  | nil => simp only [weightUpdates, run_nil, PolicyCall.evictions]; omega
  | cons call rest ih =>
    have step := apply_validCount m call
    have later := ih (m.apply call)
    rw [weightUpdates, run_cons, PolicyCall.evictions]
    omega

/-- The entry records a victim of a `getVictim` call among `calls`: a candidate with the entry's
PC, evicted at the entry's tick, whose features are the entry's. -/
def RecordsVictim (calls : List PolicyCall) (entry : EvictedEntry) : Prop :=
  ∃ candidates, PolicyCall.getVictim candidates entry.evictTick ∈ calls ∧
    ∃ data ∈ candidates, data.pc = entry.pc ∧ features data entry.evictTick = entry.features

def ValidRecorded (calls : List PolicyCall) (table : Fin evictTableSize → EvictedEntry) : Prop :=
  ∀ slot, (table slot).valid = true → RecordsVictim calls (table slot)

theorem ValidRecorded.append {calls : List PolicyCall} {table : Fin evictTableSize → EvictedEntry}
    (recorded : ValidRecorded calls table) (more : List PolicyCall) :
    ValidRecorded (calls ++ more) table := fun slot valid =>
  let ⟨candidates, called, victim⟩ := recorded slot valid
  ⟨candidates, List.mem_append_left more called, victim⟩

theorem ValidRecorded.update {calls : List PolicyCall} {table : Fin evictTableSize → EvictedEntry}
    (recorded : ValidRecorded calls table) {slot : Fin evictTableSize} {entry : EvictedEntry}
    (written : entry.valid = true → RecordsVictim calls entry) :
    ValidRecorded calls (Function.update table slot entry) := by
  intro other valid
  by_cases same : other = slot
  · subst same
    rw [Function.update_same] at valid ⊢
    exact written valid
  · rw [Function.update_noteq same] at valid ⊢
    exact recorded other valid

theorem checkEvictedReuse_recorded (m : Mockingjay) {calls : List PolicyCall}
    (recorded : ValidRecorded calls m.evictTable) (pc currentTick : BitVec 64) :
    ValidRecorded calls (m.checkEvictedReuse pc currentTick).evictTable := by
  rcases m.checkEvictedReuse_evictTable pc currentTick with same | cleared
  · rwa [same]
  · rw [cleared]
    exact recorded.update fun valid => absurd valid Bool.false_ne_true

theorem getVictim_recorded (m : Mockingjay) {calls : List PolicyCall}
    (recorded : ValidRecorded calls m.evictTable) (candidates : List MockingjayReplData)
    (currentTick : BitVec 64) :
    ValidRecorded (calls ++ [.getVictim candidates currentTick])
      (m.apply (.getVictim candidates currentTick)).evictTable := by
  by_cases empty : candidates = []
  · subst empty
    exact recorded.append _
  obtain ⟨victim, chosen, present, result, -⟩ := getVictim_spec m candidates currentTick empty
  rw [apply, result]
  dsimp only [Option.map_some', Option.getD_some]
  split_ifs
  · unfold trackEviction
    split_ifs
    · exact recorded.append _
    · exact (recorded.append _).update fun _ => ⟨candidates,
        List.mem_append_right _ (List.mem_singleton_self _), chosen, List.getElem?_mem present, rfl,
        rfl⟩
  · exact recorded.append _

theorem apply_recorded (m : Mockingjay) {calls : List PolicyCall}
    (recorded : ValidRecorded calls m.evictTable) (call : PolicyCall) :
    ValidRecorded (calls ++ [call]) (m.apply call).evictTable := by
  cases call with
  | touch data pc currentTick | reset data pc currentTick =>
    simp only [apply, touch_fst, reset_fst]
    cases pc with
    | none => exact recorded.append _
    | some pc =>
      exact checkEvictedReuse_recorded { m with globalAccessCounter := m.globalAccessCounter + 1 }
        (recorded.append _) pc currentTick
  | getVictim candidates currentTick => exact getVictim_recorded m recorded candidates currentTick

theorem run_recorded (m : Mockingjay) {seen : List PolicyCall}
    (recorded : ValidRecorded seen m.evictTable) (calls : List PolicyCall) :
    ValidRecorded (seen ++ calls) (m.run calls).evictTable := by
  induction calls generalizing m seen with
  | nil => simpa only [List.append_nil, run_nil] using recorded
  | cons call rest ih =>
    rw [run_cons, ← List.singleton_append, ← List.append_assoc]
    exact ih _ (apply_recorded m recorded call)

theorem new_evictTable (learning_rate : ℝ) (enable_online_learning : Bool) (weights_file : String)
    (file : Option Text) :
    (new learning_rate enable_online_learning weights_file file).evictTable = fun _ => {} := by
  unfold new
  split_ifs
  · rfl
  · exact (loadWeights_frame weights_file file).1

end Mockingjay

end CachePolicies.ReplacementPolicy
