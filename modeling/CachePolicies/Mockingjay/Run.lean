import CachePolicies.Mockingjay.Weights

/-! The members of `Mockingjay` over a run of the calls a cache makes. `invalidate` and the
`const` overloads of `touch` and `reset` write only the line's replacement data, so a run is a
list of the calls that can change the policy: `touch` and `reset` with a packet, and `getVictim`.

Every call does one of two things: it advances `globalAccessCounter` and then checks the PC, if
any, against the eviction table; or it records a victim in the table. From that, over every run:
the table keeps each valid entry in the slot of its PC, the counter counts the `touch` and
`reset` calls modulo `2^64`, the learning rate and switch never change, and with learning off
nothing but the counter does. -/

namespace CachePolicies.ReplacementPolicy

/-- A call that can change the policy, with the replacement data the cache passes. -/
inductive PolicyCall
  | touch (data : MockingjayReplData) (pc : Option (BitVec 64)) (currentTick : BitVec 64)
  | reset (data : MockingjayReplData) (pc : Option (BitVec 64)) (currentTick : BitVec 64)
  | getVictim (candidates : List MockingjayReplData) (currentTick : BitVec 64)

def PolicyCall.advance : PolicyCall → Nat
  | .getVictim _ _ => 0
  | _ => 1

def PolicyCall.accesses : List PolicyCall → Nat
  | [] => 0
  | call :: rest => call.advance + accesses rest

def TableConsistent (table : Fin evictTableSize → EvictedEntry) : Prop :=
  ∀ slot, (table slot).valid = true → evictIndex (table slot).pc = slot

theorem TableConsistent.update {table : Fin evictTableSize → EvictedEntry}
    (consistent : TableConsistent table) {slot : Fin evictTableSize} {entry : EvictedEntry}
    (placed : entry.valid = true → evictIndex entry.pc = slot) :
    TableConsistent (Function.update table slot entry) := by
  intro other valid
  by_cases same : other = slot
  · subst same
    rw [Function.update_same] at valid ⊢
    exact placed valid
  · rw [Function.update_noteq same] at valid ⊢
    exact consistent other valid

namespace Mockingjay

noncomputable def apply (m : Mockingjay) : PolicyCall → Mockingjay
  | .touch data pc currentTick => (m.touch data pc currentTick).1
  | .reset data pc currentTick => (m.reset data pc currentTick).1
  | .getVictim candidates currentTick =>
    ((m.getVictim candidates currentTick).map fun result => result.2.1).getD m

noncomputable def run (m : Mockingjay) : List PolicyCall → Mockingjay
  | [] => m
  | call :: rest => (m.apply call).run rest

section Helpers

variable (m : Mockingjay)

@[simp] theorem updateWeights_evictTable (entry : EvictedEntry) (target : ℝ) :
    (m.updateWeights entry target).evictTable = m.evictTable := by
  unfold updateWeights; split_ifs <;> rfl

@[simp] theorem updateWeights_globalAccessCounter (entry : EvictedEntry) (target : ℝ) :
    (m.updateWeights entry target).globalAccessCounter = m.globalAccessCounter := by
  unfold updateWeights; split_ifs <;> rfl

@[simp] theorem updateWeights_learningRate (entry : EvictedEntry) (target : ℝ) :
    (m.updateWeights entry target).learningRate = m.learningRate := by
  unfold updateWeights; split_ifs <;> rfl

@[simp] theorem updateWeights_enableOnlineLearning (entry : EvictedEntry) (target : ℝ) :
    (m.updateWeights entry target).enableOnlineLearning = m.enableOnlineLearning := by
  unfold updateWeights; split_ifs <;> rfl

theorem checkEvictedReuse_evictTable (pc currentTick : BitVec 64) :
    (m.checkEvictedReuse pc currentTick).evictTable = m.evictTable ∨
      (m.checkEvictedReuse pc currentTick).evictTable = Function.update m.evictTable (evictIndex pc)
        { m.evictTable (evictIndex pc) with valid := false } := by
  simp only [checkEvictedReuse]
  split_ifs
  · exact .inl rfl
  · exact .inr (by simp only [updateWeights_evictTable])
  · exact .inl rfl

@[simp] theorem checkEvictedReuse_globalAccessCounter (pc currentTick : BitVec 64) :
    (m.checkEvictedReuse pc currentTick).globalAccessCounter = m.globalAccessCounter := by
  simp only [checkEvictedReuse]; split_ifs <;> simp only [updateWeights_globalAccessCounter]

@[simp] theorem checkEvictedReuse_learningRate (pc currentTick : BitVec 64) :
    (m.checkEvictedReuse pc currentTick).learningRate = m.learningRate := by
  simp only [checkEvictedReuse]; split_ifs <;> simp only [updateWeights_learningRate]

@[simp] theorem checkEvictedReuse_enableOnlineLearning (pc currentTick : BitVec 64) :
    (m.checkEvictedReuse pc currentTick).enableOnlineLearning = m.enableOnlineLearning := by
  simp only [checkEvictedReuse]; split_ifs <;> simp only [updateWeights_enableOnlineLearning]

theorem checkEvictedReuse_of_off (off : m.enableOnlineLearning = false) (pc currentTick : BitVec 64) :
    m.checkEvictedReuse pc currentTick = m := by
  simp only [checkEvictedReuse, off, Bool.not_false, if_true]

@[simp] theorem trackEviction_globalAccessCounter (pc evictTick : BitVec 64) (features : Fin 4 → ℝ) :
    (m.trackEviction pc evictTick features).globalAccessCounter = m.globalAccessCounter := by
  unfold trackEviction; split_ifs <;> rfl

@[simp] theorem trackEviction_learningRate (pc evictTick : BitVec 64) (features : Fin 4 → ℝ) :
    (m.trackEviction pc evictTick features).learningRate = m.learningRate := by
  unfold trackEviction; split_ifs <;> rfl

@[simp] theorem trackEviction_enableOnlineLearning (pc evictTick : BitVec 64)
    (features : Fin 4 → ℝ) :
    (m.trackEviction pc evictTick features).enableOnlineLearning = m.enableOnlineLearning := by
  unfold trackEviction; split_ifs <;> rfl

theorem trackEviction_of_off (off : m.enableOnlineLearning = false) (pc evictTick : BitVec 64)
    (features : Fin 4 → ℝ) : m.trackEviction pc evictTick features = m := by
  simp only [trackEviction, off, Bool.not_false, if_true]

theorem checkEvictedReuse_consistent (consistent : TableConsistent m.evictTable)
    (pc currentTick : BitVec 64) : TableConsistent (m.checkEvictedReuse pc currentTick).evictTable := by
  rcases m.checkEvictedReuse_evictTable pc currentTick with same | cleared
  · rwa [same]
  · rw [cleared]
    exact consistent.update fun valid => absurd valid Bool.false_ne_true

theorem trackEviction_consistent (consistent : TableConsistent m.evictTable)
    (pc evictTick : BitVec 64) (features : Fin 4 → ℝ) :
    TableConsistent (m.trackEviction pc evictTick features).evictTable := by
  unfold trackEviction
  split_ifs
  · exact consistent
  · exact consistent.update fun _ => rfl

end Helpers

theorem touch_fst (m : Mockingjay) (data : MockingjayReplData) (pc : Option (BitVec 64))
    (currentTick : BitVec 64) :
    (m.touch data pc currentTick).1 =
      match pc with
      | some pc => { m with globalAccessCounter := m.globalAccessCounter + 1 }.checkEvictedReuse pc
          currentTick
      | none => { m with globalAccessCounter := m.globalAccessCounter + 1 } := by
  cases pc <;> rfl

theorem reset_fst (m : Mockingjay) (data : MockingjayReplData) (pc : Option (BitVec 64))
    (currentTick : BitVec 64) :
    (m.reset data pc currentTick).1 =
      match pc with
      | some pc => { m with globalAccessCounter := m.globalAccessCounter + 1 }.checkEvictedReuse pc
          currentTick
      | none => { m with globalAccessCounter := m.globalAccessCounter + 1 } := by
  cases pc <;> rfl

theorem getVictim_policy (m : Mockingjay) (candidates : List MockingjayReplData)
    (currentTick : BitVec 64) :
    ((m.getVictim candidates currentTick).map fun result => result.2.1).getD m = m ∨
      ∃ pc features, ((m.getVictim candidates currentTick).map fun result => result.2.1).getD m =
        m.trackEviction pc currentTick features := by
  by_cases empty : candidates = []
  · exact .inl (by rw [empty]; rfl)
  obtain ⟨_, chosen, -, result, -⟩ := getVictim_spec m candidates currentTick empty
  rw [result]
  split_ifs
  · exact .inr ⟨chosen.pc, features chosen currentTick, rfl⟩
  · exact .inl rfl

theorem apply_cases (m : Mockingjay) (call : PolicyCall) :
    (call.advance = 1 ∧
      (m.apply call = { m with globalAccessCounter := m.globalAccessCounter + 1 } ∨
        ∃ pc currentTick, m.apply call =
          { m with globalAccessCounter := m.globalAccessCounter + 1 }.checkEvictedReuse pc
            currentTick)) ∨
    (call.advance = 0 ∧
      (m.apply call = m ∨ ∃ pc currentTick features,
        m.apply call = m.trackEviction pc currentTick features)) := by
  cases call with
  | touch data pc currentTick =>
    refine .inl ⟨rfl, ?_⟩
    rw [apply, touch_fst]
    cases pc with
    | none => exact .inl rfl
    | some pc => exact .inr ⟨pc, currentTick, rfl⟩
  | reset data pc currentTick =>
    refine .inl ⟨rfl, ?_⟩
    rw [apply, reset_fst]
    cases pc with
    | none => exact .inl rfl
    | some pc => exact .inr ⟨pc, currentTick, rfl⟩
  | getVictim candidates currentTick =>
    refine .inr ⟨rfl, ?_⟩
    rcases getVictim_policy m candidates currentTick with same | ⟨pc, features, tracked⟩
    · exact .inl same
    · exact .inr ⟨pc, currentTick, features, tracked⟩

@[simp] theorem run_nil (m : Mockingjay) : m.run [] = m := rfl

@[simp] theorem run_cons (m : Mockingjay) (call : PolicyCall) (rest : List PolicyCall) :
    m.run (call :: rest) = (m.apply call).run rest := rfl

theorem apply_consistent (m : Mockingjay) (call : PolicyCall)
    (consistent : TableConsistent m.evictTable) : TableConsistent (m.apply call).evictTable := by
  rcases apply_cases m call with ⟨-, same | ⟨pc, currentTick, checked⟩⟩ |
    ⟨-, same | ⟨pc, currentTick, features, tracked⟩⟩
  · rwa [same]
  · rw [checked]
    exact checkEvictedReuse_consistent { m with globalAccessCounter := m.globalAccessCounter + 1 }
      consistent pc currentTick
  · rwa [same]
  · rw [tracked]
    exact trackEviction_consistent m consistent pc currentTick features

theorem apply_globalAccessCounter (m : Mockingjay) (call : PolicyCall) :
    (m.apply call).globalAccessCounter =
      m.globalAccessCounter + BitVec.ofNat 64 call.advance := by
  rcases apply_cases m call with ⟨counted, same | ⟨pc, currentTick, checked⟩⟩ |
    ⟨counted, same | ⟨pc, currentTick, features, tracked⟩⟩
  · rw [same, counted]; rfl
  · rw [checked, checkEvictedReuse_globalAccessCounter, counted]; rfl
  · rw [same, counted, BitVec.add_zero]
  · rw [tracked, trackEviction_globalAccessCounter, counted, BitVec.add_zero]

theorem apply_learning (m : Mockingjay) (call : PolicyCall) :
    (m.apply call).learningRate = m.learningRate ∧
      (m.apply call).enableOnlineLearning = m.enableOnlineLearning := by
  rcases apply_cases m call with ⟨-, same | ⟨pc, currentTick, checked⟩⟩ |
    ⟨-, same | ⟨pc, currentTick, features, tracked⟩⟩
  · rw [same]; exact ⟨rfl, rfl⟩
  · rw [checked, checkEvictedReuse_learningRate, checkEvictedReuse_enableOnlineLearning]
    exact ⟨rfl, rfl⟩
  · rw [same]; exact ⟨rfl, rfl⟩
  · rw [tracked, trackEviction_learningRate, trackEviction_enableOnlineLearning]
    exact ⟨rfl, rfl⟩

theorem apply_of_off (m : Mockingjay) (call : PolicyCall) (off : m.enableOnlineLearning = false) :
    m.apply call = { m with globalAccessCounter :=
      m.globalAccessCounter + BitVec.ofNat 64 call.advance } := by
  rcases apply_cases m call with ⟨counted, same | ⟨pc, currentTick, checked⟩⟩ |
    ⟨counted, same | ⟨pc, currentTick, features, tracked⟩⟩
  · rw [same, counted]; rfl
  · rw [checked, checkEvictedReuse_of_off { m with globalAccessCounter := m.globalAccessCounter + 1 }
      off, counted]
    rfl
  · rw [same, counted, BitVec.add_zero]
  · rw [tracked, trackEviction_of_off m off, counted, BitVec.add_zero]

theorem run_consistent (m : Mockingjay) (calls : List PolicyCall)
    (consistent : TableConsistent m.evictTable) : TableConsistent (m.run calls).evictTable := by
  induction calls generalizing m with
  | nil => exact consistent
  | cons call rest ih => exact ih _ (apply_consistent m call consistent)

theorem run_globalAccessCounter (m : Mockingjay) (calls : List PolicyCall) :
    (m.run calls).globalAccessCounter =
      m.globalAccessCounter + BitVec.ofNat 64 (PolicyCall.accesses calls) := by
  induction calls generalizing m with
  | nil => simp only [run_nil, PolicyCall.accesses, BitVec.add_zero]
  | cons call rest ih =>
    rw [run_cons, ih, apply_globalAccessCounter, PolicyCall.accesses, BitVec.ofNat_add,
      BitVec.add_assoc]

theorem run_learning (m : Mockingjay) (calls : List PolicyCall) :
    (m.run calls).learningRate = m.learningRate ∧
      (m.run calls).enableOnlineLearning = m.enableOnlineLearning := by
  induction calls generalizing m with
  | nil => exact ⟨rfl, rfl⟩
  | cons call rest ih =>
    obtain ⟨rate, switch⟩ := apply_learning m call
    rw [run_cons, (ih _).1, (ih _).2, rate, switch]
    exact ⟨rfl, rfl⟩

theorem run_of_off (m : Mockingjay) (calls : List PolicyCall) (off : m.enableOnlineLearning = false) :
    m.run calls =
      { m with globalAccessCounter := m.globalAccessCounter + BitVec.ofNat 64 (PolicyCall.accesses calls) } := by
  induction calls generalizing m with
  | nil => simp only [run_nil, PolicyCall.accesses, BitVec.add_zero]
  | cons call rest ih =>
    rw [run_cons, ih _ (by rw [apply_of_off m call off]; exact off), apply_of_off m call off,
      PolicyCall.accesses, BitVec.ofNat_add, BitVec.add_assoc]

theorem initial_consistent (learning_rate : ℝ) (enable_online_learning : Bool) :
    TableConsistent (initial learning_rate enable_online_learning).evictTable :=
  fun _ valid => absurd valid Bool.false_ne_true

/-- From the constructor, over every run: each valid eviction-table entry sits in the slot of
its PC, the counter is the number of `touch` and `reset` calls modulo `2^64`, the learning rate
and switch stay as the constructor left them, and with learning off nothing but the counter
changes. -/
theorem new_run (learning_rate : ℝ) (enable_online_learning : Bool) (weights_file : String)
    (file : Option Text) (calls : List PolicyCall) :
    let m := new learning_rate enable_online_learning weights_file file
    TableConsistent (m.run calls).evictTable ∧
      (m.run calls).globalAccessCounter = BitVec.ofNat 64 (PolicyCall.accesses calls) ∧
      (m.run calls).learningRate = m.learningRate ∧
      (m.run calls).enableOnlineLearning = m.enableOnlineLearning ∧
      (m.enableOnlineLearning = false →
        m.run calls = { m with globalAccessCounter := BitVec.ofNat 64 (PolicyCall.accesses calls) }) := by
  intro m
  have built : m.evictTable = (initial learning_rate enable_online_learning).evictTable ∧
      m.globalAccessCounter = 0 := by
    simp only [m, new]
    split_ifs
    · exact ⟨rfl, rfl⟩
    · exact loadWeights_frame weights_file file
  have consistent : TableConsistent m.evictTable := by
    rw [built.1]
    exact initial_consistent learning_rate enable_online_learning
  refine ⟨run_consistent m calls consistent, ?_, (run_learning m calls).1, (run_learning m calls).2,
    fun off => ?_⟩
  · rw [run_globalAccessCounter, built.2, zero_add]
  · rw [run_of_off m calls off, built.2, zero_add]

theorem new_run_without_learning :
    (new 0 false "" none).enableOnlineLearning = false ∧
      (new 0 false "" none).run [.touch {} none 0, .getVictim [{}] 0] =
        { new 0 false "" none with
          globalAccessCounter := BitVec.ofNat 64 (PolicyCall.accesses [.touch {} none 0, .getVictim [{}] 0]) } :=
  ⟨rfl, (new_run 0 false "" none [.touch {} none 0, .getVictim [{}] 0]).2.2.2.2 rfl⟩

end Mockingjay

end CachePolicies.ReplacementPolicy
