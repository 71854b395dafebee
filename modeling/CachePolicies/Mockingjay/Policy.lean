import CachePolicies.Mockingjay.Json

/-! The replacement policy of `mockingjay.cc`. A line's eviction priority is a linear model
over four features of its replacement data, and `getVictim` evicts the candidate of highest
priority. With online learning on, `getVictim` records the victim's features in a 64-entry
table, and a later access by the same PC moves the weights by one gradient step.

Doubles are exact reals and `std::log` is `Real.log`. `curTick()` is an explicit argument.
Every candidate's priority is recomputed before the selection pass, so the value `invalidate`
stores never reaches it: an invalidated line is ranked by its recomputed priority, which is the
bias. -/

namespace CachePolicies.ReplacementPolicy

/-- `MockingjayReplData`, with the values of its constructor as defaults. -/
structure MockingjayReplData where
  pc : BitVec 64 := 0
  insertTick : BitVec 64 := 0
  lastTouchTick : BitVec 64 := 0
  accessCount : BitVec 32 := 0
  reuseDistance : BitVec 64 := 0
  lastAccessCounter : BitVec 64 := 0
  priority : ℝ := 0

/-- `EvictedEntry`. Its constructor leaves `features` unset; they are read only after
`trackEviction` has written them, and start at zero here. -/
structure EvictedEntry where
  pc : BitVec 64 := 0
  evictTick : BitVec 64 := 0
  features : Fin 4 → ℝ := fun _ => 0
  valid : Bool := false

def evictTableSize : Nat := 64

def evictIndex (pc : BitVec 64) : Fin evictTableSize :=
  ⟨pc.toNat / 64 % evictTableSize, Nat.mod_lt _ (by decide)⟩

/-- The members of `Mockingjay` that its methods read; `weightsFile` is only passed to
`loadWeights`. -/
structure Mockingjay where
  weightPcHash : ℝ
  weightAge : ℝ
  weightAccessCount : ℝ
  weightReuseDistance : ℝ
  bias : ℝ
  learningRate : ℝ
  enableOnlineLearning : Bool
  evictTable : Fin evictTableSize → EvictedEntry
  globalAccessCounter : BitVec 64

namespace Mockingjay

noncomputable def initial (learning_rate : ℝ) (enable_online_learning : Bool) : Mockingjay where
  weightPcHash := 0.25
  weightAge := 0.35
  weightAccessCount := -0.30
  weightReuseDistance := 0.40
  bias := 0
  learningRate := learning_rate
  enableOnlineLearning := enable_online_learning
  evictTable := fun _ => {}
  globalAccessCounter := 0

noncomputable def computePcHashFeature (pc : BitVec 64) : ℝ :=
  ((pc % 1024).toNat : ℝ) / 1024

noncomputable def computeAgeFeature (insertTick currentTick : BitVec 64) : ℝ :=
  if insertTick = 0 ∨ currentTick ≤ insertTick then 0 else
  let age := currentTick - insertTick
  min (Real.log (1 + (age.toNat : ℝ)) / Real.log (1 + 10 ^ 9)) 1

noncomputable def computeAccessCountFeature (count : BitVec 32) : ℝ :=
  Real.log (1 + (count.toNat : ℝ)) / Real.log 1001

noncomputable def computeReuseDistanceFeature (distance : BitVec 64) : ℝ :=
  Real.log (1 + (distance.toNat : ℝ)) / Real.log 10001

noncomputable def computePriority (m : Mockingjay) (data : MockingjayReplData)
    (currentTick : BitVec 64) : ℝ :=
  m.weightPcHash * computePcHashFeature data.pc +
    m.weightAge * computeAgeFeature data.insertTick currentTick +
    m.weightAccessCount * computeAccessCountFeature data.accessCount +
    m.weightReuseDistance * computeReuseDistanceFeature data.reuseDistance +
    m.bias

noncomputable def updateWeights (m : Mockingjay) (entry : EvictedEntry) (target : ℝ) :
    Mockingjay :=
  if !m.enableOnlineLearning then m else
  let prediction := m.weightPcHash * entry.features 0 + m.weightAge * entry.features 1 +
    m.weightAccessCount * entry.features 2 + m.weightReuseDistance * entry.features 3 + m.bias
  let error := prediction - target
  { m with
    weightPcHash := m.weightPcHash - m.learningRate * error * entry.features 0
    weightAge := m.weightAge - m.learningRate * error * entry.features 1
    weightAccessCount := m.weightAccessCount - m.learningRate * error * entry.features 2
    weightReuseDistance := m.weightReuseDistance - m.learningRate * error * entry.features 3
    bias := m.bias - m.learningRate * error }

def trackEviction (m : Mockingjay) (pc evictTick : BitVec 64) (features : Fin 4 → ℝ) :
    Mockingjay :=
  if !m.enableOnlineLearning then m else
  let entry : EvictedEntry := { pc := pc, evictTick := evictTick, features := features, valid := true }
  { m with evictTable := Function.update m.evictTable (evictIndex pc) entry }

noncomputable def checkEvictedReuse (m : Mockingjay) (pc currentTick : BitVec 64) : Mockingjay :=
  if !m.enableOnlineLearning then m else
  let entry := m.evictTable (evictIndex pc)
  if entry.valid ∧ entry.pc = pc then
    let reuseTime := currentTick - entry.evictTick
    let target := Real.log (1 + (reuseTime.toNat : ℝ)) / Real.log (1 + 10 ^ 6) - 0.5
    let m := m.updateWeights entry target
    let entry := { entry with valid := false }
    { m with evictTable := Function.update m.evictTable (evictIndex pc) entry }
  else m

def invalidate (data : MockingjayReplData) : MockingjayReplData :=
  { data with pc := 0, insertTick := 0, lastTouchTick := 0, accessCount := 0, reuseDistance := 0,
              lastAccessCounter := 0, priority := (dblMax : ℝ) }

noncomputable def touch (m : Mockingjay) (data : MockingjayReplData) (pc : Option (BitVec 64))
    (currentTick : BitVec 64) : Mockingjay × MockingjayReplData :=
  let data := { data with accessCount := data.accessCount + 1 }
  let data := if 0 < data.lastAccessCounter then
    { data with reuseDistance := m.globalAccessCounter - data.lastAccessCounter } else data
  let data := { data with lastTouchTick := currentTick, lastAccessCounter := m.globalAccessCounter }
  let m := { m with globalAccessCounter := m.globalAccessCounter + 1 }
  let (m, data) := match pc with
    | some pc => (m.checkEvictedReuse pc currentTick, { data with pc := pc })
    | none => (m, data)
  (m, { data with priority := m.computePriority data currentTick })

noncomputable def touchConst (m : Mockingjay) (data : MockingjayReplData)
    (currentTick : BitVec 64) : MockingjayReplData :=
  let data := { data with accessCount := data.accessCount + 1, lastTouchTick := currentTick }
  { data with priority := m.computePriority data currentTick }

noncomputable def reset (m : Mockingjay) (data : MockingjayReplData) (pc : Option (BitVec 64))
    (currentTick : BitVec 64) : Mockingjay × MockingjayReplData :=
  let data := { data with insertTick := currentTick, lastTouchTick := currentTick, accessCount := 0,
                          reuseDistance := 0, lastAccessCounter := m.globalAccessCounter }
  let m := { m with globalAccessCounter := m.globalAccessCounter + 1 }
  let (m, data) := match pc with
    | some pc => (m.checkEvictedReuse pc currentTick, { data with pc := pc })
    | none => (m, { data with pc := 0 })
  (m, { data with priority := m.computePriority data currentTick })

noncomputable def resetConst (m : Mockingjay) (data : MockingjayReplData)
    (currentTick : BitVec 64) : MockingjayReplData :=
  let data := { data with insertTick := currentTick, lastTouchTick := currentTick, accessCount := 0,
                          pc := 0 }
  { data with priority := m.computePriority data currentTick }

/-- The second pass of `getVictim`: the index and priority of the candidate found so far, replaced
only by a strictly higher priority. -/
noncomputable def victimLoop : List MockingjayReplData → Nat → Nat × ℝ → Nat × ℝ
  | [], _, best => best
  | data :: rest, i, best =>
    victimLoop rest (i + 1) (if best.2 < data.priority then (i, data.priority) else best)

noncomputable def features (data : MockingjayReplData) (currentTick : BitVec 64) : Fin 4 → ℝ :=
  ![computePcHashFeature data.pc, computeAgeFeature data.insertTick currentTick,
    computeAccessCountFeature data.accessCount, computeReuseDistanceFeature data.reuseDistance]

noncomputable def rescore (m : Mockingjay) (currentTick : BitVec 64) (data : MockingjayReplData) :
    MockingjayReplData :=
  { data with priority := m.computePriority data currentTick }

@[simp] theorem rescore_priority (m : Mockingjay) (currentTick : BitVec 64)
    (data : MockingjayReplData) : (m.rescore currentTick data).priority = m.computePriority data currentTick :=
  rfl

/-- `getVictim` returns the victim's index, the policy after tracking the eviction, and the
candidates with the priorities of its first pass; `none` is the failed assertion on an empty
candidate list. -/
noncomputable def getVictim (m : Mockingjay) (candidates : List MockingjayReplData)
    (currentTick : BitVec 64) : Option (Nat × Mockingjay × List MockingjayReplData) :=
  match candidates.map (m.rescore currentTick) with
  | [] => none
  | first :: rest =>
    let victim := (victimLoop (first :: rest) 0 (0, first.priority)).1
    let data := (first :: rest).getD victim first
    some (victim,
      if m.enableOnlineLearning then m.trackEviction data.pc currentTick (features data currentTick)
      else m,
      first :: rest)

theorem computePcHashFeature_zero : computePcHashFeature 0 = 0 := by
  simp [computePcHashFeature]

theorem computeAgeFeature_zero (currentTick : BitVec 64) : computeAgeFeature 0 currentTick = 0 := by
  simp [computeAgeFeature]

theorem computeAccessCountFeature_zero : computeAccessCountFeature 0 = 0 := by
  simp [computeAccessCountFeature]

theorem computeReuseDistanceFeature_zero : computeReuseDistanceFeature 0 = 0 := by
  simp [computeReuseDistanceFeature]

theorem computePriority_invalidate (m : Mockingjay) (data : MockingjayReplData)
    (currentTick : BitVec 64) : m.computePriority (invalidate data) currentTick = m.bias := by
  simp only [computePriority, invalidate, computePcHashFeature_zero, computeAgeFeature_zero,
    computeAccessCountFeature_zero, computeReuseDistanceFeature_zero]
  ring

theorem victimLoop_spec (candidates : List MockingjayReplData) (i : Nat) (best : Nat × ℝ) :
    (victimLoop candidates i best = best ∧ ∀ data ∈ candidates, data.priority ≤ best.2) ∨
    ∃ k, ∃ chosen, candidates[k]? = some chosen ∧
      victimLoop candidates i best = (i + k, chosen.priority) ∧ best.2 < chosen.priority ∧
      ∀ j data, candidates[j]? = some data →
        data.priority ≤ chosen.priority ∧ (j < k → data.priority < chosen.priority) := by
  induction candidates generalizing i best with
  | nil => exact .inl ⟨rfl, by simp⟩
  | cons data rest ih =>
    rw [victimLoop]
    generalize kept : (if best.2 < data.priority then (i, data.priority) else best) = next
    have raised : best.2 ≤ next.2 ∧ data.priority ≤ next.2 := by
      rw [← kept]
      split_ifs with higher
      · exact ⟨higher.le, le_rfl⟩
      · exact ⟨le_rfl, not_lt.mp higher⟩
    rcases ih (i + 1) next with ⟨same, below⟩ | ⟨k, chosen, found, result, above, max⟩
    · by_cases higher : best.2 < data.priority
      · rw [if_pos higher] at kept
        subst kept
        refine .inr ⟨0, data, List.getElem?_cons_zero, by rw [same, Nat.add_zero], higher,
          fun j other present => ?_⟩
        cases j with
        | zero =>
          cases Option.some.inj (List.getElem?_cons_zero.symm.trans present)
          exact ⟨le_rfl, by omega⟩
        | succ j =>
          rw [List.getElem?_cons_succ] at present
          exact ⟨below other (List.getElem?_mem present), by omega⟩
      · rw [if_neg higher] at kept
        subst kept
        refine .inl ⟨same, fun other member => ?_⟩
        rcases List.mem_cons.mp member with rfl | member
        · exact raised.2
        · exact below other member
    · refine .inr ⟨k + 1, chosen, by rwa [List.getElem?_cons_succ], by rw [result]; congr 1; omega,
        raised.1.trans_lt above, fun j other present => ?_⟩
      cases j with
      | zero =>
        cases Option.some.inj (List.getElem?_cons_zero.symm.trans present)
        exact ⟨raised.2.trans above.le, fun _ => raised.2.trans_lt above⟩
      | succ j =>
        rw [List.getElem?_cons_succ] at present
        exact ⟨(max j other present).1, fun before => (max j other present).2 (by omega)⟩

theorem getVictim_spec (m : Mockingjay) (candidates : List MockingjayReplData)
    (currentTick : BitVec 64) (nonempty : candidates ≠ []) :
    ∃ victim chosen, candidates[victim]? = some chosen ∧
      m.getVictim candidates currentTick = some (victim,
        (if m.enableOnlineLearning then
          m.trackEviction chosen.pc currentTick (features chosen currentTick) else m),
        candidates.map (m.rescore currentTick)) ∧
      ∀ j data, candidates[j]? = some data →
        m.computePriority data currentTick ≤ m.computePriority chosen currentTick ∧
        (j < victim → m.computePriority data currentTick < m.computePriority chosen currentTick) := by
  obtain ⟨first, rest, rfl⟩ := List.exists_cons_of_ne_nil nonempty
  have rescored : ∀ (j : Nat) data, (first :: rest)[j]? = some data →
      ((first :: rest).map (m.rescore currentTick))[j]? = some (m.rescore currentTick data) := by
    intro j data found
    rw [List.getElem?_map, found, Option.map_some']
  rcases victimLoop_spec ((first :: rest).map (m.rescore currentTick)) 0
      (0, m.computePriority first currentTick) with
    ⟨same, below⟩ | ⟨k, picked, found, result, -, max⟩
  · refine ⟨0, first, List.getElem?_cons_zero, ?_, fun j data present => ⟨?_, by omega⟩⟩
    · rw [List.map_cons] at same
      simp only [getVictim, List.map_cons, rescore_priority, same]
      rfl
    · exact below _ (List.getElem?_mem (rescored j data present))
  · rw [List.getElem?_map] at found
    obtain ⟨chosen, present, rfl⟩ := Option.map_eq_some'.mp found
    refine ⟨k, chosen, present, ?_, fun j data other => max j _ (rescored j data other)⟩
    simp only [getVictim, List.map_cons, rescore_priority] at result ⊢
    rw [result, Nat.zero_add, List.getD_eq_getElem?_getD, ← List.map_cons, List.getElem?_map,
      present]
    rfl

theorem computePriority_initial_pc (learning_rate : ℝ) (enable_online_learning : Bool)
    (pc currentTick : BitVec 64) :
    (initial learning_rate enable_online_learning).computePriority { pc := pc } currentTick =
      0.25 * computePcHashFeature pc := by
  simp only [computePriority, initial, computeAgeFeature_zero, computeAccessCountFeature_zero,
    computeReuseDistanceFeature_zero]
  ring

theorem computePcHashFeature_512 : computePcHashFeature 512 = 1 / 2 := by
  rw [computePcHashFeature, show ((512 : BitVec 64) % 1024).toNat = 512 from rfl]
  norm_num

/-- With the constructor's weights, a line holding only PC 512 outranks an invalidated line:
its priority is `0.25 * 512 / 1024 = 1/8`, the invalidated line's is the bias `0`, and
`getVictim` evicts the first. -/
theorem getVictim_passes_over_invalidated (learning_rate : ℝ) (enable_online_learning : Bool)
    (stale : MockingjayReplData) (currentTick : BitVec 64) :
    let m := initial learning_rate enable_online_learning
    m.computePriority { pc := 512 } currentTick = 1 / 8 ∧
      m.computePriority (invalidate stale) currentTick = 0 ∧
      (m.getVictim [{ pc := 512 }, invalidate stale] currentTick).map Prod.fst = some 0 := by
  intro m
  have fresh : m.computePriority { pc := 512 } currentTick = 1 / 8 := by
    rw [computePriority_initial_pc, computePcHashFeature_512]
    norm_num
  have cleared : m.computePriority (invalidate stale) currentTick = 0 :=
    computePriority_invalidate m stale currentTick
  refine ⟨fresh, cleared, ?_⟩
  obtain ⟨victim, chosen, found, result, max⟩ :=
    getVictim_spec m [{ pc := 512 }, invalidate stale] currentTick (List.cons_ne_nil _ _)
  rcases victim with _ | _ | victim
  · rw [result]; rfl
  · simp only [List.getElem?_cons_succ, List.getElem?_cons_zero, Option.some.injEq] at found
    subst found
    have ranked := (max 0 { pc := 512 } rfl).1
    rw [fresh, cleared] at ranked
    norm_num at ranked
  · cases found

end Mockingjay

end CachePolicies.ReplacementPolicy
