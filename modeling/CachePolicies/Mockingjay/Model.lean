import CachePolicies.Mockingjay.Policy

/-! The features of the linear model of `mockingjay.cc`, which `computePriority` weighs and
`updateWeights` trains. They are nonnegative; the PC hash lies in `[0, 1)` and the age in
`[0, 1]`. The access-count and reuse-distance features are not clamped: they pass `1` exactly
above `1000` accesses and above a distance of `10000`. -/

namespace CachePolicies.ReplacementPolicy

namespace Mockingjay

section Ranges

theorem log_ratio_nonneg {x b : ℝ} (nonneg : 0 ≤ x) (above : 1 < b) :
    0 ≤ Real.log (1 + x) / Real.log b :=
  div_nonneg (Real.log_nonneg (by linarith)) (Real.log_pos above).le

theorem log_ratio_le_one_iff {x b : ℝ} (nonneg : 0 ≤ x) (above : 1 < b) :
    Real.log (1 + x) / Real.log b ≤ 1 ↔ 1 + x ≤ b := by
  rw [div_le_one (Real.log_pos above), Real.log_le_log_iff (by linarith) (by linarith)]

theorem computePcHashFeature_range (pc : BitVec 64) :
    0 ≤ computePcHashFeature pc ∧ computePcHashFeature pc < 1 := by
  have below : (pc % 1024).toNat < 1024 := by
    rw [BitVec.toNat_umod]
    exact Nat.mod_lt _ (by decide)
  refine ⟨div_nonneg (Nat.cast_nonneg _) (by norm_num), (div_lt_one (by norm_num)).mpr ?_⟩
  exact_mod_cast below

theorem computeAgeFeature_range (insertTick currentTick : BitVec 64) :
    0 ≤ computeAgeFeature insertTick currentTick ∧ computeAgeFeature insertTick currentTick ≤ 1 := by
  unfold computeAgeFeature
  split_ifs
  · norm_num
  · exact ⟨le_min (log_ratio_nonneg (Nat.cast_nonneg _) (by norm_num)) zero_le_one, min_le_right _ _⟩

theorem computeAccessCountFeature_range (count : BitVec 32) :
    0 ≤ computeAccessCountFeature count ∧
      (computeAccessCountFeature count ≤ 1 ↔ count.toNat ≤ 1000) := by
  refine ⟨log_ratio_nonneg (Nat.cast_nonneg _) (by norm_num), ?_⟩
  rw [computeAccessCountFeature, log_ratio_le_one_iff (Nat.cast_nonneg _) (by norm_num)]
  constructor <;> intro bound
  · have : (count.toNat : ℝ) ≤ 1000 := by linarith
    exact_mod_cast this
  · have : (count.toNat : ℝ) ≤ 1000 := by exact_mod_cast bound
    linarith

theorem computeReuseDistanceFeature_range (distance : BitVec 64) :
    0 ≤ computeReuseDistanceFeature distance ∧
      (computeReuseDistanceFeature distance ≤ 1 ↔ distance.toNat ≤ 10000) := by
  refine ⟨log_ratio_nonneg (Nat.cast_nonneg _) (by norm_num), ?_⟩
  rw [computeReuseDistanceFeature, log_ratio_le_one_iff (Nat.cast_nonneg _) (by norm_num)]
  constructor <;> intro bound
  · have : (distance.toNat : ℝ) ≤ 10000 := by linarith
    exact_mod_cast this
  · have : (distance.toNat : ℝ) ≤ 10000 := by exact_mod_cast bound
    linarith

/-- Every feature is nonnegative; the PC hash is below `1` and the age at most `1`; the access
count and the reuse distance reach `1` exactly past `1000` and `10000`, with no clamp. -/
theorem feature_ranges (pc insertTick currentTick distance : BitVec 64) (count : BitVec 32) :
    (0 ≤ computePcHashFeature pc ∧ computePcHashFeature pc < 1) ∧
    (0 ≤ computeAgeFeature insertTick currentTick ∧ computeAgeFeature insertTick currentTick ≤ 1) ∧
    (0 ≤ computeAccessCountFeature count ∧
      (computeAccessCountFeature count ≤ 1 ↔ count.toNat ≤ 1000)) ∧
    (0 ≤ computeReuseDistanceFeature distance ∧
      (computeReuseDistanceFeature distance ≤ 1 ↔ distance.toNat ≤ 10000)) :=
  ⟨computePcHashFeature_range pc, computeAgeFeature_range insertTick currentTick,
    computeAccessCountFeature_range count, computeReuseDistanceFeature_range distance⟩

end Ranges

end Mockingjay

end CachePolicies.ReplacementPolicy
