import CachePolicies.Ghb.Prefetcher
import CachePolicies.Ghb.Correlation

/-! The parameters `degree` and `confidenceThreshold` are clamped and stored, by the prefetcher
and by its helper, but nothing reads them. `forget` sets both to zero; every operation commutes
with it, and so two prefetchers built with the same other parameters append the same candidates
on every run.

`history_size` is clamped to at least one, and one entry is as good as none for prediction:
`insert` evicts the only slot before it links the new access, so no link names a slot, no chain
takes a step, and no call appends a candidate. -/

namespace CachePolicies.Ghb

namespace GHBHistory

def forget (g : GHBHistory) : GHBHistory := { g with degree := 0, confidenceThreshold := 0 }

@[simp] theorem forget_historySize (g : GHBHistory) : g.forget.historySize = g.historySize := rfl

@[simp] theorem forget_filled (g : GHBHistory) : g.forget.filled = g.filled := rfl

@[simp] theorem forget_head (g : GHBHistory) : g.forget.head = g.head := rfl

theorem writeHead_forget (g : GHBHistory) (access : AccessInfo) :
    g.forget.writeHead access = (g.writeHead access).forget := by
  dsimp only [writeHead, forget]
  split <;> rfl

theorem removeIndexMapping_forget (g : GHBHistory) (slot : Nat) (key : CorrelationKey) :
    g.forget.removeIndexMapping slot key = (g.removeIndexMapping slot key).forget := by
  dsimp only [removeIndexMapping, forget]
  split_ifs <;> rfl

theorem insert_forget (g : GHBHistory) (access : AccessInfo) :
    g.forget.insert access = ((g.insert access).1, (g.insert access).2.forget) := by
  unfold insert
  simp only [forget_historySize, forget_filled, forget_head]
  split_ifs
  · rfl
  · simp only [evictIndex, removeIndexMappings, removeIndexMapping_forget, writeHead_forget]
    rfl
  · rw [writeHead_forget]
    rfl

theorem updatePatternTable_forget (g : GHBHistory) (chronological : List Delta) :
    g.forget.updatePatternTable chronological = (g.updatePatternTable chronological).forget := by
  unfold updatePatternTable
  split_ifs <;> rfl

theorem buildLoop_forget (g : GHBHistory) (key : CorrelationKey) (fuel : Nat) (current : Int) :
    g.forget.buildLoop key fuel current = g.buildLoop key fuel current := by
  induction fuel generalizing current with
  | zero => rfl
  | succ fuel ih => simp only [buildLoop, ih]; rfl

theorem buildPattern_forget (g : GHBHistory) (index : Int) (key : CorrelationKey) :
    g.forget.buildPattern index key = g.buildPattern index key := by
  simp only [buildPattern, buildLoop_forget, forget_historySize]
  rfl

end GHBHistory

theorem choosePattern_forget (h : GHBHistory) (index : Int) :
    choosePattern h.forget index = choosePattern h index := by
  simp only [choosePattern, GHBHistory.buildPattern_forget]

theorem predict_forget (sorter : CandidateSort) (h : GHBHistory) (chronological : List Delta) :
    predict sorter h.forget chronological = predict sorter h chronological := rfl

namespace GHBPrefetcher

def forget (p : GHBPrefetcher) : GHBPrefetcher :=
  { p with degree := 0, confidenceThreshold := 0, historyHelper := p.historyHelper.forget }

variable (sorter : CandidateSort)

theorem calculatePrefetch_forget (p : GHBPrefetcher) (pfi : PrefetchInfo) :
    p.forget.calculatePrefetch sorter pfi =
      ((p.calculatePrefetch sorter pfi).1.forget, (p.calculatePrefetch sorter pfi).2) := by
  have inserted : p.forget.historyHelper.insert (p.forget.accessOf pfi) =
      ((p.historyHelper.insert (p.accessOf pfi)).1,
        (p.historyHelper.insert (p.accessOf pfi)).2.forget) :=
    GHBHistory.insert_forget _ _
  have sameEmpty : p.forget.historyHelper.empty = p.historyHelper.empty := rfl
  unfold calculatePrefetch
  rw [inserted, sameEmpty]
  by_cases disabled : p.historyHelper.empty
  · simp only [disabled, if_true]
  · simp only [disabled, if_false, Bool.false_eq_true, choosePattern_forget]
    split_ifs
    · rfl
    · split
      · rfl
      · simp only [GHBHistory.updatePatternTable_forget, predict_forget]
        rfl

def prefetches (p : GHBPrefetcher) : List PrefetchInfo → List (List AddrPriority)
  | [] => []
  | pfi :: rest =>
    (p.calculatePrefetch sorter pfi).2 :: prefetches (p.calculatePrefetch sorter pfi).1 rest

theorem prefetches_forget (p : GHBPrefetcher) (events : List PrefetchInfo) :
    p.forget.prefetches sorter events = p.prefetches sorter events := by
  induction events generalizing p with
  | nil => rfl
  | cons pfi rest ih => simp only [prefetches, calculatePrefetch_forget, ih]

/-- Two prefetchers that differ only in `degree` and `confidence_threshold` append the same
candidates on every run. -/
theorem prefetches_ignore_degree_and_threshold (blkSize pageBytes history_size pattern_length : Nat)
    (use_pc : Bool) (degree degree' confidence_threshold confidence_threshold' : Nat)
    (events : List PrefetchInfo) :
    (new blkSize pageBytes history_size pattern_length degree use_pc confidence_threshold).prefetches
        sorter events =
      (new blkSize pageBytes history_size pattern_length degree' use_pc
        confidence_threshold').prefetches sorter events := by
  rw [← prefetches_forget, ← prefetches_forget sorter (new blkSize pageBytes history_size
    pattern_length degree' use_pc confidence_threshold')]
  rfl

end GHBPrefetcher

theorem Layout.linkOf_prev_of_single {L : Layout} (single : L.historySize = 1)
    (accesses : List AccessInfo) (key : CorrelationKey) (j : Nat) :
    (L.linkOf accesses key j).prev = -1 := by
  unfold Layout.linkOf
  split
  · rfl
  · split
    · next p found =>
      have := (Layout.lastBefore_eq_some.mp found).1
      rw [if_neg (by omega)]
    · rfl

theorem choosePattern_of_single {g : GHBHistory} (single : g.historySize = 1)
    (accesses : List AccessInfo) (index : Int) :
    choosePattern (g.stateOf accesses) index = none := by
  have unlinked : ∀ key, (g.stateOf accesses).buildPattern index key = (false, []) := by
    intro key
    unfold GHBHistory.buildPattern
    split_ifs
    · rfl
    · rw [GHBHistory.buildLoop_of_prev_neg]
      · rfl
      · simp only [GHBHistory.stateOf_history, Layout.slotOf]
        split
        · rw [Layout.entryOf, Layout.linkOf_prev_of_single single]
          decide
        · show (-1 : Int) < 0
          decide
  simp [choosePattern, unlinked]

namespace GHBPrefetcher

variable (sorter : CandidateSort)

theorem calculatePrefetch_of_single {p : GHBPrefetcher} {g : GHBHistory}
    {accesses : List AccessInfo} (helper : p.historyHelper = g.stateOf accesses)
    (single : g.historySize = 1) (pfi : PrefetchInfo) :
    (p.calculatePrefetch sorter pfi).2 = [] ∧
      (p.calculatePrefetch sorter pfi).1.historyHelper =
        g.stateOf (accesses ++ [p.accessOf pfi]) := by
  have enabled : p.historyHelper.empty = false := by
    rw [helper]
    simp [GHBHistory.empty, single]
  have inserted := @GHBHistory.insert_stateOf g accesses (by omega) (p.accessOf pfi)
  rw [← helper] at inserted
  unfold calculatePrefetch
  simp only [enabled, Bool.false_eq_true, if_false, inserted]
  rw [if_neg (by omega), choosePattern_of_single single]
  exact ⟨rfl, rfl⟩

/-- A prefetcher built with `history_size` at most one never appends a candidate. -/
theorem prefetches_of_single (blkSize pageBytes history_size pattern_length degree : Nat)
    (use_pc : Bool) (confidence_threshold : Nat) (single : history_size ≤ 1)
    (events : List PrefetchInfo) :
    ∀ out ∈ (new blkSize pageBytes history_size pattern_length degree use_pc
      confidence_threshold).prefetches sorter events, out = [] := by
  suffices running : ∀ (p : GHBPrefetcher) (g : GHBHistory) (accesses : List AccessInfo),
      p.historyHelper = g.stateOf accesses → g.historySize = 1 →
        ∀ out ∈ p.prefetches sorter events, out = [] by
    refine running _ (new blkSize pageBytes history_size pattern_length degree use_pc
      confidence_threshold).historyHelper.reset [] ?_ ?_
    · have pos : 0 < (new blkSize pageBytes history_size pattern_length degree use_pc
          confidence_threshold).historyHelper.historySize := by
        show 0 < max 1 (max 1 history_size)
        omega
      exact (GHBHistory.stateOf_nil pos).symm
    · show max 1 (max 1 history_size) = 1
      omega
  induction events with
  | nil => simp [prefetches]
  | cons pfi rest ih =>
    intro p g accesses helper single' out member
    obtain ⟨appended, helper'⟩ := calculatePrefetch_of_single sorter helper single' pfi
    rcases List.mem_cons.mp member with rfl | later
    · exact appended
    · exact ih _ g _ helper' single' out later

theorem prefetches_of_single_stride :
    1 ≤ 1 ∧ ∀ out ∈ (new 64 4096 1 4 2 true 0).prefetches CandidateSort.insertion
      [⟨0x1000, some 0x400⟩, ⟨0x1040, some 0x400⟩, ⟨0x1080, some 0x400⟩], out = [] :=
  ⟨le_refl 1, prefetches_of_single CandidateSort.insertion 64 4096 1 4 2 true 0 (le_refl 1) _⟩

end GHBPrefetcher

end CachePolicies.Ghb
