import CachePolicies.Ghb.Prediction

/-! A constant-stride stream: accesses to aligned blocks that advance by a fixed non-zero stride,
all under one PC. With PC correlation on and room for two accesses in the history, the PC chain
of every access after the first reaches back to the access before it, so every chain
`buildPattern` walks is a run of the stride. The table is then trained only on the stride, and
both a table match and the fallback predict it: the first call appends nothing, and every later
call appends the next block of the stream when that block is on the page of the current one.

The proof goes through the closed form of `Refinement`: one call on a prefetcher whose helper
holds the first `n` blocks (`StreamState`), then the run, by induction over the stream. -/

namespace CachePolicies.Ghb

def strideAddr (base stride : Addr) : Nat → Addr
  | 0 => base
  | k + 1 => strideAddr base stride k + stride

def strideStream (base stride pc : Addr) (n : Nat) : List PrefetchInfo :=
  (List.range n).map fun k => ⟨strideAddr base stride k, some pc⟩

def strideAccesses (base stride pc : Addr) (n : Nat) : List AccessInfo :=
  (List.range n).map fun k => ⟨strideAddr base stride k, some pc⟩

variable {base stride pc : Addr}

theorem strideStream_succ (n : Nat) :
    strideStream base stride pc (n + 1) =
      strideStream base stride pc n ++ [⟨strideAddr base stride n, some pc⟩] := by
  simp [strideStream, List.range_succ]

theorem strideAccesses_succ (n : Nat) :
    strideAccesses base stride pc (n + 1) =
      strideAccesses base stride pc n ++ [⟨strideAddr base stride n, some pc⟩] := by
  simp [strideAccesses, List.range_succ]

@[simp] theorem length_strideAccesses (n : Nat) :
    (strideAccesses base stride pc n).length = n := by
  simp [strideAccesses]

theorem getD_strideAccesses {n k : Nat} (below : k < n) :
    (strideAccesses base stride pc n).getD k default = ⟨strideAddr base stride k, some pc⟩ := by
  simp [strideAccesses, below]

namespace Layout

theorem chainDeltas_first (L : Layout) (accesses : List AccessInfo) (key : CorrelationKey)
    (fuel : Nat) : L.chainDeltas accesses key fuel 0 = [] := by
  cases fuel with
  | zero => rfl
  | succ fuel =>
    simp only [chainDeltas]
    split <;> rfl

variable {L : Layout} (tracked : L.usePC = true) {n : Nat}
include tracked

theorem keyAt_strideAccesses {k : Nat} (below : k < n) :
    L.keyAt (strideAccesses base stride pc n) .PC k = some pc := by
  rw [keyAt, getD_strideAccesses below]
  simp [keyOf, tracked]

theorem lastBefore_strideAccesses {k : Nat} (below : k < n) :
    L.lastBefore (strideAccesses base stride pc n) .PC pc (k + 1) = some k := by
  simp [lastBefore, keyAt_strideAccesses tracked below]

theorem chainDeltas_strideAccesses (fuel : Nat) {j : Nat} (below : j < n) :
    ∀ d ∈ L.chainDeltas (strideAccesses base stride pc n) .PC fuel j, d = stride := by
  induction fuel generalizing j with
  | zero => simp [chainDeltas]
  | succ fuel ih =>
    cases j with
    | zero => simp [chainDeltas, keyAt_strideAccesses tracked below, lastBefore]
    | succ j =>
      simp only [chainDeltas, keyAt_strideAccesses tracked below,
        lastBefore_strideAccesses tracked (Nat.lt_of_succ_lt below)]
      split_ifs
      · intro d member
        rcases List.mem_cons.mp member with rfl | later
        · rw [getD_strideAccesses below, getD_strideAccesses (Nat.lt_of_succ_lt below)]
          exact add_sub_cancel_left _ _
        · exact ih (Nat.lt_of_succ_lt below) d later
      · simp

theorem chainDeltas_strideAccesses_ne_nil (fuel : Nat) {j : Nat} (below : j + 1 < n)
    (live : n ≤ j + L.historySize) :
    L.chainDeltas (strideAccesses base stride pc n) .PC (fuel + 1) (j + 1) ≠ [] := by
  simp [chainDeltas, keyAt_strideAccesses tracked below,
    lastBefore_strideAccesses tracked (Nat.lt_of_succ_lt below), live]

end Layout

namespace GHBHistory

variable {g : GHBHistory}

theorem chainPattern_newest (pos : 0 < g.historySize) (accesses : List AccessInfo)
    (access : AccessInfo) (key : CorrelationKey) :
    g.chainPattern (accesses ++ [access]) ((accesses.length % g.historySize : Nat) : Int) key =
      (!(g.layout.chainDeltas (accesses ++ [access]) key g.patternLength accesses.length).isEmpty,
        g.layout.chainDeltas (accesses ++ [access]) key g.patternLength accesses.length) := by
  have inside : accesses.length % g.historySize < g.historySize := Nat.mod_lt _ pos
  unfold chainPattern
  rw [if_neg (by omega), Int.toNat_ofNat]
  simp [Layout.latestAt]

theorem choosePattern_strideAccesses (tracked : g.usePC = true) (twoSlots : 2 ≤ g.historySize)
    (steps : 0 < g.patternLength) {n : Nat} (fits : n + 1 < 2 ^ 64) :
    choosePattern (g.stateOf (strideAccesses base stride pc (n + 1)))
        ((n % g.historySize : Nat) : Int) =
      if n = 0 then none else
        some (.PC, g.layout.chainDeltas (strideAccesses base stride pc (n + 1)) .PC g.patternLength
          n) := by
  have pos : 0 < g.historySize := by omega
  have newest := chainPattern_newest pos (strideAccesses base stride pc n)
    ⟨strideAddr base stride n, some pc⟩
  rw [← strideAccesses_succ, length_strideAccesses] at newest
  unfold choosePattern
  rw [buildPattern_stateOf pos (by simpa using fits), newest,
    buildPattern_stateOf pos (by simpa using fits), newest]
  cases n with
  | zero => simp [Layout.chainDeltas_first]
  | succ m =>
    obtain ⟨fuel, length⟩ : ∃ fuel, g.patternLength = fuel + 1 := ⟨g.patternLength - 1, by omega⟩
    have walked := @Layout.chainDeltas_strideAccesses_ne_nil base stride pc g.layout tracked
      (m + 1 + 1) fuel m (by omega) (by simp; omega)
    rw [← length] at walked
    obtain ⟨d, rest, chain⟩ := List.exists_cons_of_ne_nil walked
    rw [chain]
    rfl

end GHBHistory

section Predict

variable (sorter : CandidateSort) {h : GHBHistory} {chronological : List Delta}

theorem predict_steady (moving : stride ≠ 0) (steady : ∀ d ∈ chronological, d = stride)
    (nonempty : chronological ≠ [])
    (table : ∀ key entry, h.patternTable key = some entry → ∀ c ∈ entry.counts, c.1 = stride) :
    (predict sorter h chronological).2 = [stride] := by
  cases result : (predict sorter h chronological).1
  · rw [predict_of_false sorter result]
    obtain ⟨last, found⟩ := Option.ne_none_iff_exists'.mp (mt List.getLast?_eq_none_iff.mp nonempty)
    rw [steady last (List.mem_of_getLast?_eq_some found)] at found
    simp only [fallbackPattern, found, ne_eq, moving, not_false_eq_true, if_true]
  · obtain ⟨key, entry, best, -, present, member, same⟩ := findPatternMatch_eq_true sorter
      ((predict_of_true sorter result).trans (Prod.ext result rfl))
    exact same.trans (congrArg (fun d => [d]) (table key entry present best member))

end Predict

theorem strideAddr_aligned {blk : Nat} (divides : blk ∣ 2 ^ 64) (baseAligned : blk ∣ base.toNat)
    (strideAligned : blk ∣ stride.toNat) (k : Nat) : blk ∣ (strideAddr base stride k).toNat := by
  induction k with
  | zero => exact baseAligned
  | succ k ih => exact dvd_toNat_add divides ih strideAligned

theorem blockAddress_of_dvd {blk : Nat} {addr : Addr} (aligned : blk ∣ addr.toNat) :
    blockAddress blk addr = addr := by
  rw [blockAddress, Nat.div_mul_cancel aligned, BitVec.ofNat_toNat, BitVec.setWidth_eq]

namespace GHBPrefetcher

/-- A prefetcher whose helper holds the first `n` blocks of the stream over the table of `g`,
with the parameters under which the PC chain of the next block reaches back to the block
before it. -/
structure StreamState (base stride pc : Addr) (p : GHBPrefetcher) (g : GHBHistory) (n : Nat) :
    Prop where
  helper : p.historyHelper = g.stateOf (strideAccesses base stride pc n)
  aligned : p.blkSize ∣ (strideAddr base stride n).toNat
  usePC : p.usePC = true
  twoSlots : 2 ≤ g.historySize
  tracked : g.usePC = true
  steps : 0 < g.patternLength

section Call

variable (sorter : CandidateSort) {p : GHBPrefetcher} {g : GHBHistory} {n : Nat}
  (state : StreamState base stride pc p g n)
include state

theorem StreamState.accessOf :
    p.accessOf ⟨strideAddr base stride n, some pc⟩ = ⟨strideAddr base stride n, some pc⟩ := by
  simp only [GHBPrefetcher.accessOf, state.usePC, if_true]
  rw [blockAddress_of_dvd state.aligned]

theorem StreamState.insert :
    p.historyHelper.insert ⟨strideAddr base stride n, some pc⟩ =
      (((n % g.historySize : Nat) : Int), g.stateOf (strideAccesses base stride pc (n + 1))) := by
  rw [state.helper, GHBHistory.insert_stateOf (by have := state.twoSlots; omega),
    length_strideAccesses, ← strideAccesses_succ]

theorem StreamState.choosePattern (fits : n + 1 < 2 ^ 64) :
    choosePattern (g.stateOf (strideAccesses base stride pc (n + 1)))
        ((n % g.historySize : Nat) : Int) =
      if n = 0 then none else some (.PC,
        g.layout.chainDeltas (strideAccesses base stride pc (n + 1)) .PC g.patternLength n) :=
  GHBHistory.choosePattern_strideAccesses state.tracked state.twoSlots state.steps fits

theorem StreamState.enabled : p.historyHelper.empty = false := by
  have := state.twoSlots
  rw [state.helper]
  simp [GHBHistory.empty]
  omega

theorem StreamState.helperOps (fits : n + 1 < 2 ^ 64) :
    p.helperOps ⟨strideAddr base stride n, some pc⟩ =
      .insert ⟨strideAddr base stride n, some pc⟩ :: if n = 0 then [] else
        [.updatePatternTable (g.layout.chainDeltas (strideAccesses base stride pc (n + 1)) .PC
          g.patternLength n).reverse] := by
  simp only [GHBPrefetcher.helperOps, state.enabled, Bool.false_eq_true, if_false,
    state.accessOf, state.insert]
  rw [if_neg (by omega), state.choosePattern fits]
  split_ifs <;> rfl

theorem StreamState.calculatePrefetch_first (first : n = 0) :
    (p.calculatePrefetch sorter ⟨strideAddr base stride n, some pc⟩).2 = [] := by
  subst first
  unfold GHBPrefetcher.calculatePrefetch
  simp only [state.enabled, Bool.false_eq_true, if_false, state.accessOf, state.insert]
  rw [if_neg (by omega), state.choosePattern (by norm_num), if_pos rfl]

theorem StreamState.calculatePrefetch (fits : n + 1 < 2 ^ 64) (later : 0 < n)
    (moving : stride ≠ 0)
    (table : ∀ key entry, ((g.stateOf (strideAccesses base stride pc (n + 1))).updatePatternTable
      (g.layout.chainDeltas (strideAccesses base stride pc (n + 1)) .PC g.patternLength
        n).reverse).patternTable key = some entry → ∀ c ∈ entry.counts, c.1 = stride) :
    (p.calculatePrefetch sorter ⟨strideAddr base stride n, some pc⟩).2 =
      if samePage p.pageBytes (strideAddr base stride n) (strideAddr base stride n + stride) then
        [(strideAddr base stride n + stride, 0)] else [] := by
  have steady := @Layout.chainDeltas_strideAccesses base stride pc g.layout state.tracked (n + 1)
    g.patternLength n (Nat.lt_succ_self n)
  obtain ⟨fuel, length⟩ : ∃ fuel, g.patternLength = fuel + 1 :=
    ⟨g.patternLength - 1, by have := state.steps; omega⟩
  obtain ⟨m, rfl⟩ : ∃ m, n = m + 1 := ⟨n - 1, by omega⟩
  have walked := @Layout.chainDeltas_strideAccesses_ne_nil base stride pc g.layout state.tracked
    (m + 1 + 1) fuel m (by omega) (by have := state.twoSlots; simp; omega)
  rw [← length] at walked
  have predicted := predict_steady sorter moving (fun d inside => steady d (List.mem_reverse.mp
    inside)) (List.reverse_ne_nil_iff.mpr walked) table
  unfold GHBPrefetcher.calculatePrefetch
  simp only [state.enabled, Bool.false_eq_true, if_false, state.accessOf, state.insert,
    blockAddress_of_dvd state.aligned]
  rw [if_neg (by omega), state.choosePattern fits, if_neg (by omega)]
  dsimp only
  rw [predicted, List.isEmpty_cons, if_neg Bool.false_ne_true, candidateLoop_single,
    if_neg moving]

end Call

section Run

variable (sorter : CandidateSort) (blkSize pageBytes history_size pattern_length degree
  confidence_threshold : Nat) (base stride pc : Addr) (divides : blkSize ∣ 2 ^ 64)
  (baseAligned : blkSize ∣ base.toNat) (strideAligned : blkSize ∣ stride.toNat)
  (twoSlots : 2 ≤ history_size)
include divides baseAligned strideAligned twoSlots

theorem streamState_run {n : Nat}
    (accesses : Op.accesses ((new blkSize pageBytes history_size pattern_length degree true
      confidence_threshold).runOps sorter (strideStream base stride pc n)) =
        strideAccesses base stride pc n) :
    let p0 := new blkSize pageBytes history_size pattern_length degree true confidence_threshold
    StreamState base stride pc (p0.run sorter (strideStream base stride pc n))
      (p0.historyHelper.train (Op.trainings (p0.runOps sorter (strideStream base stride pc n))))
      n := by
  intro p0
  obtain ⟨helper, block, -, usePC⟩ := run_helper sorter p0 (strideStream base stride pc n)
  have trainedReset := GHBHistory.reset_train p0.historyHelper
    (Op.trainings (p0.runOps sorter (strideStream base stride pc n)))
  refine ⟨?_, ?_, usePC, ?_, congrArg GHBHistory.usePC trainedReset, ?_⟩
  · rw [helper, ← accesses]
    exact GHBHistory.run_new _ _ _ _ _ _ _
  · rw [block]
    exact strideAddr_aligned divides baseAligned strideAligned n
  · rw [GHBHistory.historySize_train]
    show 2 ≤ max 1 (max 1 history_size)
    omega
  · have length := congrArg GHBHistory.patternLength trainedReset
    simp only [GHBHistory.reset] at length
    rw [length]
    show 0 < max 1 (max 1 pattern_length)
    omega

theorem runOps_strideStream {n : Nat} (fits : n < 2 ^ 64) :
    let p0 := new blkSize pageBytes history_size pattern_length degree true confidence_threshold
    Op.accesses (p0.runOps sorter (strideStream base stride pc n)) =
        strideAccesses base stride pc n ∧
      ∀ D, Op.updatePatternTable D ∈ p0.runOps sorter (strideStream base stride pc n) →
        ∀ d ∈ D, d = stride := by
  intro p0
  induction n with
  | zero => simp [strideStream, runOps, Op.accesses, strideAccesses]
  | succ n ih =>
    obtain ⟨accesses, trained⟩ := ih (by omega)
    have state := streamState_run sorter blkSize pageBytes history_size pattern_length degree
      confidence_threshold base stride pc divides baseAligned strideAligned twoSlots accesses
    rw [strideStream_succ, runOps_append, state.helperOps fits]
    refine ⟨?_, fun D member d inside => ?_⟩
    · rw [Op.accesses, List.foldl_append, ← Op.accesses, accesses]
      split_ifs <;> simp [Op.recordAccess, strideAccesses_succ]
    · rcases List.mem_append.mp member with old | new
      · exact trained D old d inside
      · split_ifs at new <;> simp only [List.mem_cons, List.mem_singleton, List.not_mem_nil,
          or_false, reduceCtorEq, false_or, Op.updatePatternTable.injEq] at new
        subst new
        exact Layout.chainDeltas_strideAccesses state.tracked _ (Nat.lt_succ_self n) d
          (List.mem_reverse.mp inside)

/-- On a stream of aligned blocks that advance by a fixed non-zero stride under one PC, with each
step and the next block inside the `int64_t` range the code computes them in, a prefetcher built
with PC correlation and room for two, but fewer than `2^31`, accesses appends nothing on the
first call, and on every later call predicts the stride: it appends the next block of the stream
when that block is on the page of the current one, and nothing otherwise. -/
theorem calculatePrefetch_stride (moving : stride ≠ 0) (small : history_size < 2 ^ 31) {n : Nat}
    (fits : n + 1 < 2 ^ 64)
    (signed : ∀ k ≤ n, -2 ^ 63 ≤ (strideAddr base stride k).toInt + stride.toInt ∧
      (strideAddr base stride k).toInt + stride.toInt < 2 ^ 63) :
    (((new blkSize pageBytes history_size pattern_length degree true confidence_threshold).run
        sorter (strideStream base stride pc n)).calculatePrefetch sorter
          ⟨strideAddr base stride n, some pc⟩).2 =
      if n = 0 then [] else
      if samePage pageBytes (strideAddr base stride n) (strideAddr base stride n + stride) then
        [(strideAddr base stride n + stride, 0)] else [] := by
  obtain ⟨accesses, -⟩ := runOps_strideStream sorter blkSize pageBytes history_size
    pattern_length degree confidence_threshold base stride pc divides baseAligned strideAligned
    twoSlots (n := n) (by omega)
  have state := streamState_run sorter blkSize pageBytes history_size pattern_length degree
    confidence_threshold base stride pc divides baseAligned strideAligned twoSlots accesses
  by_cases first : n = 0
  · rw [if_pos first]
    exact state.calculatePrefetch_first sorter first
  rw [if_neg first]
  obtain ⟨-, trained⟩ := runOps_strideStream sorter blkSize pageBytes history_size
    pattern_length degree confidence_threshold base stride pc divides baseAligned strideAligned
    twoSlots (n := n + 1) fits
  have ops := state.helperOps fits
  rw [if_neg first, ← state.accessOf] at ops
  have after := helper_after_call sorter _ (strideStream base stride pc n) _ ops
  rw [state.accessOf, state.insert, ← strideStream_succ] at after
  dsimp only at after
  have result := state.calculatePrefetch sorter fits (Nat.pos_of_ne_zero first) moving
    fun key entry present c member => by
      rw [after] at present
      obtain ⟨counted, -⟩ := GHBHistory.entry_run _ _ _ _ _ _ _ key present
      obtain ⟨D, inside, window⟩ := GHBHistory.trained_of_successor _ key
        ((counted.mem c.1).mp (List.mem_map_of_mem _ member))
      exact trained D inside c.1 (mem_of_mem_windows window).2.2
  rw [(run_helper sorter _ (strideStream base stride pc n)).2.2.1] at result
  exact result

end Run

theorem calculatePrefetch_stride_blocks :
    (64 ∣ 2 ^ 64 ∧ 64 ∣ (0x1000 : Addr).toNat ∧ 64 ∣ (0x40 : Addr).toNat ∧ 2 ≤ 16 ∧
      (0x40 : Addr) ≠ 0 ∧ 16 < 2 ^ 31 ∧ 3 + 1 < 2 ^ 64 ∧
      ∀ k ≤ 3, -2 ^ 63 ≤ (strideAddr 0x1000 0x40 k).toInt + (0x40 : Addr).toInt ∧
        (strideAddr 0x1000 0x40 k).toInt + (0x40 : Addr).toInt < 2 ^ 63) ∧
    (((new 64 4096 16 4 2 true 0).run CandidateSort.insertion
        (strideStream 0x1000 0x40 0x400 3)).calculatePrefetch CandidateSort.insertion
          ⟨strideAddr 0x1000 0x40 3, some 0x400⟩).2 =
      if 3 = 0 then [] else
      if samePage 4096 (strideAddr 0x1000 0x40 3) (strideAddr 0x1000 0x40 3 + 0x40) then
        [(strideAddr 0x1000 0x40 3 + 0x40, 0)] else [] :=
  ⟨by decide, calculatePrefetch_stride CandidateSort.insertion 64 4096 16 4 2 0 0x1000 0x40 0x400
    (by decide) (by decide) (by decide) (by decide) (by decide) (by decide) (by decide)
    (by decide)⟩

end GHBPrefetcher

end CachePolicies.Ghb