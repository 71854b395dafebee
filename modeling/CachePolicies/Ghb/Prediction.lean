import CachePolicies.Ghb.Prefetcher
import CachePolicies.Ghb.Correlation

/-! What the prefetcher predicts, over any run. Each table prediction is a successor of the
last two deltas of the chain in some chain trained in the run; a fallback prediction is the
newest stride itself. With a power-of-two block size every address in the history, every
delta in the table and every candidate is a multiple of the block size, because differences
of such addresses modulo `2^64` are. -/

namespace CachePolicies.Ghb

section Alignment

variable {blk : Nat} (divides : blk ∣ 2 ^ 64)
include divides

theorem dvd_toNat_sub {x y : BitVec 64} (left : blk ∣ x.toNat) (right : blk ∣ y.toNat) :
    blk ∣ (x - y).toNat := by
  rw [BitVec.toNat_sub, Nat.dvd_mod_iff divides]
  exact Nat.dvd_add (Nat.dvd_sub' divides right) left

theorem dvd_toNat_add {x y : BitVec 64} (left : blk ∣ x.toNat) (right : blk ∣ y.toNat) :
    blk ∣ (x + y).toNat := by
  rw [BitVec.toNat_add, Nat.dvd_mod_iff divides]
  exact Nat.dvd_add left right

theorem dvd_toInt_iff (d : BitVec 64) : (blk : Int) ∣ d.toInt ↔ blk ∣ d.toNat := by
  have whole : (blk : Int) ∣ ((2 ^ 64 : Nat) : Int) := Int.natCast_dvd_natCast.mpr divides
  rw [BitVec.toInt_eq_toNat_cond]
  split_ifs
  · exact Int.natCast_dvd_natCast
  · rw [dvd_sub_left whole]
    exact Int.natCast_dvd_natCast

end Alignment

theorem dvd_blockAddress {blk : Nat} (divides : blk ∣ 2 ^ 64) (addr : Addr) :
    blk ∣ (blockAddress blk addr).toNat := by
  rw [blockAddress, BitVec.toNat_ofNat, Nat.dvd_mod_iff divides]
  exact Nat.dvd_mul_left blk _

theorem dvd_buildLoop {blk : Nat} (divides : blk ∣ 2 ^ 64) {h : GHBHistory}
    (aligned : ∀ slot, blk ∣ (h.history slot).addr.toNat) (key : CorrelationKey) :
    ∀ fuel current, ∀ d ∈ h.buildLoop key fuel current, blk ∣ d.toNat
  | 0, _ => by simp [GHBHistory.buildLoop]
  | fuel + 1, current => by
    simp only [GHBHistory.buildLoop]
    split_ifs
    · simp
    · simp
    · intro d inside
      rcases List.mem_cons.mp inside with rfl | later
      · exact dvd_toNat_sub divides (aligned _) (aligned _)
      · exact dvd_buildLoop divides aligned key fuel _ d later

theorem dvd_buildPattern {blk : Nat} (divides : blk ∣ 2 ^ 64) {h : GHBHistory}
    (aligned : ∀ slot, blk ∣ (h.history slot).addr.toNat) (idx : Int) (key : CorrelationKey) :
    ∀ d ∈ (h.buildPattern idx key).2, blk ∣ d.toNat := by
  unfold GHBHistory.buildPattern
  split_ifs
  · simp
  · exact dvd_buildLoop divides aligned key _ _

theorem choosePattern_deltas {h : GHBHistory} {idx : Int} {key : CorrelationKey}
    {deltas : List Delta} (chosen : choosePattern h idx = some (key, deltas)) :
    h.buildPattern idx key = (true, deltas) := by
  unfold choosePattern at chosen
  split at chosen
  · cases chosen
    assumption
  · split at chosen
    · cases chosen
      assumption
    · cases chosen

theorem mem_accesses {ops : List Op} {access : AccessInfo} (inside : access ∈ Op.accesses ops) :
    Op.insert access ∈ ops := by
  induction ops using List.reverseRecOn with
  | nil => simp [Op.accesses] at inside
  | append_singleton ops op ih =>
    rw [Op.accesses_append] at inside
    cases op with
    | insert a =>
      rcases List.mem_append.mp inside with earlier | here
      · exact List.mem_append_left _ (ih earlier)
      · simp_all
    | updatePatternTable _ => exact List.mem_append_left _ (ih inside)
    | reset => simp [Op.recordAccess] at inside

theorem mem_trainings {ops : List Op} {D : List Delta} (inside : D ∈ Op.trainings ops) :
    Op.updatePatternTable D ∈ ops := by
  induction ops using List.reverseRecOn with
  | nil => simp [Op.trainings] at inside
  | append_singleton ops op ih =>
    rw [Op.trainings_append] at inside
    cases op with
    | insert _ => exact List.mem_append_left _ (ih inside)
    | updatePatternTable chronological =>
      rcases List.mem_append.mp inside with earlier | here
      · exact List.mem_append_left _ (ih earlier)
      · simp_all
    | reset => simp [Op.recordTraining] at inside

theorem mem_of_mem_windows {D : List Delta} {x y z : Delta} (inside : (x, y, z) ∈ windows D) :
    x ∈ D ∧ y ∈ D ∧ z ∈ D := by
  match D, inside with
  | first :: second :: next :: rest, inside =>
    rcases List.mem_cons.mp inside with same | later
    · simp_all
    · obtain ⟨hx, hy, hz⟩ := mem_of_mem_windows later
      exact ⟨List.mem_cons_of_mem _ hx, List.mem_cons_of_mem _ hy, List.mem_cons_of_mem _ hz⟩

theorem mem_successors {ws : List (Delta × Delta × Delta)} {key : DeltaPair} {z : Delta} :
    z ∈ successors ws key ↔ (key.first, key.second, z) ∈ ws := by
  simp only [successors, List.mem_filterMap]
  constructor
  · rintro ⟨⟨a, b, c⟩, inside, found⟩
    split_ifs at found with same
    cases found
    cases same
    exact inside
  · intro inside
    exact ⟨_, inside, by simp⟩

theorem mem_allWindows {lists : List (List Delta)} {w : Delta × Delta × Delta} :
    w ∈ allWindows lists ↔ ∃ D ∈ lists, w ∈ windows D := by
  simp [allWindows]

def Op.Aligned (blk : Nat) : Op → Prop
  | .insert access => blk ∣ access.addr.toNat
  | .updatePatternTable chronological => ∀ d ∈ chronological, blk ∣ d.toNat
  | .reset => True

namespace GHBHistory

section Run

variable (history_size pattern_length degree : Nat) (use_pc : Bool)
  (page_bytes confidence_threshold : Nat) (ops : List Op)

theorem addr_run (slot : Nat) :
    (((new history_size pattern_length degree use_pc page_bytes confidence_threshold).run
      ops).history slot).addr = 0 ∨
    ∃ access, Op.insert access ∈ ops ∧
      (((new history_size pattern_length degree use_pc page_bytes confidence_threshold).run
        ops).history slot).addr = access.addr := by
  rw [show (new history_size pattern_length degree use_pc page_bytes confidence_threshold).run ops
    = _ from run_new history_size pattern_length degree use_pc page_bytes confidence_threshold ops,
    stateOf_history]
  unfold Layout.slotOf
  split
  next j _ =>
    simp only [Layout.entryOf, List.getD_eq_getElem?_getD]
    cases found : (Op.accesses ops)[j]? with
    | some access => exact .inr ⟨access, mem_accesses (List.getElem?_mem found), rfl⟩
    | none => exact .inl rfl
  next => exact .inl rfl

theorem entry_run (key : DeltaPair) {entry : PatternEntry}
    (present : ((new history_size pattern_length degree use_pc page_bytes confidence_threshold).run
      ops).patternTable key = some entry) :
    Counted entry (successors (allWindows (Op.trainings ops)) key) ∧
      successors (allWindows (Op.trainings ops)) key ≠ [] := by
  rw [patternTable_run] at present
  generalize successors (allWindows (Op.trainings ops)) key = l at present ⊢
  match l, present with
  | first :: rest, present =>
    obtain ⟨found, recorded, counted⟩ := foldl_recordNext_counted (List.cons_ne_nil first rest)
    rw [recorded] at present
    cases present
    exact ⟨counted, List.cons_ne_nil first rest⟩

theorem trained_of_successor (key : DeltaPair) {z : Delta}
    (inside : z ∈ successors (allWindows (Op.trainings ops)) key) :
    ∃ D, Op.updatePatternTable D ∈ ops ∧ (key.first, key.second, z) ∈ windows D := by
  obtain ⟨D, trained, window⟩ := mem_allWindows.mp (mem_successors.mp inside)
  exact ⟨D, mem_trainings trained, window⟩

variable {blk : Nat} (aligned : ∀ op ∈ ops, op.Aligned blk)
include aligned

theorem history_aligned_run (slot : Nat) :
    blk ∣ (((new history_size pattern_length degree use_pc page_bytes confidence_threshold).run
      ops).history slot).addr.toNat := by
  rcases addr_run history_size pattern_length degree use_pc page_bytes confidence_threshold ops
    slot with unused | ⟨access, inserted, same⟩
  · rw [unused]
    exact dvd_zero blk
  · rw [same]
    exact aligned _ inserted

theorem table_aligned_run (key : DeltaPair) {entry : PatternEntry}
    (present : ((new history_size pattern_length degree use_pc page_bytes confidence_threshold).run
      ops).patternTable key = some entry) :
    blk ∣ key.first.toNat ∧ blk ∣ key.second.toNat ∧ ∀ c ∈ entry.counts, blk ∣ c.1.toNat := by
  obtain ⟨counted, nonempty⟩ := entry_run history_size pattern_length degree use_pc page_bytes
    confidence_threshold ops key present
  have trainedDelta : ∀ z ∈ successors (allWindows (Op.trainings ops)) key,
      blk ∣ key.first.toNat ∧ blk ∣ key.second.toNat ∧ blk ∣ z.toNat := by
    intro z inside
    obtain ⟨D, trained, window⟩ := trained_of_successor ops key inside
    obtain ⟨first, second, next⟩ := mem_of_mem_windows window
    exact ⟨aligned _ trained _ first, aligned _ trained _ second, aligned _ trained _ next⟩
  obtain ⟨z, inside⟩ := List.exists_mem_of_ne_nil _ nonempty
  refine ⟨(trainedDelta z inside).1, (trainedDelta z inside).2.1, fun c member => ?_⟩
  exact (trainedDelta c.1 ((counted.mem c.1).mp (List.mem_map_of_mem _ member))).2.2

end Run

theorem setLink_addr (g : GHBHistory) (slot : Nat) (key : CorrelationKey) (link : LinkInfo)
    (i : Nat) : ((g.setLink slot key link).history i).addr = (g.history i).addr := by
  unfold setLink
  by_cases same : i = slot
  · subst same
    simp
  · simp [Function.update_noteq same]

theorem linkAccess_addr (s : GHBHistory) (slot : Nat) (key : CorrelationKey)
    (value : Option (BitVec 64)) (i : Nat) :
    ((s.linkAccess slot key value).history i).addr = (s.history i).addr := by
  cases value <;> simp [linkAccess, assignCorrelation, setIndex, setLink_addr]

theorem insert_addr (g : GHBHistory) (access : AccessInfo) (written : 0 ≤ (g.insert access).1) :
    ((g.insert access).2.history (g.insert access).1.toNat).addr = access.addr := by
  obtain ⟨e, inserted⟩ : ∃ e : GHBHistory, g.insert access = ((e.head : Int), e.writeHead access) := by
    unfold insert at written ⊢
    split_ifs at written ⊢
    · simp at written
    all_goals exact ⟨_, rfl⟩
  rw [inserted, writeHead_eq]
  simp only [linkBoth, linkAccess_addr, stamp, Int.toNat_ofNat, Function.update_same]

theorem buildPattern_head {h : GHBHistory} {idx : Int} {key : CorrelationKey} {d : Delta}
    {rest : List Delta} (found : (h.buildPattern idx key).2 = d :: rest) :
    0 ≤ idx ∧ 0 ≤ ((h.history idx.toNat).links key).prev ∧
      (h.history ((h.history idx.toNat).links key).prev.toNat).seq =
        ((h.history idx.toNat).links key).prevSeq ∧
      d = (h.history idx.toNat).addr -
        (h.history ((h.history idx.toNat).links key).prev.toNat).addr := by
  unfold buildPattern at found
  by_cases outside : idx < 0 ∨ (h.historySize : Int) ≤ idx
  · rw [if_pos outside] at found
    cases found
  rw [if_neg outside] at found
  have inRange : 0 ≤ idx := by omega
  simp only at found
  cases fuel : h.patternLength with
  | zero => simp [fuel, buildLoop] at found
  | succ fuel' =>
    rw [fuel, buildLoop] at found
    simp only at found
    split_ifs at found with unlinked stale
    obtain ⟨rfl, -⟩ := List.cons.inj found
    exact ⟨inRange, by omega, not_not.mp stale, rfl⟩

end GHBHistory

section Predict

variable (sorter : CandidateSort) {h : GHBHistory} {chronological : List Delta}

theorem findPatternMatch_eq_true {predicted : List Delta}
    (matched : h.findPatternMatch sorter chronological = (true, predicted)) :
    ∃ key entry best, lastPair chronological = some key ∧ h.patternTable key = some entry ∧
      best ∈ entry.counts ∧ predicted = [best.1] := by
  unfold GHBHistory.findPatternMatch at matched
  split at matched
  · cases matched
  next key last =>
    split at matched
    · cases matched
    next entry present =>
      split_ifs at matched
      · cases matched
      split at matched
      · cases matched
      next best rest sorted =>
        cases matched
        exact ⟨key, entry, best, last, present,
          (sorter.perm _).subset (sorted ▸ List.mem_cons_self _ _), rfl⟩

theorem predict_of_true (matched : (predict sorter h chronological).1 = true) :
    h.findPatternMatch sorter chronological = predict sorter h chronological := by
  unfold predict at matched ⊢
  split at matched
  · next found => rw [found]
  · cases matched

theorem predict_of_false (missed : (predict sorter h chronological).1 = false) :
    (predict sorter h chronological).2 = fallbackPattern chronological := by
  unfold predict at missed ⊢
  split at missed
  · cases missed
  · rfl

theorem fallbackPattern_eq_cons {d : Delta} {rest : List Delta}
    (predicted : fallbackPattern chronological = d :: rest) :
    chronological.getLast? = some d ∧ d ≠ 0 ∧ rest = [] := by
  unfold fallbackPattern at predicted
  split at predicted
  · cases predicted
  next last found =>
    split_ifs at predicted with nonzero
    cases predicted
    exact ⟨found, nonzero, rfl⟩

/-- `FallbackUsesRecentDeltas` of `ghb_history.test.cc`. -/
example : fallbackPattern [16, 8, 4] = [4] := by decide

theorem mem_predict {d : Delta} (inside : d ∈ (predict sorter h chronological).2) :
    d ∈ chronological ∨
      ∃ key entry, h.patternTable key = some entry ∧ d ∈ entry.counts.map Prod.fst := by
  cases result : (predict sorter h chronological).1
  · rw [predict_of_false sorter result] at inside
    match found : fallbackPattern chronological, inside with
    | d' :: rest, inside =>
      obtain ⟨last, -, rfl⟩ := fallbackPattern_eq_cons found
      rw [List.mem_singleton.mp inside]
      exact .inl (List.mem_of_getLast?_eq_some last)
  · obtain ⟨key, entry, best, -, present, member, same⟩ := findPatternMatch_eq_true sorter
      ((predict_of_true sorter result).trans (Prod.ext result rfl))
    have predicted : d = best.1 := List.mem_singleton.mp (same ▸ inside)
    exact .inr ⟨key, entry, present, predicted ▸ List.mem_map_of_mem _ member⟩

theorem predict_length : (predict sorter h chronological).2.length ≤ 1 := by
  cases result : (predict sorter h chronological).1
  · rw [predict_of_false sorter result]
    match found : fallbackPattern chronological with
    | [] => exact Nat.zero_le _
    | d :: rest => rw [(fallbackPattern_eq_cons found).2.2]; rfl
  · obtain ⟨key, entry, best, -, -, -, same⟩ := findPatternMatch_eq_true sorter
      ((predict_of_true sorter result).trans (Prod.ext result rfl))
    exact (congrArg List.length same).le

end Predict

namespace GHBPrefetcher

variable (sorter : CandidateSort)

theorem helperOps_aligned (p : GHBPrefetcher) (pfi : PrefetchInfo) (divides : p.blkSize ∣ 2 ^ 64)
    {history_size pattern_length degree : Nat} {use_pc : Bool}
    {page_bytes confidence_threshold : Nat} {ops : List Op}
    (helper : p.historyHelper = (GHBHistory.new history_size pattern_length degree use_pc
      page_bytes confidence_threshold).run ops)
    (aligned : ∀ op ∈ ops, op.Aligned p.blkSize) :
    ∀ op ∈ p.helperOps pfi, op.Aligned p.blkSize := by
  have access : (Op.insert (p.accessOf pfi)).Aligned p.blkSize :=
    dvd_blockAddress divides pfi.addr
  unfold helperOps
  by_cases disabled : p.historyHelper.empty
  · simp [disabled]
  simp only [disabled, if_false, Bool.false_eq_true]
  split_ifs
  · simpa using access
  cases chosen : choosePattern (p.historyHelper.insert (p.accessOf pfi)).2
      (p.historyHelper.insert (p.accessOf pfi)).1 with
  | none => simpa using access
  | some found =>
      obtain ⟨key, deltas⟩ := found
      have inserted : (p.historyHelper.insert (p.accessOf pfi)).2 =
          (GHBHistory.new history_size pattern_length degree use_pc page_bytes
            confidence_threshold).run (ops ++ [.insert (p.accessOf pfi)]) := by
        rw [helper, GHBHistory.run_append]
        rfl
      have history := GHBHistory.history_aligned_run history_size pattern_length degree use_pc
        page_bytes confidence_threshold _ (fun op member => by
          rcases List.mem_append.mp member with earlier | here
          · exact aligned op earlier
          · rw [List.mem_singleton.mp here]
            exact access)
      rw [← inserted] at history
      have trained := dvd_buildPattern divides history (p.historyHelper.insert (p.accessOf pfi)).1 key
      rw [choosePattern_deltas chosen] at trained
      simp only [List.mem_cons, List.mem_singleton, List.not_mem_nil, or_false, forall_eq_or_imp,
        forall_eq]
      exact ⟨access, fun d member => trained d (List.mem_reverse.mp member)⟩

theorem candidateLoop_single (pageBytes : Nat) (blockAddr next d : Addr) :
    candidateLoop pageBytes blockAddr next [d] =
      if d = 0 then [] else
      if samePage pageBytes blockAddr (next + d) then [(next + d, 0)] else [] := by
  unfold candidateLoop candidateLoop
  dsimp only

theorem calculatePrefetch_out (p : GHBPrefetcher) (pfi : PrefetchInfo) :
    (p.calculatePrefetch sorter pfi).2 = [] ∨
    ∃ key deltas d, choosePattern (p.historyHelper.insert (p.accessOf pfi)).2
        (p.historyHelper.insert (p.accessOf pfi)).1 = some (key, deltas) ∧
      (predict sorter ((p.historyHelper.insert (p.accessOf pfi)).2.updatePatternTable
        deltas.reverse) deltas.reverse).2 = [d] ∧ d ≠ 0 ∧
      samePage p.pageBytes (blockAddress p.blkSize pfi.addr)
        (blockAddress p.blkSize pfi.addr + d) = true ∧
      (p.calculatePrefetch sorter pfi).2 = [(blockAddress p.blkSize pfi.addr + d, 0)] ∧
      p.helperOps pfi = [.insert (p.accessOf pfi), .updatePatternTable deltas.reverse] := by
  unfold calculatePrefetch
  by_cases disabled : p.historyHelper.empty
  · simp [disabled]
  simp only [disabled, if_false, Bool.false_eq_true]
  split_ifs with negative
  · exact .inl rfl
  cases chosen : choosePattern (p.historyHelper.insert (p.accessOf pfi)).2
      (p.historyHelper.insert (p.accessOf pfi)).1 with
  | none => exact .inl rfl
  | some found =>
    obtain ⟨key, deltas⟩ := found
    have ops : p.helperOps pfi = [.insert (p.accessOf pfi), .updatePatternTable deltas.reverse] := by
      simp only [helperOps, disabled, if_false, Bool.false_eq_true, if_neg negative, chosen]
    dsimp only
    have bound : (predict sorter ((p.historyHelper.insert (p.accessOf pfi)).2.updatePatternTable
        deltas.reverse) deltas.reverse).2.length ≤ 1 := predict_length sorter
    match predicted : (predict sorter ((p.historyHelper.insert (p.accessOf pfi)).2.updatePatternTable
        deltas.reverse) deltas.reverse).2, bound with
    | [], _ => exact .inl rfl
    | [d], _ =>
      simp only [List.isEmpty_cons, Bool.false_eq_true, if_false, candidateLoop_single]
      split_ifs with zero page
      · exact .inl rfl
      · exact .inr ⟨key, deltas, d, rfl, predicted, zero, page, rfl, ops⟩
      · exact .inl rfl

theorem helperOps_of_chosen (p : GHBPrefetcher) (pfi : PrefetchInfo) {key : CorrelationKey}
    {deltas : List Delta} (chosen : choosePattern (p.historyHelper.insert (p.accessOf pfi)).2
      (p.historyHelper.insert (p.accessOf pfi)).1 = some (key, deltas)) :
    p.helperOps pfi = [.insert (p.accessOf pfi), .updatePatternTable deltas.reverse] := by
  have found := choosePattern_deltas chosen
  have written : 0 ≤ (p.historyHelper.insert (p.accessOf pfi)).1 := by
    unfold GHBHistory.buildPattern at found
    split_ifs at found with outside
    · cases found
    · omega
  have enabled : p.historyHelper.empty = false := by
    unfold GHBHistory.insert at written
    unfold GHBHistory.empty
    split_ifs at written with disabled
    · simp at written
    all_goals simpa using disabled
  simp only [helperOps, enabled, if_false, Bool.false_eq_true, if_neg (not_lt.mpr written), chosen]

theorem helper_after_call (p0 : GHBPrefetcher) (events : List PrefetchInfo) (pfi : PrefetchInfo)
    {deltas : List Delta}
    (ops : (p0.run sorter events).helperOps pfi =
      [.insert ((p0.run sorter events).accessOf pfi), .updatePatternTable deltas.reverse]) :
    (((p0.run sorter events).historyHelper.insert ((p0.run sorter events).accessOf pfi)).2.updatePatternTable
      deltas.reverse) = p0.historyHelper.run (p0.runOps sorter (events ++ [pfi])) := by
  rw [runOps_append, GHBHistory.run_append, ← (run_helper sorter p0 events).1, ops]
  rfl

theorem runOps_aligned {blkSize : Nat} (divides : blkSize ∣ 2 ^ 64)
    (pageBytes history_size pattern_length degree : Nat) (use_pc : Bool)
    (confidence_threshold : Nat) (events : List PrefetchInfo) :
    ∀ op ∈ (new blkSize pageBytes history_size pattern_length degree use_pc
      confidence_threshold).runOps sorter events, op.Aligned blkSize := by
  induction events using List.reverseRecOn with
  | nil => simp [runOps]
  | append_singleton events pfi ih =>
    obtain ⟨helper, block, -, -⟩ := run_helper sorter (new blkSize pageBytes history_size
      pattern_length degree use_pc confidence_threshold) events
    have size : (run sorter (new blkSize pageBytes history_size pattern_length degree use_pc
        confidence_threshold) events).blkSize = blkSize := block
    rw [runOps_append]
    intro op member
    rcases List.mem_append.mp member with earlier | here
    · exact ih op earlier
    · have step := helperOps_aligned _ pfi (size.symm ▸ divides) helper
        (fun op earlier => size.symm ▸ ih op earlier)
      exact size ▸ step op here

/-- Over any run from the constructor with a power-of-two block size, every address in the
history and every delta in the table is a multiple of the block size, and each call appends
at most one candidate: a multiple of the block size, on the page of the block, and not the
block itself. -/
theorem calculatePrefetch_aligned (blkSize b pageBytes history_size pattern_length degree : Nat)
    (use_pc : Bool) (confidence_threshold : Nat) (power : blkSize = 2 ^ b) (small : b ≤ 64)
    (events : List PrefetchInfo) :
    let p := (new blkSize pageBytes history_size pattern_length degree use_pc
      confidence_threshold).run sorter events
    (∀ slot, blkSize ∣ (p.historyHelper.history slot).addr.toNat) ∧
    (∀ key entry, p.historyHelper.patternTable key = some entry →
      (blkSize : Int) ∣ key.first.toInt ∧ (blkSize : Int) ∣ key.second.toInt ∧
        ∀ c ∈ entry.counts, (blkSize : Int) ∣ c.1.toInt) ∧
    ∀ pfi, (p.calculatePrefetch sorter pfi).2.length ≤ 1 ∧
      ∀ a ∈ (p.calculatePrefetch sorter pfi).2, blkSize ∣ a.1.toNat ∧
        samePage pageBytes (blockAddress blkSize pfi.addr) a.1 = true ∧
        a.1 ≠ blockAddress blkSize pfi.addr := by
  have divides : blkSize ∣ 2 ^ 64 := power ▸ Nat.pow_dvd_pow 2 small
  have aligned := runOps_aligned sorter divides pageBytes history_size pattern_length degree use_pc
    confidence_threshold
  obtain ⟨helper, block, page, -⟩ := run_helper sorter (new blkSize pageBytes history_size
    pattern_length degree use_pc confidence_threshold) events
  dsimp only
  refine ⟨fun slot => ?_, fun key entry present => ?_, fun pfi => ?_⟩
  · rw [helper]
    exact GHBHistory.history_aligned_run _ _ _ _ _ _ _ (aligned events) slot
  · rw [helper] at present
    simp only [dvd_toInt_iff divides]
    exact GHBHistory.table_aligned_run _ _ _ _ _ _ _ (aligned events) key present
  rcases calculatePrefetch_out sorter ((new blkSize pageBytes history_size pattern_length degree
      use_pc confidence_threshold).run sorter events) pfi with
    empty | ⟨key, deltas, d, chosen, predicted, nonzero, same, out, ops⟩
  · simp [empty]
  rw [block, page] at same
  rw [block] at out
  rw [out]
  refine ⟨le_refl _, fun a member => ?_⟩
  rw [List.mem_singleton.mp member]
  have called : Op.updatePatternTable deltas.reverse ∈ (new blkSize pageBytes history_size
      pattern_length degree use_pc confidence_threshold).runOps sorter (events ++ [pfi]) := by
    rw [runOps_append, ops]
    simp
  have trainedState := helper_after_call sorter _ events pfi ops
  have stride : blkSize ∣ d.toNat := by
    rcases mem_predict sorter (predicted ▸ List.mem_singleton_self d) with
      chain | ⟨key', entry, present, stored⟩
    · exact aligned _ _ called d chain
    · rw [trainedState] at present
      obtain ⟨c, counted, rfl⟩ := List.mem_map.mp stored
      exact (GHBHistory.table_aligned_run _ _ _ _ _ _ _ (aligned (events ++ [pfi])) key'
        present).2.2 c counted
  exact ⟨dvd_toNat_add divides (dvd_blockAddress divides pfi.addr) stride, same,
    fun equal => nonzero (add_right_eq_self.mp equal)⟩

theorem calculatePrefetch_aligned_64 :
    64 = 2 ^ 6 ∧ 6 ≤ 64 ∧
    let p := (new 64 4096 16 4 2 true 0).run CandidateSort.insertion [⟨0x1234, some 0x400⟩]
    (∀ slot, 64 ∣ (p.historyHelper.history slot).addr.toNat) ∧
    (∀ key entry, p.historyHelper.patternTable key = some entry →
      ((64 : Nat) : Int) ∣ key.first.toInt ∧ ((64 : Nat) : Int) ∣ key.second.toInt ∧
        ∀ c ∈ entry.counts, ((64 : Nat) : Int) ∣ c.1.toInt) ∧
    ∀ pfi, (p.calculatePrefetch CandidateSort.insertion pfi).2.length ≤ 1 ∧
      ∀ a ∈ (p.calculatePrefetch CandidateSort.insertion pfi).2, 64 ∣ a.1.toNat ∧
        samePage 4096 (blockAddress 64 pfi.addr) a.1 = true ∧
        a.1 ≠ blockAddress 64 pfi.addr :=
  ⟨rfl, by decide, calculatePrefetch_aligned CandidateSort.insertion 64 6 4096 16 4 2 true 0 rfl
    (by decide) [⟨0x1234, some 0x400⟩]⟩

end GHBPrefetcher

end CachePolicies.Ghb
