import CachePolicies.Ghb.Refinement

/-! What the pattern table holds after a run: for each pair of deltas, the entry is the result
of recording, in order, the successor of every window that starts with the pair. Its counts
are the exact occurrence counts reduced modulo `2^32`, the width of their `uint32_t`, and
`findPatternMatch` picks a most counted successor as long as the pair was seen fewer than
`2^32` times. -/

namespace CachePolicies.Ghb

def windows : List Delta → List (Delta × Delta × Delta)
  | first :: second :: next :: rest => (first, second, next) :: windows (second :: next :: rest)
  | _ => []

def allWindows (lists : List (List Delta)) : List (Delta × Delta × Delta) :=
  lists.flatMap windows

def successors (ws : List (Delta × Delta × Delta)) (key : DeltaPair) : List Delta :=
  ws.filterMap fun w => if (⟨w.1, w.2.1⟩ : DeltaPair) = key then some w.2.2 else none

def tripleCount (lists : List (List Delta)) (x y z : Delta) : Nat :=
  (allWindows lists).count (x, y, z)

def pairCount (lists : List (List Delta)) (x y : Delta) : Nat :=
  (successors (allWindows lists) ⟨x, y⟩).length

def countOf : List (Delta × Nat) → Delta → Nat
  | [], _ => 0
  | (delta, count) :: rest, z => if delta = z then count else countOf rest z

def recordWindow (table : DeltaPair → Option PatternEntry) (w : Delta × Delta × Delta) :
    DeltaPair → Option PatternEntry :=
  recordTriple table w.1 w.2.1 w.2.2

def recordNext (entry : Option PatternEntry) (next : Delta) : Option PatternEntry :=
  some ((entry.getD {}).record next)

theorem windows_replicate (n : Nat) (delta : Delta) :
    windows (List.replicate (n + 2) delta) = List.replicate n (delta, delta, delta) := by
  induction n with
  | zero => rfl
  | succ n ih =>
    rw [List.replicate_succ, List.replicate_succ]
    exact congrArg _ ih

theorem tripleCount_eq_count (lists : List (List Delta)) (x y z : Delta) :
    tripleCount lists x y z = (successors (allWindows lists) ⟨x, y⟩).count z := by
  unfold tripleCount successors
  induction allWindows lists with
  | nil => rfl
  | cons w ws ih =>
    obtain ⟨a, b, c⟩ := w
    by_cases same : a = x ∧ b = y
    · obtain ⟨rfl, rfl⟩ := same
      simp [List.count_cons, ih]
    · have different : (⟨a, b⟩ : DeltaPair) ≠ ⟨x, y⟩ := fun equal =>
        same ⟨congrArg DeltaPair.first equal, congrArg DeltaPair.second equal⟩
      simp only [List.count_cons, List.filterMap_cons, if_neg different, ih]
      simp only [beq_iff_eq, Prod.mk.injEq]
      rw [if_neg (fun all => same ⟨all.1, all.2.1⟩), Nat.add_zero]

theorem recordWindows_eq_foldl (table : DeltaPair → Option PatternEntry) (ds : List Delta) :
    recordWindows table ds = (windows ds).foldl recordWindow table := by
  induction ds generalizing table with
  | nil => rfl
  | cons first rest ih =>
    match rest, ih with
    | [], _ => rfl
    | [_], _ => rfl
    | second :: next :: more, ih =>
      simp only [recordWindows, windows, List.foldl_cons]
      exact ih _

theorem updatePatternTable_patternTable (g : GHBHistory) (chronological : List Delta) :
    (g.updatePatternTable chronological).patternTable =
      (windows chronological).foldl recordWindow g.patternTable := by
  unfold GHBHistory.updatePatternTable
  split_ifs with short
  · match chronological, short with
    | [], _ | [_], _ | [_, _], _ => rfl
  · exact recordWindows_eq_foldl _ _

theorem train_patternTable (g : GHBHistory) (lists : List (List Delta)) :
    (g.train lists).patternTable = (allWindows lists).foldl recordWindow g.patternTable := by
  induction lists generalizing g with
  | nil => rfl
  | cons chronological lists ih =>
    rw [GHBHistory.train, List.foldl_cons, ← GHBHistory.train, ih,
      updatePatternTable_patternTable, ← List.foldl_append]
    rfl

theorem foldl_recordWindow_apply (table : DeltaPair → Option PatternEntry)
    (ws : List (Delta × Delta × Delta)) (key : DeltaPair) :
    ws.foldl recordWindow table key = (successors ws key).foldl recordNext (table key) := by
  induction ws generalizing table with
  | nil => rfl
  | cons w ws ih =>
    rw [List.foldl_cons, ih]
    by_cases own : (⟨w.1, w.2.1⟩ : DeltaPair) = key
    · subst own
      simp [successors, recordWindow, recordTriple, recordNext]
    · simp [successors, recordWindow, recordTriple, own, Function.update_noteq (Ne.symm own)]

theorem foldl_recordNext_some (l : List Delta) (entry : PatternEntry) :
    l.foldl recordNext (some entry) = some (l.foldl PatternEntry.record entry) := by
  induction l generalizing entry with
  | nil => rfl
  | cons next l ih => exact ih _

section Counts

variable {counts : List (Delta × Nat)} {next z : Delta}

theorem countOf_bumpCount :
    countOf (bumpCount counts next) z =
      if z = next then (countOf counts z + 1) % 2 ^ 32 else countOf counts z := by
  induction counts with
  | nil =>
    simp only [bumpCount, countOf]
    by_cases same : z = next
    · simp [same]
    · simp [same, Ne.symm same]
  | cons head rest ih =>
    obtain ⟨delta, count⟩ := head
    by_cases here : delta = next
    · subst here
      by_cases same : z = delta <;> simp [bumpCount, countOf, same, Ne.symm]
    · by_cases same : z = next
      · subst same
        simp [bumpCount, countOf, here, ih]
      · simp [bumpCount, countOf, here, same, ih]

theorem mem_keys_bumpCount :
    z ∈ (bumpCount counts next).map Prod.fst ↔ z ∈ counts.map Prod.fst ∨ z = next := by
  induction counts with
  | nil => simp [bumpCount]
  | cons head rest ih =>
    obtain ⟨delta, count⟩ := head
    by_cases here : delta = next
    · subst here
      simp only [bumpCount, if_true, List.map_cons, List.mem_cons]
      constructor
      · exact .inl
      · rintro (inside | rfl)
        · exact inside
        · exact .inl rfl
    · simp only [bumpCount, here, if_false, List.map_cons, List.mem_cons, ih]
      tauto

theorem nodup_keys_bumpCount (distinct : (counts.map Prod.fst).Nodup) :
    ((bumpCount counts next).map Prod.fst).Nodup := by
  induction counts with
  | nil => simp [bumpCount]
  | cons head rest ih =>
    obtain ⟨delta, count⟩ := head
    simp only [List.map_cons, List.nodup_cons] at distinct
    by_cases here : delta = next
    · simpa [bumpCount, here] using distinct
    · simp only [bumpCount, if_neg here, List.map_cons, List.nodup_cons, mem_keys_bumpCount]
      exact ⟨fun inside => inside.elim distinct.1 here, ih distinct.2⟩

theorem countOf_of_mem (distinct : (counts.map Prod.fst).Nodup) {candidate : Delta × Nat}
    (inside : candidate ∈ counts) : countOf counts candidate.1 = candidate.2 := by
  induction counts with
  | nil => simp at inside
  | cons head rest ih =>
    obtain ⟨delta, count⟩ := head
    simp only [List.map_cons, List.nodup_cons] at distinct
    rcases List.mem_cons.mp inside with rfl | later
    · simp [countOf]
    · have other : delta ≠ candidate.1 := fun same =>
        distinct.1 (by rw [same]; exact List.mem_map_of_mem Prod.fst later)
      simp [countOf, other, ih distinct.2 later]

end Counts

/-- The entry has recorded the successors `l`: its counts and total are their occurrence
counts modulo `2^32`, and each successor has one place in the association list. -/
structure Counted (entry : PatternEntry) (l : List Delta) : Prop where
  total : entry.total = l.length % 2 ^ 32
  count : ∀ z, countOf entry.counts z = l.count z % 2 ^ 32
  mem : ∀ z, z ∈ entry.counts.map Prod.fst ↔ z ∈ l
  nodup : (entry.counts.map Prod.fst).Nodup

theorem counted_empty : Counted {} [] :=
  ⟨rfl, fun _ => rfl, fun _ => by simp, List.nodup_nil⟩

theorem Counted.record {entry : PatternEntry} {l : List Delta} (counted : Counted entry l)
    (next : Delta) : Counted (entry.record next) (l ++ [next]) where
  total := by
    simp only [PatternEntry.record, counted.total, List.length_append, List.length_singleton]
    omega
  count z := by
    simp only [PatternEntry.record, countOf_bumpCount, counted.count, List.count_append,
      List.count_singleton]
    by_cases same : z = next
    · simp only [same, if_true, beq_self_eq_true]
      omega
    · simp [same, Ne.symm same]
  mem z := by
    simp only [PatternEntry.record, mem_keys_bumpCount, counted.mem, List.mem_append,
      List.mem_singleton]
  nodup := nodup_keys_bumpCount counted.nodup

theorem counted_foldl (l : List Delta) : Counted (l.foldl PatternEntry.record {}) l := by
  induction l using List.reverseRecOn with
  | nil => exact counted_empty
  | append_singleton l next ih =>
    rw [List.foldl_append, List.foldl_cons, List.foldl_nil]
    exact ih.record next

theorem successors_replicate (n : Nat) (x y z : Delta) :
    successors (List.replicate n (x, y, z)) ⟨x, y⟩ = List.replicate n z := by
  induction n with
  | zero => rfl
  | succ n ih =>
    rw [List.replicate_succ, List.replicate_succ, ← ih]
    simp [successors]

theorem lastPair_of_two_le {q : List Delta} (two : 2 ≤ q.length) :
    lastPair q = some ⟨q.getD (q.length - 2) 0, q.getD (q.length - 1) 0⟩ := by
  obtain ⟨r, reversed⟩ : ∃ r, q.reverse = r := ⟨_, rfl⟩
  match r, reversed with
  | last :: before :: rest, reversed =>
    obtain rfl : q = rest.reverse ++ [before, last] := by
      rw [← List.reverse_reverse q, reversed]
      simp
    simp [lastPair, List.getElem_append_right]
  | [], reversed => simp [List.reverse_eq_nil_iff.mp reversed] at two
  | [_], reversed =>
    have lengths := congrArg List.length reversed
    simp only [List.length_reverse, List.length_singleton] at lengths
    omega

theorem lastPair_of_lt_two {q : List Delta} (short : q.length < 2) : lastPair q = none := by
  match q, short with
  | [], _ | [_], _ => rfl

namespace GHBHistory

theorem patternTable_run (history_size pattern_length degree : Nat) (use_pc : Bool)
    (page_bytes confidence_threshold : Nat) (ops : List Op) (key : DeltaPair) :
    ((new history_size pattern_length degree use_pc page_bytes confidence_threshold).run
      ops).patternTable key =
      (successors (allWindows (Op.trainings ops)) key).foldl recordNext none := by
  rw [show (new history_size pattern_length degree use_pc page_bytes confidence_threshold).run ops
    = _ from run_new history_size pattern_length degree use_pc page_bytes confidence_threshold ops]
  exact congrFun (train_patternTable _ _) key |>.trans (foldl_recordWindow_apply _ _ _)

theorem foldl_recordNext_counted {l : List Delta} (nonempty : l ≠ []) :
    ∃ entry, l.foldl recordNext none = some entry ∧ Counted entry l := by
  match l, nonempty with
  | first :: rest, _ => exact ⟨_, foldl_recordNext_some rest _, counted_foldl (first :: rest)⟩

section Match

variable (sorter : CandidateSort) {s : GHBHistory} {q : List Delta} {key : DeltaPair}

theorem findPatternMatch_of_total_zero (last : lastPair q = some key) {entry : PatternEntry}
    (present : s.patternTable key = some entry) (zero : entry.total = 0) :
    s.findPatternMatch sorter q = (false, []) := by
  simp [findPatternMatch, last, present, zero]

theorem findPatternMatch_of_counted (last : lastPair q = some key) {entry : PatternEntry}
    {l : List Delta} (present : s.patternTable key = some entry) (counted : Counted entry l)
    (fewer : l.length < 2 ^ 32) (nonempty : l ≠ []) :
    ∃ best, s.findPatternMatch sorter q = (true, [best]) ∧ ∀ z, l.count z ≤ l.count best := by
  have total : entry.total ≠ 0 := by
    rw [counted.total, Nat.mod_eq_of_lt fewer]
    exact List.length_pos.mpr nonempty |>.ne'
  obtain ⟨first, first_mem⟩ := List.exists_mem_of_ne_nil l nonempty
  obtain ⟨best, rest, sorted⟩ : ∃ best rest, sorter.sort entry.counts = best :: rest := by
    obtain ⟨c, c_mem, -⟩ := List.mem_map.mp ((counted.mem first).mpr first_mem)
    match sorted : sorter.sort entry.counts with
    | [] => exact absurd ((sorter.perm _).symm.subset c_mem) (by simp [sorted])
    | best :: rest => exact ⟨best, rest, rfl⟩
  have ranked : ∀ c ∈ entry.counts, c.2 ≤ best.2 := by
    intro c c_mem
    have descending := sorter.descending entry.counts
    rw [sorted] at descending
    rcases List.mem_cons.mp (sorted ▸ (sorter.perm _).symm.subset c_mem) with rfl | later
    · exact le_refl _
    · exact List.rel_of_pairwise_cons descending later
  have best_mem : best ∈ entry.counts := (sorter.perm _).subset (sorted ▸ List.mem_cons_self _ _)
  refine ⟨best.1, by simp [findPatternMatch, last, present, total, sorted], fun z => ?_⟩
  by_cases inside : z ∈ l
  · obtain ⟨c, c_mem, rfl⟩ := List.mem_map.mp ((counted.mem z).mpr inside)
    have counts_c := counted.count c.1
    have counts_best := counted.count best.1
    rw [countOf_of_mem counted.nodup c_mem] at counts_c
    rw [countOf_of_mem counted.nodup best_mem] at counts_best
    have := List.count_le_length c.1 l
    have := List.count_le_length best.1 l
    rw [Nat.mod_eq_of_lt (by omega)] at counts_c counts_best
    have := ranked c c_mem
    omega
  · rw [List.count_eq_zero_of_not_mem inside]
    exact Nat.zero_le _

theorem findPatternMatch_of_successors (last : lastPair q = some key) {l : List Delta}
    (recorded : s.patternTable key = l.foldl recordNext none) (fewer : l.length < 2 ^ 32) :
    (l = [] → s.findPatternMatch sorter q = (false, [])) ∧
    (l ≠ [] → ∃ best, s.findPatternMatch sorter q = (true, [best]) ∧
      ∀ z, l.count z ≤ l.count best) := by
  match l, recorded with
  | [], recorded => exact ⟨fun _ => by simp [findPatternMatch, last, recorded], fun empty =>
      absurd rfl empty⟩
  | first :: rest, recorded =>
    obtain ⟨entry, found, counted⟩ := foldl_recordNext_counted (List.cons_ne_nil first rest)
    exact ⟨fun empty => absurd empty (List.cons_ne_nil _ _),
      findPatternMatch_of_counted sorter last (recorded.trans found) counted fewer⟩

end Match

/-- As long as the last pair of the query was seen fewer than `2^32` times since the last
`reset`, `findPatternMatch` predicts exactly when some successor of the pair was seen, and then
a single most seen successor. -/
theorem findPatternMatch_run (sorter : CandidateSort) (history_size pattern_length degree : Nat)
    (use_pc : Bool) (page_bytes confidence_threshold : Nat) (ops : List Op) (q : List Delta)
    (seenFewer : 2 ≤ q.length → pairCount (Op.trainings ops) (q.getD (q.length - 2) 0)
      (q.getD (q.length - 1) 0) < 2 ^ 32) :
    let s := (new history_size pattern_length degree use_pc page_bytes confidence_threshold).run ops
    let cnt := tripleCount (Op.trainings ops) (q.getD (q.length - 2) 0) (q.getD (q.length - 1) 0)
    ((s.findPatternMatch sorter q).1 = true ↔ 2 ≤ q.length ∧ ∃ z, 0 < cnt z) ∧
    ((s.findPatternMatch sorter q).1 = true →
      ∃ best, (s.findPatternMatch sorter q).2 = [best] ∧ ∀ z, cnt z ≤ cnt best) ∧
    ((s.findPatternMatch sorter q).1 = false → (s.findPatternMatch sorter q).2 = []) := by
  intro s cnt
  by_cases two : 2 ≤ q.length
  · have recorded := patternTable_run history_size pattern_length degree use_pc page_bytes
      confidence_threshold ops ⟨q.getD (q.length - 2) 0, q.getD (q.length - 1) 0⟩
    have fewer := seenFewer two
    simp only [cnt, tripleCount_eq_count]
    rw [pairCount] at fewer
    generalize successors (allWindows (Op.trainings ops))
      ⟨q.getD (q.length - 2) 0, q.getD (q.length - 1) 0⟩ = l at recorded fewer ⊢
    obtain ⟨none_of_empty, some_of_nonempty⟩ :=
      findPatternMatch_of_successors sorter (lastPair_of_two_le two) recorded fewer
    by_cases empty : l = []
    · simp [s, none_of_empty empty, empty]
    · obtain ⟨best, found, most⟩ := some_of_nonempty empty
      obtain ⟨first, first_mem⟩ := List.exists_mem_of_ne_nil _ empty
      rw [show s = _ from rfl, found]
      exact ⟨iff_of_true rfl ⟨two, first, List.count_pos_iff.mpr first_mem⟩,
        fun _ => ⟨best, rfl, most⟩, fun wrong => nomatch wrong⟩
  · have none_found : s.findPatternMatch sorter q = (false, []) := by
      simp [findPatternMatch, lastPair_of_lt_two (not_le.mp two)]
    simp [none_found, two]

theorem findPatternMatch_run_trained :
    (2 ≤ [(8 : Delta), 8].length → pairCount (Op.trainings [.updatePatternTable [8, 8, 32, 8, 8, 32]])
      ([(8 : Delta), 8].getD ([(8 : Delta), 8].length - 2) 0)
      ([(8 : Delta), 8].getD ([(8 : Delta), 8].length - 1) 0) < 2 ^ 32) ∧
    let s := (new 16 4 2 true 4096 2).run [.updatePatternTable [8, 8, 32, 8, 8, 32]]
    let cnt := tripleCount (Op.trainings [.updatePatternTable [8, 8, 32, 8, 8, 32]])
      ([(8 : Delta), 8].getD ([(8 : Delta), 8].length - 2) 0)
      ([(8 : Delta), 8].getD ([(8 : Delta), 8].length - 1) 0)
    ((s.findPatternMatch CandidateSort.insertion [8, 8]).1 = true ↔
        2 ≤ [(8 : Delta), 8].length ∧ ∃ z, 0 < cnt z) ∧
    ((s.findPatternMatch CandidateSort.insertion [8, 8]).1 = true →
      ∃ best, (s.findPatternMatch CandidateSort.insertion [8, 8]).2 = [best] ∧
        ∀ z, cnt z ≤ cnt best) ∧
    ((s.findPatternMatch CandidateSort.insertion [8, 8]).1 = false →
      (s.findPatternMatch CandidateSort.insertion [8, 8]).2 = []) :=
  ⟨fun _ => by decide, findPatternMatch_run CandidateSort.insertion 16 4 2 true 4096 2
    [.updatePatternTable [8, 8, 32, 8, 8, 32]] [8, 8] (fun _ => by decide)⟩

/-- `PatternTablePredictsMostLikelyDelta` of `ghb_history.test.cc`, for the pair whose successor
is unique. -/
example :
    ((new 16 4 2 true 64 50).updatePatternTable [64, 64, 64, 32, 32, 32]).findPatternMatch
      CandidateSort.insertion [32, 32] = (true, [32]) := by
  decide

theorem findPatternMatch_wrapped_pair :
    let ops := [Op.updatePatternTable (List.replicate (2 ^ 32 + 2) 0)]
    2 ≤ ([0, 0] : List Delta).length ∧ 0 < tripleCount (Op.trainings ops) 0 0 0 ∧
      (((new 16 4 2 true 4096 2).run ops).findPatternMatch CandidateSort.insertion [0, 0]).1 =
        false := by
  intro ops
  have windowsOf : allWindows (Op.trainings ops) = List.replicate (2 ^ 32) (0, 0, 0) := by
    rw [show Op.trainings ops = [List.replicate (2 ^ 32 + 2) 0] from rfl]
    simp only [allWindows, List.flatMap_cons, List.flatMap_nil, List.append_nil,
      windows_replicate]
  have recorded := patternTable_run 16 4 2 true 4096 2 ops ⟨0, 0⟩
  rw [windowsOf, successors_replicate] at recorded
  obtain ⟨entry, found, counted⟩ :=
    foldl_recordNext_counted (List.replicate_succ_ne_nil (2 ^ 32 - 1) (0 : Delta))
  have wrapped : entry.total = 0 := by
    rw [counted.total, List.length_replicate, Nat.sub_add_cancel Nat.one_le_two_pow, Nat.mod_self]
  have full : 2 ^ 32 - 1 + 1 = 2 ^ 32 := Nat.sub_add_cancel Nat.one_le_two_pow
  rw [full] at found
  refine ⟨by decide, ?_, ?_⟩
  · rw [tripleCount, windowsOf, List.count_replicate_self]
    exact Nat.two_pow_pos 32
  · rw [findPatternMatch_of_total_zero CandidateSort.insertion
      (show lastPair [0, 0] = some ⟨0, 0⟩ from rfl) (recorded.trans found) wrapped]

end GHBHistory

end CachePolicies.Ghb
