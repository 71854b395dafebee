import CachePolicies.Ghb.Abstract

/-! `insert` on a state in the form `stateOf accesses` gives the state `stateOf (accesses ++
[access])`. The eviction moves the window of live accesses by one, which only ever drops the
mapping of the evicted access; the write then stamps the new entry and links it through the
index, and every slot the index names still holds the access that was mapped there. -/

namespace CachePolicies.Ghb

namespace GHBHistory

open Layout

variable {g : GHBHistory} {accesses : List AccessInfo} {key : CorrelationKey}
  {value : BitVec 64}

/-- What `insert` knows of the state after its eviction step: only the links and the index
have moved, every slot but the head still holds its latest access, and the index is that of
the window one access further on. -/
structure Evicted (g : GHBHistory) (accesses : List AccessInfo) (e : GHBHistory) : Prop where
  onlyLinks : OnlyLinks (g.stateOf accesses) e
  history : ∀ slot, slot ≠ accesses.length % g.historySize →
    e.history slot = g.layout.slotOf accesses slot
  lastIndex : e.lastIndex = g.layout.indexWithin accesses (accesses.length + 1)

theorem removeIndexMapping_window (full : g.historySize ≤ accesses.length) {s : GHBHistory}
    (victim : (s.history (accesses.length % g.historySize)).links key =
      g.layout.linkOf accesses key (accesses.length - g.historySize))
    (index : s.lastIndex key = g.layout.indexWithin accesses accesses.length key) :
    (s.removeIndexMapping (accesses.length % g.historySize) key).lastIndex key =
      g.layout.indexWithin accesses (accesses.length + 1) key := by
  funext v
  rw [removeIndexMapping_lastIndex, indexWithin_succ full, victim, index]
  simp only [true_and, ← and_assoc, linkOf_valid_iff]

theorem evicted_stateOf (pos : 0 < g.historySize) :
    Evicted g accesses (let s := g.stateOf accesses; if s.filled then s.evictIndex s.head else s) := by
  by_cases full : g.historySize ≤ accesses.length
  · have filled : (g.stateOf accesses).filled = true := by simp [stateOf, full]
    have victimSlot : (accesses.length - g.historySize) % g.historySize =
        accesses.length % g.historySize := (Nat.mod_eq_sub_mod full).symm
    have victim : (g.stateOf accesses).history (accesses.length % g.historySize) =
        g.layout.entryOf accesses (accesses.length - g.historySize) := by
      rw [← victimSlot]
      exact slotOf_live (by omega) (by simp only [layout_historySize]; omega)
    simp only [filled, if_true, evictIndex, removeIndexMappings]
    set s := g.stateOf accesses
    set slot := accesses.length % g.historySize
    show Evicted g accesses ((s.removeIndexMapping slot .PC).removeIndexMapping slot .Page)
    refine ⟨(onlyLinks_removeIndexMapping _ _ _).trans (onlyLinks_removeIndexMapping _ _ _),
      fun other distinct => ?_, ?_⟩
    · rw [removeIndexMapping_history_of_ne _ _ distinct,
        removeIndexMapping_history_of_ne _ _ distinct]
      rfl
    · funext k v
      cases k with
      | PC =>
        rw [removeIndexMapping_lastIndex, if_neg (by simp)]
        exact congrFun (removeIndexMapping_window full (by rw [victim]; rfl) rfl) v
      | Page =>
        refine congrFun (removeIndexMapping_window full ?_ ?_) v
        · rw [removeIndexMapping_links_of_ne _ _ (by simp), victim]
          rfl
        · funext w
          rw [removeIndexMapping_lastIndex, if_neg (by simp)]
          rfl
  · have filled : (g.stateOf accesses).filled = false := by simp [stateOf, full]
    simp only [filled]
    refine ⟨onlyLinks_update _ _ _, fun _ _ => rfl, ?_⟩
    funext k v
    exact (indexWithin_succ_of_lt (by simp only [layout_historySize]; omega)).symm

def linkAccess (s : GHBHistory) (slot : Nat) (key : CorrelationKey) :
    Option (BitVec 64) → GHBHistory
  | some v => s.assignCorrelation slot key v
  | none => s.setLink slot key {}

/-- `writeHead` before its link steps: the head slot gets the address and the next sequence
number. -/
def stamp (e : GHBHistory) (access : AccessInfo) : GHBHistory :=
  let entry : GHBEntry := { e.history e.head with addr := access.addr, seq := e.sequenceCounter }
  { e with
    history := Function.update e.history e.head entry
    sequenceCounter := (e.sequenceCounter + 1) % 2 ^ 64 }

def linkBoth (e : GHBHistory) (access : AccessInfo) : GHBHistory :=
  ((e.stamp access).linkAccess e.head .PC (e.layout.keyOf .PC access)).linkAccess e.head .Page
    (e.layout.keyOf .Page access)

theorem writeHead_eq (e : GHBHistory) (access : AccessInfo) :
    e.writeHead access =
      { e.linkBoth access with
        head := ((e.linkBoth access).head + 1) % (e.linkBoth access).historySize
        filled := if ((e.linkBoth access).head + 1) % (e.linkBoth access).historySize = 0 then true
          else (e.linkBoth access).filled } := by
  unfold writeHead linkBoth stamp Layout.keyOf layout computePage
  cases e.usePC <;> cases access.pc <;> rfl

theorem onlyLinks_linkAccess (s : GHBHistory) (slot : Nat) (key : CorrelationKey)
    (found : Option (BitVec 64)) : OnlyLinks s (s.linkAccess slot key found) := by
  cases found with
  | none => exact onlyLinks_setLink _ _ _ _
  | some v => exact onlyLinks_assignCorrelation _ _ _ _

theorem linkAccess_history_of_ne (s : GHBHistory) {slot other : Nat} (key : CorrelationKey)
    (found : Option (BitVec 64)) (distinct : other ≠ slot) :
    (s.linkAccess slot key found).history other = s.history other := by
  cases found with
  | none => exact setLink_history_of_ne _ _ _ distinct
  | some v => exact assignCorrelation_history_of_ne _ _ _ distinct

theorem linkAccess_lastIndex (s : GHBHistory) (slot : Nat) (key other : CorrelationKey)
    (found : Option (BitVec 64)) (v : BitVec 64) :
    (s.linkAccess slot key found).lastIndex other v =
      if other = key ∧ found = some v then some slot else s.lastIndex other v := by
  cases found with
  | none => simp [linkAccess]
  | some w => simp [linkAccess, assignCorrelation_lastIndex, eq_comm]

theorem correlationLink_window {s : GHBHistory}
    (history : ∀ slot, slot ≠ accesses.length % g.historySize →
      s.history slot = g.layout.slotOf accesses slot)
    (index : s.lastIndex key = g.layout.indexWithin accesses (accesses.length + 1) key)
    {access : AccessInfo} (present : g.layout.keyOf key access = some value) :
    s.correlationLink key value = g.layout.linkOf (accesses ++ [access]) key accesses.length := by
  have last : g.layout.keyAt (accesses ++ [access]) key accesses.length = some value := by
    simp [keyAt, present]
  unfold correlationLink linkOf
  rw [index, last]
  dsimp only
  rw [lastBefore_append le_rfl]
  unfold indexWithin
  cases found : g.layout.lastBefore accesses key value accesses.length with
  | none => rfl
  | some j =>
    obtain ⟨below, -, -⟩ := lastBefore_eq_some.mp found
    by_cases live : accesses.length + 1 ≤ j + g.historySize
    · have distinct : j % g.historySize ≠ accesses.length % g.historySize :=
        (mod_ne_of_close below (show accesses.length < j + g.layout.historySize by
          simp only [layout_historySize]; omega)).symm
      simp [live, show accesses.length < j + g.historySize by omega, history _ distinct,
        slotOf_live below (show accesses.length ≤ j + g.layout.historySize by
          simp only [layout_historySize]; omega), entryOf]
    · simp [live, show ¬accesses.length < j + g.historySize by omega]

theorem linkAccess_links_self {s : GHBHistory}
    (history : ∀ slot, slot ≠ accesses.length % g.historySize →
      s.history slot = g.layout.slotOf accesses slot)
    (index : s.lastIndex key = g.layout.indexWithin accesses (accesses.length + 1) key)
    (access : AccessInfo) :
    (s.linkAccess (accesses.length % g.historySize) key (g.layout.keyOf key access)).history
        (accesses.length % g.historySize) =
      { s.history (accesses.length % g.historySize) with
        links := Function.update (s.history (accesses.length % g.historySize)).links key
          (g.layout.linkOf (accesses ++ [access]) key accesses.length) } := by
  cases present : g.layout.keyOf key access with
  | none =>
    have absent : g.layout.keyAt (accesses ++ [access]) key accesses.length = none := by
      simp [keyAt, present]
    simp [linkAccess, linkOf_of_keyAt_none absent]
  | some v =>
    simp only [linkAccess, assignCorrelation_history_self,
      correlationLink_window history index present]

theorem onlyLinks_linkBoth (e : GHBHistory) (access : AccessInfo) :
    OnlyLinks (e.stamp access) (e.linkBoth access) :=
  (onlyLinks_linkAccess _ _ _ _).trans (onlyLinks_linkAccess _ _ _ _)

theorem layout_eq_of_onlyLinks {s s' : GHBHistory} (only : OnlyLinks s s') :
    s'.layout = s.layout := by
  simp [layout, only.historySize, only.usePC, only.pageBytes]

theorem linkBoth_history_of_ne (e : GHBHistory) (access : AccessInfo) {slot : Nat}
    (distinct : slot ≠ e.head) : (e.linkBoth access).history slot = e.history slot := by
  simp [linkBoth, linkAccess_history_of_ne _ _ _ distinct, stamp, distinct]

theorem linkBoth_lastIndex (e : GHBHistory) (access : AccessInfo) (key : CorrelationKey)
    (v : BitVec 64) : (e.linkBoth access).lastIndex key v =
      if e.layout.keyOf key access = some v then some e.head else e.lastIndex key v := by
  cases key <;> simp [linkBoth, linkAccess_lastIndex, stamp]

theorem linkBoth_history_head {e : GHBHistory} (evicted : Evicted g accesses e)
    (access : AccessInfo) :
    (e.linkBoth access).history e.head = g.layout.entryOf (accesses ++ [access]) accesses.length := by
  obtain ⟨only, history, index⟩ := evicted
  have head : e.head = accesses.length % g.historySize := only.head
  have stamped : ∀ slot, slot ≠ accesses.length % g.historySize →
      (e.stamp access).history slot = g.layout.slotOf accesses slot := by
    intro slot distinct
    simp only [stamp, head, Function.update_noteq distinct, history slot distinct]
  have pcLinked := linkAccess_links_self stamped
    (show (e.stamp access).lastIndex .PC = _ from congrFun index .PC) access
  have pageLinked := linkAccess_links_self
    (fun slot distinct => (linkAccess_history_of_ne _ _ _ distinct).trans (stamped slot distinct))
    (show ((e.stamp access).linkAccess (accesses.length % g.historySize) .PC
      (g.layout.keyOf .PC access)).lastIndex .Page = _ by
        funext v
        simp [linkAccess_lastIndex, stamp, index]) access
  have layouts : e.layout = g.layout := (layout_eq_of_onlyLinks only).trans rfl
  simp only [linkBoth, layouts, head, pageLinked, pcLinked]
  apply GHBEntry.ext
  · simp [stamp, head, entryOf]
  · funext key
    cases key <;> simp [entryOf]
  · simp [stamp, head, entryOf, only.sequenceCounter, stateOf]

theorem filled_step {m size : Nat} :
    (if (m % size + 1) % size = 0 then true else decide (size ≤ m)) = decide (size ≤ m + 1) := by
  by_cases full : size ≤ m
  · simp [full, show size ≤ m + 1 by omega]
  · rw [Nat.mod_eq_of_lt (show m < size by omega)]
    by_cases last : m + 1 = size
    · simp [last]
    · simp [Nat.mod_eq_of_lt (show m + 1 < size by omega), full, show ¬size ≤ m + 1 by omega]

theorem writeHead_evicted (pos : 0 < g.historySize) {e : GHBHistory}
    (evicted : Evicted g accesses e) (access : AccessInfo) :
    e.writeHead access = g.stateOf (accesses ++ [access]) := by
  have only := evicted.onlyLinks
  have linked := onlyLinks_linkBoth e access
  have head : e.head = accesses.length % g.historySize := only.head
  rw [writeHead_eq]
  refine GHBHistory.ext (linked.historySize.trans only.historySize)
    (linked.patternLength.trans only.patternLength) (linked.degree.trans only.degree)
    (linked.usePC.trans only.usePC) (linked.pageBytes.trans only.pageBytes)
    (linked.confidenceThreshold.trans only.confidenceThreshold) ?_ ?_ ?_ ?_ ?_
    (linked.patternTable.trans only.patternTable)
  · funext slot
    show (e.linkBoth access).history slot = g.layout.slotOf (accesses ++ [access]) slot
    by_cases here : slot = accesses.length % g.historySize
    · rw [here, slotOf_append_self, ← head, linkBoth_history_head evicted]
    · rw [linkBoth_history_of_ne _ _ (head ▸ here), evicted.history slot here,
        slotOf_append_of_ne _ here]
  · funext key v
    show (e.linkBoth access).lastIndex key v = g.layout.indexWithin (accesses ++ [access]) _ key v
    have layouts : e.layout = g.layout := (layout_eq_of_onlyLinks only).trans rfl
    rw [linkBoth_lastIndex, List.length_append, List.length_singleton, indexWithin_append pos,
      layouts, head, evicted.lastIndex]
  · show ((e.linkBoth access).head + 1) % (e.linkBoth access).historySize = _
    rw [linked.head, linked.historySize]
    show (e.head + 1) % e.historySize = _
    simp [head, only.historySize, stateOf, Nat.add_mod]
  · show (if ((e.linkBoth access).head + 1) % (e.linkBoth access).historySize = 0 then true
      else (e.linkBoth access).filled) = _
    rw [linked.head, linked.historySize, linked.filled]
    show (if (e.head + 1) % e.historySize = 0 then true else e.filled) = _
    rw [head, only.historySize, only.filled]
    simp only [stateOf, List.length_append, List.length_singleton]
    exact filled_step
  · show (e.linkBoth access).sequenceCounter = _
    rw [linked.sequenceCounter]
    show (e.sequenceCounter + 1) % 2 ^ 64 = _
    rw [only.sequenceCounter]
    simp only [stateOf, List.length_append, List.length_singleton]
    omega

theorem insert_stateOf (pos : 0 < g.historySize) (access : AccessInfo) :
    (g.stateOf accesses).insert access =
      (((accesses.length % g.historySize : Nat) : Int), g.stateOf (accesses ++ [access])) := by
  have evicted : Evicted g accesses _ := evicted_stateOf pos
  have enabled : (g.stateOf accesses).historySize ≠ 0 := by simp [stateOf]; omega
  simp only [insert, enabled, if_false]
  exact Prod.ext (congrArg (fun slot : Nat => (slot : Int)) evicted.onlyLinks.head)
    (writeHead_evicted pos evicted access)

theorem stateOf_updatePatternTable (chronological : List Delta) :
    (g.stateOf accesses).updatePatternTable chronological =
      (g.updatePatternTable chronological).stateOf accesses := by
  unfold updatePatternTable
  split_ifs <;> rfl

theorem stateOf_nil (pos : 0 < g.historySize) : g.reset.stateOf [] = g.reset := by
  refine GHBHistory.ext rfl rfl rfl rfl rfl rfl ?_ ?_ ?_ ?_ ?_ rfl
  · funext slot
    rfl
  · funext key v
    rfl
  · exact Nat.zero_mod _
  · simp [stateOf, reset]
    omega
  · rfl

def train (g : GHBHistory) (lists : List (List Delta)) : GHBHistory :=
  lists.foldl updatePatternTable g

theorem reset_train (g : GHBHistory) (lists : List (List Delta)) :
    (g.train lists).reset = g.reset := by
  induction lists generalizing g with
  | nil => rfl
  | cons chronological lists ih =>
    rw [train, List.foldl_cons, ← train, ih]
    exact reset_apply g (.updatePatternTable chronological)

theorem historySize_train (g : GHBHistory) (lists : List (List Delta)) :
    (g.train lists).historySize = g.historySize := by
  have sizes := congrArg GHBHistory.historySize (reset_train g lists)
  exact sizes

theorem run_new (history_size pattern_length degree : Nat) (use_pc : Bool)
    (page_bytes confidence_threshold : Nat) (ops : List Op) :
    let fresh := new history_size pattern_length degree use_pc page_bytes confidence_threshold
    fresh.run ops = (fresh.train (Op.trainings ops)).stateOf (Op.accesses ops) := by
  intro fresh
  have pos : 0 < fresh.historySize := by simp [fresh, new]
  have empty : (fresh.train []).stateOf [] = fresh := stateOf_nil pos
  induction ops using List.reverseRecOn with
  | nil => exact empty.symm
  | append_singleton ops op ih =>
    rw [run_append, ih, Op.accesses_append, Op.trainings_append]
    cases op with
    | insert access =>
      exact congrArg Prod.snd (insert_stateOf (by rw [historySize_train]; exact pos) access)
    | updatePatternTable chronological =>
      rw [run_cons, run_nil, apply, stateOf_updatePatternTable]
      simp [Op.recordTraining, Op.recordAccess, train, List.foldl_append]
    | reset =>
      show (_ : GHBHistory).reset = _
      rw [show ((fresh.train (Op.trainings ops)).stateOf (Op.accesses ops)).reset =
        (fresh.train (Op.trainings ops)).reset from rfl, reset_train]
      exact empty.symm

/-- `insert` never reads the pattern table and `updatePatternTable` never reads the ring, so a
run from the constructor is determined by its accesses and its training lists since the last
`reset`, whatever their interleaving and whatever came before that `reset`. -/
theorem run_determined (history_size pattern_length degree : Nat) (use_pc : Bool)
    (page_bytes confidence_threshold : Nat) (ops others : List Op)
    (sameAccesses : Op.accesses ops = Op.accesses others)
    (sameTrainings : Op.trainings ops = Op.trainings others) :
    let fresh := new history_size pattern_length degree use_pc page_bytes confidence_threshold
    fresh.run ops = fresh.run others := by
  intro fresh
  rw [show fresh.run ops = _ from run_new history_size pattern_length degree use_pc page_bytes
      confidence_threshold ops,
    show fresh.run others = _ from run_new history_size pattern_length degree use_pc page_bytes
      confidence_threshold others, sameAccesses, sameTrainings]

theorem run_determined_swapped :
    Op.accesses [.insert { addr := 64 }, .updatePatternTable [64, 64, 64]] =
      Op.accesses [.reset, .updatePatternTable [64, 64, 64], .insert { addr := 64 }] ∧
    Op.trainings [.insert { addr := 64 }, .updatePatternTable [64, 64, 64]] =
      Op.trainings [.reset, .updatePatternTable [64, 64, 64], .insert { addr := 64 }] ∧
    (new 16 4 2 true 4096 2).run [.insert { addr := 64 }, .updatePatternTable [64, 64, 64]] =
      (new 16 4 2 true 4096 2).run [.reset, .updatePatternTable [64, 64, 64], .insert { addr := 64 }] :=
  ⟨by decide, by decide, run_determined 16 4 2 true 4096 2 _ _ (by decide) (by decide)⟩

end GHBHistory

end CachePolicies.Ghb
