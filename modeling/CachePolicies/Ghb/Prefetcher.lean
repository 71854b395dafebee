import CachePolicies.Ghb.Learning

/-! The prefetcher of `ghb.cc`. On each access `calculatePrefetch` inserts the block address
into the history helper, builds a pattern by PC and else by page, trains the table on it
(oldest delta first), predicts from the table or else from the last delta, and emits the
non-zero candidates that stay on the page of the block.

Every call acts on the helper only through `insert` and `updatePatternTable`, so the helper
after any run of the prefetcher is a run of `GHBHistory` over the calls it received. -/

namespace CachePolicies.Ghb

/-- The fields of `PrefetchInfo` that `calculatePrefetch` reads: the address and, when
present, the PC. -/
structure PrefetchInfo where
  addr : Addr
  pc : Option Addr := none
  deriving DecidableEq, Repr

/-- `AddrPriority`: a candidate address and its priority. -/
abbrev AddrPriority := Addr × Int

/-- The members of `GHBPrefetcher`, with the block size and page size of its `Queued` base. -/
structure GHBPrefetcher where
  blkSize : Nat
  pageBytes : Nat
  historySize : Nat
  patternLength : Nat
  degree : Nat
  usePC : Bool
  confidenceThreshold : Nat
  historyHelper : GHBHistory

def blockAddress (blkSize : Nat) (addr : Addr) : Addr :=
  BitVec.ofNat 64 (addr.toNat / blkSize * blkSize)

/-- `samePage` of gem5's base prefetcher: the two page indices, address divided by page size,
agree. -/
def samePage (pageBytes : Nat) (a b : Addr) : Bool :=
  a.toNat / pageBytes == b.toNat / pageBytes

namespace GHBPrefetcher

/-- The constructor: the parameters are clamped as in the initializer list, and the helper
gets `static_cast<unsigned>(pageBytes)`. -/
def new (blkSize pageBytes history_size pattern_length degree : Nat) (use_pc : Bool)
    (confidence_threshold : Nat) : GHBPrefetcher where
  blkSize := blkSize
  pageBytes := pageBytes
  historySize := max 1 history_size
  patternLength := max 1 pattern_length
  degree := max 1 degree
  usePC := use_pc
  confidenceThreshold := min 100 (max 0 confidence_threshold)
  historyHelper := GHBHistory.new (max 1 history_size) (max 1 pattern_length) (max 1 degree)
    use_pc (pageBytes % 2 ^ 32) (min 100 (max 0 confidence_threshold))

end GHBPrefetcher

/-- `buildPattern` by PC and, when that finds nothing, by page: the kind that found a pattern
and its deltas, most recent first. -/
def choosePattern (h : GHBHistory) (idx : Int) : Option (CorrelationKey × List Delta) :=
  match h.buildPattern idx .PC with
  | (true, deltas) => some (.PC, deltas)
  | (false, _) =>
    match h.buildPattern idx .Page with
    | (true, deltas) => some (.Page, deltas)
    | (false, _) => none

/-- `findPatternMatch`, and `fallbackPattern` when it fails: whether the table matched, and the
predicted deltas. -/
def predict (sorter : CandidateSort) (h : GHBHistory) (chronological : List Delta) :
    Bool × List Delta :=
  match h.findPatternMatch sorter chronological with
  | (true, predicted) => (true, predicted)
  | (false, _) => (false, fallbackPattern chronological)

/-- The candidate loop: zero deltas are skipped, the others are added to `next_addr` in turn,
and a candidate off the page of `block_addr` is not emitted. -/
def candidateLoop (pageBytes : Nat) (blockAddr : Addr) : Addr → List Delta → List AddrPriority
  | _, [] => []
  | next, delta :: rest =>
    if delta = 0 then candidateLoop pageBytes blockAddr next rest else
    let next := next + delta
    if samePage pageBytes blockAddr next then (next, 0) :: candidateLoop pageBytes blockAddr next rest
    else candidateLoop pageBytes blockAddr next rest

namespace GHBPrefetcher

variable (sorter : CandidateSort)

def accessOf (p : GHBPrefetcher) (pfi : PrefetchInfo) : AccessInfo where
  addr := blockAddress p.blkSize pfi.addr
  pc := if p.usePC then pfi.pc else none

def calculatePrefetch (p : GHBPrefetcher) (pfi : PrefetchInfo) :
    GHBPrefetcher × List AddrPriority :=
  if p.historyHelper.empty then (p, []) else
  let blockAddr := blockAddress p.blkSize pfi.addr
  let inserted := p.historyHelper.insert (p.accessOf pfi)
  let h := inserted.2
  if inserted.1 < 0 then ({ p with historyHelper := h }, []) else
  match choosePattern h inserted.1 with
  | none => ({ p with historyHelper := h }, [])
  | some (_, deltas) =>
    let chronological := deltas.reverse
    let h := h.updatePatternTable chronological
    let predicted := (predict sorter h chronological).2
    ({ p with historyHelper := h },
      if predicted.isEmpty then [] else candidateLoop p.pageBytes blockAddr blockAddr predicted)

def run (p : GHBPrefetcher) : List PrefetchInfo → GHBPrefetcher
  | [] => p
  | pfi :: rest => run (p.calculatePrefetch sorter pfi).1 rest

/-- Two runs in which the signed arithmetic of a call leaves `int64`. After an access at
`2^63`, an access at `0` with the same PC links back to it, and `buildPattern` subtracts
`int64(2^63) = -2^63` from `0`. After an access at `0`, an access at `2^62` with the same PC
falls back to the stride `2^62`, and the candidate loop adds it to `int64(2^62)`. -/
theorem calculatePrefetch_overflows :
    (let p := (new 64 4096 16 4 2 true 0).run CandidateSort.insertion
      [⟨0x8000000000000000, some 0x400⟩]
    let inserted := p.historyHelper.insert (p.accessOf ⟨0, some 0x400⟩)
    let h := inserted.2
    let link := (h.history 1).links .PC
    inserted.1 = 1 ∧ link.prev = 0 ∧ (h.history 0).seq = link.prevSeq ∧
      choosePattern h 1 = some (.PC, [(h.history 1).addr - (h.history 0).addr]) ∧
      (h.history 1).addr.toInt - (h.history 0).addr.toInt = 2 ^ 63) ∧
    (let p := (new 64 4096 16 4 2 true 0).run CandidateSort.insertion [⟨0, some 0x400⟩]
    let inserted := p.historyHelper.insert (p.accessOf ⟨0x4000000000000000, some 0x400⟩)
    let h := inserted.2
    choosePattern h inserted.1 = some (.PC, [0x4000000000000000]) ∧
      predict CandidateSort.insertion (h.updatePatternTable [0x4000000000000000])
        [0x4000000000000000] = (false, [0x4000000000000000]) ∧
      (blockAddress 64 0x4000000000000000).toInt + (0x4000000000000000 : Delta).toInt = 2 ^ 63) := by
  decide

def helperOps (p : GHBPrefetcher) (pfi : PrefetchInfo) : List Op :=
  if p.historyHelper.empty then [] else
  let inserted := p.historyHelper.insert (p.accessOf pfi)
  if inserted.1 < 0 then [.insert (p.accessOf pfi)] else
  match choosePattern inserted.2 inserted.1 with
  | none => [.insert (p.accessOf pfi)]
  | some (_, deltas) => [.insert (p.accessOf pfi), .updatePatternTable deltas.reverse]

def runOps (p : GHBPrefetcher) : List PrefetchInfo → List Op
  | [] => []
  | pfi :: rest => p.helperOps pfi ++ runOps (p.calculatePrefetch sorter pfi).1 rest

theorem calculatePrefetch_helper (p : GHBPrefetcher) (pfi : PrefetchInfo) :
    (p.calculatePrefetch sorter pfi).1 =
      { p with historyHelper := p.historyHelper.run (p.helperOps pfi) } := by
  unfold calculatePrefetch helperOps
  by_cases disabled : p.historyHelper.empty
  · simp only [disabled, if_true]
    rfl
  · simp only [disabled, if_false, Bool.false_eq_true]
    split_ifs
    · rfl
    · cases choosePattern (p.historyHelper.insert (p.accessOf pfi)).2
        (p.historyHelper.insert (p.accessOf pfi)).1 with
      | none => rfl
      | some found => rfl

theorem run_helper (p : GHBPrefetcher) (events : List PrefetchInfo) :
    (p.run sorter events).historyHelper = p.historyHelper.run (p.runOps sorter events) ∧
      (p.run sorter events).blkSize = p.blkSize ∧ (p.run sorter events).pageBytes = p.pageBytes ∧
      (p.run sorter events).usePC = p.usePC := by
  induction events generalizing p with
  | nil => exact ⟨rfl, rfl, rfl, rfl⟩
  | cons pfi rest ih =>
    obtain ⟨helper, block, page, pc⟩ := ih (p.calculatePrefetch sorter pfi).1
    simp only [run, runOps]
    rw [calculatePrefetch_helper] at helper block page pc ⊢
    exact ⟨helper.trans (GHBHistory.run_append _ _ _).symm, block, page, pc⟩

theorem runOps_append (p : GHBPrefetcher) (events : List PrefetchInfo) (pfi : PrefetchInfo) :
    p.runOps sorter (events ++ [pfi]) =
      p.runOps sorter events ++ (p.run sorter events).helperOps pfi := by
  induction events generalizing p with
  | nil => simp [runOps, run]
  | cons first rest ih => simp [runOps, run, ih]

end GHBPrefetcher

end CachePolicies.Ghb
