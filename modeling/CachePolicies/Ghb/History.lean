import Mathlib

/-! The history helper of `ghb_history.cc`: a circular log of block addresses in which every
entry links, per correlation key, to the previous entry with the same key value, and an index
from key values to the newest slot holding them.

`std::vector`, `std::array` and `std::unordered_map` are total functions here: the vector of
`historySize` entries is a function on slots that is only read and written below
`historySize`, the two-element link array is a function on `CorrelationKey`, and a map is a
function into `Option`. `uint64_t` and `uint32_t` counters are `Nat` reduced modulo `2 ^ 64` and
`2 ^ 32` where they are incremented. -/

namespace CachePolicies.Ghb

/-- gem5's `Addr`, an unsigned 64-bit address. -/
abbrev Addr := BitVec 64

/-- An `int64_t` delta as its two's-complement bit pattern; `BitVec.toInt` reads it signed. -/
abbrev Delta := BitVec 64

inductive CorrelationKey
  | PC
  | Page
  deriving DecidableEq, Repr

structure AccessInfo where
  addr : Addr := 0
  pc : Option Addr := none
  deriving DecidableEq, Repr, Inhabited

structure LinkInfo where
  prev : Int := -1
  prevSeq : Nat := 0
  keyValue : BitVec 64 := 0
  keyValid : Bool := false
  deriving DecidableEq, Repr

@[ext] structure GHBEntry where
  addr : Addr := 0
  links : CorrelationKey → LinkInfo := fun _ => {}
  seq : Nat := 0

structure DeltaPair where
  first : Delta := 0
  second : Delta := 0
  deriving DecidableEq, Repr

/-- `counts` is the `unordered_map<int64_t, uint32_t>` as an association list in insertion
order; `findPatternMatch` reads it only through a sort, so the order is not observable. -/
structure PatternEntry where
  counts : List (Delta × Nat) := []
  total : Nat := 0
  deriving DecidableEq, Repr

/-- The members of `GHBHistory`. `lastIndex` stores slots, which the code only ever takes from
`head`, so they are kept as `Nat`. -/
@[ext] structure GHBHistory where
  historySize : Nat
  patternLength : Nat
  degree : Nat
  usePC : Bool
  pageBytes : Nat
  confidenceThreshold : Nat
  history : Nat → GHBEntry
  lastIndex : CorrelationKey → BitVec 64 → Option Nat
  head : Nat
  filled : Bool
  sequenceCounter : Nat
  patternTable : DeltaPair → Option PatternEntry

namespace GHBHistory

def new (history_size pattern_length degree : Nat) (use_pc : Bool)
    (page_bytes confidence_threshold : Nat) : GHBHistory where
  historySize := max 1 history_size
  patternLength := max 1 pattern_length
  degree := max 1 degree
  usePC := use_pc
  pageBytes := max 1 page_bytes
  confidenceThreshold := min 100 confidence_threshold
  history := fun _ => {}
  lastIndex := fun _ _ => none
  head := 0
  filled := false
  sequenceCounter := 1
  patternTable := fun _ => none

def empty (g : GHBHistory) : Bool := g.historySize == 0

def reset (g : GHBHistory) : GHBHistory :=
  { g with
    history := fun _ => {}
    lastIndex := fun _ _ => none
    head := 0
    filled := false
    sequenceCounter := 1
    patternTable := fun _ => none }

def computePage (g : GHBHistory) (addr : Addr) : BitVec 64 :=
  addr / BitVec.ofNat 64 g.pageBytes

def setLink (g : GHBHistory) (slot : Nat) (key : CorrelationKey) (link : LinkInfo) :
    GHBHistory :=
  let entry := g.history slot
  let linked : GHBEntry := { entry with links := Function.update entry.links key link }
  { g with history := Function.update g.history slot linked }

def setIndex (g : GHBHistory) (key : CorrelationKey) (value : BitVec 64) (slot : Option Nat) :
    GHBHistory :=
  let index := g.lastIndex key
  { g with lastIndex := Function.update g.lastIndex key (Function.update index value slot) }

def removeIndexMapping (g : GHBHistory) (slot : Nat) (key : CorrelationKey) : GHBHistory :=
  let link := (g.history slot).links key
  if link.keyValid then
    let g := if g.lastIndex key link.keyValue = some slot then
      g.setIndex key link.keyValue none else g
    g.setLink slot key { link with keyValid := false }
  else g

def removeIndexMappings (g : GHBHistory) (slot : Nat) : GHBHistory :=
  (g.removeIndexMapping slot .PC).removeIndexMapping slot .Page

def evictIndex (g : GHBHistory) (slot : Nat) : GHBHistory :=
  g.removeIndexMappings slot

/-- The link `assignCorrelation` writes for `value`: to the slot `lastIndex` maps it to, if
any, stamped with that slot's current sequence number. -/
def correlationLink (g : GHBHistory) (key : CorrelationKey) (value : BitVec 64) : LinkInfo :=
  match g.lastIndex key value with
  | some p => { prev := p, prevSeq := (g.history p).seq, keyValue := value, keyValid := true }
  | none => { prev := -1, prevSeq := 0, keyValue := value, keyValid := true }

/-- `assignCorrelation(history[slot], slot, key, value)`: the entry passed by reference is
always `history[slot]`. -/
def assignCorrelation (g : GHBHistory) (slot : Nat) (key : CorrelationKey)
    (value : BitVec 64) : GHBHistory :=
  (g.setLink slot key (g.correlationLink key value)).setIndex key value (some slot)

/-- The body of `insert` after the eviction: the access goes to slot `head`, gets the next
sequence number and its links, and `head` advances. -/
def writeHead (g : GHBHistory) (access : AccessInfo) : GHBHistory :=
  let slot := g.head
  let entry : GHBEntry := { g.history slot with addr := access.addr, seq := g.sequenceCounter }
  let g := { g with
    history := Function.update g.history slot entry
    sequenceCounter := (g.sequenceCounter + 1) % 2 ^ 64 }
  let g := match g.usePC, access.pc with
    | true, some pc => g.assignCorrelation slot .PC pc
    | _, _ => g.setLink slot .PC {}
  let g := g.assignCorrelation slot .Page (g.computePage access.addr)
  let head := (g.head + 1) % g.historySize
  { g with head := head, filled := if head = 0 then true else g.filled }

def insert (g : GHBHistory) (access : AccessInfo) : Int × GHBHistory :=
  if g.historySize = 0 then (-1, g) else
  let g := if g.filled then g.evictIndex g.head else g
  (g.head, g.writeHead access)

/-- `head = (head + 1) % historySize` on the code's types: `head + 1` in `int32_t`, wrapping at
`2^31 - 1` as the compiled code does, the `%` in `unsigned`, and the result stored back in the
`int32_t` head. `writeHead` keeps the head as a `Nat`, which is this head while the capacity is
below `2^31`. -/
def advanceHead (head : BitVec 32) (historySize : Nat) : BitVec 32 :=
  (head + 1) % BitVec.ofNat 32 historySize

private theorem one_toNat : (1 : BitVec 32).toNat = 1 := rfl

def headAfter (historySize : Nat) : Nat → BitVec 32
  | 0 => 0
  | m + 1 => advanceHead (headAfter historySize m) historySize

theorem headAfter_toNat {historySize : Nat} (pos : 0 < historySize)
    (small : historySize < 2 ^ 31) (m : Nat) :
    (headAfter historySize m).toNat = m % historySize := by
  induction m with
  | zero => rfl
  | succ m ih =>
    have below := Nat.mod_lt m pos
    rw [headAfter, advanceHead, BitVec.toNat_umod, BitVec.toNat_add, ih, one_toNat,
      BitVec.toNat_ofNat, Nat.mod_eq_of_lt (by omega : m % historySize + 1 < 2 ^ 32),
      Nat.mod_eq_of_lt (by omega : historySize < 2 ^ 32), Nat.mod_add_mod]

theorem headAfter_of_lt {historySize m : Nat} (fits : historySize < 2 ^ 32)
    (below : m < historySize) : headAfter historySize m = BitVec.ofNat 32 m := by
  induction m with
  | zero => rfl
  | succ m ih =>
    rw [headAfter, ih (by omega)]
    apply BitVec.eq_of_toNat_eq
    rw [advanceHead, BitVec.toNat_umod, BitVec.toNat_add, one_toNat, BitVec.toNat_ofNat,
      BitVec.toNat_ofNat, BitVec.toNat_ofNat, Nat.mod_eq_of_lt (by omega : historySize < 2 ^ 32),
      Nat.mod_eq_of_lt (by omega : m < 2 ^ 32), Nat.mod_eq_of_lt (by omega : m + 1 < 2 ^ 32),
      Nat.mod_eq_of_lt below]

/-- At capacity `2^31 + 1` the head after `2^31` inserts has wrapped to the negative slot
`-2^31`, where access `2^31` belongs in slot `2^31 mod (2^31 + 1) = 2^31`. -/
theorem headAfter_wraps :
    (headAfter (2 ^ 31 + 1) (2 ^ 31)).toInt = -2 ^ 31 ∧ 2 ^ 31 % (2 ^ 31 + 1) = 2 ^ 31 := by
  rw [headAfter_of_lt (by norm_num) (by norm_num)]
  decide

def buildLoop (g : GHBHistory) (key : CorrelationKey) : Nat → Int → List Delta
  | 0, _ => []
  | fuel + 1, current =>
    let entry := g.history current.toNat
    let link := entry.links key
    if link.prev < 0 then [] else
    let prevEntry := g.history link.prev.toNat
    if prevEntry.seq ≠ link.prevSeq then [] else
    (entry.addr - prevEntry.addr) :: g.buildLoop key fuel link.prev

/-- `buildPattern` returns whether a delta was found and the deltas, most recent first;
`history.size()` is `historySize`. -/
def buildPattern (g : GHBHistory) (index : Int) (key : CorrelationKey) : Bool × List Delta :=
  if index < 0 ∨ (g.historySize : Int) ≤ index then (false, []) else
  let deltas := g.buildLoop key g.patternLength index
  (!deltas.isEmpty, deltas)

@[simp] theorem setLink_history_self (g : GHBHistory) (slot : Nat) (key : CorrelationKey)
    (link : LinkInfo) : (g.setLink slot key link).history slot =
      { g.history slot with links := Function.update (g.history slot).links key link } := by
  simp [setLink]

@[simp] theorem setLink_history_of_ne (g : GHBHistory) {slot other : Nat} (key : CorrelationKey)
    (link : LinkInfo) (distinct : other ≠ slot) :
    (g.setLink slot key link).history other = g.history other := by
  simp [setLink, distinct]

@[simp] theorem setLink_lastIndex (g : GHBHistory) (slot : Nat) (key : CorrelationKey)
    (link : LinkInfo) : (g.setLink slot key link).lastIndex = g.lastIndex := rfl

@[simp] theorem setIndex_history (g : GHBHistory) (key : CorrelationKey) (value : BitVec 64)
    (slot : Option Nat) : (g.setIndex key value slot).history = g.history := rfl

@[simp] theorem setIndex_lastIndex (g : GHBHistory) (key other : CorrelationKey)
    (value v : BitVec 64) (slot : Option Nat) :
    (g.setIndex key value slot).lastIndex other v =
      if other = key ∧ v = value then slot else g.lastIndex other v := by
  by_cases same : other = key
  · subst same
    by_cases hv : v = value <;> simp [setIndex, hv]
  · simp [setIndex, same]

/-- `g'` differs from `g` at most in `history` and `lastIndex`, as after every operation on
the links of the ring. -/
structure OnlyLinks (g g' : GHBHistory) : Prop where
  historySize : g'.historySize = g.historySize
  patternLength : g'.patternLength = g.patternLength
  degree : g'.degree = g.degree
  usePC : g'.usePC = g.usePC
  pageBytes : g'.pageBytes = g.pageBytes
  confidenceThreshold : g'.confidenceThreshold = g.confidenceThreshold
  head : g'.head = g.head
  filled : g'.filled = g.filled
  sequenceCounter : g'.sequenceCounter = g.sequenceCounter
  patternTable : g'.patternTable = g.patternTable

theorem OnlyLinks.trans {g g' g'' : GHBHistory} (first : OnlyLinks g g')
    (second : OnlyLinks g' g'') : OnlyLinks g g'' where
  historySize := second.historySize.trans first.historySize
  patternLength := second.patternLength.trans first.patternLength
  degree := second.degree.trans first.degree
  usePC := second.usePC.trans first.usePC
  pageBytes := second.pageBytes.trans first.pageBytes
  confidenceThreshold := second.confidenceThreshold.trans first.confidenceThreshold
  head := second.head.trans first.head
  filled := second.filled.trans first.filled
  sequenceCounter := second.sequenceCounter.trans first.sequenceCounter
  patternTable := second.patternTable.trans first.patternTable

theorem onlyLinks_update (g : GHBHistory) (history : Nat → GHBEntry)
    (lastIndex : CorrelationKey → BitVec 64 → Option Nat) :
    OnlyLinks g { g with history := history, lastIndex := lastIndex } :=
  ⟨rfl, rfl, rfl, rfl, rfl, rfl, rfl, rfl, rfl, rfl⟩

theorem onlyLinks_setLink (g : GHBHistory) (slot : Nat) (key : CorrelationKey)
    (link : LinkInfo) : OnlyLinks g (g.setLink slot key link) := onlyLinks_update _ _ _

theorem onlyLinks_assignCorrelation (g : GHBHistory) (slot : Nat) (key : CorrelationKey)
    (value : BitVec 64) : OnlyLinks g (g.assignCorrelation slot key value) :=
  onlyLinks_update _ _ _

theorem onlyLinks_removeIndexMapping (g : GHBHistory) (slot : Nat) (key : CorrelationKey) :
    OnlyLinks g (g.removeIndexMapping slot key) := by
  dsimp only [removeIndexMapping]
  split_ifs
  · exact onlyLinks_update _ _ _
  · exact onlyLinks_update _ _ _
  · exact onlyLinks_update _ _ _

theorem removeIndexMapping_lastIndex (g : GHBHistory) (slot : Nat) (key other : CorrelationKey)
    (v : BitVec 64) :
    (g.removeIndexMapping slot key).lastIndex other v =
      if other = key ∧ ((g.history slot).links key).keyValid ∧
          v = ((g.history slot).links key).keyValue ∧ g.lastIndex key v = some slot
      then none else g.lastIndex other v := by
  dsimp only [removeIndexMapping]
  by_cases valid : ((g.history slot).links key).keyValid
  · by_cases mapped : g.lastIndex key ((g.history slot).links key).keyValue = some slot
    · simp only [valid, mapped, if_true, setLink_lastIndex, setIndex_lastIndex, true_and]
      by_cases same : other = key ∧ v = ((g.history slot).links key).keyValue
      · obtain ⟨rfl, rfl⟩ := same
        simp [mapped]
      · rw [if_neg same, if_neg fun found => same ⟨found.1, found.2.1⟩]
    · simp only [valid, mapped, if_true, if_false, setLink_lastIndex, true_and]
      rw [if_neg]
      rintro ⟨rfl, rfl, found⟩
      exact mapped found
  · simp [valid]

theorem removeIndexMapping_history_of_ne (g : GHBHistory) {slot other : Nat}
    (key : CorrelationKey) (distinct : other ≠ slot) :
    (g.removeIndexMapping slot key).history other = g.history other := by
  dsimp only [removeIndexMapping]
  split_ifs <;> simp [distinct]

theorem removeIndexMapping_links_of_ne (g : GHBHistory) (slot : Nat) {key other : CorrelationKey}
    (distinct : other ≠ key) :
    ((g.removeIndexMapping slot key).history slot).links other = (g.history slot).links other := by
  dsimp only [removeIndexMapping]
  split_ifs <;> simp [Function.update_noteq distinct]

theorem assignCorrelation_history_self (g : GHBHistory) (slot : Nat) (key : CorrelationKey)
    (value : BitVec 64) : (g.assignCorrelation slot key value).history slot =
      { g.history slot with
        links := Function.update (g.history slot).links key (g.correlationLink key value) } := by
  simp [assignCorrelation]

theorem assignCorrelation_history_of_ne (g : GHBHistory) {slot other : Nat}
    (key : CorrelationKey) (value : BitVec 64) (distinct : other ≠ slot) :
    (g.assignCorrelation slot key value).history other = g.history other := by
  simp [assignCorrelation, distinct]

theorem assignCorrelation_lastIndex (g : GHBHistory) (slot : Nat) (key other : CorrelationKey)
    (value v : BitVec 64) : (g.assignCorrelation slot key value).lastIndex other v =
      if other = key ∧ v = value then some slot else g.lastIndex other v := by
  simp [assignCorrelation]

end GHBHistory

end CachePolicies.Ghb
