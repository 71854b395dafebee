import CachePolicies.Ghb.Run

/-! The state a `GHBHistory` is in after a list of accesses, written in closed form over that
list. Access `j` (counting from zero since construction or `reset`) sits in slot
`j % historySize` with sequence number `j + 1`; it is live while fewer than `historySize`
accesses follow it; its link of each kind points at the latest earlier access with the same
key value, provided that one was still live when `j` was inserted; and `lastIndex` maps a key
value to the slot of the latest live access carrying it. `Refinement` proves that `insert` keeps
a state in this form. -/

namespace CachePolicies.Ghb

/-- The parameters the state after a list of accesses depends on. -/
structure Layout where
  historySize : Nat
  usePC : Bool
  pageBytes : Nat

@[reducible] def GHBHistory.layout (g : GHBHistory) : Layout := ⟨g.historySize, g.usePC, g.pageBytes⟩

namespace Layout

variable (L : Layout)

/-- The key value `insert` links an access under: the PC only when `usePC` is set and the
access carries one, the page always. -/
def keyOf (key : CorrelationKey) (access : AccessInfo) : Option (BitVec 64) :=
  match key with
  | .PC => if L.usePC then access.pc else none
  | .Page => some (access.addr / BitVec.ofNat 64 L.pageBytes)

def keyAt (accesses : List AccessInfo) (key : CorrelationKey) (j : Nat) : Option (BitVec 64) :=
  L.keyOf key (accesses.getD j default)

def lastBefore (accesses : List AccessInfo) (key : CorrelationKey) (value : BitVec 64) :
    Nat → Option Nat
  | 0 => none
  | n + 1 => if L.keyAt accesses key n = some value then some n
    else lastBefore accesses key value n

def latestAt (slot : Nat) : Nat → Option Nat
  | 0 => none
  | n + 1 => if n % L.historySize = slot then some n else latestAt slot n

def linkOf (accesses : List AccessInfo) (key : CorrelationKey) (j : Nat) : LinkInfo :=
  match L.keyAt accesses key j with
  | none => {}
  | some value =>
    match L.lastBefore accesses key value j with
    | some p =>
      if j < p + L.historySize then
        { prev := ((p % L.historySize : Nat) : Int), prevSeq := (p + 1) % 2 ^ 64,
          keyValue := value, keyValid := true }
      else { keyValue := value, keyValid := true }
    | none => { keyValue := value, keyValid := true }

def entryOf (accesses : List AccessInfo) (j : Nat) : GHBEntry where
  addr := (accesses.getD j default).addr
  links := fun key => L.linkOf accesses key j
  seq := (j + 1) % 2 ^ 64

def slotOf (accesses : List AccessInfo) (slot : Nat) : GHBEntry :=
  match L.latestAt slot accesses.length with
  | some j => L.entryOf accesses j
  | none => {}

/-- `lastIndex` when the accesses counted live are those with fewer than `historySize` of the
first `count` after them. -/
def indexWithin (accesses : List AccessInfo) (count : Nat) (key : CorrelationKey)
    (value : BitVec 64) : Option Nat :=
  (L.lastBefore accesses key value accesses.length).bind fun j =>
    if count ≤ j + L.historySize then some (j % L.historySize) else none

variable {L : Layout} {accesses : List AccessInfo} {key : CorrelationKey}
  {value : BitVec 64}

theorem lastBefore_eq_some {n j : Nat} :
    L.lastBefore accesses key value n = some j ↔
      j < n ∧ L.keyAt accesses key j = some value ∧
        ∀ i, j < i → i < n → L.keyAt accesses key i ≠ some value := by
  induction n with
  | zero => simp [lastBefore]
  | succ n ih =>
    by_cases here : L.keyAt accesses key n = some value
    · simp only [lastBefore, here, if_true, Option.some.injEq]
      constructor
      · rintro rfl
        exact ⟨by omega, here, fun i below above => by omega⟩
      · rintro ⟨below, -, later⟩
        by_contra different
        exact later n (by omega) (by omega) here
    · simp only [lastBefore, here, if_false, ih]
      constructor
      · rintro ⟨below, found, later⟩
        refine ⟨by omega, found, fun i after bound => ?_⟩
        rcases Nat.lt_succ_iff_lt_or_eq.mp bound with bound | rfl
        · exact later i after bound
        · exact here
      · rintro ⟨below, found, later⟩
        have : j ≠ n := fun same => here (same ▸ found)
        exact ⟨by omega, found, fun i after bound => later i after (by omega)⟩

theorem lastBefore_eq_none {n : Nat} :
    L.lastBefore accesses key value n = none ↔
      ∀ i, i < n → L.keyAt accesses key i ≠ some value := by
  induction n with
  | zero => simp [lastBefore]
  | succ n ih =>
    by_cases here : L.keyAt accesses key n = some value
    · simp only [lastBefore, here, if_true, reduceCtorEq, false_iff, not_forall]
      exact ⟨n, by omega, fun absent => absent here⟩
    · simp only [lastBefore, here, if_false, ih]
      constructor
      · intro earlier i bound
        rcases Nat.lt_succ_iff_lt_or_eq.mp bound with bound | rfl
        · exact earlier i bound
        · exact here
      · exact fun all i bound => all i (by omega)

theorem keyAt_append {more : List AccessInfo} {i : Nat} (bound : i < accesses.length) :
    L.keyAt (accesses ++ more) key i = L.keyAt accesses key i := by
  simp [keyAt, List.getElem?_append_left bound]

theorem lastBefore_append {more : List AccessInfo} {n : Nat} (bound : n ≤ accesses.length) :
    L.lastBefore (accesses ++ more) key value n = L.lastBefore accesses key value n := by
  induction n with
  | zero => rfl
  | succ n ih => simp only [lastBefore, keyAt_append (show n < accesses.length by omega),
      ih (by omega)]

theorem linkOf_append {more : List AccessInfo} {j : Nat} (bound : j < accesses.length) :
    L.linkOf (accesses ++ more) key j = L.linkOf accesses key j := by
  simp only [linkOf, keyAt_append bound, lastBefore_append bound.le]

theorem entryOf_append {more : List AccessInfo} {j : Nat} (bound : j < accesses.length) :
    L.entryOf (accesses ++ more) j = L.entryOf accesses j := by
  simp [entryOf, List.getElem?_append_left bound, linkOf_append bound]

theorem latestAt_eq_some {slot n j : Nat} :
    L.latestAt slot n = some j ↔
      j < n ∧ j % L.historySize = slot ∧
        ∀ k, j < k → k < n → k % L.historySize ≠ slot := by
  induction n with
  | zero => simp [latestAt]
  | succ n ih =>
    by_cases here : n % L.historySize = slot
    · simp only [latestAt, here, if_true, Option.some.injEq]
      constructor
      · rintro rfl
        exact ⟨by omega, here, fun k below above => by omega⟩
      · rintro ⟨below, -, later⟩
        by_contra different
        exact later n (by omega) (by omega) here
    · simp only [latestAt, here, if_false, ih]
      constructor
      · rintro ⟨below, found, later⟩
        refine ⟨by omega, found, fun k after bound => ?_⟩
        rcases Nat.lt_succ_iff_lt_or_eq.mp bound with bound | rfl
        · exact later k after bound
        · exact here
      · rintro ⟨below, found, later⟩
        have : j ≠ n := fun same => here (same ▸ found)
        exact ⟨by omega, found, fun k after bound => later k after (by omega)⟩

theorem mod_ne_of_close {j k : Nat} (after : j < k) (close : k < j + L.historySize) :
    k % L.historySize ≠ j % L.historySize := by
  intro same
  have divides := (Nat.modEq_iff_dvd' after.le).mp same.symm
  have := Nat.le_of_dvd (by omega) divides
  omega

theorem latestAt_live {n j : Nat} (below : j < n) (live : n ≤ j + L.historySize) :
    L.latestAt (j % L.historySize) n = some j :=
  latestAt_eq_some.mpr ⟨below, rfl, fun _ after bound => mod_ne_of_close after (by omega)⟩

theorem latestAt_of_lt (pos : 0 < L.historySize) {n j : Nat} (below : j < n) :
    ∃ latest, L.latestAt (j % L.historySize) n = some latest ∧ j ≤ latest ∧
      (latest = j ↔ n ≤ j + L.historySize) := by
  induction n with
  | zero => omega
  | succ n ih =>
    by_cases here : n % L.historySize = j % L.historySize
    · refine ⟨n, by simp [latestAt, here], by omega, ⟨fun same => by omega, fun live => ?_⟩⟩
      by_contra different
      exact mod_ne_of_close (show j < n by omega) (by omega) here
    · have earlier : j < n := by
        rcases Nat.lt_succ_iff_lt_or_eq.mp below with below | rfl
        · exact below
        · exact absurd rfl here
      obtain ⟨latest, found, after, live⟩ := ih earlier
      refine ⟨latest, by simp [latestAt, here, found], after, ?_⟩
      have : n ≠ j + L.historySize := fun same => here (by simp [same])
      rw [live]
      omega

theorem linkOf_of_keyAt_none {j : Nat} (absent : L.keyAt accesses key j = none) :
    L.linkOf accesses key j = {} := by
  simp [linkOf, absent]

theorem linkOf_of_keyAt_some {j : Nat} (present : L.keyAt accesses key j = some value) :
    (L.linkOf accesses key j).keyValid = true ∧ (L.linkOf accesses key j).keyValue = value := by
  unfold linkOf
  rw [present]
  dsimp only
  split
  · split_ifs <;> exact ⟨rfl, rfl⟩
  · exact ⟨rfl, rfl⟩

theorem linkOf_valid_iff (j : Nat) :
    ((L.linkOf accesses key j).keyValid = true ∧ value = (L.linkOf accesses key j).keyValue) ↔
      L.keyAt accesses key j = some value := by
  cases present : L.keyAt accesses key j with
  | none => simp [linkOf_of_keyAt_none present]
  | some v =>
    obtain ⟨valid, carried⟩ := linkOf_of_keyAt_some present
    simp only [valid, carried, true_and, Option.some.injEq]
    exact eq_comm

theorem indexWithin_succ (full : L.historySize ≤ accesses.length) :
    L.indexWithin accesses (accesses.length + 1) key value =
      if L.keyAt accesses key (accesses.length - L.historySize) = some value ∧
          L.indexWithin accesses accesses.length key value =
            some (accesses.length % L.historySize)
      then none else L.indexWithin accesses accesses.length key value := by
  unfold indexWithin
  cases found : L.lastBefore accesses key value accesses.length with
  | none => simp
  | some j =>
    obtain ⟨below, carries, -⟩ := lastBefore_eq_some.mp found
    simp only [Option.some_bind]
    by_cases later : accesses.length + 1 ≤ j + L.historySize
    · have slot : j % L.historySize ≠ accesses.length % L.historySize :=
        (mod_ne_of_close below (by omega)).symm
      simp [later, show accesses.length ≤ j + L.historySize by omega, slot]
    · by_cases evicted : accesses.length = j + L.historySize
      · have victim : accesses.length - L.historySize = j := by omega
        simp [later, evicted, victim, carries]
      · simp [later, show ¬accesses.length ≤ j + L.historySize by omega]

theorem indexWithin_succ_of_lt (notFull : accesses.length < L.historySize) :
    L.indexWithin accesses (accesses.length + 1) key value =
      L.indexWithin accesses accesses.length key value := by
  unfold indexWithin
  cases L.lastBefore accesses key value accesses.length with
  | none => rfl
  | some j => simp [show accesses.length + 1 ≤ j + L.historySize by omega,
      show accesses.length ≤ j + L.historySize by omega]

theorem indexWithin_append (pos : 0 < L.historySize) (access : AccessInfo) :
    L.indexWithin (accesses ++ [access]) (accesses.length + 1) key value =
      if L.keyOf key access = some value then some (accesses.length % L.historySize)
      else L.indexWithin accesses (accesses.length + 1) key value := by
  have last : L.keyAt (accesses ++ [access]) key accesses.length = L.keyOf key access := by
    simp [keyAt]
  unfold indexWithin
  rw [List.length_append, List.length_singleton]
  simp only [lastBefore, last, lastBefore_append (le_refl _)]
  split_ifs <;> simp [show accesses.length + 1 ≤ accesses.length + L.historySize by omega]

theorem slotOf_append_of_ne (access : AccessInfo) {slot : Nat}
    (other : slot ≠ accesses.length % L.historySize) :
    L.slotOf (accesses ++ [access]) slot = L.slotOf accesses slot := by
  unfold slotOf
  rw [List.length_append, List.length_singleton]
  simp only [latestAt, Ne.symm other, if_false]
  cases found : L.latestAt slot accesses.length with
  | none => rfl
  | some j => exact entryOf_append (latestAt_eq_some.mp found).1

theorem slotOf_append_self (access : AccessInfo) :
    L.slotOf (accesses ++ [access]) (accesses.length % L.historySize) =
      L.entryOf (accesses ++ [access]) accesses.length := by
  simp [slotOf, latestAt]

theorem slotOf_live {j : Nat} (below : j < accesses.length)
    (live : accesses.length ≤ j + L.historySize) :
    L.slotOf accesses (j % L.historySize) = L.entryOf accesses j := by
  simp [slotOf, latestAt_live below live]

end Layout

namespace GHBHistory

def stateOf (g : GHBHistory) (accesses : List AccessInfo) : GHBHistory :=
  { g with
    history := g.layout.slotOf accesses
    lastIndex := g.layout.indexWithin accesses accesses.length
    head := accesses.length % g.historySize
    filled := decide (g.historySize ≤ accesses.length)
    sequenceCounter := (accesses.length + 1) % 2 ^ 64 }

@[simp] theorem layout_historySize (g : GHBHistory) : g.layout.historySize = g.historySize := rfl

theorem keyOf_layout (g : GHBHistory) (key : CorrelationKey) (access : AccessInfo) :
    g.layout.keyOf key access =
      match key with
      | .PC => if g.usePC then access.pc else none
      | .Page => some (g.computePage access.addr) := rfl

end GHBHistory

end CachePolicies.Ghb
