import CachePolicies.Ghb.Refinement

/-! What the ring says about the accesses since the last `reset`: `buildPattern` walks back
through the latest earlier accesses with the same key value while they are live, and
`lastIndex` maps exactly the key values of live entries to the slot of the latest one. Both
hold because a run from the constructor is in the form `stateOf`, and because the sequence
numbers of live entries are distinct as long as the counter has not wrapped. -/

namespace CachePolicies.Ghb

namespace Layout

variable (L : Layout)

/-- The deltas along the chain of access `j`: each step goes to the latest earlier access with
the same key value and stops at one that does not exist or is no longer live. -/
def chainDeltas (accesses : List AccessInfo) (key : CorrelationKey) : Nat → Nat → List Delta
  | 0, _ => []
  | fuel + 1, j =>
    match L.keyAt accesses key j with
    | none => []
    | some value =>
      match L.lastBefore accesses key value j with
      | none => []
      | some p =>
        if accesses.length ≤ p + L.historySize then
          ((accesses.getD j default).addr - (accesses.getD p default).addr) ::
            chainDeltas accesses key fuel p
        else []

variable {L : Layout} {accesses : List AccessInfo} {key : CorrelationKey}

theorem latestAt_live_of_eq_some (pos : 0 < L.historySize) {slot n j : Nat}
    (found : L.latestAt slot n = some j) :
    n ≤ j + L.historySize := by
  obtain ⟨below, here, later⟩ := latestAt_eq_some.mp found
  by_contra far
  exact later (j + L.historySize) (by omega) (by omega) (by simp [← here])

theorem latestAt_isSome_iff (pos : 0 < L.historySize) {slot n : Nat} :
    (L.latestAt slot n).isSome ↔ slot < min n L.historySize := by
  constructor
  · intro present
    obtain ⟨j, found⟩ := Option.isSome_iff_exists.mp present
    obtain ⟨below, here, -⟩ := latestAt_eq_some.mp found
    have := Nat.mod_lt j pos
    have := Nat.mod_le j L.historySize
    omega
  · intro inside
    obtain ⟨latest, found, -⟩ := latestAt_of_lt pos (show slot < n by omega)
    rw [Nat.mod_eq_of_lt (show slot < L.historySize by omega)] at found
    simp [found]

theorem lastBefore_of_keyAt {value : BitVec 64} {n j : Nat} (below : j < n)
    (carries : L.keyAt accesses key j = some value) :
    ∃ latest, L.lastBefore accesses key value n = some latest ∧ j ≤ latest := by
  cases found : L.lastBefore accesses key value n with
  | none => exact absurd carries (lastBefore_eq_none.mp found j below)
  | some latest =>
    obtain ⟨-, -, later⟩ := lastBefore_eq_some.mp found
    refine ⟨latest, rfl, ?_⟩
    by_contra earlier
    exact later j (by omega) below carries

theorem linkOf_prev (j : Nat) : (L.linkOf accesses key j).prev = -1 ∨
    ∃ p, (L.linkOf accesses key j).prev = ((p % L.historySize : Nat) : Int) := by
  unfold linkOf
  split
  · exact .inl rfl
  · split
    · split_ifs
      · exact .inr ⟨_, rfl⟩
      · exact .inl rfl
    · exact .inl rfl

theorem prev_lt_of_slotOf (pos : 0 < L.historySize) (slot : Nat)
    (nonneg : 0 ≤ ((L.slotOf accesses slot).links key).prev) :
    ((L.slotOf accesses slot).links key).prev < L.historySize := by
  unfold slotOf at nonneg ⊢
  cases found : L.latestAt slot accesses.length with
  | none => simp [found] at nonneg
  | some j =>
    simp only [found, entryOf] at nonneg ⊢
    rcases @linkOf_prev L accesses key j with minus | ⟨p, named⟩
    · omega
    · have := Nat.mod_lt p pos
      omega

end Layout

def GHBEntry.Carries (e : GHBEntry) (key : CorrelationKey) (value : BitVec 64) : Prop :=
  (e.links key).keyValid = true ∧ (e.links key).keyValue = value

instance (e : GHBEntry) (key : CorrelationKey) (value : BitVec 64) :
    Decidable (e.Carries key value) :=
  inferInstanceAs (Decidable (_ ∧ _))

namespace GHBHistory

open Layout

/-- The chain `buildPattern` walks, read off the accesses: from the live access in slot `index`,
if the slot holds one, back through the latest earlier accesses with the same key value. -/
def chainPattern (g : GHBHistory) (accesses : List AccessInfo) (index : Int)
    (key : CorrelationKey) : Bool × List Delta :=
  if index < 0 ∨ (g.historySize : Int) ≤ index then (false, []) else
  match g.layout.latestAt index.toNat accesses.length with
  | none => (false, [])
  | some j =>
    let deltas := g.layout.chainDeltas accesses key g.patternLength j
    (!deltas.isEmpty, deltas)

variable {g : GHBHistory} {accesses : List AccessInfo} {key : CorrelationKey}

theorem stateOf_history (g : GHBHistory) (accesses : List AccessInfo) :
    (g.stateOf accesses).history = g.layout.slotOf accesses := rfl

@[simp] theorem stateOf_historySize (g : GHBHistory) (accesses : List AccessInfo) :
    (g.stateOf accesses).historySize = g.historySize := rfl

@[simp] theorem stateOf_patternLength (g : GHBHistory) (accesses : List AccessInfo) :
    (g.stateOf accesses).patternLength = g.patternLength := rfl

theorem chainPattern_reset (g : GHBHistory) : g.reset.chainPattern = g.chainPattern := rfl

theorem slotOf_seq_eq_iff (pos : 0 < g.historySize) (fits : accesses.length < 2 ^ 64)
    {p : Nat} (below : p < accesses.length) :
    (g.layout.slotOf accesses (p % g.historySize)).seq = (p + 1) % 2 ^ 64 ↔
      accesses.length ≤ p + g.historySize := by
  obtain ⟨latest, found, after, same⟩ := latestAt_of_lt (show 0 < g.layout.historySize from pos)
    below
  have bound := (latestAt_eq_some.mp found).1
  simp only [slotOf, found, entryOf, ← same]
  rw [Nat.mod_eq_of_lt (by omega), Nat.mod_eq_of_lt (by omega)]
  omega

theorem buildLoop_stateOf (pos : 0 < g.historySize) (fits : accesses.length < 2 ^ 64)
    (fuel : Nat) {j : Nat} (below : j < accesses.length)
    (live : accesses.length ≤ j + g.historySize) :
    (g.stateOf accesses).buildLoop key fuel ((j % g.historySize : Nat) : Int) =
      g.layout.chainDeltas accesses key fuel j := by
  induction fuel generalizing j with
  | zero => rfl
  | succ fuel ih =>
    have entry : (g.stateOf accesses).history (j % g.historySize) = g.layout.entryOf accesses j :=
      slotOf_live below live
    simp only [buildLoop, chainDeltas, Int.toNat_ofNat, entry]
    cases carried : g.layout.keyAt accesses key j with
    | none => simp [entryOf, linkOf, carried]
    | some v =>
      cases previous : g.layout.lastBefore accesses key v j with
      | none => simp [entryOf, linkOf, carried, previous]
      | some p =>
        have earlier := (lastBefore_eq_some.mp previous).1
        by_cases window : j < p + g.historySize
        · have link : (g.layout.entryOf accesses j).links key =
              { prev := ((p % g.historySize : Nat) : Int), prevSeq := (p + 1) % 2 ^ 64,
                keyValue := v, keyValid := true } := by
            simp only [entryOf, linkOf, carried, previous]
            exact if_pos window
          have stamp := slotOf_seq_eq_iff pos fits (show p < accesses.length by omega)
          simp only [link, carried, previous, Int.toNat_ofNat, stateOf_history]
          rw [if_neg (by omega)]
          by_cases alive : accesses.length ≤ p + g.historySize
          · rw [if_neg (not_not.mpr (stamp.mpr alive)), if_pos alive,
              ← ih (show p < accesses.length by omega) alive, slotOf_live
                (show p < accesses.length by omega) (show accesses.length ≤ p +
                g.layout.historySize from alive)]
            rfl
          · rw [if_pos (fun same => alive (stamp.mp same)), if_neg alive]
        · simp [entryOf, linkOf, carried, previous, window,
            show ¬accesses.length ≤ p + g.historySize by omega]

theorem buildLoop_of_prev_neg {s : GHBHistory} (fuel : Nat) {index : Int}
    (unlinked : ((s.history index.toNat).links key).prev < 0) :
    s.buildLoop key fuel index = [] := by
  cases fuel <;> simp [buildLoop, unlinked]

theorem buildPattern_stateOf (pos : 0 < g.historySize) (fits : accesses.length < 2 ^ 64)
    (index : Int) :
    (g.stateOf accesses).buildPattern index key = g.chainPattern accesses index key := by
  unfold buildPattern chainPattern
  rw [stateOf_historySize, stateOf_patternLength]
  split_ifs with outside
  · rfl
  · obtain ⟨slot, rfl⟩ : ∃ slot : Nat, index = slot := ⟨index.toNat, by omega⟩
    simp only [Int.toNat_ofNat]
    cases found : g.layout.latestAt slot accesses.length with
    | none =>
      have unlinked :
          (((g.stateOf accesses).history (slot : Int).toNat).links key).prev < 0 := by
        simp [stateOf_history, slotOf, found]
      simp [buildLoop_of_prev_neg _ unlinked]
    | some j =>
      obtain ⟨below, here, -⟩ := latestAt_eq_some.mp found
      subst here
      rw [buildLoop_stateOf pos fits _ below
        (latestAt_live_of_eq_some (show 0 < g.layout.historySize from pos) found)]

/-- With a capacity below `2^31`, where the code's `int32_t` head is the model's
(`headAfter_toNat`), and since the last `reset`, `buildPattern` follows the chain of the live
access in the slot: each step goes back to the latest earlier access with the same key value,
the step is the difference of their addresses, and the walk stops at a predecessor that is no
longer live or after `patternLength` steps. -/
theorem buildPattern_run (history_size pattern_length degree : Nat) (use_pc : Bool)
    (page_bytes confidence_threshold : Nat) (small : history_size < 2 ^ 31) (ops : List Op)
    (fits : (Op.accesses ops).length < 2 ^ 64 - 1) (index : Int) (key : CorrelationKey) :
    let fresh := new history_size pattern_length degree use_pc page_bytes confidence_threshold
    (fresh.run ops).buildPattern index key = fresh.chainPattern (Op.accesses ops) index key := by
  intro fresh
  have trained : (fresh.train (Op.trainings ops)).reset = fresh.reset := reset_train _ _
  have pos : 0 < (fresh.train (Op.trainings ops)).historySize := by
    rw [historySize_train]
    simp [fresh, new]
  rw [show fresh.run ops = _ from run_new history_size pattern_length degree use_pc page_bytes
    confidence_threshold ops, buildPattern_stateOf pos (by omega), ← chainPattern_reset, trained,
    chainPattern_reset]

theorem stateOf_lastIndex (g : GHBHistory) (accesses : List AccessInfo) :
    (g.stateOf accesses).lastIndex = g.layout.indexWithin accesses accesses.length := rfl

theorem live_of_slot_lt (pos : 0 < g.historySize) {slot : Nat}
    (inside : slot < min accesses.length g.historySize) :
    ∃ j, j < accesses.length ∧ accesses.length ≤ j + g.historySize ∧ j % g.historySize = slot ∧
      (g.stateOf accesses).history slot = g.layout.entryOf accesses j := by
  have pos' : 0 < g.layout.historySize := pos
  obtain ⟨j, found⟩ := Option.isSome_iff_exists.mp ((latestAt_isSome_iff pos').mpr inside)
  obtain ⟨below, here, -⟩ := latestAt_eq_some.mp found
  exact ⟨j, below, latestAt_live_of_eq_some pos' found, here,
    by simp only [stateOf_history, slotOf, found]⟩

theorem lastIndex_stateOf_eq_some {value : BitVec 64} {slot : Nat} :
    (g.stateOf accesses).lastIndex key value = some slot ↔
      ∃ j, g.layout.lastBefore accesses key value accesses.length = some j ∧
        accesses.length ≤ j + g.historySize ∧ j % g.historySize = slot := by
  simp only [stateOf_lastIndex, indexWithin, Option.bind_eq_some, Option.ite_none_right_eq_some,
    Option.some.injEq, layout_historySize]

theorem entryOf_carries_iff {j : Nat} {value : BitVec 64} :
    (g.layout.entryOf accesses j).Carries key value ↔
      g.layout.keyAt accesses key j = some value := by
  rw [← linkOf_valid_iff, @eq_comm _ value]
  rfl

theorem buildPattern_run_one_pc :
    16 < 2 ^ 31 ∧ (Op.accesses [.insert ⟨0x100, some 0x400⟩, .insert ⟨0x120, some 0x400⟩,
      .insert ⟨0x140, some 0x400⟩]).length < 2 ^ 64 - 1 ∧
    let ops : List Op := [.insert ⟨0x100, some 0x400⟩, .insert ⟨0x120, some 0x400⟩,
      .insert ⟨0x140, some 0x400⟩]
    let fresh := new 16 4 2 true 4096 2
    (fresh.run ops).buildPattern 2 .PC = fresh.chainPattern (Op.accesses ops) 2 .PC :=
  ⟨by decide, by decide, buildPattern_run 16 4 2 true 4096 2 (by decide) _ (by decide) 2 .PC⟩

/-- `BuildPatternFromPC` of `ghb_history.test.cc`. -/
example :
    ((new 16 4 2 true 64 50).run [.insert ⟨0x0, some 0x100⟩, .insert ⟨0x40, some 0x100⟩,
      .insert ⟨0x80, some 0x100⟩]).buildPattern 2 .PC = (true, [0x40, 0x40]) := by
  decide

section Index

variable (pos : 0 < g.historySize) (fits : accesses.length < 2 ^ 64)
include pos

theorem lastIndex_stateOf_isSome (value : BitVec 64) :
    ((g.stateOf accesses).lastIndex key value).isSome ↔
      ∃ slot < min accesses.length g.historySize,
        ((g.stateOf accesses).history slot).Carries key value := by
  constructor
  · intro mapped
    obtain ⟨slot, found⟩ := Option.isSome_iff_exists.mp mapped
    obtain ⟨j, latest, alive, rfl⟩ := lastIndex_stateOf_eq_some.mp found
    obtain ⟨below, carried, -⟩ := lastBefore_eq_some.mp latest
    refine ⟨j % g.historySize, ?_, ?_⟩
    · have := Nat.mod_lt j pos
      have := Nat.mod_le j g.historySize
      omega
    · rw [stateOf_history, slotOf_live below alive]
      exact entryOf_carries_iff.mpr carried
  · rintro ⟨slot, inside, carries⟩
    obtain ⟨j, below, alive, -, entry⟩ := live_of_slot_lt pos inside
    rw [entry] at carries
    obtain ⟨latest, found, after⟩ := lastBefore_of_keyAt below (entryOf_carries_iff.mp carries)
    simp [stateOf_lastIndex, indexWithin, found,
      show accesses.length ≤ latest + g.historySize by omega]

include fits

theorem lastIndex_stateOf_latest {value : BitVec 64} {slot : Nat}
    (mapped : (g.stateOf accesses).lastIndex key value = some slot) :
    slot < min accesses.length g.historySize ∧
      ((g.stateOf accesses).history slot).Carries key value ∧
      ∀ other < min accesses.length g.historySize,
        ((g.stateOf accesses).history other).Carries key value →
          ((g.stateOf accesses).history other).seq ≤ ((g.stateOf accesses).history slot).seq := by
  obtain ⟨j, latest, alive, rfl⟩ := lastIndex_stateOf_eq_some.mp mapped
  obtain ⟨below, carried, later⟩ := lastBefore_eq_some.mp latest
  have entry : (g.stateOf accesses).history (j % g.historySize) = g.layout.entryOf accesses j :=
    slotOf_live below alive
  refine ⟨?_, entry ▸ entryOf_carries_iff.mpr carried, fun other inside carries => ?_⟩
  · have := Nat.mod_lt j pos
    have := Nat.mod_le j g.historySize
    omega
  · obtain ⟨k, earlier, -, -, found⟩ := live_of_slot_lt pos inside
    rw [found] at carries ⊢
    rw [entry]
    have : k ≤ j := by
      by_contra after
      exact later k (by omega) earlier (entryOf_carries_iff.mp carries)
    simp only [entryOf]
    rw [Nat.mod_eq_of_lt (by omega), Nat.mod_eq_of_lt (by omega)]
    omega

omit fits

theorem prev_lt_stateOf (slot : Nat)
    (nonneg : 0 ≤ (((g.stateOf accesses).history slot).links key).prev) :
    (((g.stateOf accesses).history slot).links key).prev < g.historySize :=
  prev_lt_of_slotOf (show 0 < g.layout.historySize from pos) slot nonneg

theorem lastIndex_stateOf_card :
    ∃ keys : Finset (BitVec 64), keys.card ≤ min accesses.length g.historySize ∧
      ∀ value, ((g.stateOf accesses).lastIndex key value).isSome ↔ value ∈ keys := by
  let carriers := (Finset.range (min accesses.length g.historySize)).filter fun slot =>
    (((g.stateOf accesses).history slot).links key).keyValid = true
  refine ⟨carriers.image fun slot => (((g.stateOf accesses).history slot).links key).keyValue,
    ?_, fun value => ?_⟩
  · calc _ ≤ carriers.card := Finset.card_image_le
      _ ≤ (Finset.range _).card := Finset.card_filter_le _ _
      _ = _ := Finset.card_range _
  · rw [lastIndex_stateOf_isSome pos]
    simp [carriers, GHBEntry.Carries, and_assoc]

end Index

end GHBHistory

end CachePolicies.Ghb
