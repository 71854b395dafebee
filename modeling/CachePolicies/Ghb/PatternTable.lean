import CachePolicies.Ghb.History

/-! The learned table of `ghb_history.cc`: `updatePatternTable` counts, for every window of
three consecutive deltas, the third under the first two; `findPatternMatch` reads the most
counted successor of the last two deltas; `fallbackPattern` repeats the last delta. -/

namespace CachePolicies.Ghb

def bumpCount : List (Delta × Nat) → Delta → List (Delta × Nat)
  | [], next => [(next, 1)]
  | (delta, count) :: rest, next =>
    if delta = next then (delta, (count + 1) % 2 ^ 32) :: rest
    else (delta, count) :: bumpCount rest next

def PatternEntry.record (entry : PatternEntry) (next : Delta) : PatternEntry where
  counts := bumpCount entry.counts next
  total := (entry.total + 1) % 2 ^ 32

def recordTriple (table : DeltaPair → Option PatternEntry) (first second next : Delta) :
    DeltaPair → Option PatternEntry :=
  Function.update table ⟨first, second⟩ (some (((table ⟨first, second⟩).getD {}).record next))

def recordWindows (table : DeltaPair → Option PatternEntry) :
    List Delta → DeltaPair → Option PatternEntry
  | [] => table
  | first :: rest =>
    match rest with
    | second :: next :: _ => recordWindows (recordTriple table first second next) rest
    | _ => table

def lastPair (chronological : List Delta) : Option DeltaPair :=
  match chronological.reverse with
  | last :: before :: _ => some ⟨before, last⟩
  | _ => none

/-- The order in which `findPatternMatch` sees the candidates: `unordered_map` iteration and
then `std::sort` by descending count. Neither fixes the order of equal counts, so the model
takes any function that permutes the candidates into descending order of count. -/
structure CandidateSort where
  sort : List (Delta × Nat) → List (Delta × Nat)
  perm : ∀ candidates, (sort candidates).Perm candidates
  descending : ∀ candidates, (sort candidates).Pairwise fun a b => b.2 ≤ a.2

def CandidateSort.insertion : CandidateSort where
  sort := List.insertionSort fun a b => b.2 ≤ a.2
  perm := List.perm_insertionSort _
  descending := by
    have : IsTotal (Delta × Nat) fun a b => b.2 ≤ a.2 := ⟨fun a b => le_total b.2 a.2⟩
    have : IsTrans (Delta × Nat) fun a b => b.2 ≤ a.2 := ⟨fun _ _ _ h h' => le_trans h' h⟩
    exact List.sorted_insertionSort _

namespace GHBHistory

def updatePatternTable (g : GHBHistory) (chronological : List Delta) : GHBHistory :=
  if chronological.length < 3 then g
  else { g with patternTable := recordWindows g.patternTable chronological }

def findPatternMatch (sorter : CandidateSort) (g : GHBHistory) (chronological : List Delta) :
    Bool × List Delta :=
  match lastPair chronological with
  | none => (false, [])
  | some key =>
    match g.patternTable key with
    | none => (false, [])
    | some entry =>
      if entry.total = 0 then (false, []) else
      match sorter.sort entry.counts with
      | [] => (false, [])
      | best :: _ => (true, [best.1])

end GHBHistory

def fallbackPattern (chronological : List Delta) : List Delta :=
  match chronological.getLast? with
  | none => []
  | some delta => if delta ≠ 0 then [delta] else []

end CachePolicies.Ghb
