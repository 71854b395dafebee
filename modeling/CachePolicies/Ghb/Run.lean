import CachePolicies.Ghb.PatternTable

/-! Runs of a `GHBHistory`: the operations that change its state, applied in order. The other
members (`buildPattern`, `findPatternMatch`, `fallbackPattern`) are `const` queries read off a
state. `reset` leaves the parameters alone and restores everything else, so after any run it
gives back the freshly constructed object. -/

namespace CachePolicies.Ghb

inductive Op
  | insert (access : AccessInfo)
  | updatePatternTable (chronological : List Delta)
  | reset
  deriving DecidableEq, Repr

namespace Op

def recordAccess (accesses : List AccessInfo) : Op → List AccessInfo
  | .insert access => accesses ++ [access]
  | .updatePatternTable _ => accesses
  | .reset => []

def recordTraining (lists : List (List Delta)) : Op → List (List Delta)
  | .insert _ => lists
  | .updatePatternTable chronological => lists ++ [chronological]
  | .reset => []

def accesses (ops : List Op) : List AccessInfo := ops.foldl recordAccess []

def trainings (ops : List Op) : List (List Delta) := ops.foldl recordTraining []

theorem accesses_append (ops : List Op) (op : Op) :
    accesses (ops ++ [op]) = recordAccess (accesses ops) op := by
  simp [accesses, List.foldl_append]

theorem trainings_append (ops : List Op) (op : Op) :
    trainings (ops ++ [op]) = recordTraining (trainings ops) op := by
  simp [trainings, List.foldl_append]

end Op

namespace GHBHistory

def apply (g : GHBHistory) : Op → GHBHistory
  | .insert access => (g.insert access).2
  | .updatePatternTable chronological => g.updatePatternTable chronological
  | .reset => g.reset

def run (g : GHBHistory) (ops : List Op) : GHBHistory := ops.foldl apply g

@[simp] theorem run_nil (g : GHBHistory) : g.run [] = g := rfl

@[simp] theorem run_cons (g : GHBHistory) (op : Op) (ops : List Op) :
    g.run (op :: ops) = (g.apply op).run ops := rfl

theorem run_append (g : GHBHistory) (ops more : List Op) :
    g.run (ops ++ more) = (g.run ops).run more := List.foldl_append _ _ _ _

theorem reset_setLink (g : GHBHistory) (slot : Nat) (key : CorrelationKey) (link : LinkInfo) :
    (g.setLink slot key link).reset = g.reset := rfl

theorem reset_setIndex (g : GHBHistory) (key : CorrelationKey) (value : BitVec 64)
    (slot : Option Nat) : (g.setIndex key value slot).reset = g.reset := rfl

theorem reset_removeIndexMapping (g : GHBHistory) (slot : Nat) (key : CorrelationKey) :
    (g.removeIndexMapping slot key).reset = g.reset := by
  dsimp only [removeIndexMapping]
  split_ifs <;> dsimp only [reset, setLink, setIndex]

theorem reset_writeHead (g : GHBHistory) (access : AccessInfo) :
    (g.writeHead access).reset = g.reset := by
  dsimp only [writeHead]
  split <;> dsimp only [reset, assignCorrelation, setLink, setIndex]

theorem reset_insert (g : GHBHistory) (access : AccessInfo) :
    (g.insert access).2.reset = g.reset := by
  unfold insert
  split_ifs
  · rfl
  · simp only [reset_writeHead, evictIndex, removeIndexMappings, reset_removeIndexMapping]
  · exact reset_writeHead g access

theorem reset_apply (g : GHBHistory) (op : Op) : (g.apply op).reset = g.reset := by
  cases op with
  | insert access => exact reset_insert g access
  | updatePatternTable chronological =>
    simp only [apply, updatePatternTable]
    split_ifs <;> rfl
  | reset => rfl

theorem reset_run (g : GHBHistory) (ops : List Op) : (g.run ops).reset = g.reset := by
  induction ops generalizing g with
  | nil => rfl
  | cons op ops ih => rw [run_cons, ih, reset_apply]

/-- `reset` after any run from the constructor is the object the constructor builds from the
state's own (clamped) parameters, and so behaves as a fresh one from then on. -/
theorem reset_after_run (history_size pattern_length degree : Nat) (use_pc : Bool)
    (page_bytes confidence_threshold : Nat) (ops : List Op) :
    let fresh := new history_size pattern_length degree use_pc page_bytes confidence_threshold
    let s := fresh.run ops
    s.reset = new s.historySize s.patternLength s.degree s.usePC s.pageBytes
        s.confidenceThreshold ∧
      ∀ later : List Op, s.reset.run later = fresh.run later := by
  intro fresh s
  have restored : s.reset = fresh := reset_run fresh ops
  have clamped : new s.historySize s.patternLength s.degree s.usePC s.pageBytes
      s.confidenceThreshold = fresh := by
    have size : s.historySize = max 1 history_size := congrArg historySize restored
    have length : s.patternLength = max 1 pattern_length := congrArg patternLength restored
    have steps : s.degree = max 1 degree := congrArg GHBHistory.degree restored
    have pc : s.usePC = use_pc := congrArg usePC restored
    have page : s.pageBytes = max 1 page_bytes := congrArg pageBytes restored
    have threshold : s.confidenceThreshold = min 100 confidence_threshold :=
      congrArg confidenceThreshold restored
    simp only [size, length, steps, pc, page, threshold, new, fresh]
    congr 1 <;> omega
  exact ⟨restored.trans clamped.symm, fun later => by rw [restored]⟩

end GHBHistory

end CachePolicies.Ghb
