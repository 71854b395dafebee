import CachePolicies.Mockingjay.Policy

/-! `loadWeights` of `mockingjay.cc` and the constructor that calls it. The `try` block assigns
each member as soon as its value is read, and the `catch` block only warns, so a throw keeps
every assignment made before it: the block is a program in `EStateM`, whose state survives an
exception. A key absent from the file reads as `0` or `false`; `learning_rate` is applied only
when positive, while `enable_online_learning` is always assigned. -/

namespace CachePolicies.ReplacementPolicy

namespace Mockingjay

def parseWeights (json : Text) : EStateM String Mockingjay Unit := do
  let pcHash ← liftExcept (extractWeight json "pc_hash".toList)
  modify fun m => { m with weightPcHash := pcHash }
  let age ← liftExcept (extractWeight json "age".toList)
  modify fun m => { m with weightAge := age }
  let accessCount ← liftExcept (extractWeight json "access_count".toList)
  modify fun m => { m with weightAccessCount := accessCount }
  let reuseDistance ← liftExcept (extractWeight json "reuse_distance".toList)
  modify fun m => { m with weightReuseDistance := reuseDistance }
  let bias ← liftExcept (parseJsonNumber json "bias".toList)
  modify fun m => { m with bias := bias }
  let fileLearningRate ← liftExcept (parseJsonNumber json "learning_rate".toList)
  if 0 < fileLearningRate then
    modify fun m => { m with learningRate := fileLearningRate }
  let fileOnlineLearning ← liftExcept (parseJsonBool json "enable_online_learning".toList)
  modify fun m => { m with enableOnlineLearning := fileOnlineLearning }

def openWarning (weightsFile : String) : String :=
  "Mockingjay: Could not open weights file \x27" ++ weightsFile ++ "\x27, using defaults\n"

def parseWarning (what : String) : String :=
  "Mockingjay: Error parsing weights file: " ++ what ++ ", using defaults\n"

def afterTry : EStateM.Result String Mockingjay Unit → Mockingjay × Option String
  | .ok () loaded => (loaded, none)
  | .error what loaded => (loaded, some (parseWarning what))

/-- `loadWeights` returns the members after the call and the warning it prints, if any; `file`
is the text at `weightsFile`, `none` when it cannot be opened. -/
def loadWeights (m : Mockingjay) (weightsFile : String) (file : Option Text) :
    Mockingjay × Option String :=
  match file with
  | none => (m, some (openWarning weightsFile))
  | some json => afterTry ((parseWeights json).run m)

/-- The constructor: the member initializers, then `loadWeights` when `weights_file` is set, with
`file` the text found at that path. -/
noncomputable def new (learning_rate : ℝ) (enable_online_learning : Bool) (weights_file : String)
    (file : Option Text) : Mockingjay :=
  let m := initial learning_rate enable_online_learning
  if weights_file.isEmpty then m else (m.loadWeights weights_file file).1

theorem extractWeight_of_no_name {json : Text} (featureName : Text)
    (absent : find json (quoted "name".toList) 0 = npos) : extractWeight json featureName = .ok 0 := by
  simp only [extractWeight, extractLoop, absent, if_true, Option.getD_some]

theorem parseJsonNumber_of_absent {json key : Text} (absent : find json (quoted key) 0 = npos) :
    parseJsonNumber json key = .ok 0 := by
  simp only [parseJsonNumber, absent, if_true]

theorem parseJsonBool_of_absent {json key : Text} (absent : find json (quoted key) 0 = npos) :
    parseJsonBool json key = .ok false := by
  simp only [parseJsonBool, absent, if_true]

section Run

variable {json : Text} {m : Mockingjay}

theorem liftExcept_bind_run {α : Type} (value : Except String α)
    (next : α → EStateM String Mockingjay Unit) :
    (liftExcept value >>= next : EStateM String Mockingjay Unit).run m =
      match value with
      | .ok a => (next a).run m
      | .error e => .error e m := by
  cases value <;> rfl

@[simp] theorem modify_bind_run (write : Mockingjay → Mockingjay)
    (next : Unit → EStateM String Mockingjay Unit) :
    (modify write >>= next : EStateM String Mockingjay Unit).run m = (next ()).run (write m) :=
  rfl

theorem modify_run (write : Mockingjay → Mockingjay) :
    (modify write : EStateM String Mockingjay Unit).run m = .ok () (write m) :=
  rfl

theorem ite_run {c : Prop} [Decidable c] (x y : EStateM String Mockingjay Unit) :
    (if c then x else y).run m = if c then x.run m else y.run m := by
  split_ifs <;> rfl

theorem loadWeights_frame (weightsFile : String) (file : Option Text) :
    (m.loadWeights weightsFile file).1.evictTable = m.evictTable ∧
      (m.loadWeights weightsFile file).1.globalAccessCounter = m.globalAccessCounter := by
  rcases file with _ | json
  · exact ⟨rfl, rfl⟩
  simp only [loadWeights, parseWeights, liftExcept_bind_run, modify_bind_run, modify_run, ite_run,
    pure_bind]
  repeat' split
  all_goals exact ⟨rfl, rfl⟩

theorem parseWeights_run_ok {pcHash age accessCount reuseDistance bias fileLearningRate : ℚ}
    {fileOnlineLearning : Bool}
    (readPcHash : extractWeight json "pc_hash".toList = .ok pcHash)
    (readAge : extractWeight json "age".toList = .ok age)
    (readAccessCount : extractWeight json "access_count".toList = .ok accessCount)
    (readReuseDistance : extractWeight json "reuse_distance".toList = .ok reuseDistance)
    (readBias : parseJsonNumber json "bias".toList = .ok bias)
    (readLearningRate : parseJsonNumber json "learning_rate".toList = .ok fileLearningRate)
    (readOnlineLearning :
      parseJsonBool json "enable_online_learning".toList = .ok fileOnlineLearning) :
    (parseWeights json).run m = .ok ()
      { m with weightPcHash := pcHash, weightAge := age, weightAccessCount := accessCount,
               weightReuseDistance := reuseDistance, bias := bias,
               learningRate := if 0 < fileLearningRate then (fileLearningRate : ℝ) else m.learningRate,
               enableOnlineLearning := fileOnlineLearning } := by
  simp only [parseWeights, readPcHash, readAge, readAccessCount, readReuseDistance, readBias,
    readLearningRate, readOnlineLearning, liftExcept_bind_run, modify_bind_run]
  split_ifs <;> rfl

theorem parseWeights_run_bias_error {pcHash age accessCount reuseDistance : ℚ} {e : String}
    (readPcHash : extractWeight json "pc_hash".toList = .ok pcHash)
    (readAge : extractWeight json "age".toList = .ok age)
    (readAccessCount : extractWeight json "access_count".toList = .ok accessCount)
    (readReuseDistance : extractWeight json "reuse_distance".toList = .ok reuseDistance)
    (readBias : parseJsonNumber json "bias".toList = .error e) :
    (parseWeights json).run m = .error e
      { m with weightPcHash := pcHash, weightAge := age, weightAccessCount := accessCount,
               weightReuseDistance := reuseDistance } := by
  simp only [parseWeights, readPcHash, readAge, readAccessCount, readReuseDistance, readBias,
    liftExcept_bind_run, modify_bind_run]

/-- The weights file `\x7b"bias":x\x7d` names no feature, so the four weights read as `0` and are
assigned; then `stod("x")` throws, and the `catch` block warns that defaults are used while the
weights stay assigned. The file `\x7b\x7d` has no `enable_online_learning` key, and online
learning is switched off. -/
theorem loadWeights_keeps_partial_writes (m : Mockingjay) (weightsFile : String) :
    (parseWeights "\x7b\x22bias\x22:x\x7d".toList).run m = .error "stod"
      { m with weightPcHash := 0, weightAge := 0, weightAccessCount := 0, weightReuseDistance := 0 } ∧
    m.loadWeights weightsFile (some "\x7b\x22bias\x22:x\x7d".toList) =
      ({ m with weightPcHash := 0, weightAge := 0, weightAccessCount := 0, weightReuseDistance := 0 },
        some "Mockingjay: Error parsing weights file: stod, using defaults\n") ∧
    m.loadWeights weightsFile (some "\x7b\x7d".toList) =
      ({ m with weightPcHash := 0, weightAge := 0, weightAccessCount := 0, weightReuseDistance := 0,
                bias := 0, enableOnlineLearning := false }, none) := by
  have noName : find "\x7b\x22bias\x22:x\x7d".toList (quoted "name".toList) 0 = npos := by decide
  have thrown : (parseWeights "\x7b\x22bias\x22:x\x7d".toList).run m = .error "stod"
      { m with weightPcHash := 0, weightAge := 0, weightAccessCount := 0, weightReuseDistance := 0 } := by
    rw [parseWeights_run_bias_error (extractWeight_of_no_name _ noName)
      (extractWeight_of_no_name _ noName) (extractWeight_of_no_name _ noName)
      (extractWeight_of_no_name _ noName) (by rfl), Rat.cast_zero]
  obtain ⟨emptyName, emptyBias, emptyRate, emptyFlag⟩ :
      find "\x7b\x7d".toList (quoted "name".toList) 0 = npos ∧
      find "\x7b\x7d".toList (quoted "bias".toList) 0 = npos ∧
      find "\x7b\x7d".toList (quoted "learning_rate".toList) 0 = npos ∧
      find "\x7b\x7d".toList (quoted "enable_online_learning".toList) 0 = npos := by decide
  refine ⟨thrown, by rw [loadWeights, thrown]; rfl, ?_⟩
  rw [loadWeights, parseWeights_run_ok (extractWeight_of_no_name _ emptyName)
    (extractWeight_of_no_name _ emptyName) (extractWeight_of_no_name _ emptyName)
    (extractWeight_of_no_name _ emptyName) (parseJsonNumber_of_absent emptyBias)
    (parseJsonNumber_of_absent emptyRate) (parseJsonBool_of_absent emptyFlag)]
  simp only [afterTry, lt_irrefl, if_false, Rat.cast_zero]

end Run

end Mockingjay

end CachePolicies.ReplacementPolicy
