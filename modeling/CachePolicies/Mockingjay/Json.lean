import Mathlib

/-! The weights-file reader of `mockingjay.cc`: `trim`, `parseJsonNumber`, `parseJsonBool`
and `extractWeight`, over the `std::string` operations they use. Strings are lists of
characters and `size_t` positions are naturals, with `npos = 2^64 - 1`; the one position that
can wrap, `nameValueStart + 1`, is taken modulo `2^64`. Library exceptions are `Except`.

The search loop of `extractWeight` is run with `json.size() + 1` iterations of fuel; every
iteration moves `pos` strictly forward inside the text, so that fuel is never exhausted. -/

namespace CachePolicies.ReplacementPolicy

abbrev Text := List Char

def npos : Nat := 2 ^ 64 - 1

def dblMax : ℚ := (2 - (1 / 2) ^ 52) * 2 ^ 1023

def dblMin : ℚ := (1 / 2) ^ 1022

def find (text pattern : Text) (pos : Nat) : Nat :=
  ((List.range (text.length + 1)).find? fun i => pos ≤ i && pattern.isPrefixOf (text.drop i)).getD
    npos

def findFirstOf (text chars : Text) (pos : Nat) : Nat :=
  ((List.range text.length).find? fun i => pos ≤ i && chars.contains (text.getD i ' ')).getD npos

def findFirstNotOf (text chars : Text) : Nat :=
  ((List.range text.length).find? fun i => !chars.contains (text.getD i ' ')).getD npos

def findLastNotOf (text chars : Text) : Nat :=
  ((List.range text.length).reverse.find? fun i => !chars.contains (text.getD i ' ')).getD npos

def substr (text : Text) (pos count : Nat) : Except String Text :=
  if text.length < pos then .error "basic_string::substr" else .ok ((text.drop pos).take count)

/-- `std::stod`, from the C++ standard library. After leading white space it reads an optional
sign and a decimal number with optional fraction and exponent, exactly; it throws
`invalid_argument` when no digit starts the text and `out_of_range` when the value exceeds the
largest `double`. It differs from the library in three places: hexadecimal, infinity and NaN
spellings are read only as far as their decimal prefix (`0x10` reads as `0`), a value just above
`dblMax` that the library rounds down to it is rejected, and a nonzero value below `dblMin`, on
which the library reports underflow and throws, is accepted. Results that read numbers through it
are stated for numbers outside these cases. -/
def stod (text : Text) : Except String ℚ :=
  let body := text.dropWhile fun c => c ∈ [' ', '\t', '\n', '\x0b', '\x0c', '\r']
  let (negative, body) := match body with
    | '-' :: rest => (true, rest)
    | '+' :: rest => (false, rest)
    | rest => (false, rest)
  let whole := body.takeWhile Char.isDigit
  let afterWhole := body.dropWhile Char.isDigit
  let fraction := match afterWhole with
    | '.' :: rest => rest.takeWhile Char.isDigit
    | _ => []
  let afterFraction := match afterWhole with
    | '.' :: rest => rest.dropWhile Char.isDigit
    | rest => rest
  if whole.length + fraction.length = 0 then .error "stod" else
  let digits := (whole ++ fraction).foldl (fun n c => 10 * n + (c.toNat - '0'.toNat)) 0
  let exponent : Int := match afterFraction with
    | e :: rest =>
      if e = 'e' ∨ e = 'E' then
        let (minus, rest) := match rest with
          | '-' :: more => (true, more)
          | '+' :: more => (false, more)
          | more => (false, more)
        let power := rest.takeWhile Char.isDigit
        if power.isEmpty then 0 else
        let value : Int := power.foldl (fun n c => 10 * n + (c.toNat - '0'.toNat)) 0
        if minus then -value else value
      else 0
    | [] => 0
  let magnitude : ℚ := digits * (10 : ℚ) ^ (exponent - fraction.length)
  if dblMax < magnitude then .error "stod" else
  .ok (if negative then -magnitude else magnitude)

def whitespace : Text := [' ', '\t', '\n', '\r']

def trim (str : Text) : Except String Text :=
  let first := findFirstNotOf str whitespace
  if first = npos then .ok [] else
  let last := findLastNotOf str whitespace
  substr str first (last - first + 1)

def quoted (key : Text) : Text := '\x22' :: key ++ ['\x22']

def valueEnd : Text := [',', '\x7d']

def parseJsonNumber (json key : Text) : Except String ℚ :=
  let pos := find json (quoted key) 0
  if pos = npos then .ok 0 else
  let pos := find json [':'] pos
  if pos = npos then .ok 0 else
  let pos := pos + 1
  let finish := findFirstOf json valueEnd pos
  if finish = npos then .ok 0 else do
  let value ← trim (← substr json pos (finish - pos))
  stod value

def parseJsonBool (json key : Text) : Except String Bool :=
  let pos := find json (quoted key) 0
  if pos = npos then .ok false else
  let pos := find json [':'] pos
  if pos = npos then .ok false else
  let pos := pos + 1
  let finish := findFirstOf json valueEnd pos
  if finish = npos then .ok false else do
  let value ← trim (← substr json pos (finish - pos))
  return value == "true".toList

/-- How one pass of the search loop of `extractWeight` ends: `break`, `return`, or the next
search position. -/
inductive LoopStep
  | exit
  | done (weight : Except String ℚ)
  | next (pos : Nat)

def extractStep (json featureName : Text) (pos : Nat) : Except String LoopStep :=
  let nameStart := find json [':'] pos
  if nameStart = npos then .ok .exit else
  let nameValueStart := find json ['\x22'] (nameStart + 1)
  let nameValueEnd := find json ['\x22'] ((nameValueStart + 1) % 2 ^ 64)
  if nameValueStart = npos ∨ nameValueEnd = npos then .ok .exit else
  match substr json (nameValueStart + 1) (nameValueEnd - nameValueStart - 1) with
  | .error e => .error e
  | .ok name =>
    if name = featureName then
      let weightPos := find json (quoted "weight".toList) nameValueEnd
      if weightPos = npos then .ok .exit else
      let colonPos := find json [':'] weightPos
      let endPos := findFirstOf json valueEnd colonPos
      if colonPos ≠ npos ∧ endPos ≠ npos then
        match (substr json (colonPos + 1) (endPos - colonPos - 1)).bind trim with
        | .error e => .error e
        | .ok weightStr => .ok (.done (stod weightStr))
      else .ok (.next nameValueEnd)
    else .ok (.next nameValueEnd)

def extractLoop (json featureName : Text) : Nat → Nat → Option (Except String ℚ)
  | 0, _ => none
  | fuel + 1, pos =>
    let found := find json (quoted "name".toList) pos
    if found = npos then some (.ok 0) else
    match extractStep json featureName found with
    | .error e => some (.error e)
    | .ok .exit => some (.ok 0)
    | .ok (.done weight) => some weight
    | .ok (.next next) => extractLoop json featureName fuel next

def extractWeight (json featureName : Text) : Except String ℚ :=
  (extractLoop json featureName (json.length + 1) 0).getD (.ok 0)

theorem find_spec {text pattern : Text} {pos : Nat} (found : find text pattern pos ≠ npos) :
    pos ≤ find text pattern pos ∧ find text pattern pos + pattern.length ≤ text.length := by
  unfold find at found ⊢
  cases located : (List.range (text.length + 1)).find? fun i =>
      pos ≤ i && pattern.isPrefixOf (text.drop i) with
  | none => simp [located] at found
  | some i =>
    have holds := List.find?_some located
    simp only [Bool.and_eq_true, decide_eq_true_eq] at holds
    have fitsIn := (List.isPrefixOf_iff_prefix.mp holds.2).length_le
    simp only [List.length_drop] at fitsIn
    have inRange := List.mem_range.mp (List.mem_of_find?_eq_some located)
    simp only [Option.getD_some]
    omega

theorem lt_of_find_single {text : Text} {c : Char} {pos : Nat} (found : find text [c] pos ≠ npos) :
    pos ≤ find text [c] pos ∧ find text [c] pos < text.length := by
  have := find_spec found
  simp only [List.length_singleton] at this
  omega

theorem extractStep_next {json featureName : Text} {pos next : Nat} (fits : json.length < npos)
    (step : extractStep json featureName pos = .ok (.next next)) :
    pos < next ∧ next < json.length := by
  unfold extractStep at step
  simp only at step
  generalize startsAt : find json [':'] pos = nameStart at step
  generalize valueStartsAt : find json ['\x22'] (nameStart + 1) = nameValueStart at step
  generalize valueEndsAt : find json ['\x22'] ((nameValueStart + 1) % 2 ^ 64) = nameValueEnd at step
  by_cases noColon : nameStart = npos
  · rw [if_pos noColon] at step
    cases step
  by_cases ends : nameValueStart = npos ∨ nameValueEnd = npos
  · rw [if_neg noColon, if_pos ends] at step
    cases step
  rw [if_neg noColon, if_neg ends] at step
  rw [not_or] at ends
  have colon := lt_of_find_single (show find json [':'] pos ≠ npos by rwa [startsAt])
  have start := lt_of_find_single
    (show find json ['\x22'] (nameStart + 1) ≠ npos by rw [valueStartsAt]; exact ends.1)
  have stop := lt_of_find_single
    (show find json ['\x22'] ((nameValueStart + 1) % 2 ^ 64) ≠ npos by
      rw [valueEndsAt]; exact ends.2)
  rw [startsAt] at colon
  rw [valueStartsAt] at start
  rw [valueEndsAt, Nat.mod_eq_of_lt (show nameValueStart + 1 < 2 ^ 64 by unfold npos at fits; omega)]
    at stop
  have moved : pos < nameValueEnd ∧ nameValueEnd < json.length := ⟨by omega, stop.2⟩
  split at step
  · cases step
  split_ifs at step
  all_goals first | (cases step; exact moved) | cases step | (split at step <;> cases step)

theorem extractLoop_finishes {json featureName : Text} (fits : json.length < npos) (fuel : Nat) :
    ∀ pos, json.length - pos + 1 ≤ fuel →
      ∃ result, ∀ more, extractLoop json featureName (fuel + more) pos = some result := by
  induction fuel with
  | zero => intro pos bound; omega
  | succ fuel ih =>
    intro pos bound
    have unfolded : ∀ more, extractLoop json featureName (fuel + 1 + more) pos =
        extractLoop json featureName (fuel + more + 1) pos := fun more => by
      rw [Nat.add_right_comm]
    by_cases absent : find json (quoted "name".toList) pos = npos
    · exact ⟨.ok 0, fun more => by simp only [unfolded, extractLoop, if_pos absent]⟩
    cases step : extractStep json featureName (find json (quoted "name".toList) pos) with
    | error e => exact ⟨.error e, fun more => by simp only [unfolded, extractLoop, if_neg absent, step]⟩
    | ok outcome =>
      cases outcome with
      | exit => exact ⟨.ok 0, fun more => by simp only [unfolded, extractLoop, if_neg absent, step]⟩
      | done weight =>
        exact ⟨weight, fun more => by simp only [unfolded, extractLoop, if_neg absent, step]⟩
      | next next =>
        have moved := extractStep_next fits step
        have started := (find_spec absent).1
        obtain ⟨result, stable⟩ := ih next (by omega)
        exact ⟨result, fun more => by
          simp only [unfolded, extractLoop, if_neg absent, step]
          exact stable more⟩

/-- Each pass of the search loop of `extractWeight` either ends the loop or moves `pos` past
the `"name"` match it started from, so `json.size() - pos` decreases, and the loop ends within
`json.size() + 1` passes with the value `extractWeight` returns. -/
theorem extractWeight_terminates (json featureName : Text) (fits : json.length < npos) :
    (∀ pos next, find json (quoted "name".toList) pos ≠ npos →
      extractStep json featureName (find json (quoted "name".toList) pos) = .ok (.next next) →
        find json (quoted "name".toList) pos < next ∧ json.length - next < json.length - pos) ∧
    ∀ fuel, json.length + 1 ≤ fuel →
      extractLoop json featureName fuel 0 = some (extractWeight json featureName) := by
  refine ⟨fun pos next found step => ?_, fun fuel enough => ?_⟩
  · have moved := extractStep_next fits step
    have started := (find_spec found).1
    exact ⟨moved.1, by omega⟩
  · obtain ⟨result, stable⟩ := @extractLoop_finishes json featureName fits (json.length + 1) 0
      (by omega)
    have initial := stable 0
    rw [Nat.add_zero] at initial
    rw [show fuel = json.length + 1 + (fuel - (json.length + 1)) by omega, stable, extractWeight,
      initial]
    rfl

theorem extractWeight_terminates_entry :
    let json : Text := "\x7b\x22name\x22:\x22pc_hash\x22,\x22weight\x22:1\x7d".toList
    json.length < npos ∧
    (∀ pos next, find json (quoted "name".toList) pos ≠ npos →
      extractStep json "age".toList (find json (quoted "name".toList) pos) = .ok (.next next) →
        find json (quoted "name".toList) pos < next ∧ json.length - next < json.length - pos) ∧
    ∀ fuel, json.length + 1 ≤ fuel →
      extractLoop json "age".toList fuel 0 = some (extractWeight json "age".toList) :=
  ⟨by decide, extractWeight_terminates _ _ (by decide)⟩

end CachePolicies.ReplacementPolicy
