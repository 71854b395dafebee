import CachePolicies.Mockingjay.Lookup

/-! The weights file read back. A file that writes the four features as `name`/`weight` objects
in a `features` array, then `bias`, `learning_rate` and `enable_online_learning`, with numbers
made of digits, signs, points and exponent letters and any white space after each `:` and `,`,
is read by `loadWeights` as the values `std::stod` gives its numbers. The searches of the
reader find each key where the file writes it because every quote of such a file belongs to a
quoted word: a quoted key occurs in it only as one of the texts between two of its quotes. -/

namespace CachePolicies.ReplacementPolicy

section Quotes

def quoteJoin (s0 : Text) (segments : List Text) : Text :=
  s0 ++ (segments.map ('\x22' :: ·)).flatten

theorem quoteJoin_cons (s0 s : Text) (rest : List Text) :
    quoteJoin s0 (s :: rest) = s0 ++ '\x22' :: quoteJoin s rest := by
  simp only [quoteJoin, List.map_cons, List.flatten_cons, List.cons_append, List.append_assoc]

theorem quoteJoin_concat (s0 last : Text) (segments : List Text) :
    quoteJoin s0 segments ++ '\x22' :: last = quoteJoin s0 (segments ++ [last]) := by
  simp only [quoteJoin, List.map_append, List.flatten_append, List.map_cons, List.map_nil,
    List.flatten_cons, List.flatten_nil, List.append_nil, List.append_assoc]

variable {m : Text}

theorem not_quoted_infix_of_count {text : Text} (fewer : text.count '\x22' < 2) :
    ¬ quoted m <:+: text := fun occurs => by
  have := occurs.count_le '\x22'
  simp only [quoted, List.count_cons, List.count_append, List.count_singleton] at this
  simp at this
  omega

theorem eq_of_prefix_through_quote {q : Char} :
    ∀ {m A : Text} {Y : Text}, q ∉ m → q ∉ A → m ++ [q] <+: A ++ q :: Y → m = A
  | [], [], _, _, _, _ => rfl
  | [], a :: _, _, _, plainA, occurs => by
    simp only [List.nil_append, List.cons_append, List.cons_prefix_cons] at occurs
    exact absurd (occurs.1 ▸ List.mem_cons_self a _) plainA
  | b :: _, [], _, plainM, _, occurs => by
    simp only [List.cons_append, List.nil_append, List.cons_prefix_cons] at occurs
    exact absurd (occurs.1 ▸ List.mem_cons_self b _) plainM
  | b :: m, a :: A, Y, plainM, plainA, occurs => by
    simp only [List.cons_append, List.cons_prefix_cons] at occurs
    rw [occurs.1, eq_of_prefix_through_quote (List.not_mem_of_not_mem_cons plainM)
      (List.not_mem_of_not_mem_cons plainA) occurs.2]

theorem prefix_through_quote {q : Char} :
    ∀ {m A : Text} {Y : Text}, q ∉ m → m ++ [q] <+: A ++ q :: Y → m ++ [q] <+: A ++ [q]
  | _, [], _, plainM, occurs => by
    rw [eq_of_prefix_through_quote plainM (List.not_mem_nil q) occurs]
  | [], a :: _, _, _, occurs => by
    simp only [List.nil_append, List.cons_append, List.cons_prefix_cons] at occurs ⊢
    exact ⟨occurs.1, List.nil_prefix⟩
  | b :: m, a :: A, Y, plainM, occurs => by
    simp only [List.cons_append, List.cons_prefix_cons] at occurs ⊢
    exact ⟨occurs.1, prefix_through_quote (List.not_mem_of_not_mem_cons plainM) occurs.2⟩

theorem quoted_infix_split (plain : '\x22' ∉ m) :
    ∀ {A Y : Text}, quoted m <:+: A ++ '\x22' :: Y →
      quoted m <:+: A ++ ['\x22'] ∨ quoted m <:+: '\x22' :: Y
  | [], _, occurs => .inr occurs
  | a :: A, Y, occurs => by
    rw [List.cons_append, List.infix_cons_iff] at occurs
    rcases occurs with atStart | later
    · simp only [quoted, List.cons_append, List.cons_prefix_cons] at atStart
      refine .inl (List.IsPrefix.isInfix ?_)
      rw [List.cons_append, ← atStart.1, quoted, List.cons_append, List.cons_prefix_cons]
      exact ⟨rfl, prefix_through_quote plain atStart.2⟩
    · rcases quoted_infix_split plain later with before | after
      · exact .inl (before.trans (List.infix_cons (List.infix_refl _)))
      · exact .inr after

theorem eq_of_quoted_between {s : Text} (plain : '\x22' ∉ m) (plainS : '\x22' ∉ s)
    (occurs : quoted m <:+: '\x22' :: s ++ ['\x22']) : m = s := by
  rw [List.cons_append, List.infix_cons_iff] at occurs
  rcases occurs with atStart | inside
  · simp only [quoted, List.cons_append, List.cons_prefix_cons] at atStart
    exact eq_of_prefix_through_quote plain plainS atStart.2
  · refine absurd inside (not_quoted_infix_of_count ?_)
    simp [List.count_append, List.count_eq_zero.mpr plainS]

variable {s0 : Text} {segments : List Text}

theorem quoted_infix_quoteJoin_after (plain : '\x22' ∉ m) :
    ∀ {s : Text} {segments : List Text}, '\x22' ∉ s → (∀ t ∈ segments, '\x22' ∉ t) →
      quoted m <:+: '\x22' :: quoteJoin s segments → m ∈ (s :: segments).dropLast
  | s, [], plainS, _, occurs => by
    refine absurd occurs (not_quoted_infix_of_count ?_)
    simp [quoteJoin, List.count_eq_zero.mpr plainS]
  | s, t :: rest, plainS, plainRest, occurs => by
    rw [quoteJoin_cons, ← List.cons_append] at occurs
    rw [List.dropLast_cons₂, List.mem_cons]
    rcases quoted_infix_split plain occurs with here | later
    · exact .inl (eq_of_quoted_between plain plainS here)
    · exact .inr (quoted_infix_quoteJoin_after plain (plainRest t (List.mem_cons_self _ _))
        (fun u member => plainRest u (List.mem_cons_of_mem _ member)) later)

theorem quoted_infix_quoteJoin (plain : '\x22' ∉ m) (plainS0 : '\x22' ∉ s0)
    (plainSegments : ∀ t ∈ segments, '\x22' ∉ t) (occurs : quoted m <:+: quoteJoin s0 segments) :
    m ∈ segments.dropLast := by
  cases segments with
  | nil =>
    refine absurd occurs (not_quoted_infix_of_count ?_)
    simp [quoteJoin, List.count_eq_zero.mpr plainS0]
  | cons s rest =>
    rw [quoteJoin_cons] at occurs
    rcases quoted_infix_split plain occurs with before | after
    · refine absurd before (not_quoted_infix_of_count ?_)
      simp [List.count_append, List.count_eq_zero.mpr plainS0]
    · exact quoted_infix_quoteJoin_after plain (plainSegments s (List.mem_cons_self _ _))
        (fun u member => plainSegments u (List.mem_cons_of_mem _ member)) after

theorem first_of_quoteJoin {key : Text} (plain : '\x22' ∉ key) (plainS0 : '\x22' ∉ s0)
    (plainSegments : ∀ t ∈ segments, '\x22' ∉ t) (fresh : key ∉ segments) :
    ¬ quoted key <:+: quoteJoin s0 segments ++ (quoted key).dropLast := fun occurs => by
  rw [quoted, List.dropLast_concat, quoteJoin_concat] at occurs
  have := quoted_infix_quoteJoin plain plainS0
    (fun t member => (List.mem_append.mp member).elim (plainSegments t)
      fun last => (List.mem_singleton.mp last) ▸ plain) occurs
  rw [List.dropLast_concat] at this
  exact fresh this

theorem first_after_quote {key before : Text}
    (segmented : '\x22' :: before = quoteJoin [] segments) (plain : '\x22' ∉ key)
    (plainSegments : ∀ t ∈ segments, '\x22' ∉ t) (fresh : key ∉ segments) :
    ¬ quoted key <:+: '\x22' :: before ++ (quoted key).dropLast := by
  rw [segmented]
  exact first_of_quoteJoin plain (List.not_mem_nil _) plainSegments fresh

end Quotes

section File

/-- A character of a number as a weights file writes it: a digit, a sign, a point or an
exponent letter. -/
def numberChar (c : Char) : Bool := c.isDigit || ['.', '-', '+', 'e', 'E'].contains c

theorem numberChar_plain {c : Char} (number : numberChar c = true) :
    c ≠ '\x22' ∧ c ∉ valueEnd ∧ isWhitespace c = false := by
  refine ⟨fun quote => absurd number (by rw [quote]; decide), fun ends => ?_, ?_⟩
  · simp only [valueEnd, List.mem_cons, List.mem_singleton, List.not_mem_nil, or_false] at ends
    rcases ends with rfl | rfl <;> exact absurd number (by decide)
  · cases white : isWhitespace c
    · rfl
    · have listed : c ∈ whitespace := by simpa [isWhitespace] using white
      simp only [whitespace, List.mem_cons, List.mem_singleton, List.not_mem_nil, or_false]
        at listed
      rcases listed with rfl | rfl | rfl | rfl <;> exact absurd number (by decide)

theorem strip_gap {gap t : Text} (spacing : ∀ c ∈ gap, isWhitespace c = true)
    (plain : ∀ c ∈ t, isWhitespace c = false) : strip (gap ++ t) = t := by
  have dropped : (gap ++ t).dropWhile isWhitespace = t := by
    rw [List.dropWhile_append,
      if_pos (List.isEmpty_iff.mpr (List.dropWhile_eq_nil_iff.mpr spacing))]
    exact List.dropWhile_eq_self_iff.mpr fun nonempty => by
      simpa using plain _ (List.getElem_mem nonempty)
  rw [strip, dropped, List.rdropWhile_eq_self_iff.mpr fun nonempty => by
    simp [plain _ (List.getLast_mem nonempty)]]

def member (gap key value : Text) : Text := quoted key ++ ':' :: gap ++ value

def featureObject (gap name weight : Text) : Text :=
  '\x7b' :: member gap "name".toList (quoted name) ++ ',' :: gap ++
    member gap "weight".toList weight ++ ['\x7d']

def flagText (flag : Bool) : Text := (if flag then "true" else "false").toList

theorem flagText_plain (flag : Bool) :
    (∀ c ∈ flagText flag, c ∉ valueEnd) ∧ ∀ c ∈ flagText flag, isWhitespace c = false := by
  cases flag <;> decide

theorem flagText_read (flag : Bool) : (flagText flag == "true".toList) = flag := by
  cases flag <;> rfl

/-- What a weights file writes: the texts of its six numbers, whether online learning is on,
and the white space written after each `:` and `,`. -/
structure WeightsFile where
  pcHash : Text
  age : Text
  accessCount : Text
  reuseDistance : Text
  bias : Text
  learningRate : Text
  enableOnlineLearning : Bool
  gap : Text
  numbers : ∀ t ∈ [pcHash, age, accessCount, reuseDistance, bias, learningRate],
    ∀ c ∈ t, numberChar c = true
  spacing : ∀ c ∈ gap, isWhitespace c = true

namespace WeightsFile

def features (f : WeightsFile) : Text :=
  '[' :: featureObject f.gap "pc_hash".toList f.pcHash ++ ',' :: f.gap ++
    featureObject f.gap "age".toList f.age ++ ',' :: f.gap ++
    featureObject f.gap "access_count".toList f.accessCount ++ ',' :: f.gap ++
    featureObject f.gap "reuse_distance".toList f.reuseDistance ++ [']']

def settings (f : WeightsFile) : Text :=
  member f.gap "bias".toList f.bias ++ ',' :: f.gap ++
    member f.gap "learning_rate".toList f.learningRate ++ ',' :: f.gap ++
    member f.gap "enable_online_learning".toList (flagText f.enableOnlineLearning) ++ ['\x7d']

def text (f : WeightsFile) : Text :=
  '\x7b' :: member f.gap "features".toList f.features ++ ',' :: f.gap ++ f.settings

example : text ⟨"0.25".toList, "0.35".toList, "-0.3".toList, "0.4".toList, "0".toList,
    "0.001".toList, true, " ".toList, by decide, by decide⟩ =
    ("\x7b\"features\": [\x7b\"name\": \"pc_hash\", \"weight\": 0.25\x7d, " ++
      "\x7b\"name\": \"age\", \"weight\": 0.35\x7d, " ++
      "\x7b\"name\": \"access_count\", \"weight\": -0.3\x7d, " ++
      "\x7b\"name\": \"reuse_distance\", \"weight\": 0.4\x7d], \"bias\": 0, " ++
      "\"learning_rate\": 0.001, \"enable_online_learning\": true\x7d").toList :=
  rfl

variable (f : WeightsFile)

theorem quote_not_mem_gap : '\x22' ∉ f.gap := fun member =>
  absurd (f.spacing _ member) (by decide)

theorem number_plain {t : Text}
    (written : t ∈ [f.pcHash, f.age, f.accessCount, f.reuseDistance, f.bias, f.learningRate]) :
    '\x22' ∉ t ∧ (∀ c ∈ t, c ∉ valueEnd) ∧ ∀ c ∈ t, isWhitespace c = false :=
  ⟨fun quote => (numberChar_plain (f.numbers t written _ quote)).1 rfl,
    fun c member => (numberChar_plain (f.numbers t written c member)).2.1,
    fun c member => (numberChar_plain (f.numbers t written c member)).2.2⟩

def firstEntry : NameEntry where
  before := '\x7b' :: quoted "features".toList ++ ':' :: f.gap ++ ['[', '\x7b']
  afterKey := []
  beforeValue := f.gap
  name := "pc_hash".toList
  clean := @first_after_quote [['\x7b'], "features".toList, ':' :: f.gap ++ ['[', '\x7b']] _ _
    (by simp only [quoteJoin, quoted, List.map_cons, List.map_nil, List.flatten_cons,
      List.flatten_nil, List.append_nil, List.nil_append, List.cons_append, List.append_assoc,
      List.singleton_append])
    (by decide) (by simp [f.quote_not_mem_gap]) (by simp)
  keyEnds := List.not_mem_nil _
  valueStarts := f.quote_not_mem_gap
  nameCloses := by decide

def nextEntry (previous name : Text) (plainPrevious : '\x22' ∉ previous)
    (plainName : '\x22' ∉ name) : NameEntry where
  before := ',' :: f.gap ++ quoted "weight".toList ++ ':' :: f.gap ++ previous ++
    '\x7d' :: ',' :: f.gap ++ ['\x7b']
  afterKey := []
  beforeValue := f.gap
  name := name
  clean := @first_after_quote
    [',' :: f.gap, "weight".toList, ':' :: f.gap ++ previous ++ '\x7d' :: ',' :: f.gap ++ ['\x7b']]
    _ _ (by simp only [quoteJoin, quoted, List.map_cons, List.map_nil, List.flatten_cons,
      List.flatten_nil, List.append_nil, List.nil_append, List.cons_append, List.append_assoc,
      List.singleton_append])
    (by decide) (by simp [f.quote_not_mem_gap, plainPrevious]) (by simp)
  keyEnds := List.not_mem_nil _
  valueStarts := f.quote_not_mem_gap
  nameCloses := plainName

def entries : List NameEntry :=
  [f.firstEntry,
    f.nextEntry f.pcHash "age".toList (f.number_plain (by simp)).1 (by decide),
    f.nextEntry f.age "access_count".toList (f.number_plain (by simp)).1 (by decide),
    f.nextEntry f.accessCount "reuse_distance".toList (f.number_plain (by simp)).1 (by decide)]

def afterEntries : Text :=
  ',' :: f.gap ++ quoted "weight".toList ++ ':' :: f.gap ++ f.reuseDistance ++
    '\x7d' :: ']' :: ',' :: f.gap ++ f.settings

theorem text_eq_entries : f.text = renderEntries f.entries ++ f.afterEntries := by
  simp only [text, features, featureObject, member, entries, firstEntry, nextEntry, afterEntries,
    renderEntries, NameEntry.text, quoted, List.append_assoc, List.cons_append, List.nil_append,
    List.singleton_append, List.append_nil]

theorem gap_open : ∀ c ∈ f.gap, c ∉ valueEnd := fun c member ends => by
  have white := f.spacing c member
  simp only [valueEnd, List.mem_cons, List.mem_singleton, List.not_mem_nil, or_false] at ends
  rcases ends with rfl | rfl <;> exact absurd white (by decide)

theorem renderEntries_nextEntry {previous name : Text} (plainPrevious : '\x22' ∉ previous)
    (plainName : '\x22' ∉ name) (later : List NameEntry) (tail : Text) :
    renderEntries (f.nextEntry previous name plainPrevious plainName :: later) ++ tail =
      (',' :: f.gap) ++ quoted "weight".toList ++ [] ++ ':' :: (f.gap ++ previous) ++ '\x7d' ::
        (',' :: f.gap ++ '\x7b' :: (quoted "name".toList ++ ':' :: f.gap ++ '\x22' :: name ++
          '\x22' :: (renderEntries later ++ tail))) := by
  simp only [renderEntries, NameEntry.text, nextEntry, List.append_assoc, List.cons_append,
    List.nil_append, List.singleton_append, List.append_nil]

theorem extractWeight_entry {skipped later : List NameEntry} {e : NameEntry} {t post : Text}
    (split : f.entries = skipped ++ e :: later) (others : ∀ s ∈ skipped, s.name ≠ e.name)
    (weighted : renderEntries later ++ f.afterEntries =
      (',' :: f.gap) ++ quoted "weight".toList ++ [] ++ ':' :: (f.gap ++ t) ++ '\x7d' :: post)
    (written : t ∈ [f.pcHash, f.age, f.accessCount, f.reuseDistance, f.bias, f.learningRate])
    (fits : f.text.length < npos) :
    extractWeight f.text e.name = stod t := by
  obtain ⟨-, valueOpen, plain⟩ := f.number_plain written
  have firstWeight : ¬ quoted "weight".toList <:+:
      '\x22' :: (',' :: f.gap) ++ (quoted "weight".toList).dropLast :=
    @first_after_quote [',' :: f.gap] _ _ (by simp [quoteJoin]) (by decide)
      (by simp [f.quote_not_mem_gap]) (by simp)
  rw [text_eq_entries, split] at fits ⊢
  have loop := extractLoop_hit firstWeight (List.not_mem_nil _)
    (fun c member => (List.mem_append.mp member).elim (f.gap_open c) (valueOpen c))
    (by decide : '\x7d' ∈ valueEnd) e rfl later weighted skipped [] [] (skipped.length + 1)
    (.inl rfl) (Nat.lt_succ_self _) others fits
  simp only [List.nil_append, List.length_nil, strip_gap f.spacing plain] at loop
  refine extractWeight_of_extractLoop ?_ loop
  have := length_le_renderEntries (skipped ++ e :: later)
  simp only [List.length_append, List.length_cons] at this ⊢; omega

theorem extractWeight_text (fits : f.text.length < npos) :
    extractWeight f.text "pc_hash".toList = stod f.pcHash ∧
      extractWeight f.text "age".toList = stod f.age ∧
      extractWeight f.text "access_count".toList = stod f.accessCount ∧
      extractWeight f.text "reuse_distance".toList = stod f.reuseDistance := by
  have readPcHash : extractWeight f.text "pc_hash".toList = stod f.pcHash :=
    @extractWeight_entry f [] (f.entries.drop 1) f.firstEntry f.pcHash _ rfl
      (fun _ absent => absurd absent (List.not_mem_nil _)) (f.renderEntries_nextEntry _ _ _ _)
      (by simp) fits
  have readAge : extractWeight f.text "age".toList = stod f.age :=
    @extractWeight_entry f (f.entries.take 1) (f.entries.drop 2)
      (f.nextEntry f.pcHash "age".toList (f.number_plain (by simp)).1 (by decide)) f.age _ rfl
      (by simp [entries, firstEntry, nextEntry]) (f.renderEntries_nextEntry _ _ _ _) (by simp) fits
  have readAccessCount : extractWeight f.text "access_count".toList = stod f.accessCount :=
    @extractWeight_entry f (f.entries.take 2) (f.entries.drop 3)
      (f.nextEntry f.age "access_count".toList (f.number_plain (by simp)).1 (by decide))
      f.accessCount _ rfl (by simp [entries, firstEntry, nextEntry])
      (f.renderEntries_nextEntry _ _ _ _) (by simp) fits
  have readReuseDistance : extractWeight f.text "reuse_distance".toList = stod f.reuseDistance :=
    @extractWeight_entry f (f.entries.take 3) []
      (f.nextEntry f.accessCount "reuse_distance".toList (f.number_plain (by simp)).1 (by decide))
      f.reuseDistance (']' :: ',' :: f.gap ++ f.settings) rfl
      (by simp [entries, firstEntry, nextEntry])
      (by simp only [renderEntries, afterEntries, List.nil_append, List.append_nil,
        List.append_assoc, List.cons_append]) (by simp) fits
  exact ⟨readPcHash, readAge, readAccessCount, readReuseDistance⟩

def featureSegments : List Text :=
  ["features".toList, ':' :: f.gap ++ ['[', '\x7b'],
    "name".toList, ':' :: f.gap, "pc_hash".toList, ',' :: f.gap,
    "weight".toList, ':' :: f.gap ++ f.pcHash ++ '\x7d' :: ',' :: f.gap ++ ['\x7b'],
    "name".toList, ':' :: f.gap, "age".toList, ',' :: f.gap,
    "weight".toList, ':' :: f.gap ++ f.age ++ '\x7d' :: ',' :: f.gap ++ ['\x7b'],
    "name".toList, ':' :: f.gap, "access_count".toList, ',' :: f.gap,
    "weight".toList, ':' :: f.gap ++ f.accessCount ++ '\x7d' :: ',' :: f.gap ++ ['\x7b'],
    "name".toList, ':' :: f.gap, "reuse_distance".toList, ',' :: f.gap,
    "weight".toList, ':' :: f.gap ++ f.reuseDistance ++ '\x7d' :: ']' :: ',' :: f.gap]

theorem text_eq_settings : f.text = quoteJoin ['\x7b'] f.featureSegments ++
    (member f.gap "bias".toList f.bias ++ ',' :: (f.gap ++
      (member f.gap "learning_rate".toList f.learningRate ++ ',' :: (f.gap ++
        (member f.gap "enable_online_learning".toList (flagText f.enableOnlineLearning) ++
          ['\x7d']))))) := by
  simp only [text, features, featureObject, settings, member, featureSegments, quoteJoin, quoted,
    List.map_cons, List.map_nil, List.flatten_cons, List.flatten_nil, List.append_assoc,
    List.cons_append, List.nil_append, List.singleton_append, List.append_nil]

theorem quoteJoin_member (s0 : Text) (segments : List Text) (key value rest : Text) :
    quoteJoin s0 segments ++ (member f.gap key value ++ ',' :: (f.gap ++ rest)) =
      quoteJoin s0 (segments ++ [key, ':' :: f.gap ++ value ++ ',' :: f.gap]) ++ rest := by
  simp only [member, quoteJoin, quoted, List.map_append, List.map_cons, List.map_nil,
    List.flatten_append, List.flatten_cons, List.flatten_nil, List.append_assoc,
    List.cons_append, List.nil_append, List.singleton_append, List.append_nil]

theorem parseJson_setting {segments : List Text} {key value rest : Text} {stop : Char}
    (plainSegments : ∀ t ∈ segments, '\x22' ∉ t) (plainKey : '\x22' ∉ key)
    (keyNoColon : ':' ∉ key) (fresh : key ∉ segments) (valueOpen : ∀ c ∈ value, c ∉ valueEnd)
    (plain : ∀ c ∈ value, isWhitespace c = false) (stops : stop ∈ valueEnd)
    (fits : (quoteJoin ['\x7b'] segments ++ (member f.gap key value ++ stop :: rest)).length <
      npos) :
    parseJsonNumber (quoteJoin ['\x7b'] segments ++ (member f.gap key value ++ stop :: rest))
        key = stod value ∧
      parseJsonBool (quoteJoin ['\x7b'] segments ++ (member f.gap key value ++ stop :: rest))
        key = .ok (value == "true".toList) := by
  have shape : quoteJoin ['\x7b'] segments ++ (member f.gap key value ++ stop :: rest) =
      quoteJoin ['\x7b'] segments ++ quoted key ++ [] ++ ':' :: (f.gap ++ value) ++
        stop :: rest := by
    simp only [member, List.append_assoc, List.cons_append, List.nil_append]
  rw [shape] at fits ⊢
  have read := parseJson_at_member
    (first_of_quoteJoin plainKey (by decide) plainSegments fresh) keyNoColon
    (List.not_mem_nil _) (fun c member => (List.mem_append.mp member).elim (f.gap_open c)
      (valueOpen c)) stops fits
  rwa [strip_gap f.spacing plain] at read

theorem parseJson_text (fits : f.text.length < npos) :
    parseJsonNumber f.text "bias".toList = stod f.bias ∧
      parseJsonNumber f.text "learning_rate".toList = stod f.learningRate ∧
      parseJsonBool f.text "enable_online_learning".toList = .ok f.enableOnlineLearning := by
  obtain ⟨pcHashQuote, -, -⟩ := @number_plain f f.pcHash (by simp)
  obtain ⟨ageQuote, -, -⟩ := @number_plain f f.age (by simp)
  obtain ⟨accessCountQuote, -, -⟩ := @number_plain f f.accessCount (by simp)
  obtain ⟨reuseDistanceQuote, -, -⟩ := @number_plain f f.reuseDistance (by simp)
  obtain ⟨biasQuote, biasOpen, biasPlain⟩ := @number_plain f f.bias (by simp)
  obtain ⟨rateQuote, rateOpen, ratePlain⟩ := @number_plain f f.learningRate (by simp)
  have plainFeatures : ∀ t ∈ f.featureSegments, '\x22' ∉ t := by
    simp [featureSegments, f.quote_not_mem_gap, pcHashQuote, ageQuote, accessCountQuote,
      reuseDistanceQuote]
  obtain ⟨flagOpen, flagPlain⟩ := flagText_plain f.enableOnlineLearning
  rw [text_eq_settings] at fits ⊢
  refine ⟨(f.parseJson_setting plainFeatures (by decide) (by decide) (by simp [featureSegments])
    biasOpen biasPlain (by decide) fits).1, ?_⟩
  rw [quoteJoin_member] at fits ⊢
  have plainBias :
      ∀ t ∈ f.featureSegments ++ ["bias".toList, ':' :: f.gap ++ f.bias ++ ',' :: f.gap],
        '\x22' ∉ t :=
    List.forall_mem_append.mpr ⟨plainFeatures, by simp [f.quote_not_mem_gap, biasQuote]⟩
  refine ⟨(f.parseJson_setting plainBias (by decide) (by decide) (by simp [featureSegments])
    rateOpen ratePlain (by decide) fits).1, ?_⟩
  rw [quoteJoin_member] at fits ⊢
  have read := (f.parseJson_setting
    (List.forall_mem_append.mpr ⟨plainBias, by simp [f.quote_not_mem_gap, rateQuote]⟩)
    (by decide) (by decide) (by simp [featureSegments]) flagOpen flagPlain (by decide) fits).2
  rwa [flagText_read] at read

/-- `loadWeights` of a file written in this layout, whose numbers are zero or normal `double`s,
takes the values `std::stod` gives them, the learning rate only when it is positive, and the
flag as written, and warns of nothing. -/
theorem loadWeights_text (m : Mockingjay) (weightsFile : String)
    {pcHash age accessCount reuseDistance bias learningRate : ℚ}
    (readPcHash : stod f.pcHash = .ok pcHash) (readAge : stod f.age = .ok age)
    (readAccessCount : stod f.accessCount = .ok accessCount)
    (readReuseDistance : stod f.reuseDistance = .ok reuseDistance)
    (readBias : stod f.bias = .ok bias) (readLearningRate : stod f.learningRate = .ok learningRate)
    (normal : ∀ v ∈ [pcHash, age, accessCount, reuseDistance, bias, learningRate],
      v = 0 ∨ dblMin ≤ |v|)
    (fits : f.text.length < npos) :
    m.loadWeights weightsFile (some f.text) =
      ({ m with weightPcHash := pcHash, weightAge := age, weightAccessCount := accessCount,
                weightReuseDistance := reuseDistance, bias := bias,
                learningRate := if 0 < learningRate then (learningRate : ℝ) else m.learningRate,
                enableOnlineLearning := f.enableOnlineLearning }, none) := by
  obtain ⟨weightPcHash, weightAge, weightAccessCount, weightReuseDistance⟩ :=
    f.extractWeight_text fits
  obtain ⟨fileBias, fileLearningRate, fileOnlineLearning⟩ := f.parseJson_text fits
  rw [Mockingjay.loadWeights, Mockingjay.parseWeights_run_ok (weightPcHash.trans readPcHash)
    (weightAge.trans readAge) (weightAccessCount.trans readAccessCount)
    (weightReuseDistance.trans readReuseDistance) (fileBias.trans readBias)
    (fileLearningRate.trans readLearningRate) fileOnlineLearning]
  rfl

set_option maxRecDepth 2000 in
theorem loadWeights_text_sample :
    (Mockingjay.initial 0 false).loadWeights "weights.json"
      (some (text ⟨"0.25".toList, "0.35".toList, "-0.3".toList, "0.4".toList, "0.1".toList,
        "0.001".toList, true, " ".toList, by decide, by decide⟩)) =
      ({ Mockingjay.initial 0 false with
          weightPcHash := ((1 / 4 : ℚ) : ℝ), weightAge := ((7 / 20 : ℚ) : ℝ),
          weightAccessCount := ((-3 / 10 : ℚ) : ℝ), weightReuseDistance := ((2 / 5 : ℚ) : ℝ),
          bias := ((1 / 10 : ℚ) : ℝ),
          learningRate := if (0 : ℚ) < 1 / 1000 then ((1 / 1000 : ℚ) : ℝ)
            else (Mockingjay.initial 0 false).learningRate,
          enableOnlineLearning := true }, none) :=
  loadWeights_text _ _ _ (by simp [stod, dblMax]; norm_num) (by simp [stod, dblMax]; norm_num)
    (by simp [stod, dblMax]; norm_num) (by simp [stod, dblMax]; norm_num)
    (by simp [stod, dblMax]; norm_num) (by simp [stod, dblMax]; norm_num)
    (fun v member => .inr <| by
      have small : dblMin ≤ 1 / 1000 := by norm_num [dblMin]
      simp only [List.mem_cons, List.mem_singleton, List.not_mem_nil, or_false] at member
      rcases member with rfl | rfl | rfl | rfl | rfl | rfl <;>
        refine small.trans ?_ <;> norm_num [abs_of_pos, abs_of_neg])
    (by decide)

end WeightsFile

end File

end CachePolicies.ReplacementPolicy
