import CachePolicies.Mockingjay.Weights

/-! What the weights-file reader reads. `trim` removes exactly the leading and trailing white
space and never throws. `parseJsonNumber` and `parseJsonBool` search for the quoted key
anywhere in the text, then read from the first `:` after it to the next `,` or `}`: when the
key's first occurrence is where a member of the object names it, that is the member's value,
trimmed. The search does not know the structure of the text, so an earlier occurrence, for
instance a feature named after the key, is read in its place. `extractWeight` walks the
`"name"` entries of the text in order: it reads 0 when no entry has the feature's name, and
at the first entry that has it, the value after the next `"weight"` key, wherever that key
stands. -/

namespace CachePolicies.ReplacementPolicy

section Search

theorem find_eq_of_first {text pattern : Text} {pos n : Nat} (after : pos ≤ n)
    (inside : n ≤ text.length) (matched : pattern <+: text.drop n)
    (before : ∀ i, pos ≤ i → i < n → ¬ pattern <+: text.drop i) :
    find text pattern pos = n := by
  unfold find
  rw [(List.find?_range_eq_some).mpr ⟨?_, List.mem_range.mpr (Nat.lt_succ_of_le inside),
    fun j below => ?_⟩]
  · rfl
  · simp [after, matched]
  · by_cases early : pos ≤ j
    · have missed := before j early below
      rw [← List.isPrefixOf_iff_prefix, Bool.not_eq_true] at missed
      simp [missed]
    · simp [early]

theorem single_prefix_drop {text : Text} {c : Char} {i : Nat} :
    [c] <+: text.drop i ↔ text[i]? = some c := by
  have head : (text.drop i)[0]? = text[i]? := by rw [List.getElem?_drop, Nat.add_zero]
  rw [← head]
  cases text.drop i with
  | nil => simp
  | cons x xs => simp [eq_comm]

theorem find_single_append {a seg rest : Text} {c : Char} (absent : c ∉ seg) :
    find (a ++ seg ++ c :: rest) [c] a.length = a.length + seg.length := by
  have inside : a.length + seg.length ≤ (a ++ seg ++ c :: rest).length := by
    simp only [List.length_append, List.length_cons]; omega
  apply find_eq_of_first (Nat.le_add_right _ _) inside
  · rw [single_prefix_drop, List.getElem?_append_right (by simp only [List.length_append]; omega)]
    simp
  · intro i start below absurdity
    rw [single_prefix_drop, List.append_assoc, List.getElem?_append_right (by omega),
      List.getElem?_append_left (by omega)] at absurdity
    exact absent (List.getElem?_mem absurdity)

theorem findFirstOf_append {a seg rest chars : Text} {c : Char}
    (absent : ∀ x ∈ seg, chars.contains x = false) (stops : chars.contains c = true) :
    findFirstOf (a ++ seg ++ c :: rest) chars a.length = a.length + seg.length := by
  unfold findFirstOf
  rw [(List.find?_range_eq_some).mpr ⟨?_, List.mem_range.mpr ?_, fun j below => ?_⟩]
  · rfl
  · simp only [Nat.le_add_right, decide_True, Bool.true_and, List.getD_eq_getElem?_getD]
    rw [List.getElem?_append_right (by simp only [List.length_append]; omega)]
    simpa using stops
  · simp only [List.length_append, List.length_cons]; omega
  · by_cases early : a.length ≤ j
    · simp only [early, decide_True, Bool.true_and, List.getD_eq_getElem?_getD, Bool.not_eq_true']
      have inSeg : j - a.length < seg.length := by omega
      rw [List.append_assoc, List.getElem?_append_right early,
        List.getElem?_append_left inSeg, List.getElem?_eq_getElem inSeg, Option.getD_some]
      exact absent _ (List.getElem_mem inSeg)
    · simp [early]

theorem find_first_after {pre key rest : Text} {pos : Nat} (start : pos ≤ pre.length)
    (nonempty : key ≠ []) (first : ¬ key <:+: pre.drop pos ++ key.dropLast) :
    find (pre ++ key ++ rest) key pos = pre.length := by
  apply find_eq_of_first start (by simp only [List.length_append]; omega)
  · rw [List.append_assoc, List.drop_left]
    exact List.prefix_append _ _
  · intro i after below occurs
    have split : pre ++ key ++ rest = (pre ++ key.dropLast) ++ (key.getLast nonempty :: rest) :=
      calc pre ++ key ++ rest = pre ++ (key.dropLast ++ [key.getLast nonempty]) ++ rest := by
            rw [List.dropLast_append_getLast nonempty]
        _ = (pre ++ key.dropLast) ++ (key.getLast nonempty :: rest) := by
            simp only [List.append_assoc, List.singleton_append]
    have long : key.length ≤ ((pre ++ key.dropLast).drop i).length := by
      simp only [List.length_drop, List.length_append, List.length_dropLast]
      have := List.length_pos.mpr nonempty
      omega
    have shift : (pre ++ key.dropLast).drop i = (pre.drop pos ++ key.dropLast).drop (i - pos) := by
      rw [← List.drop_append_of_le_length start, List.drop_drop, Nat.add_sub_cancel' after]
    rw [split, List.drop_append_of_le_length (by simp only [List.length_append]; omega)] at occurs
    have inside := List.prefix_of_prefix_length_le occurs (List.prefix_append _ _) long
    rw [shift] at inside
    exact first (inside.isInfix.trans (List.drop_suffix _ _).isInfix)

theorem find_eq_npos_after {P R pattern : Text} (absent : ¬ pattern <:+: R) :
    find (P ++ R) pattern P.length = npos := by
  unfold find
  rw [(List.find?_range_eq_none).mpr fun i _ => ?_]
  · rfl
  · by_cases early : P.length ≤ i
    · have missed : ¬ pattern <+: (P ++ R).drop i := fun occurs => by
        rw [← Nat.add_sub_cancel' early, ← List.drop_drop, List.drop_left] at occurs
        exact absent (occurs.isInfix.trans (List.drop_suffix _ _).isInfix)
      rw [← List.isPrefixOf_iff_prefix, Bool.not_eq_true] at missed
      simp [missed]
    · simp [early]

theorem find?_range_reverse_eq_some {n i : Nat} {p : Nat → Bool} (below : i < n)
    (holds : p i = true) (after : ∀ j, i < j → j < n → p j = false) :
    (List.range n).reverse.find? p = some i := by
  have split : List.range n = List.range (i + 1) ++ List.range' (i + 1) (n - (i + 1)) := by
    have joined := List.range'_append_1 0 (i + 1) (n - (i + 1))
    rw [Nat.zero_add, Nat.sub_add_cancel (by omega : i + 1 ≤ n)] at joined
    rw [List.range_eq_range', List.range_eq_range', joined]
  have none : (List.range' (i + 1) (n - (i + 1))).reverse.find? p = none := by
    rw [List.find?_eq_none]
    intro j member
    rw [List.mem_reverse, List.mem_range'_1] at member
    simp [after j (by omega) (by omega)]
  rw [split, List.reverse_append, List.find?_append, none, Option.none_or, List.range_succ,
    List.reverse_append]
  simp [holds]

end Search

section Trim

def isWhitespace (c : Char) : Bool := whitespace.contains c

def strip (str : Text) : Text := (str.dropWhile isWhitespace).rdropWhile isWhitespace

variable {lead mid trail : Text}

theorem getElem?_lead {i : Nat} (inLead : i < lead.length) :
    (lead ++ mid ++ trail)[i]? = lead[i]? := by
  rw [List.append_assoc, List.getElem?_append_left inLead]

theorem getElem?_mid {i : Nat} (inMid : i < mid.length) :
    (lead ++ mid ++ trail)[lead.length + i]? = mid[i]? := by
  rw [List.append_assoc, List.getElem?_append_right (Nat.le_add_right _ _),
    Nat.add_sub_cancel_left, List.getElem?_append_left inMid]

theorem getElem?_trail {i : Nat} :
    (lead ++ mid ++ trail)[lead.length + mid.length + i]? = trail[i]? := by
  rw [List.getElem?_append_right (by simp only [List.length_append]; omega)]
  simp only [List.length_append, Nat.add_sub_cancel_left]

theorem trim_split (leading : ∀ c ∈ lead, isWhitespace c = true)
    (trailing : ∀ c ∈ trail, isWhitespace c = true)
    (ends : ∀ nonempty : mid ≠ [], isWhitespace (mid.head nonempty) = false ∧
      isWhitespace (mid.getLast nonempty) = false)
    (fits : (lead ++ mid ++ trail).length < npos) :
    trim (lead ++ mid ++ trail) = .ok mid := by
  have inLead : ∀ i, i < lead.length →
      isWhitespace ((lead ++ mid ++ trail).getD i ' ') = true := fun i below => by
    rw [List.getD_eq_getElem?_getD, getElem?_lead below, List.getElem?_eq_getElem below,
      Option.getD_some]
    exact leading _ (List.getElem_mem below)
  have inTrail : ∀ k, k < trail.length →
      isWhitespace ((lead ++ mid ++ trail).getD (lead.length + mid.length + k) ' ') = true :=
    fun k below => by
      rw [List.getD_eq_getElem?_getD, getElem?_trail, List.getElem?_eq_getElem below,
        Option.getD_some]
      exact trailing _ (List.getElem_mem below)
  have length : (lead ++ mid ++ trail).length = lead.length + mid.length + trail.length := by
    simp only [List.length_append]
  unfold trim
  by_cases empty : mid = []
  · subst empty
    have allWhite : findFirstNotOf (lead ++ [] ++ trail) whitespace = npos := by
      unfold findFirstNotOf
      rw [(List.find?_range_eq_none).mpr fun i below => ?_]
      · rfl
      · simp only [List.length_nil, Nat.add_zero] at length inTrail
        by_cases early : i < lead.length
        · simpa [isWhitespace] using inLead i early
        · have := inTrail (i - lead.length) (by omega)
          rw [Nat.add_sub_cancel' (by omega)] at this
          simpa [isWhitespace] using this
    simp only [allWhite, if_true]
  · obtain ⟨headWhite, lastWhite⟩ := ends empty
    have nonempty := List.length_pos.mpr empty
    have atHead : isWhitespace ((lead ++ mid ++ trail).getD lead.length ' ') = false := by
      rw [List.getD_eq_getElem?_getD, ← Nat.add_zero lead.length, getElem?_mid nonempty,
        List.getElem?_eq_getElem nonempty, Option.getD_some, ← List.head_eq_getElem]
      exact headWhite
    have atLast : isWhitespace
        ((lead ++ mid ++ trail).getD (lead.length + (mid.length - 1)) ' ') = false := by
      rw [List.getD_eq_getElem?_getD, getElem?_mid (by omega),
        List.getElem?_eq_getElem (by omega), Option.getD_some, ← List.getLast_eq_getElem]
      exact lastWhite
    have first : findFirstNotOf (lead ++ mid ++ trail) whitespace = lead.length := by
      unfold findFirstNotOf
      rw [(@List.find?_range_eq_some _ lead.length _).mpr
        ⟨?_, List.mem_range.mpr (by rw [length]; omega), fun j below => ?_⟩]
      · rfl
      · simpa [isWhitespace] using atHead
      · simpa [isWhitespace] using inLead j below
    have last : findLastNotOf (lead ++ mid ++ trail) whitespace =
        lead.length + (mid.length - 1) := by
      unfold findLastNotOf
      rw [@find?_range_reverse_eq_some _ (lead.length + (mid.length - 1)) _
        (by rw [length]; omega) (by simpa [isWhitespace] using atLast) fun j above below => ?_]
      · rfl
      · rw [length] at below
        have := inTrail (j - (lead.length + mid.length)) (by omega)
        rw [Nat.add_sub_cancel' (by omega)] at this
        simpa [isWhitespace] using this
    simp only [first, last]
    rw [if_neg (by unfold npos at fits ⊢; omega), substr, if_neg (by omega),
      show lead.length + (mid.length - 1) - lead.length + 1 = mid.length by omega,
      List.append_assoc, List.drop_left, List.take_left' rfl]

theorem rdropWhile_append_rtakeWhile (p : Char → Bool) (l : Text) :
    l.rdropWhile p ++ l.rtakeWhile p = l := by
  unfold List.rdropWhile List.rtakeWhile
  rw [← List.reverse_append, List.takeWhile_append_dropWhile, List.reverse_reverse]

theorem trim_eq (str : Text) (fits : str.length < npos) : trim str = .ok (strip str) := by
  have split : str = str.takeWhile isWhitespace ++ strip str ++
      (str.dropWhile isWhitespace).rtakeWhile isWhitespace := by
    rw [strip, List.append_assoc, rdropWhile_append_rtakeWhile, List.takeWhile_append_dropWhile]
  have result := trim_split (fun c member => List.mem_takeWhile_imp member)
    (fun c member => List.mem_rtakeWhile_imp member) (fun nonempty => ⟨?_, ?_⟩)
    (by rw [← split]; exact fits)
  · rwa [← split] at result
  · show isWhitespace (((str.dropWhile isWhitespace).rdropWhile isWhitespace).head nonempty) = false
    rw [List.IsPrefix.head (List.rdropWhile_prefix _ _) nonempty]
    exact List.head_dropWhile_not _ _ _
  · simpa using List.rdropWhile_last_not _ _ nonempty

end Trim

section Member

variable {key pre sep value post : Text} {stop : Char}

theorem colon_not_mem_quoted (keyNoColon : ':' ∉ key) : ':' ∉ quoted key := by
  simp [quoted, keyNoColon]

theorem member_positions (start : Nat) (after : start ≤ pre.length)
    (first : ¬ quoted key <:+: pre.drop start ++ (quoted key).dropLast)
    (keyNoColon : ':' ∉ key) (sepNoColon : ':' ∉ sep) (valueOpen : ∀ c ∈ value, c ∉ valueEnd)
    (stops : stop ∈ valueEnd) :
    let json := pre ++ quoted key ++ sep ++ ':' :: value ++ stop :: post
    find json (quoted key) start = pre.length ∧
      find json [':'] pre.length = pre.length + (quoted key ++ sep).length ∧
      findFirstOf json valueEnd (pre.length + (quoted key ++ sep).length + 1) =
        pre.length + (quoted key ++ sep).length + 1 + value.length ∧
      substr json (pre.length + (quoted key ++ sep).length + 1) value.length = .ok value := by
  intro json
  have asKey : json = pre ++ quoted key ++ (sep ++ ':' :: value ++ stop :: post) := by
    simp only [json, List.append_assoc, List.cons_append]
  have asColon : json = pre ++ (quoted key ++ sep) ++ ':' :: (value ++ stop :: post) := by
    simp only [json, List.append_assoc, List.cons_append]
  have asValue : json = (pre ++ (quoted key ++ sep) ++ [':']) ++ value ++ stop :: post := by
    simp only [json, List.append_assoc, List.cons_append, List.singleton_append, List.nil_append]
  have opening : (pre ++ (quoted key ++ sep) ++ [':']).length =
      pre.length + (quoted key ++ sep).length + 1 := by
    simp only [List.length_append, List.length_singleton]
  refine ⟨?_, ?_, ?_, ?_⟩
  · rw [asKey]
    exact find_first_after after (by simp [quoted]) first
  · rw [asColon]
    exact find_single_append fun member =>
      (List.mem_append.mp member).elim (colon_not_mem_quoted keyNoColon) sepNoColon
  · rw [asValue, ← opening]
    exact findFirstOf_append (fun c member => by simpa using valueOpen c member)
      (by simpa using stops)
  · have inside : (pre ++ (quoted key ++ sep) ++ [':']).length ≤
        (pre ++ (quoted key ++ sep) ++ [':'] ++ value ++ stop :: post).length := by
      simp only [List.length_append, List.length_cons]; omega
    rw [asValue, ← opening, substr, if_neg (Nat.not_lt.mpr inside),
      List.append_assoc (pre ++ (quoted key ++ sep) ++ [':']) value, List.drop_left,
      List.take_left' rfl]

theorem parseJson_at_member (first : ¬ quoted key <:+: pre ++ (quoted key).dropLast)
    (keyNoColon : ':' ∉ key) (sepNoColon : ':' ∉ sep) (valueOpen : ∀ c ∈ value, c ∉ valueEnd)
    (stops : stop ∈ valueEnd)
    (fits : (pre ++ quoted key ++ sep ++ ':' :: value ++ stop :: post).length < npos) :
    parseJsonNumber (pre ++ quoted key ++ sep ++ ':' :: value ++ stop :: post) key =
        stod (strip value) ∧
      parseJsonBool (pre ++ quoted key ++ sep ++ ':' :: value ++ stop :: post) key =
        .ok (strip value == "true".toList) := by
  obtain ⟨atKey, atColon, atEnd, read⟩ :=
    @member_positions key pre sep value post stop 0 (Nat.zero_le _) first keyNoColon sepNoColon
      valueOpen stops
  have length : (pre ++ quoted key ++ sep ++ ':' :: value ++ stop :: post).length =
      pre.length + (quoted key ++ sep).length + 1 + value.length + 1 + post.length := by
    simp only [List.length_append, List.length_cons]; omega
  have trimmed := trim_eq value (by omega)
  constructor
  · simp only [parseJsonNumber, atKey, atColon, atEnd, if_neg (show pre.length ≠ npos by omega),
      if_neg (show pre.length + (quoted key ++ sep).length ≠ npos by omega),
      if_neg (show pre.length + (quoted key ++ sep).length + 1 + value.length ≠ npos by omega),
      Nat.add_sub_cancel_left, read, bind, Except.bind, trimmed]
  · simp only [parseJsonBool, atKey, atColon, atEnd, if_neg (show pre.length ≠ npos by omega),
      if_neg (show pre.length + (quoted key ++ sep).length ≠ npos by omega),
      if_neg (show pre.length + (quoted key ++ sep).length + 1 + value.length ≠ npos by omega),
      Nat.add_sub_cancel_left, read, bind, Except.bind, trimmed]
    rfl

/-- `parseJsonNumber` and `parseJsonBool` read the member where the key first occurs, and `0`
and `false` when the key does not occur at all. -/
theorem parseJson_member (first : ¬ quoted key <:+: pre ++ (quoted key).dropLast)
    (keyNoColon : ':' ∉ key) (sepNoColon : ':' ∉ sep) (valueOpen : ∀ c ∈ value, c ∉ valueEnd)
    (stops : stop ∈ valueEnd)
    (fits : (pre ++ quoted key ++ sep ++ ':' :: value ++ stop :: post).length < npos) :
    let json := pre ++ quoted key ++ sep ++ ':' :: value ++ stop :: post
    (parseJsonNumber json key = stod (strip value) ∧
      parseJsonBool json key = .ok (strip value == "true".toList)) ∧
    ∀ other : Text, ¬ quoted key <:+: other →
      parseJsonNumber other key = .ok 0 ∧ parseJsonBool other key = .ok false :=
  ⟨parseJson_at_member first keyNoColon sepNoColon valueOpen stops fits, fun _ absent =>
    ⟨Mockingjay.parseJsonNumber_of_absent (@find_eq_npos_after [] _ _ absent),
      Mockingjay.parseJsonBool_of_absent (@find_eq_npos_after [] _ _ absent)⟩⟩

theorem parseJson_member_bias :
    ¬ quoted "bias".toList <:+: "\x7b".toList ++ (quoted "bias".toList).dropLast ∧
      ':' ∉ "bias".toList ∧ ':' ∉ " ".toList ∧ (∀ c ∈ " 0.5 ".toList, c ∉ valueEnd) ∧
      '\x7d' ∈ valueEnd ∧
      ("\x7b".toList ++ quoted "bias".toList ++ " ".toList ++ ':' :: " 0.5 ".toList ++
        '\x7d' :: []).length < npos ∧
      let json := "\x7b".toList ++ quoted "bias".toList ++ " ".toList ++ ':' :: " 0.5 ".toList ++
        '\x7d' :: []
      (parseJsonNumber json "bias".toList = stod (strip " 0.5 ".toList) ∧
        parseJsonBool json "bias".toList = .ok (strip " 0.5 ".toList == "true".toList)) ∧
      ∀ other : Text, ¬ quoted "bias".toList <:+: other →
        parseJsonNumber other "bias".toList = .ok 0 ∧ parseJsonBool other "bias".toList = .ok false :=
  ⟨by decide, by decide, by decide, by decide, by decide, by decide,
    parseJson_member (by decide) (by decide) (by decide) (by decide) (by decide) (by decide)⟩

end Member

section Weight

/-- A `"name"` member of the weights file as `extractWeight` reads it: the text before it, the
key, text without `:`, the `:`, text without a quote, and the quoted name. No `"name"` starts in
the text before it, counted from the closing quote of the name before. -/
structure NameEntry where
  before : Text
  afterKey : Text
  beforeValue : Text
  name : Text
  clean : ¬ quoted "name".toList <:+: '\x22' :: before ++ (quoted "name".toList).dropLast
  keyEnds : ':' ∉ afterKey
  valueStarts : '\x22' ∉ beforeValue
  nameCloses : '\x22' ∉ name

def NameEntry.text (e : NameEntry) : Text :=
  e.before ++ quoted "name".toList ++ e.afterKey ++ ':' :: e.beforeValue ++ '\x22' :: e.name

def renderEntries : List NameEntry → Text
  | [] => []
  | e :: rest => e.text ++ '\x22' :: renderEntries rest

theorem entry_positions (e : NameEntry) {P Q rest : Text} (quote : Q = [] ∨ Q = ['\x22']) :
    let json := P ++ Q ++ e.text ++ '\x22' :: rest
    let base := (P ++ Q ++ e.before).length
    find json (quoted "name".toList) P.length = base ∧
      find json [':'] base = base + (quoted "name".toList ++ e.afterKey).length ∧
      find json ['\x22'] (base + (quoted "name".toList ++ e.afterKey).length + 1) =
        base + (quoted "name".toList ++ e.afterKey).length + 1 + e.beforeValue.length ∧
      find json ['\x22'] (base + (quoted "name".toList ++ e.afterKey).length + 1 +
          e.beforeValue.length + 1) = (P ++ Q ++ e.text).length ∧
      substr json
        (base + (quoted "name".toList ++ e.afterKey).length + 1 + e.beforeValue.length + 1)
        e.name.length = .ok e.name := by
  intro json base
  have asKey : json = (P ++ Q ++ e.before) ++ quoted "name".toList ++
      (e.afterKey ++ ':' :: e.beforeValue ++ '\x22' :: e.name ++ '\x22' :: rest) := by
    simp only [json, NameEntry.text, List.append_assoc, List.cons_append]
  have asColon : json = (P ++ Q ++ e.before) ++ (quoted "name".toList ++ e.afterKey) ++
      ':' :: (e.beforeValue ++ '\x22' :: e.name ++ '\x22' :: rest) := by
    simp only [json, NameEntry.text, List.append_assoc, List.cons_append]
  have opening : json = ((P ++ Q ++ e.before) ++ (quoted "name".toList ++ e.afterKey) ++ [':']) ++
      e.beforeValue ++ '\x22' :: (e.name ++ '\x22' :: rest) := by
    simp only [json, NameEntry.text, List.append_assoc, List.cons_append, List.singleton_append,
      List.nil_append]
  have closing : json = ((P ++ Q ++ e.before) ++ (quoted "name".toList ++ e.afterKey) ++ [':'] ++
      e.beforeValue ++ ['\x22']) ++ e.name ++ '\x22' :: rest := by
    simp only [json, NameEntry.text, List.append_assoc, List.cons_append, List.singleton_append,
      List.nil_append]
  have noColon : ':' ∉ quoted "name".toList ++ e.afterKey := fun member =>
    (List.mem_append.mp member).elim (by simp [quoted]) e.keyEnds
  have fresh : ¬ quoted "name".toList <:+:
      (P ++ Q ++ e.before).drop P.length ++ (quoted "name".toList).dropLast := by
    rw [List.append_assoc, List.drop_left]
    rcases quote with rfl | rfl
    · exact fun occurs => e.clean (occurs.trans (List.suffix_cons _ _).isInfix)
    · exact e.clean
  refine ⟨?_, ?_, ?_, ?_, ?_⟩
  · rw [asKey]
    exact find_first_after (by simp only [List.length_append]; omega) (by simp [quoted]) fresh
  · rw [asColon]
    exact find_single_append noColon
  · have found := @find_single_append
      ((P ++ Q ++ e.before) ++ (quoted "name".toList ++ e.afterKey) ++ [':']) e.beforeValue
      (e.name ++ '\x22' :: rest) _ e.valueStarts
    have start : ((P ++ Q ++ e.before) ++ (quoted "name".toList ++ e.afterKey) ++ [':']).length =
        base + (quoted "name".toList ++ e.afterKey).length + 1 := by
      simp only [base, List.length_append, List.length_singleton]
    rw [opening, ← start]
    exact found
  · have found := @find_single_append
      ((P ++ Q ++ e.before) ++ (quoted "name".toList ++ e.afterKey) ++ [':'] ++ e.beforeValue ++
        ['\x22']) e.name rest _ e.nameCloses
    have start : ((P ++ Q ++ e.before) ++ (quoted "name".toList ++ e.afterKey) ++ [':'] ++
        e.beforeValue ++ ['\x22']).length =
        base + (quoted "name".toList ++ e.afterKey).length + 1 + e.beforeValue.length + 1 := by
      simp only [base, List.length_append, List.length_singleton]
    rw [closing, ← start, found]
    simp only [NameEntry.text, List.length_append, List.length_cons, List.length_singleton,
      List.length_nil]
    omega
  · have inside : ((P ++ Q ++ e.before) ++ (quoted "name".toList ++ e.afterKey) ++ [':'] ++
        e.beforeValue ++ ['\x22']).length ≤ json.length := by
      rw [closing]; simp only [List.length_append]; omega
    have start : ((P ++ Q ++ e.before) ++ (quoted "name".toList ++ e.afterKey) ++ [':'] ++
        e.beforeValue ++ ['\x22']).length =
        base + (quoted "name".toList ++ e.afterKey).length + 1 + e.beforeValue.length + 1 := by
      simp only [base, List.length_append, List.length_singleton]
    rw [← start, substr, if_neg (Nat.not_lt.mpr inside), closing, List.append_assoc _ e.name,
      List.drop_left, List.take_left' rfl]

theorem entry_bounds (e : NameEntry) {P Q : Text} (fits : (P ++ Q ++ e.text).length < npos) :
    (P ++ Q ++ e.before).length + (quoted "name".toList ++ e.afterKey).length ≠ npos ∧
      (P ++ Q ++ e.before).length + (quoted "name".toList ++ e.afterKey).length + 1 +
        e.beforeValue.length + 1 < 2 ^ 64 ∧
      ¬ ((P ++ Q ++ e.before).length + (quoted "name".toList ++ e.afterKey).length + 1 +
        e.beforeValue.length = npos ∨ (P ++ Q ++ e.text).length = npos) ∧
      (P ++ Q ++ e.text).length - ((P ++ Q ++ e.before).length +
        (quoted "name".toList ++ e.afterKey).length + 1 + e.beforeValue.length) - 1 =
        e.name.length := by
  have text : (P ++ Q ++ e.text).length = (P ++ Q ++ e.before).length +
      (quoted "name".toList ++ e.afterKey).length + 1 + e.beforeValue.length + 1 +
        e.name.length := by
    simp only [NameEntry.text, List.length_append, List.length_cons]; omega
  unfold npos at fits ⊢
  omega

theorem extractStep_skip (e : NameEntry) {P Q rest featureName : Text}
    (quote : Q = [] ∨ Q = ['\x22']) (other : e.name ≠ featureName)
    (fits : (P ++ Q ++ e.text ++ '\x22' :: rest).length < npos) :
    extractStep (P ++ Q ++ e.text ++ '\x22' :: rest) featureName (P ++ Q ++ e.before).length =
      .ok (.next (P ++ Q ++ e.text).length) := by
  obtain ⟨-, atColon, atOpen, atClose, read⟩ := @entry_positions e P Q rest quote
  obtain ⟨colonFound, small, quotesFound, nameLength⟩ := @entry_bounds e P Q (by
    simp only [List.length_append, List.length_cons] at fits ⊢; omega)
  simp only [extractStep, atColon, if_neg colonFound, atOpen, Nat.mod_eq_of_lt small, atClose,
    if_neg quotesFound, nameLength, read, if_neg other]

theorem extractStep_hit (e : NameEntry) {P Q W c v post featureName : Text} {stop : Char}
    (quote : Q = [] ∨ Q = ['\x22']) (named : e.name = featureName)
    (firstWeight : ¬ quoted "weight".toList <:+: '\x22' :: W ++ (quoted "weight".toList).dropLast)
    (sepNoColon : ':' ∉ c) (valueOpen : ∀ x ∈ v, x ∉ valueEnd) (stops : stop ∈ valueEnd)
    (fits : (P ++ Q ++ e.text ++
      '\x22' :: (W ++ quoted "weight".toList ++ c ++ ':' :: v ++ stop :: post)).length < npos) :
    extractStep (P ++ Q ++ e.text ++
        '\x22' :: (W ++ quoted "weight".toList ++ c ++ ':' :: v ++ stop :: post)) featureName
      (P ++ Q ++ e.before).length = .ok (.done (stod (strip v))) := by
  obtain ⟨-, atColon, atOpen, atClose, read⟩ :=
    @entry_positions e P Q (W ++ quoted "weight".toList ++ c ++ ':' :: v ++ stop :: post) quote
  have text : (P ++ Q ++ e.text).length = (P ++ Q ++ e.before).length +
      (quoted "name".toList ++ e.afterKey).length + 1 + e.beforeValue.length + 1 +
        e.name.length := by
    simp only [NameEntry.text, List.length_append, List.length_cons]; omega
  have asMember : P ++ Q ++ e.text ++ '\x22' :: (W ++ quoted "weight".toList ++ c ++ ':' :: v ++
      stop :: post) = (P ++ Q ++ e.text ++ '\x22' :: W) ++ quoted "weight".toList ++ c ++
      ':' :: v ++ stop :: post := by
    simp only [List.append_assoc, List.cons_append]
  obtain ⟨weightAt, colonAt, -, readWeight⟩ := @member_positions "weight".toList
    (P ++ Q ++ e.text ++ '\x22' :: W) c v post stop (P ++ Q ++ e.text).length
    (by simp only [List.length_append, List.length_cons]; omega)
    (by rwa [List.drop_left]) (by decide) sepNoColon valueOpen stops
  rw [← asMember] at weightAt colonAt readWeight
  -- `extractWeight` searches for the end of the value from the `:` itself
  have endAt : findFirstOf (P ++ Q ++ e.text ++
      '\x22' :: (W ++ quoted "weight".toList ++ c ++ ':' :: v ++ stop :: post)) valueEnd
      ((P ++ Q ++ e.text ++ '\x22' :: W).length + (quoted "weight".toList ++ c).length) =
      (P ++ Q ++ e.text ++ '\x22' :: W).length + (quoted "weight".toList ++ c).length + 1 +
        v.length := by
    have split : P ++ Q ++ e.text ++ '\x22' :: (W ++ quoted "weight".toList ++ c ++ ':' :: v ++
        stop :: post) = ((P ++ Q ++ e.text ++ '\x22' :: W) ++ (quoted "weight".toList ++ c)) ++
        (':' :: v) ++ stop :: post := by
      simp only [List.append_assoc, List.cons_append]
    have opens : ∀ x ∈ ':' :: v, valueEnd.contains x = false := fun x member => by
      rcases List.mem_cons.mp member with rfl | inValue
      · decide
      · simpa using valueOpen x inValue
    have found := @findFirstOf_append ((P ++ Q ++ e.text ++ '\x22' :: W) ++
      (quoted "weight".toList ++ c)) (':' :: v) post valueEnd stop opens (by simpa using stops)
    rw [List.length_append (P ++ Q ++ e.text ++ '\x22' :: W) (quoted "weight".toList ++ c)] at found
    rw [split, found, List.length_cons]
    omega
  have length : (P ++ Q ++ e.text ++
      '\x22' :: (W ++ quoted "weight".toList ++ c ++ ':' :: v ++ stop :: post)).length =
      (P ++ Q ++ e.text ++ '\x22' :: W).length + (quoted "weight".toList ++ c).length + 1 +
        v.length + 1 + post.length := by
    simp only [List.length_append, List.length_cons]; omega
  obtain ⟨colonFound, small, quotesFound, nameLength⟩ := @entry_bounds e P Q (by
    simp only [List.length_append, List.length_cons] at fits ⊢; omega)
  rw [length] at fits
  have weightFound : (P ++ Q ++ e.text ++ '\x22' :: W).length ≠ npos := by omega
  have valueFound :
      (P ++ Q ++ e.text ++ '\x22' :: W).length + (quoted "weight".toList ++ c).length ≠ npos ∧ (P ++ Q ++ e.text ++ '\x22' :: W).length + (quoted "weight".toList ++ c).length + 1 +
        v.length ≠ npos := by omega
  have valueLength : (P ++ Q ++ e.text ++ '\x22' :: W).length +
      (quoted "weight".toList ++ c).length + 1 + v.length -
      ((P ++ Q ++ e.text ++ '\x22' :: W).length + (quoted "weight".toList ++ c).length) - 1 =
      v.length := by omega
  simp only [extractStep, atColon, if_neg colonFound, atOpen, Nat.mod_eq_of_lt small, atClose,
    if_neg quotesFound, nameLength, read, if_pos named, weightAt, if_neg weightFound, colonAt,
    endAt, if_pos valueFound, valueLength, readWeight, Except.bind,
    trim_eq v (by omega)]

theorem renderEntries_cons (e : NameEntry) (rest : List NameEntry) {P Q tail : Text} :
    P ++ Q ++ renderEntries (e :: rest) ++ tail =
      P ++ Q ++ e.text ++ '\x22' :: (renderEntries rest ++ tail) := by
  simp only [renderEntries, List.append_assoc, List.cons_append]

theorem renderEntries_next (rest : List NameEntry) {A tail : Text} :
    A ++ '\x22' :: (renderEntries rest ++ tail) = A ++ ['\x22'] ++ renderEntries rest ++ tail := by
  simp only [List.append_assoc, List.singleton_append, List.cons_append, List.nil_append]

theorem length_le_renderEntries : ∀ entries : List NameEntry,
    entries.length ≤ (renderEntries entries).length
  | [] => le_rfl
  | e :: rest => by
    have := length_le_renderEntries rest
    simp only [renderEntries, List.length_cons, List.length_append]
    omega

theorem extractLoop_other (e : NameEntry) {P Q rest featureName : Text} {fuel : Nat}
    (quote : Q = [] ∨ Q = ['\x22']) (other : e.name ≠ featureName)
    (fits : (P ++ Q ++ e.text ++ '\x22' :: rest).length < npos) :
    extractLoop (P ++ Q ++ e.text ++ '\x22' :: rest) featureName (fuel + 1) P.length =
      extractLoop (P ++ Q ++ e.text ++ ['\x22'] ++ rest) featureName fuel
        (P ++ Q ++ e.text).length := by
  obtain ⟨atName, -⟩ := @entry_positions e P Q rest quote
  have nameFound : (P ++ Q ++ e.before).length ≠ npos := by
    simp only [NameEntry.text, List.length_append, List.length_cons] at fits ⊢; omega
  simp only [extractLoop, atName, if_neg nameFound, extractStep_skip e quote other fits]
  rw [List.append_assoc _ ['\x22'], List.singleton_append]

theorem extractLoop_skip {featureName tail : Text}
    (absent : ¬ quoted "name".toList <:+: '\x22' :: tail) :
    ∀ (entries : List NameEntry) (P Q : Text) (fuel : Nat), (Q = [] ∨ Q = ['\x22']) →
      entries.length < fuel → (∀ e ∈ entries, e.name ≠ featureName) →
      (P ++ Q ++ renderEntries entries ++ tail).length < npos →
      extractLoop (P ++ Q ++ renderEntries entries ++ tail) featureName fuel P.length = some (.ok 0)
  | [], P, Q, fuel + 1, quote, _, _, _ => by
    have none : ¬ quoted "name".toList <:+: Q ++ tail := by
      rcases quote with rfl | rfl
      · exact fun occurs => absent (occurs.trans (List.suffix_cons _ _).isInfix)
      · exact absent
    have missing := @find_eq_npos_after P (Q ++ tail) _ none
    simp only [renderEntries, List.append_nil, List.append_assoc] at missing ⊢
    simp only [extractLoop, missing, if_true]
  | e :: rest, P, Q, fuel + 1, quote, enough, others, fits => by
    rw [renderEntries_cons] at fits ⊢
    rw [extractLoop_other e quote (others e (List.mem_cons_self _ _)) fits,
      ← List.append_assoc _ _ tail]
    rw [renderEntries_next] at fits
    exact extractLoop_skip absent rest _ _ fuel (.inr rfl) (by simp at enough; omega)
      (fun other member => others other (List.mem_cons_of_mem _ member)) fits

theorem extractLoop_hit {featureName tail W c v post : Text} {stop : Char}
    (firstWeight : ¬ quoted "weight".toList <:+: '\x22' :: W ++ (quoted "weight".toList).dropLast)
    (sepNoColon : ':' ∉ c) (valueOpen : ∀ x ∈ v, x ∉ valueEnd) (stops : stop ∈ valueEnd)
    (e : NameEntry) (named : e.name = featureName) (later : List NameEntry)
    (weighted : renderEntries later ++ tail = W ++ quoted "weight".toList ++ c ++ ':' :: v ++
      stop :: post) :
    ∀ (skipped : List NameEntry) (P Q : Text) (fuel : Nat), (Q = [] ∨ Q = ['\x22']) →
      skipped.length < fuel → (∀ s ∈ skipped, s.name ≠ featureName) →
      (P ++ Q ++ renderEntries (skipped ++ e :: later) ++ tail).length < npos →
      extractLoop (P ++ Q ++ renderEntries (skipped ++ e :: later) ++ tail) featureName fuel
        P.length = some (stod (strip v))
  | [], P, Q, fuel + 1, quote, _, _, fits => by
    rw [List.nil_append, renderEntries_cons, weighted] at fits ⊢
    obtain ⟨atName, -⟩ :=
      @entry_positions e P Q (W ++ quoted "weight".toList ++ c ++ ':' :: v ++ stop :: post) quote
    have nameFound : (P ++ Q ++ e.before).length ≠ npos := by
      simp only [NameEntry.text, List.length_append, List.length_cons] at fits ⊢; omega
    simp only [extractLoop, atName, if_neg nameFound,
      extractStep_hit e quote named firstWeight sepNoColon valueOpen stops fits]
  | s :: rest, P, Q, fuel + 1, quote, enough, others, fits => by
    rw [List.cons_append, renderEntries_cons] at fits ⊢
    rw [extractLoop_other s quote (others s (List.mem_cons_self _ _)) fits,
      ← List.append_assoc _ _ tail]
    rw [renderEntries_next] at fits
    exact extractLoop_hit firstWeight sepNoColon valueOpen stops e named later weighted rest _ _
      fuel (.inr rfl) (by simp at enough; omega)
      (fun other member => others other (List.mem_cons_of_mem _ member)) fits

theorem extractLoop_add {json featureName : Text} {result : Except String ℚ} (more : Nat) :
    ∀ {fuel pos : Nat}, extractLoop json featureName fuel pos = some result →
      extractLoop json featureName (fuel + more) pos = some result
  | 0, _, finished => by simp [extractLoop] at finished
  | fuel + 1, pos, finished => by
    rw [Nat.add_right_comm]
    by_cases absent : find json (quoted "name".toList) pos = npos
    · simpa only [extractLoop, if_pos absent] using finished
    cases step : extractStep json featureName (find json (quoted "name".toList) pos) with
    | error e => simpa only [extractLoop, if_neg absent, step] using finished
    | ok outcome =>
      cases outcome with
      | exit => simpa only [extractLoop, if_neg absent, step] using finished
      | done weight => simpa only [extractLoop, if_neg absent, step] using finished
      | next next =>
        simp only [extractLoop, if_neg absent, step] at finished ⊢
        exact extractLoop_add more finished

theorem extractWeight_of_extractLoop {json featureName : Text} {fuel : Nat}
    {result : Except String ℚ} (enough : fuel ≤ json.length + 1)
    (finished : extractLoop json featureName fuel 0 = some result) :
    extractWeight json featureName = result := by
  rw [extractWeight, ← Nat.add_sub_cancel' enough, extractLoop_add _ finished, Option.getD_some]

/-- With no entry of the feature's name, and no further `"name"` key after the last entry's
closing quote, `extractWeight` reads the weight 0. -/
theorem extractWeight_absent {featureName tail : Text} (entries : List NameEntry)
    (others : ∀ e ∈ entries, e.name ≠ featureName)
    (absent : ¬ quoted "name".toList <:+: '\x22' :: tail)
    (fits : (renderEntries entries ++ tail).length < npos) :
    extractWeight (renderEntries entries ++ tail) featureName = .ok 0 := by
  have loop := extractLoop_skip absent entries [] [] _ (.inl rfl) (Nat.lt_succ_self _) others fits
  simp only [List.nil_append, List.length_nil] at loop
  refine extractWeight_of_extractLoop ?_ loop
  have := length_le_renderEntries entries
  simp only [List.length_append]; omega

theorem extractWeight_absent_delta :
    extractWeight ("[\x7b\"name\":\"pc\",\"weight\":0.5\x7d,\x7b\"name\":\"age\",\"weight\":-1\x7d]").toList
      "delta".toList = .ok 0 :=
  @extractWeight_absent "delta".toList ",\"weight\":-1\x7d]".toList
    [⟨"[\x7b".toList, [], [], "pc".toList, by decide, by decide, by decide, by decide⟩,
      ⟨",\"weight\":0.5\x7d,\x7b".toList, [], [], "age".toList, by decide, by decide, by decide,
        by decide⟩]
    (by decide) (by decide) (by decide)

/-- At the first entry of the feature's name, `extractWeight` reads the value after the first
`"weight"` key from that entry's closing quote on, whatever the entries before it hold. -/
theorem extractWeight_first {featureName tail W c v post : Text} {stop : Char}
    (skipped : List NameEntry) (e : NameEntry) (later : List NameEntry)
    (others : ∀ s ∈ skipped, s.name ≠ featureName) (named : e.name = featureName)
    (weighted : renderEntries later ++ tail = W ++ quoted "weight".toList ++ c ++ ':' :: v ++
      stop :: post)
    (firstWeight : ¬ quoted "weight".toList <:+: '\x22' :: W ++ (quoted "weight".toList).dropLast)
    (sepNoColon : ':' ∉ c) (valueOpen : ∀ x ∈ v, x ∉ valueEnd) (stops : stop ∈ valueEnd)
    (fits : (renderEntries (skipped ++ e :: later) ++ tail).length < npos) :
    extractWeight (renderEntries (skipped ++ e :: later) ++ tail) featureName =
      stod (strip v) := by
  have loop := extractLoop_hit firstWeight sepNoColon valueOpen stops e named later weighted
    skipped [] [] _ (.inl rfl) (Nat.lt_succ_self _) others fits
  simp only [List.nil_append, List.length_nil] at loop
  refine extractWeight_of_extractLoop ?_ loop
  have := length_le_renderEntries (skipped ++ e :: later)
  simp only [List.length_append, List.length_cons] at this ⊢; omega

theorem extractWeight_first_age :
    extractWeight ("[\x7b\"name\":\"pc\",\"weight\":0.5\x7d,\x7b\"name\":\"age\",\"weight\":-1\x7d]").toList
      "age".toList = stod "-1".toList :=
  @extractWeight_first "age".toList ",\"weight\":-1\x7d]".toList ",".toList [] "-1".toList "]".toList
    '\x7d' [⟨"[\x7b".toList, [], [], "pc".toList, by decide, by decide, by decide, by decide⟩]
    ⟨",\"weight\":0.5\x7d,\x7b".toList, [], [], "age".toList, by decide, by decide, by decide,
      by decide⟩ []
    (by decide) rfl (by decide) (by decide) (by decide) (by decide) (by decide) (by decide)

end Weight

end CachePolicies.ReplacementPolicy
