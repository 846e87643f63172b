import MqttClient.Client.Handlers
import MqttClient.Text.Levels

/-! # Topic filters and the topics they match

Filters and topic names are lists of levels. The matcher of
`internalDeliverMessage` goes through them character by character.
-/

namespace MqttClient

/-- The levels of a topic name or filter, which `/` separates. -/
def topicLevels (text : List UInt8) : List (List UInt8) := text.splitOn 47

/-- A level `+` stands for one level, a level `#` for the rest. -/
def levelPattern : List UInt8 → Text.Pattern (List UInt8)
  | [43] => .single
  | [35] => .multi
  | level => .exact level

def filterPattern (filter : List UInt8) : List (Text.Pattern (List UInt8)) :=
  (topicLevels filter).map levelPattern

/-- A wildcard is a level by itself, and `#` comes last. -/
def wildcardsInPlace : List (List UInt8) → Bool
  | [] => true
  | level :: rest =>
      (level = [43] || (level = [35] && rest.isEmpty) ||
        (!level.contains 43 && !level.contains 35)) && wildcardsInPlace rest

structure ValidFilter (filter : List UInt8) : Prop where
  ne_nil : filter ≠ []
  wildcards : wildcardsInPlace (topicLevels filter) = true

/-- The filter begins with a wildcard, the topic name with `$`. -/
def HidesTopic (filter topicName : List UInt8) : Prop :=
  (filter.head? = some 43 ∨ filter.head? = some 35) ∧ topicName.head? = some 36

def FilterMatches (filter topicName : List UInt8) : Prop :=
  Text.Matches (filterPattern filter) (topicLevels topicName) ∧ ¬ HidesTopic filter topicName

/-! ## Levels -/

@[simp] theorem topicLevels_nil : topicLevels [] = [[]] := rfl

@[simp] theorem topicLevels_slash (text : List UInt8) :
    topicLevels (47 :: text) = [] :: topicLevels text := by
  simp [topicLevels, List.splitOn_eq_splitOnP, List.splitOnP_cons_eq_if_modifyHead]

theorem topicLevels_ne_nil (text : List UInt8) : topicLevels text ≠ [] := by
  rw [topicLevels, List.splitOn_eq_splitOnP]
  exact List.splitOnP_ne_nil _ _

theorem topicLevels_cons {c : UInt8} {text level : List UInt8} {rest : List (List UInt8)}
    (hc : c ≠ 47) (h : topicLevels text = level :: rest) :
    topicLevels (c :: text) = (c :: level) :: rest := by
  rw [topicLevels, List.splitOn_eq_splitOnP] at h ⊢
  rw [List.splitOnP_cons_eq_if_modifyHead, h]
  simp [hc]

theorem exists_topicLevels (text : List UInt8) :
    ∃ level rest, topicLevels text = level :: rest :=
  List.exists_cons_of_ne_nil (topicLevels_ne_nil text)

/-- Behind its first level a text ends, or goes on with the next one. -/
theorem topicLevels_dropWhile {text level : List UInt8} {rest : List (List UInt8)}
    (h : topicLevels text = level :: rest) :
    text.dropWhile (· ≠ 47) = [] ∧ rest = [] ∨
      ∃ text', text.dropWhile (· ≠ 47) = 47 :: text' ∧ rest = topicLevels text' := by
  induction text generalizing level with
  | nil =>
      cases h
      exact .inl ⟨rfl, rfl⟩
  | cons c text ih =>
      by_cases hc : c = 47
      · subst hc
        rw [topicLevels_slash] at h
        cases h
        exact .inr ⟨text, rfl, rfl⟩
      · obtain ⟨level', rest', h'⟩ := exists_topicLevels text
        rw [topicLevels_cons hc h'] at h
        cases h
        rw [List.dropWhile_cons_of_pos (by simpa using hc)]
        exact ih h'

/-- A text whose first level is empty ends, or begins with a separator. -/
theorem eq_of_topicLevels_nil_cons {text : List UInt8} {rest : List (List UInt8)}
    (h : topicLevels text = [] :: rest) :
    text = [] ∧ rest = [] ∨ ∃ text', text = 47 :: text' ∧ rest = topicLevels text' := by
  cases text with
  | nil =>
      cases h
      exact .inl ⟨rfl, rfl⟩
  | cons c text =>
      by_cases hc : c = 47
      · subst hc
        rw [topicLevels_slash] at h
        cases h
        exact .inr ⟨text, rfl, rfl⟩
      · obtain ⟨level', rest', h'⟩ := exists_topicLevels text
        rw [topicLevels_cons hc h'] at h
        cases h

theorem levelPattern_eq_exact {level : List UInt8} (hplus : 43 ∉ level) (hhash : 35 ∉ level) :
    levelPattern level = .exact level := by
  unfold levelPattern
  split
  next => simp at hplus
  next => simp at hhash
  next => rfl

/-- What can stand at the front of a list of levels with its wildcards in place. -/
theorem wildcardsInPlace_cons {level : List UInt8} {rest : List (List UInt8)}
    (h : wildcardsInPlace (level :: rest) = true) :
    (level = [43] ∨ level = [35] ∧ rest = [] ∨ 43 ∉ level ∧ 35 ∉ level) ∧
      wildcardsInPlace rest = true := by
  simpa [wildcardsInPlace, or_assoc] using h

theorem wildcardsInPlace_of_exact {level : List UInt8} {rest : List (List UInt8)}
    (hplus : 43 ∉ level) (hhash : 35 ∉ level) (h : wildcardsInPlace rest = true) :
    wildcardsInPlace (level :: rest) = true := by
  simp [wildcardsInPlace, hplus, hhash, h]

/-! ## The matcher -/

theorem filterPattern_slash (filter : List UInt8) :
    filterPattern (47 :: filter) = .exact [] :: filterPattern filter := by
  rw [filterPattern, topicLevels_slash, List.map_cons]
  rfl

theorem filterPattern_ne_nil (filter : List UInt8) : filterPattern filter ≠ [] := by
  rw [filterPattern, ne_eq, List.map_eq_nil_iff]
  exact topicLevels_ne_nil filter

/-- The end of a topic name is reached with the filter's own end only. -/
theorem matchesFilled_filterPattern_nil (filter : List UInt8) :
    Text.matchesFilled [] (filterPattern filter) [] = false := by
  obtain ⟨p, ps, h⟩ := List.exists_cons_of_ne_nil (filterPattern_ne_nil filter)
  rw [h]
  cases p <;> cases ps <;> rfl

theorem isTopicMatched_nil_right {f : UInt8} (filter : List UInt8) :
    isTopicMatched (f :: filter) [] = false := rfl

/-- Step by step: `/` stands for itself. -/
theorem isTopicMatched_slash (filter : List UInt8) (c : UInt8) (topicName : List UInt8) :
    isTopicMatched (47 :: filter) (c :: topicName) =
      if c = 47 then isTopicMatched filter topicName else false := by
  by_cases hc : c = 47
  · simp [isTopicMatched, hc]
  · have hc' : ¬ 47 = c := fun h => hc h.symm
    simp [isTopicMatched, hc, hc']

/-- Other characters than `/`, `+` and `#` stand for themselves. -/
theorem isTopicMatched_char {f : UInt8} (filter : List UInt8) (c : UInt8) (topicName : List UInt8)
    (hslash : f ≠ 47) (hplus : f ≠ 43) (hhash : f ≠ 35) :
    isTopicMatched (f :: filter) (c :: topicName) =
      if f = c then isTopicMatched filter topicName else false := by
  by_cases hc : f = c
  · subst hc
    simp [isTopicMatched, hslash, hplus, hhash]
  · simp [isTopicMatched, hplus, hhash, hc]

/-- `+` stands for at least one character of a level. -/
theorem isTopicMatched_plus (filter : List UInt8) (c : UInt8) (topicName : List UInt8) :
    isTopicMatched (43 :: filter) (c :: topicName) =
      if c = 47 then false else isTopicMatched filter (topicName.dropWhile (· ≠ 47)) := by
  by_cases hc : c = 47
  · simp [isTopicMatched, hc]
  · simp [isTopicMatched, hc]

/-- `#` stands for at least one character, which is not a separator. -/
theorem isTopicMatched_hash (filter : List UInt8) (c : UInt8) (topicName : List UInt8) :
    isTopicMatched (35 :: filter) (c :: topicName) =
      if c = 47 then false else isTopicMatched filter [] := by
  by_cases hc : c = 47
  · simp [isTopicMatched, hc]
  · simp [isTopicMatched, hc]

/-- Of every topic name, the matcher finds what the levels of the filter say, if
their wildcards do not stand for empty levels. -/
def FollowsLevels (filter : List UInt8) : Prop :=
  ∀ topicName, isTopicMatched filter topicName =
    Text.matchesFilled [] (filterPattern filter) (topicLevels topicName)

theorem followsLevels_nil : FollowsLevels [] := by
  intro topicName
  cases topicName with
  | nil => rfl
  | cons c topicName =>
      obtain ⟨level, rest, h⟩ := exists_topicLevels topicName
      by_cases hc : c = 47
      · subst hc
        rw [topicLevels_slash, h]
        rfl
      · rw [topicLevels_cons hc h]
        rfl

theorem FollowsLevels.slash {filter : List UInt8} (h : FollowsLevels filter) :
    FollowsLevels (47 :: filter) := by
  intro topicName
  rw [filterPattern_slash]
  cases topicName with
  | nil =>
      rw [isTopicMatched_nil_right, topicLevels_nil, Text.matchesFilled,
        matchesFilled_filterPattern_nil, Bool.and_false]
  | cons c topicName =>
      rw [isTopicMatched_slash]
      split
      next hc =>
        subst hc
        rw [h, topicLevels_slash]
        simp [Text.matchesFilled]
      next hc =>
        obtain ⟨level, rest, hlevels⟩ := exists_topicLevels topicName
        rw [topicLevels_cons hc hlevels]
        simp [Text.matchesFilled]

/-- A `+` at the end of the filter. -/
theorem followsLevels_plus : FollowsLevels [43] := by
  intro topicName
  cases topicName with
  | nil => rfl
  | cons c topicName =>
      obtain ⟨level, rest, hlevels⟩ := exists_topicLevels topicName
      rw [isTopicMatched_plus]
      split
      next hc =>
        subst hc
        rw [topicLevels_slash]
        rfl
      next hc =>
        rw [topicLevels_cons hc hlevels]
        rcases topicLevels_dropWhile hlevels with ⟨hname, rfl⟩ | ⟨name', hname, rfl⟩
        · rw [hname]
          rfl
        · obtain ⟨level', rest', h'⟩ := exists_topicLevels name'
          rw [hname, h']
          rfl

/-- Behind a `+`, filter and topic name go on with their next levels. -/
theorem FollowsLevels.plus {filter : List UInt8} (h : FollowsLevels filter) :
    FollowsLevels (43 :: 47 :: filter) := by
  have hpattern : filterPattern (43 :: 47 :: filter) = .single :: filterPattern filter := by
    rw [filterPattern, topicLevels_cons (by decide) (topicLevels_slash filter), List.map_cons]
    rfl
  intro topicName
  rw [hpattern]
  cases topicName with
  | nil =>
      rw [isTopicMatched_nil_right, topicLevels_nil]
      rfl
  | cons c topicName =>
      obtain ⟨level, rest, hlevels⟩ := exists_topicLevels topicName
      rw [isTopicMatched_plus]
      split
      next hc =>
        subst hc
        rw [topicLevels_slash]
        simp [Text.matchesFilled]
      next hc =>
        rw [topicLevels_cons hc hlevels]
        rcases topicLevels_dropWhile hlevels with ⟨hname, rfl⟩ | ⟨name', hname, rfl⟩
        · rw [hname, isTopicMatched_nil_right, Text.matchesFilled, matchesFilled_filterPattern_nil,
            Bool.and_false]
        · rw [hname, isTopicMatched_slash, if_pos rfl, h]
          simp [Text.matchesFilled]

theorem followsLevels_hash : FollowsLevels [35] := by
  intro topicName
  cases topicName with
  | nil => rfl
  | cons c topicName =>
      obtain ⟨level, rest, hlevels⟩ := exists_topicLevels topicName
      rw [isTopicMatched_hash]
      split
      next hc =>
        subst hc
        rw [topicLevels_slash]
        rfl
      next hc =>
        rw [topicLevels_cons hc hlevels]
        rfl

/-- A character of a level without wildcards. -/
theorem FollowsLevels.char {f : UInt8} {filter level : List UInt8} {rest : List (List UInt8)}
    (h : FollowsLevels filter) (hlevels : topicLevels filter = level :: rest) (hslash : f ≠ 47)
    (hplus : 43 ∉ f :: level) (hhash : 35 ∉ f :: level) : FollowsLevels (f :: filter) := by
  have hrest : filterPattern filter = .exact level :: rest.map levelPattern := by
    rw [filterPattern, hlevels, List.map_cons, levelPattern_eq_exact
      (List.not_mem_of_not_mem_cons hplus) (List.not_mem_of_not_mem_cons hhash)]
  have hpattern : filterPattern (f :: filter) = .exact (f :: level) :: rest.map levelPattern := by
    rw [filterPattern, topicLevels_cons hslash hlevels, List.map_cons,
      levelPattern_eq_exact hplus hhash]
  intro topicName
  rw [hpattern]
  cases topicName with
  | nil =>
      rw [isTopicMatched_nil_right, topicLevels_nil]
      simp [Text.matchesFilled]
  | cons c topicName =>
      obtain ⟨level', rest', hlevels'⟩ := exists_topicLevels topicName
      rw [isTopicMatched_char _ _ _ hslash (Ne.symm (List.ne_of_not_mem_cons hplus))
        (Ne.symm (List.ne_of_not_mem_cons hhash))]
      split
      next hc =>
        subst hc
        rw [h, hrest, topicLevels_cons hslash hlevels', hlevels']
        simp [Text.matchesFilled]
      next hc =>
        by_cases hc' : c = 47
        · subst hc'
          rw [topicLevels_slash]
          simp [Text.matchesFilled]
        · rw [topicLevels_cons hc' hlevels']
          simp [Text.matchesFilled, hc]

theorem followsLevels_of_wildcardsInPlace {filter : List UInt8}
    (hvalid : wildcardsInPlace (topicLevels filter) = true) : FollowsLevels filter := by
  -- a `+` takes the separator behind it along, so the rest may be shorter by two
  induction hlength : filter.length using Nat.strong_induction_on generalizing filter with
  | _ length ih =>
  subst hlength
  cases filter with
  | nil => exact followsLevels_nil
  | cons f filter =>
      obtain ⟨level, rest, hlevels⟩ := exists_topicLevels filter
      by_cases hslash : f = 47
      · subst hslash
        rw [topicLevels_slash] at hvalid
        exact (ih _ (Nat.lt_succ_self _) (wildcardsInPlace_cons hvalid).2 rfl).slash
      · rw [topicLevels_cons hslash hlevels] at hvalid
        obtain ⟨hfirst, hvalid'⟩ := wildcardsInPlace_cons hvalid
        rcases hfirst with hplus | ⟨hhash, hlast⟩ | ⟨hplus, hhash⟩
        · obtain ⟨rfl, rfl⟩ := List.cons.inj hplus
          rcases eq_of_topicLevels_nil_cons hlevels with ⟨rfl, -⟩ | ⟨filter', rfl, rfl⟩
          · exact followsLevels_plus
          · exact (ih _ (by simp only [List.length_cons]; omega) hvalid' rfl).plus
        · obtain ⟨rfl, rfl⟩ := List.cons.inj hhash
          rcases eq_of_topicLevels_nil_cons hlevels with ⟨rfl, -⟩ | ⟨filter', -, hrest⟩
          · exact followsLevels_hash
          · exact absurd (hrest.symm.trans hlast) (topicLevels_ne_nil filter')
        · have hvalid'' := wildcardsInPlace_of_exact (List.not_mem_of_not_mem_cons hplus)
            (List.not_mem_of_not_mem_cons hhash) hvalid'
          exact (ih _ (Nat.lt_succ_self _) (hlevels ▸ hvalid'') rfl).char hlevels hslash hplus hhash

/-! ## The test for equal bytes -/

/-- A filter matches itself. -/
theorem matchesFilled_levelPattern {levels : List (List UInt8)}
    (hvalid : wildcardsInPlace levels = true) :
    Text.matchesFilled [] (levels.map levelPattern) levels = true := by
  induction levels with
  | nil => rfl
  | cons level rest ih =>
      obtain ⟨hfirst, hvalid'⟩ := wildcardsInPlace_cons hvalid
      rcases hfirst with rfl | ⟨rfl, rfl⟩ | ⟨hplus, hhash⟩
      · simpa [levelPattern, Text.matchesFilled] using ih hvalid'
      · rfl
      · rw [List.map_cons, levelPattern_eq_exact hplus hhash]
        simpa [Text.matchesFilled] using ih hvalid'

theorem eq_take_of_strncmpEq {a b : List UInt8} {n : Nat} (h : strncmpEq a b n = true)
    (ha : a.length = n) (hb : n ≤ b.length) (hnul : ∀ c ∈ b.take n, c ≠ 0) : a = b.take n := by
  induction n generalizing a b with
  | zero => simpa using ha
  | succ n ih =>
      cases a with
      | nil => cases ha
      | cons c a =>
          cases b with
          | nil => cases hb
          | cons d b =>
              rw [List.take_succ_cons] at hnul ⊢
              by_cases hcd : c = d
              · subst hcd
                have hc : c ≠ 0 := hnul c List.mem_cons_self
                have hrest : strncmpEq a b n = true := by simpa [strncmpEq, hc] using h
                rw [← ih hrest (Nat.succ.inj ha) (Nat.le_of_succ_le_succ hb)
                  fun e he => hnul e (List.mem_cons_of_mem c he)]
              · simp [strncmpEq, hcd] at h

/-- A handler whose filter is just its text. -/
structure MessageHandler.IsFor (h : MessageHandler) (filter : CString) : Prop where
  topicName_eq : h.topicName = some filter
  length_eq : h.topicNameLen.toNat = filter.text.length

/-- Comparing the bytes first makes no difference. -/
theorem MessageHandler.receives_eq_matchesFilled {h : MessageHandler} {filter : CString}
    (hfor : h.IsFor filter) (hvalid : ValidFilter filter.text) {topicName : List UInt8}
    {topicNameLen : UInt16} (hlength : topicName.length = topicNameLen.toNat) :
    h.receives topicName topicNameLen =
      Text.matchesFilled [] (filterPattern filter.text) (topicLevels topicName) := by
  have hfollows := followsLevels_of_wildcardsInPlace hvalid.wildcards
  rw [receives, hfor.topicName_eq]
  simp only [hfollows topicName]
  by_cases heq : (topicNameLen = h.topicNameLen &&
      strncmpEq topicName filter.bytes topicNameLen.toNat) = true
  · -- the same bytes, so the same levels
    rw [heq, Bool.true_or]
    rw [Bool.and_eq_true, decide_eq_true_eq] at heq
    obtain ⟨rfl, hbytes⟩ := heq
    have hfront : filter.text = filter.bytes.take filter.text.length :=
      List.prefix_iff_eq_take.mp (List.takeWhile_prefix _)
    rw [hfor.length_eq] at hbytes hlength
    have htext : topicName = filter.text := by
      rw [hfront]
      apply eq_take_of_strncmpEq hbytes hlength
      · exact (List.takeWhile_prefix _).length_le
      · rw [← hfront]
        intro c hc
        exact of_decide_eq_true (List.all_eq_true.mp List.all_takeWhile c hc)
    rw [htext]
    exact (matchesFilled_levelPattern hvalid.wildcards).symm
  · rw [Bool.not_eq_true] at heq
    rw [heq, Bool.false_or]

/-- If the filter matches level by level, then a wildcard stands over an empty
level, or over the end, just if the rule for `$` hides the topic. -/
def WildcardsFilled (filter topicName : List UInt8) : Prop :=
  Text.Matches (filterPattern filter) (topicLevels topicName) →
    (Text.OverBlank [] (filterPattern filter) (topicLevels topicName) ↔ HidesTopic filter topicName)

/-- A handler is selected for the topics that its filter matches exactly as far
as its wildcards stand for levels that are not empty, and hide no topics. -/
theorem receives_iff_filterMatches_iff {h : MessageHandler} {filter : CString}
    (hfor : h.IsFor filter)
    (hvalid : ValidFilter filter.text) {topicName : List UInt8} {topicNameLen : UInt16}
    (hlength : topicName.length = topicNameLen.toNat) :
    (h.receives topicName topicNameLen = true ↔ FilterMatches filter.text topicName) ↔
      WildcardsFilled filter.text topicName := by
  rw [MessageHandler.receives_eq_matchesFilled hfor hvalid hlength, Text.matchesFilled_iff,
    FilterMatches, WildcardsFilled]
  constructor
  · intro hagree hmatch
    have hiff := hagree.trans (and_iff_right hmatch)
    exact not_iff_not.mp ((and_iff_right hmatch).symm.trans hiff)
  · intro hfilled
    exact and_congr_right fun hmatch => not_congr (hfilled hmatch)

def handlerFor (filter : CString) : MessageHandler where
  topicName := some filter
  topicNameLen := UInt16.ofNat filter.text.length
  qos := qos0
  applicationHandler := some 0
  applicationHandlerData := 0

def filterBelowA : CString := ⟨[97, 47, 35, 0], by decide⟩

theorem validFilter_filterBelowA : ValidFilter filterBelowA.text := ⟨by decide, by decide⟩

theorem isFor_handlerFor_filterBelowA : (handlerFor filterBelowA).IsFor filterBelowA :=
  ⟨rfl, by decide⟩

theorem matches_filterBelowA (levels : List (List UInt8)) :
    Text.Matches (filterPattern filterBelowA.text) ([97] :: levels) :=
  .exact [97] (.multi levels)

/-- The topic `a/b` is below `a`. -/
theorem receives_filterBelowA :
    (handlerFor filterBelowA).receives [97, 47, 98] 3 = true ↔
      FilterMatches filterBelowA.text [97, 47, 98] := by
  refine (receives_iff_filterMatches_iff isFor_handlerFor_filterBelowA validFilter_filterBelowA
    (by decide)).mpr fun _ => iff_of_false ?_ ?_
  · rintro (_ | _ | _ | ⟨_, _, _ | _ | _ | ⟨_, _, ⟨⟩⟩⟩)
  · rintro ⟨hfilter, -⟩
    revert hfilter
    decide

/-- The topic `a` itself is missed. -/
theorem not_receives_parent :
    ¬ ((handlerFor filterBelowA).receives [97] 1 = true ↔
      FilterMatches filterBelowA.text [97]) := by
  intro h
  have hmatches : FilterMatches filterBelowA.text [97] := by
    refine ⟨matches_filterBelowA [], ?_⟩
    rintro ⟨hfilter, -⟩
    revert hfilter
    decide
  exact absurd (h.mpr hmatches) (by decide)

end MqttClient
