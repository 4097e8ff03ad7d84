import SoulCoreKit.Mq.Broker
import Mathlib.Data.List.Infix
import Mathlib.Data.List.TakeWhile

/-!
# What the topic scan decides

The scan never accepts too much: a `#` it skips over absorbs the words it dropped, so every accepted
key matches. It accepts too little. On a `#` that is not the last word it moves past the first key
word equal to the next pattern word while keeping that pattern word, which then has to be matched a
second time. The shortest key a pattern matches has no second occurrence to offer, so every pattern
with such a `#` misses a key, and the patterns without one are exactly those the scan decides.
-/

namespace SoulCoreKit.Mq

/-! ### Splitting and joining words -/

theorem splitWords_ne_nil (text : String) : splitWords text ≠ [] := by
  simp [splitWords]

theorem splitWords_injective : Function.Injective splitWords := by
  intro left right heq
  have hparts : left.toList.splitOn '.' = right.toList.splitOn '.' := by
    have hinj : Function.Injective (List.map String.ofList) :=
      List.map_injective_iff.mpr fun _ _ h => String.ofList_injective h
    exact hinj heq
  have hjoin : ∀ chars : List Char, ['.'].intercalate (chars.splitOn '.') = chars :=
    fun _ => List.intercalate_splitOn '.'
  apply String.toList_injective
  rw [← hjoin left.toList, hparts, hjoin]

theorem notMem_of_mem_splitOn {chars part : List Char} (hpart : part ∈ chars.splitOn '.') :
    '.' ∉ part := by
  induction chars generalizing part with
  | nil =>
      simp at hpart
      simp [hpart]
  | cons c chars ih =>
      rw [List.splitOn_cons_eq_if_modifyHead] at hpart
      split at hpart
      · rcases List.mem_cons.mp hpart with rfl | hmem
        · simp
        · exact ih hmem
      · rename_i hdot
        cases hsplit : chars.splitOn '.' with
        | nil => exact absurd hsplit (List.splitOn_ne_nil '.' chars)
        | cons head tail =>
            rw [hsplit] at hpart ih
            rcases List.mem_cons.mp hpart with rfl | hmem
            · have hhead := @ih head (by simp)
              simp only [List.mem_cons, not_or]
              exact ⟨fun h => hdot (by simp [← h]), hhead⟩
            · exact ih (by simp [hmem])

theorem notMem_of_mem_splitWords {text word : String} (hword : word ∈ splitWords text) :
    '.' ∉ word.toList := by
  obtain ⟨part, hpart, rfl⟩ := List.mem_map.mp hword
  simpa using notMem_of_mem_splitOn hpart

/-- The routing key with the given words. -/
def joinWords (words : List String) : String :=
  String.ofList (['.'].intercalate (words.map String.toList))

theorem splitWords_joinWords {words : List String} (hne : words ≠ [])
    (hdots : ∀ word ∈ words, '.' ∉ word.toList) : splitWords (joinWords words) = words := by
  unfold splitWords joinWords
  rw [String.toList_ofList, List.splitOn_intercalate]
  · simp [List.map_map, Function.comp_def]
  · intro chars hchars
    obtain ⟨word, hword, rfl⟩ := List.mem_map.mp hchars
    exact hdots word hword
  · simpa using hne

/-! ### The matching relation -/

theorem TopicMatches.hash_of_suffix {pattern key suffix : List String} (hsuffix : suffix <:+ key)
    (hmatch : TopicMatches pattern suffix) : TopicMatches ("#" :: pattern) key := by
  obtain ⟨words, rfl⟩ := hsuffix
  exact .hash words hmatch

theorem TopicMatches.refl (words : List String) : TopicMatches words words := by
  induction words with
  | nil => exact .nil
  | cons word words ih =>
      by_cases hstar : word = "*"
      · subst hstar
        exact .star _ ih
      · by_cases hhash : word = "#"
        · subst hhash
          exact .hash ["#"] ih
        · exact .word hstar hhash ih

/-- A match needs at least one key word for every pattern word other than `#`. -/
theorem TopicMatches.countP_le_length {pattern key : List String}
    (hmatch : TopicMatches pattern key) : pattern.countP (· != "#") ≤ key.length := by
  induction hmatch with
  | nil => simp
  | star word _ ih =>
      rw [List.countP_cons_of_pos (by decide), List.length_cons]
      omega
  | hash words _ ih =>
      rw [List.countP_cons_of_neg (by decide), List.length_append]
      omega
  | word hstar hhash _ ih =>
      rw [List.countP_cons_of_pos (by simpa using hhash), List.length_cons]
      omega

/-! ### Soundness -/

theorem scanTopic_sound {pattern key : List String} (hscan : scanTopic pattern key = true) :
    TopicMatches pattern key := by
  induction pattern generalizing key with
  | nil =>
      cases key with
      | nil => exact .nil
      | cons k key => simp [scanTopic] at hscan
  | cons p pattern ih =>
      cases key with
      | nil =>
          simp only [scanTopic, Bool.and_eq_true, beq_iff_eq, List.isEmpty_iff] at hscan
          obtain ⟨rfl, rfl⟩ := hscan
          exact .hash [] .nil
      | cons k key =>
          unfold scanTopic at hscan
          split at hscan
          · rename_i hhash
            subst hhash
            cases pattern with
            | nil => simpa using TopicMatches.hash (k :: key) .nil
            | cons nextP pattern =>
                simp only at hscan
                -- what is left after the key word equal to `nextP` is a suffix of the key
                cases hdrop : (k :: key).dropWhile (· != nextP) with
                | nil => simp [hdrop] at hscan
                | cons found keyRest =>
                    rw [hdrop] at hscan
                    refine .hash_of_suffix ?_ (ih hscan)
                    have hsuffix : found :: keyRest <:+ k :: key := hdrop ▸ List.dropWhile_suffix _
                    exact (List.suffix_cons found keyRest).trans hsuffix
          · rename_i hhash
            split at hscan
            · rename_i hstar
              subst hstar
              exact .star k (ih hscan)
            · rename_i hstar
              split at hscan
              · rename_i heq
                subst heq
                exact .word hstar hhash (ih hscan)
              · simp at hscan

theorem matchTopicPattern_sound {pattern key : String}
    (hmatch : matchTopicPattern pattern key = true) :
    TopicMatches (splitWords pattern) (splitWords key) := by
  unfold matchTopicPattern at hmatch
  split at hmatch
  · rename_i heq
    exact heq ▸ .refl _
  · split at hmatch
    · simp at hmatch
    · exact scanTopic_sound hmatch

/-! ### Completeness when `#` only ends a pattern -/

theorem scanTopic_complete {pattern key : List String} (hlast : HashOnlyLast pattern)
    (hmatch : TopicMatches pattern key) : scanTopic pattern key = true := by
  induction hmatch with
  | nil => rfl
  | @star word pattern key hrest ih =>
      have hlast' : HashOnlyLast pattern := by
        cases pattern with
        | nil => simp [HashOnlyLast]
        | cons p pattern => exact fun hmem => hlast (List.mem_cons_of_mem _ hmem)
      simp [scanTopic, ih hlast']
  | @hash words pattern key hrest ih =>
      cases pattern with
      | nil =>
          cases hkey : words ++ key <;> simp [scanTopic]
      | cons p pattern => exact absurd List.mem_cons_self hlast
  | @word word pattern key hstar hhash hrest ih =>
      have hlast' : HashOnlyLast pattern := by
        cases pattern with
        | nil => simp [HashOnlyLast]
        | cons p pattern => exact fun hmem => hlast (List.mem_cons_of_mem _ hmem)
      simp [scanTopic, hstar, hhash, ih hlast']

/-! ### The shortest key of a pattern -/

/-- The words of the shortest key a pattern matches: every `#` absorbs nothing, and `x` stands for
every `*`. -/
def shortestKey (pattern : List String) : List String :=
  (pattern.filter (· != "#")).map fun word => if word = "*" then "x" else word

@[simp]
theorem shortestKey_hash (pattern : List String) :
    shortestKey ("#" :: pattern) = shortestKey pattern := by
  simp [shortestKey]

@[simp]
theorem shortestKey_star (pattern : List String) :
    shortestKey ("*" :: pattern) = "x" :: shortestKey pattern := by
  simp [shortestKey]

theorem shortestKey_word {word : String} (hstar : word ≠ "*") (hhash : word ≠ "#")
    (pattern : List String) : shortestKey (word :: pattern) = word :: shortestKey pattern := by
  simp [shortestKey, hstar, hhash]

theorem length_shortestKey (pattern : List String) :
    (shortestKey pattern).length = pattern.countP (· != "#") := by
  rw [shortestKey, List.length_map, List.countP_eq_length_filter]

theorem mem_shortestKey {pattern : List String} {word : String} (hmem : word ∈ shortestKey pattern) :
    word ≠ "#" ∧ word ≠ "*" ∧ (word = "x" ∨ word ∈ pattern) := by
  simp only [shortestKey, List.mem_map, List.mem_filter] at hmem
  obtain ⟨original, ⟨horiginal, hhash⟩, rfl⟩ := hmem
  split
  · exact ⟨by decide, by decide, Or.inl rfl⟩
  · rename_i hstar
    exact ⟨by simpa using hhash, hstar, Or.inr horiginal⟩

theorem topicMatches_shortestKey (pattern : List String) :
    TopicMatches pattern (shortestKey pattern) := by
  induction pattern with
  | nil => exact .nil
  | cons word pattern ih =>
      by_cases hhash : word = "#"
      · subst hhash
        rw [shortestKey_hash]
        exact .hash [] ih
      · by_cases hstar : word = "*"
        · subst hstar
          rw [shortestKey_star]
          exact .star _ ih
        · rw [shortestKey_word hstar hhash]
          exact .word hstar hhash ih

/-- On a `#` before another pattern word the scan finds nothing in the shortest key. -/
theorem scanTopic_hash_shortestKey (nextP : String) (pattern : List String) :
    scanTopic ("#" :: nextP :: pattern) (shortestKey (nextP :: pattern)) = false := by
  have hnone : (shortestKey (nextP :: pattern)).dropWhile (· != nextP) = [] →
      scanTopic ("#" :: nextP :: pattern) (shortestKey (nextP :: pattern)) = false := by
    intro hdrop
    cases hkey : shortestKey (nextP :: pattern) with
    | nil => simp [scanTopic]
    | cons k key =>
        rw [hkey] at hdrop
        simp [scanTopic, hdrop]
  by_cases hwild : nextP = "#" ∨ nextP = "*"
  · apply hnone
    rw [List.dropWhile_eq_nil_iff]
    intro word hword
    have hplain := mem_shortestKey hword
    rcases hwild with rfl | rfl
    · simpa using hplain.1
    · simpa using hplain.2.1
  · obtain ⟨hhash, hstar⟩ := not_or.mp hwild
    rw [shortestKey_word hstar hhash]
    by_contra hscan
    -- the key word `nextP` is spent, and the rest is too short for `nextP` and what follows
    have hrest : scanTopic (nextP :: pattern) (shortestKey pattern) = true := by
      simpa [scanTopic] using hscan
    have hlength := (scanTopic_sound hrest).countP_le_length
    rw [List.countP_cons_of_pos (by simpa using hhash), length_shortestKey] at hlength
    omega

theorem scanTopic_shortestKey {pattern : List String} (hhash : ¬ HashOnlyLast pattern) :
    scanTopic pattern (shortestKey pattern) = false := by
  induction pattern with
  | nil => exact absurd (by simp [HashOnlyLast]) hhash
  | cons p pattern ih =>
      cases pattern with
      | nil => exact absurd (by simp [HashOnlyLast]) hhash
      | cons nextP pattern =>
          by_cases hp : p = "#"
          · subst hp
            rw [shortestKey_hash]
            exact scanTopic_hash_shortestKey nextP pattern
          · have htail : ¬ HashOnlyLast (nextP :: pattern) := by
              simp only [HashOnlyLast, List.dropLast_cons_cons, List.mem_cons, not_not] at hhash ⊢
              exact hhash.resolve_left (Ne.symm hp)
            by_cases hstar : p = "*"
            · subst hstar
              rw [shortestKey_star]
              simpa [scanTopic] using ih htail
            · rw [shortestKey_word hstar hp]
              simpa [scanTopic, hp, hstar] using ih htail

/-- A pattern of nothing but `#` words, more than one of them, refuses the key `x`. -/
theorem scanTopic_of_shortestKey_nil {pattern : List String} (hhash : ¬ HashOnlyLast pattern)
    (hnil : shortestKey pattern = []) :
    scanTopic pattern ["x"] = false ∧ TopicMatches pattern ["x"] := by
  have hall : ∀ word ∈ pattern, word = "#" := by
    intro word hword
    by_contra hne
    have hmem : word ∈ pattern.filter (· != "#") := by
      rw [List.mem_filter]
      exact ⟨hword, by simpa using hne⟩
    rw [shortestKey, List.map_eq_nil_iff] at hnil
    rw [hnil] at hmem
    simp at hmem
  match pattern with
  | [] => exact absurd (by simp [HashOnlyLast]) hhash
  | [p] => exact absurd (by simp [HashOnlyLast]) hhash
  | p :: nextP :: pattern =>
      obtain rfl : p = "#" := hall p (by simp)
      obtain rfl : nextP = "#" := hall nextP (by simp)
      refine ⟨by simp [scanTopic], .hash ["x"] ?_⟩
      have hrest := topicMatches_shortestKey ("#" :: pattern)
      rwa [← shortestKey_hash, hnil] at hrest

/-- Every pattern with a `#` before its last word misses some key it should match. -/
theorem exists_missed_key {pattern : String} (hhash : ¬ HashOnlyLast (splitWords pattern)) :
    ∃ key, matchTopicPattern pattern key = false ∧
      TopicMatches (splitWords pattern) (splitWords key) := by
  obtain ⟨words, hne, hdots, hplain, hscan, hmatch⟩ : ∃ words : List String, words ≠ [] ∧
      (∀ word ∈ words, '.' ∉ word.toList) ∧ "#" ∉ words ∧
      scanTopic (splitWords pattern) words = false ∧ TopicMatches (splitWords pattern) words := by
    by_cases hnil : shortestKey (splitWords pattern) = []
    · obtain ⟨hscan, hmatch⟩ := scanTopic_of_shortestKey_nil hhash hnil
      exact ⟨["x"], by simp, by decide, by decide, hscan, hmatch⟩
    · refine ⟨_, hnil, ?_, ?_, scanTopic_shortestKey hhash, topicMatches_shortestKey _⟩
      · intro word hword
        rcases (mem_shortestKey hword).2.2 with rfl | hmem
        · decide
        · exact notMem_of_mem_splitWords hmem
      · exact fun hmem => (mem_shortestKey hmem).1 rfl
  refine ⟨joinWords words, ?_, by rwa [splitWords_joinWords hne hdots]⟩
  have hsplit := splitWords_joinWords hne hdots
  have hdiff : pattern ≠ joinWords words := by
    intro heq
    rw [heq, hsplit] at hhash
    exact hhash fun hmem => hplain (List.mem_of_mem_dropLast hmem)
  unfold matchTopicPattern
  rw [if_neg hdiff]
  split
  · rfl
  · rw [hsplit, hscan]

/-! ### The empty key -/

/-- The patterns whose `#` can only end them and that match the empty key, which is one empty word:
`#`, `*`, `*.#` and `.#`, besides the empty pattern itself. -/
theorem topicMatches_emptyKey_iff {pattern : String} (hlast : HashOnlyLast (splitWords pattern))
    (hne : pattern ≠ "") :
    TopicMatches (splitWords pattern) [""] ↔ pattern ∈ ["#", "*", "*.#", ".#"] := by
  constructor
  · intro hmatch
    have hwords : splitWords pattern = splitWords "#" ∨ splitWords pattern = splitWords "*" ∨
        splitWords pattern = splitWords "*.#" ∨ splitWords pattern = splitWords ".#" := by
      have hempty : splitWords pattern ≠ [""] := by
        intro heq
        exact hne (splitWords_injective (heq.trans (by decide : [""] = splitWords "")))
      have hfour : splitWords "#" = ["#"] ∧ splitWords "*" = ["*"] ∧
          splitWords "*.#" = ["*", "#"] ∧ splitWords ".#" = ["", "#"] := by decide
      rw [hfour.1, hfour.2.1, hfour.2.2.1, hfour.2.2.2]
      -- at most one word besides a final `#`, since each takes a key word
      have hscan := scanTopic_complete hlast hmatch
      match hpattern : splitWords pattern with
      | [] => exact absurd hpattern (splitWords_ne_nil _)
      | [p] =>
          rw [hpattern] at hscan hempty
          by_cases hhash : p = "#"
          · exact Or.inl (by rw [hhash])
          · by_cases hstar : p = "*"
            · exact Or.inr (Or.inl (by rw [hstar]))
            · simp_all [scanTopic]
      | p :: q :: rest =>
          rw [hpattern] at hscan hlast
          have hp : p ≠ "#" := fun heq => hlast (by simp [heq])
          have htail : scanTopic (q :: rest) [] = true := by
            by_cases hstar : p = "*"
            · simpa [scanTopic, hp, hstar] using hscan
            · simp only [scanTopic, hp, hstar, if_false] at hscan
              split at hscan
              · exact hscan
              · simp at hscan
          simp only [scanTopic, Bool.and_eq_true, beq_iff_eq, List.isEmpty_iff] at htail
          obtain ⟨rfl, rfl⟩ := htail
          by_cases hstar : p = "*"
          · exact Or.inr (Or.inr (Or.inl (by rw [hstar])))
          · simp only [scanTopic, hp, hstar, if_false] at hscan
            split at hscan
            · rename_i hword
              exact Or.inr (Or.inr (Or.inr (by rw [hword])))
            · simp at hscan
    simpa [List.mem_cons, splitWords_injective.eq_iff] using hwords
  · intro hmem
    simp only [List.mem_cons, List.not_mem_nil, or_false] at hmem
    apply scanTopic_sound
    rcases hmem with rfl | rfl | rfl | rfl <;> decide

/-- `matchTopicPattern` decides topic matching for a pattern, on every routing key, exactly when no
word of the pattern but the last is `#` and the pattern is none of the four that match the empty
routing key, which the early return refuses. -/
theorem matchTopicPattern_iff (pattern : String) :
    (∀ key, matchTopicPattern pattern key = true ↔
        TopicMatches (splitWords pattern) (splitWords key)) ↔
      HashOnlyLast (splitWords pattern) ∧ pattern ∉ ["#", "*", "*.#", ".#"] := by
  constructor
  · intro hall
    have hlast : HashOnlyLast (splitWords pattern) := by
      by_contra hhash
      obtain ⟨key, hmiss, hmatch⟩ := exists_missed_key hhash
      have htrue := (hall key).mpr hmatch
      rw [hmiss] at htrue
      exact absurd htrue (by decide)
    refine ⟨hlast, ?_⟩
    intro hmem
    have hne : pattern ≠ "" := by
      rintro rfl
      exact absurd hmem (by decide)
    have hempty : splitWords "" = [""] := by decide
    have htrue := (hall "").mpr (hempty ▸ (topicMatches_emptyKey_iff hlast hne).mpr hmem)
    simp [matchTopicPattern, hne] at htrue
  · rintro ⟨hlast, hnotMem⟩ key
    refine ⟨matchTopicPattern_sound, ?_⟩
    intro hmatch
    unfold matchTopicPattern
    split
    · rfl
    · rename_i hdiff
      split
      · rename_i hempty
        -- an empty pattern matches the empty key only, an empty key none of the patterns left
        exfalso
        rcases hempty with rfl | rfl
        · have hwords : splitWords "" = [""] := by decide
          have hscan := scanTopic_complete hlast hmatch
          rw [hwords] at hscan
          cases hkey : splitWords key with
          | nil => exact splitWords_ne_nil key hkey
          | cons k rest =>
              rw [hkey] at hscan
              simp only [scanTopic, String.reduceEq, if_false] at hscan
              split at hscan
              · rename_i hk
                subst hk
                simp only [List.isEmpty_iff] at hscan
                subst hscan
                exact hdiff (splitWords_injective (hwords.trans hkey.symm))
              · simp at hscan
        · have hwords : splitWords "" = [""] := by decide
          rw [hwords] at hmatch
          exact hnotMem ((topicMatches_emptyKey_iff hlast hdiff).mp hmatch)
      · exact scanTopic_complete hlast hmatch

/-- `#.error` refuses `app.error`. -/
theorem matchTopicPattern_misses :
    matchTopicPattern "#.error" "app.error" = false ∧
      TopicMatches (splitWords "#.error") (splitWords "app.error") := by
  refine ⟨by decide, ?_⟩
  have hwords : splitWords "#.error" = ["#", "error"] ∧
      splitWords "app.error" = ["app"] ++ ["error"] := by decide
  rw [hwords.1, hwords.2]
  exact .hash ["app"] (.refl _)

end SoulCoreKit.Mq
