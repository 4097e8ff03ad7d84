import SoulCoreKit.Lib.SeparatedText
import SoulCoreKit.Scheduler.CronSpec
import Mathlib.Data.List.TakeWhile

/-!
# Matching a cron field

Reading a field tells exactly whether the value belongs to what the field denotes, unless it comes to a
number that `std::stoi` cannot represent.
-/

namespace SoulCoreKit.Scheduler

open SoulCoreKit.Lib

/-! ### Numbers -/

theorem toNat_of_isDigit {c : Char} (h : c.isDigit = true) : 48 ≤ c.toNat ∧ c.toNat ≤ 57 := by
  simp only [Char.isDigit, Bool.and_eq_true, decide_eq_true_eq] at h
  exact ⟨h.1, h.2⟩

theorem ne_of_isDigit {c d : Char} (h : c.isDigit = true) (hd : d.isDigit = false) : c ≠ d := by
  rintro rfl
  rw [h] at hd
  cases hd

theorem isSpace_of_isDigit {c : Char} (h : c.isDigit = true) : isSpace c = false := by
  have hrange := toNat_of_isDigit h
  simp only [isSpace, Bool.or_eq_false_iff, Bool.and_eq_false_iff, decide_eq_false_iff_not]
  omega

namespace Numeral

variable (n : Numeral)

theorem not_mem_digits {c : Char} (hc : c.isDigit = false) : c ∉ n.digits :=
  fun hmem => ne_of_isDigit (n.isDigit c hmem) hc rfl

theorem takeWhile_digits : n.digits.takeWhile Char.isDigit = n.digits :=
  List.takeWhile_eq_self_iff.mpr n.isDigit

theorem exists_head : ∃ c rest, n.digits = c :: rest ∧ c.isDigit = true := by
  obtain ⟨c, rest, heq⟩ := List.exists_cons_of_ne_nil n.nonempty
  exact ⟨c, rest, heq, n.isDigit c (by rw [heq]; exact List.mem_cons_self)⟩

theorem stoi_eq : stoi n.digits = if n.value < 2 ^ 31 then .ok (n.value : Int) else .error .outOfRange := by
  obtain ⟨c, rest, heq, hc⟩ := n.exists_head
  have hdrop : n.digits.dropWhile isSpace = n.digits := by
    rw [heq, List.dropWhile_cons_of_neg (by simp [isSpace_of_isDigit hc])]
  have hminus : n.digits.head? ≠ some '-' := by
    rw [heq, List.head?_cons]
    exact fun h => ne_of_isDigit hc (by decide) (Option.some.inj h)
  have hplus : n.digits.head? ≠ some '+' := by
    rw [heq, List.head?_cons]
    exact fun h => ne_of_isDigit hc (by decide) (Option.some.inj h)
  have hempty : n.digits.isEmpty = false := by rw [heq]; rfl
  simp only [stoi, hdrop, hminus, hplus, or_self, if_false, n.takeWhile_digits, hempty,
    Bool.false_eq_true]
  by_cases hsmall : n.value < 2 ^ 31
  · rw [if_pos hsmall, if_pos]
    · rfl
    · simp only [value] at hsmall
      omega
  · rw [if_neg hsmall, if_neg]
    simp only [value] at hsmall
    omega

theorem stoi_ok (h : n.Representable) : stoi n.digits = .ok (n.value : Int) :=
  n.stoi_eq.trans (if_pos h)

theorem stoi_error (h : ¬ n.Representable) : stoi n.digits = .error .outOfRange :=
  n.stoi_eq.trans (if_neg h)

end Numeral

/-! ### One item -/

/-- A step of 0 is divided by where the value lies in the range. -/
theorem inStep_decides (value step first last : Int) :
    DecidesOn (inStep value step first last) (first ≤ value ∧ value ≤ last ∧ step ∣ value - first)
      (first ≤ value ∧ value ≤ last → step ≠ 0) := by
  rw [inStep]
  by_cases hrange : first ≤ value ∧ value ≤ last
  case neg =>
    rw [if_neg hrange]
    exact (DecidesOn.pure Iff.rfl).congr (by simp; tauto) (by tauto)
  rw [if_pos hrange]
  by_cases hone : step = 1
  · rw [if_pos hone]
    exact (DecidesOn.pure Iff.rfl).congr (by simp [hone, hrange]) (by simp [hone])
  by_cases hzero : step = 0
  · rw [if_neg hone, if_pos hzero]
    exact ⟨fun hne => (hne hrange hzero).elim, fun _ => ⟨_, rfl⟩⟩
  · rw [if_neg hone, if_neg hzero]
    refine (DecidesOn.pure Iff.rfl).congr ?_ (by simp [hzero])
    rw [decide_eq_true_iff, ← Int.dvd_iff_tmod_eq_zero]
    exact ⟨fun hdvd => ⟨hrange.1, hrange.2, hdvd⟩, fun h => h.2.2⟩

theorem findIdx?_eq_none_of_not_mem {text : List Char} {c : Char} (h : c ∉ text) :
    text.findIdx? (· = c) = none := by
  rw [List.findIdx?_eq_none_iff]
  intro d hd
  exact decide_eq_false (fun heq => h (heq ▸ hd))

theorem findIdx?_append_cons {text rest : List Char} {c : Char} (h : c ∉ text) :
    (text ++ c :: rest).findIdx? (· = c) = some text.length := by
  have hhead : (c :: rest).findIdx? (· = c) = some 0 := by
    rw [List.findIdx?_cons, if_pos (decide_eq_true rfl)]
  rw [List.findIdx?_append, findIdx?_eq_none_of_not_mem h, hhead]
  simp

namespace CronRange

variable (r : CronRange)

theorem not_mem_spelling {c : Char} (hdigit : c.isDigit = false) (hstar : c ≠ '*') (hdash : c ≠ '-') :
    c ∉ r.spelling := by
  cases r with
  | star => simpa [spelling] using hstar
  | single n => exact n.not_mem_digits hdigit
  | span a b =>
    simp only [spelling, List.mem_append, List.mem_cons, not_or]
    exact ⟨a.not_mem_digits hdigit, hdash, b.not_mem_digits hdigit⟩

theorem spelling_ne_nil : r.spelling ≠ [] := by
  cases r with
  | star => simp [spelling]
  | single n => exact n.nonempty
  | span a b => simp [spelling]

theorem splitRange_single (min max : Int) (n : Numeral) :
    splitRange min max (single n).spelling = (stoi n.digits).map fun rangeMin => (rangeMin, rangeMin) := by
  have hstar : n.digits ≠ ['*'] := by
    intro heq
    exact n.not_mem_digits (c := '*') (by decide) (by rw [heq]; exact List.mem_cons_self)
  simp only [splitRange, spelling, findIdx?_eq_none_of_not_mem (n.not_mem_digits (c := '-') (by decide))]
  exact if_neg hstar

theorem splitRange_span (min max : Int) (a b : Numeral) :
    splitRange min max (span a b).spelling =
      (stoi a.digits).bind fun rangeMin => (stoi b.digits).map fun rangeMax => (rangeMin, rangeMax) := by
  have hdrop : (a.digits ++ '-' :: b.digits).drop (a.digits.length + 1) = b.digits := by
    rw [List.drop_append, List.drop_of_length_le (Nat.le_succ _), Nat.add_sub_cancel_left]
    rfl
  simp only [splitRange, spelling, findIdx?_append_cons (a.not_mem_digits (c := '-') (by decide)),
    List.take_left, hdrop]

theorem splitRange_ok (min max : Int) (h : r.Representable) :
    splitRange min max r.spelling = .ok (r.first min, r.last max) := by
  cases r with
  | star => rfl
  | single n =>
    rw [splitRange_single, n.stoi_ok h]
    rfl
  | span a b =>
    rw [splitRange_span, a.stoi_ok h.1, b.stoi_ok h.2]
    rfl

theorem splitRange_error (min max : Int) (h : ¬ r.Representable) :
    splitRange min max r.spelling = .error .outOfRange := by
  cases r with
  | star => exact (h trivial).elim
  | single n =>
    rw [splitRange_single, n.stoi_error h]
    rfl
  | span a b =>
    rw [splitRange_span]
    by_cases ha : a.Representable
    · rw [a.stoi_ok ha, b.stoi_error (fun hb => h ⟨ha, hb⟩)]
      rfl
    · rw [a.stoi_error ha]
      rfl

end CronRange

namespace CronItem

variable (item : CronItem)

theorem splitStep_eq :
    splitStep item.spelling =
      match item.step with
      | none => .ok (1, item.range.spelling)
      | some k => (stoi k.1.digits).map fun step => (step, item.range.spelling) := by
  have hslash : '/' ∉ item.range.spelling :=
    item.range.not_mem_spelling (by decide) (by decide) (by decide)
  rw [splitStep, spelling]
  cases item.step with
  | none => simp only [findIdx?_eq_none_of_not_mem hslash]
  | some k =>
    have hdrop : (item.range.spelling ++ '/' :: k.1.digits).drop (item.range.spelling.length + 1) =
        k.1.digits := by
      rw [List.drop_append, List.drop_of_length_le (Nat.le_succ _), Nat.add_sub_cancel_left]
      rfl
    simp only [findIdx?_append_cons hslash, List.take_left, hdrop]

theorem splitStep_ok (h : item.stride < 2 ^ 31) :
    splitStep item.spelling = .ok ((item.stride : Int), item.range.spelling) := by
  rw [splitStep_eq]
  rw [stride] at h ⊢
  cases hstep : item.step with
  | none => rfl
  | some k =>
    rw [hstep] at h
    simp only [k.1.stoi_ok h]
    rfl

theorem splitStep_error (h : ¬ item.stride < 2 ^ 31) :
    splitStep item.spelling = .error .outOfRange := by
  rw [splitStep_eq]
  rw [stride] at h
  cases hstep : item.step with
  | none =>
    rw [hstep] at h
    exact (h (by decide)).elim
  | some k =>
    rw [hstep] at h
    simp only [k.1.stoi_error h]
    rfl

theorem stride_pos : 0 < item.stride := by
  rw [stride]
  cases item.step with
  | none => exact Nat.one_pos
  | some k => exact k.2

theorem matchPart_of_splitStep {value min max step : Int} {part rangePart : List Char}
    (h : splitStep part = .ok (step, rangePart)) :
    matchPart value min max part =
      (splitRange min max rangePart).bind fun range => inStep value step range.1 range.2 := by
  rw [matchPart, h]
  rfl

theorem matchPart_decides (value min max : Int) :
    DecidesOn (matchPart value min max item.spelling) (value ∈ item.elements min max)
      item.Representable := by
  by_cases hstep : item.stride < 2 ^ 31
  case neg =>
    refine ⟨fun h => (hstep h.2).elim, fun _ => ⟨.outOfRange, ?_⟩⟩
    rw [matchPart, item.splitStep_error hstep]
    rfl
  by_cases hrange : item.range.Representable
  case neg =>
    refine ⟨fun h => (hrange h.1).elim, fun _ => ⟨.outOfRange, ?_⟩⟩
    rw [matchPart_of_splitStep (item.splitStep_ok hstep), item.range.splitRange_error min max hrange]
    rfl
  refine ⟨fun _ => ?_, fun h => (h ⟨hrange, hstep⟩).elim⟩
  rw [matchPart_of_splitStep (item.splitStep_ok hstep), item.range.splitRange_ok min max hrange]
  refine (inStep_decides value item.stride (item.range.first min) (item.range.last max)).ok fun _ => ?_
  exact Int.natCast_ne_zero.mpr item.stride_pos.ne'

theorem not_mem_spelling {c : Char} (hdigit : c.isDigit = false) (hstar : c ≠ '*') (hdash : c ≠ '-')
    (hslash : c ≠ '/') : c ∉ item.spelling := by
  have hrange := item.range.not_mem_spelling hdigit hstar hdash
  rw [spelling]
  cases item.step with
  | none => exact hrange
  | some k =>
    simp only [List.mem_append, List.mem_cons, not_or]
    exact ⟨hrange, hslash, k.1.not_mem_digits hdigit⟩

theorem spelling_ne_nil : item.spelling ≠ [] := by
  rw [spelling]
  cases item.step with
  | none => exact item.range.spelling_ne_nil
  | some k => simp

end CronItem

/-! ### One field -/

theorem getlines_of_not_mem {part : List Char} (hne : part ≠ []) (h : ',' ∉ part) :
    getlines part = [part] := by
  induction part with
  | nil => exact (hne rfl).elim
  | cons c rest ih =>
    have hc : c ≠ ',' := fun heq => h (heq ▸ List.mem_cons_self)
    rw [getlines, if_neg hc]
    by_cases hrest : rest = []
    · rw [hrest]
      rfl
    · rw [ih hrest (fun hmem => h (List.mem_cons_of_mem c hmem))]

theorem getlines_append_comma {part rest : List Char} (h : ',' ∉ part) :
    getlines (part ++ ',' :: rest) = part :: getlines rest := by
  induction part with
  | nil => rw [List.nil_append, getlines, if_pos rfl]
  | cons c part ih =>
    have hc : c ≠ ',' := fun heq => h (heq ▸ List.mem_cons_self)
    rw [List.cons_append, getlines, if_neg hc, ih (fun hmem => h (List.mem_cons_of_mem c hmem))]

theorem getlines_intercalate {parts : List (List Char)} (hne : ∀ part ∈ parts, part ≠ [])
    (h : ∀ part ∈ parts, ',' ∉ part) : getlines ([','].intercalate parts) = parts := by
  induction parts with
  | nil => rfl
  | cons part parts ih =>
    have hhead := h part List.mem_cons_self
    cases parts with
    | nil =>
      rw [List.intercalate_singleton]
      exact getlines_of_not_mem (hne part List.mem_cons_self) hhead
    | cons next parts =>
      rw [List.intercalate_cons_cons, List.append_assoc, List.singleton_append,
        getlines_append_comma hhead,
        ih (fun p hp => hne p (List.mem_cons_of_mem part hp))
          (fun p hp => h p (List.mem_cons_of_mem part hp))]

theorem matchParts_decides (value min max : Int) (items : List CronItem) :
    DecidesOn (matchParts value min max (items.map CronItem.spelling))
      (∃ item ∈ items, value ∈ item.elements min max) (ReadsItems min max value items) := by
  induction items with
  | nil => exact DecidesOn.pure (by simp)
  | cons item items ih =>
    refine ((item.matchPart_decides value min max).orElse ih).congr ?_ Iff.rfl
    simp only [List.mem_cons, exists_eq_or_imp]

namespace CronField

variable (field : CronField)

theorem getlines_spelling : getlines field.spelling = field.1.map CronItem.spelling := by
  apply getlines_intercalate
  · intro part hpart
    obtain ⟨item, -, rfl⟩ := List.mem_map.mp hpart
    exact item.spelling_ne_nil
  · intro part hpart
    obtain ⟨item, -, rfl⟩ := List.mem_map.mp hpart
    exact item.not_mem_spelling (by decide) (by decide) (by decide) (by decide)

theorem spelling_ne_nil : field.spelling ≠ [] := by
  intro hnil
  have hmap := field.getlines_spelling
  rw [hnil] at hmap
  exact field.2 (List.map_eq_nil_iff.mp hmap.symm)

theorem eq_star_of_spelling (h : field.spelling = ['*']) : field.1 = [{ range := .star }] := by
  have hmap := field.getlines_spelling
  rw [h] at hmap
  obtain ⟨item, hitems, hitem⟩ := List.map_eq_singleton_iff.mp hmap.symm
  rw [hitems]
  congr 1
  obtain ⟨range, step⟩ := item
  have hlength := congrArg List.length hitem
  cases step with
  | some k => 
    have hpos := List.length_pos_iff.mpr range.spelling_ne_nil
    simp [CronItem.spelling] at hlength
    omega
  | none =>
    cases range with
    | star => rfl
    | single n =>
      exact (n.not_mem_digits (c := '*') (by decide) (by
        rw [show n.digits = ['*'] from hitem]
        exact List.mem_cons_self)).elim
    | span a b =>
      have hpos := List.length_pos_iff.mpr a.nonempty
      simp [CronItem.spelling, CronRange.spelling] at hlength
      omega

/-- `matchCronField` decides membership, as far as the numbers it reads are representable. -/
theorem matchCronField_decides {value min max : Int} (hmin : min ≤ value) (hmax : value ≤ max) :
    DecidesOn (matchCronField value field.spelling min max) (value ∈ field.elements min max)
      (field.Reads min max value) := by
  have hempty : field.spelling.isEmpty = false := by simpa using field.spelling_ne_nil
  rw [matchCronField, hempty, if_neg Bool.false_ne_true]
  by_cases hstar : field.spelling = ['*']
  · have helem : value ∈ (CronItem.mk .star none).elements min max :=
      ⟨hmin, hmax, by simp [CronItem.stride]⟩
    rw [if_pos hstar]
    refine (DecidesOn.pure (p := True) (by simp)).congr ?_ ?_
    · simp [elements, field.eq_star_of_spelling hstar, helem]
    · simp [Reads, field.eq_star_of_spelling hstar, ReadsItems, helem, CronItem.Representable,
        CronRange.Representable, CronItem.stride]
  · rw [if_neg hstar, field.getlines_spelling]
    exact matchParts_decides value min max field.1

theorem isSpace_of_mem_spelling {c : Char} (h : c ∈ field.spelling) : isSpace c = false := by
  by_contra hspace
  have hne {d : Char} (hd : isSpace d = false) : c ≠ d := by
    rintro rfl
    exact hspace hd
  have hdigit : c.isDigit = false := by
    by_contra hdigit
    exact hspace (isSpace_of_isDigit (by simpa using hdigit))
  obtain hcomma | ⟨part, hpart, hc⟩ := mem_intercalate h
  · exact hne (by decide) hcomma
  · obtain ⟨item, -, rfl⟩ := List.mem_map.mp hpart
    exact item.not_mem_spelling hdigit (hne (by decide)) (hne (by decide)) (hne (by decide)) hc

end CronField

end SoulCoreKit.Scheduler
