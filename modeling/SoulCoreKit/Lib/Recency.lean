import Mathlib.Data.List.Basic
import Mathlib.Data.Nat.Find

/-!
# Recency lists

A list of entries, most recently used first, with at most one entry per key. Using an entry moves it
to the front; making room drops entries from the back until what is left is admitted. `shrink` says
the latter without a loop: it keeps the longest admitted beginning of the list, or nothing when no
beginning is admitted. A loop that drops the last entry while the list is not admitted computes it.

The order itself is a matter of the past: `ByAge` says that the keys of a list stand in the order in
which a sequence of labels last used them.
-/

namespace SoulCoreKit.Recency

variable {α K : Type} [DecidableEq K] (key : α → K)

/-- The entry of a key. -/
def find (wanted : K) (l : List α) : Option α := l.find? (key · = wanted)

/-- The list without the entry of a key. -/
def without (wanted : K) (l : List α) : List α := l.filter (key · ≠ wanted)

/-- The entry is used: it goes to the front. -/
def moveToFront (entry : α) (l : List α) : List α := entry :: without key (key entry) l

variable {key} {wanted other : K} {l : List α} {entry : α}

theorem key_of_find (hfind : find key wanted l = some entry) : key entry = wanted := by
  simpa using List.find?_some hfind

theorem mem_of_find (hfind : find key wanted l = some entry) : entry ∈ l :=
  List.mem_of_find?_eq_some hfind

theorem find_eq_none_iff : find key wanted l = none ↔ wanted ∉ l.map key := by
  simp [find]

theorem find_isSome_iff : (find key wanted l).isSome ↔ wanted ∈ l.map key := by
  simp [find]

@[simp]
theorem find_cons_self (entry : α) (l : List α) :
    find key (key entry) (entry :: l) = some entry := by
  simp [find]

theorem find_cons_of_ne (hne : key entry ≠ wanted) :
    find key wanted (entry :: l) = find key wanted l := by
  simp [find, hne]

@[simp]
theorem find_without_self (wanted : K) (l : List α) : find key wanted (without key wanted l) = none := by
  simp [find, without]

theorem find_without_of_ne (hne : other ≠ wanted) :
    find key other (without key wanted l) = find key other l := by
  induction l with
  | nil => rfl
  | cons first rest ih =>
      by_cases hfirst : key first = wanted
      · have hskip : key first ≠ other := by
          rw [hfirst]
          exact hne.symm
        rw [find_cons_of_ne hskip, ← ih]
        simp [without, hfirst]
      · have hkeep : without key wanted (first :: rest) = first :: without key wanted rest := by
          simp [without, hfirst]
        rw [hkeep]
        by_cases hother : key first = other
        · subst hother
          rw [find_cons_self, find_cons_self]
        · rw [find_cons_of_ne hother, find_cons_of_ne hother, ih]

theorem find_moveToFront_self (entry : α) (l : List α) :
    find key (key entry) (moveToFront key entry l) = some entry :=
  find_cons_self entry _

theorem find_moveToFront_of_ne (hne : other ≠ key entry) :
    find key other (moveToFront key entry l) = find key other l := by
  unfold moveToFront
  rw [find_cons_of_ne hne.symm, find_without_of_ne hne]

theorem without_of_find_none (hfind : find key wanted l = none) : without key wanted l = l := by
  rw [find_eq_none_iff] at hfind
  unfold without
  rw [List.filter_eq_self]
  intro entry hentry
  rw [decide_eq_true_eq]
  rintro rfl
  exact hfind (List.mem_map_of_mem hentry)

theorem map_without (wanted : K) (l : List α) :
    (without key wanted l).map key = (l.map key).filter (· ≠ wanted) := by
  unfold without
  rw [List.filter_map]
  rfl

theorem nodup_without (hnodup : (l.map key).Nodup) (wanted : K) :
    ((without key wanted l).map key).Nodup := by
  rw [map_without]
  exact hnodup.filter _

theorem nodup_moveToFront (hnodup : (l.map key).Nodup) (entry : α) :
    ((moveToFront key entry l).map key).Nodup := by
  unfold moveToFront
  rw [List.map_cons, List.nodup_cons]
  refine ⟨?_, nodup_without hnodup _⟩
  rw [map_without]
  simp

/-- In a list with one entry per key, dropping the key of the last entry drops the last entry. -/
theorem without_last (hnodup : (l.map key).Nodup) (hne : l ≠ []) :
    without key (key (l.getLast hne)) l = l.dropLast := by
  obtain ⟨front, last, rfl⟩ := (List.eq_nil_or_concat' l).resolve_left hne
  rw [List.map_append, List.nodup_append] at hnodup
  rw [List.getLast_append_singleton, List.dropLast_concat]
  unfold without
  rw [List.filter_append]
  have hfront : front.filter (fun entry => decide (key entry ≠ key last)) = front := by
    rw [List.filter_eq_self]
    intro entry hentry
    simpa using hnodup.2.2 (key entry) (List.mem_map_of_mem hentry) (key last) (by simp)
  rw [hfront]
  simp

/-! ### Making room -/

/-- The longest beginning of the list that is admitted, or nothing. -/
def shrink (admits : List α → Bool) (l : List α) : List α :=
  l.take (Nat.findGreatest (fun n => admits (l.take n) = true) l.length)

variable {admits : List α → Bool}

@[simp]
theorem shrink_nil : shrink admits [] = [] := by
  simp [shrink]

theorem shrink_of_admits (hadmits : admits l = true) : shrink admits l = l := by
  unfold shrink
  rw [Nat.findGreatest_eq, List.take_length]
  rwa [List.take_length]

theorem findGreatest_congr {p q : Nat → Prop} [DecidablePred p] [DecidablePred q] {bound : Nat}
    (hiff : ∀ n ≤ bound, p n ↔ q n) : Nat.findGreatest p bound = Nat.findGreatest q bound := by
  induction bound with
  | zero => rfl
  | succ bound ih =>
      rw [Nat.findGreatest_succ, Nat.findGreatest_succ,
        ih fun n hn => hiff n (Nat.le_succ_of_le hn)]
      exact if_congr (hiff _ le_rfl) rfl rfl

theorem shrink_of_not_admits (hadmits : admits l = false) :
    shrink admits l = shrink admits l.dropLast := by
  cases hlength : l.length with
  | zero =>
      rw [List.length_eq_zero_iff] at hlength
      rw [hlength, List.dropLast_nil]
  | succ n =>
      have htake : ∀ m ≤ n, l.dropLast.take m = l.take m := by
        intro m hm
        rw [List.dropLast_eq_take, List.take_take, hlength, Nat.add_sub_cancel, min_eq_left hm]
      have hlast : ¬ admits (l.take (n + 1)) = true := by
        rw [← hlength, List.take_length, hadmits]
        exact Bool.false_ne_true
      have hgreatest : Nat.findGreatest (fun m => admits (l.take m) = true) (n + 1) =
          Nat.findGreatest (fun m => admits (l.dropLast.take m) = true) n := by
        rw [Nat.findGreatest_of_not hlast]
        apply findGreatest_congr
        intro m hm
        rw [htake m hm]
      unfold shrink
      rw [List.length_dropLast, hlength, Nat.add_sub_cancel, hgreatest, htake]
      exact Nat.findGreatest_le n

/-- What `shrink` drops is the shortest end of the list after which the rest is admitted, or
everything when no beginning is admitted. -/
theorem shrink_shortest (admits : List α → Bool) (l : List α) :
    ∃ dropped, l = shrink admits l ++ dropped ∧
      (admits (shrink admits l) = true ∨ shrink admits l = []) ∧
      ∀ kept dropped', l = kept ++ dropped' → dropped'.length < dropped.length →
        admits kept = false := by
  set n := Nat.findGreatest (fun n => admits (l.take n) = true) l.length with hn
  have hle : n ≤ l.length := Nat.findGreatest_le l.length
  refine ⟨l.drop n, (List.take_append_drop n l).symm, ?_, ?_⟩
  · by_cases hzero : n = 0
    · right
      unfold shrink
      rw [← hn, hzero, List.take_zero]
    · left
      exact Nat.findGreatest_of_ne_zero hn.symm hzero
  · intro kept dropped' heq hshort
    have hlengths : l.length = kept.length + dropped'.length := by
      rw [heq, List.length_append]
    rw [List.length_drop] at hshort
    have hgreater : n < kept.length := by omega
    have hnot := Nat.findGreatest_is_greatest (hn ▸ hgreater) (by omega : kept.length ≤ l.length)
    rw [heq, List.take_left] at hnot
    simpa using hnot

theorem shrink_isPrefix (admits : List α → Bool) (l : List α) : shrink admits l <+: l :=
  List.take_prefix _ l

theorem eq_shrink_append_drop (admits : List α → Bool) (l : List α) :
    l = shrink admits l ++ l.drop (shrink admits l).length :=
  (List.prefix_iff_eq_append.mp (shrink_isPrefix admits l)).symm

theorem find_shrink_of_none (hfind : find key wanted l = none) (admits : List α → Bool) :
    find key wanted (shrink admits l) = none := by
  rw [find_eq_none_iff] at hfind ⊢
  intro hmem
  exact hfind (((shrink_isPrefix admits l).sublist.map key).subset hmem)

/-! ### Dropping stale entries first -/

/-- An entry that is not stale is dropped only where no entry used after it is stale. -/
def StaleFirst (stale : α → Prop) (admits : List α → Bool) (l : List α) : Prop :=
  ∀ newer older rest, l = newer ++ older :: rest → (shrink admits l).length ≤ newer.length →
    ¬ stale older → ∀ entry ∈ newer, ¬ stale entry

variable {stale : α → Prop}

theorem staleFirst_of_shrink_eq (hshrink : shrink admits l = l) : StaleFirst stale admits l := by
  intro newer older rest heq hlength
  rw [hshrink, heq, List.length_append, List.length_cons] at hlength
  omega

theorem staleFirst_concat {front : List α} {last : α} (hadmits : admits (front ++ [last]) = false) :
    StaleFirst stale admits (front ++ [last]) ↔
      StaleFirst stale admits front ∧ (¬ stale last → ∀ entry ∈ front, ¬ stale entry) := by
  have hshrink : shrink admits (front ++ [last]) = shrink admits front := by
    rw [shrink_of_not_admits hadmits, List.dropLast_concat]
  unfold StaleFirst
  rw [hshrink]
  constructor
  · intro hall
    refine ⟨fun newer older rest heq => hall newer older (rest ++ [last]) ?_,
      hall front last [] rfl (shrink_isPrefix admits front).length_le⟩
    rw [heq, List.append_assoc, List.cons_append]
  · rintro ⟨hfront, hlast⟩ newer older rest heq
    obtain rfl | ⟨rest, final, rfl⟩ := List.eq_nil_or_concat' rest
    · obtain ⟨rfl, hsame⟩ := List.append_inj' heq rfl
      obtain rfl := List.head_eq_of_cons_eq hsame
      exact fun _ => hlast
    · rw [← List.cons_append, ← List.append_assoc] at heq
      exact hfront newer older rest (List.append_inj' heq rfl).1

/-! ### The order of use -/

variable {L : Type} {used : L → Option K} {labels : List L} {label : L} {keys keys' : List K}

/-- The number of labels since a key was last used, or of all labels when it never was. -/
def age (used : L → Option K) (labels : List L) (wanted : K) : Nat :=
  labels.reverse.findIdx (used · = some wanted)

/-- The keys stand in the order of their last use, the latest first. -/
def ByAge (used : L → Option K) (labels : List L) (keys : List K) : Prop :=
  keys.Pairwise fun newer older => age used labels newer < age used labels older

theorem age_concat_of_used (hused : used label = some wanted) :
    age used (labels ++ [label]) wanted = 0 := by
  simp [age, List.findIdx_cons, hused]

theorem age_concat_of_unused (hunused : used label ≠ some wanted) :
    age used (labels ++ [label]) wanted = age used labels wanted + 1 := by
  simp [age, List.findIdx_cons, hunused]

theorem ByAge.grow (hage : ByAge used labels keys) (hsublist : keys'.Sublist keys)
    (hunused : ∀ key ∈ keys', used label ≠ some key) :
    ByAge used (labels ++ [label]) keys' := by
  apply List.Pairwise.imp_of_mem _ (hage.sublist hsublist)
  intro newer older hnewer holder hlt
  rw [age_concat_of_unused (hunused newer hnewer), age_concat_of_unused (hunused older holder)]
  exact Nat.succ_lt_succ hlt

/-- The key a label uses goes before the others. -/
theorem ByAge.use (hage : ByAge used labels keys) (hused : used label = some wanted)
    (hsublist : keys'.Sublist keys) (hnot : wanted ∉ keys') :
    ByAge used (labels ++ [label]) (wanted :: keys') := by
  have hunused : ∀ key ∈ keys', used label ≠ some key := by
    rintro key hkey heq
    rw [hused] at heq
    exact hnot (Option.some.inj heq ▸ hkey)
  refine List.Pairwise.cons ?_ (hage.grow hsublist hunused)
  intro older holder
  rw [age_concat_of_used hused, age_concat_of_unused (hunused older holder)]
  exact Nat.succ_pos _

theorem ByAge.age_lt_last (hage : ByAge used labels keys) {last other : K}
    (hlast : keys.getLast? = some last) (hother : other ∈ keys) (hne : other ≠ last) :
    age used labels other < age used labels last := by
  obtain ⟨front, rfl⟩ := List.getLast?_eq_some_iff.mp hlast
  have hfront : other ∈ front := by simpa [hne] using hother
  exact (List.pairwise_append.mp hage).2.2 other hfront last (by simp)

end SoulCoreKit.Recency
