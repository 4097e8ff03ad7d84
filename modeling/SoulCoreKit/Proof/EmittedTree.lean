import SoulCoreKit.Proof.ConditionMeaning

/-!
# When the emitted tree means what was asked

The emitted tree has fewer `OR`s, so it is true less often. Where an `or_` inside an `and_` was
rewritten, a valuation tells the two trees apart: it makes the group true through one side of the
`OR` only, and sets every atom outside so that the group decides. Atoms are distinct, so the pieces of
the valuation do not interfere.
-/

namespace SoulCoreKit.Orm

open Precedence (Token)

namespace CallTree

variable {A : Type} {v w : A → Bool} {tree before body : CallTree A}

def atoms : CallTree A → List A
  | .empty => []
  | .atom before a => before.atoms ++ [a]
  | .and_ before body => before.atoms ++ body.atoms
  | .or_ before body => before.atoms ++ body.atoms

@[simp]
theorem length_atoms (tree : CallTree A) : tree.atoms.length = tree.size := by
  induction tree <;> simp_all [atoms, size]

@[simp]
theorem atoms_strict (tree : CallTree A) : tree.strict.atoms = tree.atoms := by
  induction tree <;> simp_all [atoms, strict]

@[simp]
theorem atoms_emitted (tree : CallTree A) : tree.emitted.atoms = tree.atoms := by
  induction tree <;> simp_all [atoms, emitted]

theorem atoms_number (tree : CallTree A) (start : Nat) :
    (tree.number start).atoms = List.range' start tree.size := by
  induction tree generalizing start with
  | empty => rfl
  | atom before a ih =>
      rw [number, atoms, ih, size]
      exact List.range'_1_concat.symm
  | and_ before body ihBefore ihBody =>
      rw [number, atoms, ihBefore, ihBody, size]
      exact List.range'_append_1
  | or_ before body ihBefore ihBody =>
      rw [number, atoms, ihBefore, ihBody, size]
      exact List.range'_append_1

theorem value_congr (hagree : ∀ a ∈ tree.atoms, v a = w a) : tree.value v = tree.value w := by
  induction tree with
  | empty => rfl
  | atom before a ih =>
      have hbefore : before.value v = before.value w :=
        ih fun b hb => hagree b (List.mem_append_left _ hb)
      have ha : v a = w a := hagree a (List.mem_append_right _ List.mem_cons_self)
      rw [value, value, hbefore, ha]
  | and_ before body ihBefore ihBody | or_ before body ihBefore ihBody =>
      have hbefore : before.value v = before.value w :=
        ihBefore fun a ha => hagree a (List.mem_append_left _ ha)
      have hbody : body.value v = body.value w :=
        ihBody fun a ha => hagree a (List.mem_append_right _ ha)
      rw [value, value, hbefore, hbody]

/-! ### Constant valuations -/

theorem size_ne_zero_cases (before body : CallTree A) (hsize : before.size + body.size ≠ 0) :
    (before.size = 0 ∧ body.size ≠ 0) ∨ (before.size ≠ 0 ∧ body.size = 0) ∨
      (before.size ≠ 0 ∧ body.size ≠ 0) := by
  omega

theorem value_of_all_true (hsize : tree.size ≠ 0) (htrue : ∀ a ∈ tree.atoms, v a = true) :
    ∃ terms, tree.value v = some (terms, true) := by
  induction tree with
  | empty => exact absurd rfl hsize
  | atom before a ih =>
      have ha : v a = true := htrue a (List.mem_append_right _ List.mem_cons_self)
      by_cases hbefore : before.size = 0
      · exact ⟨false, by simp [value, (tokens_of_size_zero hbefore).2, join, ha]⟩
      · obtain ⟨terms, hvalue⟩ := ih hbefore fun b hb => htrue b (List.mem_append_left _ hb)
        exact ⟨terms, by simp [value, hvalue, join, ha]⟩
  | and_ before body ihBefore ihBody | or_ before body ihBefore ihBody =>
      have ihBefore := fun hne => ihBefore hne fun a ha => htrue a (List.mem_append_left _ ha)
      have ihBody := fun hne => ihBody hne fun a ha => htrue a (List.mem_append_right _ ha)
      rcases size_ne_zero_cases before body hsize with
        ⟨hbefore, hbody⟩ | ⟨hbefore, hbody⟩ | ⟨hbefore, hbody⟩
      · obtain ⟨terms, hvalue⟩ := ihBody hbody
        simp [value, (tokens_of_size_zero hbefore).2, hvalue, join, Partial.total]
      · obtain ⟨terms, hvalue⟩ := ihBefore hbefore
        simp [value, (tokens_of_size_zero hbody).2, hvalue, join]
      · obtain ⟨terms, hvalue⟩ := ihBefore hbefore
        obtain ⟨terms', hvalue'⟩ := ihBody hbody
        simp [value, hvalue, hvalue', join, Partial.total]

theorem value_of_all_false (hsize : tree.size ≠ 0) (hfalse : ∀ a ∈ tree.atoms, v a = false) :
    tree.value v = some (false, false) := by
  induction tree with
  | empty => exact absurd rfl hsize
  | atom before a ih =>
      have ha : v a = false := hfalse a (List.mem_append_right _ List.mem_cons_self)
      by_cases hbefore : before.size = 0
      · simp [value, (tokens_of_size_zero hbefore).2, join, ha]
      · have hvalue := ih hbefore fun b hb => hfalse b (List.mem_append_left _ hb)
        simp [value, hvalue, join, ha]
  | and_ before body ihBefore ihBody | or_ before body ihBefore ihBody =>
      have ihBefore := fun hne => ihBefore hne fun a ha => hfalse a (List.mem_append_left _ ha)
      have ihBody := fun hne => ihBody hne fun a ha => hfalse a (List.mem_append_right _ ha)
      rcases size_ne_zero_cases before body hsize with
        ⟨hbefore, hbody⟩ | ⟨hbefore, hbody⟩ | ⟨hbefore, hbody⟩
      · simp [value, (tokens_of_size_zero hbefore).2, ihBody hbody, join, Partial.total]
      · simp [value, (tokens_of_size_zero hbody).2, ihBefore hbefore, join]
      · simp [value, ihBefore hbefore, ihBody hbody, join, Partial.total]

/-! ### Trees that come out unchanged -/

/-- Joined to nothing, or joined by nothing, an operand does not show its connective. -/
theorem join_congr (read : Option Partial) (operand : Option Bool)
    (hnone : read = none ∨ operand = none) (first second : Precedence.Connective) :
    join read first operand = join read second operand := by
  rcases hnone with rfl | rfl
  · cases operand <;> rfl
  · rfl

theorem value_strict_of_not_joinsByOr (hor : tree.joinsByOr = false) :
    tree.strict.value v = tree.value v := by
  induction tree with
  | empty => rfl
  | atom before a ih => rw [strict, value, value, ih hor]
  | and_ before body ihBefore ihBody =>
      rw [joinsByOr, Bool.or_eq_false_iff] at hor
      rw [strict, value, value, ihBefore hor.1, ihBody hor.2]
  | or_ before body ihBefore ihBody =>
      rw [joinsByOr, Bool.or_eq_false_iff, Bool.or_eq_false_iff] at hor
      obtain ⟨⟨hbefore, hbody⟩, hfirst⟩ := hor
      rw [strict, value, value, ihBefore hbefore, ihBody hbody]
      apply join_congr
      by_cases hzero : before.size = 0
      · exact .inl ((tokens_of_size_zero hzero).2 v)
      · have hbodyZero : body.size = 0 := by simpa [hzero] using hfirst
        right
        rw [(tokens_of_size_zero hbodyZero).2 v]
        rfl

theorem value_emitted_of_noOrInAnd (hor : tree.noOrInAnd = true) :
    tree.emitted.value v = tree.value v := by
  induction tree with
  | empty => rfl
  | atom before a ih => rw [emitted, value, value, ih hor]
  | and_ before body ihBefore ihBody =>
      rw [noOrInAnd, Bool.and_eq_true, Bool.not_eq_true'] at hor
      rw [emitted, value, value, ihBefore hor.1, value_strict_of_not_joinsByOr hor.2]
  | or_ before body ihBefore ihBody =>
      rw [noOrInAnd, Bool.and_eq_true] at hor
      rw [emitted, value, value, ihBefore hor.1, ihBody hor.2]

/-! ### Trees that are told apart -/

theorem value_strict (hsize : tree.size ≠ 0) (v : A → Bool) :
    tree.strict.value v = some (false, tree.atoms.all v) := by
  induction tree with
  | empty => exact absurd rfl hsize
  | atom before a ih =>
      by_cases hbefore : before.size = 0
      · have hstrict : before.strict.size = 0 := by simpa using hbefore
        have hatoms : before.atoms = [] := List.length_eq_zero_iff.mp (by simpa using hbefore)
        simp [strict, value, atoms, (tokens_of_size_zero hstrict).2, hatoms, join]
      · simp [strict, value, atoms, ih hbefore, join]
  | and_ before body ihBefore ihBody | or_ before body ihBefore ihBody =>
      have hempty (part : CallTree A) (hpart : part.size = 0) :
          part.strict.value v = none ∧ part.atoms = [] :=
        ⟨(tokens_of_size_zero (by simpa using hpart)).2 v,
          List.length_eq_zero_iff.mp (by simpa using hpart)⟩
      rcases size_ne_zero_cases before body hsize with
        ⟨hbefore, hbody⟩ | ⟨hbefore, hbody⟩ | ⟨hbefore, hbody⟩
      · obtain ⟨hvalue, hatoms⟩ := hempty before hbefore
        simp [strict, value, atoms, hvalue, hatoms, ihBody hbody, join, Partial.total]
      · obtain ⟨hvalue, hatoms⟩ := hempty body hbody
        simp [strict, value, atoms, hvalue, hatoms, ihBefore hbefore, join]
      · simp [strict, value, atoms, ihBefore hbefore, ihBody hbody, join, Partial.total]

/-! ### Joining one more operand -/

theorem value_of_meaning {b : Bool} (hmeaning : tree.meaning v = some b) :
    ∃ terms term, tree.value v = some (terms, term) ∧ (terms || term) = b := by
  rw [meaning, Option.map_eq_some_iff] at hmeaning
  obtain ⟨⟨terms, term⟩, hvalue, htotal⟩ := hmeaning
  exact ⟨terms, term, hvalue, htotal⟩

theorem value_ne_none_of_meaning {b : Bool} (hmeaning : tree.meaning v = some b) :
    tree.value v ≠ none := by
  obtain ⟨terms, term, hvalue, _⟩ := value_of_meaning hmeaning
  simp [hvalue]

theorem value_and (before body : CallTree A) (v : A → Bool) :
    (CallTree.and_ before body).value v = join (before.value v) .and (body.meaning v) := rfl

theorem value_or (before body : CallTree A) (v : A → Bool) :
    (CallTree.or_ before body).value v = join (before.value v) .or (body.meaning v) := rfl

theorem value_atom_of_true {a : A} (hbefore : before.value v ≠ none) (ha : v a = true) :
    (CallTree.atom before a).value v = before.value v := by
  obtain ⟨read, hread⟩ := Option.ne_none_iff_exists'.mp hbefore
  simp [value, hread, join, ha]

/-- An operand that holds, or is not there, changes nothing behind an `AND`. -/
theorem value_and_of_true (hbefore : before.value v ≠ none) (hbody : body.meaning v ≠ some false) :
    (CallTree.and_ before body).value v = before.value v := by
  obtain ⟨read, hread⟩ := Option.ne_none_iff_exists'.mp hbefore
  rw [value_and, hread]
  cases hmeaning : body.meaning v with
  | none => rfl
  | some value =>
      cases value with
      | true => simp [join]
      | false => exact absurd hmeaning hbody

/-- Behind an `OR`, one that does not hold changes nothing. -/
theorem meaning_or_of_false (hbefore : before.value v ≠ none) (hbody : body.meaning v ≠ some true) :
    (CallTree.or_ before body).meaning v = before.meaning v := by
  obtain ⟨read, hread⟩ := Option.ne_none_iff_exists'.mp hbefore
  rw [meaning, meaning, value_or, hread]
  cases hmeaning : body.meaning v with
  | none => rfl
  | some value =>
      cases value with
      | true => exact absurd hmeaning hbody
      | false => simp [join, Partial.total]

theorem meaning_or_of_true (before : CallTree A) (hbody : body.meaning v = some true) :
    (CallTree.or_ before body).meaning v = some true := by
  rw [meaning, value_or, hbody]
  rcases before.value v with _ | ⟨terms, term⟩ <;> simp [join, Partial.total]

/-- What comes before leaves it to an operand behind an `AND`. -/
theorem value_and_of_undecided {b : Bool}
    (hbefore : before.value v = none ∨ before.value v = some (false, true))
    (hbody : body.meaning v = some b) : (CallTree.and_ before body).value v = some (false, b) := by
  rw [value_and, hbody]
  rcases hbefore with hbefore | hbefore <;> rw [hbefore] <;> rfl

/-- What comes before leaves it to an operand behind an `OR`. -/
theorem value_or_of_undecided {b : Bool}
    (hbefore : before.value v = none ∨ before.value v = some (false, false))
    (hbody : body.meaning v = some b) : (CallTree.or_ before body).value v = some (false, b) := by
  rw [value_or, hbody]
  rcases hbefore with hbefore | hbefore <;> rw [hbefore] <;> rfl

theorem meaning_of_value {b : Bool} (hvalue : tree.value v = some (false, b)) :
    tree.meaning v = some b := by
  rw [meaning, hvalue]
  rfl

theorem meaning_of_all_true (htrue : ∀ a ∈ tree.atoms, v a = true) :
    tree.meaning v = if tree.size = 0 then none else some true := by
  rw [meaning]
  split_ifs with hsize
  · rw [(tokens_of_size_zero hsize).2]
    rfl
  · obtain ⟨terms, hvalue⟩ := value_of_all_true hsize htrue
    simp [hvalue, Partial.total]

theorem value_none_or_false (hfalse : ∀ a ∈ tree.atoms, v a = false) :
    tree.value v = none ∨ tree.value v = some (false, false) := by
  by_cases hsize : tree.size = 0
  · exact .inl ((tokens_of_size_zero hsize).2 v)
  · exact .inr (value_of_all_false hsize hfalse)

theorem meaning_ne_true (hfalse : ∀ a ∈ tree.atoms, v a = false) : tree.meaning v ≠ some true := by
  rw [meaning]
  rcases value_none_or_false hfalse with hvalue | hvalue <;> simp [hvalue, Partial.total]

theorem meaning_ne_false (htrue : ∀ a ∈ tree.atoms, v a = true) : tree.meaning v ≠ some false := by
  rw [meaning_of_all_true htrue]
  split_ifs <;> simp

theorem nodup_parts (hnodup : (before.atoms ++ body.atoms).Nodup) :
    before.atoms.Nodup ∧ body.atoms.Nodup ∧ ∀ a ∈ body.atoms, a ∉ before.atoms := by
  obtain ⟨hbefore, hbody, hdisjoint⟩ := List.nodup_append.mp hnodup
  refine ⟨hbefore, hbody, ?_⟩
  intro a ha hmem
  exact hdisjoint a hmem a ha rfl

theorem nodup_atom {a : A} (hnodup : (before.atoms ++ [a]).Nodup) :
    before.atoms.Nodup ∧ a ∉ before.atoms := by
  obtain ⟨hbefore, _, hfresh⟩ := List.nodup_append.mp hnodup
  exact ⟨hbefore, fun hmem => hfresh a hmem a List.mem_cons_self rfl⟩

theorem all_congr {known : List A} (hagree : ∀ a ∈ known, v a = w a) : known.all v = known.all w := by
  induction known with
  | nil => rfl
  | cons first rest ih =>
      rw [List.all_cons, List.all_cons, hagree first List.mem_cons_self,
        ih fun a ha => hagree a (List.mem_cons_of_mem _ ha)]

section Apart

variable [DecidableEq A]

/-- One valuation on the given atoms, another on the others. -/
def mix (known : List A) (v w : A → Bool) (a : A) : Bool := if a ∈ known then v a else w a

theorem value_mix_of_subset {known : List A} (hsub : ∀ a ∈ tree.atoms, a ∈ known)
    (v w : A → Bool) : tree.value (mix known v w) = tree.value v :=
  value_congr fun a ha => if_pos (hsub a ha)

theorem meaning_mix_of_subset {known : List A} (hsub : ∀ a ∈ tree.atoms, a ∈ known)
    (v w : A → Bool) : tree.meaning (mix known v w) = tree.meaning v := by
  rw [meaning, meaning, value_mix_of_subset hsub]

theorem meaning_mix_of_disjoint {known : List A} (hdisjoint : ∀ a ∈ tree.atoms, a ∉ known)
    (v w : A → Bool) : tree.meaning (mix known v w) = tree.meaning w := by
  rw [meaning, meaning]
  exact congrArg _ (value_congr fun a ha => if_neg (hdisjoint a ha))

theorem value_mix_none_or_false {known : List A} (hsub : ∀ a ∈ tree.atoms, a ∈ known)
    (w : A → Bool) :
    tree.value (mix known (fun _ => false) w) = none ∨
      tree.value (mix known (fun _ => false) w) = some (false, false) :=
  value_none_or_false fun a ha => if_pos (hsub a ha)

/-- Joined by `AND` to atoms that are all true, a tree keeps its meaning. -/
theorem meaning_and_mix_true (hdisjoint : ∀ a ∈ body.atoms, a ∉ before.atoms) {b : Bool}
    (hmeaning : before.meaning v = some b) :
    (CallTree.and_ before body).meaning (mix before.atoms v fun _ => true) = some b := by
  have hbefore : before.meaning (mix before.atoms v fun _ => true) = some b :=
    (meaning_mix_of_subset (fun _ => id) v _).trans hmeaning
  have hbody : body.meaning (mix before.atoms v fun _ => true) ≠ some false :=
    meaning_ne_false fun a ha => if_neg (hdisjoint a ha)
  rw [meaning, value_and_of_true (value_ne_none_of_meaning hbefore) hbody]
  exact hbefore

theorem meaning_atom_mix_true {a : A} (ha : a ∉ before.atoms) {b : Bool}
    (hmeaning : before.meaning v = some b) :
    (CallTree.atom before a).meaning (mix before.atoms v fun _ => true) = some b := by
  have hbefore : before.meaning (mix before.atoms v fun _ => true) = some b :=
    (meaning_mix_of_subset (fun _ => id) v _).trans hmeaning
  rw [meaning, value_atom_of_true (value_ne_none_of_meaning hbefore) (if_neg ha)]
  exact hbefore

/-- Joined by `OR` to atoms that are all false, a tree keeps its meaning. -/
theorem meaning_or_mix_false (hdisjoint : ∀ a ∈ body.atoms, a ∉ before.atoms) {b : Bool}
    (hmeaning : before.meaning v = some b) :
    (CallTree.or_ before body).meaning (mix before.atoms v fun _ => false) = some b := by
  have hbefore : before.meaning (mix before.atoms v fun _ => false) = some b :=
    (meaning_mix_of_subset (fun _ => id) v _).trans hmeaning
  have hbody : body.meaning (mix before.atoms v fun _ => false) ≠ some true :=
    meaning_ne_true fun a ha => if_neg (hdisjoint a ha)
  rw [meaning_or_of_false (value_ne_none_of_meaning hbefore) hbody]
  exact hbefore

theorem all_mix_left (hall : before.atoms.all v = false) (w : A → Bool) :
    (before.atoms ++ body.atoms).all (mix before.atoms v w) = false := by
  have hmix : before.atoms.all (mix before.atoms v w) = before.atoms.all v :=
    all_congr fun _ ha => if_pos ha
  rw [List.all_append, hmix, hall]
  rfl

theorem all_mix_right (hdisjoint : ∀ a ∈ body.atoms, a ∉ before.atoms)
    (hall : body.atoms.all w = false) (v : A → Bool) :
    (before.atoms ++ body.atoms).all (mix before.atoms v w) = false := by
  have hmix : body.atoms.all (mix before.atoms v w) = body.atoms.all w :=
    all_congr fun a ha => if_neg (hdisjoint a ha)
  rw [List.all_append, hmix, hall]
  exact Bool.and_false _

/-- A condition with an `OR` can hold without all its atoms. -/
theorem true_without_all (hnodup : tree.atoms.Nodup) (hor : tree.joinsByOr = true) :
    ∃ v, tree.meaning v = some true ∧ tree.atoms.all v = false := by
  induction tree with
  | empty => exact absurd hor (by simp [joinsByOr])
  | atom before a ih =>
      obtain ⟨hbefore, ha⟩ := nodup_atom hnodup
      obtain ⟨v, hmeaning, hall⟩ := ih hbefore hor
      exact ⟨_, meaning_atom_mix_true ha hmeaning, @all_mix_left A v before (.atom .empty a) _ hall _⟩
  | and_ before body ihBefore ihBody =>
      obtain ⟨hbefore, hbody, hdisjoint⟩ := nodup_parts hnodup
      rw [joinsByOr, Bool.or_eq_true] at hor
      rcases hor with hor | hor
      · obtain ⟨v, hmeaning, hall⟩ := ihBefore hbefore hor
        exact ⟨_, meaning_and_mix_true hdisjoint hmeaning, all_mix_left hall _⟩
      · obtain ⟨v, hmeaning, hall⟩ := ihBody hbody hor
        refine ⟨mix before.atoms (fun _ => true) v, ?_, all_mix_right hdisjoint hall _⟩
        have hoperand := (meaning_mix_of_disjoint hdisjoint (fun _ => true) v).trans hmeaning
        rw [meaning, value_and, hoperand, value_mix_of_subset (fun _ => id)]
        by_cases hsize : before.size = 0
        · simp [(tokens_of_size_zero hsize).2, join, Partial.total]
        · obtain ⟨terms, hvalue⟩ := @value_of_all_true A (fun _ => true) before hsize fun _ _ => rfl
          simp [hvalue, join, Partial.total]
  | or_ before body ihBefore ihBody =>
      obtain ⟨hbefore, hbody, hdisjoint⟩ := nodup_parts hnodup
      rw [joinsByOr, Bool.or_eq_true, Bool.or_eq_true] at hor
      rcases hor with (hor | hor) | hor
      · obtain ⟨v, hmeaning, hall⟩ := ihBefore hbefore hor
        exact ⟨_, meaning_or_mix_false hdisjoint hmeaning, all_mix_left hall _⟩
      · obtain ⟨v, hmeaning, hall⟩ := ihBody hbody hor
        refine ⟨mix before.atoms (fun _ => true) v, ?_, all_mix_right hdisjoint hall _⟩
        exact meaning_or_of_true before ((meaning_mix_of_disjoint hdisjoint _ v).trans hmeaning)
      · obtain ⟨hfirst, hsecond⟩ : before.size ≠ 0 ∧ body.size ≠ 0 := by simpa using hor
        have hmeaning : before.meaning (fun _ => true) = some true :=
          (meaning_of_all_true fun _ _ => rfl).trans (if_neg hfirst)
        refine ⟨_, meaning_or_mix_false hdisjoint hmeaning, all_mix_right hdisjoint ?_ _⟩
        obtain ⟨a, ha⟩ : ∃ a, a ∈ body.atoms := by
          apply List.exists_mem_of_length_pos
          rw [length_atoms]
          omega
        rw [List.all_eq_false]
        exact ⟨a, ha, by simp⟩

/-- The atoms of a tree can be set so that an operand joined to it by `AND` decides, in the tree and
in the emitted tree. -/
theorem exists_decided_by_next (hnodup : tree.atoms.Nodup) (hsize : tree.size ≠ 0) :
    ∃ v, tree.value v = some (false, true) ∧ tree.emitted.value v = some (false, true) := by
  induction tree with
  | empty => exact absurd rfl hsize
  | atom before a ih =>
      by_cases hzero : before.size = 0
      · have hemitted : before.emitted.size = 0 := by rwa [size_emitted]
        refine ⟨fun _ => true, ?_, ?_⟩
        · simp [value, (tokens_of_size_zero hzero).2, join]
        · simp [emitted, value, (tokens_of_size_zero hemitted).2, join]
      · obtain ⟨hbefore, ha⟩ := nodup_atom hnodup
        obtain ⟨v, hvalue, hemitted⟩ := ih hbefore hzero
        refine ⟨mix before.atoms v fun _ => true, ?_, ?_⟩
        · rw [value, value_mix_of_subset (fun _ => id), hvalue]
          simp [join, mix, ha]
        · rw [emitted, value, value_mix_of_subset (by simp), hemitted]
          simp [join, mix, ha]
  | and_ before body ihBefore ihBody =>
      obtain ⟨hbefore, _, hdisjoint⟩ := nodup_parts hnodup
      by_cases hzero : before.size = 0
      · have hbody : body.size ≠ 0 := by
          rw [size] at hsize
          omega
        have hemitted : before.emitted.size = 0 := by rwa [size_emitted]
        refine ⟨fun _ => true, ?_, ?_⟩
        · apply value_and_of_undecided (.inl ((tokens_of_size_zero hzero).2 _))
          rw [meaning_of_all_true fun _ _ => rfl, if_neg hbody]
        · apply value_and_of_undecided (.inl ((tokens_of_size_zero hemitted).2 _))
          rw [meaning_of_all_true fun _ _ => rfl, size_strict, if_neg hbody]
      · obtain ⟨v, hvalue, hemitted⟩ := ihBefore hbefore hzero
        have htrue : ∀ a ∈ body.atoms, mix before.atoms v (fun _ => true) a = true :=
          fun a ha => if_neg (hdisjoint a ha)
        have hbeforeValue := (value_mix_of_subset (fun _ => id) v fun _ => true).trans hvalue
        have hemittedValue : before.emitted.value (mix before.atoms v fun _ => true) =
            some (false, true) := (value_mix_of_subset (by simp) v _).trans hemitted
        refine ⟨mix before.atoms v fun _ => true, ?_, ?_⟩
        · rw [value_and_of_true (by simp [hbeforeValue]) (meaning_ne_false htrue), hbeforeValue]
        · rw [emitted, value_and_of_true (by simp [hemittedValue])
            (meaning_ne_false (by simpa using htrue)), hemittedValue]
  | or_ before body ihBefore ihBody =>
      obtain ⟨hbefore, _, hdisjoint⟩ := nodup_parts hnodup
      by_cases hbody : body.size = 0
      · have hzero : before.size ≠ 0 := by
          rw [size] at hsize
          omega
        have hnone : body.emitted.size = 0 := by rwa [size_emitted]
        obtain ⟨v, hvalue, hvalue'⟩ := ihBefore hbefore hzero
        refine ⟨v, ?_, ?_⟩
        · rw [value_or, hvalue, meaning, (tokens_of_size_zero hbody).2]
          rfl
        · rw [emitted, value_or, hvalue', meaning, (tokens_of_size_zero hnone).2]
          rfl
      · have htrue : ∀ a ∈ body.atoms, mix before.atoms (fun _ => false) (fun _ => true) a = true :=
          fun a ha => if_neg (hdisjoint a ha)
        refine ⟨mix before.atoms (fun _ => false) fun _ => true, ?_, ?_⟩
        · apply value_or_of_undecided (value_mix_none_or_false (fun _ => id) _)
          rw [meaning_of_all_true htrue, if_neg hbody]
        · apply value_or_of_undecided (value_mix_none_or_false (by simp) _)
          rw [meaning_of_all_true (by simpa using htrue), size_emitted, if_neg hbody]

/-- A group of `and_` that joins by `OR` is true through one side of the `OR` in the tree and false
in the emitted tree; the calls before it leave it to decide. -/
theorem exists_told_apart_by_and (hnodup : (CallTree.and_ before body).atoms.Nodup)
    (hor : body.joinsByOr = true) :
    ∃ v, (CallTree.and_ before body).meaning v = some true ∧
      (CallTree.and_ before body).emitted.meaning v = some false := by
  obtain ⟨hbefore, hbody, hdisjoint⟩ := nodup_parts hnodup
  obtain ⟨v, htrue, hall⟩ := true_without_all hbody hor
  have hne : body.size ≠ 0 := by
    intro hzero
    rw [meaning, (tokens_of_size_zero hzero).2] at htrue
    exact absurd htrue (by simp)
  obtain ⟨w, hvalue, hvalue'⟩ : ∃ w,
      (before.value w = none ∨ before.value w = some (false, true)) ∧
        (before.emitted.value w = none ∨ before.emitted.value w = some (false, true)) := by
    by_cases hzero : before.size = 0
    · exact ⟨v, .inl ((tokens_of_size_zero hzero).2 v),
        .inl ((tokens_of_size_zero (by rwa [size_emitted])).2 v)⟩
    · obtain ⟨w, hvalue, hvalue'⟩ := exists_decided_by_next hbefore hzero
      exact ⟨w, .inr hvalue, .inr hvalue'⟩
  refine ⟨mix before.atoms w v, ?_, ?_⟩
  · rw [← value_mix_of_subset (fun _ => id) w v] at hvalue
    exact meaning_of_value (value_and_of_undecided hvalue
      ((meaning_mix_of_disjoint hdisjoint w v).trans htrue))
  · have hsub : ∀ a ∈ before.emitted.atoms, a ∈ before.atoms := by simp
    rw [← value_mix_of_subset hsub w v] at hvalue'
    apply meaning_of_value (value_and_of_undecided hvalue' _)
    rw [meaning_mix_of_disjoint (by simpa using hdisjoint)]
    exact meaning_of_value ((value_strict hne v).trans (by rw [hall]))

/-- Where an `or_` inside an `and_` was rewritten, some valuation makes the tree true and the emitted
tree false. -/
theorem exists_told_apart (hnodup : tree.atoms.Nodup) (hor : tree.noOrInAnd = false) :
    ∃ v, tree.meaning v = some true ∧ tree.emitted.meaning v = some false := by
  induction tree with
  | empty => exact absurd hor (by simp [noOrInAnd])
  | atom before a ih =>
      obtain ⟨hbefore, ha⟩ := nodup_atom hnodup
      obtain ⟨v, htrue, hfalse⟩ := ih hbefore hor
      refine ⟨mix before.atoms v fun _ => true, meaning_atom_mix_true ha htrue, ?_⟩
      rw [← atoms_emitted before] at ha ⊢
      exact meaning_atom_mix_true ha hfalse
  | and_ before body ihBefore ihBody =>
      obtain ⟨hbefore, hbody, hdisjoint⟩ := nodup_parts hnodup
      rw [noOrInAnd, Bool.and_eq_false_iff, Bool.not_eq_false'] at hor
      rcases hor with hor | hor
      · obtain ⟨v, htrue, hfalse⟩ := ihBefore hbefore hor
        refine ⟨mix before.atoms v fun _ => true, meaning_and_mix_true hdisjoint htrue, ?_⟩
        rw [← atoms_emitted before]
        exact meaning_and_mix_true (by simpa using hdisjoint) hfalse
      · exact exists_told_apart_by_and hnodup hor
  | or_ before body ihBefore ihBody =>
      obtain ⟨hbefore, hbody, hdisjoint⟩ := nodup_parts hnodup
      rw [noOrInAnd, Bool.and_eq_false_iff] at hor
      rcases hor with hor | hor
      · obtain ⟨v, htrue, hfalse⟩ := ihBefore hbefore hor
        refine ⟨mix before.atoms v fun _ => false, meaning_or_mix_false hdisjoint htrue, ?_⟩
        rw [← atoms_emitted before]
        exact meaning_or_mix_false (by simpa using hdisjoint) hfalse
      · obtain ⟨v, htrue, hfalse⟩ := ihBody hbody hor
        refine ⟨mix before.atoms (fun _ => false) v, ?_, ?_⟩
        · apply meaning_of_value (value_or_of_undecided (value_mix_none_or_false (fun _ => id) v) _)
          exact (meaning_mix_of_disjoint hdisjoint _ v).trans htrue
        · apply meaning_of_value (value_or_of_undecided (value_mix_none_or_false (by simp) v) _)
          exact (meaning_mix_of_disjoint (by simpa using hdisjoint) _ v).trans hfalse

/-- The emitted tree means what the tree means exactly if no `or_` was rewritten. -/
theorem meaning_emitted_iff (hnodup : tree.atoms.Nodup) :
    (∀ v, tree.emitted.meaning v = tree.meaning v) ↔ tree.noOrInAnd = true := by
  constructor
  · intro hsame
    by_contra hor
    obtain ⟨v, htrue, hfalse⟩ := exists_told_apart hnodup (Bool.not_eq_true _ ▸ hor)
    have hboth : some false = some true := hfalse.symm.trans ((hsame v).trans htrue)
    exact absurd hboth (by simp)
  · intro hor v
    rw [meaning, meaning, value_emitted_of_noOrInAnd hor]

end Apart

@[simp]
theorem joinsByOr_number (tree : CallTree A) (start : Nat) :
    (tree.number start).joinsByOr = tree.joinsByOr := by
  induction tree generalizing start <;> simp_all [number, joinsByOr]

@[simp]
theorem noOrInAnd_number (tree : CallTree A) (start : Nat) :
    (tree.number start).noOrInAnd = tree.noOrInAnd := by
  induction tree generalizing start <;> simp_all [number, noOrInAnd]

end CallTree

/-! ### The text -/

namespace QueryWrapper

variable {T : Type}

theorem spell_connective (startIndex : Int32) (conditions : List (Condition T))
    (cond : Condition T) :
    spell startIndex conditions (.connective (connectiveOf cond)) = [.text (logicStr cond)] := by
  unfold connectiveOf logicStr
  split_ifs <;> rfl

theorem flatMap_spell_replicate (startIndex : Int32) (conditions : List (Condition T))
    {token : Token Nat} {piece : Piece T} (hspell : spell startIndex conditions token = [piece])
    (n : Nat) :
    (List.replicate n token).flatMap (spell startIndex conditions) = List.replicate n piece := by
  induction n with
  | zero => rfl
  | succ n ih =>
      rw [List.replicate_succ, List.flatMap_cons, ih, hspell, List.replicate_succ]
      rfl

theorem conditionsText_eq (startIndex : Int32) (earlier rest : List (Condition T)) :
    conditionsText earlier.length (indexAfter startIndex earlier) rest =
      (conditionTokens earlier.length rest).flatMap (spell startIndex (earlier ++ rest)) := by
  induction rest generalizing earlier with
  | nil => rfl
  | cons cond rest ih =>
      have hnext := ih (earlier ++ [cond])
      have hindex : indexAfter startIndex (earlier ++ [cond]) =
          (buildValueClause cond (indexAfter startIndex earlier)).2 := by
        simp [indexAfter]
      have hatom : spell startIndex (earlier ++ cond :: rest) (.atom earlier.length) =
          conditionStr cond (buildValueClause cond (indexAfter startIndex earlier)).1 := by
        simp [spell]
      rw [hindex, List.length_append, List.length_singleton, List.append_assoc,
        List.singleton_append] at hnext
      have hopen := @flatMap_spell_replicate T startIndex (earlier ++ cond :: rest) .lparen .lparen
        rfl cond.openParens
      have hclose := @flatMap_spell_replicate T startIndex (earlier ++ cond :: rest) .rparen .rparen
        rfl cond.closeParens
      simp only [conditionsText, conditionTokens, List.flatMap_append, List.flatMap_cons,
        List.flatMap_nil, List.append_nil, hatom, hopen, hclose, hnext]
      split_ifs
      · rfl
      · rw [List.flatMap_cons, spell_connective]
        rfl

/-- What `appendConditions` appends is the keyword and the tokens of the condition. -/
theorem appendConditions_eq (q : QueryWrapper T) (sql : Sql T) (startIndex : Int32)
    (hne : q.mConditions ≠ []) :
    q.appendConditions sql startIndex =
      sql ++ [.text (if containsWhere (q.render sql) then " AND " else " WHERE ")] ++
        q.whereTokens.flatMap (spell startIndex q.mConditions) := by
  have htext := conditionsText_eq startIndex [] q.mConditions
  have hempty : q.mConditions.isEmpty = false := by simpa using hne
  rw [List.length_nil, List.nil_append] at htext
  simp only [appendConditions, hempty, Bool.false_eq_true, if_false]
  rw [show startIndex = indexAfter startIndex ([] : List (Condition T)) from rfl, htext]
  simp only [whereTokens, List.flatMap_append, List.append_assoc]
  split_ifs <;> rfl

theorem parse_whereTokens (tree : CallTree (Atom T)) (settings : QueryWrapper T) (v : Nat → Bool) :
    (Precedence.parse (tree.fill { settings with mConditions := [] }).whereTokens).map
        (fun e => e.eval v) = (tree.number 0).emitted.meaning v := by
  have hconditions : (tree.fill { settings with mConditions := [] }).mConditions =
      tree.conditions := by
    rw [CallTree.fill_eq]
    rfl
  have htokens := CallTree.sequenceTokens_conditions tree 0
  rw [whereTokens, hconditions, conditionTokens_zero, htokens]
  split_ifs with hor
  · apply CallTree.parse_parenthesized
    rw [CallTree.size_emitted, CallTree.size_number, ← CallTree.length_conditions]
    intro hlength
    rw [hasOr, hconditions, List.length_eq_zero_iff.mp hlength] at hor
    exact absurd hor (by simp)
  · rw [List.nil_append, List.append_nil]
    exact CallTree.parse_tokens _ v

/-- The text that a tree of calls produces spells a condition; read with `AND` before `OR`, it denotes
the boolean function of the tree exactly if no builder given to `and_` joins operands by `OR`. -/
theorem condition_denotes_tree_iff (tree : CallTree (Atom T)) (settings : QueryWrapper T) :
    let q := tree.fill { settings with mConditions := [] }
    (∀ sql startIndex, q.appendConditions sql startIndex =
      if tree.size = 0 then sql
      else sql ++ [.text (if containsWhere (q.render sql) then " AND " else " WHERE ")] ++
        q.whereTokens.flatMap (spell startIndex q.mConditions)) ∧
      ((∀ v, (Precedence.parse q.whereTokens).map (fun e => e.eval v) = (tree.number 0).meaning v) ↔
        tree.noOrInAnd = true) := by
  intro q
  have hconditions : q.mConditions = tree.conditions := by
    simp only [q, CallTree.fill_eq]
    rfl
  constructor
  · intro sql startIndex
    by_cases hsize : tree.size = 0
    · have hnil : q.mConditions = [] := by
        rw [hconditions, ← List.length_eq_zero_iff, CallTree.length_conditions]
        exact hsize
      rw [if_pos hsize]
      simp [appendConditions, hnil]
    · rw [if_neg hsize]
      apply appendConditions_eq
      rw [hconditions]
      intro hnil
      rw [← CallTree.length_conditions, hnil] at hsize
      exact hsize rfl
  · have hnodup : (tree.number 0).atoms.Nodup := by
      rw [CallTree.atoms_number]
      exact List.nodup_range'
    rw [← CallTree.noOrInAnd_number tree 0, ← CallTree.meaning_emitted_iff hnodup]
    simp only [q, parse_whereTokens]

/-- A nested builder that asks for `b OR c` is written as `(b AND c)`. -/
theorem or_in_and_written_as_and :
    let tree : CallTree (Atom Unit) :=
      .and_ (.atom .empty (.isNull "a"))
        (.or_ (.atom .empty (.isNull "b")) (.atom .empty (.isNull "c")))
    let q := tree.fill {}
    q.render (q.appendConditions []) = " WHERE a IS NULL AND (b IS NULL AND c IS NULL)" ∧
      (Precedence.parse q.whereTokens).map (fun e => e.eval fun i => i ≠ 2) = some false ∧
      (tree.number 0).meaning (fun i => i ≠ 2) = some true := by
  decide

end QueryWrapper

end SoulCoreKit.Orm
