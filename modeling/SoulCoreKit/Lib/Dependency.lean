import Mathlib.Data.Fintype.EquivFin
import Mathlib.Logic.Relation
import Mathlib.Data.Fintype.Card
import Mathlib.Order.WellFounded

/-!
# Dependencies and cycles

`dep a b` says that `a` depends on `b`. A relation along which a rank decreases has no cycle, and a
finite nonempty set whose members each depend on a member has one. The two together say when an order
that lists everything after what it depends on exists. Such an order is built step by step: what is
added next is judged against what was listed before it.
-/

namespace SoulCoreKit.Dependency

variable {A : Type} {dep : A → A → Prop}

/-- Nothing depends on itself, through however many others. -/
def Acyclic (dep : A → A → Prop) : Prop := ∀ a, ¬ Relation.TransGen dep a a

theorem rank_lt_of_transGen {rank : A → Nat} (hrank : ∀ a b, dep a b → rank b < rank a) {a b : A}
    (hdep : Relation.TransGen dep a b) : rank b < rank a := by
  induction hdep with
  | single hab => exact hrank a _ hab
  | tail _ hbc ih => exact (hrank _ _ hbc).trans ih

theorem acyclic_of_rank (rank : A → Nat) (hrank : ∀ a b, dep a b → rank b < rank a) :
    Acyclic dep := by
  intro a hcycle
  exact lt_irrefl (rank a) (rank_lt_of_transGen hrank hcycle)

/-- In a finite nonempty set, a relation without a cycle leaves a member that depends on no member. -/
theorem exists_free_of_acyclic (hacyclic : Acyclic dep) {remaining : Finset A}
    (hremaining : remaining.Nonempty) : ∃ a ∈ remaining, ∀ b ∈ remaining, ¬ dep a b := by
  let below : {a // a ∈ remaining} → {a // a ∈ remaining} → Prop :=
    fun b a => Relation.TransGen dep a.1 b.1
  have : IsTrans {a // a ∈ remaining} below := ⟨fun _ _ _ hab hbc => hbc.trans hab⟩
  have : Std.Irrefl below := ⟨fun a hcycle => hacyclic a.1 hcycle⟩
  have hwf : WellFounded below := Finite.wellFounded_of_trans_of_irrefl below
  obtain ⟨first, hfirst⟩ := hremaining
  obtain ⟨a, -, hmin⟩ := hwf.has_min Set.univ ⟨⟨first, hfirst⟩, Set.mem_univ _⟩
  refine ⟨a.1, a.2, ?_⟩
  intro b hb hdep
  exact hmin ⟨b, hb⟩ (Set.mem_univ _) (Relation.TransGen.single hdep)

/-- Every member of the list suits the members before it. -/
def StepByStep (suits : List A → A → Prop) (order : List A) : Prop :=
  ∀ before a after, order = before ++ a :: after → suits before a

theorem stepByStep_nil (suits : List A → A → Prop) : StepByStep suits [] := by
  intro before a after heq
  simp at heq

theorem StepByStep.concat {suits : List A → A → Prop} {order : List A} {a : A}
    (horder : StepByStep suits order) (ha : suits order a) : StepByStep suits (order ++ [a]) := by
  intro before b after heq
  obtain rfl | ⟨front, last, rfl⟩ := List.eq_nil_or_concat' after
  · obtain ⟨rfl, hlast⟩ := List.append_inj' heq rfl
    obtain rfl : a = b := by simpa using hlast
    exact ha
  · rw [← List.cons_append, ← List.append_assoc] at heq
    obtain ⟨hfront, _⟩ := List.append_inj' heq rfl
    exact horder before b front hfront

theorem StepByStep.nodup {suits : List A → A → Prop} {order : List A}
    (horder : StepByStep suits order) (hnew : ∀ before a, suits before a → a ∉ before) :
    order.Nodup := by
  induction order using List.reverseRecOn with
  | nil => exact List.nodup_nil
  | append_singleton front last ih =>
      have hfront : StepByStep suits front := by
        intro before a after heq
        exact horder before a (after ++ [last]) (by rw [heq]; simp)
      have hlast : last ∉ front := hnew front last (horder front last [] rfl)
      rw [List.nodup_append]
      refine ⟨ih hfront, List.nodup_singleton last, ?_⟩
      intro a ha b hb
      rw [List.mem_singleton] at hb
      rintro rfl
      exact hlast (hb ▸ ha)

/-- An order that lists everything after what it depends on leaves no cycle. -/
theorem acyclic_of_stepByStep [DecidableEq A] {suits : List A → A → Prop} {order : List A}
    (horder : StepByStep suits order) (hnew : ∀ before a, suits before a → a ∉ before)
    (hdep : ∀ a b, dep a b → a ∈ order ∧ ∀ before, suits before a → b ∈ before) : Acyclic dep := by
  apply acyclic_of_rank fun a => order.idxOf a
  intro a b hab
  obtain ⟨hmem, hbefore⟩ := hdep a b hab
  obtain ⟨before, after, rfl⟩ := List.append_of_mem hmem
  have hsuits := horder before a after rfl
  have hb : b ∈ before := hbefore before hsuits
  have ha : a ∉ before := hnew before a hsuits
  rw [List.idxOf_append_of_mem hb, List.idxOf_append_of_notMem ha, List.idxOf_cons_self]
  exact List.idxOf_lt_length_iff.mpr hb

end SoulCoreKit.Dependency
