import Mathlib.Data.List.Induction

/-!
# Runs of a labelled machine

A component is a state type with one step function per label, and a run is a list of labels. Two
induction rules are all the invariant proofs need: one for a property every step preserves, and one
for a property preserved only by the steps that meet a condition on the state they start from. Where
the condition is exact, the runs along which the property always holds are exactly the runs of such
steps.
-/

namespace SoulCoreKit

variable {S L : Type}

/-- The state after a list of labels. -/
def run (step : S → L → S) (start : S) (labels : List L) : S := labels.foldl step start

/-- Every step of the run starts from a state that meets the condition. -/
def Along (step : S → L → S) (cond : S → L → Prop) : S → List L → Prop
  | _, [] => True
  | state, label :: rest => cond state label ∧ Along step cond (step state label) rest

variable {step : S → L → S} {cond : S → L → Prop} {start : S}

instance decidableAlong [∀ state label, Decidable (cond state label)] :
    ∀ start labels, Decidable (Along step cond start labels)
  | _, [] => isTrue trivial
  | state, label :: rest =>
      have := decidableAlong (step state label) rest
      inferInstanceAs (Decidable (_ ∧ _))

@[simp]
theorem run_nil : run step start [] = start := rfl

@[simp]
theorem run_cons (label : L) (rest : List L) :
    run step start (label :: rest) = run step (step start label) rest := rfl

theorem run_append (first second : List L) :
    run step start (first ++ second) = run step (run step start first) second :=
  List.foldl_append

@[simp]
theorem run_concat (labels : List L) (label : L) :
    run step start (labels ++ [label]) = step (run step start labels) label := by
  rw [run_append]
  rfl

theorem along_append (first second : List L) :
    Along step cond start (first ++ second) ↔
      Along step cond start first ∧ Along step cond (run step start first) second := by
  induction first generalizing start with
  | nil => simp [Along]
  | cons label rest ih => simp [Along, ih, and_assoc]

theorem along_concat (labels : List L) (label : L) :
    Along step cond start (labels ++ [label]) ↔
      Along step cond start labels ∧ cond (run step start labels) label := by
  rw [along_append]
  simp [Along]

theorem Along.of_forall_mem {labels : List L} (hall : ∀ label ∈ labels, ∀ state, cond state label) :
    Along step cond start labels := by
  induction labels generalizing start with
  | nil => trivial
  | cons label rest ih =>
      obtain ⟨hfirst, hrest⟩ := List.forall_mem_cons.mp hall
      exact ⟨hfirst start, ih hrest⟩

theorem Along.of_forall (hall : ∀ state label, cond state label) (labels : List L) :
    Along step cond start labels :=
  .of_forall_mem fun label _ state => hall state label

theorem Along.and {cond' : S → L → Prop} {labels : List L} (hrun : Along step cond start labels)
    (hrun' : Along step cond' start labels) :
    Along step (fun state label => cond state label ∧ cond' state label) start labels := by
  induction labels generalizing start with
  | nil => trivial
  | cons label rest ih => exact ⟨⟨hrun.1, hrun'.1⟩, ih hrun.2 hrun'.2⟩

theorem Along.take {labels : List L} (hrun : Along step cond start labels) (n : Nat) :
    Along step cond start (labels.take n) := by
  rw [← List.take_append_drop n labels, along_append] at hrun
  exact hrun.1

/-- The condition at one step of the run. -/
theorem Along.getElem? {labels : List L} (hrun : Along step cond start labels) {n : Nat} {label : L}
    (hlabel : labels[n]? = some label) : cond (run step start (labels.take n)) label := by
  induction labels generalizing start n with
  | nil => exact absurd hlabel (by simp)
  | cons first rest ih =>
      cases n with
      | zero =>
          rw [List.getElem?_cons_zero] at hlabel
          exact Option.some.inj hlabel ▸ hrun.1
      | succ n =>
          rw [List.getElem?_cons_succ] at hlabel
          exact ih hrun.2 hlabel

/-- A property that every step keeps holds at the end of every run. -/
theorem run_induction {P : S → Prop} (hstart : P start)
    (hstep : ∀ state label, P state → P (step state label)) (labels : List L) :
    P (run step start labels) := by
  induction labels generalizing start with
  | nil => exact hstart
  | cons label rest ih => exact ih (hstep start label hstart)

/-- A property kept by the steps that meet the condition holds at the end of every run of such
steps. -/
theorem Along.induction {P : S → Prop} {labels : List L} (hrun : Along step cond start labels)
    (hstart : P start)
    (hstep : ∀ state label, P state → cond state label → P (step state label)) :
    P (run step start labels) := by
  induction labels generalizing start with
  | nil => exact hstart
  | cons label rest ih => exact ih hrun.2 (hstep start label hstart hrun.1)

/-- A property kept by the steps that meet the condition holds in every state of a run of such steps. -/
theorem Along.always {P : S → Prop} {labels : List L} (hrun : Along step cond start labels)
    (hstart : P start)
    (hstep : ∀ state label, P state → cond state label → P (step state label)) (n : Nat) :
    P (run step start (labels.take n)) :=
  (hrun.take n).induction hstart hstep

/-- What follows from an invariant and the condition holds at every step of a run of such steps. -/
theorem Along.of_invariant {I : S → Prop} {cond' : S → L → Prop} {labels : List L}
    (hrun : Along step cond start labels) (hstart : I start)
    (hstep : ∀ state label, I state → cond state label → I (step state label))
    (hcond : ∀ state label, I state → cond state label → cond' state label) :
    Along step cond' start labels := by
  induction labels generalizing start with
  | nil => trivial
  | cons label rest ih =>
      exact ⟨hcond start label hstart hrun.1, ih hrun.2 (hstep start label hstart hrun.1)⟩

/-- Where the readings of a run do not decrease, none is above a reading of the last label. -/
theorem readings_le_of_pairwise {T : Type} [LE T] {readings : L → List T} {labels : List L}
    {label : L} (hclock : ((labels ++ [label]).flatMap readings).Pairwise (· ≤ ·)) {now : T}
    (hnow : now ∈ readings label) : ∀ past ∈ labels.flatMap readings, past ≤ now := by
  intro past hpast
  rw [List.flatMap_append, List.flatMap_singleton, List.pairwise_append] at hclock
  exact hclock.2.2 past hpast now hnow

/-- A property of the state and the clock that every step keeps, where it meets the condition and its
reading is not before the last one. -/
theorem Along.clocked_induction {T : Type} [LE T] {now : L → T} {P : S → T → Prop}
    {labels : List L} {clock : T} (hrun : Along step cond start labels)
    (hclock : (clock :: labels.map now).Pairwise (· ≤ ·)) (hstart : P start clock)
    (hstep : ∀ state clock label, P state clock → clock ≤ now label → cond state label →
      P (step state label) (now label)) :
    ∃ last ∈ clock :: labels.map now, P (run step start labels) last := by
  induction labels generalizing start clock with
  | nil => exact ⟨clock, List.mem_cons_self, hstart⟩
  | cons label rest ih =>
      obtain ⟨hfirst, hrest⟩ := List.pairwise_cons.mp hclock
      have hle : clock ≤ now label := hfirst _ List.mem_cons_self
      obtain ⟨last, hlast, hend⟩ := ih hrun.2 hrest (hstep start clock label hstart hle hrun.1)
      exact ⟨last, List.mem_cons_of_mem _ hlast, hend⟩

/-- Where the state keeps the last reading, a clock that does not go back is a condition on the steps. -/
theorem Along.of_pairwise {T : Type} [LE T] {clock : S → T} {now : L → T}
    (hkept : ∀ state label, clock (step state label) = now label) {labels : List L}
    (hclock : (clock start :: labels.map now).Pairwise (· ≤ ·)) :
    Along step (fun state label => clock state ≤ now label) start labels := by
  induction labels generalizing start with
  | nil => trivial
  | cons label rest ih =>
      obtain ⟨hfirst, hrest⟩ := List.pairwise_cons.mp hclock
      refine ⟨hfirst _ List.mem_cons_self, ih ?_⟩
      rw [hkept]
      exact hrest

/-- A property of histories that one more step keeps holds of every run of steps that meet the
condition. -/
theorem Along.history {P : List L → Prop} {labels : List L} (hrun : Along step cond start labels)
    (hnil : P [])
    (hstep : ∀ labels label, P labels → Along step cond start labels →
      cond (run step start labels) label → P (labels ++ [label])) :
    P labels := by
  induction labels using List.reverseRecOn with
  | nil => exact hnil
  | append_singleton labels label ih =>
      obtain ⟨hinit, hlast⟩ := (along_concat labels label).mp hrun
      exact hstep labels label (ih hinit) hinit hlast

/-- What the steps of a run give out, in order. -/
def outputs {A : Type} (step : S → L → S) (out : S → L → List A) : S → List L → List A
  | _, [] => []
  | state, label :: rest => out state label ++ outputs step out (step state label) rest

@[simp]
theorem outputs_nil {A : Type} (out : S → L → List A) : outputs step out start [] = [] := rfl

theorem outputs_concat {A : Type} (out : S → L → List A) (labels : List L) (label : L) :
    outputs step out start (labels ++ [label]) =
      outputs step out start labels ++ out (run step start labels) label := by
  induction labels generalizing start with
  | nil => exact List.append_nil _
  | cons first rest ih =>
      rw [List.cons_append, outputs, ih, outputs, run_cons, List.append_assoc]

/-- What a machine that answers every label answers along a run. -/
def replies {A : Type} (exec : S → L → A × S) : S → List L → List A
  | _, [] => []
  | state, label :: rest => (exec state label).1 :: replies exec (exec state label).2 rest

/-- A relation between two machines that one step keeps, with the same answer, is kept by whole runs,
with the same answers. -/
theorem Along.simulation {T A : Type} {exec : S → L → A × S} {exec' : T → L → A × T}
    {related : S → T → Prop} {start' : T} {labels : List L}
    (hrun : Along (fun state label => (exec state label).2) cond start labels)
    (hstart : related start start')
    (hstep : ∀ state state' label, related state state' → cond state label →
      (exec state label).1 = (exec' state' label).1 ∧
        related (exec state label).2 (exec' state' label).2) :
    replies exec start labels = replies exec' start' labels ∧
      related (run (fun state label => (exec state label).2) start labels)
        (run (fun state label => (exec' state label).2) start' labels) := by
  induction labels generalizing start start' with
  | nil => exact ⟨rfl, hstart⟩
  | cons label rest ih =>
      obtain ⟨hreply, hnext⟩ := hstep start start' label hstart hrun.1
      obtain ⟨hreplies, hend⟩ := ih hrun.2 hnext
      refine ⟨?_, hend⟩
      unfold replies
      rw [hreply, hreplies]

/-- Where the steps that meet the condition keep an invariant that has the property, and a step from a
state with the invariant to one with the property meets the condition, the property holds all along a run
exactly if every step of the run meets the condition. -/
theorem always_iff_along_of_invariant {P Q : S → Prop} {enabled : S → L → Prop} {labels : List L}
    (hrun : Along step enabled start labels) (hstart : Q start) (hholds : ∀ state, Q state → P state)
    (hneeds : ∀ state label, Q state → enabled state label → P (step state label) → cond state label)
    (hkeeps : ∀ state label, Q state → enabled state label → cond state label → Q (step state label)) :
    (∀ n, P (run step start (labels.take n))) ↔ Along step cond start labels := by
  induction labels generalizing start with
  | nil => simpa [Along] using hholds start hstart
  | cons label rest ih =>
      constructor
      · intro halways
        have hfirst : cond start label := hneeds start label hstart hrun.1 (halways 1)
        refine ⟨hfirst, (ih hrun.2 (hkeeps start label hstart hrun.1 hfirst)).mp ?_⟩
        intro n
        exact halways (n + 1)
      · intro halong n
        cases n with
        | zero => exact hholds start hstart
        | succ n => exact (ih hrun.2 (hkeeps start label hstart hrun.1 halong.1)).mpr halong.2 n

/-- Where a step keeps the property exactly if it meets the condition, the property holds all along
a run exactly if every step of the run meets it. -/
theorem always_iff_along {I P : S → Prop} {enabled : S → L → Prop} {labels : List L}
    (hrun : Along step enabled start labels) (hinv : I start) (hstart : P start)
    (hkeeps : ∀ state label, I state → enabled state label → I (step state label))
    (hexact : ∀ state label, I state → enabled state label → P state →
      (P (step state label) ↔ cond state label)) :
    (∀ n, P (run step start (labels.take n))) ↔ Along step cond start labels := by
  refine always_iff_along_of_invariant (Q := fun state => I state ∧ P state) hrun ⟨hinv, hstart⟩
    (fun state hstate => hstate.2) ?_ ?_
  · intro state label hstate henabled hnext
    exact (hexact state label hstate.1 henabled hstate.2).mp hnext
  · intro state label hstate henabled hcond
    exact ⟨hkeeps state label hstate.1 henabled,
      (hexact state label hstate.1 henabled hstate.2).mpr hcond⟩

end SoulCoreKit
