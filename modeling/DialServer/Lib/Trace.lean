import Mathlib.Data.List.Induction
import Mathlib.Order.Nat

/-!
# Machines that serve jobs

A machine takes jobs one at a time; each changes its state and emits events, and a
machine that is down does nothing any more. `Trace.Machine.run` is what a list of
jobs leaves: the state and all the events, in order.

The rule `Trace.Machine.preceded_run` carries a fact about the events of one job to
every trace, for facts of the form “an event of this kind comes right after one
that enables it” (`Trace.Preceded`); the rule `Trace.Machine.run_induction` carries
any relation between the state and the events so far.

What a trace says about a cell that some events write and others erase is
`Trace.latest`: the value of the last write that was not erased
(`Trace.latest_eq_some`).
-/

namespace Trace

variable {S J E : Type*}

/-! ### Events that must be enabled -/

/-- Every event that needs it comes right after an event that enables it. -/
def Preceded (needs : E → Prop) (enables : E → E → Prop) (t : List E) : Prop :=
  ∀ i e, t[i]? = some e → needs e → ∃ j d, i = j + 1 ∧ t[j]? = some d ∧ enables d e

variable {needs : E → Prop} {enables : E → E → Prop} {t t' : List E}

theorem preceded_nil : Preceded needs enables [] := fun _ _ h => absurd h (by simp)

theorem Preceded.append (h : Preceded needs enables t) (h' : Preceded needs enables t') :
    Preceded needs enables (t ++ t') := by
  intro i e hi hneeds
  rcases Nat.lt_or_ge i t.length with hlt | hge
  · rw [List.getElem?_append_left hlt] at hi
    obtain ⟨j, d, rfl, hj, hd⟩ := h i e hi hneeds
    exact ⟨j, d, rfl, by rw [List.getElem?_append_left (by omega), hj], hd⟩
  · rw [List.getElem?_append_right hge] at hi
    obtain ⟨j, d, hij, hj, hd⟩ := h' _ e hi hneeds
    refine ⟨t.length + j, d, by omega, ?_, hd⟩
    rw [List.getElem?_append_right (Nat.le_add_right _ _), Nat.add_sub_cancel_left, hj]

/-- Nothing in the trace needs to be enabled. -/
theorem preceded_of_forall_not (h : ∀ e ∈ t, ¬needs e) : Preceded needs enables t :=
  fun _ e hi hneeds => absurd hneeds (h e (List.mem_of_getElem? hi))

/-- An event that needs nothing, and then one that it enables. -/
theorem preceded_pair {d e : E} (hd : ¬needs d) (h : enables d e) :
    Preceded needs enables [d, e] := by
  rintro (_ | _ | i) e' hi hneeds
  · obtain rfl : d = e' := by simpa using hi
    exact absurd hneeds hd
  · obtain rfl : e = e' := by simpa using hi
    exact ⟨0, d, rfl, rfl, h⟩
  · exact absurd hi (by simp)

/-! ### The latest value -/

section Latest

variable {A : Type*} (erases : E → Prop) [DecidablePred erases] (writes : E → Option A)

/-- What a trace leaves in a cell that is empty at first. -/
def latest (t : List E) : Option A :=
  t.foldl (fun a e => if erases e then none else (writes e).or a) none

@[simp] theorem latest_nil : latest erases writes [] = none := rfl

theorem latest_concat (t : List E) (e : E) : latest erases writes (t ++ [e]) =
    if erases e then none else (writes e).or (latest erases writes t) := by
  rw [latest, List.foldl_append]
  rfl

/-- Events that erase nothing leave what they write, or else what was there. -/
theorem latest_append {t t' : List E} (h : ∀ e ∈ t', ¬erases e) :
    latest erases writes (t ++ t') =
      (latest erases writes t').or (latest erases writes t) := by
  induction t' using List.reverseRecOn with
  | nil => rw [List.append_nil, latest_nil, Option.none_or]
  | append_singleton t' e ih =>
    have hkeep : ¬erases e := h e (by simp)
    rw [← List.append_assoc, latest_concat, if_neg hkeep, latest_concat, if_neg hkeep,
      ih fun e' he' => h e' (List.mem_append_left _ he'), Option.or_assoc]

/-- Events that write nothing leave nothing. -/
theorem latest_eq_none {t : List E} (h : ∀ e ∈ t, writes e = none) :
    latest erases writes t = none := by
  induction t using List.reverseRecOn with
  | nil => rfl
  | append_singleton t e ih =>
    rw [latest_concat, h e (by simp), Option.none_or,
      ih fun e' he' => h e' (List.mem_append_left _ he'), ite_self]

/-- Events that do not concern the cell leave it as it is. -/
theorem latest_append_of_keep {t t' : List E} (h : ∀ e ∈ t', ¬erases e ∧ writes e = none) :
    latest erases writes (t ++ t') = latest erases writes t := by
  rw [latest_append erases writes fun e he => (h e he).1,
    latest_eq_none erases writes fun e he => (h e he).2, Option.none_or]

/-- **A cell holds something if something was written** after it was last erased. -/
theorem latest_ne_none {t : List E} :
    latest erases writes t ≠ none ↔ ∃ pre e post, t = pre ++ e :: post ∧ ¬erases e ∧
      writes e ≠ none ∧ ∀ e' ∈ post, ¬erases e' := by
  constructor
  · intro h
    induction t using List.reverseRecOn with
    | nil => exact absurd (latest_nil erases writes) h
    | append_singleton t e ih =>
      rw [latest_concat] at h
      split at h
      · exact absurd rfl h
      · rename_i hkeep
        rcases hwrite : writes e with _ | a
        · -- the last event writes nothing, so the value is older
          rw [hwrite, Option.none_or] at h
          obtain ⟨pre, d, post, rfl, hd, hda, hpost⟩ := ih h
          refine ⟨pre, d, post ++ [e], by simp, hd, hda, fun e' he' => ?_⟩
          rcases List.mem_append.mp he' with hmem | hlast
          · exact hpost e' hmem
          · rwa [List.mem_singleton.mp hlast]
        · refine ⟨t, e, [], rfl, hkeep, ?_, fun e' he' => absurd he' List.not_mem_nil⟩
          rw [hwrite]
          exact Option.some_ne_none a
  · rintro ⟨pre, e, post, rfl, hkeep, hwrite, hpost⟩
    obtain ⟨a, ha⟩ := Option.ne_none_iff_exists'.mp hwrite
    rw [← List.singleton_append, ← List.append_assoc, latest_append erases writes hpost,
      latest_concat, if_neg hkeep, ha, Option.some_or]
    rcases latest erases writes post with _ | b
    · rw [Option.none_or]
      exact Option.some_ne_none a
    · rw [Option.some_or]
      exact Option.some_ne_none b

/-- **The latest value is what the last write left**, if nothing came after it that
erases or writes. -/
theorem latest_eq_some {t : List E} {a : A} :
    latest erases writes t = some a ↔ ∃ pre e post, t = pre ++ e :: post ∧ ¬erases e ∧
      writes e = some a ∧ ∀ e' ∈ post, ¬erases e' ∧ writes e' = none := by
  constructor
  · intro h
    induction t using List.reverseRecOn with
    | nil => exact absurd h (by simp)
    | append_singleton t e ih =>
      rw [latest_concat] at h
      split at h
      · exact absurd h (by simp)
      · rename_i hkeep
        rcases hwrite : writes e with _ | b
        · -- the last event writes nothing, so the value is older
          rw [hwrite, Option.none_or] at h
          obtain ⟨pre, d, post, rfl, hd, hda, hpost⟩ := ih h
          refine ⟨pre, d, post ++ [e], by simp, hd, hda, fun e' he' => ?_⟩
          rcases List.mem_append.mp he' with hmem | hlast
          · exact hpost e' hmem
          · rw [List.mem_singleton.mp hlast]
            exact ⟨hkeep, hwrite⟩
        · rw [hwrite, Option.some_or] at h
          exact ⟨t, e, [], rfl, hkeep, hwrite.trans h, fun e' he' => absurd he' List.not_mem_nil⟩
  · rintro ⟨pre, e, post, rfl, hkeep, hwrite, hpost⟩
    rw [← List.singleton_append, ← List.append_assoc,
      latest_append_of_keep erases writes hpost, latest_concat, if_neg hkeep, hwrite,
      Option.some_or]

end Latest

/-! ### Machines -/

/-- A machine that serves jobs. -/
structure Machine (S J E : Type*) where
  /-- The state after a job, and the events it emits. -/
  step : S → J → S × List E
  /-- Whether the machine still serves. -/
  up : S → Bool

namespace Machine

variable (M : Machine S J E)

/-- One job, if the machine still serves. -/
def serve (s : S) (job : J) : S × List E := if M.up s then M.step s job else (s, [])

/-- A list of jobs: the state they leave, and the events. -/
def run (s : S) : List J → S × List E
  | [] => (s, [])
  | job :: jobs =>
    ((run (M.serve s job).1 jobs).1, (M.serve s job).2 ++ (run (M.serve s job).1 jobs).2)

theorem run_append (s : S) (jobs jobs' : List J) :
    M.run s (jobs ++ jobs') = ((M.run (M.run s jobs).1 jobs').1,
      (M.run s jobs).2 ++ (M.run (M.run s jobs).1 jobs').2) := by
  induction jobs generalizing s with
  | nil => rfl
  | cons job jobs ih => rw [List.cons_append, run, ih, run, List.append_assoc]

/-- One more job, while the machine serves. -/
theorem run_concat {s : S} {jobs : List J} (hup : M.up (M.run s jobs).1 = true) (job : J) :
    M.run s (jobs ++ [job]) = ((M.step (M.run s jobs).1 job).1,
      (M.run s jobs).2 ++ (M.step (M.run s jobs).1 job).2) := by
  rw [run_append]
  simp [run, serve, hup]

/-- **What every job preserves, every run preserves**: a relation between the state and
the events so far. -/
theorem run_induction {P : S → List E → Prop}
    (hstep : ∀ s t job, M.up s = true → P s t → P (M.step s job).1 (t ++ (M.step s job).2))
    {s : S} {t : List E} (h : P s t) (jobs : List J) :
    P (M.run s jobs).1 (t ++ (M.run s jobs).2) := by
  induction jobs generalizing s t with
  | nil => rwa [run, List.append_nil]
  | cons job jobs ih =>
    rw [run, ← List.append_assoc]
    refine ih ?_
    rw [serve]
    split
    · rename_i hup
      exact hstep s t job hup h
    · rwa [List.append_nil]

/-- **What the events of every job have, every trace has.** -/
theorem preceded_run (h : ∀ s job, Preceded needs enables (M.step s job).2) (s : S)
    (jobs : List J) : Preceded needs enables (M.run s jobs).2 := by
  have hrun := M.run_induction (P := fun _ t => Preceded needs enables t)
    (fun s _ job _ ht => ht.append (h s job)) (s := s) preceded_nil jobs
  rwa [List.nil_append] at hrun

end Machine

end Trace
