import Mathlib.Algebra.BigOperators.Group.Finset.Basic
import Mathlib.Algebra.Order.BigOperators.Group.Finset
import Mathlib.Data.Fintype.Card
import Mathlib.Logic.Function.Basic

/-!
# Threads, a mutex and condition variables

Threads that share a state, one mutex and some condition variables. A program says what a
thread does next at the place it has got to (`Monitor.Instr`); `Monitor.step` is one move
of one thread, or a wakeup that nobody asked for, and `Monitor.run` any interleaving of
such moves. Waiting gives the mutex back and puts the thread to sleep in one move; a thread
that was woken goes on only once it has the mutex again. A signal wakes one sleeper, whoever
that is, and is lost when there is none.

Two rules carry most of what is proved about such programs.

* `Monitor.exclusive_step`: where the places of a program can be marked as inside and outside
  so that only locking leads in and only unlocking or waiting leads out, exactly the thread
  that has the mutex is inside.
* `Monitor.outline_run`: a proof outline, which says of each place what holds of the shared
  state when a thread is there, holds in every run if every instruction leads from one
  assertion to the next and no instruction of one thread destroys the assertion of another
  (`Monitor.Outline`). A thread inside is only disturbed by instructions from outside.
-/

namespace Monitor

variable {T I S L C : Type*}

/-- What a thread does in one move, and the place it gets to. -/
inductive Instr (S L C : Type*)
  /-- It leaves the shared state `s`. -/
  | act (l : L) (s : S)
  /-- It takes the mutex, once that is free. -/
  | lock (l : L)
  | unlock (l : L)
  /-- It gives the mutex back and sleeps on `c`; later it goes on at `l` with the mutex. -/
  | wait (c : C) (l : L)
  /-- It leaves the shared state `s` and wakes one thread that sleeps on `c`. -/
  | signal (c : C) (l : L) (s : S)
  /-- It wakes all threads that sleep on `c`. -/
  | broadcast (c : C) (l : L)

/-- How a thread stands: it can go on, it sleeps on a condition variable, or it was woken
and has to take the mutex before it goes on. -/
inductive Status (L C : Type*)
  | ready (l : L)
  | asleep (c : C) (l : L)
  | woken (l : L)
  deriving DecidableEq

namespace Status

/-- The place a thread is at, or goes on at. -/
def pc : Status L C → L
  | .ready l => l
  | .asleep _ l => l
  | .woken l => l

/-- The condition variable a thread sleeps on. -/
def sleepsOn : Status L C → Option C
  | .ready _ => none
  | .asleep c _ => some c
  | .woken _ => none

/-- A thread that sleeps on `c` is woken. -/
def rouse [DecidableEq C] (c : C) : Status L C → Status L C
  | .ready l => .ready l
  | .asleep c' l => if c' = c then .woken l else .asleep c' l
  | .woken l => .woken l

/-- Whether a thread is at a place inside. -/
def inside (holds : L → Bool) : Status L C → Bool
  | .ready l => holds l
  | .asleep _ _ => false
  | .woken _ => false

@[simp] theorem pc_rouse [DecidableEq C] (c : C) (st : Status L C) : (st.rouse c).pc = st.pc := by
  cases st with
  | ready l => rfl
  | asleep c' l =>
    rw [rouse]
    split <;> rfl
  | woken l => rfl

@[simp] theorem inside_rouse [DecidableEq C] (holds : L → Bool) (c : C) (st : Status L C) :
    (st.rouse c).inside holds = st.inside holds := by
  cases st with
  | ready l => rfl
  | asleep c' l =>
    rw [rouse]
    split <;> rfl
  | woken l => rfl

theorem rouse_of_sleepsOn [DecidableEq C] {c : C} {st : Status L C} (h : st.sleepsOn = some c) :
    st = .asleep c st.pc ∧ st.rouse c = .woken st.pc := by
  cases st with
  | ready l => exact absurd h (by simp [sleepsOn])
  | asleep c' l =>
    obtain rfl : c' = c := by simpa [sleepsOn] using h
    exact ⟨rfl, if_pos rfl⟩
  | woken l => exact absurd h (by simp [sleepsOn])

end Status

/-- The mutex and who has it, the shared state, and the threads. -/
structure Config (T S L C : Type*) where
  mutex : Option T
  shared : S
  status : T → Status L C

/-- What a thread does next, if it can do anything; `I` is what comes from outside. -/
abbrev Program (T I S L C : Type*) := T → I → S → L → Option (Instr S L C)

/-- A move: a thread goes on, with some input and the choice of whom a signal wakes, or a
thread wakes up without a signal. -/
inductive Move (T I : Type*)
  | run (t : T) (input : I) (pick : Option T)
  | spurious (t : T)

section Semantics

variable [DecidableEq T] [Fintype T] [DecidableEq C]

/-- What an instruction does. A signal has to wake somebody if anybody sleeps. -/
def exec (cfg : Config T S L C) (t : T) (pick : Option T) : Instr S L C → Option (Config T S L C)
  | .act l s => some ⟨cfg.mutex, s, Function.update cfg.status t (.ready l)⟩
  | .lock l =>
    match cfg.mutex with
    | none => some ⟨some t, cfg.shared, Function.update cfg.status t (.ready l)⟩
    | some _ => none
  | .unlock l => some ⟨none, cfg.shared, Function.update cfg.status t (.ready l)⟩
  | .wait c l => some ⟨none, cfg.shared, Function.update cfg.status t (.asleep c l)⟩
  | .signal c l s =>
    match pick with
    | none =>
      if ∀ u, (cfg.status u).sleepsOn ≠ some c then
        some ⟨cfg.mutex, s, Function.update cfg.status t (.ready l)⟩
      else none
    | some u =>
      if (cfg.status u).sleepsOn = some c then
        some ⟨cfg.mutex, s, Function.update
          (Function.update cfg.status u (.woken (cfg.status u).pc)) t (.ready l)⟩
      else none
  | .broadcast c l =>
    some ⟨cfg.mutex, cfg.shared,
      Function.update (fun u => (cfg.status u).rouse c) t (.ready l)⟩

variable (P : Program T I S L C)

/-- One move. -/
def step (cfg : Config T S L C) : Move T I → Option (Config T S L C)
  | .run t input pick =>
    match cfg.status t with
    | .ready l => (P t input cfg.shared l).bind (exec cfg t pick)
    | .asleep _ _ => none
    | .woken l =>
      match cfg.mutex with
      | none => some ⟨some t, cfg.shared, Function.update cfg.status t (.ready l)⟩
      | some _ => none
  | .spurious t =>
    match cfg.status t with
    | .ready _ => none
    | .asleep _ l => some { cfg with status := Function.update cfg.status t (.woken l) }
    | .woken _ => none

/-- An interleaving of moves. -/
def run (cfg : Config T S L C) : List (Move T I) → Option (Config T S L C)
  | [] => some cfg
  | m :: ms => (step P cfg m).bind fun cfg' => run cfg' ms

/-- **All that a move can be.** -/
inductive Step (cfg : Config T S L C) : Move T I → Config T S L C → Prop
  | act {t input pick l l' s} (hst : cfg.status t = .ready l)
      (hP : P t input cfg.shared l = some (.act l' s)) :
      Step cfg (.run t input pick) ⟨cfg.mutex, s, Function.update cfg.status t (.ready l')⟩
  | lock {t input pick l l'} (hst : cfg.status t = .ready l)
      (hP : P t input cfg.shared l = some (.lock l')) (hfree : cfg.mutex = none) :
      Step cfg (.run t input pick)
        ⟨some t, cfg.shared, Function.update cfg.status t (.ready l')⟩
  | unlock {t input pick l l'} (hst : cfg.status t = .ready l)
      (hP : P t input cfg.shared l = some (.unlock l')) :
      Step cfg (.run t input pick) ⟨none, cfg.shared, Function.update cfg.status t (.ready l')⟩
  | wait {t input pick l c l'} (hst : cfg.status t = .ready l)
      (hP : P t input cfg.shared l = some (.wait c l')) :
      Step cfg (.run t input pick) ⟨none, cfg.shared, Function.update cfg.status t (.asleep c l')⟩
  | lost {t input l c l' s} (hst : cfg.status t = .ready l)
      (hP : P t input cfg.shared l = some (.signal c l' s))
      (hnone : ∀ u, (cfg.status u).sleepsOn ≠ some c) :
      Step cfg (.run t input none) ⟨cfg.mutex, s, Function.update cfg.status t (.ready l')⟩
  | signal {t input l c l' s u m} (hst : cfg.status t = .ready l)
      (hP : P t input cfg.shared l = some (.signal c l' s)) (hu : cfg.status u = .asleep c m)
      (hne : u ≠ t) :
      Step cfg (.run t input (some u))
        ⟨cfg.mutex, s, Function.update (Function.update cfg.status u (.woken m)) t (.ready l')⟩
  | broadcast {t input pick l c l'} (hst : cfg.status t = .ready l)
      (hP : P t input cfg.shared l = some (.broadcast c l')) :
      Step cfg (.run t input pick) ⟨cfg.mutex, cfg.shared,
        Function.update (fun u => (cfg.status u).rouse c) t (.ready l')⟩
  | resume {t input pick l} (hst : cfg.status t = .woken l) (hfree : cfg.mutex = none) :
      Step cfg (.run t input pick) ⟨some t, cfg.shared, Function.update cfg.status t (.ready l)⟩
  | spurious {t c l} (hst : cfg.status t = .asleep c l) :
      Step cfg (.spurious t) ⟨cfg.mutex, cfg.shared, Function.update cfg.status t (.woken l)⟩

variable {P} {cfg cfg' cfg'' : Config T S L C} {m : Move T I} {ms ms' : List (Move T I)}

/-- What an instruction of a thread that is ready makes of the threads. -/
theorem step_of_exec {t : T} {input : I} {pick : Option T} {l : L} {instr : Instr S L C}
    (hst : cfg.status t = .ready l) (hP : P t input cfg.shared l = some instr)
    (h : exec cfg t pick instr = some cfg') : Step P cfg (.run t input pick) cfg' := by
  cases instr with
  | act l' s =>
    obtain rfl := Option.some.inj h
    exact .act hst hP
  | lock l' =>
    rw [exec] at h
    split at h
    · rename_i hfree
      obtain rfl := Option.some.inj h
      exact .lock hst hP hfree
    · exact absurd h (by simp)
  | unlock l' =>
    obtain rfl := Option.some.inj h
    exact .unlock hst hP
  | wait c l' =>
    obtain rfl := Option.some.inj h
    exact .wait hst hP
  | signal c l' s =>
    cases pick with
    | none =>
      rw [exec] at h
      split at h
      · rename_i hnone
        obtain rfl := Option.some.inj h
        exact .lost hst hP hnone
      · exact absurd h (by simp)
    | some u =>
      rw [exec] at h
      split at h
      · rename_i hu
        obtain rfl := Option.some.inj h
        have hne : u ≠ t := by
          rintro rfl
          rw [hst] at hu
          exact absurd hu (by simp [Status.sleepsOn])
        exact .signal hst hP (Status.rouse_of_sleepsOn hu).1 hne
      · exact absurd h (by simp)
  | broadcast c l' =>
    obtain rfl := Option.some.inj h
    exact .broadcast hst hP

/-- **What one move does.** -/
theorem step_cases (h : step P cfg m = some cfg') : Step P cfg m cfg' := by
  cases m with
  | run t input pick =>
    rw [step] at h
    cases hst : cfg.status t with
    | ready l =>
      rw [hst] at h
      obtain ⟨instr, hP, hexec⟩ := Option.bind_eq_some_iff.mp h
      exact step_of_exec hst hP hexec
    | asleep c l => simp [hst] at h
    | woken l =>
      rw [hst] at h
      dsimp only at h
      split at h
      · rename_i hfree
        obtain rfl := Option.some.inj h
        exact .resume hst hfree
      · exact absurd h (by simp)
  | spurious t =>
    rw [step] at h
    cases hst : cfg.status t with
    | ready l => simp [hst] at h
    | asleep c l =>
      rw [hst] at h
      obtain rfl := Option.some.inj h
      exact .spurious hst
    | woken l => simp [hst] at h

/-- **A thread that is ready can make its move**, if that is not to take a mutex somebody
else has. -/
theorem exists_step_of_ready {t : T} {input : I} {l : L} {instr : Instr S L C}
    (hst : cfg.status t = .ready l) (hP : P t input cfg.shared l = some instr)
    (hfree : ∀ l', instr = .lock l' → cfg.mutex = none) :
    ∃ pick, step P cfg (.run t input pick) ≠ none := by
  have hstep : ∀ pick, step P cfg (.run t input pick) = exec cfg t pick instr := by
    intro pick
    simp only [step, hst, hP, Option.bind_some]
  simp only [hstep]
  cases instr with
  | act l' s => exact ⟨none, by simp [exec]⟩
  | lock l' => exact ⟨none, by simp [exec, hfree l' rfl]⟩
  | unlock l' => exact ⟨none, by simp [exec]⟩
  | wait c l' => exact ⟨none, by simp [exec]⟩
  | signal c l' s =>
    by_cases hsleep : ∀ u, (cfg.status u).sleepsOn ≠ some c
    · exact ⟨none, by simp [exec, hsleep]⟩
    · obtain ⟨u, hu⟩ := not_forall.mp hsleep
      exact ⟨some u, by simp [exec, not_not.mp hu]⟩
  | broadcast c l' => exact ⟨none, by simp [exec]⟩

/-- A thread that was woken can go on when the mutex is free. -/
theorem step_of_woken {t : T} {l : L} (hst : cfg.status t = .woken l) (hfree : cfg.mutex = none)
    (input : I) (pick : Option T) : step P cfg (.run t input pick) ≠ none := by
  simp [step, hst, hfree]

theorem run_append (cfg : Config T S L C) (ms ms' : List (Move T I)) :
    run P cfg (ms ++ ms') = (run P cfg ms).bind fun cfg' => run P cfg' ms' := by
  induction ms generalizing cfg with
  | nil => rfl
  | cons m ms ih =>
    rw [List.cons_append, run, run, Option.bind_assoc]
    exact congrArg _ (funext fun cfg' => ih cfg')

theorem run_concat (h : run P cfg (ms ++ [m]) = some cfg'') :
    ∃ cfg', run P cfg ms = some cfg' ∧ step P cfg' m = some cfg'' := by
  rw [run_append] at h
  obtain ⟨cfg', hrun, hstep⟩ := Option.bind_eq_some_iff.mp h
  rw [run, Option.bind_eq_some_iff] at hstep
  obtain ⟨cfg₁, hstep, hend⟩ := hstep
  rw [run] at hend
  exact ⟨cfg', hrun, Option.some.inj hend ▸ hstep⟩

/-- **What holds at first and is kept by every move holds in every run.** -/
theorem run_induction (Inv : Config T S L C → Prop) (hstart : Inv cfg)
    (hstep : ∀ cfg₁ m cfg₂, Inv cfg₁ → Step P cfg₁ m cfg₂ → Inv cfg₂)
    (h : run P cfg ms = some cfg') : Inv cfg' := by
  induction ms generalizing cfg with
  | nil =>
    rw [run] at h
    exact Option.some.inj h ▸ hstart
  | cons m ms ih =>
    rw [run] at h
    obtain ⟨cfg₁, hm, hrest⟩ := Option.bind_eq_some_iff.mp h
    exact ih (hstep _ _ _ hstart (step_cases hm)) hrest

end Semantics

/-- How a thread stands after an instruction. -/
def Instr.status : Instr S L C → Status L C
  | .act l _ => .ready l
  | .lock l => .ready l
  | .unlock l => .ready l
  | .wait c l => .asleep c l
  | .signal _ l _ => .ready l
  | .broadcast _ l => .ready l

section History

variable [DecidableEq T] [DecidableEq C] {P : Program T I S L C} {cfg cfg' : Config T S L C}
  {m : Move T I} {t : T}

/-- **Where a thread that can go on was before**: there, or woken, or at the place it came from
by an instruction of its own. -/
theorem Step.ready_cases (hm : Step P cfg m cfg') {l' : L} (h : cfg'.status t = .ready l') :
    cfg.status t = .ready l' ∨ cfg.status t = .woken l' ∨
      ∃ input pick l instr, m = .run t input pick ∧ cfg.status t = .ready l ∧
        P t input cfg.shared l = some instr ∧ instr.status = .ready l' := by
  -- The mover gets to where its instruction leads; another thread does not become ready.
  have hself : ∀ {f : T → Status L C} {u : T} {input : I} {pick : Option T} {k : L}
      {instr : Instr S L C}, m = .run u input pick → cfg.status u = .ready k →
      P u input cfg.shared k = some instr → Function.update f u instr.status t = .ready l' →
      (∀ v, f v = .ready l' → cfg.status v = .ready l') →
      cfg.status t = .ready l' ∨ cfg.status t = .woken l' ∨
        ∃ input pick l instr, m = .run t input pick ∧ cfg.status t = .ready l ∧
          P t input cfg.shared l = some instr ∧ instr.status = .ready l' := by
    intro f u input pick k instr hmu hst hP hupd hf
    by_cases htu : t = u
    · subst htu
      rw [Function.update_self] at hupd
      exact .inr (.inr ⟨input, pick, k, instr, hmu, hst, hP, hupd⟩)
    · rw [Function.update_of_ne htu] at hupd
      exact .inl (hf t hupd)
  cases hm with
  | act hst hP => exact hself rfl hst hP h fun _ hv => hv
  | lock hst hP hfree => exact hself rfl hst hP h fun _ hv => hv
  | unlock hst hP => exact hself rfl hst hP h fun _ hv => hv
  | wait hst hP => exact hself rfl hst hP h fun _ hv => hv
  | lost hst hP hnone => exact hself rfl hst hP h fun _ hv => hv
  | @signal u input l c k s v n hst hP hv hne =>
    refine hself rfl hst hP h fun w hw => ?_
    by_cases hwv : w = v
    · subst hwv
      rw [Function.update_self] at hw
      cases hw
    · rwa [Function.update_of_ne hwv] at hw
  | @broadcast u input pick l c k hst hP =>
    refine hself (f := fun u => (cfg.status u).rouse c) rfl hst hP h fun w hw => ?_
    cases hstw : cfg.status w with
    | ready n =>
      rw [hstw] at hw
      exact hw
    | asleep d n =>
      rw [hstw, Status.rouse] at hw
      split at hw <;> cases hw
    | woken n =>
      rw [hstw] at hw
      cases hw
  | @resume u input pick l hst hfree =>
    by_cases htu : t = u
    · subst htu
      replace h : Function.update cfg.status t (.ready l) t = .ready l' := h
      rw [Function.update_self] at h
      cases h
      exact .inr (.inl hst)
    · replace h : Function.update cfg.status u (.ready l) t = .ready l' := h
      rw [Function.update_of_ne htu] at h
      exact .inl h
  | @spurious u c l hst =>
    replace h : Function.update cfg.status u (.woken l) t = .ready l' := h
    by_cases htu : t = u
    · subst htu
      rw [Function.update_self] at h
      cases h
    · rw [Function.update_of_ne htu] at h
      exact .inl h

/-- **Where a sleeper was before**: asleep, or about to wait. -/
theorem Step.asleep_cases (hm : Step P cfg m cfg') {c : C} {l' : L}
    (h : cfg'.status t = .asleep c l') :
    cfg.status t = .asleep c l' ∨
      ∃ input pick l, m = .run t input pick ∧ cfg.status t = .ready l ∧
        P t input cfg.shared l = some (.wait c l') := by
  have hother : ∀ {f : T → Status L C} {u : T} {k : L}, Function.update f u (.ready k) t =
      .asleep c l' → f t = .asleep c l' := by
    intro f u k hupd
    by_cases htu : t = u
    · subst htu
      rw [Function.update_self] at hupd
      cases hupd
    · rwa [Function.update_of_ne htu] at hupd
  cases hm with
  | act hst hP => exact .inl (hother h)
  | lock hst hP hfree => exact .inl (hother h)
  | unlock hst hP => exact .inl (hother h)
  | @wait u input pick l d k hst hP =>
    replace h : Function.update cfg.status u (.asleep d k) t = .asleep c l' := h
    by_cases htu : t = u
    · subst htu
      rw [Function.update_self] at h
      cases h
      exact .inr ⟨input, pick, l, rfl, hst, hP⟩
    · rw [Function.update_of_ne htu] at h
      exact .inl h
  | lost hst hP hnone => exact .inl (hother h)
  | @signal u input l d k s v n hst hP hv hne =>
    have h' := hother h
    by_cases htv : t = v
    · subst htv
      rw [Function.update_self] at h'
      cases h'
    · rw [Function.update_of_ne htv] at h'
      exact .inl h'
  | @broadcast u input pick l d k hst hP =>
    have h' : (cfg.status t).rouse d = .asleep c l' :=
      hother (f := fun u => (cfg.status u).rouse d) h
    cases hstt : cfg.status t with
    | ready n =>
      rw [hstt] at h'
      cases h'
    | asleep e n =>
      rw [hstt, Status.rouse] at h'
      split at h'
      · cases h'
      · exact .inl h'
    | woken n =>
      rw [hstt] at h'
      cases h'
  | resume hst hfree => exact .inl (hother h)
  | @spurious u d l hst =>
    replace h : Function.update cfg.status u (.woken l) t = .asleep c l' := h
    by_cases htu : t = u
    · subst htu
      rw [Function.update_self] at h
      cases h
    · rw [Function.update_of_ne htu] at h
      exact .inl h

/-- **Where a thread that could go on is afterwards**: there, or where an instruction of its
own has led it. -/
theorem Step.of_ready (hm : Step P cfg m cfg') {l : L} (h : cfg.status t = .ready l) :
    cfg'.status t = .ready l ∨ ∃ input pick instr, m = .run t input pick ∧
      P t input cfg.shared l = some instr ∧ cfg'.status t = instr.status := by
  have hself : ∀ {f : T → Status L C} {u : T} {input : I} {pick : Option T} {k : L}
      {instr : Instr S L C}, m = .run u input pick → cfg.status u = .ready k →
      P u input cfg.shared k = some instr → f t = .ready l →
      Function.update f u instr.status t = .ready l ∨ ∃ input pick instr',
        m = .run t input pick ∧ P t input cfg.shared l = some instr' ∧
          Function.update f u instr.status t = instr'.status := by
    intro f u input pick k instr hmu hst hP hf
    by_cases htu : t = u
    · subst htu
      cases hst.symm.trans h
      exact .inr ⟨input, pick, instr, hmu, hP, Function.update_self _ _ _⟩
    · rw [Function.update_of_ne htu]
      exact .inl hf
  cases hm with
  | act hst hP => exact hself rfl hst hP h
  | lock hst hP hfree => exact hself rfl hst hP h
  | unlock hst hP => exact hself rfl hst hP h
  | wait hst hP => exact hself rfl hst hP h
  | lost hst hP hnone => exact hself rfl hst hP h
  | @signal u input k c k' s v n hst hP hv hne =>
    refine hself rfl hst hP ?_
    rw [Function.update_of_ne, h]
    rintro rfl
    cases h.symm.trans hv
  | @broadcast u input pick k c k' hst hP =>
    refine hself (f := fun u => (cfg.status u).rouse c) rfl hst hP ?_
    rw [h]
    rfl
  | @resume u input pick k hst hfree =>
    refine .inl ((Function.update_of_ne ?_ _ _).trans h)
    rintro rfl
    cases h.symm.trans hst
  | @spurious u c k hst =>
    refine .inl ((Function.update_of_ne ?_ _ _).trans h)
    rintro rfl
    cases h.symm.trans hst

/-- **Only its own instructions take a thread to another place.** -/
theorem Step.pc_cases (hm : Step P cfg m cfg') :
    (cfg'.status t).pc = (cfg.status t).pc ∨ ∃ input pick l instr, m = .run t input pick ∧
      cfg.status t = .ready l ∧ P t input cfg.shared l = some instr ∧
        cfg'.status t = instr.status := by
  have hself : ∀ {f : T → Status L C} {u : T} {input : I} {pick : Option T} {k : L}
      {instr : Instr S L C}, m = .run u input pick → cfg.status u = .ready k →
      P u input cfg.shared k = some instr → (f t).pc = (cfg.status t).pc →
      (Function.update f u instr.status t).pc = (cfg.status t).pc ∨ ∃ input pick l instr',
        m = .run t input pick ∧ cfg.status t = .ready l ∧ P t input cfg.shared l = some instr' ∧
          Function.update f u instr.status t = instr'.status := by
    intro f u input pick k instr hmu hst hP hf
    by_cases htu : t = u
    · subst htu
      exact .inr ⟨input, pick, k, instr, hmu, hst, hP, Function.update_self _ _ _⟩
    · rw [Function.update_of_ne htu]
      exact .inl hf
  cases hm with
  | act hst hP => exact hself rfl hst hP rfl
  | lock hst hP hfree => exact hself rfl hst hP rfl
  | unlock hst hP => exact hself rfl hst hP rfl
  | wait hst hP => exact hself rfl hst hP rfl
  | lost hst hP hnone => exact hself rfl hst hP rfl
  | @signal u input k c k' s v n hst hP hv hne =>
    refine hself rfl hst hP ?_
    by_cases htv : t = v
    · subst htv
      rw [Function.update_self, hv]
      rfl
    · rw [Function.update_of_ne htv]
  | @broadcast u input pick k c k' hst hP =>
    exact hself (f := fun u => (cfg.status u).rouse c) rfl hst hP (Status.pc_rouse c _)
  | @resume u input pick k hst hfree =>
    change (Function.update cfg.status u (.ready k) t).pc = _ ∨ _
    by_cases htu : t = u
    · subst htu
      rw [Function.update_self, hst]
      exact .inl rfl
    · rw [Function.update_of_ne htu]
      exact .inl rfl
  | @spurious u c k hst =>
    change (Function.update cfg.status u (.woken k) t).pc = _ ∨ _
    by_cases htu : t = u
    · subst htu
      rw [Function.update_self, hst]
      exact .inl rfl
    · rw [Function.update_of_ne htu]
      exact .inl rfl

/-- **A sleeper sleeps on** unless it wakes up by itself or somebody wakes it. -/
theorem Step.of_asleep (hm : Step P cfg m cfg') {c : C} {l : L} (h : cfg.status t = .asleep c l) :
    cfg'.status t = .asleep c l ∨ m = .spurious t ∨
      ∃ u input pick k instr, m = .run u input pick ∧ cfg.status u = .ready k ∧
        P u input cfg.shared k = some instr ∧
        ((∃ k' s, instr = .signal c k' s) ∨ ∃ k', instr = .broadcast c k') := by
  have hother : ∀ {f : T → Status L C} {u : T} {st k : Status L C}, cfg.status u = k →
      (∀ c l, k ≠ .asleep c l) → f t = .asleep c l → Function.update f u st t = .asleep c l := by
    intro f u st k hst hk hf
    rw [Function.update_of_ne, hf]
    rintro rfl
    exact hk c l (hst.symm.trans h)
  cases hm with
  | act hst hP => exact .inl (hother hst (by simp) h)
  | lock hst hP hfree => exact .inl (hother hst (by simp) h)
  | unlock hst hP => exact .inl (hother hst (by simp) h)
  | wait hst hP => exact .inl (hother hst (by simp) h)
  | lost hst hP hnone => exact .inl (hother hst (by simp) h)
  | @signal u input k d k' s v n hst hP hv hne =>
    by_cases htv : t = v
    · subst htv
      cases h.symm.trans hv
      exact .inr (.inr ⟨u, input, _, k, _, rfl, hst, hP, .inl ⟨k', s, rfl⟩⟩)
    · refine .inl (hother hst (by simp) ?_)
      rw [Function.update_of_ne htv, h]
  | @broadcast u input pick k d k' hst hP =>
    by_cases hd : c = d
    · subst hd
      exact .inr (.inr ⟨u, input, pick, k, _, rfl, hst, hP, .inr ⟨k', rfl⟩⟩)
    · refine .inl (hother (f := fun u => (cfg.status u).rouse d) hst (by simp) ?_)
      rw [h]
      exact if_neg hd
  | resume hst hfree => exact .inl (hother hst (by simp) h)
  | @spurious u d k hst =>
    by_cases htu : t = u
    · subst htu
      exact .inr (.inl rfl)
    · exact .inl ((Function.update_of_ne htu _ _).trans h)

end History

/-! ### Mutual exclusion -/

/-- An instruction respects a marking of the places as inside and outside. -/
def Instr.Respects (holds : L → Bool) (l : L) : Instr S L C → Prop
  | .act l' _ => holds l' = holds l
  | .lock l' => holds l = false ∧ holds l' = true
  | .unlock l' => holds l = true ∧ holds l' = false
  | .wait _ l' => holds l = true ∧ holds l' = true
  | .signal _ l' _ => holds l' = holds l
  | .broadcast _ l' => holds l' = holds l

/-- Only locking leads inside, and only unlocking and waiting lead out. -/
def Disciplined (P : Program T I S L C) (holds : L → Bool) : Prop :=
  ∀ t input s l instr, P t input s l = some instr → instr.Respects holds l

/-- **Exactly the thread that has the mutex is inside**, and whoever sleeps or was woken goes
on inside. -/
structure Exclusive (holds : L → Bool) (cfg : Config T S L C) : Prop where
  inside_iff : ∀ t, (cfg.status t).inside holds = true ↔ cfg.mutex = some t
  away : ∀ t, (∀ l, cfg.status t ≠ .ready l) → holds (cfg.status t).pc = true

section Exclusion

variable {P : Program T I S L C} {holds : L → Bool} {cfg cfg' : Config T S L C} {m : Move T I}

/-- Two threads inside are one. -/
theorem Exclusive.eq_of_inside (h : Exclusive holds cfg) {t u : T}
    (ht : (cfg.status t).inside holds = true) (hu : (cfg.status u).inside holds = true) : t = u :=
  Option.some.inj (((h.inside_iff t).mp ht).symm.trans ((h.inside_iff u).mp hu))

/-- A move of one thread that leaves the mutex, and everybody's being inside, as they were. -/
theorem Exclusive.of_same (h : Exclusive holds cfg) {s : S} {status : T → Status L C}
    (hinside : ∀ u, (status u).inside holds = (cfg.status u).inside holds)
    (haway : ∀ u, (∀ l, status u ≠ .ready l) →
      (status u).pc = (cfg.status u).pc ∧ ∀ l, cfg.status u ≠ .ready l) :
    Exclusive holds ⟨cfg.mutex, s, status⟩ where
  inside_iff u := by rw [hinside, h.inside_iff]
  away u hu := by rw [(haway u hu).1, h.away u (haway u hu).2]

variable [DecidableEq T]

/-- A thread takes the mutex, which is free. -/
theorem Exclusive.of_lock (h : Exclusive holds cfg) (hfree : cfg.mutex = none) {t : T} {l : L}
    (hl : holds l = true) :
    Exclusive holds ⟨some t, cfg.shared, Function.update cfg.status t (.ready l)⟩ where
  inside_iff u := by
    by_cases hu : u = t
    · subst hu
      simp [Status.inside, hl]
    · have hout := h.inside_iff u
      rw [hfree] at hout
      change (Function.update cfg.status t (.ready l) u).inside holds = true ↔ some t = some u
      rw [Function.update_of_ne hu, hout]
      simp [Ne.symm hu]
  away u hu := by
    by_cases hut : u = t
    · subst hut
      exact absurd (Function.update_self _ _ _) (hu l)
    · simp only [Function.update_of_ne hut] at hu ⊢
      exact h.away u hu

/-- A thread that is inside gives the mutex back. -/
theorem Exclusive.of_unlock (h : Exclusive holds cfg) {t : T} {l : L} {st : Status L C}
    (hst : cfg.status t = .ready l) (hl : holds l = true) (hout : st.inside holds = false)
    (haway : (∀ l, st ≠ .ready l) → holds st.pc = true) :
    Exclusive holds ⟨none, cfg.shared, Function.update cfg.status t st⟩ where
  inside_iff u := by
    by_cases hu : u = t
    · subst hu
      simp [hout]
    · have ht : (cfg.status t).inside holds = true := by rw [hst, Status.inside, hl]
      have hnot : (cfg.status u).inside holds ≠ true := fun h' => hu (h.eq_of_inside h' ht)
      simp [hu, hnot]
  away u hu := by
    by_cases hut : u = t
    · subst hut
      simp only [Function.update_self] at hu ⊢
      exact haway hu
    · simp only [Function.update_of_ne hut] at hu ⊢
      exact h.away u hu

theorem inside_update_ready {f : T → Status L C} {t : T} {l l' : L} (hst : f t = .ready l)
    (hl : holds l' = holds l) (u : T) :
    (Function.update f t (.ready l') u).inside holds = (f u).inside holds := by
  by_cases hu : u = t
  · subst hu
    rw [Function.update_self, hst, Status.inside, Status.inside, hl]
  · rw [Function.update_of_ne hu]

variable [DecidableEq C]

/-- **One move keeps the threads exclusive.** -/
theorem exclusive_step (hP : Disciplined P holds) (h : Exclusive holds cfg)
    (hm : Step P cfg m cfg') : Exclusive holds cfg' := by
  -- A thread that is not ready after an update of another one was not ready before.
  have hkeep : ∀ {f : T → Status L C} {t : T} {l' : L} {u : T},
      (∀ l, Function.update f t (.ready l') u ≠ .ready l) →
        Function.update f t (.ready l') u = f u ∧ ∀ l, f u ≠ .ready l := by
    intro f t l' u hu
    by_cases hut : u = t
    · subst hut
      exact absurd (Function.update_self _ _ _) (hu l')
    · rw [Function.update_of_ne hut] at hu ⊢
      exact ⟨rfl, hu⟩
  cases hm with
  | act hst hi =>
    refine h.of_same (inside_update_ready hst (hP _ _ _ _ _ hi)) fun u hu => ?_
    obtain ⟨heq, hne⟩ := hkeep hu
    exact ⟨congrArg Status.pc heq, hne⟩
  | lock hst hi hfree => exact h.of_lock hfree (hP _ _ _ _ _ hi).2
  | unlock hst hi =>
    have hl := hP _ _ _ _ _ hi
    exact h.of_unlock hst hl.1 hl.2 fun hne => absurd rfl (hne _)
  | wait hst hi =>
    have hl := hP _ _ _ _ _ hi
    exact h.of_unlock hst hl.1 rfl fun _ => hl.2
  | lost hst hi hnone =>
    refine h.of_same (inside_update_ready hst (hP _ _ _ _ _ hi)) fun u hu => ?_
    obtain ⟨heq, hne⟩ := hkeep hu
    exact ⟨congrArg Status.pc heq, hne⟩
  | @signal t input l c l' s u m hst hi hu hne =>
    have hready : Function.update cfg.status u (.woken m) t = .ready l := by
      rw [Function.update_of_ne hne.symm, hst]
    refine h.of_same (fun v => ?_) fun v hv => ?_
    · rw [inside_update_ready hready (hP _ _ _ _ _ hi)]
      by_cases hvu : v = u
      · subst hvu
        rw [Function.update_self, hu]
        rfl
      · rw [Function.update_of_ne hvu]
    · obtain ⟨heq, hne'⟩ := hkeep hv
      rw [heq]
      by_cases hvu : v = u
      · subst hvu
        rw [Function.update_self, hu]
        exact ⟨rfl, fun l => by simp⟩
      · rw [Function.update_of_ne hvu] at hne' ⊢
        exact ⟨rfl, hne'⟩
  | @broadcast t input pick l c l' hst hi =>
    have hready : (fun u => (cfg.status u).rouse c) t = .ready l := by
      change (cfg.status t).rouse c = .ready l
      rw [hst]
      rfl
    refine h.of_same (fun v => ?_) fun v hv => ?_
    · exact (inside_update_ready (f := fun u => (cfg.status u).rouse c) hready
        (hP _ _ _ _ _ hi) v).trans (Status.inside_rouse holds c _)
    · obtain ⟨heq, hne⟩ := hkeep hv
      refine ⟨(congrArg Status.pc heq).trans (Status.pc_rouse c _), fun l' hl' => hne l' ?_⟩
      rw [hl']
      rfl
  | @resume t input pick l hst hfree =>
    refine h.of_lock hfree ?_
    have := h.away t (by simp [hst])
    rwa [hst] at this
  | @spurious t c l hst =>
    refine h.of_same (fun v => ?_) fun v hv => ?_
    · by_cases hvt : v = t
      · subst hvt
        rw [Function.update_self, hst]
        rfl
      · rw [Function.update_of_ne hvt]
    · by_cases hvt : v = t
      · subst hvt
        rw [Function.update_self, hst]
        exact ⟨rfl, fun l => by simp⟩
      · rw [Function.update_of_ne hvt] at hv ⊢
        exact ⟨rfl, hv⟩

end Exclusion

/-! ### Proof outlines -/

/-- What an instruction makes of the shared state. -/
def Instr.leaves (s : S) : Instr S L C → S
  | .act _ s' => s'
  | .lock _ => s
  | .unlock _ => s
  | .wait _ _ => s
  | .signal _ _ s' => s'
  | .broadcast _ _ => s

/-- **A proof outline**: what holds of the shared state at all times (`G`), and what holds as
long as a thread stands in some way (`A`). -/
structure Outline (P : Program T I S L C) (holds : L → Bool) (G : S → Prop)
    (A : T → Status L C → S → Prop) : Prop where
  /-- An instruction leads from one assertion of its thread to the next. -/
  next : ∀ t input s l instr, P t input s l = some instr → G s → A t (.ready l) s →
    G (instr.leaves s) ∧ A t instr.status (instr.leaves s)
  /-- It does not destroy the assertion of another thread, which is not inside when this
  one is. -/
  stable : ∀ t input s l instr u st, P t input s l = some instr → G s → A t (.ready l) s →
    u ≠ t → (st.inside holds = true → holds l = false) → A u st s → A u st (instr.leaves s)
  /-- What holds of a sleeper holds of one that was woken, -/
  waken : ∀ t c l s, A t (.asleep c l) s → A t (.woken l) s
  /-- and when it goes on. -/
  resume : ∀ t l s, A t (.woken l) s → A t (.ready l) s

/-- A proof outline holds in a configuration. -/
structure Outlined (G : S → Prop) (A : T → Status L C → S → Prop) (cfg : Config T S L C) :
    Prop where
  shared : G cfg.shared
  thread : ∀ t, A t (cfg.status t) cfg.shared

section Outlines

variable {P : Program T I S L C} {holds : L → Bool} {G : S → Prop}
  {A : T → Status L C → S → Prop} {cfg cfg' : Config T S L C} {m : Move T I}

/-- What an instruction of a thread that is ready leaves of the assertions. -/
theorem Outline.instr (hO : Outline P holds G A) (hex : Exclusive holds cfg)
    (h : Outlined G A cfg) {t : T} {input : I} {l : L} {instr : Instr S L C}
    (hst : cfg.status t = .ready l) (hi : P t input cfg.shared l = some instr) :
    G (instr.leaves cfg.shared) ∧ A t instr.status (instr.leaves cfg.shared) ∧
      ∀ u, u ≠ t → A u (cfg.status u) (instr.leaves cfg.shared) := by
  have ht : A t (.ready l) cfg.shared := hst ▸ h.thread t
  obtain ⟨hG, hA⟩ := hO.next _ _ _ _ _ hi h.shared ht
  refine ⟨hG, hA, fun u hu => hO.stable _ _ _ _ _ _ _ hi h.shared ht hu (fun hin => ?_)
    (h.thread u)⟩
  by_contra hl
  have hint : (cfg.status t).inside holds = true := by
    rw [hst]
    simpa [Status.inside] using hl
  exact hu (hex.eq_of_inside hin hint)

variable [DecidableEq T]

theorem outlined_update {s : S} {mutex : Option T} {f : T → Status L C} {t : T} {st : Status L C}
    (hG : G s) (ht : A t st s) (hu : ∀ u, u ≠ t → A u (f u) s) :
    Outlined G A ⟨mutex, s, Function.update f t st⟩ := by
  refine ⟨hG, fun u => ?_⟩
  by_cases hut : u = t
  · subst hut
    simpa using ht
  · simpa [hut] using hu u hut

variable [DecidableEq C]

/-- **One move keeps a proof outline.** -/
theorem outlined_step (hO : Outline P holds G A) (hex : Exclusive holds cfg)
    (h : Outlined G A cfg) (hm : Step P cfg m cfg') : Outlined G A cfg' := by
  cases hm with
  | act hst hi =>
    obtain ⟨hG, ht, hu⟩ := hO.instr hex h hst hi
    exact outlined_update hG ht hu
  | lock hst hi hfree =>
    obtain ⟨hG, ht, hu⟩ := hO.instr hex h hst hi
    exact outlined_update hG ht hu
  | unlock hst hi =>
    obtain ⟨hG, ht, hu⟩ := hO.instr hex h hst hi
    exact outlined_update hG ht hu
  | wait hst hi =>
    obtain ⟨hG, ht, hu⟩ := hO.instr hex h hst hi
    exact outlined_update hG ht hu
  | lost hst hi hnone =>
    obtain ⟨hG, ht, hu⟩ := hO.instr hex h hst hi
    exact outlined_update hG ht hu
  | @signal t input l c l' s u m hst hi hasleep hne =>
    obtain ⟨hG, ht, hu⟩ := hO.instr hex h hst hi
    refine outlined_update hG ht fun v hv => ?_
    by_cases hvu : v = u
    · subst hvu
      rw [Function.update_self]
      exact hO.waken _ c _ _ (hasleep ▸ hu v hv)
    · rw [Function.update_of_ne hvu]
      exact hu v hv
  | @broadcast t input pick l c l' hst hi =>
    obtain ⟨hG, ht, hu⟩ := hO.instr hex h hst hi
    refine outlined_update hG ht fun v hv => ?_
    have hA := hu v hv
    change A v ((cfg.status v).rouse c) cfg.shared
    cases hstv : cfg.status v with
    | ready k =>
      rw [hstv] at hA
      exact hA
    | asleep c' k =>
      rw [hstv] at hA
      rw [Status.rouse]
      split
      · exact hO.waken _ c' _ _ hA
      · exact hA
    | woken k =>
      rw [hstv] at hA
      exact hA
  | @resume t input pick l hst hfree =>
    exact outlined_update h.shared (hO.resume _ _ _ (hst ▸ h.thread t)) fun u _ => h.thread u
  | @spurious t c l hst =>
    exact outlined_update h.shared (hO.waken _ c _ _ (hst ▸ h.thread t)) fun u _ => h.thread u

variable [Fintype T]

/-- **A proof outline holds in every run**, and with it mutual exclusion. -/
theorem outline_run (hP : Disciplined P holds) (hO : Outline P holds G A)
    (hex : Exclusive holds cfg) (h : Outlined G A cfg) {ms : List (Move T I)}
    (hrun : run P cfg ms = some cfg') : Exclusive holds cfg' ∧ Outlined G A cfg' :=
  run_induction (fun c => Exclusive holds c ∧ Outlined G A c) ⟨hex, h⟩
    (fun _ _ _ hinv hm => ⟨exclusive_step hP hinv.1 hm, outlined_step hO hinv.1 hinv.2 hm⟩) hrun

end Outlines

/-! ### Counting threads -/

section Counting

variable [Fintype T]

/-- What the threads weigh together. -/
def total (f : Status L C → ℕ) (status : T → Status L C) : ℕ := ∑ t, f (status t)

/-- One thread changes. -/
theorem total_update [DecidableEq T] (f : Status L C → ℕ) (status : T → Status L C) (t : T)
    (st : Status L C) :
    total f (Function.update status t st) + f (status t) = total f status + f st := by
  have hothers : ∑ u ∈ Finset.univ.erase t, f (Function.update status t st u) =
      ∑ u ∈ Finset.univ.erase t, f (status u) :=
    Finset.sum_congr rfl fun u hu => by rw [Function.update_of_ne (Finset.ne_of_mem_erase hu)]
  rw [total, total, ← Finset.add_sum_erase _ _ (Finset.mem_univ t), hothers,
    Function.update_self, ← Finset.add_sum_erase _ _ (Finset.mem_univ t)]
  omega

/-- A thread that weighs something is among those that weigh together. -/
theorem total_mono {f : Status L C → ℕ} {status status' : T → Status L C}
    (h : ∀ t, f (status t) ≤ f (status' t)) : total f status ≤ total f status' :=
  Finset.sum_le_sum fun t _ => h t

end Counting

end Monitor
