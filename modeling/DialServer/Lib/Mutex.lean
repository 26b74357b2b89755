import Mathlib.Data.List.Basic

/-!
# What a thread does to a mutex

A mutex that is not recursive: locking it while it is held, and unlocking it while
it is not, have no meaning. `Mutex.exec` runs a sequence of operations from one
state of the mutex to another, and `Mutex.exec_false` says which sequences run
from free to free: those made of a lock and an unlock, over and over
(`Mutex.Paired`).

A thread is followed through a piece of code as a `Mutex.Script`: what it does, in
order, and how it ended if it did not get to the end of the piece. A script comes
with rules of pre- and postconditions, `Mutex.Triple`, where the condition is
whether the mutex is held; a script that does not get to its end promises nothing.
-/

namespace Mutex

/-- An operation on a mutex. -/
inductive Op
  | lock
  | unlock
  deriving DecidableEq

/-- What an operation makes of a mutex that is held or not; `none` where it has
no meaning. -/
def step : Bool → Op → Option Bool
  | false, .lock => some true
  | true, .unlock => some false
  | true, .lock => none
  | false, .unlock => none

/-- What a sequence of operations makes of a mutex. -/
def exec (held : Bool) : List Op → Option Bool
  | [] => some held
  | op :: ops => (step held op).bind fun held' => exec held' ops

theorem exec_append (held : Bool) (ops ops' : List Op) :
    exec held (ops ++ ops') = (exec held ops).bind fun held' => exec held' ops' := by
  induction ops generalizing held with
  | nil => rfl
  | cons op ops ih =>
    rw [List.cons_append, exec, exec, Option.bind_assoc]
    exact congrArg _ (funext fun held' => ih held')

/-- Matched pairs, one after the other and none inside another. -/
inductive Paired : List Op → Prop
  | nil : Paired []
  | pair {ops : List Op} : Paired ops → Paired (.lock :: .unlock :: ops)

/-- From free to free there is nothing, or a lock, its unlock and the same
again. -/
theorem paired_of_exec : ∀ {ops : List Op}, exec false ops = some false → Paired ops
  | [], _ => .nil
  | [.lock], h => absurd h (by simp [exec, step])
  | .unlock :: _, h => absurd h (by simp [exec, step])
  | .lock :: .lock :: _, h => absurd h (by simp [exec, step])
  | .lock :: .unlock :: _, h => .pair (paired_of_exec h)

/-- **A sequence runs from free to free exactly when it is made of matched pairs,
none inside another.** -/
theorem exec_false {ops : List Op} : exec false ops = some false ↔ Paired ops := by
  refine ⟨paired_of_exec, fun h => ?_⟩
  induction h with
  | nil => rfl
  | pair _ ih => exact ih

/-! ### Scripts -/

/-- A piece of code as one thread goes through it. -/
structure Script (A H : Type*) where
  /-- What the thread does, in order. -/
  acts : List A
  /-- How it ended, if it did not get to the end of the piece. -/
  halt : Option H

namespace Script

variable {A H : Type*}

/-- Nothing is done. -/
def done : Script A H := ⟨[], none⟩

/-- One thing is done. -/
def act (a : A) : Script A H := ⟨[a], none⟩

/-- The thread does not get further. -/
def die (h : H) : Script A H := ⟨[], some h⟩

/-- One piece after the other, if the first gets to its end. -/
def andThen (p q : Script A H) : Script A H :=
  match p.halt with
  | none => ⟨p.acts ++ q.acts, q.halt⟩
  | some _ => p

@[simp] theorem done_andThen (q : Script A H) : (done : Script A H).andThen q = q := rfl

@[simp] theorem act_andThen (a : A) (q : Script A H) :
    (act a).andThen q = ⟨a :: q.acts, q.halt⟩ := rfl

@[simp] theorem die_andThen (h : H) (q : Script A H) : (die h).andThen q = die h := rfl

end Script

/-! ### Rules -/

section Rules

variable {A H : Type*} (op : A → Option Op)

/-- **A script takes the mutex from one state to another**, if it gets to its
end. -/
def Triple (held : Bool) (p : Script A H) (held' : Bool) : Prop :=
  p.halt = none → exec held (p.acts.filterMap op) = some held'

variable {op} {held held' held'' : Bool} {p q : Script A H}

theorem triple_done : Triple op held (.done : Script A H) held := fun _ => rfl

theorem triple_die (h : H) : Triple op held (.die h : Script A H) held' :=
  fun hend => absurd hend (by simp [Script.die])

/-- What is no operation on the mutex leaves it as it is. -/
theorem triple_act {a : A} (h : op a = none) : Triple op held (.act a : Script A H) held := by
  intro _
  rw [Script.act, List.filterMap_cons_none h, List.filterMap_nil, exec]

theorem triple_lock {a : A} (h : op a = some .lock) :
    Triple op false (.act a : Script A H) true := by
  intro _
  rw [Script.act, List.filterMap_cons_some h, List.filterMap_nil]
  rfl

theorem triple_unlock {a : A} (h : op a = some .unlock) :
    Triple op true (.act a : Script A H) false := by
  intro _
  rw [Script.act, List.filterMap_cons_some h, List.filterMap_nil]
  rfl

theorem Triple.andThen (hp : Triple op held p held') (hq : Triple op held' q held'') :
    Triple op held (p.andThen q) held'' := by
  obtain ⟨acts, halt⟩ := p
  cases halt with
  | some h => exact fun hend => absurd hend (by simp [Script.andThen])
  | none =>
    intro hend
    rw [Script.andThen, List.filterMap_append, exec_append, hp rfl, Option.bind_some]
    exact hq hend

/-- The operations of a script that runs from free to free are paired. -/
theorem Triple.paired (hp : Triple op false p false) (hend : p.halt = none) :
    Paired (p.acts.filterMap op) :=
  exec_false.mp (hp hend)

end Rules

end Mutex
