import DialServer.PoolOutline

/-!
# No wakeup is missed

While the server runs, a worker sleeps only if every connection in the queue has a worker of
its own that is on its way to it, and the master sleeps only if the queue is full – then no
worker sleeps. So a connection that was accepted is served as soon as a worker is free.

Signals wake one thread each, and are lost when nobody sleeps; a worker that comes back from
a connection may take what another one was woken for. That is why the invariant counts the
workers on their way (`DialServer.Pool.onTheWay`) and not the signals.
-/

namespace DialServer

open Monitor

variable {α : Type} {s s' : Shared α} {t u : Who} {input : Input α} {l l' : Pc α} {c : Cond}

/-! ### What the threads do to each other -/

/-- The instructions that wait. -/
theorem pool_wait (h : pool t input s l = some (.wait c l')) :
    (∃ i, t = .worker i ∧ c = .sqFull ∧ l = .worker .consumeWait ∧ l' = .worker .consumeWhile) ∨
    (∃ sp, t = .master ∧ c = .sqEmpty ∧ l = .master (.produceWait sp) ∧
      l' = .master (.produceWhile sp)) ∨
    (t = .master ∧ c = .cond ∧ l = .master .joinWait ∧ l' = .master .joinWhile) := by
  replace h := pool_cases h
  obtain ⟨i, pc, rfl, rfl, h⟩ | ⟨pc, rfl, rfl, h⟩ | ⟨pc, rfl, rfl, h⟩ := h
  · revert h
    fun_cases workerThread i s pc <;> intro h <;> cases h
    exact .inl ⟨i, rfl, rfl, rfl, rfl⟩
  · revert h
    fun_cases masterThread input s pc <;> intro h <;> cases h
    · exact .inr (.inl ⟨_, rfl, rfl, rfl, rfl⟩)
    · exact .inr (.inr ⟨rfl, rfl, rfl, rfl⟩)
  · revert h
    fun_cases ownerThread input s pc <;> intro h <;> cases h

/-- The instructions that signal. -/
theorem pool_signal (h : pool t input s l = some (.signal c l' s')) :
    (∃ i, t = .worker i ∧ c = .sqEmpty ∧ l = .worker .consumeIf ∧ s.stopFlag = 0 ∧
      l' = .worker (.consumeReturn (some s.queue.front)) ∧ s' = s.consume) ∨
    (∃ i, t = .worker i ∧ c = .cond ∧ l = .worker .exitCount ∧ l' = .worker .exitUnlock ∧
      s' = { s with numThreads := s.numThreads - 1, live := s.live.erase i }) ∨
    (∃ sp, t = .master ∧ c = .sqFull ∧ l = .master (.produceStore sp) ∧
      l' = .master .produceReturn ∧ s' = s.produce sp) := by
  replace h := pool_cases h
  obtain ⟨i, pc, rfl, rfl, h⟩ | ⟨pc, rfl, rfl, h⟩ | ⟨pc, rfl, rfl, h⟩ := h
  · revert h
    fun_cases workerThread i s pc <;> intro h <;> cases h
    · rename_i h0
      exact .inl ⟨i, rfl, rfl, rfl, not_not.mp h0, rfl, rfl⟩
    · exact .inr (.inl ⟨i, rfl, rfl, rfl, rfl, rfl⟩)
  · revert h
    fun_cases masterThread input s pc <;> intro h <;> cases h
    exact .inr (.inr ⟨_, rfl, rfl, rfl, rfl, rfl⟩)
  · revert h
    fun_cases ownerThread input s pc <;> intro h <;> cases h

/-- The instruction that wakes everybody. -/
theorem pool_broadcast (h : pool t input s l = some (.broadcast c l')) :
    t = .master ∧ c = .sqFull ∧ l = .master .broadcasting ∧ l' = .master .joinLock := by
  replace h := pool_cases h
  obtain ⟨i, pc, rfl, rfl, h⟩ | ⟨pc, rfl, rfl, h⟩ | ⟨pc, rfl, rfl, h⟩ := h
  · revert h
    fun_cases workerThread i s pc <;> intro h <;> cases h
  · revert h
    fun_cases masterThread input s pc <;> intro h <;> cases h
    exact ⟨rfl, rfl, rfl, rfl⟩
  · revert h
    fun_cases ownerThread input s pc <;> intro h <;> cases h

/-- A move that is neither a signal nor a wait leaves the queue alone. -/
theorem pool_act_queue (h : pool t input s l = some (.act l' s')) : s'.queue = s.queue := by
  replace h := pool_cases h
  obtain ⟨i, pc, rfl, rfl, h⟩ | ⟨pc, rfl, rfl, h⟩ | ⟨pc, rfl, rfl, h⟩ := h
  · revert h
    fun_cases workerThread i s pc <;> intro h <;> cases h <;> rfl
  · revert h
    fun_cases masterThread input s pc <;> intro h <;> cases h <;> rfl
  · revert h
    fun_cases ownerThread input s pc <;> intro h <;> cases h <;> rfl

/-- It sets `num_threads` only while the server is being started, -/
theorem pool_act_numThreads (h : pool t input s l = some (.act l' s'))
    (hl : StandsAt t (.ready l) s) (h0 : s.stopFlag ≠ 0) : s'.numThreads = s.numThreads := by
  replace h := pool_cases h
  obtain ⟨i, pc, rfl, rfl, h⟩ | ⟨pc, rfl, rfl, h⟩ | ⟨pc, rfl, rfl, h⟩ := h
  · revert h
    fun_cases workerThread i s pc <;> intro h <;> cases h <;> rfl
  · revert h
    fun_cases masterThread input s pc <;> intro h <;> cases h <;> rfl
  · revert h
    fun_cases ownerThread input s pc <;> intro h <;> cases h <;> first | rfl | exact absurd hl.1 h0

/-- and it does not clear `stop_flag`. -/
theorem pool_act_stopFlag (h : pool t input s l = some (.act l' s')) (h0 : s'.stopFlag = 0) :
    s.stopFlag = 0 := by
  replace h := pool_cases h
  obtain ⟨i, pc, rfl, rfl, h⟩ | ⟨pc, rfl, rfl, h⟩ | ⟨pc, rfl, rfl, h⟩ := h
  · revert h
    fun_cases workerThread i s pc <;> intro h <;> cases h <;> exact h0
  · revert h
    fun_cases masterThread input s pc <;> intro h <;> cases h <;>
      first | exact h0 | exact absurd h0 two_ne_zero
  · revert h
    fun_cases ownerThread input s pc <;> intro h <;> cases h <;>
      first | exact h0 | exact absurd h0 Nat.one_ne_zero

/-! ### On the way to the queue -/

/-- A worker at this place looks at the queue before it does anything else, and does not go to
sleep unless the queue is empty then. -/
def WorkerPc.onTheWay : WorkerPc α → Bool
  | .loop => true
  | .consumeLock => true
  | .consumeWhile => true
  | .consumeIf => true
  | _ => false

/-- One for a worker that is on its way. -/
def onTheWay : Status (Pc α) Cond → ℕ
  | .ready (.worker pc) => pc.onTheWay.toNat
  | .woken (.worker _) => 1
  | _ => 0

/-- The number of workers on their way. -/
def Pool.onTheWay (p : Pool α) : ℕ := total DialServer.onTheWay p.status

/-- One for a master that may still put a connection into the queue without another look at
`stop_flag`. -/
def Pc.mayProduce : Pc α → ℕ
  | .master .accepting => 1
  | .master pc => pc.inHand.length
  | _ => 0

/-- Some worker sleeps. -/
def Pool.Sleeping (p : Pool α) : Prop := ∃ i l, p.status (.worker i) = .asleep .sqFull l

/-- **Who sleeps does so for a reason.** -/
structure Wakes (p : Pool α) : Prop where
  /-- The master sleeps on a full queue, -/
  full : ∀ l, p.status .master = .asleep .sqEmpty l → p.shared.queue.items.length = queueSize
  /-- or as long as there are workers. -/
  joining : ∀ l, p.status .master = .asleep .cond l → 0 < p.shared.numThreads
  /-- While the server runs, a worker sleeps only if others go to what is in the queue. -/
  served : p.shared.stopFlag = 0 → p.Sleeping → p.shared.queue.items.length ≤ p.onTheWay
  /-- Once it is being stopped, a worker sleeps only if there is not much in the queue. -/
  stopping : p.shared.stopFlag ≠ 0 → p.Sleeping →
    p.shared.queue.items.length + (p.status .master).pc.mayProduce ≤ numThreads

variable {p p' : Pool α} {m : Move Who (Input α)}

/-- What a worker does on its own brings it nearer to the queue, unless that is empty. -/
theorem onTheWay_act (h : pool t input s l = some (.act l' s')) (hs : s.Ok)
    (h0 : s'.stopFlag = 0) :
    onTheWay (.ready l) ≤ onTheWay (.ready l' : Status (Pc α) Cond) ∨ s.queue.items = [] := by
  have h0' := pool_act_stopFlag h h0
  replace h := pool_cases h
  obtain ⟨i, pc, rfl, rfl, h⟩ | ⟨pc, rfl, rfl, h⟩ | ⟨pc, rfl, rfl, h⟩ := h
  · cases pc with
    | loop =>
      rw [workerThread, if_pos h0'] at h
      cases h
      exact .inl le_rfl
    | consumeLock => cases Option.some.inj h
    | consumeWhile =>
      rw [workerThread] at h
      split at h <;> cases h
      · rename_i hidle
        exact .inr ((RingQueue.items_eq_nil hs.sound).mpr hidle.1)
      · exact .inl le_rfl
    | consumeIf =>
      rw [workerThread, if_neg (not_not.mpr h0')] at h
      cases h
    | _ => exact .inl (Nat.zero_le _)
  · exact .inl (Nat.zero_le _)
  · exact .inl (Nat.zero_le _)

/-- Neither does taking the mutex lead away from the queue, -/
theorem onTheWay_lock (h : pool t input s l = some (.lock l')) :
    onTheWay (.ready l) ≤ onTheWay (.ready l' : Status (Pc α) Cond) := by
  replace h := pool_cases h
  obtain ⟨i, pc, rfl, rfl, h⟩ | ⟨pc, rfl, rfl, h⟩ | ⟨pc, rfl, rfl, h⟩ := h
  · cases pc with
    | consumeLock =>
      cases Option.some.inj h
      exact le_rfl
    | loop =>
      rw [workerThread] at h
      split at h <;> cases h
    | consumeWhile =>
      rw [workerThread] at h
      split at h <;> cases h
    | consumeIf =>
      rw [workerThread] at h
      split at h <;> cases h
    | _ => exact Nat.zero_le _
  · exact Nat.zero_le _
  · exact Nat.zero_le _

/-- nor giving it back. -/
theorem onTheWay_unlock (h : pool t input s l = some (.unlock l')) :
    onTheWay (.ready l : Status (Pc α) Cond) = 0 := by
  replace h := pool_cases h
  obtain ⟨i, pc, rfl, rfl, h⟩ | ⟨pc, rfl, rfl, h⟩ | ⟨pc, rfl, rfl, h⟩ := h
  · cases pc with
    | consumeLock => cases Option.some.inj h
    | loop =>
      rw [workerThread] at h
      split at h <;> cases h
    | consumeWhile =>
      rw [workerThread] at h
      split at h <;> cases h
    | consumeIf =>
      rw [workerThread] at h
      split at h <;> cases h
    | _ => rfl
  · rfl
  · rfl

/-- Once the server is being stopped, the master gives up producing. -/
theorem mayProduce_next {instr : Instr (Shared α) (Pc α) Cond}
    (h : pool .master input s l = some instr) (h0 : s.stopFlag ≠ 0) :
    instr.status.pc.mayProduce ≤ l.mayProduce := by
  replace h := pool_master h
  obtain ⟨pc, rfl, h⟩ := h
  cases pc with
  | unstarted =>
    rw [masterThread] at h
    split at h <;> cases h
    exact le_rfl
  | loop =>
    rw [masterThread, if_neg h0] at h
    cases h
    exact le_rfl
  | accepting =>
    rw [masterThread] at h
    split at h <;> cases h
    · exact Nat.zero_le _
    · exact le_rfl
  | produceWhile sp =>
    rw [masterThread] at h
    split at h <;> cases h <;> exact le_rfl
  | produceStore sp =>
    obtain rfl := Option.some.inj h
    exact Nat.zero_le _
  | joinWhile =>
    rw [masterThread] at h
    split at h <;> cases h <;> exact le_rfl
  | exited => cases h
  | _ =>
    obtain rfl := Option.some.inj h
    exact le_rfl

theorem mayProduce_le (l : Pc α) : l.mayProduce ≤ 1 := by
  cases l with
  | worker pc => exact Nat.zero_le _
  | owner pc => exact Nat.zero_le _
  | master pc => cases pc <;> exact Nat.le_of_ble_eq_true rfl

/-! ### One move -/

theorem onTheWay_le_one (st : Status (Pc α) Cond) : onTheWay st ≤ 1 := by
  cases st with
  | ready l =>
    cases l with
    | worker pc => exact Bool.toNat_le _
    | master pc => exact Nat.zero_le _
    | owner pc => exact Nat.zero_le _
  | asleep c l => exact Nat.zero_le _
  | woken l =>
    cases l with
    | worker pc => exact le_rfl
    | master pc => exact Nat.zero_le _
    | owner pc => exact Nat.zero_le _

theorem onTheWay_master {st : Status (Pc α) Cond} (h : MasterAt st s) : onTheWay st = 0 := by
  obtain ⟨pc, hpc, -⟩ := h.pc
  cases st with
  | ready l =>
    cases hpc
    rfl
  | asleep c l => rfl
  | woken l =>
    cases hpc
    rfl

theorem onTheWay_owner {st : Status (Pc α) Cond} (h : OwnerAt st s) : onTheWay st = 0 := by
  obtain ⟨pc, rfl⟩ := h.eq_ready
  rfl

/-- With a worker asleep, not all are on their way. -/
theorem Pool.Sleeping.onTheWay_lt (h : p.Sleeping) (hO : Outlined Shared.Ok StandsAt p) :
    p.onTheWay < numThreads := by
  obtain ⟨i, l, hi⟩ := h
  have hle : ∀ t, DialServer.onTheWay (p.status t) ≤
      if t = .master ∨ t = .owner ∨ t = .worker i then 0 else 1 := by
    intro t
    have ht := hO.thread t
    split
    · rename_i hout
      obtain rfl | rfl | rfl := hout
      · exact (onTheWay_master ht).le
      · exact (onTheWay_owner ht).le
      · rw [hi]
        exact le_rfl
    · exact onTheWay_le_one _
  have hthree : ∀ i : Fin numThreads,
      ∑ t, (if t = Who.master ∨ t = .owner ∨ t = .worker i then 0 else 1) = 3 := by decide
  exact Nat.lt_succ_of_le ((Finset.sum_le_sum fun t _ => hle t).trans (hthree i).le)

theorem Pool.Sleeping.before (h : p'.Sleeping)
    (hsleep : ∀ t c l, p'.status t = .asleep c l → p.status t = .asleep c l) : p.Sleeping := by
  obtain ⟨i, l, hi⟩ := h
  exact ⟨i, l, hsleep _ _ _ hi⟩

/-- A move that leaves the queue alone and puts nobody to sleep. -/
theorem Wakes.of_calm (h : Wakes p) (hO : Outlined Shared.Ok StandsAt p)
    (hqueue : p'.shared.queue = p.shared.queue)
    (hstop : p'.shared.stopFlag = 0 ↔ p.shared.stopFlag = 0)
    (hnum : p.shared.stopFlag ≠ 0 → p'.shared.numThreads = p.shared.numThreads)
    (hsleep : ∀ t c l, p'.status t = .asleep c l → p.status t = .asleep c l)
    (hway : p'.shared.stopFlag = 0 →
      p.onTheWay ≤ p'.onTheWay ∨ p.shared.queue.items = [])
    (hprod : p.shared.stopFlag ≠ 0 →
      (p'.status .master).pc.mayProduce ≤ (p.status .master).pc.mayProduce) : Wakes p' := by
  have hsleeping : p'.Sleeping → p.Sleeping := fun hs => hs.before hsleep
  refine ⟨fun l hl => ?_, fun l hl => ?_, fun h0 hs => ?_, fun h0 hs => ?_⟩
  · rw [hqueue]
    exact h.full l (hsleep _ _ _ hl)
  · have hl' := hsleep _ _ _ hl
    have hA := hO.thread .master
    rw [hl'] at hA
    obtain ⟨i, hi, -⟩ | ⟨sp, -, hc, -⟩ | ⟨-, -, rfl⟩ := asleep_cases hA
    · exact absurd hi (by simp)
    · exact absurd hc (by simp)
    · have hhere : MasterPc.joinWhile.Asserts p.shared := hA
      rw [hnum hhere.here]
      exact h.joining _ hl'
  · rw [hqueue]
    rcases hway h0 with hle | hempty
    · exact (h.served (hstop.mp h0) (hsleeping hs)).trans hle
    · rw [hempty]
      exact Nat.zero_le _
  · rw [hqueue]
    have h0' : p.shared.stopFlag ≠ 0 := fun h' => h0 (hstop.mpr h')
    exact (Nat.add_le_add_left (hprod h0') _).trans (h.stopping h0' (hsleeping hs))

/-- Nobody falls asleep when a thread goes on. -/
theorem asleep_of_update {f : Who → Status (Pc α) Cond} (t : Who) (l : Pc α) {u : Who} {c : Cond}
    {k : Pc α} (h : Function.update f t (.ready l) u = .asleep c k) :
    f u = .asleep c k ∧ u ≠ t := by
  by_cases hu : u = t
  · subst hu
    rw [Function.update_self] at h
    cases h
  · rw [Function.update_of_ne hu] at h
    exact ⟨h, hu⟩

/-- A thread that goes on does not lead away from the queue. -/
theorem onTheWay_le_update {f : Who → Status (Pc α) Cond} {t : Who} {st : Status (Pc α) Cond}
    (h : onTheWay (f t) ≤ onTheWay st) :
    total onTheWay f ≤ total onTheWay (Function.update f t st) := by
  have := total_update onTheWay f t st
  omega

theorem mayProduce_update {f : Who → Status (Pc α) Cond} {t : Who} {st : Status (Pc α) Cond}
    (h : t = .master → st.pc.mayProduce ≤ (f t).pc.mayProduce) :
    (Function.update f t st .master).pc.mayProduce ≤ (f .master).pc.mayProduce := by
  by_cases ht : t = .master
  · subst ht
    rw [Function.update_self]
    exact h rfl
  · rw [Function.update_of_ne (Ne.symm ht)]

/-- The server is being stopped: this is the last time that `DialServer.Wakes.served` is of
use. -/
theorem Wakes.of_stop (h : Wakes p) (hO : Outlined Shared.Ok StandsAt p)
    (hqueue : p'.shared.queue = p.shared.queue) (h0 : p.shared.stopFlag = 0)
    (h0' : p'.shared.stopFlag ≠ 0)
    (hsleep : ∀ t c l, p'.status t = .asleep c l → p.status t = .asleep c l) : Wakes p' := by
  have hsleeping : p'.Sleeping → p.Sleeping := fun hs => hs.before hsleep
  refine ⟨fun l hl => ?_, fun l hl => ?_, fun h0'' => absurd h0'' h0', fun _ hs => ?_⟩
  · rw [hqueue]
    exact h.full l (hsleep _ _ _ hl)
  · have hl' := hsleep _ _ _ hl
    have hA := hO.thread .master
    rw [hl'] at hA
    obtain ⟨i, hi, -⟩ | ⟨sp, -, hc, -⟩ | ⟨-, -, rfl⟩ := asleep_cases hA
    · exact absurd hi (by simp)
    · exact absurd hc (by simp)
    · have hhere : MasterPc.joinWhile.Asserts p.shared := hA
      exact absurd h0 hhere.here
  · have hs' := hsleeping hs
    have hlt := hs'.onTheWay_lt hO
    have hle := h.served h0 hs'
    have hone := mayProduce_le (p'.status .master).pc
    rw [hqueue]
    omega

/-- A worker takes a connection out of the queue, and the master does not sleep on. -/
theorem Wakes.of_consume (h : Wakes p) (hO : Outlined Shared.Ok StandsAt p)
    (hne : p.shared.queue.items ≠ []) (h0 : p.shared.stopFlag = 0)
    (hshared : p'.shared = p.shared.consume)
    (hsleep : ∀ t c l, p'.status t = .asleep c l → p.status t = .asleep c l)
    (hmaster : ∀ l, p'.status .master ≠ .asleep .sqEmpty l)
    (hway : p'.onTheWay + 1 = p.onTheWay) : Wakes p' := by
  have hsleeping : p'.Sleeping → p.Sleeping := fun hs => hs.before hsleep
  refine ⟨fun l hl => absurd hl (hmaster l), fun l hl => ?_, fun _ hs => ?_, fun h0' => ?_⟩
  · rw [hshared]
    exact h.joining l (hsleep _ _ _ hl)
  · have hlen := congrArg List.length (hO.shared.items_consume hne)
    have hle := h.served h0 (hsleeping hs)
    rw [List.length_cons] at hlen
    rw [hshared]
    omega
  · rw [hshared] at h0'
    exact absurd h0 h0'

/-- A worker signs off, and the master does not sleep on. -/
theorem Wakes.of_signOff (h : Wakes p) (h0 : p.shared.stopFlag ≠ 0)
    (hqueue : p'.shared.queue = p.shared.queue)
    (hstop : p'.shared.stopFlag = p.shared.stopFlag)
    (hsleep : ∀ t c l, p'.status t = .asleep c l → p.status t = .asleep c l)
    (hmaster : ∀ l, p'.status .master ≠ .asleep .cond l)
    (hprod : (p'.status .master).pc.mayProduce ≤ (p.status .master).pc.mayProduce) : Wakes p' := by
  have hsleeping : p'.Sleeping → p.Sleeping := fun hs => hs.before hsleep
  refine ⟨fun l hl => ?_, fun l hl => absurd hl (hmaster l),
    fun h0' => absurd (hstop.symm.trans h0') h0, fun _ hs => ?_⟩
  · rw [hqueue]
    exact h.full l (hsleep _ _ _ hl)
  · rw [hqueue]
    exact (Nat.add_le_add_left hprod _).trans (h.stopping h0 (hsleeping hs))

/-- The master puts a connection into the queue, and wakes a worker if one sleeps. -/
theorem Wakes.of_produce (h : Wakes p) (hO : Outlined Shared.Ok StandsAt p) {sp : α}
    (hst : p.status .master = .ready (.master (.produceStore sp)))
    (hst' : p'.status .master = .ready (.master .produceReturn))
    (hshared : p'.shared = p.shared.produce sp)
    (hsleep : ∀ t c l, p'.status t = .asleep c l → p.status t = .asleep c l)
    (hway : p'.Sleeping → p'.onTheWay = p.onTheWay + 1) : Wakes p' := by
  have hA := hO.thread .master
  rw [hst] at hA
  have hroom : p.shared.queue.items.length < queueSize := MasterPc.Asserts.here hA
  have hlen : p'.shared.queue.items.length = p.shared.queue.items.length + 1 := by
    rw [hshared, hO.shared.items_produce hroom, List.length_append, List.length_singleton]
  have hsleeping : p'.Sleeping → p.Sleeping := fun hs => hs.before hsleep
  refine ⟨fun l hl => ?_, fun l hl => ?_, fun h0 hs => ?_, fun h0 hs => ?_⟩
  · rw [hst'] at hl
    cases hl
  · rw [hst'] at hl
    cases hl
  · rw [hshared] at h0
    rw [hlen, hway hs]
    exact Nat.succ_le_succ (h.served h0 (hsleeping hs))
  · rw [hshared] at h0
    have hle := h.stopping h0 (hsleeping hs)
    rw [hst] at hle
    rw [hlen, hst']
    exact hle

/-- A thread goes to sleep. -/
theorem Wakes.of_wait (h : Wakes p) (hO : Outlined Shared.Ok StandsAt p) {t : Who}
    {input : Input α} {l l' : Pc α} {c : Cond} (hst : p.status t = .ready l)
    (hP : pool t input p.shared l = some (.wait c l')) :
    Wakes (⟨none, p.shared, Function.update p.status t (.asleep c l')⟩ : Pool α) := by
  have hA := hO.thread t
  rw [hst] at hA
  obtain ⟨i, rfl, rfl, rfl, rfl⟩ | ⟨sp, rfl, rfl, rfl, rfl⟩ | ⟨rfl, rfl, rfl, rfl⟩ := pool_wait hP
  · -- A worker goes to sleep on an empty queue.
    have hempty : p.shared.queue.items = [] := And.right hA
    refine ⟨fun l hl => h.full l hl, fun l hl => h.joining l hl, fun _ _ => ?_, fun _ _ => ?_⟩
    · change p.shared.queue.items.length ≤ _
      rw [hempty]
      exact Nat.zero_le _
    · change p.shared.queue.items.length + (p.status .master).pc.mayProduce ≤ _
      rw [hempty]
      exact (Nat.zero_add _).le.trans ((mayProduce_le _).trans (show 1 ≤ numThreads by decide))
  · have hfull : p.shared.queue.items.length = queueSize := MasterPc.Asserts.here hA
    have htotal : total onTheWay p.status ≤ total onTheWay (Function.update p.status .master
        (.asleep .sqEmpty (.master (.produceWhile sp)))) :=
      onTheWay_le_update (by rw [hst]; exact le_rfl)
    refine ⟨fun _ _ => hfull, fun l hl => ?_, fun h0 hs => ?_, fun h0 hs => ?_⟩
    · simp at hl
    · exact (h.served h0 hs).trans htotal
    · have hle := h.stopping h0 hs
      rw [hst] at hle
      exact hle
  · have hpos : p.shared.stopFlag ≠ 0 ∧ 0 < p.shared.numThreads := MasterPc.Asserts.here hA
    refine ⟨fun l hl => ?_, fun _ _ => hpos.2, fun h0 => absurd h0 hpos.1, fun h0 hs => ?_⟩
    · simp at hl
    · have hle := h.stopping h0 hs
      rw [hst] at hle
      exact hle

/-- **One move keeps the reasons for sleeping.** -/
theorem wakes_step (hO : Outlined Shared.Ok StandsAt p) (h : Wakes p) (hm : Step pool p m p') :
    Wakes p' := by
  cases hm with
  | @act t input pick l l' s hst hP =>
    have hA := hO.thread t
    rw [hst] at hA
    have hsleep : ∀ u c k, Function.update p.status t (.ready l') u = .asleep c k →
        p.status u = .asleep c k := fun u c k hk => (asleep_of_update t l' hk).1
    by_cases hspecial : p.shared.stopFlag = 0 ∧ s.stopFlag ≠ 0
    · exact h.of_stop hO (pool_act_queue hP) hspecial.1 hspecial.2 hsleep
    · refine h.of_calm hO (pool_act_queue hP) ⟨fun h0 => pool_act_stopFlag hP h0, fun h0 => ?_⟩
        (pool_act_numThreads hP hA) hsleep (fun h0 => ?_) fun h0 => ?_
      · by_contra hne
        exact hspecial ⟨h0, hne⟩
      · refine (onTheWay_act hP hO.shared h0).imp_left fun hle => onTheWay_le_update ?_
        rw [hst]
        exact hle
      · refine mayProduce_update fun ht => ?_
        subst ht
        rw [hst]
        exact mayProduce_next hP h0
  | @lock t input pick l l' hst hP hfree =>
    refine h.of_calm hO rfl Iff.rfl (fun _ => rfl) (fun u c k hk => (asleep_of_update t l' hk).1)
      (fun h0 => .inl (onTheWay_le_update ?_)) fun h0 => mayProduce_update fun ht => ?_
    · rw [hst]
      exact onTheWay_lock hP
    · subst ht
      rw [hst]
      exact mayProduce_next hP h0
  | @unlock t input pick l l' hst hP =>
    refine h.of_calm hO rfl Iff.rfl (fun _ => rfl) (fun u c k hk => (asleep_of_update t l' hk).1)
      (fun h0 => .inl (onTheWay_le_update ?_)) fun h0 => mayProduce_update fun ht => ?_
    · rw [hst, onTheWay_unlock hP]
      exact Nat.zero_le _
    · subst ht
      rw [hst]
      exact mayProduce_next hP h0
  | wait hst hP => exact h.of_wait hO hst hP
  | @lost t input l c l' s hst hP hnone =>
    have hA := hO.thread t
    rw [hst] at hA
    have hsleep : ∀ u c k, Function.update p.status t (.ready l') u = .asleep c k →
        p.status u = .asleep c k := fun u c k hk => (asleep_of_update t l' hk).1
    have htotal := total_update onTheWay p.status t (.ready l')
    rw [hst] at htotal
    obtain ⟨i, rfl, rfl, rfl, h0, rfl, rfl⟩ | ⟨i, rfl, rfl, rfl, rfl, rfl⟩ |
      ⟨sp, rfl, rfl, rfl, rfl, rfl⟩ := pool_signal hP
    · have hne : p.shared.queue.items ≠ [] := (And.right hA).resolve_right (not_not.mpr h0)
      refine h.of_consume hO hne h0 rfl hsleep (fun k hk => hnone .master ?_) htotal
      rw [hsleep _ _ _ hk]
      rfl
    · refine h.of_signOff (And.right hA) rfl rfl hsleep (fun k hk => hnone .master ?_) le_rfl
      rw [hsleep _ _ _ hk]
      rfl
    · refine h.of_produce hO hst rfl rfl hsleep fun hs => ?_
      obtain ⟨i, k, hk⟩ := hs
      refine absurd ?_ (hnone (.worker i))
      rw [hsleep _ _ _ hk]
      rfl
  | @signal t input l c l' s u k hst hP hu hne =>
    have hA := hO.thread t
    rw [hst] at hA
    have hAu := hO.thread u
    rw [hu] at hAu
    have hut : Function.update p.status u (.woken k) t = .ready l := by
      rw [Function.update_of_ne hne.symm, hst]
    have hsleep : ∀ v d n, Function.update (Function.update p.status u (.woken k)) t (.ready l') v =
        .asleep d n → p.status v = .asleep d n ∧ v ≠ u := by
      intro v d n hv
      have hv' := (asleep_of_update t l' hv).1
      by_cases hvu : v = u
      · subst hvu
        rw [Function.update_self] at hv'
        cases hv'
      · rw [Function.update_of_ne hvu] at hv'
        exact ⟨hv', hvu⟩
    have htotal := total_update onTheWay (Function.update p.status u (.woken k)) t (.ready l')
    have htotal' := total_update onTheWay p.status u (.woken k)
    rw [hut] at htotal
    rw [hu] at htotal'
    obtain ⟨i, rfl, rfl, rfl, h0, rfl, rfl⟩ | ⟨i, rfl, rfl, rfl, rfl, rfl⟩ |
      ⟨sp, rfl, rfl, rfl, rfl, rfl⟩ := pool_signal hP
    · obtain ⟨j, -, hc, -⟩ | ⟨sp, rfl, -, rfl⟩ | ⟨-, hc, -⟩ := asleep_cases hAu
      · cases hc
      · have hne : p.shared.queue.items ≠ [] := (And.right hA).resolve_right (not_not.mpr h0)
        refine h.of_consume hO hne h0 rfl (fun v d n hv => (hsleep v d n hv).1)
          (fun n hn => (hsleep _ _ _ hn).2 rfl) ?_
        exact htotal.trans htotal'
      · cases hc
    · obtain ⟨j, -, hc, -⟩ | ⟨sp, -, hc, -⟩ | ⟨rfl, -, rfl⟩ := asleep_cases hAu
      · cases hc
      · cases hc
      · refine h.of_signOff (And.right hA) rfl rfl (fun v d n hv => (hsleep v d n hv).1)
          (fun n hn => (hsleep _ _ _ hn).2 rfl) ?_
        rw [hu]
        exact le_rfl
    · obtain ⟨j, rfl, -, rfl⟩ | ⟨sp, -, hc, -⟩ | ⟨-, hc, -⟩ := asleep_cases hAu
      · refine h.of_produce hO hst rfl rfl (fun v d n hv => (hsleep v d n hv).1)
          fun _ => ?_
        exact htotal.trans htotal'
      · cases hc
      · cases hc
  | @broadcast t input pick l c l' hst hP =>
    have hA := hO.thread t
    rw [hst] at hA
    obtain ⟨rfl, rfl, rfl, rfl⟩ := pool_broadcast hP
    have h0 : p.shared.stopFlag ≠ 0 := MasterPc.Asserts.here hA
    refine h.of_calm hO rfl Iff.rfl (fun _ => rfl) (fun u c k hk => ?_) (fun h0' => absurd h0' h0)
      fun _ => ?_
    · have hrouse : (p.status u).rouse .sqFull = .asleep c k :=
        (asleep_of_update (f := fun u => (p.status u).rouse .sqFull) .master (.master .joinLock)
          hk).1
      cases hu : p.status u with
      | ready n => rw [hu] at hrouse; cases hrouse
      | asleep d n =>
        rw [hu, Status.rouse] at hrouse
        split at hrouse
        · cases hrouse
        · exact hrouse
      | woken n => rw [hu] at hrouse; cases hrouse
    · exact Nat.zero_le _
  | @resume t input pick l hst hfree =>
    refine h.of_calm hO rfl Iff.rfl (fun _ => rfl) (fun u c k hk => (asleep_of_update t l hk).1)
      (fun _ => .inl (onTheWay_le_update ?_)) fun _ => mayProduce_update fun _ => ?_
    · have hA := hO.thread t
      rw [hst] at hA ⊢
      obtain ⟨i, rfl, rfl⟩ | ⟨sp, rfl, rfl⟩ | ⟨rfl, rfl⟩ := woken_cases hA
      · exact le_rfl
      · exact le_rfl
      · exact le_rfl
    · rw [hst]
      exact le_rfl
  | @spurious t c l hst =>
    refine h.of_calm hO rfl Iff.rfl (fun _ => rfl) (fun u d k hk => ?_)
      (fun _ => .inl (onTheWay_le_update ?_)) fun _ => mayProduce_update fun _ => ?_
    · replace hk : Function.update p.status t (.woken l) u = .asleep d k := hk
      by_cases hu : u = t
      · subst hu
        rw [Function.update_self] at hk
        cases hk
      · rwa [Function.update_of_ne hu] at hk
    · rw [hst]
      exact Nat.zero_le _
    · rw [hst]
      exact le_rfl

/-! ### Every run -/

variable {zero : α} {moves : List (Move Who (Input α))}

theorem wakes_start (zero : α) : Wakes (Pool.start zero) where
  full l hl := by cases hl
  joining l hl := by cases hl
  served _ hs := by
    obtain ⟨i, l, hi⟩ := hs
    cases hi
  stopping _ hs := by
    obtain ⟨i, l, hi⟩ := hs
    cases hi

theorem wakes_after (h : Pool.after zero moves = some p) : Wakes p := by
  have hall : p.Proper ∧ Wakes p :=
    run_induction (fun p : Pool α => p.Proper ∧ Wakes p) ⟨proper_start zero, wakes_start zero⟩
      (fun _ _ _ hinv hm => ⟨hinv.1.step hm, wakes_step hinv.1.outlined hinv.2 hm⟩) h
  exact hall.2

/-- The connection the master has accepted and not yet put into the queue. -/
def Pool.inHand (p : Pool α) : List α :=
  match (p.status .master).pc with
  | .master pc => pc.inHand
  | _ => []

/-- **No connection is lost, served twice or overtaken.** Whatever the threads do in whatever
order, the connections accepted are those that workers took, in the order in which they took
them, and then those in the queue, and then the one the master is about to put there; and the
counters of the queue stay within twice its length. -/
theorem pool_fifo (h : Pool.after zero moves = some p) :
    p.shared.accepted = p.shared.taken ++ p.shared.queue.items ++ p.inHand ∧
      p.shared.queue.items.length ≤ queueSize ∧ p.shared.queue.tail ≤ queueSize ∧
      p.shared.queue.tail ≤ p.shared.queue.head ∧ p.shared.queue.head ≤ 2 * queueSize := by
  have hO := (proper_after h).outlined
  have hs := hO.shared
  have hmaster : p.shared.accepted = p.shared.stored ++ p.inHand := by
    have hA : MasterAt (p.status .master) p.shared := hO.thread .master
    obtain ⟨pc, hpc, hpcA⟩ := hA.pc
    rw [Pool.inHand, hpc]
    exact hpcA.inHand
  have hfits := hs.sound.fits
  have htail := hs.tail_le
  refine ⟨by rw [hmaster, hs.stored], ?_, htail, hs.sound.tail_le, by omega⟩
  rw [RingQueue.length_items]
  omega

/-- A thread goes on; what it tries succeeds, but no connection comes in. -/
def goesOn (t : Who) : Move Who (Input ℕ) := .run t ⟨none, true⟩ none

/-- The master and a worker are started, the worker falls asleep, and a connection comes in for
which it is woken. -/
def wakeupMoves : List (Move Who (Input ℕ)) :=
  [goesOn .owner, goesOn .owner, goesOn .owner, goesOn .owner, goesOn .master, goesOn .master,
    .run .master ⟨some 7, true⟩ none, goesOn (.worker 0), goesOn (.worker 0),
    goesOn (.worker 0), goesOn (.worker 0), goesOn (.worker 0), goesOn .master, goesOn .master,
    .run .master ⟨none, true⟩ (some (.worker 0))]

theorem pool_fifo_wakeup : ∃ p, Pool.after 0 wakeupMoves = some p ∧ p.shared.accepted = [7] ∧
    p.shared.taken = [] ∧ p.status (.worker 0) = .woken (.worker .consumeWhile) ∧
    p.shared.accepted = p.shared.taken ++ p.shared.queue.items ++ p.inHand :=
  ⟨_, rfl, rfl, rfl, rfl, (pool_fifo (show Pool.after 0 wakeupMoves = some _ from rfl)).1⟩

/-- **No wakeup is missed while the server runs.** If a worker sleeps, every connection in the
queue has a worker of its own that is on its way to the queue; and if the master sleeps, the
queue is full and no worker sleeps. -/
theorem no_wakeup_missed (h : Pool.after zero moves = some p) :
    (p.shared.stopFlag = 0 → p.Sleeping → p.shared.queue.items.length ≤ p.onTheWay) ∧
      ∀ l, p.status .master = .asleep .sqEmpty l →
        p.shared.queue.items.length = queueSize ∧ ¬p.Sleeping := by
  have hO := (proper_after h).outlined
  have hw := wakes_after h
  refine ⟨hw.served, fun l hl => ⟨hw.full l hl, fun hs => ?_⟩⟩
  have hfull := hw.full l hl
  have hlt := hs.onTheWay_lt hO
  have hsize : numThreads < queueSize := by decide
  by_cases h0 : p.shared.stopFlag = 0
  · have := hw.served h0 hs
    omega
  · have := hw.stopping h0 hs
    omega

/-- Two workers are started and fall asleep, and one of them is woken for a connection. -/
def queuedMoves : List (Move Who (Input ℕ)) :=
  [goesOn .owner, goesOn .owner, goesOn .owner, goesOn .owner, goesOn .owner, goesOn .owner,
    goesOn .owner] ++
  [goesOn (.worker 0), goesOn (.worker 0), goesOn (.worker 0), goesOn (.worker 0),
    goesOn (.worker 0)] ++
  [goesOn (.worker 1), goesOn (.worker 1), goesOn (.worker 1), goesOn (.worker 1),
    goesOn (.worker 1)] ++
  [goesOn .master, goesOn .master, .run .master ⟨some 7, true⟩ none, goesOn .master,
    goesOn .master, .run .master ⟨none, true⟩ (some (.worker 0))]

/-- The other sleeps while the connection is in the queue. -/
theorem no_wakeup_missed_asleep : ∃ p, Pool.after 0 queuedMoves = some p ∧
    p.status (.worker 1) = .asleep .sqFull (.worker .consumeWhile) ∧
    p.shared.queue.items = [7] ∧ p.shared.queue.items.length ≤ p.onTheWay :=
  ⟨_, rfl, rfl, rfl, (no_wakeup_missed
    (show Pool.after 0 queuedMoves = some _ from rfl)).1 rfl ⟨1, _, rfl⟩⟩

end DialServer
