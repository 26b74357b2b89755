import DialServer.Lib.Monitor
import DialServer.Lib.RingQueue
import Mathlib.Data.Finset.Card
import Mathlib.Data.Fintype.Sum
import Mathlib.Tactic.DeriveFintype

/-!
# The threads of the HTTP layer

`mongoose.cpp` accepts connections in one thread, hands them over through a queue of twenty
sockets and serves them in four worker threads; the thread that called `mg_start` stops them
again with `mg_stop`. They share one mutex and three condition variables, and a `stop_flag`
that is read and written without the mutex.

Here the four functions are programs of `DialServer.Lib.Monitor`, one place for each point
where another thread may come between: each operation on the mutex and on a condition
variable, each look at `stop_flag`, and each change of what is shared. What `accept` and
`pthread_create` give is input. `DialServer.Shared` also keeps a history: the connections in
the order in which they were accepted, put into the queue, and taken out of it.
-/

namespace DialServer

open Monitor

/-- `NUM_THREADS`. -/
abbrev numThreads : ℕ := 4

/-- The length of the array `queue`. -/
abbrev queueSize : ℕ := 20

instance : NeZero numThreads := ⟨by decide⟩

instance : NeZero queueSize := ⟨by decide⟩

/-- The threads: the one that accepts, the workers, and the one that called `mg_start`. -/
inductive Who
  | master
  | worker (i : Fin numThreads)
  | owner
  deriving DecidableEq, Fintype

/-- The condition variables of `mg_context`. -/
inductive Cond
  /-- `sq_full`: a socket was produced. -/
  | sqFull
  /-- `sq_empty`: a socket was consumed. -/
  | sqEmpty
  /-- `cond`: a worker terminated. -/
  | cond
  deriving DecidableEq

/-- Where a worker is, in `worker_thread` and in `consume_socket`. -/
inductive WorkerPc (α : Type)
  /-- The thread was not created yet. -/
  | unstarted
  /-- `while (ctx->stop_flag == 0 && ..)` in `worker_thread`. -/
  | loop
  /-- `.. && consume_socket(ctx, &conn->client)`, which takes the mutex. -/
  | consumeLock
  /-- The condition of the loop that waits for a socket. -/
  | consumeWhile
  /-- Its body: `pthread_cond_wait(&ctx->sq_full, ..)`. -/
  | consumeWait
  /-- `if (ctx->stop_flag)` and what comes after it. -/
  | consumeIf
  /-- The mutex is given back: `consume_socket` returns 1 with a socket, or 0. -/
  | consumeReturn (sp : Option α)
  /-- `process_new_connection` and `close_connection`. -/
  | processing (sp : α)
  /-- After the loop: the mutex is taken to sign off. -/
  | exitLock
  /-- `ctx->num_threads--` and the signal. -/
  | exitCount
  | exitUnlock
  | exited
  deriving DecidableEq

/-- Where the master is, in `master_thread` and in `produce_socket`. -/
inductive MasterPc (α : Type)
  | unstarted
  /-- `while (ctx->stop_flag == 0)`. -/
  | loop
  /-- `accept`. -/
  | accepting
  /-- `produce_socket(ctx, &accepted)`, which takes the mutex. -/
  | produceLock (sp : α)
  /-- The condition of the loop that waits for room. -/
  | produceWhile (sp : α)
  /-- Its body: `pthread_cond_wait(&ctx->sq_empty, ..)`. -/
  | produceWait (sp : α)
  /-- The socket is copied to the queue, and the signal. -/
  | produceStore (sp : α)
  | produceReturn
  /-- After the loop: the listening socket is closed, and all who wait for sockets are woken. -/
  | broadcasting
  | joinLock
  /-- `while (ctx->num_threads > 0)`. -/
  | joinWhile
  | joinWait
  | joinUnlock
  /-- The mutex and the condition variables are destroyed. -/
  | destroying
  /-- `ctx->stop_flag = 2`. -/
  | signalling
  | exited
  deriving DecidableEq

/-- Where the thread is that calls `mg_start` and, some time later, `mg_stop`. -/
inductive OwnerPc
  /-- `start_thread(ctx, master_thread, ctx)`. -/
  | startMaster
  /-- The round `k` of the loop that starts the workers. -/
  | startWorker (k : ℕ)
  /-- The worker was started: `ctx->num_threads++` reads .. -/
  | countLoad (k : ℕ)
  /-- .. and writes. -/
  | countStore (k : ℕ) (n : ℤ)
  /-- `mg_start` has returned. -/
  | started
  /-- `mg_stop` has set the flag, and waits for it to become 2. -/
  | stopping
  /-- `free_context(ctx)`. -/
  | freeing
  | freed
  deriving DecidableEq

/-- Where a thread is. -/
inductive Pc (α : Type)
  | worker (pc : WorkerPc α)
  | master (pc : MasterPc α)
  | owner (pc : OwnerPc)
  deriving DecidableEq

/-- The fields of `mg_context` that change. -/
structure MgContext (α : Type) where
  stopFlag : ℕ
  numThreads : ℤ
  /-- `queue`, `sq_head` and `sq_tail`. -/
  queue : RingQueue α queueSize
  /-- The mutex and the condition variables are no more. -/
  destroyed : Bool

/-- What the threads share: the context, the threads there are, and the history. -/
structure Shared (α : Type) extends MgContext α where
  masterCreated : Bool
  /-- The workers that were created and have not signed off. -/
  live : Finset (Fin DialServer.numThreads)
  /-- The connections `accept` returned, in order, -/
  accepted : List α
  /-- those put into the queue, -/
  stored : List α
  /-- and those taken out of it. -/
  taken : List α

/-- What comes from outside. -/
structure Input (α : Type) where
  /-- What `accept` returns, if that is not `INVALID_SOCKET`. -/
  accept : Option α
  /-- Whether `pthread_create` succeeds. -/
  created : Bool

variable {α : Type}

/-- What `consume_socket` does to the queue: the front is taken out, and the counters are
lowered if `sq_tail` has passed the end. -/
def Shared.consume (s : Shared α) : Shared α :=
  { s with queue := s.queue.advance.wrap, taken := s.taken ++ [s.queue.front] }

/-- What `produce_socket` does to the queue. -/
def Shared.produce (s : Shared α) (sp : α) : Shared α :=
  { s with queue := s.queue.put sp, stored := s.stored ++ [sp] }

/-- `worker_thread`, with `consume_socket`. -/
def workerThread (i : Fin numThreads) (s : Shared α) :
    WorkerPc α → Option (Instr (Shared α) (Pc α) Cond)
  | .unstarted => if i ∈ s.live then some (.act (.worker .loop) s) else none
  | .loop =>
    if s.stopFlag = 0 then some (.act (.worker .consumeLock) s)
    else some (.act (.worker .exitLock) s)
  | .consumeLock => some (.lock (.worker .consumeWhile))
  | .consumeWhile =>
    if s.queue.head = s.queue.tail ∧ s.stopFlag = 0 then some (.act (.worker .consumeWait) s)
    else some (.act (.worker .consumeIf) s)
  | .consumeWait => some (.wait .sqFull (.worker .consumeWhile))
  | .consumeIf =>
    if s.stopFlag ≠ 0 then some (.act (.worker (.consumeReturn none)) s)
    else some (.signal .sqEmpty (.worker (.consumeReturn (some s.queue.front))) s.consume)
  | .consumeReturn none => some (.unlock (.worker .exitLock))
  | .consumeReturn (some sp) => some (.unlock (.worker (.processing sp)))
  | .processing _ => some (.act (.worker .loop) s)
  | .exitLock => some (.lock (.worker .exitCount))
  | .exitCount =>
    some (.signal .cond (.worker .exitUnlock)
      { s with numThreads := s.numThreads - 1, live := s.live.erase i })
  | .exitUnlock => some (.unlock (.worker .exited))
  | .exited => none

/-- `master_thread`, with `produce_socket`. -/
def masterThread (input : Input α) (s : Shared α) :
    MasterPc α → Option (Instr (Shared α) (Pc α) Cond)
  | .unstarted => if s.masterCreated then some (.act (.master .loop) s) else none
  | .loop =>
    if s.stopFlag = 0 then some (.act (.master .accepting) s)
    else some (.act (.master .broadcasting) s)
  | .accepting =>
    match input.accept with
    | none => some (.act (.master .loop) s)
    | some sp => some (.act (.master (.produceLock sp)) { s with accepted := s.accepted ++ [sp] })
  | .produceLock sp => some (.lock (.master (.produceWhile sp)))
  | .produceWhile sp =>
    if s.queue.head - s.queue.tail ≥ queueSize then some (.act (.master (.produceWait sp)) s)
    else some (.act (.master (.produceStore sp)) s)
  | .produceWait sp => some (.wait .sqEmpty (.master (.produceWhile sp)))
  | .produceStore sp => some (.signal .sqFull (.master .produceReturn) (s.produce sp))
  | .produceReturn => some (.unlock (.master .loop))
  | .broadcasting => some (.broadcast .sqFull (.master .joinLock))
  | .joinLock => some (.lock (.master .joinWhile))
  | .joinWhile =>
    if s.numThreads > 0 then some (.act (.master .joinWait) s)
    else some (.act (.master .joinUnlock) s)
  | .joinWait => some (.wait .cond (.master .joinWhile))
  | .joinUnlock => some (.unlock (.master .destroying))
  | .destroying => some (.act (.master .signalling) { s with destroyed := true })
  | .signalling => some (.act (.master .exited) { s with stopFlag := 2 })
  | .exited => none

/-- `mg_start` once the context is there, and then `mg_stop`. -/
def ownerThread (input : Input α) (s : Shared α) :
    OwnerPc → Option (Instr (Shared α) (Pc α) Cond)
  | .startMaster =>
    some (.act (.owner (.startWorker 0)) { s with masterCreated := input.created })
  | .startWorker k =>
    if h : k < numThreads then
      if input.created then
        some (.act (.owner (.countLoad k)) { s with live := insert ⟨k, h⟩ s.live })
      else some (.act (.owner (.startWorker (k + 1))) s)
    else some (.act (.owner .started) s)
  | .countLoad k => some (.act (.owner (.countStore k s.numThreads)) s)
  | .countStore k n => some (.act (.owner (.startWorker (k + 1))) { s with numThreads := n + 1 })
  | .started => some (.act (.owner .stopping) { s with stopFlag := 1 })
  | .stopping =>
    if s.stopFlag ≠ 2 then some (.act (.owner .stopping) s) else some (.act (.owner .freeing) s)
  | .freeing => some (.act (.owner .freed) s)
  | .freed => none

/-- What each thread does. -/
def pool : Program Who (Input α) (Shared α) (Pc α) Cond
  | .worker i, _, s, .worker pc => workerThread i s pc
  | .master, input, s, .master pc => masterThread input s pc
  | .owner, input, s, .owner pc => ownerThread input s pc
  | _, _, _, _ => none

/-- The threads, in any state. -/
abbrev Pool (α : Type) := Config Who (Shared α) (Pc α) Cond

/-- The context `calloc` gives, whose slots are all a zeroed socket. -/
def Shared.fresh (zero : α) : Shared α where
  stopFlag := 0
  numThreads := 0
  queue := .fresh zero
  destroyed := false
  masterCreated := false
  live := ∅
  accepted := []
  stored := []
  taken := []

/-- Where a thread starts. -/
def Who.start : Who → Pc α
  | .master => .master .unstarted
  | .worker _ => .worker .unstarted
  | .owner => .owner .startMaster

/-- `mg_start`, when the listening socket is open. -/
def Pool.start (zero : α) : Pool α := ⟨none, .fresh zero, fun t => .ready t.start⟩

/-! ### Mutual exclusion -/

/-- The places where a worker has the mutex. -/
def WorkerPc.holds : WorkerPc α → Bool
  | .consumeWhile => true
  | .consumeWait => true
  | .consumeIf => true
  | .consumeReturn _ => true
  | .exitCount => true
  | .exitUnlock => true
  | _ => false

/-- The places where the master has the mutex. -/
def MasterPc.holds : MasterPc α → Bool
  | .produceWhile _ => true
  | .produceWait _ => true
  | .produceStore _ => true
  | .produceReturn => true
  | .joinWhile => true
  | .joinWait => true
  | .joinUnlock => true
  | _ => false

/-- The places where a thread has the mutex. -/
def Pc.holds : Pc α → Bool
  | .worker pc => pc.holds
  | .master pc => pc.holds
  | .owner _ => false

theorem workerThread_respects {i : Fin numThreads} {s : Shared α} {pc : WorkerPc α}
    {instr : Instr (Shared α) (Pc α) Cond} (h : workerThread i s pc = some instr) :
    instr.Respects Pc.holds (.worker pc) := by
  revert h
  fun_cases workerThread i s pc <;> intro h <;> cases h <;>
    simp only [Instr.Respects, Pc.holds, WorkerPc.holds, and_self]

theorem masterThread_respects {input : Input α} {s : Shared α} {pc : MasterPc α}
    {instr : Instr (Shared α) (Pc α) Cond} (h : masterThread input s pc = some instr) :
    instr.Respects Pc.holds (.master pc) := by
  revert h
  fun_cases masterThread input s pc <;> intro h <;> cases h <;>
    simp only [Instr.Respects, Pc.holds, MasterPc.holds, and_self]

theorem ownerThread_respects {input : Input α} {s : Shared α} {pc : OwnerPc}
    {instr : Instr (Shared α) (Pc α) Cond} (h : ownerThread input s pc = some instr) :
    instr.Respects Pc.holds (.owner pc) := by
  revert h
  fun_cases ownerThread input s pc <;> intro h <;> cases h <;>
    simp only [Instr.Respects, Pc.holds]

/-- A thread is at a place of its own when it does something. -/
theorem pool_cases {t : Who} {input : Input α} {s : Shared α} {l : Pc α}
    {instr : Instr (Shared α) (Pc α) Cond} (h : pool t input s l = some instr) :
    (∃ i pc, t = .worker i ∧ l = .worker pc ∧ workerThread i s pc = some instr) ∨
    (∃ pc, t = .master ∧ l = .master pc ∧ masterThread input s pc = some instr) ∨
    ∃ pc, t = .owner ∧ l = .owner pc ∧ ownerThread input s pc = some instr := by
  match t, l, h with
  | .worker i, .worker pc, h => exact .inl ⟨i, pc, rfl, rfl, h⟩
  | .master, .master pc, h => exact .inr (.inl ⟨pc, rfl, rfl, h⟩)
  | .owner, .owner pc, h => exact .inr (.inr ⟨pc, rfl, rfl, h⟩)

theorem pool_worker {i : Fin numThreads} {input : Input α} {s : Shared α} {l : Pc α}
    {instr : Instr (Shared α) (Pc α) Cond} (h : pool (.worker i) input s l = some instr) :
    ∃ pc, l = .worker pc ∧ workerThread i s pc = some instr := by
  obtain ⟨j, pc, ht, rfl, h⟩ | ⟨pc, ht, -⟩ | ⟨pc, ht, -⟩ := pool_cases h
  · cases ht
    exact ⟨pc, rfl, h⟩
  · cases ht
  · cases ht

theorem pool_master {input : Input α} {s : Shared α} {l : Pc α}
    {instr : Instr (Shared α) (Pc α) Cond} (h : pool .master input s l = some instr) :
    ∃ pc, l = .master pc ∧ masterThread input s pc = some instr := by
  obtain ⟨i, pc, ht, -⟩ | ⟨pc, -, rfl, h⟩ | ⟨pc, ht, -⟩ := pool_cases h
  · cases ht
  · exact ⟨pc, rfl, h⟩
  · cases ht

theorem pool_owner {input : Input α} {s : Shared α} {l : Pc α}
    {instr : Instr (Shared α) (Pc α) Cond} (h : pool .owner input s l = some instr) :
    ∃ pc, l = .owner pc ∧ ownerThread input s pc = some instr := by
  obtain ⟨i, pc, ht, -⟩ | ⟨pc, ht, -⟩ | ⟨pc, -, rfl, h⟩ := pool_cases h
  · cases ht
  · cases ht
  · exact ⟨pc, rfl, h⟩

theorem pool_disciplined : Disciplined (pool (α := α)) Pc.holds := by
  intro t input s l instr h
  obtain ⟨i, pc, rfl, rfl, h⟩ | ⟨pc, rfl, rfl, h⟩ | ⟨pc, rfl, rfl, h⟩ := pool_cases h
  · exact workerThread_respects h
  · exact masterThread_respects h
  · exact ownerThread_respects h

end DialServer
