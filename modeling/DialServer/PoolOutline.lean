import DialServer.WorkerPool

/-!
# What holds at each place of the pool

A proof outline of `DialServer.pool`: for each place of `worker_thread`, `master_thread`,
`mg_start` and `mg_stop`, what holds of the context and of the history when a thread is there.
Nothing else happens to the queue while a thread is between the check of the queue and what it
does on account of it; `num_threads` is written without the mutex only before a worker can
sign off; and a worker that is leaving has seen `stop_flag` set.

`DialServer.proper_after` is that the outline holds in every interleaving, and with it the
assertions of `consume_socket`, `worker_thread` and `produce_socket`.
-/

namespace DialServer

open Monitor

variable {α : Type}

/-! ### The proof outline -/

/-- What holds when a worker is at a place. -/
def WorkerPc.Asserts (i : Fin numThreads) (s : Shared α) : WorkerPc α → Prop
  | .unstarted => True
  | .loop => i ∈ s.live
  | .consumeLock => i ∈ s.live
  | .consumeWhile => i ∈ s.live
  | .consumeWait => i ∈ s.live ∧ s.queue.items = []
  | .consumeIf => i ∈ s.live ∧ (s.queue.items ≠ [] ∨ s.stopFlag ≠ 0)
  | .consumeReturn none => i ∈ s.live ∧ s.stopFlag ≠ 0
  | .consumeReturn (some _) => i ∈ s.live
  | .processing _ => i ∈ s.live
  | .exitLock => i ∈ s.live ∧ s.stopFlag ≠ 0
  | .exitCount => i ∈ s.live ∧ s.stopFlag ≠ 0
  | .exitUnlock => i ∉ s.live ∧ s.stopFlag ≠ 0
  | .exited => i ∉ s.live ∧ s.stopFlag ≠ 0

/-- The connection the master has accepted and not yet put into the queue. -/
def MasterPc.inHand : MasterPc α → List α
  | .produceLock sp => [sp]
  | .produceWhile sp => [sp]
  | .produceWait sp => [sp]
  | .produceStore sp => [sp]
  | _ => []

/-- The master has set `stop_flag` to 2. -/
def MasterPc.stopped : MasterPc α → Bool
  | .exited => true
  | _ => false

/-- The master has destroyed the mutex and the condition variables. -/
def MasterPc.destroyed : MasterPc α → Bool
  | .signalling => true
  | .exited => true
  | _ => false

/-- What holds when the master is at one place rather than another. -/
def MasterPc.Here (s : Shared α) : MasterPc α → Prop
  | .produceWait _ => s.queue.items.length = queueSize
  | .produceStore _ => s.queue.items.length < queueSize
  | .broadcasting => s.stopFlag ≠ 0
  | .joinLock => s.stopFlag ≠ 0
  | .joinWhile => s.stopFlag ≠ 0
  | .joinWait => s.stopFlag ≠ 0 ∧ 0 < s.numThreads
  | .joinUnlock => s.stopFlag ≠ 0 ∧ s.live = ∅
  | .destroying => s.stopFlag ≠ 0 ∧ s.live = ∅
  | .signalling => s.stopFlag ≠ 0 ∧ s.live = ∅
  | .exited => s.stopFlag ≠ 0 ∧ s.live = ∅
  | _ => True

/-- What holds when the master is at a place. -/
structure MasterPc.Asserts (s : Shared α) (pc : MasterPc α) : Prop where
  inHand : s.accepted = s.stored ++ pc.inHand
  stopped : s.stopFlag = 2 ↔ pc.stopped = true
  destroyed : s.destroyed = pc.destroyed
  here : pc.Here s

/-- What holds when the thread that called `mg_start` is at a place. -/
def OwnerPc.Asserts (s : Shared α) : OwnerPc → Prop
  | .startMaster => s.stopFlag = 0 ∧ s.numThreads = 0 ∧ s.live = ∅
  | .startWorker k =>
    s.stopFlag = 0 ∧ s.numThreads = s.live.card ∧ ∀ j ∈ s.live, (j : ℕ) < k
  | .countLoad k =>
    s.stopFlag = 0 ∧ s.numThreads + 1 = s.live.card ∧ ∀ j ∈ s.live, (j : ℕ) < k + 1
  | .countStore k n =>
    s.stopFlag = 0 ∧ s.numThreads + 1 = s.live.card ∧ (∀ j ∈ s.live, (j : ℕ) < k + 1) ∧
      n = s.numThreads
  | .started => s.stopFlag = 0 ∧ s.numThreads = s.live.card
  | .stopping => s.stopFlag ≠ 0
  | .freeing => s.stopFlag = 2
  | .freed => s.stopFlag = 2

/-- What holds as long as a worker stands in some way. -/
def WorkerAt (i : Fin numThreads) (st : Status (Pc α) Cond) (s : Shared α) : Prop :=
  match st with
  | .ready (.worker pc) => pc.Asserts i s
  | .asleep .sqFull (.worker .consumeWhile) => i ∈ s.live
  | .woken (.worker .consumeWhile) => i ∈ s.live
  | _ => False

/-- What holds as long as the master stands in some way. -/
def MasterAt (st : Status (Pc α) Cond) (s : Shared α) : Prop :=
  match st with
  | .ready (.master pc) => pc.Asserts s
  | .asleep .sqEmpty (.master (.produceWhile sp)) => (MasterPc.produceWhile sp).Asserts s
  | .woken (.master (.produceWhile sp)) => (MasterPc.produceWhile sp).Asserts s
  | .asleep .cond (.master .joinWhile) => MasterPc.joinWhile.Asserts s
  | .woken (.master .joinWhile) => MasterPc.joinWhile.Asserts s
  | _ => False

/-- What holds as long as the thread that called `mg_start` stands in some way. -/
def OwnerAt (st : Status (Pc α) Cond) (s : Shared α) : Prop :=
  match st with
  | .ready (.owner pc) => pc.Asserts s
  | _ => False

/-- What holds as long as a thread stands in some way. -/
def StandsAt : Who → Status (Pc α) Cond → Shared α → Prop
  | .worker i => WorkerAt i
  | .master => MasterAt
  | .owner => OwnerAt

/-- What holds of the shared state at all times. -/
structure Shared.Ok (s : Shared α) : Prop where
  sound : s.queue.Sound
  tail_le : s.queue.tail ≤ queueSize
  stored : s.stored = s.taken ++ s.queue.items
  counted : s.stopFlag ≠ 0 → s.numThreads = s.live.card
  ended : s.stopFlag = 2 → s.live = ∅ ∧ s.destroyed = true

variable {s : Shared α} {st : Status (Pc α) Cond} {t : Who} {c : Cond} {l : Pc α}

/-- What holds of a worker that sleeps or is woken holds of the place it goes on at, -/
theorem WorkerAt.pc {i : Fin numThreads} (h : WorkerAt i st s) :
    ∃ pc, st.pc = .worker pc ∧ pc.Asserts i s := by
  match st, h with
  | .ready (.worker pc), h => exact ⟨pc, rfl, h⟩
  | .asleep .sqFull (.worker .consumeWhile), h => exact ⟨.consumeWhile, rfl, h⟩
  | .woken (.worker .consumeWhile), h => exact ⟨.consumeWhile, rfl, h⟩

/-- and so for the master. -/
theorem MasterAt.pc (h : MasterAt st s) : ∃ pc, st.pc = .master pc ∧ pc.Asserts s := by
  match st, h with
  | .ready (.master pc), h => exact ⟨pc, rfl, h⟩
  | .asleep .sqEmpty (.master (.produceWhile sp)), h => exact ⟨.produceWhile sp, rfl, h⟩
  | .woken (.master (.produceWhile sp)), h => exact ⟨.produceWhile sp, rfl, h⟩
  | .asleep .cond (.master .joinWhile), h => exact ⟨.joinWhile, rfl, h⟩
  | .woken (.master .joinWhile), h => exact ⟨.joinWhile, rfl, h⟩

/-- The thread that called `mg_start` does not sleep. -/
theorem OwnerAt.eq_ready (h : OwnerAt st s) : ∃ pc, st = .ready (.owner pc) := by
  match st, h with
  | .ready (.owner pc), _ => exact ⟨pc, rfl⟩

/-- Whoever is ready is at a place of its own. -/
theorem ready_cases (h : StandsAt t (.ready l) s) :
    (∃ i pc, t = .worker i ∧ l = .worker pc) ∨ (∃ pc, t = .master ∧ l = .master pc) ∨
    ∃ pc, t = .owner ∧ l = .owner pc := by
  match t, l, h with
  | .worker i, .worker pc, _ => exact .inl ⟨i, pc, rfl, rfl⟩
  | .master, .master pc, _ => exact .inr (.inl ⟨pc, rfl, rfl⟩)
  | .owner, .owner pc, _ => exact .inr (.inr ⟨pc, rfl, rfl⟩)

/-- Who sleeps on what. -/
theorem asleep_cases (h : StandsAt t (.asleep c l) s) :
    (∃ i, t = .worker i ∧ c = .sqFull ∧ l = .worker .consumeWhile) ∨
    (∃ sp, t = .master ∧ c = .sqEmpty ∧ l = .master (.produceWhile sp)) ∨
    (t = .master ∧ c = .cond ∧ l = .master .joinWhile) := by
  match t, c, l, h with
  | .worker i, .sqFull, .worker .consumeWhile, _ => exact .inl ⟨i, rfl, rfl, rfl⟩
  | .master, .sqEmpty, .master (.produceWhile sp), _ => exact .inr (.inl ⟨sp, rfl, rfl, rfl⟩)
  | .master, .cond, .master .joinWhile, _ => exact .inr (.inr ⟨rfl, rfl, rfl⟩)

/-- Where the woken go on. -/
theorem woken_cases (h : StandsAt t (.woken l) s) :
    (∃ i, t = .worker i ∧ l = .worker .consumeWhile) ∨
    (∃ sp, t = .master ∧ l = .master (.produceWhile sp)) ∨
    (t = .master ∧ l = .master .joinWhile) := by
  match t, l, h with
  | .worker i, .worker .consumeWhile, _ => exact .inl ⟨i, rfl, rfl⟩
  | .master, .master (.produceWhile sp), _ => exact .inr (.inl ⟨sp, rfl, rfl⟩)
  | .master, .master .joinWhile, _ => exact .inr (.inr ⟨rfl, rfl⟩)

/-- The assertion of `consume_socket` is met. -/
theorem Shared.Ok.tail_lt (h : s.Ok) (hne : s.queue.items ≠ []) : s.queue.tail < s.queue.head := by
  have hle := h.sound.tail_le
  have : s.queue.head ≠ s.queue.tail := fun heq => hne ((RingQueue.items_eq_nil h.sound).mpr heq)
  omega

/-- What taking a socket out leaves. -/
theorem Shared.Ok.items_consume (h : s.Ok) (hne : s.queue.items ≠ []) :
    s.queue.items = s.queue.front :: s.consume.queue.items := by
  have hlt := h.tail_lt hne
  rw [RingQueue.items_eq_cons hlt, Shared.consume]
  exact congrArg _ (RingQueue.items_wrap (h.sound.advance hlt)).symm

theorem Shared.Ok.consume (h : s.Ok) (hne : s.queue.items ≠ []) : s.consume.Ok where
  sound := (h.sound.advance (h.tail_lt hne)).wrap
  tail_le := RingQueue.tail_wrap_le (h.sound.advance (h.tail_lt hne))
  stored := by
    change s.stored = (s.taken ++ [s.queue.front]) ++ s.consume.queue.items
    rw [List.append_assoc, List.singleton_append, ← h.items_consume hne, h.stored]
  counted := h.counted
  ended := h.ended

theorem Shared.room (s : Shared α) (hroom : s.queue.items.length < queueSize) :
    s.queue.head < s.queue.tail + queueSize := by
  rw [RingQueue.length_items] at hroom
  omega

/-- What putting a socket in leaves. -/
theorem Shared.Ok.items_produce (h : s.Ok) (hroom : s.queue.items.length < queueSize) (sp : α) :
    (s.produce sp).queue.items = s.queue.items ++ [sp] :=
  RingQueue.items_put h.sound (s.room hroom) sp

theorem Shared.Ok.produce (h : s.Ok) (hroom : s.queue.items.length < queueSize) (sp : α) :
    (s.produce sp).Ok where
  sound := h.sound.put (s.room hroom) sp
  tail_le := h.tail_le
  stored := by
    rw [h.items_produce hroom, ← List.append_assoc]
    exact congrArg (· ++ [sp]) h.stored
  counted := h.counted
  ended := h.ended

/-- What a worker that signs off leaves. -/
theorem Shared.Ok.signOff (h : s.Ok) {i : Fin DialServer.numThreads} (hi : i ∈ s.live)
    (h0 : s.stopFlag ≠ 0) :
    Shared.Ok { s with numThreads := s.numThreads - 1, live := s.live.erase i } where
  sound := h.sound
  tail_le := h.tail_le
  stored := h.stored
  counted _ := by
    have hcard := Finset.card_erase_of_mem hi
    have hpos := Finset.card_pos.mpr ⟨i, hi⟩
    have hcount := h.counted h0
    change s.numThreads - 1 = ((s.live.erase i).card : ℤ)
    omega
  ended h2 := absurd hi (by rw [(h.ended h2).1]; exact Finset.notMem_empty i)

/-- An instruction of a worker leads from one assertion to the next. -/
theorem workerThread_next {i : Fin numThreads} {pc : WorkerPc α}
    {instr : Instr (Shared α) (Pc α) Cond} (h : workerThread i s pc = some instr) (hs : s.Ok)
    (hpc : pc.Asserts i s) :
    (instr.leaves s).Ok ∧ StandsAt (.worker i) instr.status (instr.leaves s) := by
  cases pc with
  | unstarted =>
    rw [workerThread] at h
    split at h <;> cases h
    rename_i hlive
    exact ⟨hs, hlive⟩
  | loop =>
    rw [workerThread] at h
    split at h <;> cases h
    · exact ⟨hs, hpc⟩
    · rename_i h0
      exact ⟨hs, hpc, h0⟩
  | consumeLock =>
    obtain rfl := Option.some.inj h
    exact ⟨hs, hpc⟩
  | consumeWhile =>
    rw [workerThread] at h
    split at h <;> cases h
    · rename_i hidle
      exact ⟨hs, hpc, (RingQueue.items_eq_nil hs.sound).mpr hidle.1⟩
    · rename_i hbusy
      refine ⟨hs, hpc, ?_⟩
      by_cases hitems : s.queue.items = []
      · exact .inr fun h0 => hbusy ⟨(RingQueue.items_eq_nil hs.sound).mp hitems, h0⟩
      · exact .inl hitems
  | consumeWait =>
    obtain rfl := Option.some.inj h
    exact ⟨hs, hpc.1⟩
  | consumeIf =>
    rw [workerThread] at h
    split at h <;> cases h
    · rename_i h0
      exact ⟨hs, hpc.1, h0⟩
    · rename_i h0
      exact ⟨hs.consume (hpc.2.resolve_right h0), hpc.1⟩
  | consumeReturn sp =>
    cases sp with
    | none =>
      obtain rfl := Option.some.inj h
      exact ⟨hs, hpc⟩
    | some sp =>
      obtain rfl := Option.some.inj h
      exact ⟨hs, hpc⟩
  | processing sp =>
    obtain rfl := Option.some.inj h
    exact ⟨hs, hpc⟩
  | exitLock =>
    obtain rfl := Option.some.inj h
    exact ⟨hs, hpc⟩
  | exitCount =>
    obtain rfl := Option.some.inj h
    exact ⟨hs.signOff hpc.1 hpc.2, Finset.notMem_erase i s.live, hpc.2⟩
  | exitUnlock =>
    obtain rfl := Option.some.inj h
    exact ⟨hs, hpc⟩
  | exited => exact absurd h (by simp [workerThread])

/-- An instruction of the master leads from one assertion to the next. -/
theorem masterThread_next {input : Input α} {pc : MasterPc α}
    {instr : Instr (Shared α) (Pc α) Cond} (h : masterThread input s pc = some instr) (hs : s.Ok)
    (hpc : pc.Asserts s) :
    (instr.leaves s).Ok ∧ StandsAt .master instr.status (instr.leaves s) := by
  obtain ⟨hinHand, hstopped, hdestroyed, hhere⟩ := hpc
  cases pc with
  | unstarted =>
    rw [masterThread] at h
    split at h <;> cases h
    exact ⟨hs, hinHand, hstopped, hdestroyed, trivial⟩
  | loop =>
    rw [masterThread] at h
    split at h <;> cases h
    · exact ⟨hs, hinHand, hstopped, hdestroyed, trivial⟩
    · rename_i h0
      exact ⟨hs, hinHand, hstopped, hdestroyed, h0⟩
  | accepting =>
    rw [masterThread] at h
    split at h <;> cases h
    · exact ⟨hs, hinHand, hstopped, hdestroyed, trivial⟩
    · rename_i sp _
      refine ⟨⟨hs.sound, hs.tail_le, hs.stored, hs.counted, hs.ended⟩, ?_,
        hstopped, hdestroyed, trivial⟩
      change s.accepted ++ [sp] = s.stored ++ [sp]
      rw [hinHand]
      simp [MasterPc.inHand]
  | produceLock sp =>
    obtain rfl := Option.some.inj h
    exact ⟨hs, hinHand, hstopped, hdestroyed, trivial⟩
  | produceWhile sp =>
    have hlen := RingQueue.length_items s.queue
    have hfits := hs.sound.fits
    rw [masterThread] at h
    split at h <;> cases h
    · rename_i hfull
      refine ⟨hs, hinHand, hstopped, hdestroyed, ?_⟩
      change s.queue.items.length = queueSize
      omega
    · rename_i hroom
      refine ⟨hs, hinHand, hstopped, hdestroyed, ?_⟩
      change s.queue.items.length < queueSize
      omega
  | produceWait sp =>
    obtain rfl := Option.some.inj h
    exact ⟨hs, hinHand, hstopped, hdestroyed, trivial⟩
  | produceStore sp =>
    obtain rfl := Option.some.inj h
    refine ⟨hs.produce hhere sp, ?_, hstopped, hdestroyed, trivial⟩
    change s.accepted = (s.stored ++ [sp]) ++ []
    rw [hinHand, List.append_nil]
    rfl
  | produceReturn =>
    obtain rfl := Option.some.inj h
    exact ⟨hs, hinHand, hstopped, hdestroyed, trivial⟩
  | broadcasting =>
    obtain rfl := Option.some.inj h
    exact ⟨hs, hinHand, hstopped, hdestroyed, hhere⟩
  | joinLock =>
    obtain rfl := Option.some.inj h
    exact ⟨hs, hinHand, hstopped, hdestroyed, hhere⟩
  | joinWhile =>
    rw [masterThread] at h
    split at h <;> cases h
    · rename_i hpos
      exact ⟨hs, hinHand, hstopped, hdestroyed, hhere, hpos⟩
    · rename_i hzero
      refine ⟨hs, hinHand, hstopped, hdestroyed, hhere, ?_⟩
      have hcount := hs.counted hhere
      have hcard : s.live.card = 0 := by omega
      exact Finset.card_eq_zero.mp hcard
  | joinWait =>
    obtain rfl := Option.some.inj h
    exact ⟨hs, hinHand, hstopped, hdestroyed, hhere.1⟩
  | joinUnlock =>
    obtain rfl := Option.some.inj h
    exact ⟨hs, hinHand, hstopped, hdestroyed, hhere⟩
  | destroying =>
    obtain rfl := Option.some.inj h
    refine ⟨⟨hs.sound, hs.tail_le, hs.stored, hs.counted, fun h2 => ⟨hhere.2, rfl⟩⟩, hinHand,
      hstopped, rfl, hhere⟩
  | signalling =>
    obtain rfl := Option.some.inj h
    exact ⟨⟨hs.sound, hs.tail_le, hs.stored, fun _ => hs.counted hhere.1,
      fun _ => ⟨hhere.2, hdestroyed⟩⟩, hinHand, ⟨fun _ => rfl, fun _ => rfl⟩, hdestroyed,
      by simp [Instr.leaves], hhere.2⟩
  | exited => exact absurd h (by simp [masterThread])

/-- An instruction of the thread that starts and stops the others leads from one assertion to
the next. -/
theorem ownerThread_next {input : Input α} {pc : OwnerPc}
    {instr : Instr (Shared α) (Pc α) Cond} (h : ownerThread input s pc = some instr) (hs : s.Ok)
    (hpc : pc.Asserts s) :
    (instr.leaves s).Ok ∧ StandsAt .owner instr.status (instr.leaves s) := by
  cases pc with
  | startMaster =>
    obtain rfl := Option.some.inj h
    obtain ⟨h0, hnum, hlive⟩ := hpc
    refine ⟨⟨hs.sound, hs.tail_le, hs.stored, hs.counted, hs.ended⟩, h0, ?_, ?_⟩
    · change s.numThreads = s.live.card
      rw [hnum, hlive]
      rfl
    · change ∀ j ∈ s.live, _
      simp [hlive]
  | startWorker k =>
    obtain ⟨h0, hnum, hlive⟩ := hpc
    rw [ownerThread] at h
    split at h
    · rename_i hk
      split at h <;> cases h
      · have hnew : (⟨k, hk⟩ : Fin numThreads) ∉ s.live := fun hmem => (hlive _ hmem).false
        refine ⟨⟨hs.sound, hs.tail_le, hs.stored, fun h' => absurd h0 h',
          fun h2 => absurd (h0.symm.trans h2) (by decide)⟩, h0, ?_, ?_⟩
        · change s.numThreads + 1 = ((insert (⟨k, hk⟩ : Fin numThreads) s.live).card : ℤ)
          rw [Finset.card_insert_of_notMem hnew, hnum]
          rfl
        · intro j hj
          rcases Finset.mem_insert.mp hj with rfl | hj
          · exact Nat.lt_succ_self _
          · exact (hlive j hj).trans (Nat.lt_succ_self _)
      · exact ⟨hs, h0, hnum, fun j hj => (hlive j hj).trans (Nat.lt_succ_self _)⟩
    · cases h
      exact ⟨hs, h0, hnum⟩
  | countLoad k =>
    obtain rfl := Option.some.inj h
    exact ⟨hs, hpc.1, hpc.2.1, hpc.2.2, rfl⟩
  | countStore k n =>
    obtain rfl := Option.some.inj h
    obtain ⟨h0, hnum, hlive, rfl⟩ := hpc
    exact ⟨⟨hs.sound, hs.tail_le, hs.stored, fun h' => absurd h0 h', hs.ended⟩, h0, hnum, hlive⟩
  | started =>
    obtain rfl := Option.some.inj h
    exact ⟨⟨hs.sound, hs.tail_le, hs.stored, fun _ => hpc.2, fun h2 =>
      absurd (show (1 : ℕ) = 2 from h2) (by decide)⟩, Nat.one_ne_zero⟩
  | stopping =>
    rw [ownerThread] at h
    split at h <;> cases h
    · exact ⟨hs, hpc⟩
    · rename_i h2
      exact ⟨hs, not_not.mp h2⟩
  | freeing =>
    obtain rfl := Option.some.inj h
    exact ⟨hs, hpc⟩
  | freed => exact absurd h (by simp [ownerThread])

/-! ### Nobody disturbs another's assertion -/

variable {s' : Shared α}

/-- What a worker relies on. -/
theorem WorkerAt.mono {i : Fin numThreads} (h : WorkerAt i st s) (hlive : i ∈ s.live → i ∈ s'.live)
    (hgone : s.stopFlag ≠ 0 → i ∉ s.live → i ∉ s'.live)
    (hstop : s.stopFlag ≠ 0 → s'.stopFlag ≠ 0)
    (hqueue : st.inside Pc.holds = true → s'.queue = s.queue) : WorkerAt i st s' := by
  match st, h with
  | .ready (.worker .unstarted), _ => exact trivial
  | .ready (.worker .loop), h => exact hlive h
  | .ready (.worker .consumeLock), h => exact hlive h
  | .ready (.worker .consumeWhile), h => exact hlive h
  | .ready (.worker .consumeWait), h => exact ⟨hlive h.1, (hqueue rfl) ▸ h.2⟩
  | .ready (.worker .consumeIf), h =>
    exact ⟨hlive h.1, h.2.imp (fun hne => (hqueue rfl) ▸ hne) hstop⟩
  | .ready (.worker (.consumeReturn none)), h => exact ⟨hlive h.1, hstop h.2⟩
  | .ready (.worker (.consumeReturn (some _))), h => exact hlive h
  | .ready (.worker (.processing _)), h => exact hlive h
  | .ready (.worker .exitLock), h => exact ⟨hlive h.1, hstop h.2⟩
  | .ready (.worker .exitCount), h => exact ⟨hlive h.1, hstop h.2⟩
  | .ready (.worker .exitUnlock), h => exact ⟨hgone h.2 h.1, hstop h.2⟩
  | .ready (.worker .exited), h => exact ⟨hgone h.2 h.1, hstop h.2⟩
  | .asleep .sqFull (.worker .consumeWhile), h => exact hlive h
  | .woken (.worker .consumeWhile), h => exact hlive h

/-- What the master relies on. -/
theorem MasterPc.Asserts.mono {pc : MasterPc α} (h : pc.Asserts s)
    (haccepted : s'.accepted = s.accepted) (hstored : s'.stored = s.stored)
    (hstop : s.stopFlag ≠ 0 → s'.stopFlag ≠ 0) (hstop' : s'.stopFlag = 2 ↔ s.stopFlag = 2)
    (hdestroyed : s'.destroyed = s.destroyed) (hlive : s.live = ∅ → s.stopFlag ≠ 0 → s'.live = ∅)
    (hinside : pc.holds = true →
      s'.queue = s.queue ∧ (s.stopFlag ≠ 0 → s'.numThreads = s.numThreads)) : pc.Asserts s' where
  inHand := by rw [haccepted, hstored, h.inHand]
  stopped := hstop'.trans h.stopped
  destroyed := hdestroyed.trans h.destroyed
  here := by
    have hhere := h.here
    cases pc with
    | produceWait sp =>
      change s'.queue.items.length = queueSize
      rw [(hinside rfl).1]
      exact hhere
    | produceStore sp =>
      change s'.queue.items.length < queueSize
      rw [(hinside rfl).1]
      exact hhere
    | broadcasting => exact hstop hhere
    | joinLock => exact hstop hhere
    | joinWhile => exact hstop hhere
    | joinWait =>
      refine ⟨hstop hhere.1, ?_⟩
      rw [(hinside rfl).2 hhere.1]
      exact hhere.2
    | joinUnlock => exact ⟨hstop hhere.1, hlive hhere.2 hhere.1⟩
    | destroying => exact ⟨hstop hhere.1, hlive hhere.2 hhere.1⟩
    | signalling => exact ⟨hstop hhere.1, hlive hhere.2 hhere.1⟩
    | exited => exact ⟨hstop hhere.1, hlive hhere.2 hhere.1⟩
    | _ => exact trivial

theorem MasterAt.mono (h : MasterAt st s)
    (haccepted : s'.accepted = s.accepted) (hstored : s'.stored = s.stored)
    (hstop : s.stopFlag ≠ 0 → s'.stopFlag ≠ 0) (hstop' : s'.stopFlag = 2 ↔ s.stopFlag = 2)
    (hdestroyed : s'.destroyed = s.destroyed) (hlive : s.live = ∅ → s.stopFlag ≠ 0 → s'.live = ∅)
    (hinside : st.inside Pc.holds = true →
      s'.queue = s.queue ∧ (s.stopFlag ≠ 0 → s'.numThreads = s.numThreads)) : MasterAt st s' := by
  -- A sleeper relies on less than the place it goes on at.
  have haway : ∀ pc : MasterPc α, pc.Here s' → pc.Asserts s → pc.Asserts s' := fun pc hhere h =>
    ⟨by rw [haccepted, hstored, h.inHand], hstop'.trans h.stopped, hdestroyed.trans h.destroyed,
      hhere⟩
  match st, h with
  | .ready (.master pc), h =>
    have hpc : pc.Asserts s := h
    exact hpc.mono haccepted hstored hstop hstop' hdestroyed hlive hinside
  | .asleep .sqEmpty (.master (.produceWhile sp)), h => exact haway _ trivial h
  | .woken (.master (.produceWhile sp)), h => exact haway _ trivial h
  | .asleep .cond (.master .joinWhile), h => exact haway _ (hstop h.here) h
  | .woken (.master .joinWhile), h => exact haway _ (hstop h.here) h

/-- What the thread that called `mg_start` relies on. -/
theorem OwnerAt.mono (h : OwnerAt st s) (hstop : s.stopFlag ≠ 0 → s'.stopFlag ≠ 0)
    (hstop' : s.stopFlag = 2 → s'.stopFlag = 2)
    (hstart : s.stopFlag = 0 →
      s'.stopFlag = 0 ∧ s'.numThreads = s.numThreads ∧ s'.live = s.live) : OwnerAt st s' := by
  match st, h with
  | .ready (.owner .startMaster), h =>
    obtain ⟨h0, hnum, hlive⟩ := hstart h.1
    exact ⟨h0, hnum.trans h.2.1, hlive.trans h.2.2⟩
  | .ready (.owner (.startWorker k)), h =>
    obtain ⟨h0, hnum, hlive⟩ := hstart h.1
    exact ⟨h0, by rw [hnum, hlive]; exact h.2.1, by rw [hlive]; exact h.2.2⟩
  | .ready (.owner (.countLoad k)), h =>
    obtain ⟨h0, hnum, hlive⟩ := hstart h.1
    exact ⟨h0, by rw [hnum, hlive]; exact h.2.1, by rw [hlive]; exact h.2.2⟩
  | .ready (.owner (.countStore k n)), h =>
    obtain ⟨h0, hnum, hlive⟩ := hstart h.1
    exact ⟨h0, by rw [hnum, hlive]; exact h.2.1, by rw [hlive]; exact h.2.2.1,
      by rw [hnum]; exact h.2.2.2⟩
  | .ready (.owner .started), h =>
    obtain ⟨h0, hnum, hlive⟩ := hstart h.1
    exact ⟨h0, by rw [hnum, hlive]; exact h.2⟩
  | .ready (.owner .stopping), h => exact hstop h
  | .ready (.owner .freeing), h => exact hstop' h
  | .ready (.owner .freed), h => exact hstop' h

/-- A worker disturbs nobody. -/
theorem workerThread_stable {i : Fin numThreads} {pc : WorkerPc α}
    {instr : Instr (Shared α) (Pc α) Cond} (h : workerThread i s pc = some instr)
    (hpc : pc.Asserts i s) {u : Who} (hu : u ≠ .worker i)
    (hinside : st.inside Pc.holds = true → pc.holds = false) (hst : StandsAt u st s) :
    StandsAt u st (instr.leaves s) := by
  cases pc with
  | unstarted =>
    rw [workerThread] at h
    split at h <;> cases h
    exact hst
  | loop =>
    rw [workerThread] at h
    split at h <;> cases h <;> exact hst
  | consumeLock =>
    obtain rfl := Option.some.inj h
    exact hst
  | consumeWhile =>
    rw [workerThread] at h
    split at h <;> cases h <;> exact hst
  | consumeWait =>
    obtain rfl := Option.some.inj h
    exact hst
  | consumeIf =>
    have hout : ¬st.inside Pc.holds = true := fun hin => by cases hinside hin
    rw [workerThread] at h
    split at h <;> cases h
    · exact hst
    · cases u with
      | worker j =>
        exact WorkerAt.mono hst id (fun _ h => h) id fun hin => absurd hin hout
      | master =>
        exact MasterAt.mono hst rfl rfl id Iff.rfl rfl (fun h _ => h) fun hin => absurd hin hout
      | owner => exact OwnerAt.mono hst id id fun h0 => ⟨h0, rfl, rfl⟩
  | consumeReturn sp =>
    cases sp with
    | none =>
      obtain rfl := Option.some.inj h
      exact hst
    | some sp =>
      obtain rfl := Option.some.inj h
      exact hst
  | processing sp =>
    obtain rfl := Option.some.inj h
    exact hst
  | exitLock =>
    obtain rfl := Option.some.inj h
    exact hst
  | exitCount =>
    have hout : ¬st.inside Pc.holds = true := fun hin => by cases hinside hin
    obtain rfl := Option.some.inj h
    cases u with
    | worker j =>
      have hne : j ≠ i := fun heq => hu (congrArg Who.worker heq)
      exact WorkerAt.mono hst (fun hj => Finset.mem_erase.mpr ⟨hne, hj⟩)
        (fun _ hj hmem => hj (Finset.mem_of_mem_erase hmem)) id fun _ => rfl
    | master =>
      refine MasterAt.mono hst rfl rfl id Iff.rfl rfl (fun hlive _ => ?_)
        fun hin => absurd hin hout
      exact absurd hpc.1 (by rw [hlive]; exact Finset.notMem_empty i)
    | owner => exact OwnerAt.mono hst id id fun h0 => absurd h0 hpc.2
  | exitUnlock =>
    obtain rfl := Option.some.inj h
    exact hst
  | exited => exact absurd h (by simp [workerThread])

/-- The master disturbs nobody. -/
theorem masterThread_stable {input : Input α} {pc : MasterPc α}
    {instr : Instr (Shared α) (Pc α) Cond} (h : masterThread input s pc = some instr)
    (hpc : pc.Asserts s) {u : Who} (hu : u ≠ .master)
    (hinside : st.inside Pc.holds = true → pc.holds = false) (hst : StandsAt u st s) :
    StandsAt u st (instr.leaves s) := by
  cases pc with
  | accepting =>
    rw [masterThread] at h
    split at h <;> cases h
    · exact hst
    · cases u with
      | master => exact absurd rfl hu
      | worker j => exact WorkerAt.mono hst id (fun _ h => h) id fun _ => rfl
      | owner => exact OwnerAt.mono hst id id fun h0 => ⟨h0, rfl, rfl⟩
  | produceStore sp =>
    have hout : ¬st.inside Pc.holds = true := fun hin => by cases hinside hin
    obtain rfl := Option.some.inj h
    cases u with
    | master => exact absurd rfl hu
    | worker j => exact WorkerAt.mono hst id (fun _ h => h) id fun hin => absurd hin hout
    | owner => exact OwnerAt.mono hst id id fun h0 => ⟨h0, rfl, rfl⟩
  | destroying =>
    obtain rfl := Option.some.inj h
    cases u with
    | master => exact absurd rfl hu
    | worker j => exact WorkerAt.mono hst id (fun _ h => h) id fun _ => rfl
    | owner => exact OwnerAt.mono hst id id fun h0 => ⟨h0, rfl, rfl⟩
  | signalling =>
    have h0 : s.stopFlag ≠ 0 := hpc.here.1
    obtain rfl := Option.some.inj h
    cases u with
    | master => exact absurd rfl hu
    | worker j =>
      exact WorkerAt.mono hst id (fun _ h => h) (fun _ => two_ne_zero) fun _ => rfl
    | owner =>
      exact OwnerAt.mono hst (fun _ => two_ne_zero) (fun _ => rfl) fun h => absurd h h0
  | unstarted =>
    rw [masterThread] at h
    split at h <;> cases h
    exact hst
  | loop =>
    rw [masterThread] at h
    split at h <;> cases h <;> exact hst
  | produceWhile sp =>
    rw [masterThread] at h
    split at h <;> cases h <;> exact hst
  | joinWhile =>
    rw [masterThread] at h
    split at h <;> cases h <;> exact hst
  | exited => exact absurd h (by simp [masterThread])
  | _ =>
    obtain rfl := Option.some.inj h
    exact hst

/-- The thread that starts and stops the others disturbs nobody. -/
theorem ownerThread_stable {input : Input α} {pc : OwnerPc}
    {instr : Instr (Shared α) (Pc α) Cond} (h : ownerThread input s pc = some instr)
    (hpc : pc.Asserts s) {u : Who} (hu : u ≠ .owner) (hst : StandsAt u st s) :
    StandsAt u st (instr.leaves s) := by
  cases pc with
  | startMaster =>
    obtain rfl := Option.some.inj h
    cases u with
    | owner => exact absurd rfl hu
    | worker j => exact WorkerAt.mono hst id (fun _ h => h) id fun _ => rfl
    | master =>
      exact MasterAt.mono hst rfl rfl id Iff.rfl rfl (fun h _ => h) fun _ => ⟨rfl, fun _ => rfl⟩
  | startWorker k =>
    rw [ownerThread] at h
    split at h
    · rename_i hk
      split at h <;> cases h
      · cases u with
        | owner => exact absurd rfl hu
        | worker j =>
          exact WorkerAt.mono hst Finset.mem_insert_of_mem (fun h' => absurd hpc.1 h') id
            fun _ => rfl
        | master =>
          exact MasterAt.mono hst rfl rfl id Iff.rfl rfl (fun _ h' => absurd hpc.1 h')
            fun _ => ⟨rfl, fun _ => rfl⟩
      · exact hst
    · cases h
      exact hst
  | countLoad k =>
    obtain rfl := Option.some.inj h
    exact hst
  | countStore k n =>
    obtain rfl := Option.some.inj h
    cases u with
    | owner => exact absurd rfl hu
    | worker j => exact WorkerAt.mono hst id (fun _ h => h) id fun _ => rfl
    | master =>
      exact MasterAt.mono hst rfl rfl id Iff.rfl rfl (fun h _ => h)
        fun _ => ⟨rfl, fun h' => absurd hpc.1 h'⟩
  | started =>
    obtain rfl := Option.some.inj h
    cases u with
    | owner => exact absurd rfl hu
    | worker j =>
      exact WorkerAt.mono hst id (fun _ h => h) (fun _ => Nat.one_ne_zero) fun _ => rfl
    | master =>
      refine MasterAt.mono hst rfl rfl (fun _ => Nat.one_ne_zero) ⟨fun h2 => ?_, fun h2 => ?_⟩ rfl
        (fun _ h' => absurd hpc.1 h') fun _ => ⟨rfl, fun _ => rfl⟩
      · exact absurd (show (1 : ℕ) = 2 from h2) (by decide)
      · exact absurd (hpc.1.symm.trans h2) (by decide)
  | stopping =>
    rw [ownerThread] at h
    split at h <;> cases h <;> exact hst
  | freeing =>
    obtain rfl := Option.some.inj h
    exact hst
  | freed => exact absurd h (by simp [ownerThread])

/-- **The outline of the pool.** -/
theorem pool_outline : Outline (pool (α := α)) Pc.holds Shared.Ok StandsAt where
  next t input s l instr h hs hl := by
    obtain ⟨i, pc, rfl, rfl, h⟩ | ⟨pc, rfl, rfl, h⟩ | ⟨pc, rfl, rfl, h⟩ := pool_cases h
    · exact workerThread_next h hs hl
    · exact masterThread_next h hs hl
    · exact ownerThread_next h hs hl
  stable t input s l instr u st h hs hl hu hinside hst := by
    obtain ⟨i, pc, rfl, rfl, h⟩ | ⟨pc, rfl, rfl, h⟩ | ⟨pc, rfl, rfl, h⟩ := pool_cases h
    · exact workerThread_stable h hl hu hinside hst
    · exact masterThread_stable h hl hu hinside hst
    · exact ownerThread_stable h hl hu hst
  waken t c l s h := by
    obtain ⟨i, rfl, rfl, rfl⟩ | ⟨sp, rfl, rfl, rfl⟩ | ⟨rfl, rfl, rfl⟩ := asleep_cases h
    · exact h
    · exact h
    · exact h
  resume t l s h := by
    obtain ⟨i, rfl, rfl⟩ | ⟨sp, rfl, rfl⟩ | ⟨rfl, rfl⟩ := woken_cases h
    · exact h
    · exact h
    · exact h

/-! ### Runs -/

theorem exclusive_start (zero : α) : Exclusive Pc.holds (Pool.start zero) where
  inside_iff t := by cases t <;> simp [Pool.start, Who.start, Status.inside, Pc.holds,
    WorkerPc.holds, MasterPc.holds]
  away t ht := absurd rfl (ht _)

theorem outlined_start (zero : α) : Outlined Shared.Ok StandsAt (Pool.start zero) where
  shared := ⟨RingQueue.sound_fresh, Nat.zero_le _, rfl, fun h => absurd rfl h,
    fun h => absurd h (by simp [Pool.start, Shared.fresh])⟩
  thread t := by
    cases t with
    | master =>
      exact ⟨rfl, by simp [Pool.start, Shared.fresh, MasterPc.stopped], rfl, trivial⟩
    | worker i => exact trivial
    | owner => exact ⟨rfl, rfl, rfl⟩

/-- The pool after some moves. -/
def Pool.after (zero : α) (moves : List (Move Who (Input α))) : Option (Pool α) :=
  run pool (Pool.start zero) moves

variable {zero : α} {moves : List (Move Who (Input α))} {p : Pool α}

/-- **What every move keeps.** -/
structure Pool.Proper (p : Pool α) : Prop where
  exclusive : Exclusive Pc.holds p
  outlined : Outlined Shared.Ok StandsAt p

theorem Pool.Proper.step {p' : Pool α} {m : Move Who (Input α)} (h : p.Proper)
    (hm : Step pool p m p') : p'.Proper :=
  ⟨exclusive_step pool_disciplined h.exclusive hm,
    outlined_step pool_outline h.exclusive h.outlined hm⟩

theorem proper_start (zero : α) : (Pool.start zero).Proper :=
  ⟨exclusive_start zero, outlined_start zero⟩

theorem proper_after (h : Pool.after zero moves = some p) : p.Proper := by
  obtain ⟨hexclusive, houtlined⟩ := outline_run pool_disciplined pool_outline
    (exclusive_start zero) (outlined_start zero) h
  exact ⟨hexclusive, houtlined⟩

end DialServer
