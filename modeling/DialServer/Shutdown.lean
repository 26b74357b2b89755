import DialServer.Wakeups

/-!
# Stopping the pool

`mg_stop` sets `stop_flag` and waits until the master has set it to 2, which the master does
when all workers have signed off; then the context is freed. Nobody touches it any more then:
`DialServer.context_unused`.

The flag is set, and the workers are woken, without the mutex. A worker that has seen the
flag clear and not yet gone to sleep when the broadcast comes sleeps on, and the master waits
for it for ever; and the workers leave without taking anything more out of the queue, so a
master that waits for room is never woken. These are the only ways in which `mg_stop` hangs,
if the master could be started at all (`DialServer.Pool.Doomed`, `DialServer.shutdown_exact`).
Otherwise it returns after a bounded number of moves (`DialServer.shutdown_bounded`).
-/

namespace DialServer

open Monitor

variable {α : Type} {s s' : Shared α} {t u : Who} {input : Input α} {l l' : Pc α} {c : Cond}
  {p p' : Pool α} {m : Move Who (Input α)} {zero : α} {moves ms : List (Move Who (Input α))}

/-! ### Nobody uses a context that is released -/

/-- The master has seen that there are no workers left. -/
def Pc.joined : Pc α → Bool
  | .master .joinUnlock => true
  | .master .destroying => true
  | .master .signalling => true
  | .master .exited => true
  | _ => false

/-- A worker that was never created, or has ended. -/
def AtRest (st : Status (Pc α) Cond) : Prop :=
  st = .ready (.worker .unstarted) ∨ st = .ready (.worker .exited)

/-- Once the master has seen that no workers are left, none is. -/
def Joined (p : Pool α) : Prop :=
  (p.status .master).pc.joined = true → ∀ i, AtRest (p.status (.worker i))

/-- There are no workers left once the master has seen it. -/
theorem live_of_joined (hO : Outlined Shared.Ok StandsAt p)
    (h : (p.status .master).pc.joined = true) : p.shared.live = ∅ := by
  have hA : MasterAt (p.status .master) p.shared := hO.thread .master
  obtain ⟨pc, hpc, hpcA⟩ := hA.pc
  have hhere := hpcA.here
  rw [hpc] at h
  cases pc with
  | joinUnlock => exact hhere.2
  | destroying => exact hhere.2
  | signalling => exact hhere.2
  | exited => exact hhere.2
  | _ => cases h

/-- A worker that is not counted any more, or not yet. -/
theorem atRest_of_notMem {i : Fin numThreads} {st : Status (Pc α) Cond} (h : WorkerAt i st s)
    (hi : i ∉ s.live) : AtRest st ∨ st = .ready (.worker .exitUnlock) := by
  obtain ⟨pc, hpc, hA⟩ := h.pc
  cases st with
  | ready l =>
    cases hpc
    cases pc with
    | unstarted => exact .inl (.inl rfl)
    | exited => exact .inl (.inr rfl)
    | exitUnlock => exact .inr rfl
    | loop => exact absurd hA hi
    | consumeLock => exact absurd hA hi
    | consumeWhile => exact absurd hA hi
    | consumeReturn sp =>
      cases sp with
      | none => exact absurd hA.1 hi
      | some sp => exact absurd hA hi
    | processing sp => exact absurd hA hi
    | _ => exact absurd hA.1 hi
  | asleep c l =>
    obtain ⟨j, -, -, rfl⟩ | ⟨sp, ht, -⟩ | ⟨ht, -⟩ := asleep_cases (t := .worker i) h
    · cases hpc
      exact absurd hA hi
    · cases ht
    · cases ht
  | woken l =>
    obtain ⟨j, -, rfl⟩ | ⟨sp, ht, -⟩ | ⟨ht, -⟩ := woken_cases (t := .worker i) h
    · cases hpc
      exact absurd hA hi
    · cases ht
    · cases ht

/-- Where the master is when it has seen that no workers are left. -/
theorem joined_ready {st : Status (Pc α) Cond} (h : MasterAt st s) (hj : st.pc.joined = true) :
    ∃ pc, st = .ready (.master pc) := by
  obtain ⟨pc, hpc, -⟩ := h.pc
  cases st with
  | ready l =>
    cases hpc
    exact ⟨pc, rfl⟩
  | asleep c l =>
    obtain ⟨i, -, -, rfl⟩ | ⟨sp, -, -, rfl⟩ | ⟨-, -, rfl⟩ := asleep_cases (t := .master) h <;>
      cases hj
  | woken l =>
    obtain ⟨i, -, rfl⟩ | ⟨sp, -, rfl⟩ | ⟨-, rfl⟩ := woken_cases (t := .master) h <;> cases hj

/-- The master sees it when it has the mutex. -/
theorem joined_cases (hO' : Outlined Shared.Ok StandsAt p') (hm : Step pool p m p')
    (h : (p'.status .master).pc.joined = true) :
    (p.status .master).pc.joined = true ∨ p'.status .master = .ready (.master .joinUnlock) := by
  obtain ⟨pc', hst'⟩ := joined_ready (hO'.thread .master) h
  rw [hst'] at h
  obtain hst | hst | ⟨input, pick, l, instr, -, hst, hP, hnext⟩ := hm.ready_cases hst'
  · rw [hst]
    exact .inl h
  · rw [hst]
    exact .inl h
  · obtain ⟨pc, rfl, hpc⟩ := pool_master hP
    rw [hst, hst']
    revert hpc
    fun_cases masterThread input p.shared pc <;> intro hpc <;> cases hpc <;> cases hnext <;>
      first | exact .inl rfl | exact .inr rfl | cases h

theorem joined_step (hp' : p'.Proper) (h : Joined p) (hm : Step pool p m p') : Joined p' := by
  obtain ⟨hE', hO'⟩ := hp'
  intro hj i
  have hlive : i ∉ p'.shared.live := by
    rw [live_of_joined hO' hj]
    exact Finset.notMem_empty i
  refine (atRest_of_notMem (hO'.thread (.worker i)) hlive).resolve_right fun hexit => ?_
  rcases joined_cases hO' hm hj with hbefore | hnow
  · -- A worker that was at rest does not get there.
    obtain hst | hst | ⟨input, pick, l, instr, -, hst, hP, hnext⟩ := hm.ready_cases hexit
    · rcases h hbefore i with hrest | hrest <;> rw [hst] at hrest <;> cases hrest
    · rcases h hbefore i with hrest | hrest <;> rw [hst] at hrest <;> cases hrest
    · rcases h hbefore i with hrest | hrest
      · rw [hst] at hrest
        cases hrest
        replace hP : workerThread i p.shared .unstarted = some instr := hP
        rw [workerThread] at hP
        split at hP <;> cases hP
        cases hnext
      · rw [hst] at hrest
        cases hrest
        cases hP
  · have hmaster : (p'.status .master).inside Pc.holds = true := by
      rw [hnow]
      rfl
    have hworker : (p'.status (.worker i)).inside Pc.holds = true := by
      rw [hexit]
      rfl
    exact absurd (hE'.eq_of_inside hmaster hworker) (by simp)

theorem joined_after (h : Pool.after zero moves = some p) : Joined p := by
  have hall : p.Proper ∧ Joined p :=
    run_induction (fun p : Pool α => p.Proper ∧ Joined p) ⟨proper_start zero, fun h => by cases h⟩
      (fun _ _ _ hinv hm => ⟨hinv.1.step hm, joined_step (hinv.1.step hm) hinv.2 hm⟩) h
  exact hall.2

/-- **Nobody uses a context that is released.** When `stop_flag` is 2, which is what `mg_stop`
waits for before it frees the context, the mutex is free, nobody sleeps on a condition
variable, and no thread but the one that called `mg_stop` makes another move. -/
theorem context_unused (h : Pool.after zero moves = some p) (h2 : p.shared.stopFlag = 2) :
    p.mutex = none ∧ (∀ t c l, p.status t ≠ .asleep c l) ∧
      ∀ t input pick, t ≠ .owner → step pool p (.run t input pick) = none := by
  have hE := (proper_after h).exclusive
  have hO := (proper_after h).outlined
  have hlive := (hO.shared.ended h2).1
  have hmaster : p.status .master = .ready (.master .exited) := by
    have hA : MasterAt (p.status .master) p.shared := hO.thread .master
    obtain ⟨pc, hpc, hpcA⟩ := hA.pc
    have hend : pc = .exited := by
      have hstop := hpcA.stopped.mp h2
      cases pc <;> first | rfl | cases hstop
    subst hend
    obtain ⟨pc, hst⟩ := joined_ready hA (by rw [hpc]; rfl)
    rw [hst] at hpc ⊢
    cases hpc
    rfl
  have hrest : ∀ i, AtRest (p.status (.worker i)) := by
    refine joined_after h ?_
    rw [hmaster]
    rfl
  have howner : ∃ pc, p.status .owner = .ready (.owner pc) :=
    OwnerAt.eq_ready (hO.thread .owner)
  have hready : ∀ t, ∃ l, p.status t = .ready l ∧ l.holds = false ∧
      (t = .owner ∨ ∀ input, pool t input p.shared l = none) := by
    intro t
    cases t with
    | master => exact ⟨_, hmaster, rfl, .inr fun _ => rfl⟩
    | worker i =>
      rcases hrest i with hi | hi
      · refine ⟨_, hi, rfl, .inr fun _ => if_neg ?_⟩
        rw [hlive]
        exact Finset.notMem_empty i
      · exact ⟨_, hi, rfl, .inr fun _ => rfl⟩
    | owner =>
      obtain ⟨pc, hpc⟩ := howner
      exact ⟨_, hpc, rfl, .inl rfl⟩
  refine ⟨?_, fun t c l hl => ?_, fun t input pick ht => ?_⟩
  · cases hmutex : p.mutex with
    | none => rfl
    | some t =>
      obtain ⟨l, hl, hout, -⟩ := hready t
      have hin := (hE.inside_iff t).mpr hmutex
      rw [hl, Status.inside, hout] at hin
      cases hin
  · obtain ⟨k, hk, -⟩ := hready t
    rw [hk] at hl
    cases hl
  · obtain ⟨l, hl, -, hnone⟩ := hready t
    rw [step, hl]
    exact congrArg (fun i => Option.bind i (exec p t pick)) (hnone.resolve_left ht input)

/-- A thread goes on; what it tries fails. -/
def failsOn (t : Who) : Move Who (Input ℕ) := .run t ⟨none, false⟩ none

/-- One worker is started and serves a connection, and the pool is stopped again. -/
def servedMoves : List (Move Who (Input ℕ)) :=
  [goesOn .owner, goesOn .owner, goesOn .owner, goesOn .owner, failsOn .owner, failsOn .owner,
    failsOn .owner, goesOn .owner] ++
  -- the master accepts, and puts the connection into the queue
  [goesOn .master, goesOn .master, .run .master ⟨some 7, true⟩ none, goesOn .master,
    goesOn .master, goesOn .master, goesOn .master] ++
  -- the worker takes it out and serves it
  [goesOn (.worker 0), goesOn (.worker 0), goesOn (.worker 0), goesOn (.worker 0),
    goesOn (.worker 0), goesOn (.worker 0), goesOn (.worker 0)] ++
  -- the flag is set, the worker signs off, and the master does the rest
  [goesOn .owner, goesOn (.worker 0), goesOn (.worker 0), goesOn (.worker 0),
    goesOn (.worker 0), goesOn .master, goesOn .master, goesOn .master, goesOn .master,
    goesOn .master, goesOn .master, goesOn .master]

theorem context_unused_served : ∃ p, Pool.after 0 servedMoves = some p ∧ p.shared.taken = [7] ∧
    p.status (.worker 0) = .ready (.worker .exited) ∧ p.mutex = none ∧
    (∀ t c l, p.status t ≠ .asleep c l) ∧
      ∀ t input pick, t ≠ .owner → step pool p (.run t input pick) = none :=
  ⟨_, rfl, rfl, rfl, context_unused (show Pool.after 0 servedMoves = some _ from rfl) rfl⟩

/-! ### How long stopping takes -/

/-- How many moves a worker can make at most once the flag is set. -/
def WorkerPc.rank : WorkerPc α → ℕ
  | .unstarted => 8
  | .loop => 7
  | .consumeLock => 10
  | .consumeWhile => 9
  | .consumeWait => 12
  | .consumeIf => 8
  | .consumeReturn none => 7
  | .consumeReturn (some _) => 9
  | .processing _ => 8
  | .exitLock => 6
  -- Signing off may wake the master, who has to go round its loop again.
  | .exitCount => 5
  | .exitUnlock => 1
  | .exited => 0

/-- How many moves the master can make at most, but for those that workers make it make. -/
def MasterPc.rank : MasterPc α → ℕ
  | .unstarted => 10
  | .loop => 9
  | .accepting => 16
  | .produceLock _ => 15
  | .produceWhile _ => 14
  | .produceWait _ => 13
  | .produceStore _ => 11
  | .produceReturn => 10
  | .broadcasting => 8
  | .joinLock => 7
  | .joinWhile => 6
  | .joinWait => 5
  | .joinUnlock => 3
  | .destroying => 2
  | .signalling => 1
  | .exited => 0

/-- How many moves a thread can make at most once the flag is set. -/
def rank : Status (Pc α) Cond → ℕ
  | .ready (.worker pc) => pc.rank
  | .ready (.master pc) => pc.rank
  | .asleep .sqFull _ => 11
  | .asleep .sqEmpty _ => 12
  | .asleep .cond _ => 4
  | .woken (.worker _) => 10
  | .woken (.master (.produceWhile _)) => 15
  | .woken (.master _) => 7
  | _ => 0

/-- The flag is not cleared again. -/
theorem stopFlag_step (hm : Step pool p m p') (h : p'.shared.stopFlag = 0) :
    p.shared.stopFlag = 0 := by
  have hsignal : ∀ {t input l l' c s}, pool t input p.shared l = some (.signal c l' s) →
      s.stopFlag = p.shared.stopFlag := by
    intro t input l l' c s hP
    obtain ⟨i, -, -, -, -, -, rfl⟩ | ⟨i, -, -, -, -, rfl⟩ | ⟨sp, -, -, -, -, rfl⟩ := pool_signal hP
    · rfl
    · rfl
    · rfl
  cases hm with
  | act hst hP => exact pool_act_stopFlag hP h
  | lost hst hP hnone => exact (hsignal hP).symm.trans h
  | signal hst hP hu hne => exact (hsignal hP).symm.trans h
  | lock hst hP hfree => exact h
  | unlock hst hP => exact h
  | wait hst hP => exact h
  | broadcast hst hP => exact h
  | resume hst hfree => exact h
  | spurious hst => exact h

/-- Each instruction brings a worker nearer to its end. -/
theorem workerThread_rank {i : Fin numThreads} {pc : WorkerPc α}
    {instr : Instr (Shared α) (Pc α) Cond} (h : workerThread i s pc = some instr)
    (h0 : s.stopFlag ≠ 0) : rank instr.status < pc.rank := by
  cases pc with
  | unstarted =>
    rw [workerThread] at h
    split at h <;> cases h
    exact Nat.le_of_ble_eq_true rfl
  | loop =>
    rw [workerThread, if_neg h0] at h
    cases h
    exact Nat.le_of_ble_eq_true rfl
  | consumeWhile =>
    rw [workerThread, if_neg fun h' => h0 h'.2] at h
    cases h
    exact Nat.le_of_ble_eq_true rfl
  | consumeIf =>
    rw [workerThread, if_pos h0] at h
    cases h
    exact Nat.le_of_ble_eq_true rfl
  | consumeReturn sp =>
    cases sp with
    | none =>
      obtain rfl := Option.some.inj h
      exact Nat.le_of_ble_eq_true rfl
    | some sp =>
      obtain rfl := Option.some.inj h
      exact Nat.le_of_ble_eq_true rfl
  | exited => cases h
  | _ =>
    obtain rfl := Option.some.inj h
    exact Nat.le_of_ble_eq_true rfl

/-- Each instruction brings the master nearer to its end. -/
theorem masterThread_rank {pc : MasterPc α} {instr : Instr (Shared α) (Pc α) Cond}
    (h : masterThread input s pc = some instr) (h0 : s.stopFlag ≠ 0) :
    rank instr.status < pc.rank := by
  cases pc with
  | unstarted =>
    rw [masterThread] at h
    split at h <;> cases h
    exact Nat.le_of_ble_eq_true rfl
  | loop =>
    rw [masterThread, if_neg h0] at h
    cases h
    exact Nat.le_of_ble_eq_true rfl
  | accepting =>
    rw [masterThread] at h
    split at h <;> cases h
    · exact Nat.le_of_ble_eq_true rfl
    · exact Nat.le_of_ble_eq_true rfl
  | produceWhile sp =>
    rw [masterThread] at h
    split at h <;> cases h
    · exact Nat.le_of_ble_eq_true rfl
    · exact Nat.le_of_ble_eq_true rfl
  | joinWhile =>
    rw [masterThread] at h
    split at h <;> cases h <;> exact Nat.le_of_ble_eq_true rfl
  | exited => cases h
  | _ =>
    obtain rfl := Option.some.inj h
    exact Nat.le_of_ble_eq_true rfl

/-- Each instruction of another thread than the one that stops the server counts. -/
theorem pool_rank {instr : Instr (Shared α) (Pc α) Cond} (h : pool t input s l = some instr)
    (ht : t ≠ .owner) (h0 : s.stopFlag ≠ 0) : rank instr.status < rank (.ready l) := by
  replace h := pool_cases h
  obtain ⟨i, pc, rfl, rfl, h⟩ | ⟨pc, rfl, rfl, h⟩ | ⟨pc, rfl, rfl, h⟩ := h
  · exact workerThread_rank h h0
  · exact masterThread_rank h h0
  · exact absurd rfl ht

theorem rank_update {f : Who → Status (Pc α) Cond} {t : Who} {st : Status (Pc α) Cond}
    (h : rank st < rank (f t)) : total rank (Function.update f t st) < total rank f := by
  have := total_update rank f t st
  omega

/-- **Each move of another thread than the one that stops the server counts.** -/
theorem rank_step (hp : p.Proper) (h0 : p.shared.stopFlag ≠ 0) {pick : Option Who}
    (hm : Step pool p (.run t input pick) p') (ht : t ≠ .owner) :
    total rank p'.status < total rank p.status := by
  have hO := hp.outlined
  cases hm with
  | act hst hP => exact rank_update (hst ▸ pool_rank hP ht h0)
  | lock hst hP hfree => exact rank_update (hst ▸ pool_rank hP ht h0)
  | unlock hst hP => exact rank_update (hst ▸ pool_rank hP ht h0)
  | wait hst hP => exact rank_update (hst ▸ pool_rank hP ht h0)
  | lost hst hP hnone => exact rank_update (hst ▸ pool_rank hP ht h0)
  | @signal _ _ l c l' s u k hst hP hu hne =>
    have hAu := hO.thread u
    rw [hu] at hAu
    have hut : Function.update p.status u (.woken k) t = .ready l := by
      rw [Function.update_of_ne hne.symm, hst]
    have htotal := total_update rank (Function.update p.status u (.woken k)) t (.ready l')
    have htotal' := total_update rank p.status u (.woken k)
    have hless : rank (.ready l') < rank (.ready l) := pool_rank hP ht h0
    rw [hut] at htotal
    rw [hu] at htotal'
    obtain ⟨i, rfl, rfl, rfl, h0', rfl, rfl⟩ | ⟨i, rfl, rfl, rfl, rfl, rfl⟩ |
      ⟨sp, rfl, rfl, rfl, rfl, rfl⟩ := pool_signal hP
    · exact absurd h0' h0
    · obtain ⟨j, -, hc, -⟩ | ⟨sp, -, hc, -⟩ | ⟨rfl, -, rfl⟩ := asleep_cases hAu
      · cases hc
      · cases hc
      · have hmore : rank (.ready (.worker .exitUnlock) : Status (Pc α) Cond) + 3 <
            rank (.ready (.worker .exitCount) : Status (Pc α) Cond) := Nat.le_of_ble_eq_true rfl
        have hwoken : rank (.woken (.master .joinWhile) : Status (Pc α) Cond) =
            rank (.asleep .cond (.master .joinWhile) : Status (Pc α) Cond) + 3 := rfl
        simp only
        omega
    · obtain ⟨j, rfl, -, rfl⟩ | ⟨sp, -, hc, -⟩ | ⟨-, hc, -⟩ := asleep_cases hAu
      · have hwoken : rank (.woken (.worker .consumeWhile) : Status (Pc α) Cond) ≤
            rank (.asleep .sqFull (.worker .consumeWhile) : Status (Pc α) Cond) :=
          Nat.le_of_ble_eq_true rfl
        simp only
        omega
      · cases hc
      · cases hc
  | @broadcast _ _ _ l c l' hst hP =>
    obtain ⟨rfl, rfl, rfl, rfl⟩ := pool_broadcast hP
    have hrouse : total rank (fun u => (p.status u).rouse .sqFull) ≤ total rank p.status := by
      refine total_mono fun u => ?_
      have hA := hO.thread u
      cases hu : p.status u with
      | ready k => exact le_rfl
      | asleep c k =>
        rw [hu] at hA
        obtain ⟨j, -, rfl, rfl⟩ | ⟨sp, -, rfl, rfl⟩ | ⟨-, rfl, rfl⟩ := asleep_cases hA
        · exact Nat.le_of_ble_eq_true rfl
        · exact le_rfl
        · exact le_rfl
      | woken k => exact le_rfl
    refine (rank_update ?_).trans_le hrouse
    rw [hst]
    exact Nat.le_of_ble_eq_true rfl
  | @resume _ _ _ l hst hfree =>
    refine rank_update ?_
    have hA := hO.thread t
    rw [hst] at hA ⊢
    obtain ⟨i, rfl, rfl⟩ | ⟨sp, rfl, rfl⟩ | ⟨rfl, rfl⟩ := woken_cases hA
    · exact Nat.le_of_ble_eq_true rfl
    · exact Nat.le_of_ble_eq_true rfl
    · exact Nat.le_of_ble_eq_true rfl

/-- The thread that stops the server only waits meanwhile. -/
theorem rank_step_owner (hp : p.Proper) {pick : Option Who}
    (hm : Step pool p (.run .owner input pick) p') :
    total rank p'.status = total rank p.status := by
  have hA : OwnerAt (p.status .owner) p.shared := hp.outlined.thread .owner
  have howner : ∀ {l instr}, pool .owner input p.shared l = some instr →
      ∃ pc l' s, l = .owner pc ∧ instr = .act (.owner l') s := by
    intro l instr hP
    obtain ⟨pc, rfl, hpc⟩ := pool_owner hP
    revert hpc
    fun_cases ownerThread input p.shared pc <;> intro hpc <;> cases hpc <;>
      exact ⟨_, _, _, rfl, rfl⟩
  cases hm with
  | act hst hP =>
    obtain ⟨pc, l', s, rfl, heq⟩ := howner hP
    cases heq
    have htotal := total_update rank p.status .owner (.ready (.owner l'))
    rw [hst] at htotal
    exact htotal
  | lock hst hP hfree => obtain ⟨pc, l', s, -, heq⟩ := howner hP; cases heq
  | unlock hst hP => obtain ⟨pc, l', s, -, heq⟩ := howner hP; cases heq
  | wait hst hP => obtain ⟨pc, l', s, -, heq⟩ := howner hP; cases heq
  | lost hst hP hnone => obtain ⟨pc, l', s, -, heq⟩ := howner hP; cases heq
  | signal hst hP hu hne => obtain ⟨pc, l', s, -, heq⟩ := howner hP; cases heq
  | broadcast hst hP => obtain ⟨pc, l', s, -, heq⟩ := howner hP; cases heq
  | resume hst hfree =>
    rw [hst] at hA
    exact absurd hA (by simp [OwnerAt])

/-- A move that a thread makes, and not a wakeup that nobody asked for. -/
def Asked : Move Who (Input α) → Prop
  | .run _ _ _ => True
  | .spurious _ => False

/-- A move of the master or of a worker. -/
def ofPool : Move Who (Input α) → Bool
  | .run t _ _ => t ≠ .owner
  | .spurious _ => false

/-- What a run leaves of the moves there were. -/
theorem rank_run (hp : p.Proper) (h0 : p.shared.stopFlag ≠ 0) (hms : ∀ m ∈ ms, Asked m)
    (hrun : run pool p ms = some p') :
    ms.countP ofPool + total rank p'.status ≤ total rank p.status := by
  induction ms generalizing p with
  | nil =>
    rw [run] at hrun
    cases hrun
    simp
  | cons m ms ih =>
    rw [run] at hrun
    obtain ⟨p₁, hstep, hrest⟩ := Option.bind_eq_some_iff.mp hrun
    have hm := step_cases hstep
    have hle := ih (hp.step hm) (fun h => h0 (stopFlag_step hm h))
      (fun m' hm' => hms m' (List.mem_cons_of_mem _ hm')) hrest
    have hasked := hms m List.mem_cons_self
    cases m with
    | spurious t => exact hasked.elim
    | run t input pick =>
      by_cases ht : t = .owner
      · subst ht
        have heq := rank_step_owner hp hm
        rw [List.countP_cons_of_neg (by simp [ofPool])]
        omega
      · have hlt := rank_step hp h0 hm ht
        rw [List.countP_cons_of_pos (by simp [ofPool, ht])]
        omega

theorem WorkerPc.rank_le (pc : WorkerPc α) : pc.rank ≤ 12 := by
  cases pc with
  | consumeReturn sp => cases sp <;> exact Nat.le_of_ble_eq_true rfl
  | _ => exact Nat.le_of_ble_eq_true rfl

theorem MasterPc.rank_le (pc : MasterPc α) : pc.rank ≤ 16 := by
  cases pc <;> exact Nat.le_of_ble_eq_true rfl

theorem rank_le (hO : Outlined Shared.Ok StandsAt p) : total rank p.status ≤ 64 := by
  have hle : ∀ t, rank (p.status t) ≤
      if t = .master then 16 else if t = .owner then 0 else 12 := by
    intro t
    have hA := hO.thread t
    cases hst : p.status t with
    | ready l =>
      rw [hst] at hA
      obtain ⟨i, pc, rfl, rfl⟩ | ⟨pc, rfl, rfl⟩ | ⟨pc, rfl, rfl⟩ := ready_cases hA
      · exact pc.rank_le
      · exact pc.rank_le
      · exact le_rfl
    | asleep c l =>
      rw [hst] at hA
      obtain ⟨i, rfl, rfl, rfl⟩ | ⟨sp, rfl, rfl, rfl⟩ | ⟨rfl, rfl, rfl⟩ := asleep_cases hA <;>
        exact Nat.le_of_ble_eq_true rfl
    | woken l =>
      rw [hst] at hA
      obtain ⟨i, rfl, rfl⟩ | ⟨sp, rfl, rfl⟩ | ⟨rfl, rfl⟩ := woken_cases hA <;>
        exact Nat.le_of_ble_eq_true rfl
  exact (Finset.sum_le_sum fun t _ => hle t).trans (by decide)

/-- **Stopping does not go on for ever.** Once `stop_flag` is set, the master and the workers
make no more than 64 moves together, in whatever order, if no thread wakes up unasked. -/
theorem shutdown_bounded (h : Pool.after zero moves = some p) (h0 : p.shared.stopFlag ≠ 0)
    (hms : ∀ m ∈ ms, Asked m) (hrun : run pool p ms = some p') : ms.countP ofPool ≤ 64 := by
  have hp := proper_after h
  have hrank := rank_run hp h0 hms hrun
  have hle := rank_le hp.outlined
  omega

/-- One worker is started, and has decided to sleep when the others learn that the server
stops. -/
def raceMoves : List (Move Who (Input ℕ)) :=
  [goesOn .owner, goesOn .owner, goesOn .owner, goesOn .owner, failsOn .owner, failsOn .owner,
    failsOn .owner, goesOn .owner, goesOn .master, goesOn (.worker 0), goesOn (.worker 0),
    goesOn (.worker 0), goesOn (.worker 0), goesOn .owner, goesOn .master, goesOn .master]

theorem shutdown_bounded_race : ∃ p p', Pool.after 0 raceMoves = some p ∧
    run pool p [goesOn (.worker 0), goesOn .master] = some p' ∧
    [goesOn (.worker 0), goesOn .master].countP ofPool ≤ 64 :=
  ⟨_, _, rfl, rfl, shutdown_bounded (show Pool.after 0 raceMoves = some _ from rfl)
    Nat.one_ne_zero (by simp [Asked, goesOn])
    (show run pool _ [goesOn (.worker 0), goesOn .master] = some _ from rfl)⟩

/-! ### How stopping can fail -/

/-- The master has woken the workers. -/
def Pc.broadcasted : Pc α → Bool
  | .master .joinLock => true
  | .master .joinWhile => true
  | .master .joinWait => true
  | .master .joinUnlock => true
  | .master .destroying => true
  | .master .signalling => true
  | .master .exited => true
  | _ => false

/-- A worker sleeps, or has decided to. -/
def Dozing (st : Status (Pc α) Cond) : Prop :=
  st = .ready (.worker .consumeWait) ∨ st = .asleep .sqFull (.worker .consumeWhile)

/-- The master waits for room in the queue, or has decided to. -/
def Pool.Stuffed (p : Pool α) : Prop :=
  ∃ sp, p.status .master = .ready (.master (.produceWait sp)) ∨
    p.status .master = .asleep .sqEmpty (.master (.produceWhile sp))

/-- **The ways in which `mg_stop` hangs**: the master was never started, it waits for room in
the queue, or it has woken the workers while one of them was about to sleep. -/
def Pool.Doomed (p : Pool α) : Prop :=
  p.shared.stopFlag ≠ 0 ∧
    ((p.status .master = .ready (.master .unstarted) ∧ p.shared.masterCreated = false) ∨
      p.Stuffed ∨
      (p.status .master).pc.broadcasted = true ∧ ∃ i, Dozing (p.status (.worker i)))

/-- Nobody but the thread that stops the server can make a move. -/
def Pool.Quiet (p : Pool α) : Prop :=
  ∀ t input pick, t ≠ .owner → step pool p (.run t input pick) = none

/-- A pool that is doomed is not stopped. -/
theorem Pool.Doomed.stopFlag_ne (h : p.Doomed) (hO : Outlined Shared.Ok StandsAt p) :
    p.shared.stopFlag ≠ 2 := by
  intro h2
  have hA : MasterAt (p.status .master) p.shared := hO.thread .master
  obtain ⟨hst, -⟩ | ⟨sp, hst | hst⟩ | ⟨-, i, hi | hi⟩ := h.2
  · rw [hst] at hA
    cases (MasterPc.Asserts.stopped hA).mp h2
  · rw [hst] at hA
    cases (MasterPc.Asserts.stopped hA).mp h2
  · rw [hst] at hA
    cases (MasterPc.Asserts.stopped hA).mp h2
  · have hlive : WorkerAt i (p.status (.worker i)) p.shared := hO.thread (.worker i)
    rw [hi] at hlive
    exact absurd hlive.1 (by rw [(hO.shared.ended h2).1]; exact Finset.notMem_empty i)
  · have hlive : WorkerAt i (p.status (.worker i)) p.shared := hO.thread (.worker i)
    rw [hi] at hlive
    replace hlive : i ∈ p.shared.live := hlive
    exact absurd hlive (by rw [(hO.shared.ended h2).1]; exact Finset.notMem_empty i)

/-- The master goes on once it has woken the workers. -/
theorem broadcasted_step (hm : Step pool p m p')
    (h : (p.status .master).pc.broadcasted = true) :
    (p'.status .master).pc.broadcasted = true := by
  obtain hpc | ⟨input, pick, l, instr, -, hst, hP, hst'⟩ := hm.pc_cases
  · rw [hpc]
    exact h
  · rw [hst] at h
    rw [hst']
    obtain ⟨pc, rfl, hpc⟩ := pool_master hP
    revert hpc
    fun_cases masterThread input p.shared pc <;> intro hpc <;> cases hpc <;>
      first | rfl | cases h

/-- A worker that sleeps, or has decided to, does so until it is signalled. -/
theorem dozing_step {i : Fin numThreads} (hbroad : (p.status .master).pc.broadcasted = true)
    (h : Dozing (p.status (.worker i))) (hm : Step pool p m p') (hasked : Asked m) :
    Dozing (p'.status (.worker i)) := by
  rcases h with hst | hst
  · obtain hst' | ⟨input, pick, instr, -, hP, hst'⟩ := hm.of_ready hst
    · exact .inl hst'
    · replace hP : workerThread i p.shared .consumeWait = some instr := hP
      cases hP
      exact .inr hst'
  · obtain hst' | rfl | ⟨u, input, pick, k, instr, -, hu, hP, hinstr⟩ := hm.of_asleep hst
    · exact .inr hst'
    · exact absurd hasked id
    · -- Only a master that has not woken the workers yet wakes one.
      exfalso
      obtain ⟨k', s, rfl⟩ | ⟨k', rfl⟩ := hinstr
      · obtain ⟨j, -, hc, -⟩ | ⟨j, -, hc, -⟩ | ⟨sp, rfl, -, rfl, -, -⟩ := pool_signal hP
        · cases hc
        · cases hc
        · rw [hu] at hbroad
          cases hbroad
      · obtain ⟨rfl, -, rfl, -⟩ := pool_broadcast hP
        rw [hu] at hbroad
        cases hbroad

/-- A master that waits for room does so for ever once the flag is set. -/
theorem stuffed_step (h0 : p.shared.stopFlag ≠ 0) (h : p.Stuffed) (hm : Step pool p m p')
    (hasked : Asked m) : p'.Stuffed := by
  obtain ⟨sp, hst | hst⟩ := h
  · obtain hst' | ⟨input, pick, instr, -, hP, hst'⟩ := hm.of_ready hst
    · exact ⟨sp, .inl hst'⟩
    · replace hP : masterThread input p.shared (.produceWait sp) = some instr := hP
      cases hP
      exact ⟨sp, .inr hst'⟩
  · obtain hst' | rfl | ⟨u, input, pick, k, instr, -, hu, hP, hinstr⟩ := hm.of_asleep hst
    · exact ⟨sp, .inr hst'⟩
    · exact absurd hasked id
    · exfalso
      obtain ⟨k', s, rfl⟩ | ⟨k', rfl⟩ := hinstr
      · obtain ⟨j, -, -, -, h0', -⟩ | ⟨j, -, hc, -⟩ | ⟨sp, -, hc, -⟩ := pool_signal hP
        · exact h0 h0'
        · cases hc
        · cases hc
      · obtain ⟨-, hc, -⟩ := pool_broadcast hP
        cases hc

/-- The master cannot be started any more. -/
theorem masterCreated_step (hO : Outlined Shared.Ok StandsAt p) (h0 : p.shared.stopFlag ≠ 0)
    (h : p.shared.masterCreated = false) (hm : Step pool p m p') :
    p'.shared.masterCreated = false := by
  cases hm with
  | @act t input pick l l' s hst hP =>
    have hA := hO.thread t
    rw [hst] at hA
    replace hP := pool_cases hP
    obtain ⟨i, pc, rfl, rfl, hP⟩ | ⟨pc, rfl, rfl, hP⟩ | ⟨pc, rfl, rfl, hP⟩ := hP
    · revert hP
      fun_cases workerThread i p.shared pc <;> intro hP <;> cases hP <;> exact h
    · revert hP
      fun_cases masterThread input p.shared pc <;> intro hP <;> cases hP <;> exact h
    · revert hP hA
      fun_cases ownerThread input p.shared pc <;> intro hP hA <;> cases hP <;>
        first | exact h | exact absurd hA.1 h0
  | lost hst hP hnone =>
    obtain ⟨i, -, -, -, -, -, rfl⟩ | ⟨i, -, -, -, -, rfl⟩ | ⟨sp, -, -, -, -, rfl⟩ := pool_signal hP
    · exact h
    · exact h
    · exact h
  | signal hst hP hu hne =>
    obtain ⟨i, -, -, -, -, -, rfl⟩ | ⟨i, -, -, -, -, rfl⟩ | ⟨sp, -, -, -, -, rfl⟩ := pool_signal hP
    · exact h
    · exact h
    · exact h
  | lock hst hP hfree => exact h
  | unlock hst hP => exact h
  | wait hst hP => exact h
  | broadcast hst hP => exact h
  | resume hst hfree => exact h
  | spurious hst => exact h

/-- **What is doomed stays doomed.** -/
theorem Pool.Doomed.step (h : p.Doomed) (hp : p.Proper) (hm : Step pool p m p')
    (hasked : Asked m) : p'.Doomed := by
  refine ⟨fun h0 => h.1 (stopFlag_step hm h0), ?_⟩
  obtain ⟨hst, hcreated⟩ | hstuffed | ⟨hbroad, i, hi⟩ := h.2
  · refine .inl ⟨?_, masterCreated_step hp.outlined h.1 hcreated hm⟩
    obtain hst' | ⟨input, pick, instr, -, hP, -⟩ := hm.of_ready hst
    · exact hst'
    · replace hP : masterThread input p.shared .unstarted = some instr := hP
      rw [masterThread, if_neg (by simp [hcreated])] at hP
      cases hP
  · exact .inr (.inl (stuffed_step h.1 hstuffed hm hasked))
  · exact .inr (.inr ⟨broadcasted_step hm hbroad, i, dozing_step hbroad hi hm hasked⟩)

theorem Pool.Doomed.run (h : p.Doomed) (hp : p.Proper) (hms : ∀ m ∈ ms, Asked m)
    (hrun : Monitor.run pool p ms = some p') : p'.Doomed ∧ p'.Proper := by
  induction ms generalizing p with
  | nil =>
    cases hrun
    exact ⟨h, hp⟩
  | cons m ms ih =>
    rw [Monitor.run] at hrun
    obtain ⟨p₁, hstep, hrest⟩ := Option.bind_eq_some_iff.mp hrun
    have hm := step_cases hstep
    exact ih (h.step hp hm (hms m List.mem_cons_self)) (hp.step hm)
      (fun m' hm' => hms m' (List.mem_cons_of_mem _ hm')) hrest

/-! ### How stopping ends -/

/-- Where a worker has nothing to do. -/
theorem workerThread_none {i : Fin numThreads} {pc : WorkerPc α}
    (h : workerThread i s pc = none) : pc = .unstarted ∧ i ∉ s.live ∨ pc = .exited := by
  revert h
  fun_cases workerThread i s pc <;> intro h <;> cases h
  · rename_i hlive
    exact .inl ⟨rfl, hlive⟩
  · exact .inr rfl

/-- Where the master has nothing to do. -/
theorem masterThread_none {pc : MasterPc α} (h : masterThread input s pc = none) :
    pc = .unstarted ∧ s.masterCreated = false ∨ pc = .exited := by
  revert h
  fun_cases masterThread input s pc <;> intro h <;> cases h
  · rename_i hcreated
    exact .inl ⟨rfl, by simpa using hcreated⟩
  · exact .inr rfl

/-- Nobody has the mutex when nobody can move: who has it can always go on. -/
theorem Pool.Quiet.mutex_eq (h : p.Quiet) (hp : p.Proper) : p.mutex = none := by
  cases hmutex : p.mutex with
  | none => rfl
  | some t =>
    have hin := (hp.exclusive.inside_iff t).mpr hmutex
    have hA := hp.outlined.thread t
    cases hst : p.status t with
    | asleep c l =>
      rw [hst] at hin
      cases hin
    | woken l =>
      rw [hst] at hin
      cases hin
    | ready l =>
      rw [hst] at hin hA
      replace hin : l.holds = true := hin
      have hsome : t ≠ .owner ∧ ∃ instr, pool t ⟨none, true⟩ p.shared l = some instr := by
        obtain ⟨i, pc, rfl, rfl⟩ | ⟨pc, rfl, rfl⟩ | ⟨pc, rfl, rfl⟩ := ready_cases hA
        · refine ⟨by simp, Option.ne_none_iff_exists'.mp fun hnone => ?_⟩
          obtain ⟨rfl, -⟩ | rfl := workerThread_none hnone
          · cases hin
          · cases hin
        · refine ⟨by simp, Option.ne_none_iff_exists'.mp fun hnone => ?_⟩
          replace hnone : masterThread ⟨none, true⟩ p.shared pc = none := hnone
          obtain ⟨rfl, -⟩ | rfl := masterThread_none hnone
          · cases hin
          · cases hin
        · cases hin
      obtain ⟨ht, instr, hP⟩ := hsome
      obtain ⟨pick, hstep⟩ := exists_step_of_ready hst hP fun l' heq => by
        subst heq
        exact absurd (pool_disciplined _ _ _ _ _ hP).1 (by simp [hin])
      exact absurd (h t _ pick ht) hstep

/-- When nobody can move, whoever is ready has nothing to do. -/
theorem Pool.Quiet.pool_eq (h : p.Quiet) (hp : p.Proper) (ht : t ≠ .owner)
    (hst : p.status t = .ready l) (input : Input α) : pool t input p.shared l = none := by
  cases hP : pool t input p.shared l with
  | none => rfl
  | some instr =>
    obtain ⟨pick, hstep⟩ := exists_step_of_ready hst hP fun _ _ => h.mutex_eq hp
    exact absurd (h t input pick ht) hstep

/-- A worker that is left when nobody can move sleeps. -/
theorem Pool.Quiet.dozing (h : p.Quiet) (hp : p.Proper) {i : Fin numThreads}
    (hi : i ∈ p.shared.live) : Dozing (p.status (.worker i)) := by
  have hA : WorkerAt i (p.status (.worker i)) p.shared := hp.outlined.thread (.worker i)
  cases hst : p.status (.worker i) with
  | ready l =>
    rw [hst] at hA
    obtain ⟨pc, hpc, hpcA⟩ := hA.pc
    cases hpc
    have hnone := h.pool_eq hp (t := .worker i) (by simp) hst ⟨none, true⟩
    obtain ⟨-, hlive⟩ | rfl := workerThread_none hnone
    · exact absurd hi hlive
    · exact absurd hi hpcA.1
  | asleep c l =>
    rw [hst] at hA
    obtain ⟨j, -, rfl, rfl⟩ | ⟨sp, ht, -⟩ | ⟨ht, -⟩ := asleep_cases (t := .worker i) hA
    · exact .inr rfl
    · cases ht
    · cases ht
  | woken l =>
    exact absurd (h (.worker i) ⟨none, true⟩ none (by simp))
      (step_of_woken hst (h.mutex_eq hp) _ _)

/-- **When nobody can move any more, the pool is stopped or doomed.** -/
theorem Pool.Quiet.stopped_or_doomed (h : p.Quiet) (hp : p.Proper) (hw : Wakes p)
    (h0 : p.shared.stopFlag ≠ 0) : p.shared.stopFlag = 2 ∨ p.Doomed := by
  have hA : MasterAt (p.status .master) p.shared := hp.outlined.thread .master
  cases hst : p.status .master with
  | ready l =>
    rw [hst] at hA
    obtain ⟨pc, hpc, hpcA⟩ := hA.pc
    cases hpc
    have hnone : masterThread ⟨none, true⟩ p.shared pc = none :=
      h.pool_eq hp (t := .master) (by simp) hst ⟨none, true⟩
    obtain ⟨rfl, hcreated⟩ | rfl := masterThread_none hnone
    · exact .inr ⟨h0, .inl ⟨hst, hcreated⟩⟩
    · exact .inl (hpcA.stopped.mpr rfl)
  | asleep c l =>
    rw [hst] at hA
    obtain ⟨i, ht, -⟩ | ⟨sp, -, rfl, rfl⟩ | ⟨-, rfl, rfl⟩ := asleep_cases (t := .master) hA
    · cases ht
    · exact .inr ⟨h0, .inr (.inl ⟨sp, .inr hst⟩)⟩
    · -- The master waits for a worker, and that one sleeps.
      have hpos := hw.joining _ hst
      have hcount := hp.outlined.shared.counted h0
      have hcard : 0 < p.shared.live.card := by omega
      obtain ⟨i, hi⟩ := Finset.card_pos.mp hcard
      refine .inr ⟨h0, .inr (.inr ⟨?_, i, h.dozing hp hi⟩)⟩
      rw [hst]
      rfl
  | woken l =>
    exact absurd (h .master ⟨none, true⟩ none (by simp)) (step_of_woken hst (h.mutex_eq hp) _ _)

/-- **When `mg_stop` returns, and when it hangs.** Once `stop_flag` is set, a pool that is
doomed stays so, and the flag never becomes 2; and when nobody can move any more, the flag is
2 if and only if the pool is not doomed. -/
theorem shutdown_exact (h : Pool.after zero moves = some p) (h0 : p.shared.stopFlag ≠ 0) :
    (p.Doomed → ∀ ms (p' : Pool α), (∀ m ∈ ms, Asked m) → run pool p ms = some p' →
      p'.Doomed ∧ p'.shared.stopFlag ≠ 2) ∧
    (p.Quiet → (p.shared.stopFlag = 2 ↔ ¬p.Doomed)) := by
  have hp := proper_after h
  refine ⟨fun hd ms p' hms hrun => ?_, fun hq => ⟨fun h2 hd => ?_, fun hd => ?_⟩⟩
  · obtain ⟨hd', hp'⟩ := hd.run hp hms hrun
    exact ⟨hd', hd'.stopFlag_ne hp'.outlined⟩
  · exact hd.stopFlag_ne hp.outlined h2
  · exact (hq.stopped_or_doomed hp (wakes_after h) h0).resolve_right hd

/-- The race: the worker sleeps for ever, and `mg_stop` does not return. -/
theorem shutdown_exact_race : ∃ p, Pool.after 0 raceMoves = some p ∧ p.Doomed ∧
    ∀ ms (p' : Pool ℕ), (∀ m ∈ ms, Asked m) → run pool p ms = some p' →
      p'.Doomed ∧ p'.shared.stopFlag ≠ 2 :=
  have hdoomed : ∃ p, Pool.after 0 raceMoves = some p ∧ p.Doomed :=
    ⟨_, rfl, Nat.one_ne_zero, .inr (.inr ⟨rfl, 0, .inl rfl⟩)⟩
  have ⟨p, h, hd⟩ := hdoomed
  ⟨p, h, hd, (shutdown_exact h hd.1).1 hd⟩

/-- The flag is set when the master wakes the workers. -/
theorem stopFlag_of_broadcasted (hO : Outlined Shared.Ok StandsAt p)
    (h : (p.status .master).pc.broadcasted = true) : p.shared.stopFlag ≠ 0 := by
  have hA : MasterAt (p.status .master) p.shared := hO.thread .master
  obtain ⟨pc, hpc, hpcA⟩ := hA.pc
  have hhere := hpcA.here
  rw [hpc] at h
  cases pc with
  | joinLock => exact hhere
  | joinWhile => exact hhere
  | joinWait => exact hhere.1
  | joinUnlock => exact hhere.1
  | destroying => exact hhere.1
  | signalling => exact hhere.1
  | exited => exact hhere.1
  | _ => cases h

/-- The move in which the master wakes the workers. -/
theorem broadcasted_cases (hm : Step pool p m p') (h : (p.status .master).pc.broadcasted ≠ true)
    (h' : (p'.status .master).pc.broadcasted = true) :
    ∃ input pick, m = .run .master input pick ∧
      p.status .master = .ready (.master .broadcasting) := by
  obtain hpc | ⟨input, pick, l, instr, rfl, hst, hP, hst'⟩ := hm.pc_cases (t := .master)
  · rw [hpc] at h'
    exact absurd h' h
  · rw [hst] at h
    rw [hst'] at h'
    refine ⟨input, pick, rfl, ?_⟩
    obtain ⟨pc, rfl, hpc⟩ := pool_master hP
    revert hpc
    fun_cases masterThread input p.shared pc <;> intro hpc <;> cases hpc <;>
      first | exact hst | exact (h rfl).elim | cases h'

/-- A worker that decides to sleep has seen the flag clear. -/
theorem dozing_cases {i : Fin numThreads} (hO : Outlined Shared.Ok StandsAt p)
    (hm : Step pool p m p') (h : Dozing (p'.status (.worker i))) :
    Dozing (p.status (.worker i)) ∨ p.shared.stopFlag = 0 := by
  rcases h with hst' | hst'
  · obtain hst | hst | ⟨input, pick, l, instr, -, hst, hP, hnext⟩ := hm.ready_cases hst'
    · exact .inl (.inl hst)
    · have hA := hO.thread (.worker i)
      rw [hst] at hA
      exact absurd hA (by simp [StandsAt, WorkerAt])
    · obtain ⟨pc, rfl, hpc⟩ := pool_worker hP
      revert hpc
      fun_cases workerThread i p.shared pc <;> intro hpc <;> cases hpc <;> cases hnext
      exact .inr (And.right
          ‹p.shared.queue.head = p.shared.queue.tail ∧ p.shared.stopFlag = 0›)
  · obtain hst | ⟨input, pick, l, -, hst, hP⟩ := hm.asleep_cases hst'
    · exact .inl (.inr hst)
    · obtain ⟨j, -, -, rfl, -⟩ | ⟨sp, ht, -⟩ | ⟨ht, -⟩ := pool_wait hP
      · exact .inl (.inl hst)
      · cases ht
      · cases ht

/-- **A worker is left asleep only by a race.** When the master has woken the workers and one
of them sleeps nevertheless, or has decided to, then that one had looked at the queue and at
the flag and not yet gone to sleep at the moment of the broadcast; it had the mutex. -/
theorem left_asleep {i : Fin numThreads} (h : Pool.after zero moves = some p)
    (hbroad : (p.status .master).pc.broadcasted = true) (hi : Dozing (p.status (.worker i))) :
    ∃ before input pick after q, moves = before ++ .run .master input pick :: after ∧
      Pool.after zero before = some q ∧ q.status .master = .ready (.master .broadcasting) ∧
      q.status (.worker i) = .ready (.worker .consumeWait) ∧ q.mutex = some (.worker i) := by
  induction moves using List.reverseRecOn generalizing p with
  | nil =>
    cases h
    cases hbroad
  | append_singleton ms m ih =>
    obtain ⟨q, hrun, hstep⟩ := run_concat h
    have hm := step_cases hstep
    have hO := (proper_after hrun).outlined
    by_cases hq : (q.status .master).pc.broadcasted = true
    · -- The worker cannot have decided to sleep since.
      have hi' := (dozing_cases hO hm hi).resolve_right (stopFlag_of_broadcasted hO hq)
      obtain ⟨before, input, pick, after, q', rfl, hrest⟩ := ih hrun hq hi'
      exact ⟨before, input, pick, after ++ [m], q', by simp, hrest⟩
    · obtain ⟨input, pick, rfl, hst⟩ := broadcasted_cases hm hq hbroad
      have hrouse : p.status (.worker i) = (q.status (.worker i)).rouse .sqFull := by
        simp only [step, hst] at hstep
        cases hstep
        rfl
      have hwait : q.status (.worker i) = .ready (.worker .consumeWait) := by
        rw [hrouse] at hi
        cases hsti : q.status (.worker i) with
        | ready l =>
          rw [hsti] at hi
          rcases hi with hi | hi
          · exact hi
          · cases hi
        | asleep c l =>
          have hA := hO.thread (.worker i)
          rw [hsti] at hA hi
          obtain ⟨j, -, rfl, rfl⟩ | ⟨sp, ht, -⟩ | ⟨ht, -⟩ := asleep_cases hA
          · rcases hi with hi | hi <;> cases hi
          · cases ht
          · cases ht
        | woken l =>
          rw [hsti] at hi
          rcases hi with hi | hi <;> cases hi
      have hinside : (q.status (.worker i)).inside Pc.holds = true := by
        rw [hwait]
        rfl
      exact ⟨ms, input, pick, [], q, rfl, hrun, hst, hwait,
        ((proper_after hrun).exclusive.inside_iff _).mp hinside⟩

theorem left_asleep_race : ∃ before input pick after q,
    raceMoves = before ++ .run .master input pick :: after ∧ Pool.after 0 before = some q ∧
      q.status .master = .ready (.master .broadcasting) ∧
      q.status (.worker 0) = .ready (.worker .consumeWait) ∧ q.mutex = some (.worker 0) :=
  left_asleep (show Pool.after 0 raceMoves = some _ from rfl) rfl (.inl rfl)

end DialServer
