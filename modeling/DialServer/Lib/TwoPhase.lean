import DialServer.Lib.Trace
import Mathlib.Data.List.Nodup
import Mathlib.Logic.Function.Basic

/-!
# Requests in two steps

Requests served by several threads, each in at most two atomic steps: a *check*,
which may answer the request at once, and an *act*, which is given what the check
let through. Between the two any number of steps of other requests may run, so
that a request acts on a state its check has not seen.

`TwoPhase.System.interleave` runs a schedule of such steps, and
`TwoPhase.System.serial` serves whole requests one at a time. The two agree as soon
as there is a part of the state that no step changes and that decides what a check
lets through (`TwoPhase.System.Stable`): `TwoPhase.System.serialised_interleave`
replays any schedule one request at a time, in the order the requests were
answered, which is the order of the acts. The invariant behind it is
`TwoPhase.Serialised`: whatever was let through would be let through again.
-/

namespace TwoPhase

open Function

variable {S R P O V ι : Type*}

/-- How requests are served. -/
structure System (S R P O : Type*) where
  /-- The first step: it answers the request, or lets it through. -/
  check : S → R → (S × O) ⊕ P
  /-- The second step, for a request let through. -/
  act : S → R → P → S × O
  /-- Whether steps are still taken. -/
  up : S → Bool

/-- How far a request has come. -/
inductive Phase (P : Type*)
  | fresh
  | checked (p : P)
  | finished

/-- The state, how far each request has come, what was answered, in order, and
the requests that acted, in order. -/
structure Config (S P O ι : Type*) where
  state : S
  phase : ι → Phase P
  answered : List (ι × O)
  acted : List ι

/-- Nothing has happened yet. -/
def Config.init (s : S) : Config S P O ι := ⟨s, fun _ => .fresh, [], []⟩

namespace System

variable (M : System S R P O)

/-- Both steps at once. -/
def atomic (s : S) (r : R) : S × O :=
  match M.check s r with
  | .inl res => res
  | .inr p => M.act s r p

/-- One request at a time; what is emitted is who was answered what. -/
def serial (requests : ι → R) : Trace.Machine S ι (ι × O) where
  step s i := ((M.atomic s (requests i)).1, [(i, (M.atomic s (requests i)).2)])
  up := M.up

/-- A part of the state that no step changes, and that decides what a check lets
through. -/
structure Stable (view : S → V) : Prop where
  check_view : ∀ s r res, M.check s r = .inl res → view res.1 = view s
  act_view : ∀ s r p, view (M.act s r p).1 = view s
  passes : ∀ s s' r p, view s' = view s → M.check s r = .inr p → M.check s' r = .inr p

end System

variable [DecidableEq ι]

/-- A request is answered, and the state is what that leaves. -/
def Config.finish (c : Config S P O ι) (i : ι) (res : S × O) (acts : Bool) : Config S P O ι where
  state := res.1
  phase := update c.phase i .finished
  answered := c.answered ++ [(i, res.2)]
  acted := if acts then c.acted ++ [i] else c.acted

namespace System

variable (M : System S R P O) (requests : ι → R)

/-- The next step of the request `i`. -/
def turn (c : Config S P O ι) (i : ι) : Config S P O ι :=
  if M.up c.state then
    match c.phase i with
    | .fresh =>
      match M.check c.state (requests i) with
      | .inl res => c.finish i res false
      | .inr p => { c with phase := update c.phase i (.checked p) }
    | .checked p => c.finish i (M.act c.state (requests i) p) true
    | .finished => c
  else c

/-- The steps of a schedule. -/
def interleave (s : S) (schedule : List ι) : Config S P O ι :=
  schedule.foldl (M.turn requests) (.init s)

end System

/-! ### Replaying one request at a time -/

/-- **A configuration that whole requests would have led to**, in the order they
were answered. -/
structure Serialised (M : System S R P O) (requests : ι → R) (s : S) (c : Config S P O ι) :
    Prop where
  /-- Served one at a time, the requests leave the same state and are answered
  the same. -/
  replay : (M.serial requests).run s (c.answered.map Prod.fst) = (c.state, c.answered)
  /-- No request is answered twice. -/
  nodup : (c.answered.map Prod.fst).Nodup
  /-- The requests answered are those that finished. -/
  answered_iff : ∀ i, i ∈ c.answered.map Prod.fst ↔ c.phase i = .finished
  /-- Acts are in the order of the answers. -/
  acted : c.acted.Sublist (c.answered.map Prod.fst)
  /-- What was let through would be let through now. -/
  passed : ∀ i p, c.phase i = .checked p → M.check c.state (requests i) = .inr p

variable {M : System S R P O} {requests : ι → R} {s : S} {c : Config S P O ι}

omit [DecidableEq ι] in
theorem serialised_init : Serialised M requests s (.init s) :=
  ⟨rfl, List.nodup_nil, fun _ => by simp [Config.init], List.Sublist.refl _, by simp [Config.init]⟩

/-- Answering a request as both its steps at once would keeps the replay going. -/
theorem Serialised.finish {view : S → V} (hM : M.Stable view) (h : Serialised M requests s c)
    (hup : M.up c.state = true) {i : ι} {res : S × O} (acts : Bool)
    (hphase : c.phase i ≠ .finished) (hatomic : M.atomic c.state (requests i) = res)
    (hview : view res.1 = view c.state) : Serialised M requests s (c.finish i res acts) := by
  have hnew : i ∉ c.answered.map Prod.fst := fun hmem => hphase ((h.answered_iff i).mp hmem)
  refine ⟨?_, ?_, fun j => ?_, ?_, fun j p hj => ?_⟩
  · have hup' : (M.serial requests).up ((M.serial requests).run s (c.answered.map Prod.fst)).1 =
        true := by rwa [h.replay]
    rw [Config.finish, List.map_append, List.map_singleton, Trace.Machine.run_concat _ hup',
      h.replay]
    simp [System.serial, hatomic]
  · rw [Config.finish, List.map_append]
    exact List.nodup_append'.mpr ⟨h.nodup, by simp, by simpa using hnew⟩
  · have hmem : j ∈ (c.finish i res acts).answered.map Prod.fst ↔
        j ∈ c.answered.map Prod.fst ∨ j = i := by simp [Config.finish]
    rw [hmem, h.answered_iff, Config.finish]
    by_cases hji : j = i
    · simp [hji]
    · simp [hji]
  · rw [Config.finish, List.map_append]
    cases acts with
    | true => exact h.acted.append (List.Sublist.refl _)
    | false => exact h.acted.trans (List.sublist_append_left _ _)
  · have hji : j ≠ i := by
      rintro rfl
      simp [Config.finish] at hj
    have hold : c.phase j = .checked p := by simpa [Config.finish, hji] using hj
    exact hM.passes _ _ _ _ hview (h.passed j p hold)

/-- **One step keeps the replay going.** -/
theorem Serialised.turn {view : S → V} (hM : M.Stable view) (h : Serialised M requests s c)
    (i : ι) : Serialised M requests s (M.turn requests c i) := by
  rw [System.turn]
  split
  · rename_i hup
    rcases hphase : c.phase i with _ | p | _
    · rcases hcheck : M.check c.state (requests i) with res | p
      · refine h.finish hM hup false (by simp [hphase]) ?_ (hM.check_view _ _ _ hcheck)
        rw [System.atomic, hcheck]
      · -- nothing changes but that this request was let through
        refine ⟨h.replay, h.nodup, fun j => ?_, h.acted, fun j q hj => ?_⟩
        · rw [h.answered_iff]
          by_cases hji : j = i
          · simp [hji, hphase]
          · simp [hji]
        · by_cases hji : j = i
          · obtain rfl := hji
            obtain rfl : p = q := by simpa using hj
            exact hcheck
          · exact h.passed j q (by simpa [hji] using hj)
    · refine h.finish hM hup true (by simp [hphase]) ?_ (hM.act_view _ _ _)
      -- the act is what the request would do now, as its check still passes
      rw [System.atomic, h.passed i p hphase]
    · exact h
  · exact h

/-- **Any schedule can be replayed one request at a time.** -/
theorem System.serialised_interleave {view : S → V} (hM : M.Stable view) (requests : ι → R) (s : S)
    (schedule : List ι) : Serialised M requests s (M.interleave requests s schedule) := by
  induction schedule using List.reverseRecOn with
  | nil => exact serialised_init
  | append_singleton schedule i ih =>
    rw [interleave, List.foldl_append]
    exact ih.turn hM i

/-! ### Two turns are enough -/

/-- How many steps a request has taken. -/
def Phase.steps : Phase P → ℕ
  | .fresh => 0
  | .checked _ => 1
  | .finished => 2

/-- A turn takes a request one step further, and leaves the others where they
are. -/
theorem steps_turn (requests : ι → R) (hup : M.up c.state = true) (i j : ι) :
    min 2 ((c.phase i).steps + if j = i then 1 else 0) ≤
      ((M.turn requests c j).phase i).steps := by
  rw [System.turn, if_pos hup]
  by_cases hji : j = i
  · obtain rfl := hji
    rcases hphase : c.phase j with _ | p | _
    · rcases M.check c.state (requests j) with res | p <;> simp [Config.finish, Phase.steps]
    · simp [Config.finish, Phase.steps]
    · simp [hphase, Phase.steps]
  · have hsame : (M.turn requests c j).phase i = c.phase i := by
      rw [System.turn, if_pos hup]
      rcases c.phase j with _ | p | _
      · rcases M.check c.state (requests j) with res | p <;> simp [Config.finish, Ne.symm hji]
      · simp [Config.finish, Ne.symm hji]
      · rfl
    rw [System.turn, if_pos hup] at hsame
    rw [if_neg hji, hsame]
    exact Nat.min_le_right _ _

/-- **Two turns finish a request**, if steps are still taken after them. -/
theorem System.finished_of_two_turns (requests : ι → R) (s : S) {schedule : List ι}
    (hup : M.up (M.interleave requests s schedule).state = true) {i : ι}
    (hi : 2 ≤ schedule.count i) :
    (M.interleave requests s schedule).phase i = .finished := by
  have hsteps : ∀ schedule : List ι, M.up (M.interleave requests s schedule).state = true →
      min 2 (schedule.count i) ≤ ((M.interleave requests s schedule).phase i).steps := by
    intro schedule
    induction schedule using List.reverseRecOn with
    | nil => simp
    | append_singleton schedule j ih =>
      rw [interleave, List.foldl_append, ← interleave, List.foldl_cons, List.foldl_nil]
      intro hup'
      -- a system that still takes steps took the ones before, too
      have hup : M.up (M.interleave requests s schedule).state = true := by
        by_contra hdown
        rw [turn, if_neg hdown] at hup'
        exact hdown hup'
      have hturn := steps_turn requests hup i j
      have hcount : (schedule ++ [j]).count i = schedule.count i + if j = i then 1 else 0 := by
        rw [List.count_append, List.count_singleton]
        simp
      have := ih hup
      omega
  have h2 := hsteps schedule hup
  rcases hphase : (M.interleave requests s schedule).phase i with _ | p | _
  · simp [hphase, Phase.steps] at h2
    omega
  · simp [hphase, Phase.steps] at h2
    omega
  · rfl

end TwoPhase
