import DialServer.Lib.TwoPhase

/-!
# Requests in two steps, and somebody else

The requests of `DialServer.Lib.TwoPhase`, served while somebody else changes the state
between their steps (`TwoPhase.System.play`). What a check established is not what an act
finds: whether it still holds depends on what has happened in between.

`TwoPhase.System.Protects` says that a property of a state and a request that was let
through is established by the checks and kept by the steps of all requests. Then it holds
whenever a request acts, in every run in which the changes from outside keep it
(`TwoPhase.System.guarded_play`).
-/

namespace TwoPhase

variable {S R P O E ι : Type*} [DecidableEq ι]

/-- A step of a request, or a change from outside. -/
inductive Move (ι E : Type*)
  | turn (i : ι)
  | change (e : E)

namespace System

variable (M : System S R P O) (change : S → E → S) (requests : ι → R)

/-- One move. -/
def move (c : Config S P O ι) : Move ι E → Config S P O ι
  | .turn i => M.turn requests c i
  | .change e => if M.up c.state then { c with state := change c.state e } else c

/-- The moves of a run. -/
def play (s : S) (moves : List (Move ι E)) : Config S P O ι :=
  moves.foldl (M.move change requests) (.init s)

theorem play_concat (s : S) (moves : List (Move ι E)) (m : Move ι E) :
    M.play change requests s (moves ++ [m]) =
      M.move change requests (M.play change requests s moves) m := by
  rw [play, List.foldl_append]
  rfl

/-- **A property that the checks establish** in every state the steps lead to, and that no
step of a request destroys. -/
structure Protects (Inv : S → Prop) (Safe : S → R → P → Prop) : Prop where
  checked : ∀ s r p, Inv s → M.check s r = .inr p → Safe s r p
  check_inv : ∀ s r res, Inv s → M.check s r = .inl res → Inv res.1
  act_inv : ∀ s r p, Inv s → Inv (M.act s r p).1
  check_safe : ∀ s r res r' p', M.check s r = .inl res → Safe s r' p' → Safe res.1 r' p'
  act_safe : ∀ s r p r' p', Safe s r' p' → Safe (M.act s r p).1 r' p'

end System

/-- **Nothing was let through in vain**: what was let through and has not acted may still
act. -/
structure Guarded (Inv : S → Prop) (Safe : S → R → P → Prop) (requests : ι → R)
    (c : Config S P O ι) : Prop where
  inv : Inv c.state
  safe : ∀ i p, c.phase i = .checked p → Safe c.state (requests i) p

variable {M : System S R P O} {change : S → E → S} {requests : ι → R} {Inv : S → Prop}
  {Safe : S → R → P → Prop} {c : Config S P O ι}

/-- Answering a request leaves those that were let through where they are. -/
theorem Guarded.finish (h : Guarded Inv Safe requests c) {i : ι} {res : S × O} (acts : Bool)
    (hinv : Inv res.1) (hsafe : ∀ r p, Safe c.state r p → Safe res.1 r p) :
    Guarded Inv Safe requests (c.finish i res acts) := by
  refine ⟨hinv, fun j p hj => ?_⟩
  have hji : j ≠ i := by
    rintro rfl
    simp [Config.finish] at hj
  have hold : c.phase j = .checked p := by simpa [Config.finish, hji] using hj
  exact hsafe _ _ (h.safe j p hold)

/-- **A step of a request.** -/
theorem Guarded.turn (hM : M.Protects Inv Safe) (h : Guarded Inv Safe requests c) (i : ι) :
    Guarded Inv Safe requests (M.turn requests c i) := by
  rw [System.turn]
  split
  · rcases hphase : c.phase i with _ | p | _
    · rcases hcheck : M.check c.state (requests i) with res | p
      · exact h.finish false (hM.check_inv _ _ _ h.inv hcheck)
          fun r' p' => hM.check_safe _ _ _ r' p' hcheck
      · -- the request is let through, by a check in this very state
        refine ⟨h.inv, fun j q hj => ?_⟩
        by_cases hji : j = i
        · obtain rfl := hji
          obtain rfl : p = q := by simpa using hj
          exact hM.checked _ _ _ h.inv hcheck
        · exact h.safe j q (by simpa [hji] using hj)
    · exact h.finish true (hM.act_inv _ _ _ h.inv) fun r' p' => hM.act_safe _ _ _ r' p'
    · exact h
  · exact h

/-- **A run**: as long as every change from outside keeps what the checks established, it
holds all along. -/
theorem System.guarded_play (hM : M.Protects Inv Safe)
    (hinv : ∀ s e, Inv s → Inv (change s e)) {Harmless : Config S P O ι → E → Prop}
    (hchange : ∀ c e, Guarded Inv Safe requests c → Harmless c e →
      ∀ i p, c.phase i = .checked p → Safe (change c.state e) (requests i) p)
    {s : S} (hs : Inv s) (moves : List (Move ι E))
    (hmoves : ∀ pre e post, moves = pre ++ .change e :: post →
      Harmless (M.play change requests s pre) e) :
    Guarded Inv Safe requests (M.play change requests s moves) := by
  induction moves using List.reverseRecOn with
  | nil => exact ⟨hs, fun i p hi => absurd hi (by simp [System.play, Config.init])⟩
  | append_singleton moves m ih =>
    have h := ih fun pre e post hpre => hmoves pre e (post ++ [m]) (by simp [hpre])
    rw [System.play_concat]
    cases m with
    | turn i => exact h.turn hM i
    | change e =>
      have hharmless := hmoves moves e [] rfl
      rw [System.move]
      split
      · exact ⟨hinv _ _ h.inv, hchange _ e h hharmless⟩
      · exact h

end TwoPhase
