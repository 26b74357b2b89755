import Mathlib.Data.List.Basic

/-!
# Datagrams in flight

Hosts that exchange datagrams: who gets one may send one back, to where it says it comes
from, and nobody checks that. The datagrams in flight are delivered one at a time and in any
order (`Datagrams.deliver`); what is sent back is in flight then.

A datagram starts an exchange of its own, which either is over after a number of deliveries
(`Datagrams.Ends`) or never (`Datagrams.Endless`). So the order does not matter: if all
exchanges come to an end, there are as many deliveries as they take together
(`Datagrams.Settles.run`), and one that does not keeps the net busy for ever
(`Datagrams.endless_run`).
-/

namespace Datagrams

/-- A datagram, with the address it says it comes from and the one it goes to. -/
structure Packet (A P : Type*) where
  src : A
  dst : A
  payload : P
  deriving DecidableEq

variable {A P : Type*} (answer : A → P → Option P)

/-- What is sent back for a datagram. -/
def Packet.reply (p : Packet A P) : Option (Packet A P) :=
  (answer p.dst p.payload).map fun payload => ⟨p.dst, p.src, payload⟩

/-- One of the datagrams in flight is delivered. -/
def deliver (net : List (Packet A P)) (i : ℕ) : Option (List (Packet A P)) :=
  net[i]?.map fun p => net.eraseIdx i ++ (p.reply answer).toList

/-- Several of them are, one after the other. -/
def run (net : List (Packet A P)) : List ℕ → Option (List (Packet A P))
  | [] => some net
  | i :: is => (deliver answer net i).bind fun net => run net is

/-- The exchange that a datagram starts is over after some deliveries. -/
inductive Ends : ℕ → Packet A P → Prop
  | last {p : Packet A P} : p.reply answer = none → Ends 1 p
  | more {n : ℕ} {p q : Packet A P} : p.reply answer = some q → Ends n q → Ends (n + 1) p

/-- It is never over. -/
def Endless (p : Packet A P) : Prop := ∀ n, ¬Ends answer n p

/-- The exchanges of all datagrams in flight are over after some deliveries together. -/
inductive Settles : ℕ → List (Packet A P) → Prop
  | nil : Settles 0 []
  | cons {n k : ℕ} {p : Packet A P} {net : List (Packet A P)} :
      Ends answer n p → Settles k net → Settles (n + k) (p :: net)

variable {answer} {net net' : List (Packet A P)} {p q : Packet A P} {i k n : ℕ} {is : List ℕ}

theorem Ends.pos (h : Ends answer n p) : 0 < n := by
  cases h with
  | last _ => exact Nat.one_pos
  | more _ _ => exact Nat.succ_pos _

/-- An exchange without an end goes on without one. -/
theorem Endless.reply (h : Endless answer p) :
    ∃ q, p.reply answer = some q ∧ Endless answer q := by
  cases hreply : p.reply answer with
  | none => exact absurd (.last hreply) (h 1)
  | some q => exact ⟨q, rfl, fun n hq => h (n + 1) (.more hreply hq)⟩

/-- What is answered again and again has no end. -/
theorem endless_of_forall (P' : Packet A P → Prop)
    (hnext : ∀ p, P' p → ∃ q, p.reply answer = some q ∧ P' q) (hp : P' p) : Endless answer p := by
  intro n
  induction n generalizing p with
  | zero => exact fun h => absurd h.pos (Nat.lt_irrefl 0)
  | succ n ih =>
    obtain ⟨q, hreply, hq⟩ := hnext p hp
    intro h
    cases h with
    | last hnone =>
      rw [hreply] at hnone
      cases hnone
    | more hsome hends =>
      cases Option.some.inj (hreply.symm.trans hsome)
      exact ih hq hends

/-! ### One delivery -/

theorem deliver_eq_some : deliver answer net i = some net' ↔
    ∃ p, net[i]? = some p ∧ net' = net.eraseIdx i ++ (p.reply answer).toList := by
  rw [deliver, Option.map_eq_some_iff]
  exact exists_congr fun p => and_congr_right fun _ => eq_comm

/-- Whatever is in flight can be delivered. -/
theorem exists_deliver (h : net ≠ []) (answer : A → P → Option P) :
    ∃ net', deliver answer net 0 = some net' := by
  obtain ⟨p, rest, rfl⟩ := List.exists_cons_of_ne_nil h
  exact ⟨_, rfl⟩

theorem Settles.append {net₂ : List (Packet A P)} {k₂ : ℕ} (h : Settles answer k net)
    (h₂ : Settles answer k₂ net₂) : Settles answer (k + k₂) (net ++ net₂) := by
  induction h with
  | nil =>
    rw [Nat.zero_add]
    exact h₂
  | cons hp _ ih =>
    rw [Nat.add_assoc]
    exact .cons hp ih

/-- Without one of the datagrams, what its exchange takes is left out. -/
theorem Settles.eraseIdx (h : Settles answer k net) (hi : net[i]? = some p) :
    ∃ n k', Ends answer n p ∧ Settles answer k' (net.eraseIdx i) ∧ k = n + k' := by
  induction h generalizing i with
  | nil => cases hi
  | @cons m k q net hq hnet ih =>
    cases i with
    | zero =>
      cases hi
      exact ⟨m, k, hq, hnet, rfl⟩
    | succ i =>
      obtain ⟨n, k', hp, hrest, rfl⟩ := ih hi
      exact ⟨n, m + k', hp, .cons hq hrest, Nat.add_left_comm m n k'⟩

/-- **Every delivery counts**, whichever it is. -/
theorem Settles.deliver (h : Settles answer k net) (hd : deliver answer net i = some net') :
    ∃ k', k = k' + 1 ∧ Settles answer k' net' := by
  obtain ⟨p, hi, rfl⟩ := deliver_eq_some.mp hd
  obtain ⟨n, k', hp, hrest, rfl⟩ := h.eraseIdx hi
  cases hp with
  | last hnone =>
    refine ⟨k', Nat.add_comm 1 k', ?_⟩
    rw [hnone, Option.toList_none, List.append_nil]
    exact hrest
  | @more m _ q hsome hq =>
    refine ⟨k' + (m + 0), by omega, ?_⟩
    rw [hsome]
    exact hrest.append (.cons hq .nil)

/-- An exchange without an end survives every delivery. -/
theorem endless_deliver (hp : p ∈ net) (h : Endless answer p)
    (hd : deliver answer net i = some net') : ∃ q ∈ net', Endless answer q := by
  obtain ⟨p', hi, rfl⟩ := deliver_eq_some.mp hd
  obtain ⟨j, hj⟩ := List.mem_iff_getElem?.mp hp
  rcases eq_or_ne j i with rfl | hne
  · cases Option.some.inj (hi.symm.trans hj)
    obtain ⟨q, hreply, hq⟩ := h.reply
    refine ⟨q, List.mem_append_right _ ?_, hq⟩
    rw [hreply]
    exact List.mem_singleton_self q
  · exact ⟨p, List.mem_append_left _ (List.mem_eraseIdx_iff_getElem?.mpr ⟨j, hne, hj⟩), h⟩

/-! ### Runs -/

/-- **What settles takes as many deliveries as it takes, in every order.** -/
theorem Settles.run (h : Settles answer k net) (hrun : run answer net is = some net') :
    Settles answer (k - is.length) net' ∧ is.length ≤ k ∧ (net' = [] ↔ is.length = k) := by
  induction is generalizing net k with
  | nil =>
    cases Option.some.inj hrun
    refine ⟨h, Nat.zero_le k, fun hnil => ?_, fun hk => ?_⟩
    · subst hnil
      cases h
      rfl
    · cases h with
      | nil => rfl
      | cons hp _ =>
        have := hp.pos
        rw [List.length_nil] at hk
        omega
  | cons i is ih =>
    obtain ⟨net₁, hd, hrest⟩ := Option.bind_eq_some_iff.mp hrun
    obtain ⟨k', rfl, h₁⟩ := h.deliver hd
    obtain ⟨hsettles, hle, hiff⟩ := ih h₁ hrest
    rw [List.length_cons, Nat.add_sub_add_right, Nat.add_le_add_iff_right, hiff,
      Nat.add_right_cancel_iff]
    exact ⟨hsettles, hle, Iff.rfl⟩

/-- **One exchange without an end keeps the net busy for ever.** -/
theorem endless_run (hp : p ∈ net) (h : Endless answer p) (hrun : run answer net is = some net') :
    ∃ q ∈ net', Endless answer q := by
  induction is generalizing net p with
  | nil =>
    cases Option.some.inj hrun
    exact ⟨p, hp, h⟩
  | cons i is ih =>
    obtain ⟨net₁, hd, hrest⟩ := Option.bind_eq_some_iff.mp hrun
    obtain ⟨q, hq, hendless⟩ := endless_deliver hp h hd
    exact ih hq hendless hrest

/-- It can be kept busy for as long as one likes. -/
theorem exists_run_of_endless (hp : p ∈ net) (h : Endless answer p) (n : ℕ) :
    ∃ is net', is.length = n ∧ run answer net is = some net' := by
  induction n generalizing net p with
  | zero => exact ⟨[], net, rfl, rfl⟩
  | succ n ih =>
    obtain ⟨net₁, hd⟩ := exists_deliver (List.ne_nil_of_mem hp) answer
    obtain ⟨q, hq, hendless⟩ := endless_deliver hp h hd
    obtain ⟨is, net', hlen, hrun⟩ := ih hq hendless
    refine ⟨0 :: is, net', congrArg (· + 1) hlen, ?_⟩
    rw [run, hd]
    exact hrun

end Datagrams
