import Mathlib.Data.Fin.Basic
import Mathlib.Data.List.Range
import Mathlib.Logic.Function.Basic
import Mathlib.Tactic.NormNum

/-!
# A queue in a ring of slots

A queue with room for `n` elements, kept in an array of `n` slots and two counters: `head`
counts what was put in, `tail` what was taken out, and an element stands in the slot of its
number modulo `n`. Now and then both counters are lowered by the same multiple of `n`
(`RingQueue.wrap`), so that they do not grow for ever.

`RingQueue.items` is what stands in the queue, in order. Putting appends to it
(`RingQueue.items_put`), taking removes its first element (`RingQueue.items_eq_cons`), and
lowering the counters changes nothing (`RingQueue.items_wrap`), as long as the ring is
`RingQueue.Sound`.
-/

/-- The slots and the two counters. -/
structure RingQueue (α : Type*) (n : ℕ) where
  cells : Fin n → α
  head : ℕ
  tail : ℕ

namespace RingQueue

variable {α : Type*} {n : ℕ} [NeZero n]

/-- A ring that nothing was put in yet: its slots hold what was there before. -/
def fresh (a : α) : RingQueue α n := ⟨fun _ => a, 0, 0⟩

/-- The slot of a number. -/
def cell (r : RingQueue α n) (k : ℕ) : α := r.cells (Fin.ofNat n k)

/-- What is in the queue, the oldest first. -/
def items (r : RingQueue α n) : List α :=
  (List.range (r.head - r.tail)).map fun k => r.cell (r.tail + k)

/-- An element is put in. -/
def put (r : RingQueue α n) (a : α) : RingQueue α n :=
  { r with cells := Function.update r.cells (Fin.ofNat n r.head) a, head := r.head + 1 }

/-- The element that is taken out next. -/
def front (r : RingQueue α n) : α := r.cell r.tail

/-- It is taken out. -/
def advance (r : RingQueue α n) : RingQueue α n := { r with tail := r.tail + 1 }

/-- The counters are lowered for as long as `tail` is above the number of slots; there are at
most `fuel` rounds. -/
def wrapLoop : ℕ → RingQueue α n → RingQueue α n
  | 0, r => r
  | fuel + 1, r =>
    if n < r.tail then wrapLoop fuel { r with tail := r.tail - n, head := r.head - n } else r

/-- The counters are lowered. Each round lowers `tail`, so there are no more than `tail`
rounds. -/
def wrap (r : RingQueue α n) : RingQueue α n := wrapLoop r.tail r

/-- **The counters are in order**: no more was taken out than put in, and what is left fits. -/
structure Sound (r : RingQueue α n) : Prop where
  tail_le : r.tail ≤ r.head
  fits : r.head ≤ r.tail + n

variable {r : RingQueue α n} {a : α}

omit [NeZero n] in
theorem sound_fresh : (fresh a : RingQueue α n).Sound := ⟨le_rfl, Nat.zero_le _⟩

@[simp] theorem items_fresh : (fresh a : RingQueue α n).items = [] := rfl

theorem length_items (r : RingQueue α n) : r.items.length = r.head - r.tail := by simp [items]

theorem items_eq_nil (h : r.Sound) : r.items = [] ↔ r.head = r.tail := by
  rw [← List.length_eq_zero_iff, length_items]
  have := h.tail_le
  omega

/-- Two numbers that are less than `n` apart have different slots. -/
theorem ofNat_ne {i j : ℕ} (hij : i < j) (hn : j < i + n) : Fin.ofNat n i ≠ Fin.ofNat n j := by
  intro h
  have hmod : i % n = j % n := by simpa [Fin.ext_iff] using h
  have hzero : (j - i) % n = 0 := Nat.sub_mod_eq_zero_of_mod_eq hmod.symm
  rw [Nat.mod_eq_of_lt (by omega)] at hzero
  omega

/-- **What is put in stands last.** -/
theorem items_put (h : r.Sound) (hroom : r.head < r.tail + n) (a : α) :
    (r.put a).items = r.items ++ [a] := by
  have hcount : r.head + 1 - r.tail = (r.head - r.tail) + 1 := by
    have := h.tail_le
    omega
  have hlast : r.tail + (r.head - r.tail) = r.head := by
    have := h.tail_le
    omega
  have hold : ∀ k ∈ List.range (r.head - r.tail),
      (r.put a).cell (r.tail + k) = r.cell (r.tail + k) := by
    intro k hk
    have hk' := List.mem_range.mp hk
    exact Function.update_of_ne (ofNat_ne (by omega) (by omega)) _ _
  rw [items, put, hcount, List.range_succ, List.map_append, List.map_singleton]
  refine congrArg₂ (· ++ ·) (List.map_congr_left hold) (congrArg (fun b => [b]) ?_)
  rw [hlast]
  exact Function.update_self _ _ _

theorem Sound.put (h : r.Sound) (hroom : r.head < r.tail + n) (a : α) : (r.put a).Sound :=
  ⟨h.tail_le.trans (Nat.le_succ _), hroom⟩

/-- A queue that is not empty is its front and what is left when that is taken out. -/
theorem items_eq_cons (h : r.tail < r.head) : r.items = r.front :: r.advance.items := by
  have hcount : r.head - r.tail = (r.head - (r.tail + 1)) + 1 := by omega
  rw [items, hcount, List.range_succ_eq_map, List.map_cons, List.map_map]
  refine congrArg₂ List.cons rfl (List.map_congr_left fun k _ => ?_)
  exact congrArg r.cell (show r.tail + (k + 1) = r.tail + 1 + k by omega)

omit [NeZero n] in
theorem Sound.advance (h : r.Sound) (hne : r.tail < r.head) : r.advance.Sound :=
  ⟨hne, h.fits.trans (by simp only [RingQueue.advance]; omega)⟩

/-- Lowering both counters by the number of slots changes nothing. -/
theorem items_lower (h : n ≤ r.tail) (hle : r.tail ≤ r.head) :
    ({ r with tail := r.tail - n, head := r.head - n } : RingQueue α n).items = r.items := by
  have hcount : r.head - n - (r.tail - n) = r.head - r.tail := by omega
  rw [items, items, hcount]
  refine List.map_congr_left fun k _ => congrArg r.cells (Fin.ext ?_)
  change (r.tail - n + k) % n = (r.tail + k) % n
  rw [show r.tail + k = r.tail - n + k + n by omega, Nat.add_mod_right]

omit [NeZero n] in
theorem Sound.lower (h : r.Sound) (hn : n ≤ r.tail) :
    ({ r with tail := r.tail - n, head := r.head - n } : RingQueue α n).Sound := by
  have h₁ := h.tail_le
  have h₂ := h.fits
  exact ⟨by simp only; omega, by simp only; omega⟩

/-- What the loop leaves: a sound ring with the same elements, and `tail` at most `n` if there
were rounds enough. -/
theorem wrapLoop_spec (fuel : ℕ) (h : r.Sound) :
    (wrapLoop fuel r).Sound ∧ (wrapLoop fuel r).items = r.items ∧
      (r.tail ≤ fuel + n → (wrapLoop fuel r).tail ≤ n) := by
  induction fuel generalizing r with
  | zero => exact ⟨h, rfl, fun hle => by simpa [wrapLoop] using hle⟩
  | succ fuel ih =>
    rw [wrapLoop]
    split
    · rename_i hlt
      obtain ⟨hs, hitems, hle⟩ := ih (h.lower hlt.le)
      have hn : 0 < n := Nat.pos_of_ne_zero (NeZero.ne n)
      refine ⟨hs, hitems.trans (items_lower hlt.le h.tail_le), fun hfuel => hle ?_⟩
      simp only
      omega
    · rename_i hle
      exact ⟨h, rfl, fun _ => Nat.le_of_not_lt hle⟩

theorem Sound.wrap (h : r.Sound) : r.wrap.Sound := (wrapLoop_spec r.tail h).1

/-- **Lowering the counters changes nothing of what is in the queue**, -/
theorem items_wrap (h : r.Sound) : r.wrap.items = r.items := (wrapLoop_spec r.tail h).2.1

/-- and leaves `tail` within the slots. -/
theorem tail_wrap_le (h : r.Sound) : r.wrap.tail ≤ n :=
  (wrapLoop_spec r.tail h).2.2 (Nat.le_add_right _ _)

end RingQueue
