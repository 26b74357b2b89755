import Mathlib.Data.List.Basic

/-!
# A stream that comes in chunks

What the other side of a connection sends is a stream; what a read delivers is a chunk of it,
and how the stream is cut into chunks is up to the network. `Chunks.pull` is one read, of at
most so many elements; no chunk, or an empty one, stands for a connection that gives nothing
any more.

`Chunks.fill` reads until what has come so far satisfies a test, or there is no more room. If
the test stays true once it is, and the stream has a prefix that satisfies it and fits, then
whatever the chunks, reading stops with that prefix and what else came with it
(`Chunks.stop_fill`); nothing is lost on the way (`Chunks.fill_append`). If no such prefix
fits, as much is read as there is and as fits (`Chunks.fill_eq_take`).
-/

namespace Chunks

variable {α : Type*}

/-- One read of at most `n` elements: what it delivers, and the chunks that are left. -/
def pull (n : ℕ) : List (List α) → List α × List (List α)
  | [] => ([], [])
  | c :: cs => (c.take n, if c.length ≤ n then cs else c.drop n :: cs)

/-- Chunks that are not empty. -/
def Solid (cs : List (List α)) : Prop := [] ∉ cs

instance [DecidableEq α] (cs : List (List α)) : Decidable (Solid cs) := instDecidableNot

variable {n : ℕ} {cs : List (List α)}

theorem pull_append (n : ℕ) (cs : List (List α)) :
    (pull n cs).1 ++ (pull n cs).2.flatten = cs.flatten := by
  cases cs with
  | nil => rfl
  | cons c cs =>
    simp only [pull, List.flatten_cons]
    split
    · rename_i hle
      rw [List.take_of_length_le hle]
    · rw [List.flatten_cons, ← List.append_assoc, List.take_append_drop]

theorem length_pull_le (n : ℕ) (cs : List (List α)) : (pull n cs).1.length ≤ n := by
  cases cs with
  | nil => exact Nat.zero_le _
  | cons c cs => exact List.length_take_le n c

theorem Solid.pull (h : Solid cs) : Solid (pull n cs).2 := by
  cases cs with
  | nil => exact h
  | cons c cs =>
    simp only [Chunks.pull]
    split
    · exact fun hmem => h (List.mem_cons_of_mem _ hmem)
    · rename_i hlt
      intro hmem
      rcases List.mem_cons.mp hmem with hnil | hmem
      · exact absurd (List.drop_eq_nil_iff.mp hnil.symm) hlt
      · exact h (List.mem_cons_of_mem _ hmem)

/-- A read delivers something as long as there is something. -/
theorem pull_eq_nil (h : Solid cs) (hn : 0 < n) (hnil : (pull n cs).1 = []) : cs = [] := by
  cases cs with
  | nil => rfl
  | cons c cs =>
    have hc : c ≠ [] := fun heq => h (heq ▸ List.mem_cons_self)
    rcases List.take_eq_nil_iff.mp hnil with h0 | h0
    · exact absurd h0 (Nat.pos_iff_ne_zero.mp hn)
    · exact absurd h0 hc

/-! ### Reading until a test succeeds -/

/-- Reads go on until what has come satisfies `stop`, there are `n` elements, or nothing
comes. There are at most `fuel` of them. -/
def fill (n : ℕ) (stop : List α → Bool) : ℕ → List α → List (List α) → List α × List (List α)
  | 0, got, cs => (got, cs)
  | fuel + 1, got, cs =>
    if got.length < n then
      let (d, cs') := pull (n - got.length) cs
      if d = [] then (got, cs')
      else if stop (got ++ d) then (got ++ d, cs')
      else fill n stop fuel (got ++ d) cs'
    else (got, cs)

variable {stop : List α → Bool} {fuel : ℕ} {got : List α}

/-- **Nothing is lost.** -/
theorem fill_append (n : ℕ) (stop : List α → Bool) (fuel : ℕ) (got : List α)
    (cs : List (List α)) :
    (fill n stop fuel got cs).1 ++ (fill n stop fuel got cs).2.flatten = got ++ cs.flatten := by
  induction fuel generalizing got cs with
  | zero => rfl
  | succ fuel ih =>
    have hpull := pull_append (n - got.length) cs
    simp only [fill]
    split
    · split
      · rename_i hnil
        rw [← hpull, hnil, List.nil_append]
      · split
        · rw [List.append_assoc, hpull]
        · rw [ih, List.append_assoc, hpull]
    · rfl

theorem Solid.fill (h : Solid cs) : Solid (fill n stop fuel got cs).2 := by
  induction fuel generalizing got cs with
  | zero => exact h
  | succ fuel ih =>
    simp only [Chunks.fill]
    split
    · split
      · exact h.pull
      · split
        · exact h.pull
        · exact ih h.pull
    · exact h

/-- No more is read than there is room for. -/
theorem length_fill_le (hgot : got.length ≤ n) : (fill n stop fuel got cs).1.length ≤ n := by
  induction fuel generalizing got cs with
  | zero => exact hgot
  | succ fuel ih =>
    have hle := length_pull_le (n - got.length) cs
    have hmore : (got ++ (pull (n - got.length) cs).1).length ≤ n := by
      rw [List.length_append]
      omega
    simp only [fill]
    split
    · split
      · exact hgot
      · split
        · exact hmore
        · exact ih hmore
    · exact hgot

/-- A read that delivers something makes progress. -/
theorem lt_length_pull (hd : (pull (n - got.length) cs).1 ≠ []) :
    got.length < (got ++ (pull (n - got.length) cs).1).length := by
  rw [List.length_append]
  have := List.length_pos_iff.mpr hd
  omega

/-- **Reading stops where the test succeeds**, whatever the chunks. -/
theorem stop_fill (hstop : ∀ p q, p <+: q → stop p = true → stop q = true) (hs : Solid cs)
    (hfuel : n ≤ got.length + fuel) {p : List α} (hp : p <+: got ++ cs.flatten)
    (hpn : p.length ≤ n) (hpstop : stop p = true) :
    stop (fill n stop fuel got cs).1 = true ∨ (fill n stop fuel got cs).1 = got ∧ p <+: got := by
  induction fuel generalizing got cs with
  | zero =>
    refine .inr ⟨rfl, List.prefix_of_prefix_length_le hp (List.prefix_append _ _) ?_⟩
    omega
  | succ fuel ih =>
    simp only [fill]
    split
    · split
      · rename_i hnil
        have hcs := pull_eq_nil hs (by omega) hnil
        rw [hcs, List.flatten_nil, List.append_nil] at hp
        exact .inr ⟨rfl, hp⟩
      · rename_i hd
        split
        · rename_i hyes
          exact .inl hyes
        · have hgrow := lt_length_pull hd
          have hfuel' : n ≤ (got ++ (pull (n - got.length) cs).1).length + fuel := by omega
          rcases ih hs.pull hfuel' (by rwa [List.append_assoc, pull_append]) with h | ⟨h, h'⟩
          · exact .inl h
          · rw [h]
            exact .inl (hstop p _ h' hpstop)
    · refine .inr ⟨rfl, List.prefix_of_prefix_length_le hp (List.prefix_append _ _) ?_⟩
      omega

/-- **If the test never succeeds, as much is read as there is and as fits.** -/
theorem fill_eq_take (hs : Solid cs) (hfuel : n ≤ got.length + fuel) (hgot : got.length ≤ n)
    (hnever : ∀ p, p <+: (got ++ cs.flatten).take n → stop p = false) :
    (fill n stop fuel got cs).1 = (got ++ cs.flatten).take n := by
  induction fuel generalizing got cs with
  | zero =>
    have hlen : got.length = n := by omega
    change got = _
    rw [List.take_append_of_le_length (Nat.le_of_eq hlen.symm),
      List.take_of_length_le (Nat.le_of_eq hlen)]
  | succ fuel ih =>
    have hpull := pull_append (n - got.length) cs
    have hle := length_pull_le (n - got.length) cs
    simp only [fill]
    split
    · split
      · rename_i hnil
        have hcs := pull_eq_nil hs (by omega) hnil
        rw [hcs, List.flatten_nil, List.append_nil, List.take_of_length_le hgot]
      · rename_i hd
        have hgrow := lt_length_pull hd
        have hmore : (got ++ (pull (n - got.length) cs).1).length ≤ n := by
          rw [List.length_append]
          omega
        have hstream : got ++ cs.flatten =
            got ++ (pull (n - got.length) cs).1 ++ (pull (n - got.length) cs).2.flatten := by
          rw [List.append_assoc, hpull]
        have hprefix : got ++ (pull (n - got.length) cs).1 <+: (got ++ cs.flatten).take n := by
          rw [hstream, List.prefix_take_iff]
          exact ⟨List.prefix_append _ _, hmore⟩
        rw [if_neg (by rw [hnever _ hprefix]; exact Bool.false_ne_true), hstream]
        rw [hstream] at hnever
        exact ih hs.pull (by omega) hmore hnever
    · rename_i hge
      have hlen : got.length = n := by omega
      rw [List.take_append_of_le_length (Nat.le_of_eq hlen.symm),
        List.take_of_length_le (Nat.le_of_eq hlen)]

end Chunks
