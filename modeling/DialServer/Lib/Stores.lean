import DialServer.Lib.Memory
import Mathlib.Data.Nat.SuccPred
import Mathlib.Order.Interval.Set.SuccPred

/-!
# The writes of a program

What a program does to one object is a list of writes, each an index and a byte, and
`CLib.Block.storeEach` performs them one after the other. The list says more than the
state it ends in: a byte that is written twice is in it twice, and it is the same list
for every object, one that is too small included. So the indices in the list say which
objects the program stays in (`CLib.Block.exists_storeEach_iff`) and which bytes it
leaves alone (`CLib.Block.drop_storeEach`).
-/

namespace CLib

namespace Block

/-- Perform the writes one after the other. -/
def storeEach (b : Block) (writes : List (ℕ × UInt8)) : Except Fault Block :=
  writes.foldlM (fun b w => b.store w.1 w.2) b

/-- The indices that are written. -/
def indices (writes : List (ℕ × UInt8)) : Set ℕ := {i | ∃ c, (i, c) ∈ writes}

@[simp] theorem indices_nil : indices [] = ∅ := by
  ext i
  simp [indices]

@[simp] theorem indices_cons (i : ℕ) (c : UInt8) (writes : List (ℕ × UInt8)) :
    indices ((i, c) :: writes) = insert i (indices writes) := by
  ext j
  simp [indices, exists_or]

@[simp] theorem indices_append (writes writes' : List (ℕ × UInt8)) :
    indices (writes ++ writes') = indices writes ∪ indices writes' := by
  ext j
  simp [indices, exists_or]

section StoreEach

variable {b b' : Block} {writes : List (ℕ × UInt8)}

@[simp] theorem storeEach_nil (b : Block) : b.storeEach [] = .ok b := rfl

theorem storeEach_cons (i : ℕ) (c : UInt8) (writes : List (ℕ × UInt8)) :
    b.storeEach ((i, c) :: writes) = b.store i c >>= fun b => b.storeEach writes := rfl

theorem storeEach_append (writes writes' : List (ℕ × UInt8)) :
    b.storeEach (writes ++ writes') = b.storeEach writes >>= fun b => b.storeEach writes' :=
  List.foldlM_append

/-- A program that goes on after one write. -/
theorem bind_map_storeEach {α : Type} (b : Block) (i : ℕ) (c : UInt8) (writes : List (ℕ × UInt8))
    (r : α) : (b.store i c >>= fun b => (b.storeEach writes).map fun b => (b, r)) =
      (b.storeEach ((i, c) :: writes)).map fun b => (b, r) := by
  rw [storeEach_cons]
  cases b.store i c <;> rfl

/-- **A program stays in an object** just if every index it writes is below its size. -/
theorem exists_storeEach_iff :
    (∃ b', b.storeEach writes = .ok b') ↔ ∀ i ∈ indices writes, i < b.size := by
  induction writes generalizing b with
  | nil => exact iff_of_true ⟨b, rfl⟩ (by simp)
  | cons w writes ih =>
    obtain ⟨j, c⟩ := w
    rw [storeEach_cons, store, indices_cons, Set.forall_mem_insert]
    by_cases hj : j < b.size
    · rw [if_pos hj, and_iff_right hj]
      -- the first write leaves the size as it is
      refine ih.trans ?_
      rw [size, List.length_set]
      rfl
    · rw [if_neg hj]
      refine iff_of_false ?_ fun h => hj h.1
      rintro ⟨b', hb'⟩
      exact absurd hb' (by simp [bind, Except.bind])

/-- Above the indices that are written, the object stays as it is. -/
theorem drop_storeEach {k : ℕ} (h : b.storeEach writes = .ok b')
    (hk : ∀ i ∈ indices writes, i < k) : b'.cells.drop k = b.cells.drop k := by
  induction writes generalizing b with
  | nil => rw [Except.ok.inj h]
  | cons w writes ih =>
    obtain ⟨j, c⟩ := w
    rw [indices_cons, Set.forall_mem_insert] at hk
    rw [storeEach_cons] at h
    rcases hstore : b.store j c with f | b₁
    · rw [hstore] at h
      exact absurd h (by simp [bind, Except.bind])
    · rw [hstore] at h
      exact (ih h hk.2).trans (drop_store hstore hk.1)

end StoreEach

/-! ### One byte behind the other -/

/-- The writes that put the bytes of a text one behind the other, from index `i` on. -/
def consecutive : ℕ → List UInt8 → List (ℕ × UInt8)
  | _, [] => []
  | i, c :: l => (i, c) :: consecutive (i + 1) l

/-- They write the indices the text takes. -/
theorem indices_consecutive (i : ℕ) (l : List UInt8) :
    indices (consecutive i l) = Set.Ico i (i + l.length) := by
  induction l generalizing i with
  | nil => simp [consecutive]
  | cons c l ih =>
    have hlen : i + (c :: l).length = i + 1 + l.length := by
      rw [List.length_cons]
      omega
    have hlt : i < i + 1 + l.length := by omega
    rw [consecutive, indices_cons, ih, hlen]
    exact Set.insert_Ico_succ_left_eq_Ico hlt

/-- They put the text behind what the object starts with. -/
theorem Starts.storeEach {b : Block} {text : List UInt8} (h : b.Starts text) (l : List UInt8)
    (hroom : text.length + l.length ≤ b.size) :
    ∃ b', b.storeEach (consecutive text.length l) = .ok b' ∧ b'.Starts (text ++ l) ∧
      b'.size = b.size := by
  induction l generalizing b text with
  | nil => exact ⟨b, rfl, by rwa [List.append_nil], rfl⟩
  | cons c l ih =>
    rw [List.length_cons] at hroom
    obtain ⟨b₁, hstore, hstarts, hsize⟩ := h.store (by omega) c
    have hone : (text ++ [c]).length = text.length + 1 := by simp
    obtain ⟨b', hrest, hstarts', hsize'⟩ := ih hstarts (by omega)
    refine ⟨b', ?_, ?_, hsize'.trans hsize⟩
    · rw [consecutive, storeEach_cons, hstore, ← hone]
      exact hrest
    · rwa [List.append_assoc, List.singleton_append] at hstarts'

end Block

end CLib
