import Mathlib.Data.List.AList
import Mathlib.Data.List.Nodup

/-!
# Linked lists changed through slots

A singly linked list in a heap, searched the way C programs do when they mean to
change it: the search returns the *slot* – the address of the pointer that leads
to the entry, which is the head of the list or the `next` field of the entry
before – and insertion and removal write through it, with no case for the head,
the tail or the empty list.

A stretch of the list is a `SlotList.Segment`, from a pointer through some cells to
a pointer; the slot at the end of a stretch is `SlotList.slotAfter`, reading it
gives the pointer the stretch ends with (`SlotList.get_slotAfter`) and writing it
changes nothing but that (`SlotList.put_slotAfter`). So a store that represents the
cells `pre ++ post`, searched up to the end of `pre`, represents `pre ++ x :: post`
after `SlotList.link` and, when `post` is `x :: rest`, represents `pre ++ rest`
after `SlotList.unlink`.

Reading or writing where nothing is allocated is `none`, and so is a search that
goes round a cycle: a result is a proof that neither happens.
-/

namespace SlotList

/-- Addresses. -/
abbrev Addr := ℕ

/-- A list cell. -/
structure Cell (α : Type*) where
  val : α
  next : Option Addr

/-- The allocated cells. -/
abbrev Heap (α : Type*) := AList fun _ : Addr => Cell α

/-- A heap, and the pointer the list hangs from. -/
structure Store (α : Type*) where
  head : Option Addr
  heap : Heap α

/-- Where a pointer of the list is kept. -/
inductive Slot
  /-- The pointer the list hangs from. -/
  | head
  /-- The field `next` of the cell at an address. -/
  | next (a : Addr)
  deriving DecidableEq

variable {α : Type*}

/-- The store with nothing allocated. -/
def Store.empty : Store α := ⟨none, ∅⟩

/-- Read the pointer in a slot. -/
def Store.get (s : Store α) : Slot → Option (Option Addr)
  | .head => some s.head
  | .next a => (s.heap.lookup a).map Cell.next

/-- Write the pointer in a slot. -/
def Store.put (s : Store α) : Slot → Option Addr → Option (Store α)
  | .head, p => some { s with head := p }
  | .next a, p => (s.heap.lookup a).map fun cell =>
      { s with heap := s.heap.insert a { cell with next := p } }

/-- The search: `ret` is the slot that leads to `p`, and moves along with it. -/
def findLoop (heap : Heap α) (found : α → Bool) : ℕ → Option Addr → Slot → Option Slot
  | _, none, ret => some ret
  | 0, some _, _ => none
  | fuel + 1, some a, ret =>
    match heap.lookup a with
    | none => none
    | some cell => if found cell.val then some ret else findLoop heap found fuel cell.next (.next a)

/-- The slot that leads to the first entry wanted, or the last slot of the
list. -/
def Store.find (s : Store α) (found : α → Bool) : Option Slot :=
  findLoop s.heap found s.heap.keys.length s.head .head

/-- Hang a new cell at the address `a` into a slot, in front of what hangs there. -/
def Store.link (s : Store α) (slot : Slot) (a : Addr) (v : α) : Option (Store α) :=
  (s.get slot).bind fun next =>
    Store.put { s with heap := s.heap.insert a ⟨v, next⟩ } slot (some a)

/-- Take out the cell that hangs in a slot, and free it. -/
def Store.unlink (s : Store α) (slot : Slot) : Option (Store α) :=
  (s.get slot).bind fun p =>
    p.bind fun a =>
      (s.heap.lookup a).bind fun cell =>
        (s.put slot cell.next).map fun s' => { s' with heap := s'.heap.erase a }

/-- Addresses for new cells: never one in use. -/
structure Allocator (α : Type*) where
  malloc : Heap α → Addr
  fresh : ∀ heap, malloc heap ∉ heap

/-! ### Stretches of a list -/

/-- The heap leads from the pointer `p` through the cells `l` to the pointer `q`. -/
def Segment (heap : Heap α) : Option Addr → List (Addr × α) → Option Addr → Prop
  | p, [], q => p = q
  | p, (a, v) :: l, q => p = some a ∧ ∃ next, heap.lookup a = some ⟨v, next⟩ ∧
      Segment heap next l q

/-- The slot at the end of a stretch that starts from the slot `ret`. -/
def slotAfter : Slot → List (Addr × α) → Slot
  | ret, [] => ret
  | _, (a, _) :: l => slotAfter (.next a) l

@[simp] theorem segment_nil {heap : Heap α} {p q : Option Addr} :
    Segment heap p [] q ↔ p = q := Iff.rfl

theorem segment_append {heap : Heap α} {l m : List (Addr × α)} {p r : Option Addr} :
    Segment heap p (l ++ m) r ↔ ∃ q, Segment heap p l q ∧ Segment heap q m r := by
  induction l generalizing p with
  | nil => simp
  | cons x l ih =>
    obtain ⟨a, v⟩ := x
    simp only [List.cons_append, Segment, ih]
    constructor
    · rintro ⟨hp, next, hcell, q, hl, hm⟩
      exact ⟨q, ⟨hp, next, hcell, hl⟩, hm⟩
    · rintro ⟨q, ⟨hp, next, hcell, hl⟩, hm⟩
      exact ⟨hp, next, hcell, q, hl, hm⟩

/-- The last cell of a stretch holds the pointer it ends with. -/
theorem segment_concat {heap : Heap α} {l : List (Addr × α)} {a : Addr} {v : α}
    {p q : Option Addr} :
    Segment heap p (l ++ [(a, v)]) q ↔
      Segment heap p l (some a) ∧ heap.lookup a = some ⟨v, q⟩ := by
  rw [segment_append]
  constructor
  · rintro ⟨r, hl, rfl, next, hcell, rfl⟩
    exact ⟨hl, hcell⟩
  · rintro ⟨hl, hcell⟩
    exact ⟨some a, hl, rfl, q, hcell, rfl⟩

theorem slotAfter_concat (ret : Slot) (l : List (Addr × α)) (a : Addr) (v : α) :
    slotAfter ret (l ++ [(a, v)]) = .next a := by
  induction l generalizing ret with
  | nil => rfl
  | cons x l ih => rw [List.cons_append, slotAfter, ih]

/-- A stretch depends on its own cells only. -/
theorem Segment.frame {heap heap' : Heap α} {l : List (Addr × α)} {p q : Option Addr}
    (h : Segment heap p l q)
    (hkeep : ∀ a ∈ l.map Prod.fst, heap'.lookup a = heap.lookup a) : Segment heap' p l q := by
  induction l generalizing p with
  | nil => exact h
  | cons x l ih =>
    obtain ⟨a, v⟩ := x
    obtain ⟨hp, next, hcell, hl⟩ := h
    refine ⟨hp, next, ?_, ih hl fun b hb => hkeep b (List.mem_cons_of_mem _ hb)⟩
    rw [hkeep a List.mem_cons_self, hcell]

/-! ### Reading and writing at the end of a stretch -/

theorem get_slotAfter {s : Store α} {l : List (Addr × α)} {q : Option Addr}
    (h : Segment s.heap s.head l q) : s.get (slotAfter .head l) = some q := by
  rcases List.eq_nil_or_concat' l with rfl | ⟨l', ⟨a, v⟩, rfl⟩
  · exact congrArg some h
  · rw [slotAfter_concat, Store.get, (segment_concat.mp h).2]
    rfl

/-- **Writing the slot at the end of a stretch** makes the stretch end there, and
leaves every other cell alone. -/
theorem put_slotAfter {s : Store α} {l : List (Addr × α)} {q : Option Addr} (q' : Option Addr)
    (h : Segment s.heap s.head l q) (hnodup : (l.map Prod.fst).Nodup) :
    ∃ s', s.put (slotAfter .head l) q' = some s' ∧ Segment s'.heap s'.head l q' ∧
      (∀ a ∉ l.map Prod.fst, s'.heap.lookup a = s.heap.lookup a) ∧
      ∀ a, a ∈ s'.heap ↔ a ∈ s.heap := by
  rcases List.eq_nil_or_concat' l with rfl | ⟨l', ⟨b, v⟩, rfl⟩
  · exact ⟨_, rfl, rfl, fun _ _ => rfl, fun _ => Iff.rfl⟩
  · obtain ⟨hl, hcell⟩ := segment_concat.mp h
    have hb : b ∉ l'.map Prod.fst := by
      rw [List.map_append, List.nodup_append'] at hnodup
      exact fun hb => hnodup.2.2 hb (by simp)
    refine ⟨_, by rw [slotAfter_concat, Store.put, hcell]; rfl, ?_, fun a ha => ?_, fun a => ?_⟩
    · refine segment_concat.mpr ⟨hl.frame fun a ha => ?_, by rw [AList.lookup_insert]⟩
      exact AList.lookup_insert_ne fun hab => hb (hab ▸ ha)
    · exact AList.lookup_insert_ne fun hab => ha (by simp [hab])
    · rw [AList.mem_insert]
      exact or_iff_right_of_imp fun hab => hab ▸ AList.lookup_isSome.mp (by simp [hcell])

/-! ### The cells a store represents -/

/-- The list of a store is `l`: from the head through these cells to the null
pointer, no two at one address, and nothing else is allocated. -/
structure Represents (s : Store α) (l : List (Addr × α)) : Prop where
  /-- The list is linked. -/
  linked : Segment s.heap s.head l none
  /-- The cells are distinct. -/
  nodup : (l.map Prod.fst).Nodup
  /-- There are no others. -/
  live : ∀ a, a ∈ s.heap ↔ a ∈ l.map Prod.fst

theorem represents_empty : Represents (Store.empty : Store α) [] :=
  ⟨rfl, List.nodup_nil, fun a => by simp [Store.empty]⟩

/-- No more cells are in the list than are allocated. -/
theorem Represents.length_le {s : Store α} {l : List (Addr × α)} (h : Represents s l) :
    l.length ≤ s.heap.keys.length := by
  rw [← List.length_map Prod.fst]
  refine (List.subperm_of_subset h.nodup fun a ha => ?_).length_le
  exact (h.live a).mpr ha

/-- The search walks along the cells not wanted. -/
theorem findLoop_eq {heap : Heap α} {found : α → Bool} {l : List (Addr × α)} {p : Option Addr}
    (h : Segment heap p l none) (ret : Slot) {fuel : ℕ} (hfuel : l.length ≤ fuel) :
    findLoop heap found fuel p ret =
      some (slotAfter ret (l.takeWhile fun x => !found x.2)) := by
  induction l generalizing p ret fuel with
  | nil =>
    obtain rfl : p = none := h
    rw [findLoop]
    rfl
  | cons x l ih =>
    obtain ⟨a, v⟩ := x
    obtain ⟨rfl, next, hcell, hl⟩ := h
    obtain ⟨fuel, rfl⟩ : ∃ n, fuel = n + 1 := ⟨fuel - 1, by simp at hfuel; omega⟩
    rw [findLoop, hcell]
    rcases hv : found v with _ | _
    · simpa [hv, slotAfter] using ih hl (.next a) (by simpa using hfuel)
    · simp [hv, slotAfter]

/-- **The search succeeds**, and returns the slot after the cells not wanted. -/
theorem Represents.find_eq {s : Store α} {l : List (Addr × α)} (h : Represents s l)
    (found : α → Bool) :
    s.find found = some (slotAfter .head (l.takeWhile fun x => !found x.2)) :=
  findLoop_eq h.linked .head h.length_le

/-- What is in the slot reached: a pointer to the first of the remaining cells. -/
theorem Represents.get_slotAfter {s : Store α} {pre post : List (Addr × α)}
    (h : Represents s (pre ++ post)) :
    s.get (slotAfter .head pre) = some (post.head?.map Prod.fst) := by
  obtain ⟨q, hpre, hpost⟩ := segment_append.mp h.linked
  rw [SlotList.get_slotAfter hpre]
  cases post with
  | nil => rw [show q = none from hpost]; rfl
  | cons x post => rw [show q = some x.1 from hpost.1]; rfl

/-- The cell of an entry of the list. -/
theorem Represents.lookup_eq {s : Store α} {pre post : List (Addr × α)} {a : Addr} {v : α}
    (h : Represents s (pre ++ (a, v) :: post)) :
    s.heap.lookup a = some ⟨v, post.head?.map Prod.fst⟩ := by
  obtain ⟨q, -, -, next, hcell, hpost⟩ := segment_append.mp h.linked
  rw [hcell]
  cases post with
  | nil => rw [show next = none from hpost]; rfl
  | cons x post => rw [show next = some x.1 from hpost.1]; rfl

/-- **Linking inserts one cell**, behind the cells searched. -/
theorem Represents.link {s : Store α} {pre post : List (Addr × α)}
    (h : Represents s (pre ++ post)) {a : Addr} (ha : a ∉ s.heap) (v : α) :
    ∃ s', s.link (slotAfter .head pre) a v = some s' ∧ Represents s' (pre ++ (a, v) :: post) := by
  obtain ⟨q, hpre, hpost⟩ := segment_append.mp h.linked
  obtain ⟨hnpre, hnpost, hdisj⟩ := List.nodup_append'.mp (by simpa using h.nodup)
  have hout : a ∉ (pre ++ post).map Prod.fst := fun hmem => ha ((h.live a).mpr hmem)
  -- the new cell changes no cell of the list
  have hkeep : ∀ b ∈ (pre ++ post).map Prod.fst,
      (s.heap.insert a ⟨v, q⟩).lookup b = s.heap.lookup b := fun b hb =>
    AList.lookup_insert_ne fun hba => hout (hba ▸ hb)
  have hpre' : Segment (s.heap.insert a ⟨v, q⟩) s.head pre q :=
    hpre.frame fun b hb => hkeep b (by simp_all)
  have hpost' : Segment (s.heap.insert a ⟨v, q⟩) q post none :=
    hpost.frame fun b hb => hkeep b (by simp_all)
  obtain ⟨s', hput, hseg, hsame, hmem⟩ :=
    put_slotAfter (s := { s with heap := s.heap.insert a ⟨v, q⟩ }) (some a) hpre' hnpre
  refine ⟨s', ?_, ?_, ?_, fun b => ?_⟩
  · rw [Store.link, SlotList.get_slotAfter hpre]
    exact hput
  · refine segment_append.mpr ⟨some a, hseg, rfl, q, ?_, hpost'.frame fun b hb => ?_⟩
    · rw [hsame a fun hc => hout (by simp_all)]
      exact AList.lookup_insert _
    · exact hsame b fun hc => hdisj hc hb
  · rw [List.map_append, List.map_cons, List.nodup_middle, List.nodup_cons, ← List.map_append]
    exact ⟨hout, h.nodup⟩
  · rw [hmem, AList.mem_insert, h.live]
    simp only [List.map_append, List.map_cons, List.mem_append, List.mem_cons]
    tauto

/-- **Unlinking removes one cell**, the first of those behind the cells searched. -/
theorem Represents.unlink {s : Store α} {pre post : List (Addr × α)} {a : Addr} {v : α}
    (h : Represents s (pre ++ (a, v) :: post)) :
    ∃ s', s.unlink (slotAfter .head pre) = some s' ∧ Represents s' (pre ++ post) := by
  obtain ⟨q, hpre, rfl, next, hcell, hpost⟩ := segment_append.mp h.linked
  obtain ⟨hout, hnodup⟩ : a ∉ (pre ++ post).map Prod.fst ∧
      ((pre ++ post).map Prod.fst).Nodup := by
    have := h.nodup
    rwa [List.map_append, List.map_cons, List.nodup_middle, List.nodup_cons,
      ← List.map_append] at this
  obtain ⟨hnpre, -, hdisj⟩ := List.nodup_append'.mp (by simpa using hnodup)
  obtain ⟨s', hput, hseg, hsame, hmem⟩ := put_slotAfter next hpre hnpre
  -- freeing the cell changes no cell of the list
  have hkeep : ∀ b ∈ (pre ++ post).map Prod.fst,
      (s'.heap.erase a).lookup b = s'.heap.lookup b := fun b hb =>
    AList.lookup_erase_ne fun hba => hout (hba ▸ hb)
  refine ⟨{ s' with heap := s'.heap.erase a }, ?_, ?_, hnodup, fun b => ?_⟩
  · rw [Store.unlink, SlotList.get_slotAfter hpre]
    simp [hcell, hput]
  · refine segment_append.mpr ⟨next, hseg.frame fun b hb => hkeep b (by simp_all), ?_⟩
    refine hpost.frame fun b hb => ?_
    rw [hkeep b (by simp_all)]
    exact hsame b fun hc => hdisj hc hb
  · rw [AList.mem_erase, hmem, h.live]
    simp only [List.map_append, List.map_cons, List.mem_append, List.mem_cons]
    constructor
    · tauto
    · intro hb
      refine ⟨fun hba => hout (hba ▸ by simpa using hb), by tauto⟩

end SlotList
