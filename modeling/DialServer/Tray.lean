import DialServer.Server
import DialServer.Lib.Forest

/-!
# The menus of the tray icon

A `Tray::Menu` is built from its entries, some of which are submenus that have been built
before. Its constructor takes over the list `descendants` of every submenu and clears it,
so that only the menu that is shown has to be searched when the system reports a selection
by the handle of a menu and a position in it: `DialServer.Tray.TrayIcon.parseMenuSelection`.

The menus a program has built are a forest, and the lists flatten it
(`DialServer.Tray.Built.formed`, by `Forest.Flattens.graft`). So a selection reaches the
callback of the entry it was made on, however deep the menu is, and nothing else:
`DialServer.Tray.built_dispatch`.
-/

namespace DialServer

namespace Tray

open CLib Forest Relation

/-! ### Menus -/

/-- The address of a `Menu`. -/
abbrev MenuPtr := ℕ

/-- A menu of the system, `HMENU`. -/
abbrev Handle := ℕ

/-- The bit of `flags` for an entry that is shown gray. -/
def grayedFlag : UInt8 := 1

/-- The bit for an entry that cannot be selected. -/
def disabledFlag : UInt8 := 2

/-- The bit for an entry with a check mark. -/
def checkedFlag : UInt8 := 4

/-- What the constructor of `MenuEntry` sets, unless the entry is a separator or a break. -/
structure EntryBody where
  lpEntryItem : CStr
  /-- `none` stands for `NULL`. -/
  callback : Option Ptr
  checked : Bool
  grayed : Bool
  enabled : Bool
  deriving DecidableEq

/-- The constructor of `MenuEntry`. -/
def EntryBody.new (flags : UInt8) (item : CStr) (callback : Option Ptr) : EntryBody where
  lpEntryItem := item
  callback := callback
  checked := flags &&& checkedFlag ≠ 0
  grayed := flags &&& grayedFlag ≠ 0
  enabled := if flags &&& grayedFlag ≠ 0 then false else flags &&& disabledFlag = 0

/-- The type of an entry, with what the type comes with. -/
inductive EntryType
  | string (body : EntryBody)
  | menu (body : EntryBody) (menu : MenuPtr)
  | separator
  | break
  | barBreak
  deriving DecidableEq

/-- An entry; `none` stands for a field nobody has set. -/
structure MenuEntry where
  type : EntryType
  id : Option ℕ
  parent : Option MenuPtr
  deriving DecidableEq

/-- The menu an entry opens. -/
def MenuEntry.submenu (e : MenuEntry) : Option MenuPtr :=
  match e.type with
  | .menu _ menu => some menu
  | _ => none

/-- What `InsertMenu` puts at the end of a menu of the system. -/
structure MenuItem where
  flags : ℕ
  /-- The position, or the handle of the menu that is opened. -/
  newItem : ℕ
  text : Option CStr
  deriving DecidableEq

/-- A `Menu`, with the menu of the system it has the handle of. -/
structure Menu where
  handle : Handle
  entries : List MenuEntry
  descendants : List MenuPtr
  items : List MenuItem
  deriving DecidableEq

/-- The menus that exist. -/
abbrev Menus := MenuPtr → Option Menu

/-- Access to a menu. -/
def deref (menus : Menus) (p : MenuPtr) : Except Fault Menu :=
  match menus p with
  | some m => .ok m
  | none => .error .outOfBounds

/-! ### The constructor -/

/-- `MF_BYPOSITION`, which all items are inserted with. -/
def mfByPosition : ℕ := 0x400

/-- The flags of an entry with a text: `MF_GRAYED` and `MF_CHECKED`. `MF_ENABLED` and
`MF_STRING` are zero. -/
def EntryBody.flags (body : EntryBody) : ℕ := 0x1 * body.grayed.toNat ||| 0x8 * body.checked.toNat

/-- What is inserted for the entry at position `i`. -/
def MenuEntry.item (menus : Menus) (e : MenuEntry) (i : ℕ) : MenuItem :=
  match e.type with
  | .string body => ⟨mfByPosition ||| body.flags, i, some body.lpEntryItem⟩
  | .menu body menu =>
    -- `MF_POPUP`, and the handle in place of the position
    ⟨mfByPosition ||| 0x10 ||| body.flags, ((menus menu).map Menu.handle).getD 0,
      some body.lpEntryItem⟩
  | .separator => ⟨mfByPosition ||| 0x800, i, none⟩
  | .break => ⟨mfByPosition ||| 0x40, i, none⟩
  | .barBreak => ⟨mfByPosition ||| 0x20, i, none⟩

/-- The copy of an entry in a menu knows its position and the menu. -/
def MenuEntry.place (e : MenuEntry) (this : MenuPtr) (i : ℕ) : MenuEntry :=
  { e with id := some (i % 2 ^ 32), parent := some this }

/-- `InsertMenu` and `entries.push_back`, and the two assignments behind them. -/
def Menu.insert (m : Menu) (menus : Menus) (this : MenuPtr) (e : MenuEntry) (i : ℕ) : Menu :=
  { m with
    items := m.items ++ [e.item menus i]
    entries := (m.entries ++ [e]).modify i fun e => e.place this i }

/-- The body of the constructor's loop, at position `i`. -/
def insertEntry (this : MenuPtr) (menus : Menus) (entry : MenuEntry × ℕ) :
    Except Fault Menus := do
  let m ← deref menus this
  match entry.1.submenu with
  | none => pure (Function.update menus this (some (m.insert menus this entry.1 entry.2)))
  | some sub =>
    let _ ← deref menus sub -- `getHandle` is called on it
    let m := { m with descendants := m.descendants ++ [sub] }
    let menus := Function.update menus this (some (m.insert menus this entry.1 entry.2))
    let m ← deref menus this
    let submenu ← deref menus sub
    let menus := Function.update menus this
      (some { m with descendants := m.descendants ++ submenu.descendants })
    let submenu ← deref menus sub
    pure (Function.update menus sub (some { submenu with descendants := [] }))

/-- The constructor of `Menu`, for an object at `this` and a handle from the system. -/
def newMenu (menus : Menus) (this : MenuPtr) (handle : Handle) (entries : List MenuEntry) :
    Except Fault Menus :=
  entries.zipIdx.foldlM (insertEntry this)
    (Function.update menus this (some ⟨handle, [], [], []⟩))

/-! ### The selection -/

/-- What the button of a tray icon does. -/
inductive ButtonCallback
  | menu (menu : MenuPtr)
  | function (callback : Ptr)
  | hWnd (hWnd : ℕ)
  | none
  deriving DecidableEq

/-- The buttons of a tray icon. -/
structure TrayIcon where
  lButton : ButtonCallback
  rButton : ButtonCallback
  deriving DecidableEq

/-- A call of a callback, with its arguments. -/
structure Call where
  callback : Ptr
  menu : MenuPtr
  id : ℕ
  deriving DecidableEq

/-- The callback of an entry, to be called; a separator's has never been set. -/
def MenuEntry.callback (e : MenuEntry) : Except Fault Ptr :=
  match e.type with
  | .string body | .menu body _ => match body.callback with
    | some callback => .ok callback
    | none => .error .null
  | _ => .error .indeterminate

/-- `(*menu)[id].callback(menu, id)`; the operator and the callback take an `unsigned int`. -/
def select (menus : Menus) (menu : MenuPtr) (id : ℕ) : Except Fault Call := do
  let m ← deref menus menu
  match m.entries[id % 2 ^ 32]? with
  | none => .error .outOfBounds
  | some e => do
    let callback ← e.callback
    pure ⟨callback, menu, id % 2 ^ 32⟩

/-- The loop over `descendants`: the first menu with the handle. -/
def findHandle (menus : Menus) (hMenu : Handle) : List MenuPtr → Except Fault (Option MenuPtr)
  | [] => .ok none
  | p :: rest => do
    let m ← deref menus p
    if m.handle = hMenu then pure (some p) else findHandle menus hMenu rest

/-- The menu of a button that a selection was made in. -/
def findMenu (menus : Menus) (hMenu : Handle) (button : ButtonCallback) :
    Except Fault (Option MenuPtr) :=
  match button with
  | .menu root => do
    let m ← deref menus root
    if m.handle ≠ hMenu then findHandle menus hMenu m.descendants else pure (some root)
  | _ => .ok none

/-- `parseMenuSelection`, and the calls it makes. -/
def TrayIcon.parseMenuSelection (icon : TrayIcon) (menus : Menus) (id : ℕ) (hMenu : Handle) :
    Except Fault (List Call) := do
  match ← findMenu menus hMenu icon.lButton with
  | some menu => return [← select menus menu id]
  | none => match ← findMenu menus hMenu icon.rButton with
    | some menu => return [← select menus menu id]
    | none => return []

/-! ### What the constructor leaves -/

/-- The menus that entries open. -/
def children (entries : List MenuEntry) : List MenuPtr := entries.filterMap MenuEntry.submenu

/-- The list of a menu, empty where there is no menu. -/
def descendants (menus : Menus) (p : MenuPtr) : List MenuPtr :=
  ((menus p).map Menu.descendants).getD []

/-- Entries as a menu has them. -/
def placed (this : MenuPtr) (entries : List MenuEntry) : List MenuEntry :=
  entries.zipIdx.map fun e => e.1.place this e.2

/-- The items of entries. -/
def itemsOf (menus : Menus) (entries : List MenuEntry) : List MenuItem :=
  entries.zipIdx.map fun e => e.1.item menus e.2

/-- The menus after `this` has been built from entries. -/
def built (menus : Menus) (this : MenuPtr) (handle : Handle) (entries : List MenuEntry) : Menus :=
  fun p =>
    if p = this then
      some ⟨handle, placed this entries,
        (children entries).flatMap fun c => c :: descendants menus c, itemsOf menus entries⟩
    else if p ∈ children entries then (menus p).map fun m => { m with descendants := [] }
    else menus p

section Constructor

variable {menus : Menus} {this : MenuPtr} {handle : Handle}

theorem descendants_eq {p : MenuPtr} {m : Menu} (hm : menus p = some m) :
    descendants menus p = m.descendants := by
  rw [descendants, hm, Option.map_some, Option.getD_some]

theorem built_this (entries : List MenuEntry) :
    built menus this handle entries this =
      some ⟨handle, placed this entries,
        (children entries).flatMap fun c => c :: descendants menus c,
        itemsOf menus entries⟩ := if_pos rfl

theorem built_of_notMem {entries : List MenuEntry} {p : MenuPtr} (hp : p ≠ this)
    (hmem : p ∉ children entries) : built menus this handle entries p = menus p := by
  rw [built, if_neg hp, if_neg hmem]

theorem children_append (entries : List MenuEntry) (e : MenuEntry) :
    children (entries ++ [e]) = children entries ++ e.submenu.toList := by
  rw [children, List.filterMap_append, ← children, List.filterMap_cons]
  cases e.submenu <;> rfl

/-- The new entry is the one the two assignments find at its position. -/
theorem insert_built (m : Menu) (menus' : Menus) (entries : List MenuEntry) (e : MenuEntry)
    (hentries : m.entries = placed this entries) (hitems : m.items = itemsOf menus entries)
    (hitem : e.item menus' entries.length = e.item menus entries.length) :
    m.insert menus' this e entries.length =
      { m with
        entries := placed this (entries ++ [e])
        items := itemsOf menus (entries ++ [e]) } := by
  have hlen : (placed this entries).length = entries.length := by
    rw [placed, List.length_map, List.length_zipIdx]
  have hplaced : placed this (entries ++ [e]) =
      placed this entries ++ [e.place this entries.length] := by
    simp [placed, List.zipIdx_append]
  have hitemsOf : itemsOf menus (entries ++ [e]) =
      itemsOf menus entries ++ [e.item menus entries.length] := by
    simp [itemsOf, List.zipIdx_append]
  have hmodify : (placed this entries ++ [e]).modify entries.length
      (fun e => e.place this entries.length) =
      placed this entries ++ [e.place this entries.length] := by
    rw [← hlen, List.modify_eq_take_cons_drop (by simp)]
    simp
  rw [Menu.insert, hentries, hitems, hitem, hmodify, hplaced, hitemsOf]

/-- What is inserted depends on the menu that is opened only. -/
theorem item_congr {menus' : Menus} {e : MenuEntry}
    (h : ∀ c, e.submenu = some c → menus' c = menus c) (i : ℕ) :
    e.item menus' i = e.item menus i := by
  obtain ⟨type, id, parent⟩ := e
  cases type with
  | menu body c => simp only [MenuEntry.item, h c rfl]
  | string | separator | «break» | barBreak => rfl

/-- An entry that opens no menu is put into the new one. -/
theorem insertEntry_of_none {entries : List MenuEntry} {e : MenuEntry} (he : e.submenu = none) :
    insertEntry this (built menus this handle entries) (e, entries.length) =
      .ok (built menus this handle (entries ++ [e])) := by
  have hitem : e.item (built menus this handle entries) entries.length =
      e.item menus entries.length :=
    item_congr (fun c hc => absurd (he.symm.trans hc) (by simp)) entries.length
  have hchildren : children (entries ++ [e]) = children entries := by
    rw [children_append, he, Option.toList_none, List.append_nil]
  simp only [insertEntry, deref, built_this, bind, Except.bind, he]
  rw [insert_built _ _ entries e rfl rfl hitem]
  refine congrArg Except.ok (funext fun p => ?_)
  by_cases hp : p = this
  · rw [hp, Function.update_self, built_this, hchildren]
  · rw [Function.update_of_ne hp, built, built, if_neg hp, if_neg hp, hchildren]

/-- A submenu hands its list over. -/
theorem insertEntry_of_some {entries : List MenuEntry} {e : MenuEntry} {c : MenuPtr} {m : Menu}
    (he : e.submenu = some c) (hne : c ≠ this) (hmem : c ∉ children entries)
    (hm : menus c = some m) :
    insertEntry this (built menus this handle entries) (e, entries.length) =
      .ok (built menus this handle (entries ++ [e])) := by
  have hkept : built menus this handle entries c = menus c := built_of_notMem hne hmem
  have hc : built menus this handle entries c = some m := hkept.trans hm
  have hitem : e.item (built menus this handle entries) entries.length =
      e.item menus entries.length :=
    item_congr (fun d hd => Option.some.inj (he.symm.trans hd) ▸ hkept) entries.length
  have hchildren : children (entries ++ [e]) = children entries ++ [c] := by
    rw [children_append, he, Option.toList_some]
  simp only [insertEntry, deref, built_this, bind, Except.bind, he, hc]
  rw [insert_built _ _ entries e rfl rfl hitem]
  simp only [Function.update_self, Function.update_of_ne hne, hc, pure, Except.pure]
  refine congrArg Except.ok (funext fun p => ?_)
  by_cases hpc : p = c
  · rw [hpc, Function.update_self, built, if_neg hne, hchildren, if_pos (by simp), hm]
    rfl
  · rw [Function.update_of_ne hpc]
    by_cases hp : p = this
    · rw [hp, Function.update_self, built_this, hchildren, List.flatMap_append,
        List.flatMap_singleton, descendants_eq hm, List.append_assoc, List.singleton_append]
    · have hiff : p ∈ children (entries ++ [e]) ↔ p ∈ children entries := by
        rw [hchildren, List.mem_append, List.mem_singleton, or_iff_left hpc]
      rw [Function.update_of_ne hp, Function.update_of_ne hp, built, built, if_neg hp, if_neg hp]
      simp only [hiff]

/-- Entries a menu can be built from: their submenus have been built, and each of them is
used once. -/
structure Usable (menus : Menus) (entries : List MenuEntry) : Prop where
  exist : ∀ c ∈ children entries, ∃ m, menus c = some m
  nodup : (children entries).Nodup

/-- **The constructor does what it should.** -/
theorem newMenu_eq {entries : List MenuEntry} (hfresh : menus this = none)
    (h : Usable menus entries) :
    newMenu menus this handle entries = .ok (built menus this handle entries) := by
  -- one more entry, behind those that have been put in
  induction entries using List.reverseRecOn with
  | nil =>
    refine congrArg Except.ok (funext fun p => ?_)
    by_cases hp : p = this
    · rw [hp, Function.update_self, built_this]
      rfl
    · rw [Function.update_of_ne hp, built_of_notMem hp List.not_mem_nil]
  | append_singleton entries e ih =>
    obtain ⟨hexist, hnodup⟩ := h
    rw [children_append] at hexist hnodup
    have hprefix := ih ⟨fun c hc => hexist c (List.mem_append_left _ hc),
      hnodup.sublist (List.sublist_append_left _ _)⟩
    rw [newMenu] at hprefix
    rw [newMenu, List.zipIdx_append, List.foldlM_append, hprefix]
    simp only [bind, Except.bind, List.zipIdx_cons, List.zipIdx_nil, List.foldlM_cons,
      List.foldlM_nil, Nat.zero_add]
    cases he : e.submenu with
    | none =>
      rw [insertEntry_of_none he]
      rfl
    | some c =>
      have hlast : c ∈ e.submenu.toList := by rw [he, Option.toList_some, List.mem_singleton]
      obtain ⟨m, hm⟩ := hexist c (List.mem_append_right _ hlast)
      have hne : c ≠ this := by
        rintro rfl
        exact absurd (hfresh.symm.trans hm) (by simp)
      have hmem : c ∉ children entries := fun hmem =>
        List.disjoint_of_nodup_append hnodup hmem hlast
      rw [insertEntry_of_some he hne hmem hm]
      rfl

end Constructor

/-! ### The menus a program has built -/

/-- A menu has an entry that opens another one. -/
def Submenu (menus : Menus) (p q : MenuPtr) : Prop :=
  ∃ m, menus p = some m ∧ q ∈ children m.entries

/-- **Runs of the constructor**: every menu is new, with a handle of its own, and its
submenus have been built before it and are in no other menu. -/
inductive Built : Menus → Prop
  | start : Built fun _ => none
  | new {menus menus' : Menus} {this : MenuPtr} {handle : Handle} {entries : List MenuEntry} :
      Built menus → menus this = none → (∀ p m, menus p = some m → m.handle ≠ handle) →
      Usable menus entries → (∀ c ∈ children entries, IsRoot (Submenu menus) c) →
      newMenu menus this handle entries = .ok menus' → Built menus'

/-- **What holds of the menus at any time**: no menu is in two others, all submenus exist,
the handles are different, and the lists flatten the forest. -/
structure Formed (menus : Menus) : Prop where
  unique : Relator.LeftUnique (Submenu menus)
  exist : ∀ p q, Submenu menus p q → ∃ m, menus q = some m
  handles : ∀ p q m n, menus p = some m → menus q = some n → m.handle = n.handle → p = q
  flattens : Flattens (Submenu menus) (descendants menus)

section Formed

variable {menus : Menus} {this : MenuPtr} {handle : Handle} {entries : List MenuEntry}

theorem children_placed : children (placed this entries) = children entries := by
  induction entries using List.reverseRecOn with
  | nil => rfl
  | append_singleton entries e ih =>
    rw [placed, List.zipIdx_append, List.map_append, ← placed, List.zipIdx_singleton,
      List.map_singleton, children_append, children_append, ih]
    rfl

/-- The new menu is put over its submenus. -/
theorem submenu_built (hfresh : menus this = none) :
    Submenu (built menus this handle entries) = graft (Submenu menus) this (children entries) := by
  funext p q
  refine propext ?_
  by_cases hp : p = this
  · subst hp
    simp [Submenu, graft, built_this, hfresh, children_placed]
  · have hentries : ((built menus this handle entries p).map Menu.entries) =
        (menus p).map Menu.entries := by
      rw [built, if_neg hp]
      split
      · rw [Option.map_map]
        rfl
      · rfl
    have hiff : ∀ menus' : Menus, Submenu menus' p q ↔
        ∃ es ∈ (menus' p).map Menu.entries, q ∈ children es := by
      simp [Submenu]
    rw [graft, hiff, hiff, hentries, or_iff_left fun h => hp h.1]

/-- Its list takes over theirs. -/
theorem descendants_built :
    descendants (built menus this handle entries) =
      graftBelow (descendants menus) this (children entries) := by
  funext p
  rw [descendants, built, graftBelow]
  split
  · rfl
  · split
    · cases menus p <;> rfl
    · rfl

theorem handle_built {p : MenuPtr} {m : Menu} (hp : p ≠ this)
    (hm : built menus this handle entries p = some m) :
    ∃ m', menus p = some m' ∧ m'.handle = m.handle := by
  rw [built, if_neg hp] at hm
  split at hm
  · obtain ⟨m', hm', rfl⟩ := Option.map_eq_some_iff.mp hm
    exact ⟨m', hm', rfl⟩
  · exact ⟨m, hm, rfl⟩

theorem Formed.start : Formed fun _ => none := by
  have hnot : ∀ p q, ¬Submenu (fun _ => none) p q := by simp [Submenu]
  refine ⟨fun p _ q hp => absurd hp (hnot p _), fun p q hq => absurd hq (hnot p q),
    fun p q m n hp => absurd hp (by simp), ?_, ?_, ?_⟩
  · exact fun r _ => List.nodup_nil
  · intro r _ q
    refine iff_of_false List.not_mem_nil fun h => ?_
    obtain ⟨p, -, hp⟩ := TransGen.tail'_iff.mp h
    exact hnot p q hp
  · exact fun q _ => rfl

/-- All the submenus there are still exist. -/
theorem exist_built (h : Formed menus) (hfresh : menus this = none) (huse : Usable menus entries)
    (p q : MenuPtr) (hq : Submenu (built menus this handle entries) p q) :
    ∃ m, built menus this handle entries q = some m := by
  rw [submenu_built hfresh] at hq
  obtain ⟨m, hm⟩ : ∃ m, menus q = some m := hq.elim (h.exist p q) fun hq => huse.exist q hq.2
  by_cases hne : q = this
  · rw [hne]
    exact ⟨_, built_this entries⟩
  · by_cases hmem : q ∈ children entries
    · exact ⟨_, by rw [built, if_neg hne, if_pos hmem, hm, Option.map_some]⟩
    · exact ⟨m, by rw [built_of_notMem hne hmem, hm]⟩

/-- A handle that is neither the new menu's nor an old one's is nobody's. -/
theorem handle_ne_built {hMenu : Handle} (hold : ∀ p m, menus p = some m → m.handle ≠ hMenu)
    (hne : handle ≠ hMenu) :
    ∀ p m, built menus this handle entries p = some m → m.handle ≠ hMenu := by
  intro p m hm
  by_cases hp : p = this
  · rw [hp, built_this] at hm
    exact Option.some.inj hm ▸ hne
  · obtain ⟨m', hm', heq⟩ := handle_built hp hm
    exact heq ▸ hold p m' hm'

/-- The handles stay different. -/
theorem handles_built (h : Formed menus) (hhandle : ∀ p m, menus p = some m → m.handle ≠ handle)
    (p q : MenuPtr) (m n : Menu) (hm : built menus this handle entries p = some m)
    (hn : built menus this handle entries q = some n) (heq : m.handle = n.handle) : p = q := by
  have hnew : ∀ r k, r ≠ this → built menus this handle entries r = some k →
      k.handle ≠ handle := fun r k hr hk => by
    obtain ⟨k', hk', hkk⟩ := handle_built hr hk
    exact hkk ▸ hhandle r k' hk'
  have hthis : ∀ k, built menus this handle entries this = some k → k.handle = handle :=
    fun k hk => by rw [← Option.some.inj ((built_this entries).symm.trans hk)]
  by_cases hp : p = this <;> by_cases hq : q = this
  · exact hp.trans hq.symm
  · exact absurd (heq.symm.trans (hthis m (hp ▸ hm))) (hnew q n hq hn)
  · exact absurd (heq.trans (hthis n (hq ▸ hn))) (hnew p m hp hm)
  · obtain ⟨m', hm', hhm⟩ := handle_built hp hm
    obtain ⟨n', hn', hhn⟩ := handle_built hq hn
    exact h.handles p q m' n' hm' hn' (by rw [hhm, hhn, heq])

/-- **One more menu keeps the invariant.** -/
theorem Formed.new (h : Formed menus) (hfresh : menus this = none)
    (hhandle : ∀ p m, menus p = some m → m.handle ≠ handle) (huse : Usable menus entries)
    (hroots : ∀ c ∈ children entries, IsRoot (Submenu menus) c) :
    Formed (built menus this handle entries) := by
  have hsome : ¬∃ m, menus this = some m := by
    rw [hfresh]
    simp
  have hroot : IsRoot (Submenu menus) this := fun p hp => hsome (h.exist p this hp)
  have hleaf : ∀ q, ¬Submenu menus this q := fun q hq => hsome ⟨_, hq.choose_spec.1⟩
  have hthis : this ∉ children entries := fun hmem => hsome (huse.exist this hmem)
  refine ⟨?_, exist_built h hfresh huse, handles_built h hhandle, ?_⟩
  · rw [submenu_built hfresh]
    exact leftUnique_graft h.unique hroots
  · rw [submenu_built hfresh, descendants_built]
    exact h.flattens.graft h.unique hroot hleaf hthis huse.nodup hroots

/-- **The invariant holds after any run of the constructor.** -/
theorem Built.formed (h : Built menus) : Formed menus := by
  induction h with
  | start => exact .start
  | new _ hfresh hhandle huse hroots hnew ih =>
    rw [newMenu_eq hfresh huse] at hnew
    rw [← Except.ok.inj hnew]
    exact ih.new hfresh hhandle huse hroots

end Formed

/-! ### Selections -/

/-- A menu belongs to one of the buttons of an icon: it is the menu of the button or below
it. -/
def TrayIcon.Shows (icon : TrayIcon) (menus : Menus) (p : MenuPtr) : Prop :=
  ∃ root, (icon.lButton = .menu root ∨ icon.rButton = .menu root) ∧
    ReflTransGen (Submenu menus) root p

/-- The menus of the buttons exist, and are in no other menu. -/
def TrayIcon.Rooted (icon : TrayIcon) (menus : Menus) : Prop :=
  ∀ root, icon.lButton = .menu root ∨ icon.rButton = .menu root →
    (∃ m, menus root = some m) ∧ IsRoot (Submenu menus) root

section Selection

variable {menus : Menus}

/-- The list of a menu that is in no other is what is below it. -/
theorem Formed.mem_descendants_iff (h : Formed menus) {root : MenuPtr} {m : Menu}
    (hm : menus root = some m) (hroot : IsRoot (Submenu menus) root) (q : MenuPtr) :
    q ∈ m.descendants ↔ TransGen (Submenu menus) root q := by
  rw [← h.flattens.mem_iff root hroot, descendants_eq hm]

/-- What is below a menu exists. -/
theorem Formed.exist_of_transGen (h : Formed menus) {p q : MenuPtr}
    (hq : TransGen (Submenu menus) p q) : ∃ m, menus q = some m := by
  obtain ⟨b, -, hb⟩ := TransGen.tail'_iff.mp hq
  exact h.exist b q hb

/-- The search for a handle nobody has finds nothing. -/
theorem findHandle_of_ne {hMenu : Handle} {ps : List MenuPtr}
    (h : ∀ q ∈ ps, ∃ m, menus q = some m ∧ m.handle ≠ hMenu) :
    findHandle menus hMenu ps = .ok none := by
  induction ps with
  | nil => rfl
  | cons p ps ih =>
    obtain ⟨m, hm, hne⟩ := h p List.mem_cons_self
    simp only [findHandle, deref, hm, bind, Except.bind, if_neg hne]
    exact ih fun q hq => h q (List.mem_cons_of_mem _ hq)

/-- The search finds the one menu that has the handle. -/
theorem findHandle_of_mem {hMenu : Handle} {ps : List MenuPtr} {p : MenuPtr} {m : Menu}
    (hexist : ∀ q ∈ ps, ∃ n, menus q = some n) (hm : menus p = some m) (hmem : p ∈ ps)
    (hhandle : m.handle = hMenu)
    (hinj : ∀ q n, menus q = some n → n.handle = hMenu → q = p) :
    findHandle menus hMenu ps = .ok (some p) := by
  induction ps with
  | nil => exact absurd hmem List.not_mem_nil
  | cons q ps ih =>
    obtain ⟨n, hn⟩ := hexist q List.mem_cons_self
    simp only [findHandle, deref, hn, bind, Except.bind]
    split
    · rename_i heq
      rw [hinj q n hn heq]
      rfl
    · rename_i hne
      have hqp : p ≠ q := by
        rintro rfl
        exact hne (Option.some.inj (hn.symm.trans hm) ▸ hhandle)
      exact ih (fun r hr => hexist r (List.mem_cons_of_mem _ hr))
        ((List.mem_cons.mp hmem).resolve_left hqp)

/-- **A button finds the menu of a handle** exactly when it is below the button. -/
theorem findMenu_of_shows (h : Formed menus) {button : ButtonCallback} {root p : MenuPtr}
    {m mr : Menu} (hbutton : button = .menu root) (hmr : menus root = some mr)
    (hroot : IsRoot (Submenu menus) root) (hp : ReflTransGen (Submenu menus) root p)
    (hm : menus p = some m) : findMenu menus m.handle button = .ok (some p) := by
  have hinj : ∀ q n, menus q = some n → n.handle = m.handle → q = p :=
    fun q n hn heq => h.handles q p n m hn hm heq
  subst hbutton
  simp only [findMenu, deref, hmr, bind, Except.bind]
  split
  · rename_i hne
    have hbelow : p ∈ mr.descendants := by
      rcases reflTransGen_iff_eq_or_transGen.mp hp with rfl | hp
      · exact absurd (congrArg Menu.handle (Option.some.inj (hmr.symm.trans hm))) hne
      · exact (h.mem_descendants_iff hmr hroot p).mpr hp
    refine findHandle_of_mem (fun q hq => ?_) hm hbelow rfl hinj
    exact h.exist_of_transGen ((h.mem_descendants_iff hmr hroot q).mp hq)
  · rename_i heq
    rw [hinj root mr hmr (not_not.mp heq)]
    rfl

theorem findMenu_of_ne (h : Formed menus) {button : ButtonCallback} {hMenu : Handle}
    (hrooted : ∀ root, button = .menu root →
      (∃ m, menus root = some m) ∧ IsRoot (Submenu menus) root)
    (hne : ∀ root p m, button = .menu root → ReflTransGen (Submenu menus) root p →
      menus p = some m → m.handle ≠ hMenu) :
    findMenu menus hMenu button = .ok none := by
  cases button with
  | menu root =>
    obtain ⟨⟨mr, hmr⟩, hroot⟩ := hrooted root rfl
    simp only [findMenu, deref, hmr, bind, Except.bind, if_pos (hne root root mr rfl .refl hmr)]
    refine findHandle_of_ne fun q hq => ?_
    have hbelow := (h.mem_descendants_iff hmr hroot q).mp hq
    obtain ⟨m, hm⟩ := h.exist_of_transGen hbelow
    exact ⟨m, hm, hne root q m rfl hbelow.to_reflTransGen hm⟩
  | function | hWnd | none => rfl

/-- **A selection in a menu of the icon** calls the callback of its entry. -/
theorem parseMenuSelection_of_shows (h : Formed menus) {icon : TrayIcon}
    (hrooted : icon.Rooted menus) {p : MenuPtr} {m : Menu} (hp : icon.Shows menus p)
    (hm : menus p = some m) (id : ℕ) :
    icon.parseMenuSelection menus id m.handle = (select menus p id).map fun call => [call] := by
  have hcall : (do let call ← select menus p id; pure [call] : Except Fault (List Call)) =
      (select menus p id).map fun call => [call] := by
    cases select menus p id <;> rfl
  by_cases hleft : ∃ root, icon.lButton = .menu root ∧ ReflTransGen (Submenu menus) root p
  · obtain ⟨root, hbutton, hbelow⟩ := hleft
    obtain ⟨⟨mr, hmr⟩, hroot⟩ := hrooted root (.inl hbutton)
    rw [TrayIcon.parseMenuSelection, findMenu_of_shows h hbutton hmr hroot hbelow hm, ← hcall]
    rfl
  · have hnone : findMenu menus m.handle icon.lButton = .ok none := by
      refine findMenu_of_ne h (fun root hbutton => hrooted root (.inl hbutton)) ?_
      rintro root q n hbutton hq hn heq
      exact hleft ⟨root, hbutton, h.handles q p n m hn hm heq ▸ hq⟩
    obtain ⟨root, hbutton, hbelow⟩ := hp
    have hright : icon.rButton = .menu root :=
      hbutton.resolve_left fun hbutton => hleft ⟨root, hbutton, hbelow⟩
    obtain ⟨⟨mr, hmr⟩, hroot⟩ := hrooted root (.inr hright)
    rw [TrayIcon.parseMenuSelection, hnone, ← hcall]
    simp only [bind, Except.bind, findMenu_of_shows h hright hmr hroot hbelow hm]

/-- A selection with a handle of no menu of the icon calls nothing. -/
theorem parseMenuSelection_of_ne (h : Formed menus) {icon : TrayIcon}
    (hrooted : icon.Rooted menus) {hMenu : Handle}
    (hne : ∀ p m, icon.Shows menus p → menus p = some m → m.handle ≠ hMenu) (id : ℕ) :
    icon.parseMenuSelection menus id hMenu = .ok [] := by
  have hleft : findMenu menus hMenu icon.lButton = .ok none :=
    findMenu_of_ne h (fun root hroot => hrooted root (.inl hroot)) fun root q n hroot hq hn =>
      hne q n ⟨root, .inl hroot, hq⟩ hn
  have hright : findMenu menus hMenu icon.rButton = .ok none :=
    findMenu_of_ne h (fun root hroot => hrooted root (.inr hroot)) fun root q n hroot hq hn =>
      hne q n ⟨root, .inr hroot, hq⟩ hn
  rw [TrayIcon.parseMenuSelection, hleft]
  simp only [bind, Except.bind, hright]
  rfl

end Selection

/-- **The selections of an icon reach their entries.** -/
structure TrayIcon.Dispatches (icon : TrayIcon) (menus : Menus) : Prop where
  /-- A selection in a menu of the icon does what the entry at its position does. -/
  selects : ∀ p m id, icon.Shows menus p → menus p = some m →
    icon.parseMenuSelection menus id m.handle = (select menus p id).map fun call => [call]
  /-- If that entry has a callback, the callback is called, with the menu and the position. -/
  calls : ∀ p m id e callback, icon.Shows menus p → menus p = some m → id < 2 ^ 32 →
    m.entries[id]? = some e → e.callback = .ok callback →
    icon.parseMenuSelection menus id m.handle = .ok [⟨callback, p, id⟩]
  /-- A selection with another handle does nothing. -/
  ignores : ∀ hMenu id, (∀ p m, icon.Shows menus p → menus p = some m → m.handle ≠ hMenu) →
    icon.parseMenuSelection menus id hMenu = .ok []

section Nested

theorem isRoot_built {menus : Menus} {this : MenuPtr} {handle : Handle}
    {entries : List MenuEntry} (hfresh : menus this = none) {q : MenuPtr} :
    IsRoot (Submenu (built menus this handle entries)) q ↔
      IsRoot (Submenu menus) q ∧ q ∉ children entries := by
  rw [submenu_built hfresh, isRoot_graft]

theorem Built.built {menus : Menus} {this : MenuPtr} {handle : Handle}
    {entries : List MenuEntry} (h : Built menus) (hfresh : menus this = none)
    (hhandle : ∀ p m, menus p = some m → m.handle ≠ handle) (huse : Usable menus entries)
    (hroots : ∀ c ∈ children entries, IsRoot (Submenu menus) c) :
    Built (Tray.built menus this handle entries) :=
  .new h hfresh hhandle huse hroots (newMenu_eq hfresh huse)

/-- An entry that calls the callback at 7. -/
def exitEntry : MenuEntry := ⟨.string (.new 0 (.lit "Exit") (some 7)), none, none⟩

/-- An entry that opens a menu. -/
def menuEntry (menu : MenuPtr) : MenuEntry := ⟨.menu (.new 0 (.lit "More") none) menu, none, none⟩

/-- A menu with a separator and an entry. -/
def innerMenus : Menus := built (fun _ => none) 1 30 [⟨.separator, none, none⟩, exitEntry]

/-- A menu around it. -/
def middleMenus : Menus := built innerMenus 2 20 [menuEntry 1]

/-- A menu around both. -/
def nestedMenus : Menus := built middleMenus 3 10 [exitEntry, menuEntry 2]

/-- An icon with that menu on one button and a function on the other. -/
def nestedIcon : TrayIcon := ⟨.menu 3, .function 5⟩

theorem built_nestedMenus : Built nestedMenus := by
  have hnone : ∀ q, IsRoot (Submenu fun _ => none) q := fun q p => by simp [Submenu]
  have hempty : ∀ (h : Handle) (p : MenuPtr) (m : Menu),
      (fun _ => none : Menus) p = some m → m.handle ≠ h := by simp
  have hroot₁ : ∀ q, IsRoot (Submenu innerMenus) q := fun q =>
    (isRoot_built rfl).mpr ⟨hnone q, List.not_mem_nil⟩
  have hroot₂ : IsRoot (Submenu middleMenus) 2 :=
    (isRoot_built rfl).mpr ⟨hroot₁ 2, by decide⟩
  have hinner : Built innerMenus :=
    Built.start.built rfl (hempty 30) ⟨by simp [children, exitEntry, MenuEntry.submenu],
      List.nodup_nil⟩ fun c _ => hnone c
  have hmiddle : Built middleMenus :=
    hinner.built rfl (handle_ne_built (hempty 20) (by decide))
      ⟨fun c hc => List.mem_singleton.mp hc ▸ ⟨_, rfl⟩, List.nodup_singleton _⟩
      fun c _ => hroot₁ c
  exact hmiddle.built rfl (handle_ne_built (handle_ne_built (hempty 10) (by decide)) (by decide))
    ⟨fun c hc => List.mem_singleton.mp hc ▸ ⟨_, rfl⟩, List.nodup_singleton _⟩
    fun c hc => List.mem_singleton.mp hc ▸ hroot₂

end Nested

end Tray

end DialServer
