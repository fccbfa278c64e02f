import BoxSearch.Proofs.Checked
import BoxSearch.Proofs.Search.CellHeap

/-!
# Double heaps answer as one set of cells

Keys are told apart by the slot and the number of their cell. Every live cell has a key in either
order that says what the order makes of it now. As long as no number is given twice, a key that went
stale stays stale when its slot is used again, so that no other key belongs to a live cell. Between
two calls the front keys of both orders are live, and the next cell and the least cost can be read
off them.
-/
set_option autoImplicit false

namespace BoxSearch

open Scalar PriorityQueue

variable {α : Type}

namespace DoubleHeap

def live (h : DoubleHeap α) : List (LiveCell α) := h.slots.toList.filterMap id

def nextOrder (h : DoubleHeap α) : CellCost α := if h.fromSecond then h.second else h.first

/-! ## Slots -/

section Slots
variable {h : DoubleHeap α} {slots : Array (Option (LiveCell α))} {slot : Nat}
  {x : Option (LiveCell α)} {s : LiveCell α}

theorem perm_set (held : slots[slot]? = some x) (y : Option (LiveCell α)) :
    (y.toList ++ slots.toList.filterMap id).Perm
      (x.toList ++ (slots.setIfInBounds slot y).toList.filterMap id) := by
  rw [← Array.getElem?_toList] at held
  obtain ⟨inside, found⟩ := List.getElem?_eq_some_iff.mp held
  obtain ⟨before, after, whole, -, changed⟩ : ∃ before after,
      slots.toList = before ++ slots.toList[slot] :: after ∧ before.length = slot ∧
        slots.toList.set slot y = before ++ y :: after := List.exists_of_set inside
  rw [found] at whole
  have parts : ∀ z : Option (LiveCell α), (before ++ z :: after).filterMap id =
      before.filterMap id ++ (z.toList ++ after.filterMap id) := by
    intro z
    rw [List.filterMap_append, List.filterMap_cons]
    cases z <;> rfl
  rw [Array.toList_setIfInBounds, changed, parts, whole, parts]
  refine (List.perm_append_comm_assoc _ _ _).trans ?_
  refine .trans (.append_left _ (List.perm_append_comm_assoc _ _ _)) ?_
  exact List.perm_append_comm_assoc _ _ _

theorem stored?_eq_some : h.stored? slot = some s ↔ h.slots[slot]? = some (some s) :=
  Option.join_eq_some_iff

theorem mem_live : s ∈ h.live ↔ ∃ slot, h.stored? slot = some s := by
  rw [live, List.mem_filterMap]
  constructor
  · rintro ⟨x, hx, rfl⟩
    obtain ⟨slot, held⟩ := List.mem_iff_getElem?.mp hx
    exact ⟨slot, stored?_eq_some.mpr (Array.getElem?_toList ▸ held)⟩
  · rintro ⟨slot, held⟩
    rw [stored?_eq_some, ← Array.getElem?_toList] at held
    exact ⟨some s, List.mem_of_getElem? held, rfl⟩

theorem drawSide_eq (h : DoubleHeap α) :
    ∃ generator fromSecond, h.drawSide = { h with generator, fromSecond } := by
  rw [drawSide]
  generalize h.generator.percent = drawn
  split
  · exact ⟨_, _, rfl⟩
  · split
    · exact ⟨_, _, rfl⟩
    · exact ⟨_, _, rfl⟩

theorem first_drawSide (h : DoubleHeap α) : h.drawSide.first = h.first := by
  obtain ⟨generator, fromSecond, drawn⟩ := drawSide_eq h
  rw [drawn]

end Slots

/-! ## Keys -/

def Live (stored : Nat → Option (LiveCell α)) (key : SlotKey α) : Prop :=
  ∃ s, stored key.slot = some s ∧ s.age = key.position.age

theorem isStale_eq_false {h : DoubleHeap α} {key : SlotKey α} :
    h.isStale key = false ↔ Live h.stored? key := by
  rw [isStale, Option.isNone_eq_false_iff, Option.isSome_iff_exists]
  refine exists_congr fun s => ?_
  rw [find?, Option.filter_eq_some_iff, beq_iff_eq]

variable [Scalar α]

/-- The keys of one order. Every stored cell is listed at the position that it has now. With a
number for every cell, keys that belong to no stored cell will never belong to one. -/
structure Keyed (stored : Nat → Option (LiveCell α)) (loup : α) (nextAge : Nat) (k : CellCost α)
    (keys : PriorityQueue (SlotKey α)) : Prop where
  heaped : Heaped (fun a b : SlotKey α => a.before b = true) keys
  old : nextAge ≤ 2 ^ 64 → ∀ key ∈ keys.toList, key.position.age.toNat < nextAge
  current : nextAge ≤ 2 ^ 64 → ∀ key ∈ keys.toList, ∀ s, stored key.slot = some s →
    s.age = key.position.age → key.position = k.key loup s.age s.cell
  listed : ∀ slot s, stored slot = some s → ⟨k.key loup s.age s.cell, slot⟩ ∈ keys.toList

section Keys
variable {stored stored' : Nat → Option (LiveCell α)} {loup : α} {nextAge : Nat} {k : CellCost α}
  {keys : PriorityQueue (SlotKey α)} {key : SlotKey α} {s : LiveCell α} {slot : Nat}

theorem Keyed.fewer (keyed : Keyed stored loup nextAge k keys)
    (fewer : ∀ slot s, stored' slot = some s → stored slot = some s) :
    Keyed stored' loup nextAge k keys where
  heaped := keyed.heaped
  old := keyed.old
  current numbered key hk s hs := keyed.current numbered key hk s (fewer _ _ hs)
  listed slot s hs := keyed.listed slot s (fewer _ _ hs)

theorem Keyed.nil (none : ∀ slot, stored slot = none) : Keyed stored loup nextAge k .empty where
  heaped := .empty
  old _ := List.forall_mem_nil _
  current _ := fun _ hk => absurd hk List.not_mem_nil
  listed slot s hs := by
    rw [none] at hs
    cases hs

theorem Keyed.of_fixed (keyed : Keyed stored loup nextAge k keys)
    (fixed : k.dependsOnIncumbent = false) (loup' : α) : Keyed stored loup' nextAge k keys where
  heaped := keyed.heaped
  old := keyed.old
  current numbered key hk s hs age := by
    rw [k.key_of_fixed fixed loup' loup]
    exact keyed.current numbered key hk s hs age
  listed slot s hs := by
    rw [k.key_of_fixed fixed loup' loup]
    exact keyed.listed slot s hs

variable [OrderedScalar α]

theorem Keyed.insert (keyed : Keyed stored loup nextAge k keys) (new : s.age = .ofNat nextAge)
    (changed : ∀ j, stored' j = if j = slot then some s else stored j) :
    Keyed stored' loup (nextAge + 1) k
      (keys.insert SlotKey.before ⟨k.key loup s.age s.cell, slot⟩) := by
  have parts : (keys.insert SlotKey.before ⟨k.key loup s.age s.cell, slot⟩).toList.Perm
      (⟨k.key loup s.age s.cell, slot⟩ :: keys.toList) := toList_insert
  have counted : nextAge + 1 ≤ 2 ^ 64 → s.age.toNat = nextAge ∧ nextAge ≤ 2 ^ 64 := by
    intro numbered
    have small : nextAge < 2 ^ 64 := by omega
    rw [new]
    exact ⟨UInt64.toNat_ofNat_of_lt' small, small.le⟩
  refine ⟨keyed.heaped.insert SlotKey.decides_before, fun numbered key hk => ?_,
    fun numbered key hk t ht age => ?_, fun j t ht => parts.mem_iff.mpr ?_⟩
  · rcases List.mem_cons.mp (parts.mem_iff.mp hk) with rfl | hk
    · exact (counted numbered).1.trans_lt (Nat.lt_succ_self _)
    · exact (keyed.old (counted numbered).2 key hk).trans (Nat.lt_succ_self _)
  · rw [changed] at ht
    rcases List.mem_cons.mp (parts.mem_iff.mp hk) with rfl | hk
    · rw [if_pos rfl] at ht
      obtain rfl := Option.some.inj ht
      rfl
    · have old := keyed.old (counted numbered).2 key hk
      by_cases here : key.slot = slot
      · -- An old key of the slot has a number below that of the new cell.
        rw [if_pos here] at ht
        obtain rfl := Option.some.inj ht
        rw [← age, (counted numbered).1] at old
        exact absurd old (Nat.lt_irrefl _)
      · rw [if_neg here] at ht
        exact keyed.current (counted numbered).2 key hk t ht age
  · rw [changed] at ht
    by_cases here : j = slot
    · rw [if_pos here] at ht
      obtain rfl := Option.some.inj ht
      rw [here]
      exact List.mem_cons_self
    · rw [if_neg here] at ht
      exact List.mem_cons_of_mem _ (keyed.listed j t ht)

/-- The front key comes before the position of every live cell. -/
theorem Keyed.front_before (keyed : Keyed stored loup nextAge k keys)
    (front : keys.first? = some key) {j : Nat} {t : LiveCell α} (ht : stored j = some t) :
    key.position.before (k.key loup t.age t.cell) = true := by
  rcases keyed.heaped.first_before front (keyed.listed j t ht) with same | later
  · rw [← same]
    exact OrderKey.decides_before.refl _
  · exact later

end Keys

theorem Keyed.dropStale [OrderedScalar α] {h : DoubleHeap α} {k : CellCost α}
    {keys : PriorityQueue (SlotKey α)} {nextAge : Nat}
    (keyed : Keyed h.stored? h.loup nextAge k keys) :
    Keyed h.stored? h.loup nextAge k (h.dropStale keys) ∧
      ∀ key, (h.dropStale keys).first? = some key → Live h.stored? key := by
  obtain ⟨heaped, fewer, kept⟩ :=
    Heaped.dropWhileFirst SlotKey.decides_before h.isStale keys.size keyed.heaped
  refine ⟨⟨heaped, fun numbered key hk => keyed.old numbered key (fewer key hk),
    fun numbered key hk => keyed.current numbered key (fewer key hk), ?_⟩, ?_⟩
  · exact fun slot s hs => kept _ (keyed.listed slot s hs) (isStale_eq_false.mpr ⟨s, hs, rfl⟩)
  · intro key front
    refine isStale_eq_false.mp ?_
    exact first?_dropWhileFirst keyed.heaped.size_eq.ge front

/-! ## The invariant -/

/-- The slots hold the open cells, and the other slots are known to be empty. -/
structure Stores (h : DoubleHeap α) (m : OpenCells α) : Prop where
  loup : h.loup = m.loup
  nextAge : h.nextAge = .ofNat m.nextAge
  capacity : h.capacity = m.capacity
  cells : (h.live.map fun s => (s.age, s.cell)).Perm (m.cells.map OpenCells.stamp)
  size : h.size = h.live.length
  free : h.free.Nodup
  vacant : ∀ slot ∈ h.free, h.slots[slot]? = some none

/-- Costs and keys are those that the orders give now. -/
structure Indexed (h : DoubleHeap α) (m : OpenCells α) : Prop extends Stores h m where
  cost : ∀ s ∈ h.live, s.cost = h.first.cost h.loup s.cell
  firstKeyed : Keyed h.stored? h.loup m.nextAge h.first h.firstKeys
  secondKeyed : Keyed h.stored? h.loup m.nextAge h.second h.secondKeys

/-- Between two calls both front keys are live, and stale keys are few. -/
structure Represents (h : DoubleHeap α) (m : OpenCells α) : Prop extends Indexed h m where
  firstFront : ∀ key, h.firstKeys.first? = some key → Live h.stored? key
  secondFront : ∀ key, h.secondKeys.first? = some key → Live h.stored? key
  few : h.firstKeys.toList.length + h.secondKeys.toList.length ≤ 4 * h.size + 16

variable {h h' : DoubleHeap α} {m : OpenCells α} {k : CellCost α} {s : LiveCell α} {slot : Nat}
  {c : Cell α} {bound : α} {e : BufferError} {d : Nat × Cell α}

omit [Scalar α] in
theorem Stores.length (same : h.Stores m) : h.size = m.cells.length := by
  have parts := same.cells.length_eq
  rw [List.length_map, List.length_map] at parts
  exact same.size.trans parts

omit [Scalar α] in
theorem Stores.exists_open (same : h.Stores m) (held : h.stored? slot = some s) :
    ∃ d ∈ m.cells, s.age = .ofNat d.1 ∧ s.cell = d.2 := by
  obtain ⟨d, hd, stamped⟩ := List.mem_map.mp
    (same.cells.mem_iff.mp (List.mem_map_of_mem (mem_live.mpr ⟨slot, held⟩)))
  obtain ⟨age, cell⟩ := Prod.mk.inj stamped
  exact ⟨d, hd, age.symm, cell.symm⟩

omit [Scalar α] in
theorem Stores.exists_live (same : h.Stores m) (hd : d ∈ m.cells) :
    ∃ slot s, h.stored? slot = some s ∧ s.age = .ofNat d.1 ∧ s.cell = d.2 := by
  obtain ⟨s, hs, stamped⟩ := List.mem_map.mp (same.cells.mem_iff.mpr (List.mem_map_of_mem hd))
  obtain ⟨age, cell⟩ := Prod.mk.inj stamped
  obtain ⟨slot, held⟩ := mem_live.mp hs
  exact ⟨slot, s, held, age, cell⟩

omit [Scalar α] in
theorem Stores.young (same : h.Stores m) (numbered : m.Numbered)
    (held : h.stored? slot = some s) : s.age.toNat < m.nextAge := by
  obtain ⟨d, hd, age, -⟩ := same.exists_open held
  rw [age, UInt64.toNat_ofNat_of_lt' (numbered.age_lt hd)]
  exact m.young d hd

/-! ## Rebuilding -/

omit [Scalar α] in
theorem mem_keysOf {loup : α} {slots : Array (Option (LiveCell α))} {key : SlotKey α} :
    key ∈ keysOf k loup slots ↔
      ∃ s, slots[key.slot]?.join = some s ∧ key.position = k.key loup s.age s.cell := by
  rw [keysOf, List.mem_filterMap]
  constructor
  · rintro ⟨⟨x, slot⟩, hx, made⟩
    obtain ⟨s, rfl, rfl⟩ := Option.map_eq_some_iff.mp made
    rw [List.mem_zipIdx_iff_getElem?, Array.getElem?_toList] at hx
    exact ⟨s, Option.join_eq_some_iff.mpr hx, rfl⟩
  · rintro ⟨s, held, place⟩
    rw [Option.join_eq_some_iff, ← Array.getElem?_toList] at held
    exact ⟨(some s, key.slot), List.mem_zipIdx_iff_getElem?.mpr held,
      congrArg (fun place => some (SlotKey.mk place key.slot)) place.symm⟩

omit [Scalar α] in
theorem length_keysOf {loup : α} {slots : Array (Option (LiveCell α))} :
    (keysOf k loup slots).length = (slots.toList.filterMap id).length := by
  rw [keysOf, List.length_filterMap_eq_countP, List.length_filterMap_eq_countP]
  simp only [Option.isSome_map]
  conv_rhs => rw [← List.zipIdx_map_fst 0 slots.toList, List.countP_map]
  rfl

theorem stored?_rebuild : h.rebuild.stored? slot =
    (h.stored? slot).map fun s => { s with cost := h.first.cost h.loup s.cell } := by
  rw [rebuild, stored?, stored?, Array.getElem?_map]
  cases h.slots[slot]? <;> rfl

theorem live_rebuild : h.rebuild.live =
    h.live.map fun s => { s with cost := h.first.cost h.loup s.cell } := by
  rw [rebuild, live, live, Array.toList_map, List.filterMap_map, List.map_filterMap]
  rfl

variable [OrderedScalar α]

theorem Stores.keyed_rebuild (same : h.Stores m) (k : CellCost α) :
    Keyed h.rebuild.stored? h.loup m.nextAge k
        (.ofList SlotKey.before (keysOf k h.loup h.slots)) ∧
      ∀ key ∈ keysOf k h.loup h.slots, Live h.rebuild.stored? key := by
  have parts : (ofList SlotKey.before (keysOf k h.loup h.slots)).toList.Perm
      (keysOf k h.loup h.slots) := toList_ofList _
  refine ⟨⟨Heaped.ofList SlotKey.decides_before _, fun numbered key hk => ?_,
    fun _ key hk t ht age => ?_, fun slot t ht => ?_⟩, fun key hk => ?_⟩
  · obtain ⟨s, held, place⟩ := mem_keysOf.mp (parts.mem_iff.mp hk)
    rw [place]
    exact same.young numbered held
  · obtain ⟨s, held, place⟩ := mem_keysOf.mp (parts.mem_iff.mp hk)
    obtain ⟨s', held', rfl⟩ := Option.map_eq_some_iff.mp (stored?_rebuild.symm.trans ht)
    obtain rfl := Option.some.inj (held.symm.trans held')
    exact place
  · obtain ⟨s, held, rfl⟩ := Option.map_eq_some_iff.mp (stored?_rebuild.symm.trans ht)
    exact parts.mem_iff.mpr (mem_keysOf.mpr ⟨s, held, rfl⟩)
  · obtain ⟨s, held, place⟩ := mem_keysOf.mp hk
    exact ⟨_, stored?_rebuild.trans (congrArg _ held), place ▸ rfl⟩

/-- Rebuilding needs nothing but the stored cells. -/
theorem Stores.rebuild (same : h.Stores m) : h.rebuild.Represents m := by
  obtain ⟨firstKeyed, firstLive⟩ := same.keyed_rebuild h.first
  obtain ⟨secondKeyed, secondLive⟩ := same.keyed_rebuild h.second
  have front : ∀ {k : CellCost α} {key : SlotKey α},
      (PriorityQueue.ofList SlotKey.before (keysOf k h.loup h.slots)).first? = some key →
      key ∈ keysOf k h.loup h.slots :=
    fun front => (toList_ofList _).mem_iff.mp (mem_of_first? front)
  refine ⟨⟨⟨same.loup, same.nextAge, same.capacity, ?_, ?_, same.free, fun slot hs => ?_⟩,
    fun s hs => ?_, firstKeyed, secondKeyed⟩, fun key first => firstLive key (front first),
    fun key first => secondLive key (front first), ?_⟩
  · rw [live_rebuild, List.map_map]
    exact same.cells
  · rw [live_rebuild, List.length_map]
    exact same.size
  · change (h.slots.map _)[slot]? = _
    rw [Array.getElem?_map, same.vacant slot hs]
    rfl
  · rw [live_rebuild] at hs
    obtain ⟨t, -, rfl⟩ := List.mem_map.mp hs
    rfl
  · change (ofList SlotKey.before (keysOf h.first h.loup h.slots)).toList.length +
      (ofList SlotKey.before (keysOf h.second h.loup h.slots)).toList.length ≤ 4 * h.size + 16
    rw [(toList_ofList _).length_eq, (toList_ofList _).length_eq, length_keysOf, length_keysOf,
      same.size, live]
    omega

/-! ## Taking a cell out -/

omit [Scalar α] [OrderedScalar α] in
theorem stored?_vacate (held : h.stored? slot = some s) (j : Nat) :
    (h.vacate slot).stored? j = if j = slot then none else h.stored? j := by
  obtain ⟨inside, -⟩ := Array.getElem?_eq_some_iff.mp (stored?_eq_some.mp held)
  rw [stored?, stored?, vacate, Array.getElem?_setIfInBounds, if_pos inside]
  by_cases here : j = slot
  · rw [if_pos here.symm, if_pos here]
    rfl
  · rw [if_neg (Ne.symm here), if_neg here]

omit [Scalar α] [OrderedScalar α] in
theorem Stores.vacate (same : h.Stores m) (held : h.stored? slot = some s) (hd : d ∈ m.cells)
    (age : s.age = .ofNat d.1) (cell : s.cell = d.2) :
    (h.vacate slot).Stores (m.keep fun e => e.1 != d.1) := by
  have full := stored?_eq_some.mp held
  have parts : h.live.Perm (s :: (h.vacate slot).live) := perm_set full none
  refine ⟨same.loup, same.nextAge, same.capacity, ?_, ?_, ?_, fun j hj => ?_⟩
  · have rest := (parts.map fun s => (s.age, s.cell)).symm.trans
      (same.cells.trans ((m.perm_keep_age hd).map OpenCells.stamp))
    rw [List.map_cons, List.map_cons, age, cell] at rest
    exact (List.perm_cons _).mp rest
  · change h.size - 1 = _
    rw [same.size, parts.length_eq, List.length_cons, Nat.add_sub_cancel]
  · refine List.nodup_cons.mpr ⟨fun free => ?_, same.free⟩
    rw [same.vacant slot free] at full
    cases full
  · change (h.slots.setIfInBounds slot none)[j]? = _
    obtain ⟨inside, -⟩ := Array.getElem?_eq_some_iff.mp full
    rw [Array.getElem?_setIfInBounds, if_pos inside]
    by_cases here : slot = j
    · rw [if_pos here]
    · rw [if_neg here]
      exact same.vacant j ((List.mem_cons.mp hj).resolve_left (Ne.symm here))

omit [OrderedScalar α] in
theorem Indexed.vacate (same : h.Indexed m) (held : h.stored? slot = some s) (hd : d ∈ m.cells)
    (age : s.age = .ofNat d.1) (cell : s.cell = d.2) :
    (h.vacate slot).Indexed (m.keep fun e => e.1 != d.1) := by
  have fewer : ∀ j t, (h.vacate slot).stored? j = some t → h.stored? j = some t := by
    intro j t ht
    rw [stored?_vacate held] at ht
    by_cases here : j = slot
    · rw [if_pos here] at ht
      cases ht
    · rwa [if_neg here] at ht
  refine ⟨same.toStores.vacate held hd age cell, fun t ht => ?_, same.firstKeyed.fewer fewer,
    same.secondKeyed.fewer fewer⟩
  obtain ⟨j, there⟩ := mem_live.mp ht
  exact same.cost t (mem_live.mpr ⟨j, fewer j t there⟩)

theorem Indexed.tidy (same : h.Indexed m) : h.tidy.Represents m := by
  obtain ⟨firstKeyed, firstFront⟩ := same.firstKeyed.dropStale
  obtain ⟨secondKeyed, secondFront⟩ := same.secondKeyed.dropStale
  have stores : Stores { h with
      firstKeys := h.dropStale h.firstKeys
      secondKeys := h.dropStale h.secondKeys } m :=
    ⟨same.loup, same.nextAge, same.capacity, same.cells, same.size, same.free, same.vacant⟩
  rw [DoubleHeap.tidy]
  dsimp only
  split
  · exact stores.rebuild
  · rename_i few
    refine ⟨⟨stores, same.cost, firstKeyed, secondKeyed⟩, firstFront, secondFront, ?_⟩
    rw [staleCount, firstKeyed.heaped.size_eq, secondKeyed.heaped.size_eq] at few
    dsimp only at few ⊢
    omega

omit [OrderedScalar α] in
theorem Represents.drawSide (same : h.Represents m) : h.drawSide.Represents m := by
  obtain ⟨generator, fromSecond, drawn⟩ := drawSide_eq h
  rw [drawn]
  exact ⟨⟨⟨same.loup, same.nextAge, same.capacity, same.cells, same.size, same.free,
    same.vacant⟩, same.cost, same.firstKeyed, same.secondKeyed⟩, same.firstFront,
    same.secondFront, same.few⟩

/-! ## The first cell of an order -/

omit [OrderedScalar α] in
theorem Indexed.nextKeyed (same : h.Indexed m) :
    Keyed h.stored? h.loup m.nextAge h.nextOrder h.nextKeys := by
  rw [nextOrder, nextKeys]
  split
  · exact same.secondKeyed
  · exact same.firstKeyed

omit [OrderedScalar α] in
theorem Stores.cells_eq_nil {keys : PriorityQueue (SlotKey α)} (same : h.Stores m)
    (keyed : Keyed h.stored? h.loup m.nextAge k keys) (empty : keys.first? = none) :
    m.cells = [] := by
  refine List.eq_nil_iff_forall_not_mem.mpr fun d hd => ?_
  obtain ⟨slot, s, held, -⟩ := same.exists_live hd
  have listed := keyed.listed slot s held
  rw [PriorityQueue.first?_eq_none.mp empty] at listed
  cases listed

/-- With a number for every cell, the front key of a live cell names the first of all cells. -/
theorem Stores.first?_eq_some {keys : PriorityQueue (SlotKey α)} {key : SlotKey α}
    (same : h.Stores m) (keyed : Keyed h.stored? h.loup m.nextAge k keys) (numbered : m.Numbered)
    (front : keys.first? = some key) (held : h.stored? key.slot = some s)
    (live : s.age = key.position.age) (hd : d ∈ m.cells) (age : s.age = .ofNat d.1)
    (cell : s.cell = d.2) : m.first? k = some d := by
  have leads : m.Leads k d := by
    refine ⟨hd, fun d' hd' => ?_⟩
    obtain ⟨j, t, there, age', cell'⟩ := same.exists_live hd'
    have first := keyed.front_before front there
    rw [keyed.current numbered key (mem_of_first? front) s held live, age, cell, age', cell',
      same.loup] at first
    exact first
  exact leads.first?_eq_some numbered

theorem Indexed.next?_eq_some (same : h.Indexed m) (next : h.next? = some (slot, s)) :
    h.stored? slot = some s ∧ ∀ d ∈ m.cells, s.age = .ofNat d.1 → s.cell = d.2 → m.Numbered →
      m.first? h.nextOrder = some d := by
  obtain ⟨keyed, -⟩ := same.nextKeyed.dropStale
  obtain ⟨key, front, next⟩ := Option.bind_eq_some_iff.mp next
  obtain ⟨t, found, next⟩ := Option.bind_eq_some_iff.mp next
  obtain ⟨rfl, rfl⟩ := Prod.mk.inj (Option.some.inj next)
  obtain ⟨held, live⟩ := Option.filter_eq_some_iff.mp found
  exact ⟨held, fun d hd age cell numbered =>
    same.first?_eq_some keyed numbered front held (beq_iff_eq.mp live) hd age cell⟩

theorem Indexed.next?_eq_none (same : h.Indexed m) (next : h.next? = none) : m.cells = [] := by
  obtain ⟨keyed, fronts⟩ := same.nextKeyed.dropStale
  cases front : (h.dropStale h.nextKeys).first? with
  | none => exact same.cells_eq_nil keyed front
  | some key =>
      obtain ⟨s, held, age⟩ := fronts key front
      have found : h.find? key = some s :=
        Option.filter_eq_some_iff.mpr ⟨held, beq_iff_eq.mpr age⟩
      rw [next?, front, Option.bind_eq_bind, Option.bind_some, found] at next
      cases next

theorem Represents.popWithCost {cost : α} (same : h.Represents m)
    (success : h.popWithCost = .ok ((cost, c), h')) :
    h'.first = h.first ∧ ∃ d ∈ m.cells, d.2 = c ∧ cost = h.first.cost m.loup c ∧
      (m.Numbered → m.first? h.nextOrder = some d) ∧
      h'.Represents (m.keep fun e => e.1 != d.1) := by
  rw [DoubleHeap.popWithCost] at success
  split at success
  · cases success
  · rename_i slot s next
    obtain ⟨answer, rfl⟩ := Prod.mk.inj (Except.ok.inj success)
    obtain ⟨rfl, rfl⟩ := Prod.mk.inj answer
    obtain ⟨held, first⟩ := same.next?_eq_some next
    obtain ⟨d, hd, age, cell⟩ := same.exists_open held
    refine ⟨?_, d, hd, cell.symm, ?_, first d hd age cell,
      (same.vacate held hd age cell).tidy.drawSide⟩
    · rw [first_drawSide, DoubleHeap.tidy]
      dsimp only
      split <;> rfl
    · rw [same.cost s (mem_live.mpr ⟨slot, held⟩), same.loup]

theorem Represents.underflow (same : h.Represents m) (refused : h.popWithCost = .error e) :
    e = .underflow ∧ m.cells = [] := by
  rw [DoubleHeap.popWithCost] at refused
  split at refused
  · rename_i next
    exact ⟨(Except.error.inj refused).symm, same.next?_eq_none next⟩
  · cases refused

/-- The front key is live, so the cell in its slot is the one that comes next. -/
theorem Represents.top? (same : h.Represents m) (numbered : m.Numbered) :
    h.top?.map LiveCell.cell = (m.first? h.nextOrder).map Prod.snd := by
  have front : ∀ key, h.nextKeys.first? = some key → Live h.stored? key := by
    rw [nextKeys]
    split
    · exact same.secondFront
    · exact same.firstFront
  rw [DoubleHeap.top?, Option.bind_eq_bind]
  cases found : h.nextKeys.first? with
  | none =>
      rw [OpenCells.first?_eq_none.mpr (same.cells_eq_nil same.nextKeyed found)]
      rfl
  | some key =>
      obtain ⟨s, held, live⟩ := front key found
      obtain ⟨d, hd, age, cell⟩ := same.exists_open held
      rw [same.first?_eq_some same.nextKeyed numbered found held live hd age cell,
        Option.bind_some, held]
      exact congrArg some cell

theorem Represents.minimum (same : h.Represents m) (numbered : m.Numbered) :
    (CellBuffer.double h).minimum = (m.first? h.first).map fun d => h.first.cost m.loup d.2 := by
  rw [CellBuffer.minimum]
  cases found : h.firstKeys.first? with
  | none =>
      rw [OpenCells.first?_eq_none.mpr (same.cells_eq_nil same.firstKeyed found)]
      rfl
  | some key =>
      obtain ⟨s, held, live⟩ := same.firstFront key found
      obtain ⟨d, hd, age, cell⟩ := same.exists_open held
      rw [same.first?_eq_some same.firstKeyed numbered found held live hd age cell,
        Option.map_some, Option.map_some,
        same.firstKeyed.current numbered key (mem_of_first? found) s held live, same.loup, cell]
      rfl

/-! ## Adding a cell -/

omit [Scalar α] [OrderedScalar α] in
theorem Stores.store (same : h.Stores m) (s : LiveCell α) : ∃ slot slots free,
    h.store s = (slot, { h with slots, free, size := h.size + 1 }) ∧
      h.stored? slot = none ∧
      (∀ j, slots[j]?.join = if j = slot then some s else h.stored? j) ∧
      (slots.toList.filterMap id).Perm (s :: h.live) ∧
      free.Nodup ∧ ∀ j ∈ free, slots[j]? = some none := by
  rw [DoubleHeap.store]
  cases spare : h.free with
  | nil =>
      refine ⟨_, _, _, rfl, ?_, fun j => ?_, ?_, List.nodup_nil, List.forall_mem_nil _⟩
      · rw [stored?, Array.getElem?_eq_none le_rfl]
        rfl
      · rw [Array.getElem?_push, stored?]
        by_cases here : j = h.slots.size
        · rw [if_pos here, if_pos here]
          rfl
        · rw [if_neg here, if_neg here]
      · rw [Array.toList_push, List.filterMap_append]
        exact List.perm_append_singleton _ _
  | cons slot free =>
      have vacant := same.vacant slot (spare ▸ List.mem_cons_self)
      have nodup := same.free
      rw [spare] at nodup
      obtain ⟨fresh, nodup⟩ := List.nodup_cons.mp nodup
      obtain ⟨inside, -⟩ := Array.getElem?_eq_some_iff.mp vacant
      refine ⟨_, _, _, rfl, ?_, fun j => ?_, (perm_set vacant (some s)).symm, nodup,
        fun j hj => ?_⟩
      · rw [stored?, vacant]
        rfl
      · rw [Array.getElem?_setIfInBounds, if_pos inside, stored?]
        by_cases here : j = slot
        · rw [if_pos here.symm, if_pos here]
          rfl
        · rw [if_neg (Ne.symm here), if_neg here]
      · rw [Array.getElem?_setIfInBounds, if_neg]
        · exact same.vacant j (spare ▸ List.mem_cons_of_mem _ hj)
        · rintro rfl
          exact fresh hj

omit [OrderedScalar α] in
theorem Represents.overflow (same : h.Represents m) (refused : h.push c = .error e) :
    ∃ n, full m.capacity m.cells.length = some n ∧ e = .overflow n := by
  rw [DoubleHeap.push] at refused
  split at refused
  · rename_i n room
    rw [same.capacity, same.length] at room
    exact ⟨n, room, (Except.error.inj refused).symm⟩
  · cases refused

theorem Represents.push (same : h.Represents m) (success : h.push c = .ok h') :
    full m.capacity m.cells.length = none ∧ h'.first = h.first ∧ h'.Represents (m.add c) := by
  rw [DoubleHeap.push] at success
  split at success
  · cases success
  · rename_i room
    rw [same.capacity, same.length] at room
    obtain ⟨slot, slots, free, stored, empty, held, parts, nodup, vacant⟩ :=
      same.store ⟨h.nextAge, (h.first.key h.loup h.nextAge c).cost, c⟩
    dsimp only at success
    rw [stored] at success
    obtain rfl := Except.ok.inj success
    have kept : ∀ j t, h.stored? j = some t → slots[j]?.join = some t := by
      intro j t ht
      rw [held, if_neg, ht]
      rintro rfl
      rw [empty] at ht
      cases ht
    have front : ∀ {keys : PriorityQueue (SlotKey α)} {place : OrderKey α},
        place.age = h.nextAge → (∀ key, keys.first? = some key → Live h.stored? key) →
        ∀ key, (keys.insert SlotKey.before ⟨place, slot⟩).first? = some key →
          Live (fun j => slots[j]?.join) key := by
      intro keys place age fronts key first
      rcases first?_insert first with rfl | first
      · exact ⟨_, (held slot).trans (if_pos rfl), age.symm⟩
      · obtain ⟨t, ht, age⟩ := fronts key first
        exact ⟨t, kept _ t ht, age⟩
    refine ⟨room, rfl, ⟨⟨same.loup, OpenCells.stamp_nextAge same.nextAge c, same.capacity, ?_, ?_,
      nodup, vacant⟩, fun t ht => ?_, same.firstKeyed.insert same.nextAge held,
      same.secondKeyed.insert same.nextAge held⟩, front rfl same.firstFront,
      front rfl same.secondFront, ?_⟩
    · refine (parts.map _).trans ((same.cells.cons _).trans ?_)
      rw [OpenCells.add, List.map_append]
      dsimp only
      rw [same.nextAge]
      exact (List.perm_append_singleton _ _).symm
    · exact congrArg (· + 1) same.size |>.trans parts.length_eq.symm
    · rcases List.mem_cons.mp (parts.mem_iff.mp ht) with rfl | ht
      · rfl
      · exact same.cost t ht
    · have few := same.few
      -- Either order gets one key, and one more cell allows for four.
      dsimp only
      rw [toList_insert.length_eq, toList_insert.length_eq, List.length_cons, List.length_cons]
      omega

/-! ## Eviction -/

omit [Scalar α] [OrderedScalar α] in
theorem live_eq_stored (h : DoubleHeap α) :
    h.live = (List.range h.slots.size).filterMap h.stored? := by
  have slots : h.slots.toList = (List.range h.slots.size).map h.stored? := by
    refine List.ext_getElem (by simp) fun slot inside _ => ?_
    rw [Array.length_toList] at inside
    simp [stored?, inside]
  rw [live, slots, List.filterMap_map]
  rfl

omit [Scalar α] [OrderedScalar α] in
theorem length_slotsWhere (h : DoubleHeap α) (test : LiveCell α → Bool) :
    (h.slotsWhere test).length = (h.live.filter test).length := by
  rw [slotsWhere, live_eq_stored, List.filter_filterMap, List.length_filterMap_eq_countP,
    List.countP_eq_length_filter]
  refine congrArg List.length (List.filter_congr fun slot _ => ?_)
  cases h.stored? slot with
  | none => rfl
  | some s => cases passes : test s <;> simp [Option.filter, passes]

omit [Scalar α] [OrderedScalar α] in
theorem mem_slotsWhere {test : LiveCell α → Bool} (hs : slot ∈ h.slotsWhere test) :
    ∃ s, h.slots[slot]? = some (some s) ∧ test s = true := by
  have passes := (List.mem_filter.mp hs).2
  cases held : h.stored? slot with
  | none =>
      rw [held] at passes
      cases passes
  | some s =>
      rw [held] at passes
      exact ⟨s, stored?_eq_some.mp held, passes⟩

omit [Scalar α] [OrderedScalar α] in
theorem filterMap_slots (h : DoubleHeap α) (test : LiveCell α → Bool) :
    (h.slots.map (Option.filter test)).toList.filterMap id = h.live.filter test := by
  rw [Array.toList_map, live, List.filterMap_map, List.filter_filterMap]
  rfl

omit [OrderedScalar α] in
/-- What reaches a bound is decided by cells alone, whatever their numbers. -/
theorem Indexed.reaches_eq (same : h.Indexed m) (bound : α) (hs : s ∈ h.live) :
    s.reaches bound = decide (bound ≤ h.first.cost m.loup s.cell) := by
  rw [LiveCell.reaches, ← same.loup, ← same.cost s hs]

omit [OrderedScalar α] in
theorem Indexed.perm_reaching (same : h.Indexed m) (bound : α) :
    ((h.live.filter (·.reaches bound)).map fun s => (s.age, s.cell)).Perm
      ((m.cells.filter (m.reaches h.first bound)).map OpenCells.stamp) := by
  have gone := same.cells.filter fun c => decide (bound ≤ h.first.cost m.loup c.2)
  rw [List.filter_map, List.filter_map] at gone
  refine .trans (.of_eq ?_) gone
  exact congrArg _ (List.filter_congr fun s hs => same.reaches_eq bound hs)

omit [OrderedScalar α] in
theorem Indexed.perm_staying (same : h.Indexed m) (bound : α) :
    ((h.live.filter fun s => !s.reaches bound).map fun s => (s.age, s.cell)).Perm
      ((m.keep fun d => !m.reaches h.first bound d).cells.map OpenCells.stamp) := by
  have kept := same.cells.filter fun c => !decide (bound ≤ h.first.cost m.loup c.2)
  rw [List.filter_map, List.filter_map] at kept
  refine .trans (.of_eq ?_) kept
  exact congrArg _ (List.filter_congr fun s hs => congrArg (!·) (same.reaches_eq bound hs))

theorem Represents.evict (same : h.Represents m) (bound : α) :
    (h.evict bound).1 = (m.cells.filter (m.reaches h.first bound)).length ∧
      (h.evict bound).2.first = h.first ∧
      (h.evict bound).2.Represents (m.keep fun d => !m.reaches h.first bound d) := by
  have count : (h.slotsWhere (·.reaches bound)).length =
      (m.cells.filter (m.reaches h.first bound)).length := by
    have gone := (same.perm_reaching bound).length_eq
    rw [List.length_map, List.length_map] at gone
    rw [length_slotsWhere, gone]
  rw [DoubleHeap.evict]
  split
  · rename_i none
    -- Nothing reaches the bound, and nothing changes.
    rw [List.isEmpty_iff.mp none, List.length_nil, eq_comm, List.length_eq_zero_iff] at count
    have all : m.keep (fun d => !m.reaches h.first bound d) = m := OpenCells.keep_eq_self
      fun d hd => by simpa using List.filter_eq_nil_iff.mp count d hd
    rw [count, all]
    exact ⟨rfl, rfl, same⟩
  · -- The keys are made anew from the slots, so only these have to be right.
    let kept := h.slots.map (Option.filter fun s : LiveCell α => !s.reaches bound)
    have cells : kept.toList.filterMap id = h.live.filter fun s => !s.reaches bound :=
      h.filterMap_slots _
    refine ⟨count, rfl, Stores.rebuild ⟨same.loup, same.nextAge, same.capacity, ?_, ?_, ?_, ?_⟩⟩
    · exact .trans (.of_eq (congrArg _ cells)) (same.perm_staying bound)
    · have parts : h.live.length = _ := List.length_eq_length_filter_add (·.reaches bound)
      change h.size - (h.slotsWhere (·.reaches bound)).length = (kept.toList.filterMap id).length
      rw [same.size, cells, parts, length_slotsWhere, Nat.add_sub_cancel_left]
    · refine List.nodup_append'.mpr ⟨?_, same.free, ?_⟩
      · exact List.nodup_reverse.mpr (List.nodup_range.filter _)
      · intro slot hs free
        obtain ⟨s, held, -⟩ := mem_slotsWhere (List.mem_reverse.mp hs)
        rw [same.vacant slot free] at held
        cases held
    · intro slot hs
      dsimp only
      rw [Array.getElem?_map]
      rcases List.mem_append.mp hs with hs | hs
      · obtain ⟨s, held, reaches⟩ := mem_slotsWhere (List.mem_reverse.mp hs)
        rw [held, Option.map_some, Option.filter_some, reaches]
        rfl
      · rw [same.vacant slot hs]
        rfl

theorem Represents.setIncumbent (same : h.Represents m) (loup : α) :
    (h.setIncumbent loup).first = h.first ∧
      (h.setIncumbent loup).Represents { m with loup } := by
  have told : Stores { h with loup } { m with loup } :=
    ⟨rfl, same.nextAge, same.capacity, same.cells, same.size, same.free, same.vacant⟩
  rw [DoubleHeap.setIncumbent]
  dsimp only
  split
  · exact ⟨rfl, told.rebuild⟩
  · rename_i fixed
    rw [Bool.or_eq_true, not_or, Bool.not_eq_true, Bool.not_eq_true] at fixed
    refine ⟨rfl, ⟨told, fun s hs => ?_, same.firstKeyed.of_fixed fixed.1 loup,
      same.secondKeyed.of_fixed fixed.2 loup⟩, same.firstFront, same.secondFront, same.few⟩
    rw [same.cost s hs]
    exact CellCost.cost_of_fixed fixed.1 _ _ _

omit [OrderedScalar α] in
theorem represents_clear (slots : h.slots = #[]) (free : h.free = [])
    (firstKeys : h.firstKeys = .empty) (secondKeys : h.secondKeys = .empty) (size : h.size = 0)
    (nextAge : h.nextAge = 0) (loup : h.loup = m.loup) (capacity : h.capacity = m.capacity) :
    h.Represents m.clear := by
  cases h
  dsimp only at *
  subst slots free firstKeys secondKeys size nextAge
  exact {
    loup, capacity
    nextAge := rfl
    cells := .refl _
    size := rfl
    free := List.nodup_nil
    vacant := List.forall_mem_nil _
    cost := List.forall_mem_nil _
    firstKeyed := .nil fun _ => rfl
    secondKeyed := .nil fun _ => rfl
    firstFront := fun _ front => nomatch front
    secondFront := fun _ front => nomatch front
    few := Nat.zero_le _ }

omit [OrderedScalar α] in
theorem represents_start {first second : CellCost α} {percent : Nat} {seed : UInt64}
    {capacity : Option Nat} (made : ofCriteria first second percent seed capacity = .ok h) :
    h.first = first ∧ h.Represents (.start capacity) := by
  rw [ofCriteria] at made
  split at made
  · cases made
  · obtain ⟨_, _, made⟩ := Checked.bind_eq_ok.mp made
    obtain rfl := Except.ok.inj made
    exact ⟨first_drawSide _, Represents.drawSide
      (represents_clear (m := .start capacity) rfl rfl rfl rfl rfl rfl rfl rfl)⟩

omit [OrderedScalar α] in
theorem Represents.flush (same : h.Represents m) :
    h.flush.first = h.first ∧ h.flush.Represents m.clear :=
  ⟨first_drawSide _, Represents.drawSide
    (represents_clear rfl rfl rfl rfl rfl rfl same.loup same.capacity)⟩

/-! ## Costs in keys -/

/-- Every first key was there before or has the cost of a stored cell. Among the keys that were
there are those of cells that are gone. -/
def Refreshes (h h' : DoubleHeap α) : Prop :=
  ∀ key ∈ h'.firstKeys.toList,
    key ∈ h.firstKeys.toList ∨ ∃ s ∈ h'.live, key.position.cost = s.cost

omit [OrderedScalar α] in
theorem refreshes_rebuild (g h : DoubleHeap α) : Refreshes g h.rebuild := by
  intro key hk
  obtain ⟨s, held, place⟩ := mem_keysOf.mp ((toList_ofList _).mem_iff.mp hk)
  refine Or.inr ⟨{ s with cost := h.first.cost h.loup s.cell }, ?_, congrArg OrderKey.cost place⟩
  rw [live_rebuild]
  exact List.mem_map_of_mem (mem_live.mpr ⟨key.slot, held⟩)

omit [Scalar α] [OrderedScalar α] in
theorem Refreshes.drawSide (refreshes : Refreshes h h') : Refreshes h h'.drawSide := by
  obtain ⟨generator, fromSecond, drawn⟩ := drawSide_eq h'
  rw [drawn]
  exact refreshes

omit [OrderedScalar α] in
theorem Represents.refreshes_push (same : h.Represents m) (success : h.push c = .ok h') :
    Refreshes h h' := by
  rw [DoubleHeap.push] at success
  split at success
  · cases success
  · obtain ⟨slot, slots, free, stored, -, -, parts, -⟩ :=
      same.store ⟨h.nextAge, (h.first.key h.loup h.nextAge c).cost, c⟩
    dsimp only at success
    rw [stored] at success
    obtain rfl := Except.ok.inj success
    intro key hk
    rcases List.mem_cons.mp (toList_insert.mem_iff.mp hk) with rfl | hk
    · exact Or.inr ⟨_, parts.mem_iff.mpr List.mem_cons_self, rfl⟩
    · exact Or.inl hk

theorem Represents.refreshes_popWithCost {r : α × Cell α} (same : h.Represents m)
    (success : h.popWithCost = .ok (r, h')) : Refreshes h h' := by
  rw [DoubleHeap.popWithCost] at success
  split at success
  · cases success
  · rename_i slot s next
    obtain ⟨-, rfl⟩ := Prod.mk.inj (Except.ok.inj success)
    refine Refreshes.drawSide ?_
    rw [tidy]
    dsimp only
    split
    · exact refreshes_rebuild _ _
    · obtain ⟨-, fewer, -⟩ := Heaped.dropWhileFirst SlotKey.decides_before
        (h.vacate slot).isStale h.firstKeys.size same.firstKeyed.heaped
      exact fun key hk => Or.inl (fewer key hk)

omit [OrderedScalar α] in
theorem refreshes_evict (h : DoubleHeap α) (bound : α) : Refreshes h (h.evict bound).2 := by
  rw [DoubleHeap.evict]
  split
  · exact fun _ => Or.inl
  · exact refreshes_rebuild _ _

omit [OrderedScalar α] in
theorem refreshes_setIncumbent (h : DoubleHeap α) (loup : α) :
    Refreshes h (h.setIncumbent loup) := by
  rw [DoubleHeap.setIncumbent]
  dsimp only
  split
  · exact refreshes_rebuild _ _
  · exact fun _ => Or.inl

omit [Scalar α] [OrderedScalar α] in
theorem refreshes_flush (h : DoubleHeap α) : Refreshes h h.flush :=
  Refreshes.drawSide fun _ hk => absurd hk List.not_mem_nil

/-! ## Calls -/

def answer (h : DoubleHeap α) : BufferCall α → BufferAnswer α × DoubleHeap α
  | .push c =>
    match h.push c with
    | .ok h' => (.done, h')
    | .error e => (.refused e, h)
  | .pop =>
    match h.popWithCost with
    | .ok ((cost, c), h') => (.popped cost c, h')
    | .error e => (.refused e, h)
  | .evict bound => (.count (h.evict bound).1, (h.evict bound).2)
  | .setIncumbent loup => (.done, h.setIncumbent loup)
  | .flush => (.done, h.flush)
  | .size => (.count h.size, h)
  | .minimum => (.least (CellBuffer.double h).minimum, h)
  | .top =>
    match (CellBuffer.double h).top with
    | .ok c => (.cell c, h)
    | .error e => (.refused e, h)

def run (h : DoubleHeap α) (calls : List (BufferCall α)) : List (Exchange α) × DoubleHeap α :=
  exchanges nextOrder answer h calls

theorem Represents.answer_filling {call : BufferCall α} (same : h.Represents m)
    (pops : call ≠ .pop) (order : CellCost α) :
    (h.answer call).2.first = h.first ∧
      (h.answer call).2.Represents (m.reply h.first order call).cells := by
  cases call with
  | push c =>
      rw [DoubleHeap.answer, OpenCells.reply]
      cases pushed : h.push c with
      | ok h' =>
          obtain ⟨room, kept, next⟩ := same.push pushed
          rw [room]
          exact ⟨kept, next⟩
      | error e =>
          obtain ⟨n, room, rfl⟩ := same.overflow pushed
          rw [room]
          exact ⟨rfl, same⟩
  | pop => exact absurd rfl pops
  | evict bound => exact (same.evict bound).2
  | setIncumbent loup => exact same.setIncumbent loup
  | flush => exact same.flush
  | size => exact ⟨rfl, same⟩
  | minimum => exact ⟨rfl, same⟩
  | top =>
      rw [DoubleHeap.answer, OpenCells.reply]
      cases (CellBuffer.double h).top <;> cases m.first? order <;> exact ⟨rfl, same⟩

theorem Represents.answer (same : h.Represents m) (numbered : m.Numbered) (call : BufferCall α) :
    (h.answer call).1 = (m.reply h.first h.nextOrder call).answer ∧
      (h.answer call).2.first = h.first ∧
      (h.answer call).2.Represents (m.reply h.first h.nextOrder call).cells := by
  by_cases pops : call = .pop
  · rw [pops, DoubleHeap.answer, OpenCells.reply]
    cases popped : h.popWithCost with
    | ok r =>
        obtain ⟨⟨cost, c⟩, h'⟩ := r
        obtain ⟨kept, d, -, rfl, rfl, first, next⟩ := same.popWithCost popped
        rw [first numbered]
        exact ⟨rfl, kept, next⟩
    | error e =>
        obtain ⟨rfl, none⟩ := same.underflow popped
        rw [OpenCells.first?_eq_none.mpr none]
        exact ⟨rfl, rfl, same⟩
  refine ⟨?_, same.answer_filling pops h.nextOrder⟩
  cases call with
  | pop => exact absurd rfl pops
  | push c =>
      rw [DoubleHeap.answer, OpenCells.reply]
      cases pushed : h.push c with
      | ok h' => rw [(same.push pushed).1]
      | error e =>
          obtain ⟨n, room, rfl⟩ := same.overflow pushed
          rw [room]
  | evict bound => exact congrArg _ (same.evict bound).1
  | setIncumbent loup => rfl
  | flush => rfl
  | size => exact congrArg _ same.length
  | minimum => rw [DoubleHeap.answer, OpenCells.reply, same.minimum numbered]
  | top =>
      have top := same.top? numbered
      rw [DoubleHeap.answer, CellBuffer.top, OpenCells.reply]
      cases first : m.first? h.nextOrder <;> rw [first] at top
      · rw [Option.map_eq_none_iff.mp top]
        rfl
      · obtain ⟨s, found, cell⟩ := Option.map_eq_some_iff.mp top
        rw [found]
        exact congrArg _ cell

theorem Represents.top_eq_pop (same : h.Represents m) (numbered : m.Numbered) :
    (CellBuffer.double h).top = Prod.fst <$> (CellBuffer.double h).pop := by
  have top := same.top? numbered
  rw [CellBuffer.top, CellBuffer.pop]
  cases popped : h.popWithCost with
  | ok r =>
      obtain ⟨⟨cost, c⟩, h'⟩ := r
      obtain ⟨-, d, -, rfl, -, first, -⟩ := same.popWithCost popped
      rw [first numbered] at top
      obtain ⟨s, found, cell⟩ := Option.map_eq_some_iff.mp top
      rw [found]
      exact congrArg Except.ok cell
  | error e =>
      obtain ⟨rfl, none⟩ := same.underflow popped
      rw [OpenCells.first?_eq_none.mpr none] at top
      rw [Option.map_eq_none_iff.mp top]
      rfl

omit [Scalar α] [OrderedScalar α] in
theorem Stores.cells_toNat (same : h.Stores m) (numbered : m.Numbered) :
    (h.live.map fun s => (s.age.toNat, s.cell)).Perm m.cells := by
  have ages := same.cells.map fun c => (c.1.toNat, c.2)
  rw [List.map_map, List.map_map] at ages
  refine ages.trans (.of_eq ((List.map_congr_left fun d hd => ?_).trans (List.map_id _)))
  exact congrArg (·, d.2) (UInt64.toNat_ofNat_of_lt' (numbered.age_lt hd))

/-- As long as the cells that come in can be numbered, a double heap answers every sequence of calls
as one set of open cells does from which the next cell is taken by the announced order. The cells
that came in have left or are still open, and none twice. The next cell is at the top, the live
cells are the open ones, and the keys of both orders together are few. -/
theorem answers_as_one_set {first second : CellCost α} {percent : Nat} {seed : UInt64}
    {capacity : Option Nat} (made : ofCriteria first second percent seed capacity = .ok h)
    (calls : List (BufferCall α)) (room : NumberedFrom 0 (h.run calls).1) : ∃ left m,
      OpenCells.Replays first (.start capacity) (h.run calls).1 left m ∧
      ((h.run calls).1.filterMap Exchange.accepted).Perm (left ++ m.cells.map Prod.snd) ∧
      ((h.run calls).2.live.map fun s => (s.age.toNat, s.cell)).Perm m.cells ∧
      (h.run calls).2.size = (h.run calls).2.live.length ∧
      (CellBuffer.double (h.run calls).2).top =
        Prod.fst <$> (CellBuffer.double (h.run calls).2).pop ∧
      (h.run calls).2.firstKeys.toList.length + (h.run calls).2.secondKeys.toList.length ≤
        4 * (h.run calls).2.size + 16 := by
  obtain ⟨rfl, start⟩ := represents_start made
  have step : ∀ {g : DoubleHeap α} {m : OpenCells α} {call : BufferCall α}, True →
      m.Numbered → g.first = h.first ∧ g.Represents m →
      (g.answer call).1 = (m.reply h.first g.nextOrder call).answer ∧
        (g.answer call).2.first = h.first ∧
        (g.answer call).2.Represents (m.reply h.first g.nextOrder call).cells := by
    intro g m call _ numbered now
    obtain ⟨agree, kept, next⟩ := now.2.answer numbered call
    rw [now.1] at agree kept next
    exact ⟨agree, kept, next⟩
  obtain ⟨left, m, replays, numbered, -, same⟩ := OpenCells.replays_exchanges h.first nextOrder
    answer (fun g m => g.first = h.first ∧ g.Represents m) (fun _ => True) step
    (fun call (_ : call ∈ calls) => trivial) room ⟨rfl, start⟩
  exact ⟨left, m, replays, replays.conserves, same.cells_toNat numbered, same.size,
    same.top_eq_pop numbered, same.few⟩

end DoubleHeap

namespace ExtendedInt

def deepestFirstCalls : List (BufferCall ExtendedInt) :=
  [.push (cellOf 3 9 0), .push (cellOf 4 9 1), .pop, .push (cellOf 5 9 2), .push (cellOf 1 9 0),
    .minimum, .top, .evict (int 5), .pop, .size]

/-- The cell of depth two is stored in the slot of the one that left, whose key in the first order
is still there. -/
theorem deepestFirst_answers : ∃ h,
    DoubleHeap.ofCriteria .lowerBound .depth 100 7 (some 2) = .ok h ∧
      NumberedFrom 0 (h.run deepestFirstCalls).1 ∧
      (h.run deepestFirstCalls).1.map Exchange.answer =
        [.done, .done, .popped (int 4) (cellOf 4 9 1), .done, .refused (.overflow 2),
          .least (some (int 3)), .cell (cellOf 5 9 2), .count 1, .popped (int 3) (cellOf 3 9 0),
          .count 0] ∧
      ∃ left m, OpenCells.Replays .lowerBound (.start (some 2)) (h.run deepestFirstCalls).1 left m ∧
        ((h.run deepestFirstCalls).1.filterMap Exchange.accepted).Perm
          (left ++ m.cells.map Prod.snd) := by
  obtain ⟨h, made⟩ : ∃ h : DoubleHeap ExtendedInt,
      DoubleHeap.ofCriteria .lowerBound .depth 100 7 (some 2) = .ok h := ⟨_, rfl⟩
  have room : NumberedFrom 0 (h.run deepestFirstCalls).1 := numberedFrom_of_length (by
    rw [DoubleHeap.run, length_exchanges]
    decide)
  obtain ⟨left, m, replays, kept, -⟩ :=
    DoubleHeap.answers_as_one_set made deepestFirstCalls room
  obtain rfl := Except.ok.inj made
  exact ⟨_, rfl, room, by with_unfolding_all rfl, left, m, replays, kept⟩

end ExtendedInt

end BoxSearch
