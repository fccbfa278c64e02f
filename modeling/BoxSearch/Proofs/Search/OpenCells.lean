import Mathlib.Data.List.Sort
import BoxSearch.Proofs.Scalar.Order
import BoxSearch.Proofs.Search.PriorityQueue
import BoxSearch.Search.Buffer

/-!
# Open cells without heaps

What a buffer ordered by costs has to do, said with a plain list: the open cells in the order in
which they came, and the same cells sorted by what an order makes of them now. A buffer is right
if it answers every call as this list does. Nothing is lost on the way: the cells that came in are
those that left and those that are still there.

The list counts the cells that come in. A buffer numbers them with 64 bits and starts again from
zero after the last number, so that its numbers tell cells apart only as long as no more than
`2 ^ 64` cells come in between two flushes.
-/
set_option autoImplicit false

namespace BoxSearch

open Scalar PriorityQueue

variable {α : Type} [Scalar α]

/-! ## Positions -/

def lexicographic {κ ι : Type} [Ord ι] (cost tie : κ → α) (age : κ → ι) : κ → κ → Ordering :=
  compareLex (compareLex (fun a b => totalCompare (cost a) (cost b)) fun a b =>
    totalCompare (tie a) (tie b)) (compareOn age)

section Positions
variable [OrderedScalar α] {κ : Type} {a b : OrderKey α}

instance (f : κ → α) : Std.TransCmp fun a b => totalCompare (f a) (f b) where
  eq_swap := (OrderedScalar.totalCompare_swap _ _).symm
  isLE_trans := OrderedScalar.totalCompare_trans

instance {ι : Type} [Ord ι] [Std.TransOrd ι] (cost tie : κ → α) (age : κ → ι) :
    Std.TransCmp (lexicographic cost tie age) :=
  inferInstanceAs (Std.TransCmp (compareLex _ _))

theorem lexicographic_swap {ι : Type} [Ord ι] [Std.TransOrd ι] (cost tie : κ → α) (age : κ → ι)
    (a b : κ) : lexicographic cost tie age b a = (lexicographic cost tie age a b).swap :=
  Std.OrientedCmp.eq_swap

theorem decides_lexicographic {ι : Type} [Ord ι] [Std.TransOrd ι] (cost tie : κ → α)
    (age : κ → ι) : Decides (fun a b => (lexicographic cost tie age a b).isLE)
      (fun a b => (lexicographic cost tie age a b).isLE = true) where
  of_true h := h
  of_false {a b} h := by
    rw [lexicographic_swap]
    cases found : lexicographic cost tie age a b <;> simp_all
  trans := Std.TransCmp.isLE_trans

theorem age_eq_of_lexicographic {ι : Type} [Ord ι] [Std.TransOrd ι] [Std.LawfulEqOrd ι]
    {cost tie : κ → α} {age : κ → ι} {a b : κ}
    (first : (lexicographic cost tie age a b).isLE = true)
    (second : (lexicographic cost tie age b a).isLE = true) : age a = age b := by
  have equal : lexicographic cost tie age a b = .eq := by
    rw [lexicographic_swap] at second
    cases found : lexicographic cost tie age a b <;> simp_all
  exact Std.LawfulEqOrd.eq_of_compare (Ordering.then_eq_eq.mp equal).2

theorem OrderKey.decides_before :
    Decides OrderKey.before (fun a b : OrderKey α => a.before b = true) :=
  decides_lexicographic OrderKey.cost OrderKey.tie OrderKey.age

omit [OrderedScalar α] in
theorem OrderKey.cost_isLE_of_before (before : a.before b = true) :
    (totalCompare a.cost b.cost).isLE = true := by
  rw [OrderKey.before] at before
  cases found : totalCompare a.cost b.cost <;> simp_all

theorem HeapEntry.decides_before :
    Decides HeapEntry.before (fun a b : HeapEntry α => a.before b = true) :=
  OrderKey.decides_before.on HeapEntry.key

theorem SlotKey.decides_before :
    Decides SlotKey.before (fun a b : SlotKey α => a.before b = true) :=
  OrderKey.decides_before.on SlotKey.position

end Positions

/-! ## Calls and answers -/

inductive BufferCall (α : Type) where
  | push (c : Cell α)
  | pop
  | evict (bound : α)
  | setIncumbent (loup : α)
  | flush
  | size
  | minimum
  | top

inductive BufferAnswer (α : Type) where
  | done
  | refused (e : BufferError)
  | popped (cost : α) (c : Cell α)
  | cell (c : Cell α)
  | count (n : Nat)
  | least (cost : Option α)

/-- A call with its answer, and the order that was announced for the next cell. -/
structure Exchange (α : Type) where
  order : CellCost α
  call : BufferCall α
  answer : BufferAnswer α

def Exchange.accepted (e : Exchange α) : Option (Cell α) :=
  match e.call, e.answer with
  | .push c, .done => some c
  | _, _ => none

/-- How many cells came in since the last flush, after one more call. -/
def Exchange.count (n : Nat) (e : Exchange α) : Nat :=
  match e.call, e.answer with
  | .push _, .done => n + 1
  | .flush, _ => 0
  | _, _ => n

/-- When `n` cells have come in since the last flush, there is a number for every cell that comes in
by these calls. -/
def NumberedFrom (n : Nat) (es : List (Exchange α)) : Prop :=
  ∀ past, past <+: es → past.foldl Exchange.count n ≤ 2 ^ 64

omit [Scalar α] in
theorem NumberedFrom.here {n : Nat} {es : List (Exchange α)} (room : NumberedFrom n es) :
    n ≤ 2 ^ 64 :=
  room [] List.nil_prefix

omit [Scalar α] in
theorem NumberedFrom.next {n : Nat} {e : Exchange α} {es : List (Exchange α)}
    (room : NumberedFrom n (e :: es)) : NumberedFrom (e.count n) es :=
  fun _ early => room _ (List.cons_prefix_cons.mpr ⟨rfl, early⟩)

omit [Scalar α] in
theorem Exchange.count_le (n : Nat) (e : Exchange α) : e.count n ≤ n + 1 := by
  unfold count
  split <;> omega

omit [Scalar α] in
/-- A call lets in one cell at most. -/
theorem numberedFrom_of_length {n : Nat} {es : List (Exchange α)}
    (few : n + es.length ≤ 2 ^ 64) : NumberedFrom n es := by
  have counted : ∀ (past : List (Exchange α)) (n : Nat),
      past.foldl Exchange.count n ≤ n + past.length := by
    intro past
    induction past with
    | nil => exact fun n => le_rfl
    | cons e past ih =>
        intro n
        have later := ih (e.count n)
        have now := e.count_le n
        rw [List.foldl_cons, List.length_cons]
        omega
  intro past early
  have := counted past n
  have := early.length_le
  omega

/-- The calls answered one after the other by something that announces its next order. -/
def exchanges {σ : Type} (order : σ → CellCost α)
    (answer : σ → BufferCall α → BufferAnswer α × σ) :
    σ → List (BufferCall α) → List (Exchange α) × σ
  | s, [] => ([], s)
  | s, call :: calls =>
    let next := answer s call
    let rest := exchanges order answer next.2 calls
    (⟨order s, call, next.1⟩ :: rest.1, rest.2)

omit [Scalar α] in
theorem length_exchanges {σ : Type} {order : σ → CellCost α}
    {answer : σ → BufferCall α → BufferAnswer α × σ} :
    ∀ {calls : List (BufferCall α)} {s : σ},
      (exchanges order answer s calls).1.length = calls.length := by
  intro calls
  induction calls with
  | nil => exact rfl
  | cons call calls ih => exact congrArg (· + 1) ih

/-! ## The list of open cells -/

/-- The open cells with their ages, the oldest first. Ages are counted without an end. -/
structure OpenCells (α : Type) where
  loup : α
  cells : List (Nat × Cell α)
  nextAge : Nat
  capacity : Option Nat
  ages : (cells.map Prod.fst).Pairwise (· < ·)
  young : ∀ c ∈ cells, c.1 < nextAge

/-- What a call does to the open cells. -/
structure BufferReply (α : Type) where
  answer : BufferAnswer α
  left : List (Cell α)
  cells : OpenCells α

namespace OpenCells

def start (capacity : Option Nat) : OpenCells α where
  loup := Scalar.infinity
  cells := []
  nextAge := 0
  capacity
  ages := .nil
  young := List.forall_mem_nil _

def add (m : OpenCells α) (c : Cell α) : OpenCells α where
  loup := m.loup
  cells := m.cells ++ [(m.nextAge, c)]
  nextAge := m.nextAge + 1
  capacity := m.capacity
  ages := by
    rw [List.map_append, List.pairwise_append]
    refine ⟨m.ages, List.pairwise_singleton _ _, fun a ha b hb => ?_⟩
    obtain ⟨d, hd, rfl⟩ := List.mem_map.mp ha
    obtain rfl := List.mem_singleton.mp hb
    exact m.young d hd
  young d hd := by
    rcases List.mem_append.mp hd with hd | hd
    · exact (m.young d hd).trans (Nat.lt_succ_self _)
    · obtain rfl := List.mem_singleton.mp hd
      exact Nat.lt_succ_self _

def keep (m : OpenCells α) (stays : Nat × Cell α → Bool) : OpenCells α where
  loup := m.loup
  cells := m.cells.filter stays
  nextAge := m.nextAge
  capacity := m.capacity
  ages := m.ages.sublist (List.filter_sublist.map _)
  young c hc := m.young c (List.mem_filter.mp hc).1

def clear (m : OpenCells α) : OpenCells α := { start m.capacity with loup := m.loup }

/-- A number for every cell that came in since the last flush. -/
def Numbered (m : OpenCells α) : Prop := m.nextAge ≤ 2 ^ 64

def before (k : CellCost α) (loup : α) (c d : Nat × Cell α) : Bool :=
  (lexicographic (fun c => k.cost loup c.2) (fun c => k.tie loup c.2) Prod.fst c d).isLE

/-- The open cells sorted by cost, then by tie, then by age. -/
def inOrder (k : CellCost α) (m : OpenCells α) : List (Nat × Cell α) :=
  m.cells.insertionSort fun c d => before k m.loup c d = true

def first? (k : CellCost α) (m : OpenCells α) : Option (Nat × Cell α) := (m.inOrder k).head?

def reaches (k : CellCost α) (m : OpenCells α) (bound : α) (c : Nat × Cell α) : Bool :=
  decide (bound ≤ k.cost m.loup c.2)

def reply (first order : CellCost α) (m : OpenCells α) : BufferCall α → BufferReply α
  | .push c =>
    match full m.capacity m.cells.length with
    | some n => ⟨.refused (.overflow n), [], m⟩
    | none => ⟨.done, [], m.add c⟩
  | .pop =>
    match m.first? order with
    | none => ⟨.refused .underflow, [], m⟩
    | some c => ⟨.popped (first.cost m.loup c.2) c.2, [c.2], m.keep fun d => d.1 != c.1⟩
  | .evict bound =>
    let gone := m.cells.filter (m.reaches first bound)
    ⟨.count gone.length, gone.map Prod.snd, m.keep fun c => !m.reaches first bound c⟩
  | .setIncumbent loup => ⟨.done, [], { m with loup }⟩
  | .flush => ⟨.done, m.cells.map Prod.snd, m.clear⟩
  | .size => ⟨.count m.cells.length, [], m⟩
  | .minimum => ⟨.least ((m.first? first).map fun c => first.cost m.loup c.2), [], m⟩
  | .top =>
    match m.first? order with
    | none => ⟨.refused .underflow, [], m⟩
    | some c => ⟨.cell c.2, [], m⟩

/-- The open cells give these answers, and these cells leave on the way. -/
inductive Replays (first : CellCost α) :
    OpenCells α → List (Exchange α) → List (Cell α) → OpenCells α → Prop
  | nil {m : OpenCells α} : Replays first m [] [] m
  | cons {m m' : OpenCells α} {order : CellCost α} {call : BufferCall α}
      {es : List (Exchange α)} {left : List (Cell α)} :
      Replays first (m.reply first order call).cells es left m' →
      Replays first m (⟨order, call, (m.reply first order call).answer⟩ :: es)
        ((m.reply first order call).left ++ left) m'

variable {m m' : OpenCells α} {k first order : CellCost α} {c d : Nat × Cell α}

omit [Scalar α] in
theorem keep_congr {p q : Nat × Cell α → Bool} (agree : ∀ c ∈ m.cells, p c = q c) :
    m.keep p = m.keep q := by
  rw [keep, keep]
  congr 1
  exact List.filter_congr agree

omit [Scalar α] in
theorem keep_eq_self {stays : Nat × Cell α → Bool} (all : ∀ c ∈ m.cells, stays c = true) :
    m.keep stays = m := by
  cases m
  rw [keep]
  congr
  exact List.filter_eq_self.mpr all

/-! ## The first cell -/

omit [Scalar α] in
theorem eq_of_age (hc : c ∈ m.cells) (hd : d ∈ m.cells) (same : c.1 = d.1) : c = d :=
  List.inj_on_of_nodup_map (m.ages.imp ne_of_lt) hc hd same

theorem first?_eq_none : m.first? k = none ↔ m.cells = [] := by
  rw [first?, inOrder, List.head?_eq_none_iff]
  constructor
  · intro none
    have length := congrArg List.length none
    rw [List.length_insertionSort] at length
    exact List.length_eq_zero_iff.mp length
  · intro none
    rw [none]
    rfl

theorem mem_of_first?_eq_some (found : m.first? k = some c) : c ∈ m.cells :=
  (List.mem_insertionSort _).mp (List.mem_of_mem_head? found)

section Sorting
variable [OrderedScalar α]

theorem decides_before (k : CellCost α) (loup : α) :
    Decides (before k loup) fun c d => before k loup c d = true :=
  decides_lexicographic _ _ _

theorem pairwise_inOrder : (m.inOrder k).Pairwise fun c d => before k m.loup c d = true := by
  have total : Std.Total fun c d => before k m.loup c d = true := ⟨fun c d => by
    cases test : before k m.loup c d
    · exact Or.inr ((decides_before k m.loup).of_false test)
    · exact Or.inl rfl⟩
  have trans : IsTrans (Nat × Cell α) fun c d => before k m.loup c d = true :=
    ⟨fun _ _ _ => (decides_before k m.loup).trans⟩
  exact List.pairwise_insertionSort _ _

theorem first?_before (found : m.first? k = some c) (hd : d ∈ m.cells) :
    before k m.loup c d = true := by
  have placed : d ∈ m.inOrder k := (List.mem_insertionSort _).mpr hd
  have pairs := m.pairwise_inOrder (k := k)
  cases sorted : m.inOrder k with
  | nil =>
      rw [sorted] at placed
      cases placed
  | cons c' rest =>
      rw [first?, sorted] at found
      obtain rfl := Option.some.inj found
      rw [sorted] at placed pairs
      rcases List.mem_cons.mp placed with rfl | later
      · exact (decides_before k m.loup).refl _
      · exact List.rel_of_pairwise_cons pairs later

theorem first?_eq_some (hc : c ∈ m.cells) (least : ∀ d ∈ m.cells, before k m.loup c d = true) :
    m.first? k = some c := by
  cases found : m.first? k with
  | none =>
      rw [first?_eq_none.mp found] at hc
      cases hc
  | some d =>
      have hd := mem_of_first?_eq_some found
      have same : c.1 = d.1 :=
        age_eq_of_lexicographic (least d hd) (first?_before found hc)
      rw [eq_of_age hc hd same]

end Sorting

/-! ## Nothing is lost -/

omit [Scalar α] in
/-- A cell is the only one of its age. -/
theorem perm_keep_age (hc : c ∈ m.cells) :
    m.cells.Perm (c :: (m.keep fun d => d.1 != c.1).cells) := by
  obtain ⟨older, younger, split⟩ := List.append_of_mem hc
  have others : ∀ d ∈ older ++ younger, (d.1 != c.1) = true := by
    have distinct := m.ages.imp ne_of_lt
    rw [split, List.map_append, List.map_cons] at distinct
    have apart := (List.nodup_middle.mp distinct).notMem
    intro d hd
    rw [← List.map_append] at apart
    exact bne_iff_ne.mpr fun same => apart (same ▸ List.mem_map_of_mem hd)
  have kept : (m.keep fun d => d.1 != c.1).cells = older ++ younger := by
    change m.cells.filter (fun d => d.1 != c.1) = older ++ younger
    rw [split, List.filter_append, List.filter_cons_of_neg (by simp), ← List.filter_append]
    exact List.filter_eq_self.mpr others
  rw [kept, split]
  exact List.perm_middle

theorem reply_conserves (m : OpenCells α) (first order : CellCost α) (call : BufferCall α) :
    (m.cells.map Prod.snd ++
        (Exchange.accepted ⟨order, call, (m.reply first order call).answer⟩).toList).Perm
      ((m.reply first order call).left ++
        (m.reply first order call).cells.cells.map Prod.snd) := by
  cases call with
  | push c =>
      cases room : full m.capacity m.cells.length with
      | none => simp [reply, room, Exchange.accepted, add]
      | some n => simp [reply, room, Exchange.accepted]
  | pop =>
      cases found : m.first? order with
      | none => simp [reply, found, Exchange.accepted]
      | some c =>
          simp only [reply, found, Exchange.accepted, Option.toList_none, List.append_nil]
          exact (m.perm_keep_age (mem_of_first?_eq_some found)).map Prod.snd
  | evict bound =>
      simp only [reply, Exchange.accepted, Option.toList_none, List.append_nil, keep]
      rw [← List.map_append]
      exact ((List.filter_append_perm _ m.cells).map Prod.snd).symm
  | setIncumbent loup => simp [reply, Exchange.accepted]
  | flush => simp [reply, Exchange.accepted, clear, start]
  | size => simp [reply, Exchange.accepted]
  | minimum => simp [reply, Exchange.accepted]
  | top => cases found : m.first? order <;> simp [reply, found, Exchange.accepted]

/-- Every cell that came in has left or is still open, and none twice. -/
theorem Replays.conserves {es : List (Exchange α)} {left : List (Cell α)}
    (replays : Replays first m es left m') :
    (m.cells.map Prod.snd ++ es.filterMap Exchange.accepted).Perm
      (left ++ m'.cells.map Prod.snd) := by
  induction replays with
  | nil => simp
  | @cons m m' order call es left _ ih =>
      have here := m.reply_conserves first order call
      have arrived : (⟨order, call, (m.reply first order call).answer⟩ :: es).filterMap
          Exchange.accepted =
          (Exchange.accepted ⟨order, call, (m.reply first order call).answer⟩).toList ++
            es.filterMap Exchange.accepted := by
        rw [List.filterMap_cons]
        split <;> simp_all
      rw [arrived, ← List.append_assoc, List.append_assoc _ left]
      refine (here.append_right _).trans ?_
      rw [List.append_assoc]
      exact ih.append_left _

/-! ## A buffer that answers alike -/

theorem mem_reply {call : BufferCall α}
    (hc : c ∈ (m.reply first order call).cells.cells) : c ∈ m.cells ∨ call = .push c.2 := by
  cases call with
  | push d =>
      rw [reply] at hc
      split at hc
      · exact Or.inl hc
      · rcases List.mem_append.mp hc with hc | hc
        · exact Or.inl hc
        · exact Or.inr (List.mem_singleton.mp hc ▸ rfl)
  | pop =>
      rw [reply] at hc
      split at hc
      · exact Or.inl hc
      · exact Or.inl (List.mem_filter.mp hc).1
  | evict bound => exact Or.inl (List.mem_filter.mp hc).1
  | setIncumbent loup => exact Or.inl hc
  | flush => cases hc
  | size => exact Or.inl hc
  | minimum => exact Or.inl hc
  | top =>
      rw [reply] at hc
      split at hc <;> exact Or.inl hc

theorem loup_reply (m : OpenCells α) (first order : CellCost α) (call : BufferCall α) :
    (m.reply first order call).cells.loup = m.loup ∨
      call = .setIncumbent (m.reply first order call).cells.loup := by
  cases call with
  | setIncumbent loup => exact Or.inr rfl
  | push c =>
      rw [reply]
      split <;> exact Or.inl rfl
  | pop =>
      rw [reply]
      split <;> exact Or.inl rfl
  | top =>
      rw [reply]
      split <;> exact Or.inl rfl
  | evict bound => exact Or.inl rfl
  | flush => exact Or.inl rfl
  | size => exact Or.inl rfl
  | minimum => exact Or.inl rfl

theorem nextAge_reply (m : OpenCells α) (first order : CellCost α) (call : BufferCall α) :
    (m.reply first order call).cells.nextAge =
      Exchange.count m.nextAge ⟨order, call, (m.reply first order call).answer⟩ := by
  cases call with
  | push c =>
      rw [reply]
      split <;> rfl
  | pop =>
      rw [reply]
      split <;> rfl
  | top =>
      rw [reply]
      split <;> rfl
  | evict | setIncumbent | flush | size | minimum => rfl

/-- A buffer that answers every single call as the open cells do answers any number of calls so, as
long as it can number the cells that come in. -/
theorem replays_exchanges {σ : Type} (first : CellCost α) (orderOf : σ → CellCost α)
    (answer : σ → BufferCall α → BufferAnswer α × σ) (R : σ → OpenCells α → Prop)
    (allowed : BufferCall α → Prop)
    (step : ∀ {s : σ} {m : OpenCells α} {call : BufferCall α}, allowed call → m.Numbered → R s m →
      (answer s call).1 = (m.reply first (orderOf s) call).answer ∧
        R (answer s call).2 (m.reply first (orderOf s) call).cells) :
    ∀ {calls : List (BufferCall α)} {s : σ} {m : OpenCells α}, (∀ call ∈ calls, allowed call) →
      NumberedFrom m.nextAge (exchanges orderOf answer s calls).1 → R s m →
      ∃ left m', Replays first m (exchanges orderOf answer s calls).1 left m' ∧ m'.Numbered ∧
        R (exchanges orderOf answer s calls).2 m' := by
  intro calls
  induction calls with
  | nil => exact fun _ room same => ⟨[], _, .nil, room.here, same⟩
  | cons call calls ih =>
      intro s m each room same
      obtain ⟨agree, next⟩ := step (each call List.mem_cons_self) room.here same
      have later := room.next
      rw [agree, ← nextAge_reply] at later
      obtain ⟨left, m', replays, numbered, last⟩ :=
        ih (fun c hc => each c (List.mem_cons_of_mem _ hc)) later next
      refine ⟨(m.reply first (orderOf s) call).left ++ left, m', ?_, numbered, last⟩
      rw [exchanges]
      dsimp only
      rw [agree]
      exact .cons replays

/-! ## Numbers for ages -/

def stamp (c : Nat × Cell α) : UInt64 × Cell α := (.ofNat c.1, c.2)

omit [Scalar α] in
theorem stamp_nextAge {age : UInt64} (same : age = .ofNat m.nextAge) (c : Cell α) :
    age + 1 = .ofNat (m.add c).nextAge := by
  rw [same]
  exact (UInt64.ofNat_add _ 1).symm

def entry (k : CellCost α) (loup : α) (c : Nat × Cell α) : HeapEntry α :=
  ⟨k.key loup (.ofNat c.1) c.2, c.2⟩

/-- The open cells in order, at the positions that a buffer gives them. -/
def entries (k : CellCost α) (m : OpenCells α) : List (HeapEntry α) :=
  (m.inOrder k).map (entry k m.loup)

/-- No open cell comes before this one by numbers. -/
structure Leads (k : CellCost α) (m : OpenCells α) (c : Nat × Cell α) : Prop where
  mem : c ∈ m.cells
  before : ∀ d ∈ m.cells, (entry k m.loup c).before (entry k m.loup d) = true

theorem before_entry {loup : α} (hc : c.1 < 2 ^ 64) (hd : d.1 < 2 ^ 64) :
    (entry k loup c).before (entry k loup d) = before k loup c d := by
  have ages : compare (UInt64.ofNat c.1) (UInt64.ofNat d.1) = compare c.1 d.1 := by
    rw [UInt64.compare_eq_toNat_compare_toNat]
    rw [UInt64.toNat_ofNat_of_lt' hc, UInt64.toNat_ofNat_of_lt' hd]
  change Ordering.isLE (Ordering.then _ (compare (UInt64.ofNat c.1) (UInt64.ofNat d.1))) = _
  rw [ages]
  rfl

omit [Scalar α] in
theorem Numbered.age_lt (numbered : m.Numbered) (hc : c ∈ m.cells) : c.1 < 2 ^ 64 :=
  (m.young c hc).trans_le numbered

theorem pairwise_entries [OrderedScalar α] (numbered : m.Numbered) :
    (m.entries k).Pairwise fun a b => a.before b = true := by
  refine List.pairwise_map.mpr (m.pairwise_inOrder.imp_of_mem fun hc hd first => ?_)
  rw [before_entry (numbered.age_lt ((List.mem_insertionSort _).mp hc))
    (numbered.age_lt ((List.mem_insertionSort _).mp hd))]
  exact first

/-- With a number for every cell, the first one by numbers is the first one by ages. -/
theorem Leads.first?_eq_some [OrderedScalar α] (leads : m.Leads k c) (numbered : m.Numbered) :
    m.first? k = some c := by
  refine OpenCells.first?_eq_some leads.mem fun d hd => ?_
  rw [← before_entry (numbered.age_lt leads.mem) (numbered.age_lt hd)]
  exact leads.before d hd

end OpenCells

end BoxSearch
