import Mathlib.Data.List.Basic
import BoxSearch.Search.PriorityQueue

/-!
# Keys of priority queues

Every operation is described by what it does to the list of all keys, up to order. The keys are
kept so that the first one comes before all others.
-/
set_option autoImplicit false

namespace BoxSearch.PriorityQueue

variable {κ : Type} {before : κ → κ → Bool} {key k : κ} {q : PriorityQueue κ}

/-! ## The keys -/

theorem toList_join (key : κ) (a b : PriorityQueue κ) :
    (join key a b).toList.Perm (key :: (a.toList ++ b.toList)) := by
  rw [join]
  split
  · exact .refl _
  · exact List.perm_append_comm.cons key

theorem toList_mergeInto {n : Nat} {left right : PriorityQueue κ}
    {mergeRight : PriorityQueue κ → PriorityQueue κ}
    (merged : ∀ q, (mergeRight q).toList.Perm (right.toList ++ q.toList)) :
    ∀ q, (mergeInto before n key left right mergeRight q).toList.Perm
      (key :: (left.toList ++ right.toList) ++ q.toList) := by
  intro q
  induction q with
  | empty =>
      rw [mergeInto, toList, toList, List.append_nil]
  | node m key' left' right' _ ih =>
      rw [mergeInto]
      split
      · refine (toList_join _ _ _).trans ((ih.append_left _).cons key' |>.trans ?_)
        rw [toList]
        exact ((List.perm_append_comm_assoc _ _ _).cons key').trans List.perm_middle.symm
      · refine (toList_join _ _ _).trans (((merged _).append_left _).cons key |>.trans ?_)
        rw [List.cons_append, List.append_assoc]

theorem toList_merge : ∀ a b : PriorityQueue κ,
    (merge before a b).toList.Perm (a.toList ++ b.toList) := by
  intro a
  induction a with
  | empty => exact fun b => .refl _
  | node n key left right _ ih => exact fun b => toList_mergeInto ih b

theorem toList_insert : (q.insert before key).toList.Perm (key :: q.toList) :=
  toList_merge _ _

theorem toList_pop? {rest : PriorityQueue κ} (popped : q.pop? before = some (key, rest)) :
    q.toList.Perm (key :: rest.toList) := by
  cases q with
  | empty => cases popped
  | node n key' left right =>
      obtain ⟨rfl, rfl⟩ := Prod.mk.inj (Option.some.inj popped)
      exact (toList_merge _ _).symm.cons _

theorem toList_ofList (keys : List κ) : (ofList before keys).toList.Perm keys := by
  have all : ∀ (keys : List κ) (q : PriorityQueue κ),
      (keys.foldl (fun q key => q.insert before key) q).toList.Perm (keys ++ q.toList) := by
    intro keys
    induction keys with
    | nil => exact fun q => .refl _
    | cons key keys ih =>
        intro q
        exact (ih _).trans ((toList_insert.append_left keys).trans List.perm_middle)
  have whole := all keys empty
  rwa [toList, List.append_nil] at whole

theorem mem_of_first? (first : q.first? = some key) : key ∈ q.toList := by
  cases q with
  | empty => cases first
  | node n key' left right =>
      obtain rfl := Option.some.inj first
      exact List.mem_cons_self

theorem first?_eq_none : q.first? = none ↔ q.toList = [] := by
  cases q <;> simp [first?, toList]

theorem first?_of_pop? {rest : PriorityQueue κ} (popped : q.pop? before = some (key, rest)) :
    q.first? = some key := by
  cases q with
  | empty => cases popped
  | node n key' left right => exact congrArg some (Prod.mk.inj (Option.some.inj popped)).1

theorem pop?_eq_none : q.pop? before = none ↔ q.toList = [] := by
  cases q <;> simp [pop?, toList]

theorem first?_merge {a b : PriorityQueue κ} {k : κ} (first : (merge before a b).first? = some k) :
    a.first? = some k ∨ b.first? = some k := by
  have root : ∀ (key : κ) (a b : PriorityQueue κ), (join key a b).first? = some key := by
    intro key a b
    rw [join]
    split <;> rfl
  cases a with
  | empty => exact Or.inr first
  | node n key left right =>
      cases b with
      | empty => exact Or.inl first
      | node m key' left' right' =>
          rw [merge, mergeInto] at first
          split at first
          · exact Or.inr ((root _ _ _).symm.trans first)
          · exact Or.inl ((root _ _ _).symm.trans first)

theorem first?_insert (first : (q.insert before key).first? = some k) :
    k = key ∨ q.first? = some k :=
  (first?_merge first).imp_left fun new => (Option.some.inj new).symm

theorem length_toList_pop? {rest : PriorityQueue κ} (popped : q.pop? before = some (key, rest)) :
    q.toList.length = rest.toList.length + 1 :=
  (toList_pop? popped).length_eq

theorem first?_dropWhileFirst {drop : κ → Bool} : ∀ {n : Nat} {q : PriorityQueue κ},
    q.toList.length ≤ n → (dropWhileFirst before drop n q).first? = some key →
    drop key = false := by
  intro n
  induction n with
  | zero =>
      intro q short first
      rw [dropWhileFirst, first?_eq_none.mpr (List.length_eq_zero_iff.mp (Nat.le_zero.mp short))]
        at first
      cases first
  | succ n ih =>
      intro q short first
      rw [dropWhileFirst] at first
      split at first
      · rename_i head rest popped
        split at first
        · refine ih ?_ first
          rw [length_toList_pop? popped] at short
          exact Nat.le_of_succ_le_succ short
        · rename_i stays
          obtain rfl := Option.some.inj ((first?_of_pop? popped).symm.trans first)
          exact Bool.eq_false_iff.mpr stays
      · rename_i none
        rw [first?_eq_none.mpr (pop?_eq_none.mp none)] at first
        cases first

/-! ## The order -/

structure Decides (before : κ → κ → Bool) (R : κ → κ → Prop) : Prop where
  of_true : ∀ {a b : κ}, before a b = true → R a b
  of_false : ∀ {a b : κ}, before a b = false → R b a
  trans : ∀ {a b c : κ}, R a b → R b c → R a c

theorem Decides.refl {R : κ → κ → Prop} (decides : Decides before R) (a : κ) : R a a := by
  cases test : before a a
  · exact decides.of_false test
  · exact decides.of_true test

/-- Things are compared by what a function makes of them. -/
theorem Decides.on {ι : Type} {R : κ → κ → Prop} (decides : Decides before R) (f : ι → κ) :
    Decides (fun a b => before (f a) (f b)) fun a b => R (f a) (f b) where
  of_true h := decides.of_true h
  of_false h := decides.of_false h
  trans := decides.trans

/-- Sizes are exact, and every key comes before the keys below it. -/
inductive Heaped (R : κ → κ → Prop) : PriorityQueue κ → Prop
  | empty : Heaped R empty
  | node {key : κ} {left right : PriorityQueue κ} : Heaped R left → Heaped R right →
      (∀ k ∈ left.toList, R key k) → (∀ k ∈ right.toList, R key k) →
      Heaped R (.node (left.size + right.size + 1) key left right)

variable {R : κ → κ → Prop} {a b : PriorityQueue κ}

theorem Heaped.size_eq (heaped : Heaped R q) : q.size = q.toList.length := by
  induction heaped with
  | empty => rfl
  | node _ _ _ _ left right =>
      rw [size, toList, List.length_cons, List.length_append, left, right]

theorem Heaped.first_before (heaped : Heaped R q) (first : q.first? = some key)
    (member : k ∈ q.toList) : k = key ∨ R key k := by
  cases heaped with
  | empty => cases first
  | node _ _ left right =>
      obtain rfl := Option.some.inj first
      rcases List.mem_cons.mp member with rfl | member
      · exact Or.inl rfl
      · rcases List.mem_append.mp member with member | member
        · exact Or.inr (left k member)
        · exact Or.inr (right k member)

theorem Heaped.join (ha : Heaped R a) (hb : Heaped R b) (above_a : ∀ k ∈ a.toList, R key k)
    (above_b : ∀ k ∈ b.toList, R key k) : Heaped R (join key a b) := by
  rw [PriorityQueue.join]
  split
  · exact .node ha hb above_a above_b
  · rw [Nat.add_comm a.size]
    exact .node hb ha above_b above_a

theorem Heaped.mergeInto (decides : Decides before R) {left right : PriorityQueue κ}
    {mergeRight : PriorityQueue κ → PriorityQueue κ} (hl : Heaped R left) (hr : Heaped R right)
    (above_l : ∀ k ∈ left.toList, R key k) (above_r : ∀ k ∈ right.toList, R key k)
    (merged : ∀ q, (mergeRight q).toList.Perm (right.toList ++ q.toList))
    (ordered : ∀ q, Heaped R q → Heaped R (mergeRight q)) : ∀ q, Heaped R q →
    Heaped R (mergeInto before (left.size + right.size + 1) key left right mergeRight q) := by
  intro q whole
  induction whole with
  | empty => exact .node hl hr above_l above_r
  | @node key' left' right' hl' hr' above_l' above_r' _ ih =>
      rw [PriorityQueue.mergeInto]
      split
      · rename_i first
        have earlier : R key' key := decides.of_true first
        refine .join hl' ih above_l' fun k hk => ?_
        rcases List.mem_append.mp ((toList_mergeInto merged right').mem_iff.mp hk) with hk | hk
        · rcases List.mem_cons.mp hk with rfl | hk
          · exact earlier
          · exact decides.trans earlier ((List.mem_append.mp hk).elim (above_l k) (above_r k))
        · exact above_r' k hk
      · rename_i first
        have earlier : R key key' := decides.of_false (Bool.eq_false_iff.mpr first)
        refine .join hl (ordered _ (.node hl' hr' above_l' above_r')) above_l fun k hk => ?_
        rcases List.mem_append.mp ((merged _).mem_iff.mp hk) with hk | hk
        · exact above_r k hk
        · rcases List.mem_cons.mp hk with rfl | hk
          · exact earlier
          · exact decides.trans earlier ((List.mem_append.mp hk).elim (above_l' k) (above_r' k))

theorem Heaped.merge (decides : Decides before R) (ha : Heaped R a) :
    ∀ b, Heaped R b → Heaped R (merge before a b) := by
  induction ha with
  | empty => exact fun b hb => hb
  | node hl hr above_l above_r _ ih =>
      exact Heaped.mergeInto decides hl hr above_l above_r (toList_merge _) ih

theorem Heaped.insert (decides : Decides before R) (heaped : Heaped R q) :
    Heaped R (q.insert before key) :=
  Heaped.merge decides (.node .empty .empty (by simp [toList]) (by simp [toList])) q heaped

theorem Heaped.ofList (decides : Decides before R) (keys : List κ) :
    Heaped R (ofList before keys) := by
  have all : ∀ (keys : List κ) (q : PriorityQueue κ), Heaped R q →
      Heaped R (keys.foldl (fun q key => q.insert before key) q) := by
    intro keys
    induction keys with
    | nil => exact fun q heaped => heaped
    | cons key keys ih => exact fun q heaped => ih _ (heaped.insert decides)
  exact all keys .empty .empty

theorem Heaped.pop? (decides : Decides before R) {rest : PriorityQueue κ} (heaped : Heaped R q)
    (popped : q.pop? before = some (key, rest)) : Heaped R rest := by
  cases heaped with
  | empty => cases popped
  | node hl hr _ _ =>
      obtain ⟨-, rfl⟩ := Prod.mk.inj (Option.some.inj popped)
      exact hl.merge decides _ hr

theorem Heaped.dropWhileFirst (decides : Decides before R) (drop : κ → Bool) :
    ∀ (n : Nat) {q : PriorityQueue κ}, Heaped R q →
      Heaped R (dropWhileFirst before drop n q) ∧
        (∀ k ∈ (dropWhileFirst before drop n q).toList, k ∈ q.toList) ∧
        ∀ k ∈ q.toList, drop k = false → k ∈ (dropWhileFirst before drop n q).toList := by
  intro n
  induction n with
  | zero =>
      intro q heaped
      exact ⟨heaped, fun k hk => hk, fun k hk _ => hk⟩
  | succ n ih =>
      intro q heaped
      rw [PriorityQueue.dropWhileFirst]
      split
      · rename_i key rest popped
        have parts := toList_pop? popped
        split
        · rename_i dropped
          obtain ⟨ordered, fewer, kept⟩ := ih (heaped.pop? decides popped)
          refine ⟨ordered, fun k hk => ?_, fun k hk passes => ?_⟩
          · exact parts.mem_iff.mpr (List.mem_cons_of_mem _ (fewer k hk))
          · rcases List.mem_cons.mp (parts.mem_iff.mp hk) with rfl | hk
            · rw [dropped] at passes
              cases passes
            · exact kept k hk passes
        · exact ⟨heaped, fun k hk => hk, fun k hk _ => hk⟩
      · exact ⟨heaped, fun k hk => hk, fun k hk _ => hk⟩

end BoxSearch.PriorityQueue
