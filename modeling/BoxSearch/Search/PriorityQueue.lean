/-!
# Priority queues

A queue is a binary tree in which no key comes before the key above it, so that the first key is
at the root. Every left subtree holds at least as many keys as the right one beside it, which
keeps the path along right subtrees short; two queues are merged along these paths.
-/
set_option autoImplicit false

namespace BoxSearch

inductive PriorityQueue (κ : Type) where
  | empty
  | node (size : Nat) (key : κ) (left right : PriorityQueue κ)

namespace PriorityQueue
variable {κ : Type}

def size : PriorityQueue κ → Nat
  | empty => 0
  | node n _ _ _ => n

def join (key : κ) (a b : PriorityQueue κ) : PriorityQueue κ :=
  if b.size ≤ a.size then node (a.size + b.size + 1) key a b
  else node (a.size + b.size + 1) key b a

def mergeInto (before : κ → κ → Bool) (n : Nat) (key : κ) (left right : PriorityQueue κ)
    (mergeRight : PriorityQueue κ → PriorityQueue κ) : PriorityQueue κ → PriorityQueue κ
  | empty => node n key left right
  | node m key' left' right' =>
    if before key' key then
      join key' left' (mergeInto before n key left right mergeRight right')
    else join key left (mergeRight (node m key' left' right'))

def merge (before : κ → κ → Bool) : PriorityQueue κ → PriorityQueue κ → PriorityQueue κ
  | empty => fun b => b
  | node n key left right => mergeInto before n key left right (merge before right)

def insert (before : κ → κ → Bool) (key : κ) (q : PriorityQueue κ) : PriorityQueue κ :=
  merge before (node 1 key empty empty) q

def first? : PriorityQueue κ → Option κ
  | empty => none
  | node _ key _ _ => some key

def pop? (before : κ → κ → Bool) : PriorityQueue κ → Option (κ × PriorityQueue κ)
  | empty => none
  | node _ key left right => some (key, merge before left right)

def toList : PriorityQueue κ → List κ
  | empty => []
  | node _ key left right => key :: (left.toList ++ right.toList)

def ofList (before : κ → κ → Bool) (keys : List κ) : PriorityQueue κ :=
  keys.foldl (fun q key => q.insert before key) empty

def dropWhileFirst (before : κ → κ → Bool) (drop : κ → Bool) :
    Nat → PriorityQueue κ → PriorityQueue κ
  | 0, q => q
  | n + 1, q =>
    match q.pop? before with
    | some (key, rest) => if drop key then dropWhileFirst before drop n rest else q
    | none => q

end PriorityQueue

end BoxSearch
