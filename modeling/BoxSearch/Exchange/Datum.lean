import BoxSearch.Report.Optimizer

/-!
# Structured data

Problems, contractors and searches are described to the library as trees of plain data, and its
answers are such trees again. Reading a tree may find it malformed, and what it describes may
have no answer; either is a refusal, which is written as a tree as well.
-/
set_option autoImplicit false

namespace BoxSearch

inductive Datum where
  | null
  | bool (b : Bool)
  /-- `mantissa / 10 ^ places`. -/
  | number (mantissa : Int) (places : Nat)
  | real (x : Float)
  | text (s : String)
  | list (items : List Datum)
  | record (fields : List (String × Datum))
deriving Inhabited

inductive Refusal where
  /-- The tree does not describe what it should. -/
  | malformed (expected : String)
  /-- The described call has no result. -/
  | fault (f : Fault Float)
  | error (kind message : String)

abbrev Reading (β : Type) := Except Refusal β

class FromDatum (β : Type) where
  read : Datum → Reading β

class ToDatum (β : Type) where
  datum : β → Datum

export FromDatum (read)
export ToDatum (datum)

namespace Refusal

def isError : Refusal → Bool
  | error _ _ => true
  | malformed _ | fault _ => false

def toDatum : Refusal → Datum
  | malformed expected => .record [("error", .text "Malformed"), ("message", .text expected)]
  | fault f =>
    match f.message with
    | some m => .record [("error", .text "Panic"), ("message", .text m)]
    | none => .record [("error", .text "Panic")]
  | error kind message => .record [("error", .text kind), ("message", .text message)]

def ofModel (e : ModelError) : Refusal :=
  match e with
  | .functionArity _ _ => .error "DimensionMismatch" e.message
  | .domainDimension _ _ => .error "DomainMismatch" e.message

def ofLp (e : LpError) : Refusal :=
  match e with
  | .rowLength _ _ => .error "DimensionMismatch" e.message
  | .columnPosition _ _ | .rowPosition _ _ => .error "IndexOutOfBounds" e.message
  | .solver _ => .error "Backend" e.message

def ofBuffer (e : BufferError) : Refusal :=
  match e with
  | .underflow => .error "Underflow" e.message
  | .overflow _ => .error "Overflow" e.message

def ofAgreement (e : AgreementError) : Refusal :=
  match e with
  | .zero => .error "ZeroQ" e.message
  | .tooMany _ _ => .error "QTooLarge" e.message
  | .dimension _ _ _ => .error "DimensionMismatch" e.message

def ofOptimizer (e : OptimizerError) : Refusal :=
  match e with
  | .missingObjective => .error "MissingObjective" e.message
  | .missingDomain => .error "MissingDomain" e.message
  | .percentage _ => .error "InvalidCritpr" e.message
  | .model _ => .error "Model" e.message
  | .buffer _ => .error "Buffer" e.message
  | .lp _ => .error "Lp" e.message

def emptyBox : Refusal := .error "EmptyBox" "the box contains no solution"

def unavailable : Refusal := .error "Unavailable" "the contractor is unavailable on this box"

end Refusal

instance : MonadLift (Except (Fault Float)) (Except Refusal) := ⟨fun r => r.mapError .fault⟩
instance : MonadLift (Except ModelError) (Except Refusal) := ⟨fun r => r.mapError .ofModel⟩
instance : MonadLift (Except LpError) (Except Refusal) := ⟨fun r => r.mapError .ofLp⟩
instance : MonadLift (Except BufferError) (Except Refusal) := ⟨fun r => r.mapError .ofBuffer⟩
instance : MonadLift (Except AgreementError) (Except Refusal) :=
  ⟨fun r => r.mapError .ofAgreement⟩
instance : MonadLift (Except OptimizerError) (Except Refusal) :=
  ⟨fun r => r.mapError .ofOptimizer⟩

namespace Datum

def field? (d : Datum) (key : String) : Option Datum :=
  match d with
  | record fields =>
    match fields.lookup key with
    | some null => none
    | other => other
  | _ => none

def get {β : Type} [FromDatum β] (d : Datum) (key : String) : Reading β :=
  read ((d.field? key).getD null)

def getD {β : Type} [FromDatum β] (d : Datum) (key : String) (default : β) : Reading β :=
  match d.field? key with
  | some v => read v
  | none => .ok default

def ofReading (r : Reading Datum) : Datum :=
  match r with
  | .ok d => d
  | .error e => e.toDatum

end Datum

/-! ## Plain values -/

instance : FromDatum Datum := ⟨.ok⟩
instance : ToDatum Datum := ⟨id⟩

instance : FromDatum Bool where
  read
    | .bool b => .ok b
    | _ => .error (.malformed "a truth value")

instance : ToDatum Bool := ⟨.bool⟩

instance : FromDatum String where
  read
    | .text s => .ok s
    | _ => .error (.malformed "a text")

instance : ToDatum String := ⟨.text⟩

instance : FromDatum Nat where
  read
    | .number n 0 => if n < 0 then .error (.malformed "a natural number") else .ok n.toNat
    | _ => .error (.malformed "a natural number")

instance : ToDatum Nat := ⟨fun n => .number (Int.ofNat n) 0⟩

instance : FromDatum UInt64 where
  read d := return (← (read d : Reading Nat)).toUInt64

instance : ToDatum Float := ⟨.real⟩

instance {β : Type} [FromDatum β] : FromDatum (Option β) where
  read
    | .null => .ok none
    | d => return some (← read d)

instance {β : Type} [ToDatum β] : ToDatum (Option β) where
  datum
    | none => .null
    | some x => datum x

def Datum.items : Datum → Reading (List Datum)
  | .list items => .ok items
  | _ => .error (.malformed "a list")

instance {β : Type} [FromDatum β] : FromDatum (List β) where
  read d := do (← d.items).mapM read

instance {β : Type} [ToDatum β] : ToDatum (List β) := ⟨fun xs => .list (xs.map datum)⟩

instance {β γ : Type} [FromDatum β] [FromDatum γ] : FromDatum (β × γ) where
  read
    | .list [x, y] => return (← read x, ← read y)
    | _ => .error (.malformed "a pair")

instance {β γ : Type} [ToDatum β] [ToDatum γ] : ToDatum (β × γ) :=
  ⟨fun p => .list [datum p.1, datum p.2]⟩

/-! ## Calls -/

structure Call where
  name : String
  args : List Datum

instance : FromDatum Call where
  read
    | .list (.text name :: args) => .ok ⟨name, args⟩
    | _ => .error (.malformed "a call")

namespace Call

def get {β : Type} [FromDatum β] (c : Call) (i : Nat) : Reading β := read (c.args.getD i .null)

def getD {β : Type} [FromDatum β] (c : Call) (i : Nat) (default : β) : Reading β :=
  match c.args.getD i .null with
  | .null => .ok default
  | d => read d

def unknown {β : Type} (c : Call) : Reading β :=
  .error (.malformed ("an operation, not " ++ c.name))

def answerAll (answer : Call → Reading Datum) (calls : List Datum) : Datum :=
  .list (calls.map fun d => .ofReading do answer (← read d))

/-- The answers of calls in turn on an object, with the object after them. An error leaves the
object as it was; any other refusal ends the list. -/
def answerInTurn {σ : Type} (step : σ → Call → Reading (Datum × σ)) :
    σ → List Datum → List Datum × σ
  | s, [] => ([], s)
  | s, d :: rest =>
    match (do step s (← read d) : Reading (Datum × σ)) with
    | .ok (answer, s) =>
      let (answers, s) := answerInTurn step s rest
      (answer :: answers, s)
    | .error e =>
      if e.isError then
        let (answers, s) := answerInTurn step s rest
        (e.toDatum :: answers, s)
      else ([e.toDatum], s)

end Call

end BoxSearch
