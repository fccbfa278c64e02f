import BoxSearch.Binary64.Directed
import BoxSearch.Journal
import BoxSearch.Text.Number
import BoxSearch.Text.Record

/-!
# Monitors

Limits, progress reports and recordings of a search.
-/
set_option autoImplicit false

namespace BoxSearch

structure Stopwatch where
  /-- The clock at the start of the run, while there is one. -/
  start : Option Nat
  iterations : Nat

structure ReportTimes where
  start : Nat
  last : Nat

inductive Monitor where
  | idle
  | iterationLimit (limit : Nat)
  /-- Stops after a time in nanoseconds, looking at the clock every `interval` iterations. -/
  | timeLimit (limit interval : Nat) (watch : Stopwatch)
  | interrupt (flag : Bool)
  /-- Writes a line every `interval` nanoseconds, looking at the clock in iterations whose number
  has no bit in common with the mask. -/
  | report (interval mask : Nat) (times : ReportTimes)
  | recorder (limit : Nat)
  | sleeper (duration : Nat)
  /-- Passes everything on; the first member with a reason to stop decides. -/
  | all (members : List Monitor)

namespace Monitor

def ofTimeLimit (limit interval : Nat) : Monitor :=
  .timeLimit limit (if interval = 0 then 1 else interval) ⟨none, 0⟩

def standardInterval : Nat := 64

def ofReport (interval mask : Nat) : Monitor := .report interval mask ⟨0, 0⟩

def name : Monitor → String
  | idle => "NoOpMonitor"
  | iterationLimit _ => "IterationLimitMonitor"
  | timeLimit _ _ _ => "TimeLimitMonitor"
  | interrupt _ => "InterruptMonitor"
  | report _ _ _ => "LogMonitor"
  | recorder _ => "Recorder"
  | sleeper _ => "Sleeper"
  | all _ => "CompositeMonitor"

def nanosPerSecond : Nat := 1000000000

/-! ## Progress reports -/

def elapsedText (nanoseconds : Nat) : String :=
  Text.places (Text.roundDiv (nanoseconds * 10) nanosPerSecond) 1 ++ "s"

def tableRow (elapsed iterations uplo loup buffer discarded : String) : String :=
  String.intercalate " | "
    [Text.padRight 9 elapsed, Text.padRight 12 iterations, Text.padRight 23 uplo,
      Text.padRight 23 loup, Text.padRight 10 buffer, Text.padRight 10 discarded]

def ruleLine : String := Text.rule 100

def progressLine (elapsed : Nat) (p : SearchProgress Float) (s : Statistics) : String :=
  tableRow (elapsedText elapsed) (toString s.iterations) (Text.scientific.write p.uplo)
    (Text.scientific.write p.loup) (toString p.bufferSize) (toString s.discarded)

def incumbentLine (elapsed : Nat) (loup : Float) (s : Statistics) : String :=
  Text.padRight 9 (elapsedText elapsed) ++ " | new loup " ++ Text.scientific.write loup ++
    " at iteration " ++ toString s.iterations

def observeReport (interval mask : Nat) (times : ReportTimes) (e : SearchEvent Float)
    (s : Statistics) : StateM (Journal Float) ReportTimes := do
  match e with
  | .entered _ =>
    let now ← Journal.readClock
    modify (Journal.addLine (tableRow "Elapsed" "Iterations" "Uplo" "Loup" "Buffer" "Discarded"))
    modify (Journal.addLine ruleLine)
    return ⟨now, now⟩
  | .exited =>
    modify (Journal.addLine ruleLine)
    modify (Journal.addLine
      ("Search finished after " ++ toString s.iterations ++ " iterations."))
    return times
  | .stepped p =>
    if s.iterations &&& mask = 0 then
      let now ← Journal.readClock
      if interval ≤ now - times.last then
        modify (Journal.addLine (progressLine (now - times.start) p s))
        return { times with last := now }
      else return times
    else return times
  | .pruned _ _ => return times
  | .improved loup _ =>
    let now ← Journal.readClock
    modify (Journal.addLine (incumbentLine (now - times.start) loup s))
    return times

/-! ## Time limits -/

def secondsText (nanoseconds : Nat) : String :=
  let seconds := Float.ofNat (nanoseconds / nanosPerSecond) +
    Float.ofNat (nanoseconds % nanosPerSecond) / Float.ofNat nanosPerSecond
  Text.fixed 3 seconds

def commandTimeLimit (limit interval : Nat) (watch : Stopwatch) :
    StateM (Journal Float) (Option String × Stopwatch) := do
  let iterations := saturatingAdd watch.iterations 1
  if iterations < interval then return (none, { watch with iterations })
  let watch := { watch with iterations := 0 }
  match watch.start with
  | none => return (none, watch)
  | some start =>
    let now ← Journal.readClock
    if limit < now - start then
      return (some ("Time limit of " ++ secondsText limit ++ "s exceeded"), watch)
    return (none, watch)

mutual

def observe (e : SearchEvent Float) (s : Statistics) : Monitor → StateM (Journal Float) Monitor
  | timeLimit limit interval watch => do
    match e with
    | .entered _ => return .timeLimit limit interval ⟨some (← Journal.readClock), 0⟩
    | .exited => return .timeLimit limit interval { watch with start := none }
    | _ => return .timeLimit limit interval watch
  | report interval mask times =>
    return .report interval mask (← observeReport interval mask times e s)
  | recorder limit => do
    if (← get).notes.length < limit then modify (Journal.addNote (.event e s))
    return .recorder limit
  | sleeper duration => do
    match e with
    | .stepped _ => modify (Journal.wait duration)
    | _ => pure ()
    return .sleeper duration
  | all members => return .all (← observeAll e s members)
  | m => return m

def observeAll (e : SearchEvent Float) (s : Statistics) :
    List Monitor → StateM (Journal Float) (List Monitor)
  | [] => return []
  | m :: ms => do
    let m ← m.observe e s
    return m :: (← observeAll e s ms)

end

mutual

def command (p : SearchProgress Float) (s : Statistics) :
    Monitor → StateM (Journal Float) (Option String × Monitor)
  | iterationLimit limit =>
    return (if limit ≤ s.iterations then
        some ("Iteration limit of " ++ toString limit ++ " reached")
      else none, .iterationLimit limit)
  | timeLimit limit interval watch => do
    let (reason, watch) ← commandTimeLimit limit interval watch
    return (reason, .timeLimit limit interval watch)
  | interrupt flag => return (if flag then some "Interrupted" else none, .interrupt flag)
  | all members => do
    let (reason, members) ← commandAll p s members
    return (reason, .all members)
  | m => return (none, m)

def commandAll (p : SearchProgress Float) (s : Statistics) :
    List Monitor → StateM (Journal Float) (Option String × List Monitor)
  | [] => return (none, [])
  | m :: ms => do
    match ← m.command p s with
    | (some reason, m) => return (some reason, m :: ms)
    | (none, m) =>
      let (reason, ms) ← commandAll p s ms
      return (reason, m :: ms)

end

instance : SearchMonitor Monitor Float where
  name := name
  observe := observe
  command := command

end Monitor

end BoxSearch
