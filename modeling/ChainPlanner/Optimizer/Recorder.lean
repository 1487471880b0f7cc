import ChainPlanner.Optimizer.Driver

/-!
# ChainPlanner.Optimizer.Recorder

An optimizer that only records how it is used, and a driver with such an optimizer and any number
of loops.  What it reports is for others to say (`Session.emit`).
-/

namespace ChainPlanner

/-- How solving goes. -/
inductive Temper where
  /-- It lasts until the optimizer is asked to stop. -/
  | obedient
  /-- It never ends. -/
  | stubborn
  /-- It breaks off at once. -/
  | failing
  deriving DecidableEq

/-- An optimizer that records its use. -/
structure Recorder where
  temper : Temper
  batches : List Batch
  /-- How often it was asked to stop. -/
  terminations : Nat
  /-- How often it began to solve. -/
  solves : Nat
  /-- The solution it last began from. -/
  initial : Option Solution

namespace Recorder

/-- An optimizer that nobody has used. -/
def fresh (temper : Temper) : Recorder := ⟨temper, [], 0, 0, none⟩

/-- Whether somebody listens to it: it got its listener when it began to solve. -/
def hasListener (r : Recorder) : Bool := 0 < r.solves

/-- It takes a batch. -/
def submit (r : Recorder) (batch : Batch) : Recorder := { r with batches := r.batches ++ [batch] }

/-- It is asked to stop. -/
def terminate (r : Recorder) : Recorder := { r with terminations := r.terminations + 1 }

/-- It begins to solve; the answer is whether that lasts. -/
def solve (r : Recorder) (initial : Solution) : Bool × Recorder :=
  let lasts := match r.temper with
    | .obedient => r.terminations = 0
    | .stubborn => true
    | .failing => false
  (lasts, { r with solves := r.solves + 1, initial := some initial })

end Recorder

/-- A driver, its optimizer, and its loops. -/
structure Session where
  driver : Driver
  optimizer : Recorder
  /-- Loops that wait for a permit. -/
  waiting : Nat
  /-- Loops in which the optimizer solves. -/
  solving : Nat
  /-- Loops that have ended. -/
  finished : Nat
  /-- The reports passed on so far. -/
  events : List BestSolution

namespace Session

/-- No loop and no use of the optimizer yet. -/
def ofDriver (driver : Driver) (optimizer : Recorder) : Session :=
  ⟨driver, optimizer, 0, 0, 0, []⟩

/-- One loop, already counted out of the waiting ones, goes on with what it is given. -/
def proceed (s : Session) : Release → Session
  | .quit => { s with finished := s.finished + 1 }
  | .solve initial =>
    let (lasts, optimizer) := s.optimizer.solve initial
    if lasts then { s with optimizer, solving := s.solving + 1 }
    else { s with optimizer, finished := s.finished + 1 }

/-- Let waiting loops take permits, at most `count` of them. -/
def settleLoops (s : Session) : (count : Nat) → Session
  | 0 => s
  | count + 1 => match s.driver.release? with
    | none => s
    | some (release, driver) =>
      ({ s with driver, waiting := s.waiting - 1 }.proceed release).settleLoops count

/-- Let every waiting loop take a permit, as far as there are any. -/
def settle (s : Session) : Session := s.settleLoops s.waiting

/-- Build the optimizer. -/
def init (s : Session) (failure : Option String) : Except DriverError Unit × Session :=
  let (answer, driver) := s.driver.init failure
  (answer, { s with driver })

/-- Start from a solution. -/
def start (s : Session) (initial : Solution) : Except DriverError Unit × Session :=
  match s.driver.start initial with
  | (.ok (), driver) => (.ok (), { s with driver }.settle)
  | (.error e, driver) => (.error e, { s with driver })

/-- Submit a batch. -/
def submit (s : Session) (batch : Batch) : Except DriverError Unit × Session :=
  match s.driver.submit with
  | .ok () => (.ok (), { s with optimizer := s.optimizer.submit batch })
  | .error e => (.error e, s)

/-- Run one more loop. -/
def run (s : Session) : Session := { s with waiting := s.waiting + 1 }.settle

/-- The optimizer is asked to stop; an obedient one does. -/
def terminate (s : Session) : Session :=
  let s := { s with optimizer := s.optimizer.terminate }
  match s.optimizer.temper with
  | .obedient => { s with finished := s.finished + s.solving, solving := 0 }
  | _ => s

/-- Destroy the driver. -/
def destroy (s : Session) : Session :=
  let (stop, driver) := s.driver.destroy
  let s := { s with driver }
  (if stop then s.terminate else s).settle

/-- The optimizer reports, if anybody listens to it; the answer is whether somebody does. -/
def emit (s : Session) (event : BestSolution) : Bool × Session :=
  if s.optimizer.hasListener then
    (true, if s.driver.forwards then { s with events := s.events ++ [event] } else s)
  else (false, s)

end Session

end ChainPlanner
