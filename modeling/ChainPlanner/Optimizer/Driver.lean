import ChainPlanner.Optimizer.Basic

/-!
# ChainPlanner.Optimizer.Driver

The life of an optimizer: created, initialized, started, destroyed.

The loop that lets the optimizer solve waits for a permit.  Starting gives one permit, and so does
destroying a driver that has not been started, so that the loop does not wait for ever; an
optimizer that is running is asked to stop instead.

A call answers with the driver as it then stands, whether the answer is an error or not.
-/

namespace ChainPlanner

/-- The stages of life. -/
inductive DriverState where
  | created | initialized | started | destroyed
  deriving DecidableEq

/-- The name of a stage. -/
def DriverState.text : DriverState → String
  | created => "created"
  | initialized => "initialized"
  | started => "started"
  | destroyed => "destroyed"

/-- Calls at the wrong stage, and an optimizer that cannot be built. -/
inductive DriverError where
  | alreadyInitialized (state : DriverState)
  | notInitialized
  | alreadyStarted
  | notStarted
  | destroyed
  | optimizer (reason : String)
  deriving DecidableEq

/-- What is wrong, in words. -/
def DriverError.message : DriverError → String
  | alreadyInitialized state =>
    s!"optimizer driver cannot be initialized while {state.text}"
  | notInitialized => "optimizer driver must be initialized before it is started"
  | alreadyStarted => "optimizer driver was already started"
  | notStarted => "optimizer driver is not started"
  | destroyed => "optimizer driver was destroyed"
  | optimizer reason => s!"failed to build optimizer: {reason}"

/-- An optimizer's stage of life and what is kept for the loop. -/
structure Driver where
  state : DriverState
  /-- Whether the optimizer has been built. -/
  built : Bool
  /-- The solution to start from, until the loop takes it. -/
  initial : Option Solution
  permits : Nat

/-- What a loop does with a permit. -/
inductive Release where
  /-- It ends. -/
  | quit
  /-- It lets the optimizer solve from a solution. -/
  | solve (initial : Solution)

namespace Driver

/-- A driver without an optimizer. -/
def created : Driver := ⟨.created, false, none, 0⟩

/-- A driver with a ready-made optimizer. -/
def withOptimizer : Driver := ⟨.initialized, true, none, 0⟩

/-- Whether the optimizer has been started and not destroyed. -/
def isStarted (d : Driver) : Bool := d.state = .started

/-- Whether the driver has been destroyed. -/
def isDestroyed (d : Driver) : Bool := d.state = .destroyed

/-- Build the optimizer, which fails for a given reason or not. -/
def init (d : Driver) (failure : Option String) : Except DriverError Unit × Driver :=
  if d.state ≠ .created then (.error (.alreadyInitialized d.state), d)
  else match failure with
    | some reason => (.error (.optimizer reason), d)
    | none => (.ok (), { d with state := .initialized, built := true })

/-- Hand over the solution to start from, and give the loop its permit. -/
def start (d : Driver) (initial : Solution) : Except DriverError Unit × Driver :=
  match d.state with
  | .initialized =>
    (.ok (), { d with state := .started, initial := some initial, permits := d.permits + 1 })
  | .created => (.error .notInitialized, d)
  | .started => (.error .alreadyStarted, d)
  | .destroyed => (.error .destroyed, d)

/-- Whether a batch reaches the optimizer; the driver is only looked at. -/
def submit (d : Driver) : Except DriverError Unit :=
  match d.state with
  | .started => if d.built then .ok () else .error .notInitialized
  | .destroyed => .error .destroyed
  | .created | .initialized => .error .notStarted

/-- Destroy the driver; the answer is whether the optimizer is asked to stop. -/
def destroy (d : Driver) : Bool × Driver :=
  match d.state with
  | .destroyed => (false, d)
  | .started => (d.built, { d with state := .destroyed })
  | .created | .initialized =>
    (false, { d with state := .destroyed, permits := d.permits + 1 })

/-- A loop takes a permit, if there is one. -/
def release? (d : Driver) : Option (Release × Driver) :=
  match d.permits with
  | 0 => none
  | permits + 1 =>
    let d := { d with permits }
    if d.isDestroyed then some (.quit, d)
    else match d.initial with
      | none => some (.quit, d)
      | some s =>
        let d := { d with initial := none }
        some (if d.built then .solve s else .quit, d)

/-- Whether a report of the optimizer is passed on. -/
def forwards (d : Driver) : Bool := !d.isDestroyed

end Driver

end ChainPlanner
