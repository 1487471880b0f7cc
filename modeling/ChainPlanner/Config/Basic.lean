/-!
# ChainPlanner.Config.Basic

The settings of a planner and their limits.
-/

namespace ChainPlanner

/-- The settings of a planner; times are in milliseconds. -/
structure Config where
  /-- Between two looks at the task runtime. -/
  syncPeriod : UInt64
  /-- How many tasks of each worker may be published. -/
  publishWindow : UInt64
  /-- Whether publishing a task pins it. -/
  pinOnPublish : Bool
  /-- In whose name placements are stored. -/
  actingUser : String
  pageSize : UInt32
  /-- How long to wait for the loops to stop. -/
  shutdownTimeout : UInt64
  /-- How long the optimizer sleeps when it has nothing to do. -/
  optimizerIdleTimeout : UInt64
  deriving DecidableEq

/-- Why there are no valid settings. -/
inductive ConfigError where
  | unreadableFile
  | malformed
  /-- The synchronization period is too short. -/
  | shortPeriod (milliseconds : UInt64)
  | emptyWindow
  | emptyPage
  | namelessUser
  deriving DecidableEq

/-- What is wrong with the settings, in words; a file or text that cannot be read is described by
whoever failed to read it. -/
def ConfigError.message? : ConfigError → Option String
  | unreadableFile => none
  | malformed => none
  | shortPeriod ms =>
    some s!"invalid config: sync period must be greater than 5ms, got {ms.toNat}ms"
  | emptyWindow => some "invalid config: publish window must be at least 1"
  | emptyPage => some "invalid config: page size must be at least 1"
  | namelessUser => some "invalid config: acting user must not be empty"

namespace Config

/-- The settings where nothing else is said. -/
def default : Config where
  syncPeriod := 10000
  publishWindow := 4
  pinOnPublish := false
  actingUser := "planner"
  pageSize := 100000
  shutdownTimeout := 30000
  optimizerIdleTimeout := 250

/-- The limits, in the order in which they are checked. -/
def validate (c : Config) : Except ConfigError Unit :=
  if c.syncPeriod ≤ 5 then .error (.shortPeriod c.syncPeriod)
  else if c.publishWindow = 0 then .error .emptyWindow
  else if c.pageSize = 0 then .error .emptyPage
  else if c.actingUser = "" then .error .namelessUser
  else .ok ()

/-- Settings within the limits. -/
def checked (c : Config) : Except ConfigError Config := do
  c.validate
  return c

end Config

end ChainPlanner
