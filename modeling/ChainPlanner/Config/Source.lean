import ChainPlanner.Config.Basic
import ChainPlanner.Range
import ChainPlanner.Text.Blank
import ChainPlanner.Text.Decimal
import ChainPlanner.Toml.Document

/-!
# ChainPlanner.Config.Source

Where settings come from: the defaults, a TOML text over them, and the environment over both.  A
TOML text is refused if a setting has the wrong type; an environment variable that cannot be read
is ignored.
-/

namespace ChainPlanner.Config

open ChainPlanner.Text ChainPlanner.Toml

/-! ## TOML -/

/-- A number of 64 bits. -/
def long? : Node → Option UInt64
  | .scalar (.integer n) => uint64? n
  | _ => none

/-- A number of 32 bits. -/
def word? : Node → Option UInt32
  | .scalar (.integer n) => uint32? n
  | _ => none

/-- A truth value. -/
def truth? : Node → Option Bool
  | .scalar (.boolean b) => some b
  | _ => none

/-- A text. -/
def text? : Node → Option String
  | .scalar (.string s) => some s
  | _ => none

/-- What a table says about a setting, or the setting as it is. -/
def setting {α : Type} (t : Table) (key : String) (read : Node → Option α) (otherwise : α) :
    Option α :=
  match t.get? key with
  | none => some otherwise
  | some n => read n

/-- The settings that a table says, over given ones. -/
def overTable? (c : Config) (t : Table) : Option Config := do
  return {
    syncPeriod := ← setting t "sync_period_ms" long? c.syncPeriod
    publishWindow := ← setting t "publish_window" long? c.publishWindow
    pinOnPublish := ← setting t "pin_on_publish" truth? c.pinOnPublish
    actingUser := ← setting t "acting_user" text? c.actingUser
    pageSize := ← setting t "page_size" word? c.pageSize
    shutdownTimeout := ← setting t "shutdown_timeout_ms" long? c.shutdownTimeout
    optimizerIdleTimeout := ← setting t "optimizer_idle_timeout_ms" long? c.optimizerIdleTimeout }

/-- The settings of a TOML text, unchecked. -/
def parse (text : String) : Except ConfigError Config :=
  match (Toml.parse? text).bind (overTable? default) with
  | some c => .ok c
  | none => .error .malformed

/-- The settings of a TOML text. -/
def ofToml (text : String) : Except ConfigError Config := do
  (← parse text).checked

/-! ## environment -/

/-- Variables by name. -/
abbrev Environment := List (String × String)

/-- A variable that holds a number between blanks. -/
def number? (env : Environment) (name : String) : Option Nat :=
  (env.lookup name).bind fun s => Decimal.readUnsigned? (trim s.toList)

/-- A variable that holds a number of 64 bits. -/
def longVariable? (env : Environment) (name : String) : Option UInt64 :=
  (number? env name).bind fun n => uint64? n

/-- A variable that holds a number of 32 bits. -/
def wordVariable? (env : Environment) (name : String) : Option UInt32 :=
  (number? env name).bind fun n => uint32? n

/-- A variable that holds one of the words for yes and no, in any case, between blanks. -/
def truthVariable? (env : Environment) (name : String) : Option Bool :=
  (env.lookup name).bind fun s =>
    match String.ofList ((trim s.toList).map Char.toLower) with
    | "1" | "true" | "yes" => some true
    | "0" | "false" | "no" => some false
    | _ => none

/-- A variable that is not empty. -/
def textVariable? (env : Environment) (name : String) : Option String :=
  (env.lookup name).filter (· ≠ "")

/-- The settings that the environment says, over given ones. -/
def overEnvironment (c : Config) (env : Environment) : Config :=
  { c with
    syncPeriod := (longVariable? env "TA_SYNC_PERIOD_MS").getD c.syncPeriod
    publishWindow := (longVariable? env "TA_PUBLISH_WINDOW").getD c.publishWindow
    pinOnPublish := (truthVariable? env "TA_PIN_ON_PUBLISH").getD c.pinOnPublish
    actingUser := (textVariable? env "TA_ACTING_USER").getD c.actingUser
    pageSize := (wordVariable? env "TA_PAGE_SIZE").getD c.pageSize
    shutdownTimeout := (longVariable? env "TA_SHUTDOWN_TIMEOUT_MS").getD c.shutdownTimeout }

/-- The settings of the environment. -/
def ofEnvironment (env : Environment) : Except ConfigError Config :=
  (default.overEnvironment env).checked

/-- The settings of a file, given its text if it can be read, and of the environment. -/
def ofFile (text : Option String) (env : Environment) : Except ConfigError Config := do
  match text with
  | none => throw .unreadableFile
  | some text => ((← parse text).overEnvironment env).checked

end ChainPlanner.Config
