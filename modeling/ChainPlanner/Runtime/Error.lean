/-!
# ChainPlanner.Runtime.Error

Why the task runtime or the directory gives no answer.
-/

namespace ChainPlanner

/-- A failed call of the task runtime. -/
inductive RuntimeError where
  | fetch (reason : String)
  | apply (reason : String)
  | unavailable (reason : String)
  deriving DecidableEq

/-- What is wrong, in words. -/
def RuntimeError.message : RuntimeError → String
  | fetch reason => s!"task query failed: {reason}"
  | apply reason => s!"applying planning failed: {reason}"
  | unavailable reason => s!"task runtime unavailable: {reason}"

/-- A failed look into the directory. -/
inductive DirectoryError where
  | lookup (reason : String)
  deriving DecidableEq

/-- What is wrong, in words. -/
def DirectoryError.message : DirectoryError → String
  | lookup reason => s!"user lookup failed: {reason}"

end ChainPlanner
