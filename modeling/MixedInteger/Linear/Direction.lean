/-!
# The direction of an objective

## What is here

* `Direction`: whether an objective is minimized or maximized.
-/

set_option autoImplicit false

namespace MixedInteger

/-- Whether an objective is minimized or maximized. -/
inductive Direction where
  /-- The least value is sought. -/
  | minimize
  /-- The greatest value is sought. -/
  | maximize
  deriving DecidableEq, Repr

/-- The name of a direction. -/
def Direction.tag : Direction → String
  | .minimize => "minimize"
  | .maximize => "maximize"

end MixedInteger
