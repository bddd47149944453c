import MixedInteger.Value.Basic

/-!
# Decision variables

## What is here

* `Variable.isInteger`: whether a variable takes integer values only.
* `Variable.isBinary`: whether a variable takes the values zero and one only.
-/

set_option autoImplicit false

namespace MixedInteger

namespace Variable

variable {K : Type}

/-- Whether the variable takes integer values only. -/
def isInteger (v : Variable K) : Bool := v.domain ≠ .continuous

/-- Whether the variable takes the values zero and one only. -/
def isBinary [Arithmetic K] (v : Variable K) : Bool :=
  match v.domain with
  | .binary => true
  | .integer => Arithmetic.eq v.lower Arithmetic.zero && Arithmetic.eq v.upper Arithmetic.one
  | .continuous => false

end Variable

end MixedInteger
