import Mathlib.Logic.Function.Basic

/-!
# Identifiers, clocks and money

Identifiers are prefixed ULIDs: the services only compare them, so they are
modelled by their number. Clock readings are microseconds.
-/

namespace Souq

abbrev ID := Nat

abbrev Time := Nat

/-- Minor units and an ISO-4217 code. -/
structure Money where
  amount : Int
  currency : String
  deriving DecidableEq

end Souq
