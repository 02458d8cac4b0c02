import UsageOrder.Json.Order
import UsageOrder.Name

/-!
# Ranks

A name ranks by the place of its first use.  A rank is a value: the offset of the use, or infinity
for a name that is never used.  Ranks are compared as values are, so a table whose ranks cannot be
compared with each other ranks nothing.
-/

namespace UsageOrder

/-- A rank. -/
structure Rank where
  value : Json

namespace Rank

/-- The rank of a name that is never used. -/
def infinite : Rank := ⟨.real (.infinite false)⟩

/-- The rank of a name by the offset of its first use. -/
def ofUse : Option Int → Rank
  | some offset => ⟨.int offset⟩
  | none => infinite

/-- The rank that a value stands for: null is infinite. -/
def ofJson : Json → Rank
  | .null => infinite
  | value => ⟨value⟩

/-- Whether a rank does not come after another one. -/
def le (a b : Rank) : Bool := a.value.notGreater b.value

end Rank

/-- The ranks of names. -/
abbrev Ranks := List (Name × Rank)

namespace Ranks

/-- The rank of a name; a name without one counts as never used. -/
def of (ranks : Ranks) (name : Name) : Rank := (ranks.lookup name).getD .infinite

/-- The rank of a name that has to have one. -/
def require (ranks : Ranks) (name : Name) : Except Fault Rank := do
  match ranks.lookup (← name.usable) with
  | some rank => .ok rank
  | none => .error .missingKey

end Ranks
end UsageOrder
