import Arcxa.Lib.BTreeMap

/-!
# Lineage events in the storage tiers
-/

namespace Arcxa.Tiering

/-- A time of the clock, in nanoseconds since 1970. -/
abbrev Time := Int

/-- `DateTime::timestamp`: whole seconds, rounded down. -/
def seconds (ts : Time) : Int := ts / 10 ^ 9

def dayOf (ts : Time) : Int := ts / (86400 * 10 ^ 9)

theorem dayOf_mono {s t : Time} (h : s ≤ t) : dayOf s ≤ dayOf t := Int.ediv_le_ediv (by decide) h

/-- A lineage event: what the tiers read of it, and the rest of its data. The id is the text of a
UUID. -/
structure LineageEvent (P : Type) where
  id : String
  recordId : String
  runId : String
  tenantId : String
  modelRefs : List (String × String)
  ts : Time
  payload : P
  deriving DecidableEq

end Arcxa.Tiering
