import ListQuery.Builder.Basic

/-!
# Builders that measure their queries

* `Builder.metered`   queries with the time they took; a failed query is not measured.
-/

namespace ListQuery

namespace Builder

variable {S : Type}

/-- milliseconds between two times in seconds -/
def elapsed (start stop : Binary64) : Binary64 := (stop.sub start).mul (.ofRatio false 1000 1)

/-- `clock` tells the time in seconds; `record` is told of the request, the milliseconds and the
number of matching rows -/
def metered (clock : S → Binary64) (record : Request → Value → Value → Action S QueryMetrics)
    (b : Builder S) : Builder S :=
  { b with
    prepare := fun r maxLimit => do
      let start := clock (← Action.read)
      (← b.prepare r maxLimit).andThen fun response => do
        let stop := clock (← Action.read)
        let metrics ← record r (.float (elapsed start stop)) (.int response.counts.total)
        return { response with metrics := some metrics } }

end Builder

end ListQuery
