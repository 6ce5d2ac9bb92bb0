import ListQuery.Builder.Basic
import ListQuery.Webhook.Payload

/-!
# Builders that tell a webhook

* `Builder.notifying`   queries whose answers are told, without waiting for the delivery.
-/

namespace ListQuery

namespace Builder

variable {S : Type}

/-- `schedule` takes what is to be told of an answer given at `now` -/
def notifying (now : Instant) (schedule : Payload → Action S Unit) (withRequest : Bool)
    (b : Builder S) : Builder S :=
  { b with
    prepare := fun r maxLimit => do
      (← b.prepare r maxLimit).andThen fun response => do
        let request ← if withRequest then some <$> r.toRecord else pure none
        schedule ⟨response.data, Value.ofPageMeta response.counts, now, request⟩
        return response }

end Builder

end ListQuery
