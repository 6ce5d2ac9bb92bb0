import ListQuery.Builder.Basic
import ListQuery.Collection.Store

/-!
# Executors over collections in memory

* `Executor.ofStore`   plans carried out on the collections that are part of a state.
-/

namespace ListQuery

def Executor.ofStore {S : Type} (store : S → Store) : Executor S where
  find p := do (store (← Action.read)).find p
  count p := do (store (← Action.read)).count p
  aggregate p := do (store (← Action.read)).aggregate p
  groupBy g := do (store (← Action.read)).groupBy g

end ListQuery
