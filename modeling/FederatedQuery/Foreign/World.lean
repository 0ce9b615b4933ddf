import FederatedQuery.Plan.Table

/-!
The state that executions change: the rows held in process, the open sessions, and the systems outside.
-/
namespace FederatedQuery.Foreign

structure Session where
  transaction : Nat
  adapter : String
  id : Nat
deriving DecidableEq

structure World (σ : Type) where
  store : Store
  sessions : List Session
  /-- How many templates of pipelines have been bound. -/
  binds : Nat
  outside : σ

structure Context where
  params : Bindings
  transaction : Option Nat

namespace World

variable {σ : Type}

def act {α : Type} (w : World σ) (f : σ → Except Error α × σ) : Except Error α × World σ :=
  let r := f w.outside
  (r.1, { w with outside := r.2 })

end World

end FederatedQuery.Foreign
