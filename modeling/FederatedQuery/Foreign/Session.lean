import FederatedQuery.Foreign.World

/-!
Sessions of transactions. A transaction has one session at most, and a session that ends is forgotten
before the store is told, so that it ends once whatever the store says.
-/
namespace FederatedQuery.Foreign

/-- The life of sessions on the side of a store. -/
structure Backend (σ : Type) where
  adapter : String
  /-- Starts a session of a transaction and gives its number. -/
  start : Nat → σ → Except Error Nat × σ
  commit : Session → σ → Except Error Unit × σ
  abort : Session → σ → Except Error Unit × σ

def World.session? {σ : Type} (w : World σ) (tx : Nat) : Option Session :=
  w.sessions.find? fun s => s.transaction = tx

def World.isOpen {σ : Type} (w : World σ) (tx : Nat) : Bool := (w.session? tx).isSome

/-- The world without the session of a transaction. -/
def World.forget {σ : Type} (w : World σ) (tx : Nat) : World σ :=
  { w with sessions := w.sessions.filter fun s => s.transaction ≠ tx }

namespace Backend

variable {σ : Type}

def startSession (b : Backend σ) (tx : Nat) (w : World σ) : Except Error Session × World σ :=
  match w.act (b.start tx) with
  | (.ok id, w) =>
    let session : Session := ⟨tx, b.adapter, id⟩
    (.ok session, { w with sessions := session :: w.sessions })
  | (.error e, w) => (.error e, w)

def acquire (b : Backend σ) (tx : Nat) (w : World σ) : Except Error Session × World σ :=
  if w.isOpen tx then (.error (.contract (.sessionOpen tx b.adapter)), w) else b.startSession tx w

/-- The session of a transaction, which is started at its first use. -/
def sessionFor (b : Backend σ) (tx : Nat) (w : World σ) : Except Error Session × World σ :=
  match w.session? tx with
  | some session => (.ok session, w)
  | none => b.startSession tx w

/-- Ends the session of a transaction; false when there is none. -/
def finish (finishing : Session → σ → Except Error Unit × σ) (tx : Nat) (w : World σ) :
    Except Error Bool × World σ :=
  match w.session? tx with
  | none => (.ok false, w)
  | some session =>
    let r := (w.forget tx).act (finishing session)
    (r.1.map fun _ => true, r.2)

def commitSession (b : Backend σ) : Nat → World σ → Except Error Bool × World σ := finish b.commit

def rollback (b : Backend σ) : Nat → World σ → Except Error Bool × World σ := finish b.abort

end Backend

end FederatedQuery.Foreign
