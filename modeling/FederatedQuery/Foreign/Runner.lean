import FederatedQuery.Foreign.Artifact
import FederatedQuery.Foreign.Session
import FederatedQuery.Rows.Change
import FederatedQuery.Text.Removal

/-!
Running pipelines and writes in a document store. Every call belongs to the session of its transaction.
When the store refuses a call, that session is rolled back; those of other transactions stay open.
-/
namespace FederatedQuery.Foreign

structure Deletion where
  filter : Document
  one : Bool

/-- The calls of a document store. Writes give the number of documents they concern. -/
structure DocumentStore (σ : Type) where
  aggregate : Option Session → String → List Document → σ → Except Error (List Document) × σ
  insert : Option Session → String → List Document → σ → Except Error UInt64 × σ
  update : Option Session → String → Document → Document → Bool → σ → Except Error UInt64 × σ
  delete : Option Session → String → Document → Bool → σ → Except Error UInt64 × σ
  deleteAll : Option Session → String → List Deletion → σ → Except Error UInt64 × σ

structure Runner (σ : Type) where
  store : DocumentStore σ
  backend : Backend σ

namespace Runner

variable {σ : Type}

/-- The session to make calls in, if there is a transaction. -/
def session (r : Runner σ) : Option Nat → World σ → Except Error (Option Session) × World σ
  | none, w => (.ok none, w)
  | some tx, w =>
    let s := r.backend.sessionFor tx w
    (s.1.map some, s.2)

/-- What the store puts in front of fields in its messages. -/
def fieldMark : String := "_data."

/-- Ends the session of a transaction when a failure is the store's. -/
def recover (r : Runner σ) (tx : Option Nat) (e : Error) (w : World σ) : Error × World σ :=
  match e with
  | .backend adapter message =>
    (.backend adapter (Text.remove fieldMark message), match tx with
      | some tx => (r.backend.rollback tx w).2
      | none => w)
  | e => (e, w)

def recovered {α : Type} (r : Runner σ) (tx : Option Nat) (result : Except Error α × World σ) :
    Except Error α × World σ :=
  match result with
  | (.ok a, w) => (.ok a, w)
  | (.error e, w) =>
    let failed := r.recover tx e w
    (.error failed.1, failed.2)

def runQuery (r : Runner σ) (q : Pipeline.Prepared) (params : Bindings) (tx : Option Nat) (w : World σ) :
    Except Error (List Row) × World σ :=
  let w := if q.mode = .prepared then { w with binds := w.binds + 1 } else w
  match q.bind params with
  | .error e => (.error e, w)
  | .ok stages => match r.session tx w with
    | (.error e, w) => (.error e, w)
    | (.ok session, w) =>
      match r.recovered tx (w.act (r.store.aggregate session q.collection stages)) with
      | (.error e, w) => (.error e, w)
      | (.ok documents, w) => (documents.mapM (Document.toRow q.rowType), w)

def write (r : Runner σ) (session : Option Session) (write : Pipeline.Write) (w : World σ) :
    Except Error UInt64 × World σ :=
  w.act (match write with
    | .insert collection documents => r.store.insert session collection documents
    | .update collection filter change one => r.store.update session collection filter change one
    | .delete collection filter one => r.store.delete session collection filter one)

/-- Binds a write to one set of parameters after the other, and makes it each time. -/
def writeEach (r : Runner σ) (session : Option Session) (q : Pipeline.PreparedWrite) :
    List Bindings → World σ → Except Error UInt64 × World σ
  | [], w => (.ok 0, w)
  | set :: sets, w => match q.bind set with
    | .error e => (.error e, w)
    | .ok write => match r.write session write w with
      | (.error e, w) => (.error e, w)
      | (.ok n, w) =>
        let rest := r.writeEach session q sets w
        (rest.1.map (n + ·), rest.2)

/-- The documents of a template for each set of parameters. -/
def boundDocuments (documents : List Document) (sets : List Bindings) : Except Error (List Document) := do
  let bound ← sets.mapM fun set => documents.mapM (Document.bind set)
  return bound.flatten

/-- Makes a write for every set of parameters. One without markers is made once. Inserts and deletions
go to the store in one call. -/
def writeBatch (r : Runner σ) (session : Option Session) (q : Pipeline.PreparedWrite)
    (sets : List Bindings) (w : World σ) : Except Error UInt64 × World σ :=
  match q.mode, q.write with
  | .direct, write => r.write session write w
  | .prepared, .insert collection documents => match boundDocuments documents sets with
    | .error e => (.error e, w)
    | .ok bound => w.act (r.store.insert session collection bound)
  | .prepared, .update .. => r.writeEach session q sets w
  | .prepared, .delete collection filter one =>
    match sets.mapM fun set => (filter.bind set).map fun bound => Deletion.mk bound one with
    | .error e => (.error e, w)
    | .ok deletions => w.act (r.store.deleteAll session collection deletions)

/-- Makes a write in the session of a transaction, and gives the number of documents it concerns. -/
def executeBatch (r : Runner σ) (q : Pipeline.PreparedWrite) (sets : List Bindings) (tx : Option Nat)
    (w : World σ) : Except Error UInt64 × World σ :=
  match r.session tx w with
  | (.error e, w) => (.error e, w)
  | (.ok session, w) => r.recovered tx (r.writeBatch session q sets w)

def run (r : Runner σ) (a : Artifact) (ctx : Context) (w : World σ) : Except Error (List Row) × World σ :=
  match a with
  | .pipeline q => r.runQuery q ctx.params ctx.transaction w
  | .write q =>
    let result := r.executeBatch q [ctx.params] ctx.transaction w
    (result.1.map fun n => [Rows.countRow n.toNat], result.2)
  | .sql _ => (.error (.contract (.foreignArtifact a.kind)), w)

end Runner

end FederatedQuery.Foreign
