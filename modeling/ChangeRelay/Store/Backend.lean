import ChangeRelay.Store.File
import ChangeRelay.Store.Memory

/-!
# Stores of either kind

A store is one in memory or a database file; both answer the same two calls. `Contended` is a
store on which others write, too: before each batch of the one who looks on, a batch of somebody
else is applied.
-/

namespace ChangeRelay.Store

/-- A store of either kind. -/
inductive Backend where
  | memory (s : Memory)
  | file (s : File)

namespace Backend

def name : Backend → String
  | .memory _ => "memory"
  | .file _ => "sqlite"

def get : Backend → Address → Except StoreFault (Option Record)
  | .memory s, a => s.get a
  | .file s, a => s.get a

def putBatch : Backend → List BatchOp → Backend × Except StoreFault Unit
  | .memory s, ops => let (s, r) := s.putBatch ops; (.memory s, r)
  | .file s, ops => let (s, r) := s.putBatch ops; (.file s, r)

/-- The values of a bucket by key. -/
def bucket : Backend → String → List (String × Json.Value)
  | .memory s, name => s.records.bucket name
  | .file s, name => s.bucket name

end Backend

/-- A store with batches of others that are still to come. -/
structure Contended where
  store : Backend
  /-- One is applied before each batch. -/
  foreign : List (List BatchOp) := []

namespace Contended

def get (s : Contended) (a : Address) : Except StoreFault (Option Record) := s.store.get a

def putBatch (s : Contended) (ops : List BatchOp) : Contended × Except StoreFault Unit :=
  match s.foreign with
  | [] => let (store, r) := s.store.putBatch ops; ({ s with store }, r)
  | first :: foreign =>
    let (store, r) := (s.store.putBatch first).1.putBatch ops
    ({ store, foreign }, r)

end Contended

end ChangeRelay.Store
