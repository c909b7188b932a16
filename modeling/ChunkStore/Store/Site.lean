import ChunkStore.Handle
import ChunkStore.Store.Operation

/-!
Any number of files and of stores on them. A file can be copied, also to where an older copy is, and
it can be worked on without a store.
-/

namespace ChunkStore

structure Site where
  files : Nat → File
  stores : List (Nat × Store)

namespace Site

def save (w : Site) (i : Nat) (f : File) : Site :=
  { w with files := fun j => if j = i then f else w.files j }

def create (w : Site) (i : Nat) (path : String) (config : StoreConfig) : Site :=
  { w with stores := w.stores ++ [(i, Store.create path config)] }

def after (w : Site) (k i : Nat) (s : Store) (op : Operation) : Site :=
  let (t, f) := Attempt.state (op.run (s, w.files i))
  { w.save i f with stores := w.stores.set k (i, t) }

def Free (w : Site) (i : Nat) : Prop := ∀ s, (i, s) ∈ w.stores → s.session? = none

/-- What can come of files that are not containers, whatever chunks are put into the stores. A handle
without a store is had by `hold` and given up by `copy` of a file to itself. -/
inductive Reached : Site → Prop where
  | start {files : Nat → File} : (∀ i, (files i).container? = none) → Reached ⟨files, []⟩
  | create {w : Site} (i : Nat) (path : String) (config : StoreConfig) :
      Reached w → Reached (w.create i path config)
  | call {w : Site} {i : Nat} {s : Store} (k : Nat) (op : Operation) :
      Reached w → w.stores[k]? = some (i, s) → Reached (w.after k i s op)
  | copy {w : Site} (i j : Nat) :
      Reached w → w.Free j → Reached (w.save j (w.files i).release)
  | hold {w : Site} {c : Container} (i : Nat) :
      Reached w → w.Free i → (w.files i).contents? true = .ok c →
        Reached (w.save i (.container true c))
  | work {w : Site} {c : Container} (i : Nat) (calls : List Transaction.Call) :
      Reached w → w.Free i → w.files i = .container true c →
        Reached (w.save i (.container true (c.amend calls)))

end Site
end ChunkStore
