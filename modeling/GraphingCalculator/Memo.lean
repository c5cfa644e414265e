import GraphingCalculator.Cache.Basic
import GraphingCalculator.Failure

/-!
A memo of texts that have been read: a cache in which each text stands with its tree.
-/

namespace GraphingCalculator

/-- A tree that has been made. Its serial number tells it from the others that were made, also from
those of the same text. -/
structure Parsed where
  serial : Nat
  tree : Expr

/-- A library of caches for trees. -/
abbrev TreeCaches := LruLibrary String Parsed

/-- A cache in which each text stands with the tree that it reads as. -/
structure Memo (lru : TreeCaches) where
  cache : lru.Cache
  reads : ∀ entry ∈ lru.entries cache, Expr.read entry.1 = .ok entry.2.tree

namespace Memo
variable {lru : TreeCaches}

/-- A memo that holds nothing yet, if there can be one of this capacity. -/
def new? (lru : TreeCaches) (capacity : Nat) : Option (Memo lru) :=
  match opens : lru.new? capacity with
  | none => none
  | some cache => some ⟨cache, by simp [lru.entries_new opens]⟩

/-- What the memo holds for a text. -/
def get (memo : Memo lru) (source : String) : Option Parsed × Memo lru :=
  let found := lru.get memo.cache source
  (found.1, ⟨found.2, fun entry member => memo.reads entry (LruLibrary.mem_entries_of_get member)⟩)

/-- Remembers the tree of a text. -/
def put (memo : Memo lru) (source : String) (parsed : Parsed)
    (reads : Expr.read source = .ok parsed.tree) : Memo lru where
  cache := lru.put memo.cache source parsed
  reads entry member := by
    rcases LruLibrary.mem_entries_of_put member with rfl | held
    · exact reads
    · exact memo.reads entry held

/-- Forgets everything. -/
def clear (memo : Memo lru) : Memo lru :=
  ⟨lru.clear memo.cache, by simp [lru.entries_clear]⟩

/-- The number of texts that the memo holds. -/
def size (memo : Memo lru) : Nat := lru.length memo.cache

end Memo

end GraphingCalculator
