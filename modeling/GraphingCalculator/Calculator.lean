import GraphingCalculator.Memo

/-!
A calculator that remembers the trees of the texts it has read. The memo only saves reading: what
is answered does not depend on it.
-/

namespace GraphingCalculator

/-- The memo, unless nothing is to be remembered, and the number of trees made so far, which is the
serial number of the next one. -/
structure Calculator (lru : TreeCaches) where
  memo : Option (Memo lru)
  made : Nat

namespace Calculator
variable {lru : TreeCaches}

/-- A calculator that remembers up to `capacity` texts, if there can be a memo for so many. -/
def new? (lru : TreeCaches) (capacity : Nat) : Option (Calculator lru) :=
  if capacity = 0 then some ⟨none, 0⟩
  else (Memo.new? lru capacity).map fun memo => ⟨some memo, 0⟩

/-- How many texts a calculator remembers when nothing else is asked for. -/
def defaultCapacity : Nat := 100

/-- The tree of a text, remembered or made. A text that cannot be read is not remembered. -/
def parse (c : Calculator lru) (source : String) : Except Failure Parsed × Calculator lru :=
  match c.memo with
  | none =>
    match Expr.read source with
    | .error failure => (.error failure, c)
    | .ok tree => (.ok ⟨c.made, tree⟩, ⟨none, c.made + 1⟩)
  | some memo =>
    match memo.get source with
    | (some parsed, memo) => (.ok parsed, { c with memo := some memo })
    | (none, memo) =>
      match reads : Expr.read source with
      | .error failure => (.error failure, { c with memo := some memo })
      | .ok tree =>
        (.ok ⟨c.made, tree⟩, ⟨some (memo.put source ⟨c.made, tree⟩ reads), c.made + 1⟩)

/-- What `answer` makes of the tree of a text. -/
def ask {α : Type} (c : Calculator lru) (source : String) (answer : Expr → Except Failure α) :
    Except Failure α × Calculator lru :=
  let (parsed, c) := c.parse source
  (parsed.bind fun parsed => answer parsed.tree, c)

/-- The value of a text in an environment. -/
def eval (c : Calculator lru) (source : String) (env : Environment) :
    Except Failure Float × Calculator lru :=
  c.ask source fun tree => (tree.eval env).mapError .evaluation

/-- The text swept along the range of one variable. -/
def sweepLine (c : Calculator lru) (source name : String) (bounds : Bounds) (count : Nat) :
    Except Failure Line × Calculator lru :=
  c.ask source fun tree => (tree.sweepLine name bounds count).mapError .sweep

/-- The text swept over a grid. -/
def sweepSurface (c : Calculator lru) (source : String) (xBounds yBounds : Bounds) (count : Nat) :
    Except Failure Surface × Calculator lru :=
  c.ask source fun tree => (tree.sweepSurface xBounds yBounds count).mapError .sweep

/-- The number of texts that are remembered. -/
def remembered (c : Calculator lru) : Nat := c.memo.elim 0 Memo.size

/-- Forgets all texts. -/
def clear (c : Calculator lru) : Calculator lru := { c with memo := c.memo.map Memo.clear }

end Calculator

end GraphingCalculator
