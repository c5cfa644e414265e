import GraphingCalculator.Calculator
import Mathlib.Data.List.Nodup

/-!
What one use of a text does to a calculator. All that can be seen of it are its contents: the texts that it
remembers with their trees, and how many trees it has made. A use finds the text among them, makes its tree, or
fails to read it (`parse_cases`), and the contents afterwards are a function of the text and the contents before
(`contents_parse`), whatever library the memo comes from. The answer is the one of the text alone (`ask_answer`).
-/

namespace GraphingCalculator.Calculator

/-! ### Contents -/

/-- What can be seen of a calculator: how many texts there is room for, the texts that are remembered, the one used
last in front, each with its tree, and the number of trees made. -/
structure Contents where
  capacity : Nat
  entries : List (String × Parsed)
  made : Nat

namespace Contents

/-- The contents with a text in front, without what there is no room for. -/
def front (contents : Contents) (source : String) (parsed : Parsed) : Contents :=
  { contents with
    entries := ((source, parsed) :: contents.entries.filter (·.1 ≠ source)).take contents.capacity }

/-- The contents after a use of a text. -/
def use (contents : Contents) (source : String) : Contents :=
  match contents.entries.find? (·.1 = source) with
  | some entry => contents.front source entry.2
  | none =>
    match Expr.read source with
    | .error _ => contents
    | .ok tree => { contents.front source ⟨contents.made, tree⟩ with made := contents.made + 1 }

/-- The texts that are remembered, the one used last in front. -/
def sources (contents : Contents) : List String := contents.entries.map (·.1)

variable {contents : Contents} {source : String} {parsed : Parsed}

theorem find?_eq_none_of_notMem (missing : source ∉ contents.sources) :
    contents.entries.find? (·.1 = source) = none := by
  refine List.find?_eq_none.mpr fun entry member same => missing ?_
  exact List.mem_map.mpr ⟨entry, member, by simpa using same⟩

theorem use_of_read_error {failure : Failure} (missing : source ∉ contents.sources)
    (fails : Expr.read source = .error failure) : contents.use source = contents := by
  rw [use, find?_eq_none_of_notMem missing, fails]

theorem mem_entries_of_front {entry : String × Parsed} (member : entry ∈ (contents.front source parsed).entries) :
    entry = (source, parsed) ∨ entry ∈ contents.entries :=
  (List.mem_cons.mp (List.mem_of_mem_take member)).imp_right List.mem_of_mem_filter

theorem eq_of_mem_front {other : Parsed} (member : (source, other) ∈ (contents.front source parsed).entries) :
    other = parsed := by
  rcases List.mem_cons.mp (List.mem_of_mem_take member) with here | kept
  · exact (Prod.mk.inj here).2
  · simp at kept

theorem mem_of_mem_front {text : String} {other : Parsed}
    (member : (text, other) ∈ (contents.front source parsed).entries) (apart : source ≠ text) :
    (text, other) ∈ contents.entries := by
  refine (mem_entries_of_front member).resolve_left ?_
  rintro ⟨⟩
  exact apart rfl

end Contents

section
variable {lru : TreeCaches}

/-- What can be seen of a calculator. Without a memo it has no room for any text. -/
def contents (c : Calculator lru) : Contents where
  capacity := c.memo.elim 0 fun memo => lru.capacity memo.cache
  entries := c.memo.elim [] fun memo => lru.entries memo.cache
  made := c.made

theorem nodup_sources (c : Calculator lru) : c.contents.sources.Nodup := by
  obtain ⟨_ | memo, made⟩ := c
  · exact List.nodup_nil
  · exact lru.nodup_keys memo.cache

theorem remembered_eq (c : Calculator lru) : c.remembered = c.contents.sources.length := by
  obtain ⟨_ | memo, made⟩ := c
  · rfl
  · exact (lru.length_eq memo.cache).trans (List.length_map _).symm

/-- A text is remembered with the tree that it reads as. -/
theorem read_of_mem_entries {c : Calculator lru} {source : String} {parsed : Parsed}
    (member : (source, parsed) ∈ c.contents.entries) : Expr.read source = .ok parsed.tree := by
  obtain ⟨_ | memo, made⟩ := c
  · cases member
  · exact memo.reads _ member

theorem contents_clear (c : Calculator lru) : c.clear.contents = { c.contents with entries := [] } := by
  obtain ⟨_ | memo, made⟩ := c
  · rfl
  · simp [clear, contents, Memo.clear, lru.entries_clear, lru.capacity_clear]

theorem contents_new? {capacity : Nat} {c : Calculator lru} (opens : new? lru capacity = some c) :
    c.contents = ⟨capacity, [], 0⟩ := by
  unfold new? at opens
  split at opens
  case isTrue zero =>
    cases opens
    rw [zero]
    rfl
  case isFalse =>
    obtain ⟨memo, memoOpens, rfl⟩ := Option.map_eq_some_iff.mp opens
    unfold Memo.new? at memoOpens
    split at memoOpens
    case h_1 => cases memoOpens
    case h_2 cacheOpens =>
      cases memoOpens
      simp [contents, lru.entries_new cacheOpens, lru.capacity_new cacheOpens]

/-! ### Uses -/

variable (c : Calculator lru) (source : String)

/-- A text is remembered, or it is read and then remembered, or it cannot be read and nothing changes. -/
theorem parse_cases :
    (∃ parsed, (source, parsed) ∈ c.contents.entries ∧ (c.parse source).1 = .ok parsed ∧
      (c.parse source).2.contents = c.contents.front source parsed) ∨
    (∃ tree, Expr.read source = .ok tree ∧ source ∉ c.contents.sources ∧
      (c.parse source).1 = .ok ⟨c.made, tree⟩ ∧
      (c.parse source).2.contents = { c.contents.front source ⟨c.made, tree⟩ with made := c.made + 1 }) ∨
    (∃ failure, Expr.read source = .error failure ∧ source ∉ c.contents.sources ∧
      (c.parse source).1 = .error failure ∧ (c.parse source).2.contents = c.contents) := by
  obtain ⟨_ | memo, made⟩ := c
  · cases reads : Expr.read source with
    | error failure => exact .inr (.inr ⟨failure, rfl, nofun, by simp [parse, reads], by simp [parse, reads]⟩)
    | ok tree =>
      refine .inr (.inl ⟨tree, rfl, nofun, by simp [parse, reads], ?_⟩)
      simp [parse, reads, contents, Contents.front]
  · simp only [parse, Memo.get]
    obtain ⟨parsed, held, found, entries⟩ | ⟨missing, found, entries⟩ := LruLibrary.get_cases memo.cache source
    · refine .inl ⟨parsed, held, ?_⟩
      simp only [found]
      simp [contents, Contents.front, entries, lru.capacity_get]
    · refine .inr ?_
      simp only [found]
      split
      case h_1 failure reads =>
        exact .inr ⟨failure, reads, missing, rfl, by simp [contents, entries, lru.capacity_get]⟩
      case h_2 tree reads =>
        refine .inl ⟨tree, reads, missing, rfl, ?_⟩
        simp [contents, Contents.front, Memo.put, lru.entries_put, lru.capacity_put, entries, lru.capacity_get]

/-- What is remembered after a use is decided by what was remembered before it. -/
theorem contents_parse : (c.parse source).2.contents = c.contents.use source := by
  rw [Contents.use]
  obtain ⟨parsed, held, -, after⟩ | ⟨tree, read, missing, -, after⟩ | ⟨failure, read, missing, -, after⟩ :=
    c.parse_cases source
  · rw [LruLibrary.find?_of_mem c.nodup_sources held, after]
  · rw [Contents.find?_eq_none_of_notMem missing, read, after]
    rfl
  · rw [Contents.find?_eq_none_of_notMem missing, read, after]

/-- The tree of a text is the one that the text reads as, remembered or not. -/
theorem parse_answer : (c.parse source).1.map (·.tree) = Expr.read source := by
  obtain ⟨parsed, held, answer, -⟩ | ⟨tree, read, -, answer, -⟩ | ⟨failure, read, -, answer, -⟩ := c.parse_cases source
  · rw [answer, read_of_mem_entries held]
    rfl
  · rw [answer, read]
    rfl
  · rw [answer, read]
    rfl

theorem read_of_parse {c : Calculator lru} {source : String} {parsed : Parsed}
    (made : (c.parse source).1 = .ok parsed) : Expr.read source = .ok parsed.tree := by
  rw [← c.parse_answer source, made]
  rfl

theorem ask_answer {α : Type} (answer : Expr → Except Failure α) :
    (c.ask source answer).1 = (Expr.read source).bind answer := by
  rw [← c.parse_answer source]
  unfold ask
  obtain ⟨answered, after⟩ := c.parse source
  cases answered <;> rfl

theorem eval_answer (env : Environment) :
    (c.eval source env).1 = (Expr.read source).bind fun tree => (tree.eval env).mapError .evaluation :=
  c.ask_answer source _

theorem sweepLine_answer (name : String) (bounds : Bounds) (count : Nat) :
    (c.sweepLine source name bounds count).1 =
      (Expr.read source).bind fun tree => (tree.sweepLine name bounds count).mapError .sweep :=
  c.ask_answer source _

theorem sweepSurface_answer (xBounds yBounds : Bounds) (count : Nat) :
    (c.sweepSurface source xBounds yBounds count).1 =
      (Expr.read source).bind fun tree => (tree.sweepSurface xBounds yBounds count).mapError .sweep :=
  c.ask_answer source _

end

end GraphingCalculator.Calculator
