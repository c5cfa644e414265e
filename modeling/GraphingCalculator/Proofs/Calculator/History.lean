import GraphingCalculator.Cache.RecentList
import GraphingCalculator.Proofs.Calculator.Parsing
import Mathlib.Data.List.Induction
import Mathlib.Data.List.TakeWhile

/-!
What a calculator remembers, as a function of all that it has been asked.

`recent history` are the texts that have been read since the calculator last forgot everything, the
latest use first. After any history the front of this list is remembered, as long as the capacity
(`reflects_after`). A text that is used again is answered with the tree of its last use exactly as
long as it stands in that front (`keeps_after`, `parse_eq_iff_of_keeps`), which is while fewer other
texts than the capacity have been read since and nothing was forgotten (`mem_take_recent_iff`).
-/

namespace GraphingCalculator.Calculator

/-- What a calculator can be asked to do. -/
inductive Step where
  | parse (source : String)
  | eval (source : String) (env : Environment)
  | sweepLine (source name : String) (bounds : Bounds) (count : Nat)
  | sweepSurface (source : String) (xBounds yBounds : Bounds) (count : Nat)
  | clear

/-- What a calculator answers. -/
inductive Answer where
  | tree (answer : Except Failure Expr)
  | value (answer : Except Failure Float)
  | line (answer : Except Failure Line)
  | surface (answer : Except Failure Surface)
  | cleared

namespace Step

/-- The text that a step uses. -/
def source? : Step → Option String
  | parse source | eval source _ | sweepLine source .. | sweepSurface source .. => some source
  | clear => none

/-- The answer of the readers and the sweeps themselves, without a memo. -/
def direct : Step → Answer
  | parse source => .tree (Expr.read source)
  | eval source env => .value do
    let tree ← Expr.read source
    (tree.eval env).mapError .evaluation
  | sweepLine source name bounds count => .line do
    let tree ← Expr.read source
    (tree.sweepLine name bounds count).mapError .sweep
  | sweepSurface source xBounds yBounds count => .surface do
    let tree ← Expr.read source
    (tree.sweepSurface xBounds yBounds count).mapError .sweep
  | clear => .cleared

end Step

section
variable {lru : TreeCaches}

/-- One step of a calculator. -/
def step (c : Calculator lru) : Step → Answer × Calculator lru
  | .parse source =>
    let (answer, c) := c.parse source
    (.tree (answer.map (·.tree)), c)
  | .eval source env =>
    let (answer, c) := c.eval source env
    (.value answer, c)
  | .sweepLine source name bounds count =>
    let (answer, c) := c.sweepLine source name bounds count
    (.line answer, c)
  | .sweepSurface source xBounds yBounds count =>
    let (answer, c) := c.sweepSurface source xBounds yBounds count
    (.surface answer, c)
  | .clear => (.cleared, c.clear)

/-- A calculator after all the steps of a history. -/
def after (start : Calculator lru) (history : List Step) : Calculator lru :=
  history.foldl (fun c step => (c.step step).2) start

end

/-- Whether a text has a tree. -/
def readable (source : String) : Bool := (Expr.read source).isOk

theorem readable_of_read_ok {source : String} {tree : Expr} (reads : Expr.read source = .ok tree) :
    readable source = true := by
  rw [readable, reads]
  rfl

theorem readable_of_read_error {source : String} {failure : Failure} (fails : Expr.read source = .error failure) :
    readable source = false := by
  rw [readable, fails]
  rfl

/-- The readable texts used since the last `clear`, the latest use first, as often as they were used. -/
def uses (history : List Step) : List String :=
  ((history.reverse.takeWhile (·.source?.isSome)).filterMap Step.source?).filter readable

/-- The same texts, each once, at the place of its latest use. -/
def recent (history : List Step) : List String := (uses history).eraseDups

/-! ### Lists without duplicates -/

section
variable {α : Type} [DecidableEq α]

theorem eraseDups_concat (l : List α) (a : α) :
    (l ++ [a]).eraseDups = if a ∈ l then l.eraseDups else l.eraseDups ++ [a] := by
  by_cases member : a ∈ l <;> simp [List.eraseDups_append, List.removeAll, member, List.eraseDups_cons]

theorem eraseDups_filter (p : α → Bool) (l : List α) : (l.filter p).eraseDups = l.eraseDups.filter p := by
  induction l using List.reverseRecOn with
  | nil => rfl
  | append_singleton l a ih =>
    rw [List.filter_append, List.filter_singleton, eraseDups_concat]
    cases keep : p a with
    | false => simp [ih, apply_ite, keep]
    | true => simp [eraseDups_concat, ih, apply_ite, keep]

theorem nodup_eraseDups (l : List α) : l.eraseDups.Nodup := by
  induction l using List.reverseRecOn with
  | nil => exact List.nodup_nil
  | append_singleton l a ih =>
    rw [eraseDups_concat]
    split
    case isTrue => exact ih
    case isFalse new =>
      refine List.nodup_append.mpr ⟨ih, List.nodup_singleton a, ?_⟩
      rintro b member other isLast rfl
      rw [List.mem_singleton.mp isLast] at member
      exact new (List.mem_eraseDups.mp member)

theorem take_erase_take (l : List α) (a : α) (n : Nat) :
    ((l.take (n + 1)).erase a).take n = (l.erase a).take n := by
  induction l generalizing n with
  | nil => rfl
  | cons b l ih =>
    rw [List.take_succ_cons, List.erase_cons, List.erase_cons]
    split
    · exact List.take_take.trans (by rw [Nat.min_self])
    · cases n with
      | zero => rfl
      | succ n => rw [List.take_succ_cons, List.take_succ_cons, ih]

end

section
variable {history : List Step} {step : Step} {source : String}

/-! ### Recent texts, step by step -/

theorem recent_concat_clear : recent (history ++ [.clear]) = [] := by
  simp [recent, uses, Step.source?]

theorem uses_concat (uses_source : step.source? = some source) :
    uses (history ++ [step]) = [source].filter readable ++ uses history := by
  simp [uses, uses_source, ← List.filter_append]

theorem recent_concat_of_readable (uses_source : step.source? = some source) (reads : readable source) :
    recent (history ++ [step]) = source :: (recent history).erase source := by
  rw [recent, uses_concat uses_source, List.filter_cons_of_pos reads, List.filter_nil, List.singleton_append,
    List.eraseDups_cons, eraseDups_filter, recent, (nodup_eraseDups _).erase_eq_filter]
  rfl

theorem recent_concat_of_unreadable (uses_source : step.source? = some source) (fails : readable source = false) :
    recent (history ++ [step]) = recent history := by
  rw [recent, uses_concat uses_source, List.filter_cons_of_neg (by simp [fails])]
  rfl

/-! ### The contents after a history -/

/-- The texts that are remembered are the front of the recent ones, and their trees are older than the next one. -/
structure Reflects (contents : Contents) (capacity : Nat) (history : List Step) : Prop where
  capacity_eq : contents.capacity = capacity
  sources_eq : contents.sources = (recent history).take capacity
  serial_lt : ∀ entry ∈ contents.entries, entry.2.serial < contents.made

theorem sources_front {contents : Contents} (nodup : contents.sources.Nodup) (source : String) (parsed : Parsed) :
    (contents.front source parsed).sources = (source :: contents.sources.erase source).take contents.capacity := by
  rw [nodup.erase_eq_filter, Contents.sources, Contents.sources, List.filter_map, Contents.front, List.map_take,
    List.map_cons]
  congr 3
  refine List.filter_congr fun entry _ => ?_
  simp [bne, Bool.beq_eq_decide_eq]

section
variable {lru : TreeCaches} {c start : Calculator lru}

/-- Each kind of use leaves the same behind, and forgetting leaves nothing. -/
theorem step_calculator (c : Calculator lru) (step : Step) :
    (c.step step).2 = match step.source? with
      | some source => (c.parse source).2
      | none => c.clear := by
  cases step <;> rfl

/-- No answer depends on what is remembered. -/
theorem step_answer (c : Calculator lru) (step : Step) : (c.step step).1 = step.direct := by
  cases step with
  | parse source => exact congrArg Answer.tree (c.parse_answer source)
  | eval source env => exact congrArg Answer.value (c.eval_answer source env)
  | sweepLine source name bounds count => exact congrArg Answer.line (c.sweepLine_answer source name bounds count)
  | sweepSurface source xBounds yBounds count =>
    exact congrArg Answer.surface (c.sweepSurface_answer source xBounds yBounds count)
  | clear => rfl

theorem reflects_parse {capacity : Nat} (reflects : Reflects c.contents capacity history)
    (uses_source : step.source? = some source) :
    Reflects (c.parse source).2.contents capacity (history ++ [step]) := by
  have sources (parsed : Parsed) (reads : readable source) :
      (c.contents.front source parsed).sources = (recent (history ++ [step])).take capacity := by
    rw [sources_front c.nodup_sources, reflects.capacity_eq, reflects.sources_eq,
      recent_concat_of_readable uses_source reads]
    cases capacity with
    | zero => rfl
    | succ capacity => rw [List.take_succ_cons, List.take_succ_cons, take_erase_take]
  obtain ⟨parsed, held, -, after⟩ | ⟨tree, read, -, -, after⟩ | ⟨failure, read, -, -, after⟩ := c.parse_cases source
  · -- the tree that is found moves to the front
    rw [after]
    have reads : readable source := readable_of_read_ok (read_of_mem_entries held)
    refine ⟨reflects.capacity_eq, sources parsed reads, fun entry member => ?_⟩
    rcases Contents.mem_entries_of_front member with rfl | member
    · exact reflects.serial_lt _ held
    · exact reflects.serial_lt entry member
  · -- a new tree gets the next serial number
    rw [after]
    refine ⟨reflects.capacity_eq, sources _ (readable_of_read_ok read), fun entry member => ?_⟩
    rcases Contents.mem_entries_of_front member with rfl | member
    · exact Nat.lt_succ_self _
    · exact (reflects.serial_lt entry member).trans (Nat.lt_succ_self _)
  · rw [after]
    have fails : readable source = false := readable_of_read_error read
    exact ⟨reflects.capacity_eq, by rw [recent_concat_of_unreadable uses_source fails, reflects.sources_eq],
      reflects.serial_lt⟩

theorem reflects_step {capacity : Nat} (reflects : Reflects c.contents capacity history) (step : Step) :
    Reflects (c.step step).2.contents capacity (history ++ [step]) := by
  rw [step_calculator]
  split
  case h_1 source uses_source => exact reflects_parse reflects uses_source
  case h_2 forgets =>
    obtain rfl : step = .clear := by
      cases step with
      | clear => rfl
      | _ => cases forgets
    rw [contents_clear]
    exact ⟨reflects.capacity_eq, by rw [recent_concat_clear, List.take_nil]; rfl,
      fun _ member => absurd member List.not_mem_nil⟩

theorem after_concat (start : Calculator lru) (history : List Step) (step : Step) :
    start.after (history ++ [step]) = ((start.after history).step step).2 :=
  List.foldl_concat ..

/-- After any history what is remembered is in line with the recent texts. -/
theorem reflects_after {capacity : Nat} (opens : new? lru capacity = some start) (history : List Step) :
    Reflects (start.after history).contents capacity history := by
  induction history using List.reverseRecOn with
  | nil =>
    show Reflects start.contents capacity []
    rw [contents_new? opens]
    exact ⟨rfl, List.take_nil.symm, fun _ member => absurd member List.not_mem_nil⟩
  | append_singleton history step ih =>
    rw [after_concat]
    exact reflects_step ih step

end

/-! ### The same tree again -/

theorem source?_isSome_iff : step.source?.isSome ↔ step ≠ .clear := by
  cases step <;> simp [Step.source?]

theorem uses_append_of_clear {later : List Step} (forgets : .clear ∈ later) :
    uses (history ++ later) = uses later := by
  have stops : (later.reverse.takeWhile (·.source?.isSome)).length ≠ later.reverse.length := by
    intro whole
    have same := (List.takeWhile_sublist _).eq_of_length whole
    have kept := List.takeWhile_eq_self_iff.mp same .clear (List.mem_reverse.mpr forgets)
    cases kept
  rw [uses, List.reverse_append, List.takeWhile_append, if_neg stops]
  rfl

theorem uses_append {later : List Step} (keeps : .clear ∉ later) :
    uses (history ++ later) = uses later ++ uses history := by
  have kept : ∀ step ∈ later.reverse, step.source?.isSome := by
    intro step member
    refine source?_isSome_iff.mpr ?_
    rintro rfl
    exact keeps (List.mem_reverse.mp member)
  rw [uses, List.reverse_append, List.takeWhile_append_of_pos kept, List.filterMap_append, List.filter_append,
    uses, List.takeWhile_eq_self_iff.mpr kept]
  rfl

theorem source_notMem_uses (others : ∀ step ∈ history, step.source? ≠ some source) : source ∉ uses history := by
  intro used
  obtain ⟨step, kept, uses_source⟩ := List.mem_filterMap.mp (List.mem_of_mem_filter used)
  exact others step (List.mem_reverse.mp ((List.takeWhile_sublist _).subset kept)) uses_source

/-- A text stands right behind the ones that were used after it, unless it was forgotten. -/
theorem mem_take_recent_iff {before later : List Step} (uses_source : step.source? = some source)
    (reads : readable source) (others : ∀ step ∈ later, step.source? ≠ some source) (capacity : Nat) :
    source ∈ (recent (before ++ step :: later)).take capacity ↔
      .clear ∉ later ∧ (recent later).length < capacity := by
  have notMem : source ∉ recent later := fun member => source_notMem_uses others (List.mem_eraseDups.mp member)
  rw [List.append_cons]
  by_cases forgets : .clear ∈ later
  · rw [recent, uses_append_of_clear forgets, ← recent]
    simp only [forgets, not_true_eq_false, false_and, iff_false]
    exact fun member => notMem (List.mem_of_mem_take member)
  · have placed : ∃ rest, recent ((before ++ [step]) ++ later) = recent later ++ source :: rest := by
      rw [recent, uses_append forgets, uses_concat uses_source, List.filter_cons_of_pos reads, List.filter_nil,
        List.eraseDups_append, List.singleton_append, List.cons_removeAll,
        if_pos (by simpa using source_notMem_uses others), List.eraseDups_cons]
      exact ⟨_, rfl⟩
    obtain ⟨rest, placed⟩ := placed
    have front : source ∉ (recent later).take capacity := fun member => notMem (List.mem_of_mem_take member)
    rw [placed, List.take_append, List.mem_append]
    simp only [front, false_or, forgets, not_false_eq_true, true_and]
    rw [← Nat.sub_pos_iff_lt]
    cases capacity - (recent later).length <;> simp

/-- For this text the calculator has no other tree, and the next one that it makes is younger. -/
structure Keeps (contents : Contents) (source : String) (last : Parsed) : Prop where
  eq_of_mem : ∀ other, (source, other) ∈ contents.entries → other = last
  serial_lt : last.serial < contents.made

variable {lru : TreeCaches} {c start : Calculator lru} {last : Parsed}

theorem keeps_parse (older : ∀ entry ∈ c.contents.entries, entry.2.serial < c.contents.made)
    (made : (c.parse source).1 = .ok last) : Keeps (c.parse source).2.contents source last := by
  obtain ⟨parsed, held, answer, after⟩ | ⟨tree, -, -, answer, after⟩ | ⟨failure, -, -, answer, -⟩ :=
    c.parse_cases source
  · cases answer.symm.trans made
    rw [after]
    exact ⟨fun _ => Contents.eq_of_mem_front, older _ held⟩
  · cases answer.symm.trans made
    rw [after]
    exact ⟨fun _ => Contents.eq_of_mem_front, Nat.lt_succ_self _⟩
  · cases answer.symm.trans made

theorem Keeps.next (keeps : Keeps c.contents source last) (other : step.source? ≠ some source) :
    Keeps (c.step step).2.contents source last := by
  rw [step_calculator]
  split
  case h_2 =>
    rw [contents_clear]
    exact ⟨nofun, keeps.serial_lt⟩
  case h_1 text uses_text =>
    have apart : text ≠ source := by
      rintro rfl
      exact other uses_text
    obtain ⟨parsed, -, -, after⟩ | ⟨tree, -, -, -, after⟩ | ⟨failure, -, -, -, after⟩ := c.parse_cases text
    · rw [after]
      exact ⟨fun _ member => keeps.eq_of_mem _ (Contents.mem_of_mem_front member apart), keeps.serial_lt⟩
    · rw [after]
      exact ⟨fun _ member => keeps.eq_of_mem _ (Contents.mem_of_mem_front member apart),
        keeps.serial_lt.trans (Nat.lt_succ_self _)⟩
    · rw [after]
      exact keeps

/-- From one use of a text to the next the calculator makes no other tree for it. -/
theorem keeps_after {capacity : Nat} {before later : List Step} (opens : new? lru capacity = some start)
    (uses_source : step.source? = some source) (made : ((start.after before).parse source).1 = .ok last)
    (others : ∀ step ∈ later, step.source? ≠ some source) :
    Keeps (start.after (before ++ step :: later)).contents source last := by
  -- on the steps after the use: none of them can put another tree of this text into the memo
  induction later using List.reverseRecOn with
  | nil =>
    rw [after_concat, step_calculator, uses_source]
    exact keeps_parse (reflects_after opens before).serial_lt made
  | append_singleton later final ih =>
    rw [← List.cons_append, ← List.append_assoc, after_concat]
    refine (ih fun step member => others step (List.mem_append_left _ member)).next ?_
    exact others final (by simp)

/-- The same tree is found again if and only if the text is still remembered. -/
theorem parse_eq_iff_of_keeps (keeps : Keeps c.contents source last) :
    (c.parse source).1 = .ok last ↔ source ∈ c.contents.sources := by
  obtain ⟨parsed, held, answer, -⟩ | ⟨tree, -, missing, answer, -⟩ | ⟨failure, -, missing, answer, -⟩ :=
    c.parse_cases source
  · rw [answer, keeps.eq_of_mem parsed held]
    exact iff_of_true rfl (List.mem_map_of_mem held)
  · rw [answer]
    refine iff_of_false (fun same => ?_) missing
    have equal := Except.ok.inj same
    -- a tree made now would be younger than `last`
    have young : last.serial = c.contents.made := by rw [← equal]; rfl
    exact absurd keeps.serial_lt (by omega)
  · rw [answer]
    exact iff_of_false (by simp) missing

/-- A calculator refines the history of its steps. Each answer is the one without a memo; what is remembered are the
texts read most recently, with their trees; and a text is parsed into the very tree of its last use if and only
if nothing was forgotten since and fewer other texts than the capacity were read. -/
theorem calculator_refines_history {capacity : Nat} (opens : new? lru capacity = some start) (history : List Step) :
    (∀ step, ((start.after history).step step).1 = step.direct) ∧
    (start.after history).contents.sources = (recent history).take capacity ∧
    (∀ source parsed, (source, parsed) ∈ (start.after history).contents.entries →
      Expr.read source = .ok parsed.tree) ∧
    (start.after history).remembered = min capacity (recent history).length ∧
    ∀ before step later source last, history = before ++ step :: later → step.source? = some source →
      (∀ other ∈ later, other.source? ≠ some source) → ((start.after before).parse source).1 = .ok last →
      (((start.after history).parse source).1 = .ok last ↔
        .clear ∉ later ∧ (recent later).length < capacity) := by
  have sources := (reflects_after opens history).sources_eq
  refine ⟨step_answer _, sources, fun source parsed => read_of_mem_entries, ?_, ?_⟩
  · rw [remembered_eq, sources, List.length_take]
  · rintro before step later source last rfl uses_source others made
    have reads : readable source := readable_of_read_ok (read_of_parse made)
    rw [parse_eq_iff_of_keeps (keeps_after opens uses_source made others), sources,
      mem_take_recent_iff uses_source reads others]

/-- With room for two texts, a text is still remembered after one that has no value and one that has no tree. -/
theorem calculator_refines_history_two_failures :
    let later : List Step := [.eval "y" .empty, .parse "+"]
    ∃ (start : Calculator (RecentList.library String Parsed)) (last : Parsed), new? _ 2 = some start ∧
      (start.parse "x").1 = .ok last ∧ ((start.after (.parse "x" :: later)).parse "x").1 = .ok last := by
  intro later
  obtain ⟨start, opens⟩ : ∃ start, new? (RecentList.library String Parsed) 2 = some start := ⟨_, rfl⟩
  obtain ⟨last, made⟩ : ∃ last, (start.parse "x").1 = .ok last := by
    have reads : (Expr.read "x").isOk := by decide +kernel
    rw [← start.parse_answer "x"] at reads
    cases made : (start.parse "x").1 with
    | error failure => simp [made, Except.map, Except.isOk, Except.toBool] at reads
    | ok last => exact ⟨last, rfl⟩
  have others : ∀ other ∈ later, other.source? ≠ some "x" := by simp [later, Step.source?]
  have few : (recent later).length < 2 := by decide +kernel
  obtain ⟨-, -, -, -, again⟩ := calculator_refines_history opens (.parse "x" :: later)
  exact ⟨start, last, opens, made, (again [] _ later "x" last rfl rfl others made).mpr ⟨by simp [later], few⟩⟩

end

end GraphingCalculator.Calculator
