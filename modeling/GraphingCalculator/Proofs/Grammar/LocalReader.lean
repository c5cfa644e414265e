import GraphingCalculator.Proofs.Grammar.Reading

/-!
Readers that look no further than the token that they stop at.

What such a reader has taken off the front of its tokens it would have taken in front of any tokens that
start alike, and in front of all that close what is open (`Took`). Where it meets a wrong token, it has
not looked behind that token, and what stands before it can be filled up to a whole (`StuckAt`). A reader
that is made of two of them, one behind the other, is such a reader too (`ReadsLocally.bind`).
-/

namespace GraphingCalculator.Grammar
open GraphingCalculator.Parser

/-! ### Pieces of a text -/

/-- The next token is of this kind. -/
def NextIs (kind : Token → Bool) (tail : List PlacedToken) : Prop :=
  ∃ t ∈ tail.head?, kind t.token

/-- A token behind which nothing goes on that has been begun before it. -/
def isClosing : Token → Bool
  | .rightParen | .endOfInput => true
  | _ => false

def isLeftParen : Token → Bool
  | .leftParen => true
  | _ => false

def isComma : Token → Bool
  | .comma => true
  | _ => false

def isRightParen : Token → Bool
  | .rightParen => true
  | _ => false

/-- A token that takes the place of what is missing: a number or a parenthesis. -/
def isFiller : Token → Bool
  | .number _ | .leftParen | .rightParen => true
  | _ => false

/-- Tokens that start like `rest`, or with one that ends what stands before them. -/
def CanReplace (ends : Token → Bool) (rest tail : List PlacedToken) : Prop :=
  tail.head? = rest.head? ∨ NextIs ends tail

/-- Tokens without an end of the input, whose parentheses pair up among themselves. -/
structure IsPiece (v : List PlacedToken) : Prop where
  noEnd : ∀ t ∈ v, t.token ≠ .endOfInput
  isBalanced_append : ∀ opened tail, isBalanced opened (v ++ tail) = isBalanced opened tail

theorem isPiece_nil : IsPiece [] := ⟨by simp, fun _ _ => rfl⟩

theorem IsPiece.append {v w : List PlacedToken} (front : IsPiece v) (back : IsPiece w) : IsPiece (v ++ w) where
  noEnd := List.forall_mem_append.mpr ⟨front.noEnd, back.noEnd⟩
  isBalanced_append opened tail := by
    rw [List.append_assoc, front.isBalanced_append, back.isBalanced_append]

theorem isPiece_single {t : PlacedToken} (noClosing : isClosing t.token = false) (noGroup : t.token ≠ .leftParen) :
    IsPiece [t] := by
  obtain ⟨token, position⟩ := t
  cases token with
  | leftParen => exact absurd rfl noGroup
  | rightParen | endOfInput => cases noClosing
  | number | identifier | operator | comma => exact ⟨by simp, fun _ _ => rfl⟩

theorem IsPiece.parenthesized {v : List PlacedToken} (inner : IsPiece v) (opening closing : Nat) :
    IsPiece (⟨.leftParen, opening⟩ :: (v ++ [⟨.rightParen, closing⟩])) where
  noEnd := by simpa [or_imp, forall_and] using inner.noEnd
  isBalanced_append opened tail := by simp [isBalanced, inner.isBalanced_append]

section
variable {ends : Token → Bool} {v w rest tail : List PlacedToken}

/-- When there is an end of the input, it stands behind a piece. -/
theorem IsPiece.exists_end_behind (piece : IsPiece v) (hasEnd : ∃ t ∈ v ++ rest, t.token = .endOfInput) :
    ∃ t ∈ rest, t.token = .endOfInput := by
  obtain ⟨t, member, isEnd⟩ := hasEnd
  exact ⟨t, (List.mem_append.mp member).resolve_left fun front => piece.noEnd t front isEnd, isEnd⟩

theorem CanReplace.append (replaces : CanReplace ends rest tail) : CanReplace ends (v ++ rest) (v ++ tail) := by
  cases v with
  | nil => exact replaces
  | cons t v => exact .inl rfl

theorem canReplace_append (nonempty : v ≠ []) : CanReplace ends (v ++ rest) (v ++ tail) := by
  cases v with
  | nil => exact absurd rfl nonempty
  | cons t v => exact .inl rfl

theorem exists_cons_of_nextIs {kind : Token → Bool} (next : NextIs kind tail) :
    ∃ t rest, tail = t :: rest ∧ kind t.token := by
  obtain ⟨t, member, isKind⟩ := next
  cases tail with
  | nil => cases member
  | cons u rest =>
    cases member
    exact ⟨t, rest, rfl, isKind⟩

theorem isClosing_of_isRightParen (token : Token) (isRight : isRightParen token = true) : isClosing token = true := by
  cases token with
  | rightParen => rfl
  | _ => cases isRight

theorem eq_of_isComma {t : PlacedToken} (comma : isComma t.token = true) : ∃ place, t = ⟨.comma, place⟩ := by
  obtain ⟨token, place⟩ := t
  cases token with
  | comma => exact ⟨place, rfl⟩
  | _ => cases comma

theorem eq_of_isRightParen {t : PlacedToken} (right : isRightParen t.token = true) :
    ∃ place, t = ⟨.rightParen, place⟩ := by
  obtain ⟨token, place⟩ := t
  cases token with
  | rightParen => exact ⟨place, rfl⟩
  | _ => cases right

theorem eq_of_isRaising {t : PlacedToken} (raises : isRaising t.token = true) :
    ∃ place, t = ⟨.operator .power, place⟩ := by
  obtain ⟨token, place⟩ := t
  cases token with
  | operator op =>
    cases op with
    | power => exact ⟨place, rfl⟩
    | _ => cases raises
  | _ => cases raises

theorem eq_of_isMinus {t : PlacedToken} (minus : isMinus t.token = true) :
    ∃ place, t = ⟨.operator .subtract, place⟩ := by
  obtain ⟨token, place⟩ := t
  cases token with
  | operator op =>
    cases op with
    | subtract => exact ⟨place, rfl⟩
    | _ => cases minus
  | _ => cases minus

theorem startsGroup_iff : startsGroup tail = true ↔ NextIs isLeftParen tail := by
  unfold startsGroup NextIs
  split
  case h_1 => simp [isLeftParen]
  case h_2 other =>
    rcases tail with _ | ⟨⟨token, place⟩, tail⟩
    · simp
    · cases token with
      | leftParen => exact absurd rfl (other place tail)
      | _ => simp [isLeftParen]

/-! ### Readers -/

variable {α β : Type}

/-- The reading comes through to `tail`, or the only fault is that there is too much of something. -/
def Settles (reader : Reader α) (tokens tail : List PlacedToken) : Prop :=
  (∃ a, reader tokens = .ok (a, tail)) ∨ (∃ f count, reader tokens = .error (.arity f count)) ∨
    reader tokens = .error .tooDeep

theorem Settles.of_eq {reader other : Reader α} {tokens others : List PlacedToken} (settles : Settles other others tail)
    (same : reader tokens = other others) : Settles reader tokens tail := by
  rwa [Settles, same]

/-- The reader takes `v` for `a`, and sees of what follows no more than the first token. -/
structure Took (ends : Token → Bool) (reader : Reader α) (v rest : List PlacedToken) (a : α) : Prop where
  isPiece : IsPiece v
  again : ∀ tail, CanReplace ends rest tail → reader (v ++ tail) = .ok (a, tail)

/-- The reader cannot go on at `t` behind `v`, whatever follows. With the filler in the place of `t` it can. -/
structure StuckAt (ends : Token → Bool) (reader : Reader α) (v : List PlacedToken) (t : PlacedToken)
    (filler : List PlacedToken) : Prop where
  fails : ∀ rest result, reader (v ++ t :: rest) ≠ .ok result
  fills : ∀ u ∈ filler, isFiller u.token
  isPiece : IsPiece (v ++ filler)
  settles : ∀ tail, NextIs ends tail → Settles reader (v ++ (filler ++ tail)) tail

/-- On these tokens, which the end of the input follows somewhere, the reader looks no further than the token
that it stops at. The two conditions say whether it may take nothing, and whether it may stop at a wrong token
before it has taken anything. -/
structure ReadsLocally (ends : Token → Bool) (mayTakeNone mayStickAtOnce : Prop) (reader : Reader α)
    (tokens : List PlacedToken) : Prop where
  took : ∀ {a rest}, reader tokens = .ok (a, rest) →
    ∃ v, tokens = v ++ rest ∧ (v = [] → mayTakeNone) ∧ Took ends reader v rest a
  stuck : ∀ {position found expected}, reader tokens = .error (.unexpected position found expected) →
    (∃ t ∈ tokens, t.token = .endOfInput) →
    ∃ v rest filler, tokens = v ++ ⟨found, position⟩ :: rest ∧ (v = [] → mayStickAtOnce) ∧
      StuckAt ends reader v ⟨found, position⟩ filler

variable {p q : Prop} {reader other : Reader α} {tokens : List PlacedToken} {t : PlacedToken}

theorem ReadsLocally.mono {fewer : Token → Bool} {p' q' : Prop} (reads : ReadsLocally ends p q reader tokens)
    (among : ∀ token, fewer token → ends token) (le : p → p') (le' : q → q') :
    ReadsLocally fewer p' q' reader tokens where
  took done := by
    obtain ⟨v, split, none, took⟩ := reads.took done
    refine ⟨v, split, fun empty => le (none empty), took.isPiece, fun tail replaces => took.again tail ?_⟩
    exact replaces.imp_right fun ⟨t, member, isEnd⟩ => ⟨t, member, among _ isEnd⟩
  stuck fails hasEnd := by
    obtain ⟨v, rest, filler, split, atOnce, stuck⟩ := reads.stuck fails hasEnd
    refine ⟨v, rest, filler, split, fun empty => le' (atOnce empty), stuck.fails, stuck.fills, stuck.isPiece, ?_⟩
    exact fun tail ⟨t, member, isEnd⟩ => stuck.settles tail ⟨t, member, among _ isEnd⟩

/-- A reader that takes at least one token may be exchanged for one that does the same behind this token. -/
theorem ReadsLocally.congr_cons (reads : ReadsLocally ends False False other (t :: rest))
    (same : ∀ x, reader (t :: x) = other (t :: x)) : ReadsLocally ends False False reader (t :: rest) where
  took done := by
    obtain ⟨v, split, none, took⟩ := reads.took ((same rest).symm.trans done)
    cases v with
    | nil => exact (none rfl).elim
    | cons u v =>
      cases split
      exact ⟨t :: v, rfl, nofun, took.isPiece, fun tail replaces => (same _).trans (took.again tail replaces)⟩
  stuck fails hasEnd := by
    obtain ⟨v, behind, filler, split, atOnce, stuck⟩ := reads.stuck ((same rest).symm.trans fails) hasEnd
    cases v with
    | nil => exact (atOnce rfl).elim
    | cons u v =>
      obtain ⟨rfl, -⟩ := List.cons.inj split
      refine ⟨t :: v, behind, filler, split, nofun, ?_, stuck.fills, stuck.isPiece, fun tail ending => ?_⟩
      · exact fun rest result done => stuck.fails rest result ((same _).symm.trans done)
      · exact (stuck.settles tail ending).of_eq (same _)

/-- A token that another reader goes on behind. -/
theorem ReadsLocally.cons (reads : ReadsLocally ends p q other rest) (piece : IsPiece [t])
    (step : ∀ x, reader (t :: x) = other x) : ReadsLocally ends False False reader (t :: rest) where
  took done := by
    obtain ⟨v, split, -, took⟩ := reads.took ((step rest).symm.trans done)
    exact ⟨t :: v, by simp [split], nofun, piece.append took.isPiece,
      fun tail replaces => (step _).trans (took.again tail replaces)⟩
  stuck fails hasEnd := by
    obtain ⟨v, behind, filler, split, -, stuck⟩ :=
      reads.stuck ((step rest).symm.trans fails) (piece.exists_end_behind hasEnd)
    refine ⟨t :: v, behind, filler, by simp [split], nofun, ?_, stuck.fills, piece.append stuck.isPiece,
      fun tail ending => ?_⟩
    · exact fun rest result done => stuck.fails rest result ((step _).symm.trans done)
    · exact (stuck.settles tail ending).of_eq (step _)

theorem readsLocally_nil (fails : ∀ result, reader [] ≠ .ok result) : ReadsLocally ends p q reader [] where
  took done := absurd done (fails _)
  stuck _ hasEnd := by
    obtain ⟨t, member, -⟩ := hasEnd
    cases member

/-- A reader that takes nothing. -/
theorem readsLocally_pure {a : α} (stops : ∀ tail, CanReplace ends tokens tail → reader tail = .ok (a, tail)) :
    ReadsLocally ends True False reader tokens where
  took done := by
    rw [stops tokens (.inl rfl)] at done
    cases done
    exact ⟨[], rfl, fun _ => trivial, isPiece_nil, stops⟩
  stuck fails := by
    rw [stops tokens (.inl rfl)] at fails
    cases fails

/-- A reader that takes one token. -/
theorem readsLocally_single {a : α} (piece : IsPiece [t]) (step : ∀ x, reader (t :: x) = .ok (a, x)) :
    ReadsLocally ends False False reader (t :: rest) := by
  have none : ReadsLocally ends True False (fun x => .ok (a, x)) rest := readsLocally_pure fun _ _ => rfl
  exact none.cons piece step

/-- A reader that gives up, but not because of the next token. -/
theorem readsLocally_error (error : GrammarError) (gives : reader tokens = .error error)
    (other : ∀ position found expected, error ≠ .unexpected position found expected) :
    ReadsLocally ends p q reader tokens where
  took done := by
    rw [gives] at done
    cases done
  stuck fails := by
    rw [gives] at fails
    cases fails
    exact absurd rfl (other _ _ _)

/-- A reader that does not accept the next token. -/
theorem readsLocally_wrong {expected : Expectation} (filler : List PlacedToken)
    (wrong : ∀ x, reader (t :: x) = .error (.unexpected t.position t.token expected))
    (fills : ∀ u ∈ filler, isFiller u.token) (piece : IsPiece filler)
    (settles : ∀ tail, NextIs ends tail → Settles reader (filler ++ tail) tail) :
    ReadsLocally ends True True reader (t :: rest) where
  took done := by
    rw [wrong] at done
    cases done
  stuck fails _ := by
    rw [wrong] at fails
    cases fails
    refine ⟨[], rest, filler, rfl, fun _ => trivial, ?_, fills, piece, settles⟩
    intro rest result done
    rw [List.nil_append, wrong] at done
    cases done

/-! ### Two readers, one behind the other -/

section
variable {first : Reader α} {next : α → Reader β} {a : α} {b : β} {filler : List PlacedToken}

theorem bind_of_ok (taken : first tokens = .ok (a, rest)) :
    (first tokens >>= fun read => next read.1 read.2) = next a rest := by
  rw [taken]
  rfl

theorem bind_of_error {error : GrammarError} (gives : first tokens = .error error) :
    (first tokens >>= fun read => next read.1 read.2) = .error error := by
  rw [gives]
  rfl

theorem Settles.bind (settles : Settles first tokens tail) (stops : ∀ a, Settles (next a) tail tail) :
    Settles (fun tokens => first tokens >>= fun read => next read.1 read.2) tokens tail := by
  obtain ⟨a, taken⟩ | ⟨f, count, gives⟩ | gives := settles
  · exact (stops a).of_eq (bind_of_ok taken)
  · exact .inr (.inl ⟨f, count, bind_of_error gives⟩)
  · exact .inr (.inr (bind_of_error gives))

theorem Took.bind (took : Took ends first v (w ++ rest) a) (more : Took ends (next a) w rest b) :
    Took ends (fun tokens => first tokens >>= fun read => next read.1 read.2) (v ++ w) rest b where
  isPiece := took.isPiece.append more.isPiece
  again tail replaces := by
    have again := took.again (w ++ tail) replaces.append
    rw [List.append_assoc]
    exact (bind_of_ok again).trans (more.again tail replaces)

/-- Where the first reader is stuck, both are. -/
theorem StuckAt.bind (stuck : StuckAt ends first v t filler)
    (stops : ∀ a tail, NextIs ends tail → Settles (next a) tail tail) :
    StuckAt ends (fun tokens => first tokens >>= fun read => next read.1 read.2) v t filler where
  fails rest result done := by
    obtain ⟨read, taken, -⟩ := ok_of_bind done
    exact stuck.fails rest read taken
  fills := stuck.fills
  isPiece := stuck.isPiece
  settles tail ending := (stuck.settles tail ending).bind fun a => stops a tail ending

/-- Where the second reader is stuck, both are. The first one does not see whether the token in question or a filler
comes then, for the second has taken something in front of it. -/
theorem Took.stuckAt_bind (took : Took ends first v (w ++ rest) a) (nonempty : w ≠ [])
    (stuck : StuckAt ends (next a) w t filler) :
    StuckAt ends (fun tokens => first tokens >>= fun read => next read.1 read.2) (v ++ w) t filler where
  fails rest result done := by
    have again := took.again (w ++ t :: rest) (canReplace_append nonempty)
    rw [List.append_assoc] at done
    exact stuck.fails rest result ((bind_of_ok again).symm.trans done)
  fills := stuck.fills
  isPiece := by
    rw [List.append_assoc]
    exact took.isPiece.append stuck.isPiece
  settles tail ending := by
    have again := took.again (w ++ (filler ++ tail)) (canReplace_append nonempty)
    rw [List.append_assoc]
    exact (stuck.settles tail ending).of_eq (bind_of_ok again)

end

/-- A reader and another one behind it look no further than the two of them do. -/
theorem ReadsLocally.bind {first : Reader α} (reads : ReadsLocally ends p q first tokens) (next : α → Reader β)
    (more : ∀ a rest, first tokens = .ok (a, rest) → ReadsLocally ends True False (next a) rest)
    (stops : ∀ a tail, NextIs ends tail → Settles (next a) tail tail) :
    ReadsLocally ends p q (fun tokens => first tokens >>= fun read => next read.1 read.2) tokens where
  took done := by
    obtain ⟨⟨a, behind⟩, read, finish⟩ := ok_of_bind done
    obtain ⟨v, rfl, none, took⟩ := reads.took read
    obtain ⟨w, rfl, -, tookMore⟩ := (more a behind read).took finish
    exact ⟨v ++ w, by simp, fun empty => none (List.append_eq_nil_iff.mp empty).1, took.bind tookMore⟩
  stuck := by
    intro position found expected fails hasEnd
    cases read : first tokens with
    | error error =>
      simp only [read] at fails
      cases fails
      obtain ⟨v, rest, filler, split, atOnce, stuck⟩ := reads.stuck read hasEnd
      exact ⟨v, rest, filler, split, atOnce, stuck.bind stops⟩
    | ok result =>
      obtain ⟨a, behind⟩ := result
      simp only [read] at fails
      obtain ⟨v, rfl, none, took⟩ := reads.took read
      obtain ⟨w, rest, filler, rfl, nonempty, stuck⟩ :=
        (more a behind read).stuck fails (took.isPiece.exists_end_behind hasEnd)
      exact ⟨v ++ w, rest, filler, by simp, fun empty => (nonempty (List.append_eq_nil_iff.mp empty).2).elim,
        took.stuckAt_bind nonempty stuck⟩

/-- What a reader has made may be changed. -/
theorem ReadsLocally.map {first : Reader α} (reads : ReadsLocally ends p q first tokens) (f : α → β) :
    ReadsLocally ends p q (fun tokens => first tokens >>= fun read => .ok (f read.1, read.2)) tokens :=
  reads.bind (fun a rest => .ok (f a, rest)) (fun _ _ _ => readsLocally_pure fun _ _ => rfl)
    fun _ _ _ => .inl ⟨_, rfl⟩

end

/-! ### Readers that stop -/

section
variable {α : Type} {tokens rest : List PlacedToken} {t : PlacedToken}

theorem not_nextIs_of_closing {links : Token → Bool} {tail : List PlacedToken} (right : links .rightParen = false)
    (atEnd : links .endOfInput = false) (closes : NextIs isClosing tail) : ¬ NextIs links tail := by
  rintro ⟨t, member, goesOn⟩
  obtain ⟨u, closing, isEnd⟩ := closes
  cases Option.mem_unique member closing
  obtain ⟨token, place⟩ := t
  cases token with
  | rightParen => simp [right] at goesOn
  | endOfInput => simp [atEnd] at goesOn
  | _ => cases isEnd

variable {reader : Reader α} {a : α}

/-- A reader that only goes on with tokens of a kind takes none of the others. -/
theorem readsLocally_stop (links : Token → Bool) (right : links .rightParen = false) (atEnd : links .endOfInput = false)
    (stops : ∀ tail, ¬ NextIs links tail → reader tail = .ok (a, tail)) (here : ¬ NextIs links tokens) :
    ReadsLocally isClosing True False reader tokens := by
  refine readsLocally_pure fun tail replaces => stops tail ?_
  rcases replaces with same | closes
  · rwa [NextIs, same]
  · exact not_nextIs_of_closing right atEnd closes

end

end GraphingCalculator.Grammar
