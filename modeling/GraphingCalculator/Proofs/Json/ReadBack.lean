import GraphingCalculator.Json.Printer
import GraphingCalculator.Proofs.Json.Numeral
import GraphingCalculator.Proofs.Json.Text

/-!
The text of a document that keeps the rules of JSON is read back as this document (`parse?_render`).
-/

namespace GraphingCalculator.Json

/-- The numbers of the document and the bodies of its strings keep the rules of JSON. -/
inductive IsStrict : Json → Prop where
  | null : IsStrict .null
  | bool (b : Bool) : IsStrict (.bool b)
  | number {n : Numeral} (strict : n.IsStrict) : IsStrict (.number n)
  | string {body : String} (isBody : IsBody body) : IsStrict (.string body)
  | array {items : List Json} (strict : ∀ item ∈ items, IsStrict item) : IsStrict (.array items)
  | object {members : List (String × Json)} (keys : ∀ member ∈ members, IsBody member.1)
      (strict : ∀ member ∈ members, IsStrict member.2) : IsStrict (.object members)

/-! ### Texts -/

/-- The text between the brackets of an array. -/
def itemsText (items : List Json) : List Char :=
  (",".intercalate (renderItems items)).toList

/-- The text between the braces of an object. -/
def membersText (members : List (String × Json)) : List Char :=
  (",".intercalate (renderMembers members)).toList

theorem toList_render_array (items : List Json) :
    (render (.array items)).toList = '[' :: (itemsText items ++ [']']) := by
  simp [render, itemsText]

theorem toList_render_object (members : List (String × Json)) :
    (render (.object members)).toList = '\x7b' :: (membersText members ++ ['\x7d']) := by
  simp [render, membersText]

theorem itemsText_singleton (item : Json) : itemsText [item] = item.render.toList := by
  simp [itemsText, renderItems]

theorem itemsText_cons_cons (item next : Json) (rest : List Json) :
    itemsText (item :: next :: rest) = item.render.toList ++ ',' :: itemsText (next :: rest) := by
  simp [itemsText, renderItems]

/-- The text of a key and what stands between it and the value. -/
def keyText (key : String) : List Char :=
  '"' :: (key.toList ++ ['"', ':'])

theorem membersText_singleton (key : String) (value : Json) :
    membersText [(key, value)] = keyText key ++ value.render.toList := by
  simp [membersText, renderMembers, keyText, quoted]

theorem membersText_cons_cons (key : String) (value : Json) (next : String × Json) (rest : List (String × Json)) :
    membersText ((key, value) :: next :: rest) =
      keyText key ++ value.render.toList ++ ',' :: membersText (next :: rest) := by
  obtain ⟨other, nextValue⟩ := next
  simp [membersText, renderMembers, keyText, quoted]

/-! ### Reading -/

/-- The text behind a document neither goes on with it as a number nor starts another one. -/
def Ends (rest : List Char) : Prop :=
  ∀ c ∈ rest.head?, Lexeme.endsNumeral c

theorem skipSpace_cons {c : Char} (visible : isSpace c = false) (text : List Char) :
    skipSpace (c :: text) = c :: text := by
  simp [skipSpace, visible]

/-- A document starts visibly, and is read in front of any text that ends it. -/
structure ReadsBack (j : Json) : Prop where
  first : ∃ c text, j.render.toList = c :: text ∧ isSpace c = false ∧ c ≠ ']'
  again : ∀ fuel rest, 2 * j.render.toList.length ≤ fuel + 2 → Ends rest →
    takeValue (fuel + 1) (j.render.toList ++ rest) = some (j, rest)

theorem ne_of_number {c other : Char} (starts : c.isDigit ∨ c = '-') (noDigit : other.isDigit = false)
    (noSign : other ≠ '-') : c ≠ other := by
  rintro rfl
  simp [noDigit, noSign] at starts

theorem visible_of_number {c : Char} (starts : c.isDigit ∨ c = '-') : isSpace c = false := by
  have apart (other : Char) (noDigit : other.isDigit = false) (noSign : other ≠ '-') : c ≠ other :=
    ne_of_number starts noDigit noSign
  simp [isSpace, apart ' ' rfl (by decide), apart '\t' rfl (by decide), apart '\n' rfl (by decide),
    apart '\r' rfl (by decide)]

theorem takeValue_quote (fuel : Nat) (text : List Char) :
    takeValue (fuel + 1) ('"' :: text) = (takeBody [] text).map fun (body, rest) => (.string body, rest) := rfl

theorem takeValue_bracket {fuel : Nat} {text : List Char} (nonempty : ∀ rest, skipSpace text ≠ ']' :: rest) :
    takeValue (fuel + 1) ('[' :: text) = takeItems fuel [] text := by
  rw [takeValue, skipSpace_cons rfl]
  -- `nonempty` rules out the branch of a bracket that closes at once.
  simp only

theorem takeValue_brace {fuel : Nat} {text : List Char} (nonempty : ∀ rest, skipSpace text ≠ '\x7d' :: rest) :
    takeValue (fuel + 1) ('\x7b' :: text) = takeMembers fuel [] text := by
  rw [takeValue, skipSpace_cons rfl]
  simp only

theorem takeNumber {c : Char} (fuel : Nat) (text : List Char) (starts : c.isDigit ∨ c = '-') :
    takeValue (fuel + 1) (c :: text) = (takeNumeral (c :: text)).map fun (n, rest) => (.number n, rest) := by
  rw [takeValue, skipSpace_cons (visible_of_number starts)]
  split
  case h_7 => rfl
  all_goals
    next split => exact absurd (List.cons.inj split).1 (ne_of_number starts rfl (by decide))

theorem exists_first_chars {n : Numeral} (strict : n.IsStrict) :
    ∃ c text, n.chars = c :: text ∧ (c.isDigit ∨ c = '-') := by
  obtain ⟨digit, whole, digits⟩ := List.exists_cons_of_ne_nil strict.nonempty
  unfold Numeral.chars
  cases n.negative with
  | true => exact ⟨'-', _, rfl, .inr rfl⟩
  | false => exact ⟨digit, _, by rw [digits]; rfl, .inl (strict.wholeDigits digit (by simp [digits]))⟩

theorem readsBack_number {n : Numeral} (strict : n.IsStrict) : ReadsBack (.number n) where
  first := by
    obtain ⟨c, text, chars, starts⟩ := exists_first_chars strict
    exact ⟨c, text, by simp [render, Numeral.render, chars], visible_of_number starts, ne_of_number starts rfl (by decide)⟩
  again fuel rest _ ends := by
    obtain ⟨c, text, chars, starts⟩ := exists_first_chars strict
    have read := takeNumeral_chars strict ends
    have whole : (render (.number n)).toList = n.chars := by simp [render, Numeral.render]
    rw [whole]
    rw [chars, List.cons_append] at *
    rw [takeNumber fuel _ starts, read]
    rfl

section
variable {fuel : Nat} {rest : List Char}

theorem takeItems_comma {item : Json} {found : List Json} (reads : ReadsBack item)
    (enough : 2 * item.render.toList.length ≤ fuel + 2) :
    takeItems (fuel + 2) found (item.render.toList ++ ',' :: rest) = takeItems (fuel + 1) (item :: found) rest := by
  have read := reads.again fuel (',' :: rest) enough (by rintro c ⟨⟩; rfl)
  simp only [takeItems, read, skipSpace_cons (c := ',') rfl]

theorem takeItems_close {item : Json} {found : List Json} (reads : ReadsBack item)
    (enough : 2 * item.render.toList.length ≤ fuel + 2) :
    takeItems (fuel + 2) found (item.render.toList ++ ']' :: rest) = some (.array (item :: found).reverse, rest) := by
  have read := reads.again fuel (']' :: rest) enough (by rintro c ⟨⟩; rfl)
  simp only [takeItems, read, skipSpace_cons (c := ']') rfl]

theorem keyText_append (key : String) (text : List Char) :
    keyText key ++ text = '"' :: (key.toList ++ '"' :: ':' :: text) := by
  simp [keyText]

theorem takeMembers_comma {key : String} {value : Json} {found : List (String × Json)} (isBody : IsBody key)
    (reads : ReadsBack value) (enough : 2 * value.render.toList.length ≤ fuel + 2) :
    takeMembers (fuel + 2) found (keyText key ++ (value.render.toList ++ ',' :: rest)) =
      takeMembers (fuel + 1) ((key, value) :: found) rest := by
  have read := reads.again fuel (',' :: rest) enough (by rintro c ⟨⟩; rfl)
  rw [keyText_append]
  simp only [takeMembers, skipSpace_cons (c := '"') rfl, isBody (':' :: _), skipSpace_cons (c := ':') rfl, read,
    skipSpace_cons (c := ',') rfl]

theorem takeMembers_close {key : String} {value : Json} {found : List (String × Json)} (isBody : IsBody key)
    (reads : ReadsBack value) (enough : 2 * value.render.toList.length ≤ fuel + 2) :
    takeMembers (fuel + 2) found (keyText key ++ (value.render.toList ++ '\x7d' :: rest)) =
      some (.object ((key, value) :: found).reverse, rest) := by
  have read := reads.again fuel ('\x7d' :: rest) enough (by rintro c ⟨⟩; rfl)
  rw [keyText_append]
  simp only [takeMembers, skipSpace_cons (c := '"') rfl, isBody (':' :: _), skipSpace_cons (c := ':') rfl, read,
    skipSpace_cons (c := '\x7d') rfl]

end

section
variable {items : List Json} {members : List (String × Json)}

theorem first_itemsText (nonempty : items ≠ []) (each : ∀ item ∈ items, ReadsBack item) :
    ∃ c text, itemsText items = c :: text ∧ isSpace c = false ∧ c ≠ ']' := by
  obtain ⟨item, behind, rfl⟩ := List.exists_cons_of_ne_nil nonempty
  obtain ⟨c, text, first, visible, noClosing⟩ := (each item (by simp)).first
  cases behind with
  | nil => exact ⟨c, text, by rw [itemsText_singleton, first], visible, noClosing⟩
  | cons next behind => exact ⟨c, _, by rw [itemsText_cons_cons, first, List.cons_append], visible, noClosing⟩

theorem takeItems_itemsText (nonempty : items ≠ []) (each : ∀ item ∈ items, ReadsBack item) (fuel : Nat)
    (found : List Json) (rest : List Char) (enough : 2 * (itemsText items).length ≤ fuel) :
    takeItems fuel found (itemsText items ++ ']' :: rest) = some (.array (found.reverse ++ items), rest) := by
  induction items generalizing fuel found with
  | nil => exact absurd rfl nonempty
  | cons item behind ih =>
    have here := each item (by simp)
    obtain ⟨c, text, first, -⟩ := first_itemsText nonempty each
    have length : 0 < (itemsText (item :: behind)).length := by simp [first]
    obtain ⟨fuel, rfl⟩ := Nat.exists_eq_add_of_le' (show 2 ≤ fuel by omega)
    cases behind with
    | nil =>
      rw [itemsText_singleton] at *
      rw [takeItems_close here enough]
      simp
    | cons next behind =>
      rw [itemsText_cons_cons] at *
      simp only [List.length_append, List.length_cons] at enough
      have more := ih (by simp) (fun other member => each other (List.mem_cons_of_mem _ member)) (fuel + 1)
        (item :: found) (by omega)
      rw [List.append_assoc, List.cons_append, takeItems_comma here (by omega), more]
      simp

theorem first_membersText (nonempty : members ≠ []) : ∃ text, membersText members = '"' :: text := by
  obtain ⟨⟨key, value⟩, behind, rfl⟩ := List.exists_cons_of_ne_nil nonempty
  cases behind with
  | nil => exact ⟨_, by rw [membersText_singleton, keyText, List.cons_append]⟩
  | cons next behind => exact ⟨_, by rw [membersText_cons_cons, keyText, List.cons_append, List.cons_append]⟩

theorem takeMembers_membersText (nonempty : members ≠ []) (keys : ∀ member ∈ members, IsBody member.1)
    (each : ∀ member ∈ members, ReadsBack member.2) (fuel : Nat) (found : List (String × Json)) (rest : List Char)
    (enough : 2 * (membersText members).length ≤ fuel) :
    takeMembers fuel found (membersText members ++ '\x7d' :: rest) =
      some (.object (found.reverse ++ members), rest) := by
  induction members generalizing fuel found with
  | nil => exact absurd rfl nonempty
  | cons member behind ih =>
    obtain ⟨key, value⟩ := member
    have here : ReadsBack value := each (key, value) (by simp)
    have isBody : IsBody key := keys (key, value) (by simp)
    obtain ⟨text, first⟩ := first_membersText nonempty
    have length : 0 < (membersText ((key, value) :: behind)).length := by simp [first]
    obtain ⟨fuel, rfl⟩ := Nat.exists_eq_add_of_le' (show 2 ≤ fuel by omega)
    cases behind with
    | nil =>
      rw [membersText_singleton] at *
      simp only [List.length_append] at enough
      rw [List.append_assoc, takeMembers_close isBody here (by omega)]
      simp
    | cons next behind =>
      rw [membersText_cons_cons] at *
      simp only [List.length_append, List.length_cons] at enough
      have more := ih (by simp) (fun other member => keys other (List.mem_cons_of_mem _ member))
        (fun other member => each other (List.mem_cons_of_mem _ member)) (fuel + 1) ((key, value) :: found) (by omega)
      rw [List.append_assoc, List.append_assoc, List.cons_append, takeMembers_comma isBody here (by omega), more]
      simp

theorem readsBack_array (each : ∀ item ∈ items, ReadsBack item) : ReadsBack (.array items) where
  first := ⟨'[', _, toList_render_array items, rfl, by decide⟩
  again fuel rest enough ends := by
    rw [toList_render_array] at *
    simp only [List.length_cons, List.length_append, List.length_nil] at enough
    rw [List.cons_append, List.append_assoc, List.singleton_append]
    by_cases nonempty : items = []
    · subst nonempty
      rfl
    · obtain ⟨c, text, first, visible, noClosing⟩ := first_itemsText nonempty each
      have goesOn (behind : List Char) : skipSpace (itemsText items ++ ']' :: rest) ≠ ']' :: behind := by
        rw [first, List.cons_append, skipSpace_cons visible]
        exact fun closes => noClosing (List.cons.inj closes).1
      rw [takeValue_bracket goesOn]
      exact takeItems_itemsText nonempty each fuel [] rest (by omega)

theorem readsBack_object (keys : ∀ member ∈ members, IsBody member.1) (each : ∀ member ∈ members, ReadsBack member.2) :
    ReadsBack (.object members) where
  first := ⟨'\x7b', _, toList_render_object members, rfl, by decide⟩
  again fuel rest enough ends := by
    rw [toList_render_object] at *
    simp only [List.length_cons, List.length_append, List.length_nil] at enough
    rw [List.cons_append, List.append_assoc, List.singleton_append]
    by_cases nonempty : members = []
    · subst nonempty
      rfl
    · obtain ⟨text, first⟩ := first_membersText nonempty
      have goesOn (behind : List Char) : skipSpace (membersText members ++ '\x7d' :: rest) ≠ '\x7d' :: behind := by
        rw [first, List.cons_append, skipSpace_cons rfl]
        exact fun closes => absurd (List.cons.inj closes).1 (by decide)
      rw [takeValue_brace goesOn]
      exact takeMembers_membersText nonempty keys each fuel [] rest (by omega)

end

theorem readsBack_null : ReadsBack .null where
  first := ⟨'n', _, rfl, rfl, by decide⟩
  again _ _ _ _ := rfl

theorem readsBack_bool (b : Bool) : ReadsBack (.bool b) where
  first := by
    cases b with
    | true => exact ⟨'t', _, rfl, rfl, by decide⟩
    | false => exact ⟨'f', _, rfl, rfl, by decide⟩
  again _ _ _ _ := by cases b <;> rfl

theorem readsBack_string {body : String} (isBody : IsBody body) : ReadsBack (.string body) := by
  have whole : (render (.string body)).toList = '"' :: (body.toList ++ ['"']) := by simp [render, quoted]
  refine ⟨⟨'"', _, whole, rfl, by decide⟩, fun fuel rest _ _ => ?_⟩
  rw [whole, List.cons_append, List.append_assoc, List.singleton_append, takeValue_quote, isBody rest]
  rfl

theorem readsBack_of_isStrict {j : Json} (strict : IsStrict j) : ReadsBack j := by
  induction strict with
  | null => exact readsBack_null
  | bool b => exact readsBack_bool b
  | number strict => exact readsBack_number strict
  | string isBody => exact readsBack_string isBody
  | array _ each => exact readsBack_array each
  | object keys _ each => exact readsBack_object keys each

/-- A document that keeps the rules is what its text is read as. -/
theorem parse?_render {j : Json} (strict : IsStrict j) : parse? j.render = some j := by
  have read := (readsBack_of_isStrict strict).again (2 * j.render.toList.length) [] (by omega) (by rintro c ⟨⟩)
  rw [List.append_nil] at read
  unfold parse?
  dsimp only
  rw [read]
  rfl

end GraphingCalculator.Json
