import GraphingCalculator.Json.Library
import Mathlib.Data.List.Forall2
import Mathlib.Data.List.Nodup

/-!
Documents, member by member. A library that knows its own strings again reads the members of an object under
the keys that they were written with (`toMembers?_document`), and the fields of a record as they were written,
the absent ones as absent (`toFields?_present`).
-/

namespace GraphingCalculator

theorem Datum.within_ofList {α : Type} {item : α → Datum} {depth : Nat} (each : ∀ a, (item a).Within depth)
    (items : List α) : (ofList item items).Within (depth + 1) :=
  .array (List.forall_mem_map.mpr fun a _ => each a)

namespace JsonScalars
variable (json : JsonScalars)

/-! ### Documents -/

theorem documents_eq_map (items : List Datum) : json.documents items = items.map json.document := by
  induction items with
  | nil => rfl
  | cons item items ih => rw [documents, ih, List.map_cons]

theorem documentsByKey_eq_map (members : List (String × Datum)) :
    json.documentsByKey members = members.map fun member => (json.quote member.1, json.document member.2) := by
  induction members with
  | nil => rfl
  | cons member members ih =>
    obtain ⟨key, value⟩ := member
    rw [documentsByKey, ih, List.map_cons]

theorem document_ofList {α : Type} (item : α → Datum) (items : List α) :
    json.document (.ofList item items) = .array (items.map fun a => json.document (item a)) := by
  rw [Datum.ofList, document, documents_eq_map, List.map_map]
  rfl

end JsonScalars

namespace Json

/-! ### Records -/

/-- The members of a record: the names in their order, each with its value, unless it has none. -/
def present {α : Type} : List String → List (Option α) → List (String × α)
  | name :: names, some value :: values => (name, value) :: present names values
  | _ :: names, none :: values => present names values
  | _, _ => []

section
variable {α : Type} {names : List String} {values : List (Option α)}

theorem mem_present {member : String × α} (inside : member ∈ present names values) :
    member.1 ∈ names ∧ some member.2 ∈ values := by
  fun_induction present names values with
  | case1 name names value values ih =>
    rcases List.mem_cons.mp inside with rfl | behind
    · exact ⟨by simp, by simp⟩
    · exact (ih behind).imp (List.mem_cons_of_mem _) (List.mem_cons_of_mem _)
  | case2 name names values ih => exact (ih inside).imp (List.mem_cons_of_mem _) (List.mem_cons_of_mem _)
  | case3 => cases inside

theorem within_object_present {names : List String} {values : List (Option Datum)} {depth : Nat}
    (each : ∀ value, some value ∈ values → value.Within depth) :
    (Datum.object (present names values)).Within (depth + 1) :=
  .object fun member inside => each member.2 (mem_present inside).2

theorem map_present {β : Type} (f : α → β) (names : List String) (values : List (Option α)) :
    (present names values).map (fun member => (member.1, f member.2)) = present names (values.map (·.map f)) := by
  induction names generalizing values with
  | nil => rfl
  | cons name names ih =>
    cases values with
    | nil => rfl
    | cons value values =>
      cases value with
      | none => exact ih values
      | some value => exact congrArg ((name, f value) :: ·) (ih values)

end

theorem mapM_eq_some_iff {α β : Type} {f : α → Option β} {as : List α} {bs : List β} :
    as.mapM f = some bs ↔ List.Forall₂ (fun a b => f a = some b) as bs := by
  induction as generalizing bs with
  | nil => simp [eq_comm]
  | cons a as ih =>
    simp only [List.mapM_cons, List.forall₂_cons_left_iff, ← ih]
    simp [Option.bind_eq_some_iff, eq_comm (a := bs)]

/-! ### Fields -/

section
variable {names : List String} {values : List (Option Json)} {members : List (String × Json)} {name : String}

theorem member?_of_absent (absent : ∀ member ∈ members, member.1 ≠ name) : member? members name = some none := by
  have nothing : members.filter (·.1 = name) = [] := by simpa using absent
  rw [member?, nothing]

theorem member?_cons_self (value : Json) (absent : ∀ member ∈ members, member.1 ≠ name) :
    member? ((name, value) :: members) name = some (some value) := by
  have nothing : members.filter (·.1 = name) = [] := by simpa using absent
  rw [member?, List.filter_cons_of_pos (by simp), nothing]

theorem member?_cons_of_ne {member : String × Json} (other : member.1 ≠ name) :
    member? (member :: members) name = member? members name := by
  rw [member?, List.filter_cons_of_neg (by simpa using other), member?]

theorem forall₂_member?_present (nodup : names.Nodup) (length : values.length = names.length)
    (same : ∀ name ∈ names, member? members name = member? (present names values) name) :
    List.Forall₂ (fun name value => member? members name = some value) names values := by
  induction names generalizing values with
  | nil => simp [List.length_eq_zero_iff.mp length]
  | cons name names ih =>
    obtain ⟨fresh, nodup⟩ := List.nodup_cons.mp nodup
    have absent : ∀ member ∈ present names values.tail, member.1 ≠ name :=
      fun member inside other => fresh (other ▸ (mem_present inside).1)
    obtain ⟨value, values, rfl⟩ := List.exists_cons_of_length_eq_add_one length
    refine List.Forall₂.cons ?_ (ih nodup (by simpa using length) fun other inside => ?_)
    · rw [same name (by simp)]
      cases value with
      | none => exact member?_of_absent absent
      | some value => exact member?_cons_self value absent
    · rw [same other (by simp [inside])]
      cases value with
      | none => rfl
      | some value =>
        refine member?_cons_of_ne ?_
        rintro rfl
        exact fresh inside

end

/-! ### Optional fields -/

section
variable {α : Type} {write : α → Json} {read : Json → Option α} {value : Option α}

/-- What may be left out is read as it was written, unless it is written as null. -/
theorem elim_orNull_map (notNull : ∀ a, write a ≠ .null) (readsBack : ∀ a ∈ value, read (write a) = some a) :
    (value.map write).elim (some none) (orNull read) = some value := by
  cases value with
  | none => rfl
  | some a =>
    show orNull read (write a) = some (some a)
    unfold orNull
    split
    case h_1 isNull => exact absurd isNull (notNull a)
    case h_2 => rw [readsBack a rfl, Option.map_some]

/-- A field that may be left out has its default, or a document has been read as it. -/
theorem eq_or_exists_read_of_elim {field : Option Json} {default a : α}
    (done : field.elim (some default) read = some a) : a = default ∨ ∃ j, read j = some a := by
  cases field with
  | none => exact .inl (Option.some.inj done).symm
  | some j => exact .inr ⟨j, done⟩

/-- What is read from a field that may be left out, a document has been read as. -/
theorem exists_read_of_elim_orNull {field : Option Json} (done : field.elim (some none) (orNull read) = some value) :
    ∀ a ∈ value, ∃ j, read j = some a := by
  rintro a rfl
  cases field with
  | none => cases done
  | some j =>
    have done : orNull read j = some (some a) := done
    unfold orNull at done
    split at done
    case h_1 => cases done
    case h_2 => exact ⟨j, by simpa using done⟩

end

end Json

namespace JsonScalars
variable {json : JsonScalars}

/-! ### Reading -/

/-- The members of an object are read under the keys that they were written with. -/
theorem toMembers?_document (quoted : ∀ text, json.text? (json.quote text) = some text)
    (members : List (String × Datum)) :
    json.toMembers? (json.document (.object members)) =
      some (members.map fun member => (member.1, json.document member.2)) := by
  rw [document, documentsByKey_eq_map]
  refine Json.mapM_eq_some_iff.mpr (List.forall₂_map_left_iff.mpr (List.forall₂_map_right_iff.mpr ?_))
  refine List.forall₂_same.mpr fun member _ => ?_
  simp [quoted]

/-- The fields of a record are the ones that were written. -/
theorem toFields?_present (quoted : ∀ text, json.text? (json.quote text) = some text) {names : List String}
    {values : List (Option Datum)} (nodup : names.Nodup) (length : values.length = names.length) :
    json.toFields? names (json.document (.object (Json.present names values))) =
      some (values.map (·.map json.document)) := by
  show (json.toMembers? (json.document (.object (Json.present names values)))).bind
    (fun members => names.mapM (Json.member? members)) = _
  rw [toMembers?_document quoted, Json.map_present]
  exact Json.mapM_eq_some_iff.mpr (Json.forall₂_member?_present nodup (by simpa using length) fun _ _ => rfl)

end JsonScalars

end GraphingCalculator
