import GraphingCalculator.Json.Exact
import GraphingCalculator.Proofs.Json.Fields
import GraphingCalculator.Proofs.Json.ReadBack

/-!
The library that reads numbers exactly does what may be assumed of one: its documents keep the rules of JSON, so
their texts are read as them (`writesDocuments_exact`), and its values are read as what they were written for.
-/

namespace GraphingCalculator

namespace Json
variable {x : Float}

theorem isStrict_ofFloat (x : Float) : IsStrict (ofFloat x) := by
  unfold ofFloat
  split
  case isTrue finite => exact .number (isStrict_numeral finite)
  case isFalse => exact .null

theorem toFloat?_ofFloat (finite : x.isFinite) : JsonScalars.exact.toFloat? (ofFloat x) = some x := by
  rw [ofFloat, if_pos finite]
  show float? (numberLayout.numeral x) = some x
  rw [float?, toFloat_numeral finite, if_pos finite]

theorem isFinite_of_float? {n : Numeral} (read : float? n = some x) : x.isFinite := by
  unfold float? at read
  split at read
  case isTrue finite => rwa [← Option.some.inj read]
  case isFalse => cases read

theorem count?_ofCount (n : UInt64) : count? ⟨false, Nat.toDigits 10 n.toNat, [], none⟩ = some n := by
  simp only [count?, Decimal.digitsValue_toDigits]
  rw [if_pos n.toNat_lt_size, UInt64.ofNat_toNat]

end Json

namespace JsonScalars
open Json

mutual

theorem isStrict_document : ∀ datum, IsStrict (exact.document datum)
  | .null => .null
  | .bool b => .bool b
  | .float x => isStrict_ofFloat x
  | .count n => .number (Numeral.isStrict_ofNat n.toNat)
  | .string text => .string (isBody_escape text)
  | .array items => .array (isStrict_of_mem_documents items)
  | .object members =>
    .object (fun member inside => (isStrict_of_mem_documentsByKey members member inside).1)
      fun member inside => (isStrict_of_mem_documentsByKey members member inside).2

theorem isStrict_of_mem_documents : ∀ items, ∀ document ∈ exact.documents items, IsStrict document
  | [] => List.forall_mem_nil _
  | item :: rest => List.forall_mem_cons.mpr ⟨isStrict_document item, isStrict_of_mem_documents rest⟩

theorem isStrict_of_mem_documentsByKey :
    ∀ members, ∀ member ∈ exact.documentsByKey members, IsBody member.1 ∧ IsStrict member.2
  | [] => List.forall_mem_nil _
  | (key, value) :: rest =>
    List.forall_mem_cons.mpr ⟨⟨isBody_escape key, isStrict_document value⟩, isStrict_of_mem_documentsByKey rest⟩

end

end JsonScalars

namespace JsonLibrary
variable (complaint : String → String)

theorem writesDocuments_exact : (exact complaint).WritesDocuments where
  exists_text _ := ⟨_, rfl, Json.parse?_render (JsonScalars.isStrict_document _)⟩
  text?_quote text := by simp only [exact, JsonScalars.exact, Json.unescape?_escape]

theorem writesJson_exact : (exact complaint).WritesJson where
  toWritesDocuments := writesDocuments_exact complaint
  ofFloat_of_isFinite finite := ⟨_, if_pos finite⟩
  ofFloat_of_not_isFinite infinite := if_neg (by simp [infinite])

theorem roundTrips_exact : (exact complaint).RoundTrips where
  toWritesDocuments := writesDocuments_exact complaint
  toCount?_ofCount := Json.count?_ofCount
  toFloat?_ofFloat := Json.toFloat?_ofFloat
  isFinite_of_float? := Json.isFinite_of_float?

end JsonLibrary

end GraphingCalculator
