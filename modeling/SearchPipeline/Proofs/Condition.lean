import SearchPipeline.Condition
import SearchPipeline.Proofs.Compiled

/-!
# Conditions that are described

A document that describes a condition has entries for its parts, and the value that the
condition is given is one of the document's values.
-/

namespace SearchPipeline.Condition

theorem ofBson_eq_ok_iff
    (field : String)
    (given : Bson)
    (condition : Condition) :
    ofBson field given = .ok condition ↔
      ∃ entries, given = .document entries ∧
        valueOf field (Document.get? entries "value") = .ok condition.value ∧
        modeOf field (Document.get? entries "matchMode") = .ok condition.mode ∧
        requiredOf field (Document.get? entries "required") = .ok condition.isRequired ∧
        propertyOf field (Document.get? entries "property") = .ok condition.property := by
  cases given with
  | document entries =>
      rcases condition with ⟨value, mode, isRequired, property⟩
      simp only [ofBson, bind_eq_ok_iff, Bson.document.injEq, exists_eq_left']
      constructor
      · rintro ⟨value, valued, mode, moded, isRequired, required, property, named, made⟩
        cases made
        exact ⟨valued, moded, required, named⟩
      · rintro ⟨valued, moded, required, named⟩
        exact ⟨value, valued, mode, moded, isRequired, required, property, named, rfl⟩
  | _ => simp [ofBson]

/-- A value that is given stands as it is, and is no empty list. -/
theorem valueOf_eq_ok
    {field : String}
    {given : Option Bson}
    {value : Bson}
    (valued : valueOf field given = .ok value) :
    given = some value ∧ value ≠ .array [] := by
  unfold valueOf givenValue? at valued
  grind

end SearchPipeline.Condition
