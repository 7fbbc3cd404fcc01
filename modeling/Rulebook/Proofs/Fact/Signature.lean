import Rulebook.Fact.Basic
import Rulebook.Proofs.Value.Similar

/-!
Signatures of remembered computations.

Facts whose ids are texts share a signature text if and only if it is one fact with parameters that
are alike (`signatureText_eq_iff`).  Of any values, ids and parameters that share a signature text are
similar (`signatureText_eq_iff_similar`).
-/

namespace Rulebook.Fact

@[simp]
theorem normalParams_normalParams (params : Value) :
    normalParams (normalParams params) = normalParams params := by
  by_cases h : params.truthy = true
  · have hsame : normalParams params = params := if_pos h
    rw [hsame, hsame]
  · have hempty : normalParams params = .empty := if_neg h
    rw [hempty]
    rfl

@[simp]
theorem signatureText_normalParams (id params : Value) :
    signatureText id (normalParams params) = signatureText id params := by
  rw [signatureText, normalParams_normalParams, signatureText]

/-- One signature text stands for one fact with one set of parameters, up to likeness. -/
theorem signatureText_eq_iff {name other : String} {params params' : Value}
    (h : (normalParams params).isJson = true) (h' : (normalParams params').isJson = true) :
    signatureText (.str name) params = signatureText (.str other) params' ↔
      name = other ∧ (normalParams params).alike (normalParams params') = true := by
  have hjson : ∀ (name : String) (params : Value), params.isJson = true →
      (Value.object [("id", .str name), ("params", params)]).isJson = true := by
    intro name params hparams
    rw [Value.isJson_object_iff]
    exact ⟨by simp, by simp [hparams, Value.isJson]⟩
  rw [signatureText, signatureText, Json.canonical_eq_iff (hjson name _ h) (hjson other _ h')]
  simp [Value.alike, Value.alikeMembers, Table.find?]

/-! ### All values -/

variable {id id' params params' : Value}

theorem proper_normalParams (h : params.Proper) : (normalParams params).Proper := by
  unfold normalParams
  split
  · exact h
  · exact .object List.nodup_nil fun _ hmember => nomatch hmember

/-- Objects of two members are similar if the members are. -/
theorem similar_signed_iff :
    (Value.object [("id", id), ("params", params)]).Similar
      (.object [("id", id'), ("params", params')]) ↔ id.Similar id' ∧ params.Similar params' := by
  constructor
  · intro h
    cases h with
    | refl => exact ⟨.refl _, .refl _⟩
    | array hfirst => cases hfirst
    | object _ heach => exact ⟨heach "id" id id' rfl rfl, heach "params" params params' rfl rfl⟩
  · rintro ⟨hid, hparams⟩
    refine .object (List.Perm.refl _) fun name x y hx hy => ?_
    simp only [Table.find?] at hx hy
    split at hx
    · next hname =>
        rw [if_pos hname] at hy
        cases hx
        cases hy
        exact hid
    · next hname =>
        rw [if_neg hname] at hy
        split at hx
        · next hname' =>
            rw [if_pos hname'] at hy
            cases hx
            cases hy
            exact hparams
        · cases hx

/-- Signature texts are the same if and only if the ids and the parameters are similar. -/
theorem signatureText_eq_iff_similar (hid : id.Proper) (hparams : params.Proper)
    (hid' : id'.Proper) (hparams' : params'.Proper) :
    signatureText id params = signatureText id' params' ↔
      id.Similar id' ∧ (normalParams params).Similar (normalParams params') := by
  have hsigned : ∀ {id params : Value}, id.Proper → params.Proper →
      (Value.object [("id", id), ("params", normalParams params)]).Proper := by
    intro id params hid hparams
    refine .object (by simp) fun member hmember => ?_
    rcases List.mem_cons.1 hmember with rfl | hmember
    · exact hid
    · rw [List.mem_singleton.1 hmember]
      exact proper_normalParams hparams
  rw [signatureText, signatureText,
    Value.canonical_eq_iff_similar (hsigned hid hparams) (hsigned hid' hparams'),
    similar_signed_iff]

end Rulebook.Fact
