import Rulebook.Proofs.Fact.Signature

/-!
Requests whose parameters are rearranged.

Values of JSON are one value up to the order of members (`Value.Rearranged`) if and only if they have
one canonical text (`canonical_eq_iff_rearranged`).  So the signature of a fact with its parameters depends
on nothing but the id and that one value, and tells both (`Fact.signature_rearranged`), as far as
digests tell texts apart (`Digest.Tells`).  Floating point numbers are compared by their shortest
texts, and these tell the numbers (`rearranged_float_iff`).
-/

namespace Rulebook

/-- The digest tells the texts apart: they are no collision. -/
def Digest.Tells (text other : String) : Prop :=
  Digest.ofText text = Digest.ofText other → text = other

namespace Value

/-- The values are one value of JSON, but for the order of members, at any depth.  A whole number is
never a floating point number; floating point numbers are compared by their shortest texts. -/
inductive Rearranged : Value → Value → Prop where
  | null : Rearranged .null .null
  | bool (b : Bool) : Rearranged (.bool b) (.bool b)
  | int (n : Int) : Rearranged (.int n) (.int n)
  | float {x y : Binary64}
      (text : Binary64.Layout.json.render x = Binary64.Layout.json.render y) :
      Rearranged (.float x) (.float y)
  | str (text : String) : Rearranged (.str text) (.str text)
  | list {items others : List Value} (length : items.length = others.length)
      (each : ∀ (place : Nat) (x y : Value), items[place]? = some x → others[place]? = some y →
        Rearranged x y) : Rearranged (.list items) (.list others)
  | object {members others : Members} (names : (members.map Prod.fst).Perm (others.map Prod.fst))
      (each : ∀ (name : String) (x y : Value), members.find? name = some x →
        others.find? name = some y → Rearranged x y) :
      Rearranged (.object members) (.object others)

variable {a b : Value} {members others : Members} {x y : Binary64}

/-- The texts of floating point numbers tell the numbers. -/
theorem rearranged_float_iff (hx : x.IsProper) (hy : y.IsProper) :
    (Value.float x).Rearranged (.float y) ↔ x = y := by
  constructor
  · rintro (_ | _ | _ | htext | _ | _ | _)
    exact Binary64.render_injective (.inr rfl) hx hy htext
  · rintro rfl
    exact .float rfl

theorem Rearranged.alike (h : a.Rearranged b) (ha : a.isJson = true) (hb : b.isJson = true) :
    a.alike b = true := by
  induction h with
  | null => rfl
  | bool value => exact beq_self_eq_true value
  | int n => exact beq_self_eq_true n
  | float htext => exact beq_iff_eq.2 htext
  | str text => exact beq_self_eq_true text
  | @list items others hlength _ ih =>
      rw [isJson, isJsonAll_iff] at ha hb
      rw [Value.alike, alikeItems_iff, List.forall₂_iff_get]
      refine ⟨hlength, fun place hplace hplace' => ?_⟩
      exact ih place _ _ (List.getElem?_eq_getElem hplace) (List.getElem?_eq_getElem hplace')
        (ha _ (List.get_mem ..)) (hb _ (List.get_mem ..))
  | @object members others hnames _ ih =>
      obtain ⟨hnodup, hjson⟩ := isJson_object_iff.1 ha
      obtain ⟨hnodup', hjson'⟩ := isJson_object_iff.1 hb
      rw [Value.alike, Bool.and_eq_true, beq_iff_eq, alikeMembers_iff]
      refine ⟨by simpa using hnames.length_eq, fun member hmember => ?_⟩
      obtain ⟨other, hother, hname⟩ :=
        List.mem_map.1 (hnames.mem_iff.1 (List.mem_map_of_mem hmember))
      have hfound := Table.find?_of_mem hnodup' hother
      rw [hname] at hfound
      exact ⟨other.2, hfound, ih _ _ _ (Table.find?_of_mem hnodup hmember) hfound
        (hjson _ hmember) (hjson' _ hother)⟩

theorem rearranged_of_alike (ha : a.isJson = true) (h : a.alike b = true) : a.Rearranged b := by
  induction a generalizing b with
  | null =>
      cases b with
      | null => exact .null
      | _ => cases h
  | bool value =>
      cases b with
      | bool other => exact eq_of_beq h ▸ .bool value
      | _ => cases h
  | int n =>
      cases b with
      | int m => exact eq_of_beq h ▸ .int n
      | _ => cases h
  | float x =>
      cases b with
      | float y => exact .float (eq_of_beq h)
      | _ => cases h
  | str text =>
      cases b with
      | str other => exact eq_of_beq h ▸ .str text
      | _ => cases h
  | list items ih =>
      cases b with
      | list others =>
          rw [isJson, isJsonAll_iff] at ha
          rw [alike, alikeItems_iff, List.forall₂_iff_get] at h
          refine .list h.1 fun place x y hx hy => ?_
          obtain ⟨hplace, rfl⟩ := List.getElem?_eq_some_iff.1 hx
          obtain ⟨hplace', rfl⟩ := List.getElem?_eq_some_iff.1 hy
          exact ih _ (List.getElem_mem hplace) (ha _ (List.getElem_mem hplace))
            (h.2 place hplace hplace')
      | _ => cases h
  | tuple items _ => cases ha
  | set items _ => cases ha
  | object members ih =>
      cases b with
      | object others =>
          obtain ⟨hnodup, hjson⟩ := isJson_object_iff.1 ha
          have hnames := names_perm_of_alike hnodup h
          rw [alike, Bool.and_eq_true, alikeMembers_iff] at h
          refine .object hnames fun name x y hx hy => ?_
          have hmember := Table.mem_of_find? hx
          obtain ⟨found, hfound, halike⟩ := h.2 _ hmember
          rw [hy, Option.some.injEq] at hfound
          exact ih _ hmember (hjson _ hmember) (hfound ▸ halike)
      | _ => cases h

theorem rearranged_iff_alike (ha : a.isJson = true) (hb : b.isJson = true) :
    a.Rearranged b ↔ a.alike b = true :=
  ⟨fun h => h.alike ha hb, rearranged_of_alike ha⟩

/-- Values of JSON have one canonical text if and only if they are one value up to the order of
members. -/
theorem canonical_eq_iff_rearranged (ha : a.isJson = true) (hb : b.isJson = true) :
    Json.canonical a = Json.canonical b ↔ a.Rearranged b := by
  rw [Json.canonical_eq_iff ha hb, rearranged_iff_alike ha hb]

end Value

namespace Fact

/-- Objects are parameters as they stand. -/
@[simp]
theorem normalParams_object (members : Members) :
    normalParams (.object members) = .object members := by
  cases members <;> rfl

theorem signature?_of_cacheable {fact : Fact} {id : Value} (hid : fact.id = id)
    (hcacheable : fact.cacheable = true) (params : Value) :
    fact.signature? params = some (Digest.ofText (signatureText id params)) := by
  rw [signature?, signatureText?, if_pos hcacheable, hid, Option.map_some]

/-- Signature texts are the same if and only if the ids are, and the parameters are one value of JSON
up to the order of members; so signatures do not depend on the order of members, and tell all that is not
the same.  Among floating point numbers, nothing is the same but what is equal. -/
theorem signature_rearranged {id id' : String} {params params' : Members}
    (hparams : (Value.object params).isJson = true)
    (hparams' : (Value.object params').isJson = true) :
    (signatureText (.str id) (.object params) = signatureText (.str id') (.object params') ↔
      id = id' ∧ (Value.object params).Rearranged (.object params')) ∧
    (∀ fact fact' : Fact, fact.id = .str id → fact'.id = .str id' → fact.cacheable = true →
      fact'.cacheable = true →
        (id = id' → (Value.object params).Rearranged (.object params') →
          fact.signature? (.object params) = fact'.signature? (.object params')) ∧
        (Digest.Tells (signatureText (.str id) (.object params))
            (signatureText (.str id') (.object params')) →
          fact.signature? (.object params) = fact'.signature? (.object params') →
            id = id' ∧ (Value.object params).Rearranged (.object params'))) ∧
    ∀ x y : Binary64, x.IsProper → y.IsProper →
      ((Value.float x).Rearranged (.float y) ↔ x = y) := by
  have htext : signatureText (.str id) (.object params) =
      signatureText (.str id') (.object params') ↔
        id = id' ∧ (Value.object params).Rearranged (.object params') := by
    rw [signatureText_eq_iff (by simpa using hparams) (by simpa using hparams'),
      normalParams_object, normalParams_object, Value.rearranged_iff_alike hparams hparams']
  refine ⟨htext, fun fact fact' hid hid' hcacheable hcacheable' => ?_,
    fun x y hx hy => Value.rearranged_float_iff hx hy⟩
  rw [signature?_of_cacheable hid hcacheable, signature?_of_cacheable hid' hcacheable',
    Option.some.injEq]
  exact ⟨fun hsame hrearranged => congrArg Digest.ofText (htext.2 ⟨hsame, hrearranged⟩),
    fun htells hdigest => htext.1 (htells hdigest)⟩

/-- Parameters with objects inside a list, and their rearrangement. -/
def nestedParams : Members :=
  [("b", .list [.int 1, .object [("x", .float (.finite false 0x18000000000000 (-52))), ("y", .null)]]),
    ("a", .str "é")]

/-- See `nestedParams`. -/
def rearrangedParams : Members :=
  [("a", .str "é"),
    ("b", .list [.int 1, .object [("y", .null), ("x", .float (.finite false 0x18000000000000 (-52)))]])]

/-- A whole number, and the floating point number that is equal to it. -/
def wholeParams : Members := [("n", .int 1)]

/-- See `wholeParams`. -/
def floatParams : Members := [("n", .float (.finite false 0x10000000000000 (-52)))]

/-- A fact whose computed values are remembered. -/
def priced : Fact := ⟨.str "price", FactOptions.default, .computed fun params => .done params⟩

theorem signature_rearranged_nested :
    (Value.object nestedParams).isJson = true ∧ (Value.object rearrangedParams).isJson = true ∧
      priced.signature? (.object nestedParams) = priced.signature? (.object rearrangedParams) ∧
      (Value.object wholeParams).isJson = true ∧ (Value.object floatParams).isJson = true ∧
      Digest.Tells (signatureText (.str "price") (.object wholeParams))
        (signatureText (.str "price") (.object floatParams)) ∧
      priced.signature? (.object wholeParams) ≠ priced.signature? (.object floatParams) := by
  have htells : Digest.Tells (signatureText (.str "price") (.object wholeParams))
      (signatureText (.str "price") (.object floatParams)) :=
    fun hdigest => absurd hdigest (by decide +kernel)
  refine ⟨by decide, by decide, ?_, by decide, by decide, htells, fun hsame => ?_⟩
  · have hrearranged : (Value.object nestedParams).Rearranged (.object rearrangedParams) :=
      Value.rearranged_of_alike (by decide) (by decide +kernel)
    exact ((signature_rearranged (by decide) (by decide)).2.1 priced priced rfl rfl rfl rfl).1 rfl
      hrearranged
  · have hrearranged := (((signature_rearranged (by decide) (by decide)).2.1 priced priced rfl rfl rfl
      rfl).2 htells hsame).2
    exact Bool.false_ne_true (hrearranged.alike (by decide) (by decide))

end Fact

end Rulebook
