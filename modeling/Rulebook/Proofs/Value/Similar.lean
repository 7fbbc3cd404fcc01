import Rulebook.Proofs.Json.Canonical
import Rulebook.Proofs.Value.Literal

/-!
Values that have one canonical text.

JSON has neither tuples nor sets: a tuple is written as a list, and a set as the text of its literal
form (`shape`).  Beside that, and the order of members, a canonical text tells its value: two values
have one canonical text if and only if they are similar (`canonical_eq_iff_similar`).
-/

namespace Rulebook.Value

/-- The values are the same, but for the order of members, for tuples that stand for lists, and for
texts that stand for sets, at any depth. -/
inductive Similar : Value → Value → Prop where
  | refl (value : Value) : Similar value value
  | array {a b : Value} {as bs : List Value} (first : a.array? = some as)
      (second : b.array? = some bs) (length : as.length = bs.length)
      (each : ∀ (place : Nat) (x y : Value), as[place]? = some x → bs[place]? = some y →
        Similar x y) : Similar a b
  | object {first second : Members} (names : (first.map Prod.fst).Perm (second.map Prod.fst))
      (each : ∀ (name : String) (x y : Value), first.find? name = some x →
        second.find? name = some y → Similar x y) : Similar (.object first) (.object second)
  | written (items : List Value) : Similar (.set items) (.str (Value.set items).literal)
  | read (items : List Value) : Similar (.str (Value.set items).literal) (.set items)

mutual

/-- The value of JSON that is written for a value. -/
def shape : Value → Value
  | .list items => .list (shapes items)
  | .tuple items => .list (shapes items)
  | .set items => .str (Value.set items).literal
  | .object members => .object (memberShapes members)
  | value => value

/-- What is written for items. -/
def shapes : List Value → List Value
  | [] => []
  | item :: rest => item.shape :: shapes rest

/-- What is written for members. -/
def memberShapes : List (String × Value) → List (String × Value)
  | [] => []
  | (name, value) :: rest => (name, value.shape) :: memberShapes rest

end

variable {a b : Value} {first second members : Members}

theorem shapes_eq_map (items : List Value) : shapes items = items.map shape := by
  induction items with
  | nil => rfl
  | cons item items ih => rw [shapes, ih, List.map_cons]

theorem memberShapes_eq_map (members : Members) :
    memberShapes members = members.map fun member => (member.1, member.2.shape) := by
  induction members with
  | nil => rfl
  | cons member members ih => rw [memberShapes, ih, List.map_cons]

theorem names_memberShapes (members : Members) :
    (memberShapes members).map Prod.fst = members.map Prod.fst := by
  rw [memberShapes_eq_map, List.map_map]
  rfl

theorem find?_memberShapes (members : Members) (name : String) :
    Table.find? (memberShapes members) name = (members.find? name).map shape := by
  induction members with
  | nil => rfl
  | cons member members ih =>
      obtain ⟨key, value⟩ := member
      rw [memberShapes, Table.find?, Table.find?, ih]
      split <;> rfl

/-- Members in order are written in order. -/
theorem sorted_memberShapes (members : Members) :
    Table.sorted (memberShapes members) =
      (Table.sorted members).map fun member => (member.1, member.2.shape) := by
  rw [memberShapes_eq_map, Table.sorted]
  exact sortBy_map (fun _ _ => rfl) members

theorem map_canonical_shapes {items : List Value}
    (h : ∀ item ∈ items, Json.canonical item.shape = Json.canonical item) :
    (shapes items).map Json.canonical = items.map Json.canonical := by
  rw [shapes_eq_map, List.map_map]
  exact List.map_congr_left h

/-- A value is written as its shape is. -/
theorem canonical_shape (value : Value) : Json.canonical value.shape = Json.canonical value := by
  induction value with
  | list items ih =>
      rw [shape, Json.canonical_list, Json.canonical_list, map_canonical_shapes ih]
  | tuple items ih =>
      have hsame : Json.canonical (.tuple items) = Json.canonical (.list items) := by
        rw [Json.canonical, Json.canonical, Json.write, Json.write]
      rw [hsame, shape, Json.canonical_list, Json.canonical_list, map_canonical_shapes ih]
  | object members ih =>
      have hmembers : (Table.sorted (memberShapes members)).map Json.member =
          (Table.sorted members).map Json.member := by
        rw [sorted_memberShapes, List.map_map]
        refine List.map_congr_left fun member hmember => ?_
        rw [Function.comp_apply, Json.member, Json.member,
          ih member ((Table.sorted_perm members).mem_iff.1 hmember)]
      rw [shape, Json.canonical_object, Json.canonical_object, hmembers]
  | _ => rfl

/-- What is written for a well-formed value is a value of JSON. -/
theorem Proper.isJson_shape (h : a.Proper) : a.shape.isJson = true := by
  induction h with
  | list _ ih =>
      rw [shape, isJson, isJsonAll_iff, shapes_eq_map]
      exact List.forall_mem_map.2 ih
  | tuple _ ih =>
      rw [shape, isJson, isJsonAll_iff, shapes_eq_map]
      exact List.forall_mem_map.2 ih
  | @object members names _ ih =>
      rw [shape, isJson_object_iff, names_memberShapes, memberShapes_eq_map]
      exact ⟨names, List.forall_mem_map.2 ih⟩
  | _ => rfl

theorem shape_of_array? {items : List Value} (h : a.array? = some items) :
    a.shape = .list (shapes items) := by
  cases a with
  | list found => rw [shape, ← Option.some.inj h]
  | tuple found => rw [shape, ← Option.some.inj h]
  | _ => cases h

theorem Proper.of_array? {items : List Value} (ha : a.Proper) (h : a.array? = some items) :
    ∀ item ∈ items, item.Proper := by
  cases ha with
  | list heach => exact Option.some.inj h ▸ heach
  | tuple heach => exact Option.some.inj h ▸ heach
  | _ => cases h

/-- Similar values are written for values that are alike. -/
theorem Similar.alike_shape (h : a.Similar b) (ha : a.Proper) (hb : b.Proper) :
    a.shape.alike b.shape = true := by
  induction h with
  | refl value => exact (Json.canonical_eq_iff ha.isJson_shape ha.isJson_shape).1 rfl
  | @array a b as bs hfirst hsecond hlength _ ih =>
      rw [shape_of_array? hfirst, shape_of_array? hsecond, alike, alikeItems_iff, shapes_eq_map,
        shapes_eq_map, List.forall₂_map_left_iff, List.forall₂_map_right_iff, List.forall₂_iff_get]
      refine ⟨hlength, fun place hplace hplace' => ?_⟩
      have hx : as[place]? = some (as.get ⟨place, hplace⟩) := List.getElem?_eq_getElem hplace
      have hy : bs[place]? = some (bs.get ⟨place, hplace'⟩) := List.getElem?_eq_getElem hplace'
      exact ih place _ _ hx hy (ha.of_array? hfirst _ (List.mem_of_getElem? hx))
        (hb.of_array? hsecond _ (List.mem_of_getElem? hy))
  | @object first second hnames _ ih =>
      cases ha with
      | object hnodup hproper =>
          cases hb with
          | object hnodup' hproper' =>
              rw [shape, shape, alike, Bool.and_eq_true, beq_iff_eq, alikeMembers_iff]
              refine ⟨?_, fun member hmember => ?_⟩
              · have hlength := hnames.length_eq
                rw [← names_memberShapes first, ← names_memberShapes second] at hlength
                simpa using hlength
              · rw [memberShapes_eq_map] at hmember
                obtain ⟨member, hmem, rfl⟩ := List.mem_map.1 hmember
                have hfound := Table.find?_of_mem hnodup hmem
                obtain ⟨other, hother, hname⟩ :=
                  List.mem_map.1 (hnames.mem_iff.1 (List.mem_map_of_mem hmem))
                have hfound' := Table.find?_of_mem hnodup' hother
                rw [hname] at hfound'
                refine ⟨other.2.shape, by rw [find?_memberShapes, hfound']; rfl, ?_⟩
                exact ih member.1 member.2 other.2 hfound hfound' (hproper member hmem)
                  (hproper' other hother)
  | written items => exact beq_self_eq_true _
  | read items => exact beq_self_eq_true _

/-- Arrays are similar if what is written for them is alike, given that this is so of their
items. -/
theorem similar_of_array {items : List Value} (ha : a.Proper) (hb : b.Proper)
    (hfirst : a.array? = some items) (h : a.shape.alike b.shape = true)
    (heach : ∀ item ∈ items, ∀ {other : Value}, item.Proper → other.Proper →
      item.shape.alike other.shape = true → item.Similar other) : a.Similar b := by
  obtain ⟨others, hsecond⟩ : ∃ others, b.array? = some others := by
    rw [shape_of_array? hfirst] at h
    cases b with
    | list others => exact ⟨others, rfl⟩
    | tuple others => exact ⟨others, rfl⟩
    | _ => cases h
  rw [shape_of_array? hfirst, shape_of_array? hsecond, alike, alikeItems_iff, shapes_eq_map,
    shapes_eq_map, List.forall₂_map_left_iff, List.forall₂_map_right_iff,
    List.forall₂_iff_get] at h
  refine .array hfirst hsecond h.1 fun place x y hx hy => ?_
  have hproper := ha.of_array? hfirst x (List.mem_of_getElem? hx)
  have hproper' := hb.of_array? hsecond y (List.mem_of_getElem? hy)
  obtain ⟨hplace, rfl⟩ := List.getElem?_eq_some_iff.1 hx
  obtain ⟨hplace', rfl⟩ := List.getElem?_eq_some_iff.1 hy
  exact heach _ (List.getElem_mem hplace) hproper hproper' (h.2 place hplace hplace')

/-- Values are similar if what is written for them is alike. -/
theorem similar_of_alike_shape (ha : a.Proper) (hb : b.Proper)
    (h : a.shape.alike b.shape = true) : a.Similar b := by
  induction a generalizing b with
  | null =>
      cases b with
      | null => exact .refl _
      | _ => cases h
  | bool value =>
      cases b with
      | bool other => rw [eq_of_beq h]; exact .refl _
      | _ => cases h
  | int n =>
      cases b with
      | int m => rw [eq_of_beq h]; exact .refl _
      | _ => cases h
  | float x =>
      cases b with
      | float y =>
          cases ha with
          | float hx =>
              cases hb with
              | float hy =>
                  rw [Binary64.render_injective (.inr rfl) hx hy (eq_of_beq h)]
                  exact .refl _
      | _ => cases h
  | str text =>
      cases b with
      | str other => rw [eq_of_beq h]; exact .refl _
      | set items => rw [eq_of_beq h]; exact .read items
      | _ => cases h
  | list items ih =>
      exact similar_of_array ha hb rfl h ih
  | tuple items ih =>
      exact similar_of_array ha hb rfl h ih
  | set items =>
      cases b with
      | str other => rw [← eq_of_beq h]; exact .written items
      | set others => rw [literal_set_injective ha hb (eq_of_beq h)]; exact .refl _
      | _ => cases h
  | object members ih =>
      cases b with
      | object others =>
          cases ha with
          | object hnodup hproper =>
              cases hb with
              | object hnodup' hproper' =>
                  have hnames := names_perm_of_alike (names_memberShapes members ▸ hnodup) h
                  rw [names_memberShapes, names_memberShapes] at hnames
                  rw [shape, shape, alike, Bool.and_eq_true, alikeMembers_iff] at h
                  refine .object hnames fun name x y hx hy => ?_
                  have hmem := Table.mem_of_find? hx
                  have hshape : (name, x.shape) ∈ memberShapes members :=
                    memberShapes_eq_map members ▸ List.mem_map_of_mem hmem
                  obtain ⟨found, hfound, halike⟩ := h.2 _ hshape
                  rw [find?_memberShapes, hy, Option.map_some, Option.some.injEq] at hfound
                  subst hfound
                  exact ih (name, x) hmem (hproper _ hmem) (hproper' _ (Table.mem_of_find? hy)) halike
      | _ => cases h

/-- Two values have one canonical text if and only if they are similar. -/
theorem canonical_eq_iff_similar (ha : a.Proper) (hb : b.Proper) :
    Json.canonical a = Json.canonical b ↔ a.Similar b := by
  rw [← canonical_shape a, ← canonical_shape b,
    Json.canonical_eq_iff ha.isJson_shape hb.isJson_shape]
  exact ⟨similar_of_alike_shape ha hb, fun h => h.alike_shape ha hb⟩

end Rulebook.Value
