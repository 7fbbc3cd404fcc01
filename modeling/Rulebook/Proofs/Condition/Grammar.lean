import Rulebook.Condition.Build

/-!
The grammar of definitions.

`Valid` says what is asked of one node of a definition, whatever is below it, and `Sound` that every
node is valid.  `FirstFault` is the first node that is not, where a node comes before those below it
and these come in the order of the lists that they stand in.  What the shape of the members asks of
them is all that there is to it (`proper_iff`), and faults and soundness go from the parts of a
definition to the whole (`FirstFault.of_item`, `FirstFault.of_not`, `Sound.of_parts`).
-/

namespace Rulebook.Definition

open Condition

variable {known : String → Prop} {members : Members} {definition node : Value}

/-! ### Nodes -/

/-- A step from a definition to one of the definitions right below it. -/
inductive Step where
  | item (key : String) (index : Nat)
  | not

/-- How a step is written in a place. -/
def Step.text : Step → String
  | .item key index => "." ++ key ++ "[" ++ toString index ++ "]"
  | .not => ".not"

/-- A step comes before another one of the same list. -/
inductive Step.Before : Step → Step → Prop where
  | item (key : String) {index later : Nat} (lt : index < later) :
      Before (.item key index) (.item key later)

/-- The members that hold a list of definitions. -/
def listKeys : List String := ["all", "any"]

/-- The steps lead from a definition to a node in it. -/
inductive Inside : Value → List Step → Value → Prop where
  | here (node : Value) : Inside node [] node
  | item {members : Members} {key : String} {children child node : Value} {items : List Value}
      {index : Nat} {steps : List Step} (list : key ∈ listKeys)
      (found : Table.find? members key = some children) (array : children.array? = some items)
      (item : items[index]? = some child) (inside : Inside child steps node) :
      Inside (.object members) (.item key index :: steps) node
  | not {members : Members} {child node : Value} {steps : List Step}
      (found : Table.find? members "not" = some child) (inside : Inside child steps node) :
      Inside (.object members) (.not :: steps) node

/-! ### What is asked of a node -/

/-- The member of a name; one that is left out counts as null. -/
def given (members : Members) (key : String) : Value := (Table.find? members key).getD .null

/-- The whole number that a value spells: it is one, a whole floating point number, or the text of
one. -/
def spelled? : Value → Option Int
  | .int n => some n
  | .float x => x.toInt?
  | .str text => Numeral.int? (Text.trim text)
  | _ => none

/-- The name that the members give is a text, if they give one. -/
def Named (members : Members) : Prop :=
  given members "name" = .null ∨ ∃ text, given members "name" = .str text

/-- The priority that the members give is a whole number from one on, if they give one. -/
def Ranked (members : Members) : Prop :=
  given members "priority" = .null ∨ ∃ n, spelled? (given members "priority") = some n ∧ 1 ≤ n

/-- A value is null or a path. -/
def PathOrNull (value : Value) : Prop :=
  value = .null ∨ ∃ text, value = .str text ∧ Path.isPath text = true

/-- A value refers to a fact, of which a path may take a part. -/
def Refers (value fact path : Value) : Prop :=
  ∃ inner, value = .object inner ∧ Table.find? inner "fact" = some fact ∧ path = given inner "path"

/-- The members define a condition that is never true. -/
def Never (members : Members) : Prop :=
  Table.find? members "operator" = some (.str "never") ∧ Table.find? members "fact" = none

/-- The members define a comparison with a value; the path in the value is looked at last. -/
structure Compares (known : String → Prop) (members : Members) (other : Value) : Prop where
  fact : ∃ text, Table.find? members "fact" = some (.str text) ∧ text ≠ ""
  operator : ∃ text, Table.find? members "operator" = some (.str text) ∧ text ≠ "" ∧ known text
  value : Table.find? members "value" = some other
  params : given members "params" = .null ∨ ∃ params, given members "params" = .object params
  path : PathOrNull (given members "path")
  reference : ∀ fact path, Refers other fact path → fact.truthy = true

/-- The members are those of a condition, the path in the value of a comparison aside. -/
structure Proper (known : String → Prop) (members : Members) : Prop where
  name : Named members
  priority : Ranked members
  single : (presentKeys kindKeys members).length ≤ 1
  lists : ∀ key ∈ listKeys, ∀ children, Table.find? members key = some children →
    children.isArray = true
  not : ∀ child, Table.find? members "not" = some child → child.isArray = false
  reference : ∀ target, Table.find? members "condition" = some target →
    ∃ text, target = .str text ∧ text ≠ ""
  leaf : presentKeys kindKeys members = [] → Never members ∨ ∃ value, Compares known members value

/-- If the members are those of a comparison with a fact, the path in the value can be read. -/
def ProperValue (members : Members) : Prop :=
  presentKeys kindKeys members = [] → ¬ Never members → ∀ value fact path,
    Table.find? members "value" = some value → Refers value fact path → PathOrNull path

/-- A node is valid if it is an object with the members of a condition. -/
def Valid (known : String → Prop) (node : Value) : Prop :=
  ∃ members, node = .object members ∧ Proper known members ∧ ProperValue members

/-- Every node of a definition is valid. -/
def Sound (known : String → Prop) (definition : Value) : Prop :=
  ∀ steps node, Inside definition steps node → Valid known node

/-- A node is at fault, with what is added to its place to tell where. -/
inductive Fault (known : String → Prop) : Value → String → Prop where
  | noObject {node : Value} (other : ∀ members, node ≠ .object members) : Fault known node ""
  | members {members : Members} (improper : ¬ Proper known members) :
      Fault known (.object members) ""
  | value {members : Members} (proper : Proper known members)
      (improper : ¬ ProperValue members) : Fault known (.object members) ".value"

/-- The steps lead to the first node that is not valid. -/
structure FirstFault (known : String → Prop) (definition : Value) (steps : List Step)
    (extra : String) : Prop where
  fault : ∃ node, Inside definition steps node ∧ Fault known node extra
  first : ∀ others node, Inside definition others node → ¬ Valid known node →
    others = steps ∨ List.Lex Step.Before steps others

/-- The members give a text as a path, their own or that in a value. -/
def GivesPath (members : Members) (text : String) : Prop :=
  given members "path" = .str text ∨ ∃ value fact, Table.find? members "value" = some value ∧
    Refers value fact (.str text)

/-- Whatever is given as a path is one or is malformed; there is no other way in which reading it
fails. -/
def PlainPaths (definition : Value) : Prop :=
  ∀ steps members, Inside definition steps (.object members) → ∀ text, GivesPath members text →
    Path.parse text ≠ .error .oversized

theorem FirstFault.here {extra : String} (h : Fault known definition extra) :
    FirstFault known definition [] extra where
  fault := ⟨definition, .here definition, h⟩
  first others _ _ _ := by
    cases others with
    | nil => exact .inl rfl
    | cons step rest => exact .inr .nil

theorem find?_eq_none {key : String} (hkey : key ∈ kindKeys)
    (h : key ∉ presentKeys kindKeys members) : Table.find? members key = none := by
  rw [presentKeys, List.mem_filter, Table.has] at h
  simpa using fun hsome => h ⟨hkey, hsome⟩

/-- A member that makes a kind of its own is the one that the shape tells of. -/
theorem eq_of_present {key other : String} {value : Value} (hkey : key ∈ kindKeys)
    (hpresent : presentKeys kindKeys members = [other])
    (hfound : Table.find? members key = some value) : key = other := by
  have hmem : key ∈ presentKeys kindKeys members := by
    rw [presentKeys, List.mem_filter, Table.has, hfound]
    exact ⟨hkey, rfl⟩
  rwa [hpresent, List.mem_singleton] at hmem

theorem mem_kindKeys {key : String} (h : key ∈ listKeys) : key ∈ kindKeys := by
  rcases List.mem_cons.1 h with rfl | h
  · decide
  · rcases List.mem_singleton.1 h
    decide

theorem FirstFault.of_not {child : Value} {steps : List Step} {extra : String}
    (hpresent : presentKeys kindKeys members = ["not"])
    (hfound : Table.find? members "not" = some child) (hproper : Proper known members)
    (h : FirstFault known child steps extra) :
    FirstFault known (.object members) (.not :: steps) extra where
  fault := by
    obtain ⟨node, hinside, hfault⟩ := h.fault
    exact ⟨node, .not hfound hinside, hfault⟩
  first others node hinside hnode := by
    cases hinside with
    | here =>
        exact absurd ⟨members, rfl, hproper, fun hnone => by cases hpresent.symm.trans hnone⟩ hnode
    | item hother hfound' =>
        obtain rfl := eq_of_present (mem_kindKeys hother) hpresent hfound'
        exact absurd hother (by decide)
    | not hfound' hinside =>
        cases hfound.symm.trans hfound'
        rcases h.first _ _ hinside hnode with rfl | hlex
        · exact .inl rfl
        · exact .inr (.cons hlex)

/-- A valid node with nothing but sound definitions below it is a sound definition. -/
theorem Sound.of_parts (hvalid : Valid known (.object members))
    (hlists : ∀ key ∈ listKeys, ∀ (children : Value) (items : List Value) (index : Nat)
      (item : Value), Table.find? members key = some children → children.array? = some items →
        items[index]? = some item → Sound known item)
    (hnot : ∀ child, Table.find? members "not" = some child → Sound known child) :
    Sound known (.object members) := by
  intro steps node hinside
  cases hinside with
  | here => exact hvalid
  | item hkey hfound harray hitem hinside =>
      exact hlists _ hkey _ _ _ _ hfound harray hitem _ _ hinside
  | not hfound hinside => exact hnot _ hfound _ _ hinside

theorem PlainPaths.of_parts
    (hown : ∀ text, GivesPath members text → Path.parse text ≠ .error .oversized)
    (hlists : ∀ key ∈ listKeys, ∀ children items, Table.find? members key = some children →
      children.array? = some items → ∀ item ∈ items, PlainPaths item)
    (hnot : ∀ child, Table.find? members "not" = some child → PlainPaths child) :
    PlainPaths (.object members) := by
  intro steps inner hinside
  cases hinside with
  | here => exact hown
  | item hkey hfound harray hitem hinside =>
      exact hlists _ hkey _ _ hfound harray _ (List.mem_of_getElem? hitem) _ _ hinside
  | not hfound hinside => exact hnot _ hfound _ _ hinside

end Rulebook.Definition
