import EagerLambda.Interchange.Writer
import EagerLambda.Json.Reader
import EagerLambda.Word

/-!
# Interchange — reading

Expressions, types and operators from JSON documents.  More spellings are read than are written: the
members of an object may come in any order and stand among others that are ignored, an expression
may be an array of its kind and all its fields, and a name may be the key of an object that holds
`null`.  A member that is missing, repeated or of the wrong type makes the document unreadable.

Two more spellings are read only in the parts of an expression: there a kind may be given by its
number, counted from zero, and a name may also be the key of an object that holds the empty object.
-/

namespace EagerLambda

/-- Where a document stands. -/
inductive Place where
  /-- It is the whole document. -/
  | whole
  /-- It is a part of an expression. -/
  | part
  deriving DecidableEq

/-- The kind with the given word. -/
def Kind.ofWord? (word : String) : Option Kind := Kind.all.find? (·.word == word)

/-- The kind that a document names, or numbers. -/
def Kind.ofJson? : Place → Json → Option Kind
  | _, .str word => Kind.ofWord? word
  | .part, .num (.integer (.ofNat i)) => Kind.all[i]?
  | _, _ => none

namespace Json

/-- The word a document is. -/
def word? (j : Json) : Option Int64 := j.int?.bind Word.ofInt?

/-- The name a document is: a string, or an object that holds nothing under it. -/
def name? : Place → Json → Option String
  | _, .str name => some name
  | _, .obj [(name, .null)] => some name
  | .part, .obj [(name, .obj [])] => some name
  | _, _ => none

/-- The values that the members with the given key have. -/
def valuesOf (members : List (String × Json)) (key : String) : List Json :=
  (members.filter (·.1 == key)).map (·.2)

/-- The value of the field `key`, which has to be there once.  Only the type of a parameter may be
left out. -/
def field? (members : List (String × Json)) (key : String) : Option Json :=
  match valuesOf members key with
  | [value] => some value
  | [] => if key == "param_ty" then some .null else none
  | _ => none

end Json

/-- An expression one level deep: its kind and the documents of its fields, in order. -/
structure Node where
  kind : Kind
  parts : List Json

/-- The node that a document is, an object or an array. -/
def Node.ofJson? (place : Place) : Json → Option Node
  | .obj members =>
    match Json.valuesOf members "kind" with
    | [kind] => do
      let kind ← Kind.ofJson? place kind
      let parts ← kind.fields.mapM (Json.field? members)
      return { kind, parts }
    | _ => none
  | .arr (kind :: parts) => do
    let kind ← Kind.ofJson? place kind
    if parts.length = kind.fields.length then some { kind, parts } else none
  | _ => none

/-- The operator that a document names. -/
def Operator.ofJson? (place : Place) (j : Json) : Option Operator :=
  (j.name? place).bind Operator.ofName?

/-- The base type with the given name. -/
def Ty.ofName? : String → Option Ty
  | "int"    => some .int
  | "bool"   => some .bool
  | "string" => some .string
  | _        => none

/-- The type that a document is. -/
def Ty.ofJson? (place : Place) : Json → Option Ty
  | .obj [("arrow", .arr [domain, codomain])] => do
    let domain ← Ty.ofJson? place domain
    let codomain ← Ty.ofJson? place codomain
    return .arrow domain codomain
  | j => (j.name? place).bind Ty.ofName?

/-- The type that a document is, or none for `null`. -/
def Ty.ofOptionalJson? (place : Place) : Json → Option (Option Ty)
  | .null => some none
  | j     => (Ty.ofJson? place j).map some

namespace Json

theorem sizeOf_lt_of_mem_valuesOf {members : List (String × Json)} {key : String} {j : Json}
    (h : j ∈ valuesOf members key) : sizeOf j < sizeOf (Json.obj members) := by
  simp only [valuesOf, List.mem_map, List.mem_filter] at h
  obtain ⟨⟨k, v⟩, ⟨hm, -⟩, rfl⟩ := h
  have := List.sizeOf_lt_of_mem hm
  simp only [Prod.mk.sizeOf_spec] at this
  simp only [obj.sizeOf_spec]
  omega

theorem sizeOf_lt_of_field? {members : List (String × Json)} {key : String} {j : Json}
    (h : field? members key = some j) : sizeOf j < sizeOf (Json.obj members) := by
  simp only [field?] at h
  split at h
  · next v hv =>
    obtain rfl := Option.some.inj h
    have hm : v ∈ valuesOf members key := by simp [hv]
    exact sizeOf_lt_of_mem_valuesOf hm
  · split at h
    · obtain rfl := Option.some.inj h
      cases members <;> simp +arith
    · cases h
  · cases h

/-- Each of the values that reading the fields yields is a field's. -/
theorem exists_field?_of_mem {members : List (String × Json)} {keys : List String}
    {parts : List Json} (h : keys.mapM (field? members) = some parts) {p : Json} (hp : p ∈ parts) :
    ∃ key, field? members key = some p := by
  induction keys generalizing parts with
  | nil => simp_all
  | cons key keys ih =>
    simp only [List.mapM_cons, Option.bind_eq_bind, Option.bind_eq_some_iff, Option.pure_def,
      Option.some.injEq] at h
    obtain ⟨v, hv, vs, hvs, rfl⟩ := h
    rcases List.mem_cons.mp hp with rfl | hp
    · exact ⟨key, hv⟩
    · exact ih hvs hp

end Json

/-- The parts of a node are smaller than the document it was read from. -/
theorem Node.sizeOf_lt_of_mem_parts {place : Place} {j p : Json} {kind : Kind}
    {parts : List Json} (h : Node.ofJson? place j = some ⟨kind, parts⟩) (hp : p ∈ parts) :
    sizeOf p < sizeOf j := by
  simp only [Node.ofJson?] at h
  split at h
  · split at h
    · simp only [Option.bind_eq_bind, Option.bind_eq_some_iff, Option.pure_def, Option.some.injEq,
        Node.mk.injEq] at h
      obtain ⟨k, -, ps, hps, rfl, rfl⟩ := h
      obtain ⟨key, hk⟩ := Json.exists_field?_of_mem hps hp
      exact Json.sizeOf_lt_of_field? hk
    · cases h
  · simp only [Option.bind_eq_bind, Option.bind_eq_some_iff, Option.ite_none_right_eq_some,
      Option.some.injEq, Node.mk.injEq] at h
    obtain ⟨k, -, -, rfl, rfl⟩ := h
    have := List.sizeOf_lt_of_mem hp
    simp only [Json.arr.sizeOf_spec, List.cons.sizeOf_spec]
    omega
  · cases h

/-- The expression that a document is.  Whatever its own place, its fields are parts. -/
def Expr.ofJson? (place : Place) (j : Json) : Option Expr :=
  match _h : Node.ofJson? place j with
  | some ⟨.var, [name]⟩ => name.str?.map .var
  | some ⟨.lam, [param, ty, body]⟩ => do
    let param ← param.str?
    let ty ← Ty.ofOptionalJson? .part ty
    let body ← Expr.ofJson? .part body
    return .lam param ty body
  | some ⟨.app, [func, arg]⟩ => do
    let func ← Expr.ofJson? .part func
    let arg ← Expr.ofJson? .part arg
    return .app func arg
  | some ⟨.cond, [test, yes, no]⟩ => do
    let test ← Expr.ofJson? .part test
    let yes ← Expr.ofJson? .part yes
    let no ← Expr.ofJson? .part no
    return .cond test yes no
  | some ⟨.binary, [left, op, right]⟩ => do
    let left ← Expr.ofJson? .part left
    let op ← Operator.ofJson? .part op
    let right ← Expr.ofJson? .part right
    return .binary left op right
  | some ⟨.letIn, [recursive, name, value, body]⟩ => do
    let recursive ← recursive.bool?
    let name ← name.str?
    let value ← Expr.ofJson? .part value
    let body ← Expr.ofJson? .part body
    return .letIn recursive name value body
  | some ⟨.int, [value]⟩ => value.word?.map .int
  | some ⟨.bool, [value]⟩ => value.bool?.map .bool
  | some ⟨.str, [value]⟩ => value.str?.map .str
  | _ => none
termination_by j
decreasing_by all_goals exact Node.sizeOf_lt_of_mem_parts _h (by simp)

/-- The operator that a text spells. -/
def Operator.read? (s : String) : Option Operator := (Json.read? s).bind (Operator.ofJson? .whole)

/-- The type that a text spells. -/
def Ty.read? (s : String) : Option Ty := (Json.read? s).bind (Ty.ofJson? .whole)

/-- The expression that a text spells. -/
def Expr.read? (s : String) : Option Expr := (Json.read? s).bind (Expr.ofJson? .whole)

end EagerLambda
