import EagerLambda.Interchange.Reader
import EagerLambda.Proofs.JsonText

/-!
# Interchange — the round trip

`interchange_round_trip`: every expression, type and operator is read back from the text that is
written for it.  The text spells the document (`Json.read?_render`), so what is left is that the
document determines what it was made from.
-/

namespace EagerLambda

/-! ### Fields of an object -/

namespace Json

theorem valuesOf_eq_nil {members : List (String × Json)} {key : String}
    (h : key ∉ members.map (·.1)) : valuesOf members key = [] := by
  simp only [valuesOf, List.map_eq_nil_iff, List.filter_eq_nil_iff, beq_iff_eq]
  rintro member hmem rfl
  exact h (List.mem_map_of_mem hmem)

theorem valuesOf_append (members more : List (String × Json)) (key : String) :
    valuesOf (members ++ more) key = valuesOf members key ++ valuesOf more key := by
  simp [valuesOf]

theorem valuesOf_cons_self (key : String) (value : Json) (members : List (String × Json)) :
    valuesOf ((key, value) :: members) key = value :: valuesOf members key := by
  simp [valuesOf]

theorem not_mem_keys_zip {key : String} {keys : List String} (h : key ∉ keys)
    (parts : List Json) : key ∉ (keys.zip parts).map (·.1) := by
  intro hmem
  obtain ⟨⟨k, j⟩, hzip, rfl⟩ := List.mem_map.mp hmem
  exact h (List.of_mem_zip hzip).1

/-- Fields that stand in an object under distinct keys are found there, whatever stands before
them under other keys. -/
theorem mapM_field?_zip (before : List (String × Json)) {keys : List String} {parts : List Json}
    (hlength : parts.length = keys.length) (hkeys : keys.Nodup)
    (hbefore : ∀ key ∈ keys, key ∉ before.map (·.1)) :
    keys.mapM (field? (before ++ keys.zip parts)) = some parts := by
  induction keys generalizing before parts with
  | nil => simp [List.length_eq_zero_iff.mp hlength]
  | cons key keys ih =>
    obtain ⟨part, parts, rfl⟩ := List.exists_cons_of_length_eq_add_one hlength
    obtain ⟨hkey, hkeys⟩ := List.nodup_cons.mp hkeys
    have hfield : field? (before ++ (key, part) :: keys.zip parts) key = some part := by
      rw [field?, valuesOf_append, valuesOf_cons_self, valuesOf_eq_nil (hbefore key (by simp)),
        valuesOf_eq_nil (not_mem_keys_zip hkey parts)]
      rfl
    -- the field just found is one more of those that stand before the others
    have hbefore' : ∀ k ∈ keys, k ∉ (before ++ [(key, part)]).map (·.1) := by
      intro k hk
      have hne : k ≠ key := by rintro rfl; exact hkey hk
      simpa [hne] using hbefore k (by simp [hk])
    have hrest := ih (before ++ [(key, part)]) (by simpa using hlength) hkeys hbefore'
    rw [List.append_assoc, List.singleton_append] at hrest
    simp [hfield, hrest]

end Json

/-! ### Nodes -/

theorem Kind.ofWord?_word (kind : Kind) : Kind.ofWord? kind.word = some kind := by
  cases kind <;> decide

theorem Kind.fields_nodup (kind : Kind) : kind.fields.Nodup := by
  cases kind <;> decide

theorem Kind.kind_not_mem_fields (kind : Kind) : "kind" ∉ kind.fields := by
  cases kind <;> decide

/-- An object of some kind is a node of that kind, in either place. -/
theorem Node.ofJson?_object (place : Place) (kind : Kind) {parts : List Json}
    (hlength : parts.length = kind.fields.length) :
    Node.ofJson? place (kind.object parts) = some ⟨kind, parts⟩ := by
  have hother : Json.valuesOf (kind.fields.zip parts) "kind" = [] :=
    Json.valuesOf_eq_nil (Json.not_mem_keys_zip kind.kind_not_mem_fields parts)
  have htag : ∀ key ∈ kind.fields, key ∉ [("kind", Json.str kind.word)].map (·.1) := by
    rintro key hkey hmem
    obtain rfl : key = "kind" := by simpa using hmem
    exact kind.kind_not_mem_fields hkey
  have hfields := Json.mapM_field?_zip [("kind", .str kind.word)] hlength kind.fields_nodup htag
  rw [List.singleton_append] at hfields
  simp [Node.ofJson?, Kind.object, Json.valuesOf_cons_self, hother, Kind.ofJson?,
    Kind.ofWord?_word, hfields]

/-- The expression whose kind and parts a node gives. -/
def Node.expr? : Node → Option Expr
  | ⟨.var, [name]⟩ => name.str?.map .var
  | ⟨.lam, [param, ty, body]⟩ => do
    return .lam (← param.str?) (← Ty.ofOptionalJson? .part ty) (← Expr.ofJson? .part body)
  | ⟨.app, [func, arg]⟩ => do
    return .app (← Expr.ofJson? .part func) (← Expr.ofJson? .part arg)
  | ⟨.cond, [test, yes, no]⟩ => do
    return .cond (← Expr.ofJson? .part test) (← Expr.ofJson? .part yes) (← Expr.ofJson? .part no)
  | ⟨.binary, [left, op, right]⟩ => do
    return .binary (← Expr.ofJson? .part left) (← Operator.ofJson? .part op)
      (← Expr.ofJson? .part right)
  | ⟨.letIn, [recursive, name, value, body]⟩ => do
    return .letIn (← recursive.bool?) (← name.str?) (← Expr.ofJson? .part value)
      (← Expr.ofJson? .part body)
  | ⟨.int, [value]⟩ => value.word?.map .int
  | ⟨.bool, [value]⟩ => value.bool?.map .bool
  | ⟨.str, [value]⟩ => value.str?.map .str
  | _ => none

/-- Reading an expression is reading its node and then the parts. -/
theorem Expr.ofJson?_eq (place : Place) (j : Json) :
    Expr.ofJson? place j = (Node.ofJson? place j).bind Node.expr? := by
  rw [Expr.ofJson?]
  generalize Node.ofJson? place j = node
  rcases node with _ | ⟨kind, parts⟩
  · rfl
  -- both sides look at the kind and at how many parts there are, of which no kind has above four
  · rcases parts with _ | ⟨p, _ | ⟨q, _ | ⟨r, _ | ⟨t, _ | ⟨u, more⟩⟩⟩⟩⟩ <;> cases kind <;> rfl

theorem Expr.ofJson?_object (place : Place) (kind : Kind) {parts : List Json}
    (hlength : parts.length = kind.fields.length) :
    Expr.ofJson? place (kind.object parts) = Node.expr? ⟨kind, parts⟩ := by
  rw [Expr.ofJson?_eq, Node.ofJson?_object place kind hlength, Option.bind_some]

/-! ### Documents determine what they were made from -/

theorem Operator.ofJson?_toJson (place : Place) (op : Operator) :
    Operator.ofJson? place op.toJson = some op := by
  have hname : Operator.ofName? op.name = some op := by cases op <;> decide
  cases place <;> simpa [Operator.ofJson?, Operator.toJson, Json.name?] using hname

theorem Ty.ofJson?_toJson (place : Place) (ty : Ty) : Ty.ofJson? place ty.toJson = some ty := by
  induction ty with
  | int | bool | string => cases place <;> rfl
  | arrow domain codomain hdomain hcodomain =>
    simp [Ty.toJson, Ty.ofJson?, hdomain, hcodomain]

theorem Ty.ofOptionalJson?_toJson (place : Place) (ty : Option Ty) :
    Ty.ofOptionalJson? place ((ty.map Ty.toJson).getD .null) = some ty := by
  cases ty with
  | none => rfl
  | some ty =>
    have hread := Ty.ofJson?_toJson place ty
    cases ty <;> simp_all [Ty.ofOptionalJson?, Ty.toJson]

theorem Json.word?_ofInt (n : Int64) : (Json.ofInt n.toInt).word? = some n := by
  have hrange : -9223372036854775808 ≤ n.toInt ∧ n.toInt ≤ 9223372036854775807 := by
    have := n.le_toInt
    have := n.toInt_lt
    omega
  simp [Json.word?, Json.ofInt, Json.int?, Word.ofInt?, hrange]

theorem Expr.ofJson?_toJson (place : Place) (e : Expr) : Expr.ofJson? place e.toJson = some e := by
  -- the parts are read in their own place, whatever the place of the whole
  induction e generalizing place with
  | var name => rw [toJson, ofJson?_object place _ rfl]; rfl
  | lam param ty body ih =>
    rw [toJson, ofJson?_object place _ rfl]
    simp [Node.expr?, Json.str?, Ty.ofOptionalJson?_toJson, ih]
  | app func arg ihf iha =>
    rw [toJson, ofJson?_object place _ rfl]
    simp [Node.expr?, ihf, iha]
  | cond test yes no iht ihy ihn =>
    rw [toJson, ofJson?_object place _ rfl]
    simp [Node.expr?, iht, ihy, ihn]
  | binary left op right ihl ihr =>
    rw [toJson, ofJson?_object place _ rfl]
    simp [Node.expr?, Operator.ofJson?_toJson, ihl, ihr]
  | letIn recursive name value body ihv ihb =>
    rw [toJson, ofJson?_object place _ rfl]
    simp [Node.expr?, Json.bool?, Json.str?, ihv, ihb]
  | int n =>
    rw [toJson, ofJson?_object place _ rfl]
    simp [Node.expr?, Json.word?_ofInt]
  | bool b => rw [toJson, ofJson?_object place _ rfl]; rfl
  | str s => rw [toJson, ofJson?_object place _ rfl]; rfl

/-! ### Their numbers fit -/

theorem Ty.fits_toJson (ty : Ty) : ty.toJson.Fits := by
  induction ty with
  | int | bool | string => trivial
  | arrow domain codomain hdomain hcodomain =>
    simp [Ty.toJson, Json.Fits, Json.MembersFit, Json.ItemsFit, hdomain, hcodomain]

theorem Json.fits_ofInt (n : Int64) : (Json.ofInt n.toInt).Fits := by
  have := n.le_toInt
  have := n.toInt_lt
  have hbound : Nat.pow 2 64 = 18446744073709551616 := rfl
  simp only [Json.ofInt, Json.Fits, Json.Number.Fits, hbound]
  omega

theorem Expr.fits_toJson (e : Expr) : e.toJson.Fits := by
  induction e with
  | lam param ty body ih =>
    have hty : ((ty.map Ty.toJson).getD .null).Fits := by
      cases ty with
      | none => trivial
      | some ty => exact ty.fits_toJson
    simp [toJson, Kind.object, Kind.fields, Json.Fits, Json.MembersFit, hty, ih]
  | int n => simp [toJson, Kind.object, Kind.fields, Json.Fits, Json.MembersFit, Json.fits_ofInt]
  | _ => simp_all [toJson, Kind.object, Kind.fields, Json.Fits, Json.MembersFit, Operator.toJson]

/-- The text of an expression, a type or an operator is read back as what it was written for.  The
text of an expression spells an object with the kind first and then the fields in their order.

`Json.read?` does not limit how deep a document is nested.  A reader that does reads the text of an
expression back if the expression is not deeper than that. -/
theorem interchange_round_trip :
    (∀ e : Expr, Expr.read? e.write = some e ∧
      ∃ parts, parts.length = e.kind.fields.length ∧
        Json.read? e.write =
          some (.obj (("kind", .str e.kind.word) :: e.kind.fields.zip parts))) ∧
    (∀ ty : Ty, Ty.read? ty.write = some ty) ∧
    (∀ op : Operator, Operator.read? op.write = some op) := by
  refine ⟨fun e => ?_, fun ty => ?_, fun op => ?_⟩
  · have hspelled : Json.read? e.write = some e.toJson := Json.read?_render e.fits_toJson
    refine ⟨by simp [Expr.read?, hspelled, Expr.ofJson?_toJson], ?_⟩
    rw [hspelled]
    cases e <;> exact ⟨_, rfl, rfl⟩
  · have hspelled : Json.read? ty.write = some ty.toJson := Json.read?_render ty.fits_toJson
    simp [Ty.read?, hspelled, Ty.ofJson?_toJson]
  · have hspelled : Json.read? op.write = some op.toJson := Json.read?_render trivial
    simp [Operator.read?, hspelled, Operator.ofJson?_toJson]

end EagerLambda
