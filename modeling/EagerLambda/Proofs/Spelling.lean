import EagerLambda.Proofs.RoundTrip
import Mathlib.Data.List.Forall2

/-!
# Spelling — which documents are read, and as what

There are many ways to spell an expression as a document.  `Expr.Spelled` says what they are,
without regard to how a document is read: an object has its kind and its fields as members, in any
order and among others that do not matter, and an array has the same in a fixed order.  Reading a
document yields an expression exactly if the document spells it (`reader_accepts_spellings`).

Spellings are strict or lax, and it is the `Place` of a document that says which.  In a whole
document a kind is given by its word, and a name that is the key of an object has `null` there.  The
parts of an expression may also give their kind by its number, and have an empty object in the place
of `null`; they are spelled laxly.  There is a relation with strict spellings all the way down,
`Expr.Spelled .whole .whole`; what is spelled by it is read, but it is not all that is read
(`reader_is_lax`).
-/

namespace EagerLambda

/-! ### Spellings -/

/-- The member is there, and no other has its key. -/
def Json.Sole (members : List (String × Json)) (key : String) (value : Json) : Prop :=
  ∃ before after, members = before ++ (key, value) :: after ∧
    key ∉ before.map (·.1) ∧ key ∉ after.map (·.1)

/-- What the members have under the key: the value of the sole member with this key.  Only the type
of a parameter may be left out, which is the same as `null`. -/
inductive Json.Field (members : List (String × Json)) : String → Json → Prop where
  | there {key : String} {value : Json} (h : Json.Sole members key value) : Field members key value
  | leftOut (h : "param_ty" ∉ members.map (·.1)) : Field members "param_ty" .null

/-- The document is the name, or an object with the name as its only key and nothing there. -/
inductive Json.Names (place : Place) (name : String) : Json → Prop where
  | plain : Names place name (.str name)
  | null : Names place name (.obj [(name, .null)])
  | empty (h : place = .part) : Names place name (.obj [(name, .obj [])])

/-- The document gives a kind, by its word or by its number. -/
inductive Json.Tags (place : Place) (word : String) (number : Nat) : Json → Prop where
  | word : Tags place word number (.str word)
  | number (h : place = .part) : Tags place word number (.num (.integer number))

/-- The document has a kind and fields: it is an object in which each is a member, or an array of
the kind and the fields in order. -/
inductive Node.Spelled (place : Place) (word : String) (number : Nat)
    (fields : List (String × Json)) : Json → Prop where
  | object {members : List (String × Json)} {tag : Json} (hsole : Json.Sole members "kind" tag)
      (htag : tag.Tags place word number)
      (hfields : ∀ field ∈ fields, Json.Field members field.1 field.2) :
      Spelled place word number fields (.obj members)
  | array {tag : Json} (htag : tag.Tags place word number) :
      Spelled place word number fields (.arr (tag :: fields.map (·.2)))

/-- The document spells the type: the name of a base type, or an object that holds two types. -/
inductive Ty.Spelled (place : Place) : Ty → Json → Prop where
  | int {j : Json} (h : j.Names place "int") : Spelled place .int j
  | bool {j : Json} (h : j.Names place "bool") : Spelled place .bool j
  | string {j : Json} (h : j.Names place "string") : Spelled place .string j
  | arrow {domain codomain : Ty} {j j' : Json} (hdomain : Spelled place domain j)
      (hcodomain : Spelled place codomain j') :
      Spelled place (.arrow domain codomain) (.obj [("arrow", .arr [j, j'])])

/-- The document spells the type, or is `null` if there is none. -/
inductive Ty.SpelledIfAny (place : Place) : Option Ty → Json → Prop where
  | none : SpelledIfAny place none .null
  | some {ty : Ty} {j : Json} (h : ty.Spelled place j) : SpelledIfAny place (some ty) j

/-- The document spells the expression.  It stands in the place `place`, and its parts are spelled
as in the place `inner`.  An integer is a number that was written as one, and is a word. -/
inductive Expr.Spelled (inner : Place) : Place → Expr → Json → Prop where
  | var {place : Place} {x : String} {j : Json}
      (h : Node.Spelled place "var" 0 [("name", .str x)] j) : Spelled inner place (.var x) j
  | lam {place : Place} {x : String} {ty : Option Ty} {b : Expr} {j jty jb : Json}
      (h : Node.Spelled place "lambda" 1 [("param", .str x), ("param_ty", jty), ("body", jb)] j)
      (hty : Ty.SpelledIfAny inner ty jty) (hb : Spelled inner inner b jb) :
      Spelled inner place (.lam x ty b) j
  | app {place : Place} {f a : Expr} {j jf ja : Json}
      (h : Node.Spelled place "app" 2 [("func", jf), ("arg", ja)] j) (hf : Spelled inner inner f jf)
      (ha : Spelled inner inner a ja) : Spelled inner place (.app f a) j
  | cond {place : Place} {e yes no : Expr} {j je jyes jno : Json}
      (h : Node.Spelled place "if" 3
        [("cond", je), ("then_branch", jyes), ("else_branch", jno)] j)
      (he : Spelled inner inner e je) (hyes : Spelled inner inner yes jyes)
      (hno : Spelled inner inner no jno) : Spelled inner place (.cond e yes no) j
  | binary {place : Place} {l r : Expr} {op : Operator} {j jl jop jr : Json}
      (h : Node.Spelled place "binary" 4 [("left", jl), ("op", jop), ("right", jr)] j)
      (hl : Spelled inner inner l jl) (hop : jop.Names inner op.name)
      (hr : Spelled inner inner r jr) : Spelled inner place (.binary l op r) j
  | letIn {place : Place} {rec : Bool} {x : String} {e b : Expr} {j je jb : Json}
      (h : Node.Spelled place "let" 5
        [("recursive", .bool rec), ("name", .str x), ("value", je), ("body", jb)] j)
      (he : Spelled inner inner e je) (hb : Spelled inner inner b jb) :
      Spelled inner place (.letIn rec x e b) j
  | int {place : Place} {n : Int64} {j : Json}
      (h : Node.Spelled place "int" 6 [("value", .num (.integer n.toInt))] j) :
      Spelled inner place (.int n) j
  | bool {place : Place} {b : Bool} {j : Json}
      (h : Node.Spelled place "bool" 7 [("value", .bool b)] j) : Spelled inner place (.bool b) j
  | str {place : Place} {s : String} {j : Json}
      (h : Node.Spelled place "str" 8 [("value", .str s)] j) : Spelled inner place (.str s) j

/-! ### Members -/

namespace Json

variable {members : List (String × Json)} {key : String} {value : Json}

theorem valuesOf_eq_nil_iff : valuesOf members key = [] ↔ key ∉ members.map (·.1) := by
  refine ⟨fun h hmem => ?_, valuesOf_eq_nil⟩
  obtain ⟨member, hmember, rfl⟩ := List.mem_map.mp hmem
  simp only [valuesOf, List.map_eq_nil_iff, List.filter_eq_nil_iff, beq_iff_eq] at h
  exact h member hmember rfl

/-- A key has one value exactly if one member has that key. -/
theorem valuesOf_eq_singleton_iff : valuesOf members key = [value] ↔ Sole members key value := by
  constructor
  · intro h
    obtain ⟨⟨k, v⟩, hfilter, rfl⟩ := List.map_eq_singleton_iff.mp h
    obtain ⟨before, after, rfl, hbefore, hkey, hafter⟩ := List.filter_eq_cons_iff.mp hfilter
    obtain rfl : k = key := by simpa using hkey
    refine ⟨before, after, rfl, valuesOf_eq_nil_iff.mp ?_, valuesOf_eq_nil_iff.mp ?_⟩
    · rw [valuesOf, List.filter_eq_nil_iff.mpr hbefore, List.map_nil]
    · rw [valuesOf, hafter, List.map_nil]
  · rintro ⟨before, after, rfl, hbefore, hafter⟩
    rw [valuesOf_append, valuesOf_cons_self, valuesOf_eq_nil hbefore, valuesOf_eq_nil hafter]
    rfl

theorem field?_eq_some_iff : field? members key = some value ↔ Field members key value := by
  constructor
  · intro h
    simp only [field?] at h
    split at h
    · next v hv =>
      obtain rfl := Option.some.inj h
      exact .there (valuesOf_eq_singleton_iff.mp hv)
    · next hnone =>
      split at h
      · next hkey =>
        obtain rfl := Option.some.inj h
        obtain rfl : key = "param_ty" := by simpa using hkey
        exact .leftOut (valuesOf_eq_nil_iff.mp hnone)
      · cases h
    · cases h
  · intro h
    cases h with
    | there h => simp only [field?, valuesOf_eq_singleton_iff.mpr h]
    | leftOut h => simp only [field?, valuesOf_eq_nil_iff.mpr h]; rfl

/-- All the fields are read exactly if each is. -/
theorem mapM_field?_eq_some_iff {keys : List String} {parts : List Json} :
    keys.mapM (field? members) = some parts ↔
      List.Forall₂ (fun key part => Field members key part) keys parts := by
  induction keys generalizing parts with
  | nil => simp [eq_comm]
  | cons key keys ih =>
      simp only [List.mapM_cons, Option.bind_eq_bind, Option.bind_eq_some_iff, Option.pure_def,
        Option.some.injEq, List.forall₂_cons_left_iff, field?_eq_some_iff, ih]
      constructor
      · rintro ⟨part, hpart, rest, hrest, rfl⟩
        exact ⟨part, rest, hpart, hrest, rfl⟩
      · rintro ⟨part, rest, hpart, hrest, rfl⟩
        exact ⟨part, hpart, rest, hrest, rfl⟩

/-- No field is missing from those that were read. -/
theorem exists_field_of_mem {keys : List String} {parts : List Json}
    (h : List.Forall₂ (fun key part => Field members key part) keys parts) (hkey : key ∈ keys) :
    ∃ part, Field members key part := by
  induction h with
  | nil => cases hkey
  | cons hpart _ ih =>
      rcases List.mem_cons.mp hkey with rfl | hkey
      · exact ⟨_, hpart⟩
      · exact ih hkey

theorem name?_eq_some_iff {place : Place} {name : String} {j : Json} :
    j.name? place = some name ↔ j.Names place name := by
  constructor
  · intro h
    unfold name? at h
    split at h
    · cases h; exact .plain
    · cases h; exact .null
    · cases h; exact .empty rfl
    · cases h
  · intro h
    cases h with
    | plain | null => cases place <;> rfl
    | empty h => subst h; rfl

end Json

/-! ### Nodes -/

/-- The number of the kind, counted from zero. -/
def Kind.number : Kind → Nat
  | .var => 0
  | .lam => 1
  | .app => 2
  | .cond => 3
  | .binary => 4
  | .letIn => 5
  | .int => 6
  | .bool => 7
  | .str => 8

theorem Kind.ofWord?_eq_some_iff {word : String} {kind : Kind} :
    Kind.ofWord? word = some kind ↔ word = kind.word := by
  constructor
  · intro h
    have hfound := List.find?_some (p := fun kind : Kind => kind.word == word) h
    exact (beq_iff_eq.mp hfound).symm
  · rintro rfl
    exact kind.ofWord?_word

theorem Kind.getElem?_all {i : Nat} {kind : Kind} : Kind.all[i]? = some kind ↔ i = kind.number := by
  constructor
  · intro h
    rcases i with _ | _ | _ | _ | _ | _ | _ | _ | _ | i <;> simp [Kind.all] at h <;> subst h <;> rfl
  · rintro rfl
    cases kind <;> rfl

theorem Kind.ofJson?_eq_some_iff {place : Place} {tag : Json} {kind : Kind} :
    Kind.ofJson? place tag = some kind ↔ tag.Tags place kind.word kind.number := by
  constructor
  · intro h
    unfold Kind.ofJson? at h
    split at h
    · obtain rfl := Kind.ofWord?_eq_some_iff.mp h
      exact .word
    · obtain rfl := Kind.getElem?_all.mp h
      exact .number rfl
    · cases h
  · intro h
    cases h with
    | word => cases place <;> exact kind.ofWord?_word
    | number h => subst h; exact Kind.getElem?_all.mpr rfl

/-- **Nodes.**  A document is read as a node exactly if it has that kind and those fields. -/
theorem Node.ofJson?_eq_some_iff {place : Place} {j : Json} {kind : Kind} {parts : List Json} :
    Node.ofJson? place j = some ⟨kind, parts⟩ ↔ kind.fields.length = parts.length ∧
      Node.Spelled place kind.word kind.number (kind.fields.zip parts) j := by
  constructor
  · intro h
    unfold Node.ofJson? at h
    split at h
    · next members =>
      split at h
      · next tag htag =>
        simp only [Option.bind_eq_bind, Option.bind_eq_some_iff, Option.pure_def, Option.some.injEq,
          Node.mk.injEq] at h
        obtain ⟨_, hkind, _, hparts, rfl, rfl⟩ := h
        obtain ⟨hlength, hfields⟩ :=
          List.forall₂_iff_zip.mp (Json.mapM_field?_eq_some_iff.mp hparts)
        exact ⟨hlength, .object (Json.valuesOf_eq_singleton_iff.mp htag)
          (Kind.ofJson?_eq_some_iff.mp hkind) fun _ hfield => hfields hfield⟩
      · cases h
    · next tag rest =>
      simp only [Option.bind_eq_bind, Option.bind_eq_some_iff, Option.ite_none_right_eq_some,
        Option.some.injEq, Node.mk.injEq] at h
      obtain ⟨k, hkind, hlength, rfl, rfl⟩ := h
      have harray : Node.Spelled place k.word k.number (k.fields.zip rest)
          (.arr (tag :: (k.fields.zip rest).map (·.2))) :=
        .array (Kind.ofJson?_eq_some_iff.mp hkind)
      rw [List.map_snd_zip (Nat.le_of_eq hlength)] at harray
      exact ⟨hlength.symm, harray⟩
    · cases h
  · rintro ⟨hlength, h⟩
    cases h with
    | object hsole htag hfields =>
        have hparts := Json.mapM_field?_eq_some_iff.mpr
          (List.forall₂_iff_zip.mpr ⟨hlength, fun hfield => hfields _ hfield⟩)
        simp [Node.ofJson?, Json.valuesOf_eq_singleton_iff.mpr hsole,
          Kind.ofJson?_eq_some_iff.mpr htag, hparts]
    | array htag =>
        rw [List.map_snd_zip (Nat.le_of_eq hlength.symm)]
        simp [Node.ofJson?, Kind.ofJson?_eq_some_iff.mpr htag, hlength]

/-! ### Types and operators -/

theorem Operator.ofJson?_eq_some_iff {place : Place} {j : Json} {op : Operator} :
    Operator.ofJson? place j = some op ↔ j.Names place op.name := by
  have hname {name : String} : Operator.ofName? name = some op ↔ name = op.name := by
    constructor
    · intro h
      have hfound := List.find?_some (p := fun op : Operator => op.name == name) h
      exact (beq_iff_eq.mp hfound).symm
    · rintro rfl
      cases op <;> decide
  rw [Operator.ofJson?, Option.bind_eq_some_iff]
  constructor
  · rintro ⟨name, hj, hop⟩
    rw [← hname.mp hop]
    exact Json.name?_eq_some_iff.mp hj
  · exact fun h => ⟨op.name, Json.name?_eq_some_iff.mpr h, hname.mpr rfl⟩

theorem Ty.ofJson?_eq_some_iff {place : Place} {j : Json} {ty : Ty} :
    Ty.ofJson? place j = some ty ↔ ty.Spelled place j := by
  constructor
  · intro h
    fun_induction Ty.ofJson? place j generalizing ty with
    | case1 domain codomain ihd ihc =>
        simp only [Option.bind_eq_bind, Option.bind_eq_some_iff, Option.pure_def,
          Option.some.injEq] at h
        obtain ⟨_, hd, _, hc, rfl⟩ := h
        exact .arrow (ihd hd) (ihc hc)
    | case2 j _ =>
        obtain ⟨name, hname, hty⟩ := Option.bind_eq_some_iff.mp h
        have hj := Json.name?_eq_some_iff.mp hname
        unfold Ty.ofName? at hty
        split at hty
        · cases hty; exact .int hj
        · cases hty; exact .bool hj
        · cases hty; exact .string hj
        · cases hty
  · intro h
    induction h with
    | int h | bool h | string h =>
        cases h with
        | plain | null => cases place <;> rfl
        | empty h => subst h; rfl
    | arrow _ _ ihd ihc => simp [Ty.ofJson?, ihd, ihc]

theorem Ty.ofOptionalJson?_eq_some_iff {place : Place} {j : Json} {ty : Option Ty} :
    Ty.ofOptionalJson? place j = some ty ↔ Ty.SpelledIfAny place ty j := by
  constructor
  · intro h
    unfold Ty.ofOptionalJson? at h
    split at h
    · cases h; exact .none
    · obtain ⟨ty, hty, rfl⟩ := Option.map_eq_some_iff.mp h
      exact .some (Ty.ofJson?_eq_some_iff.mp hty)
  · intro h
    cases h with
    | none => rfl
    | some h =>
        have hread := Ty.ofJson?_eq_some_iff.mpr h
        unfold Ty.ofOptionalJson?
        split
        · cases hread
        · rw [hread]; rfl

theorem Json.word?_eq_some_iff {j : Json} {n : Int64} :
    j.word? = some n ↔ j = .num (.integer n.toInt) := by
  constructor
  · intro h
    obtain ⟨i, hi, hn⟩ := Option.bind_eq_some_iff.mp h
    obtain rfl : j = .num (.integer i) := by
      unfold Json.int? at hi
      split at hi
      · cases hi; rfl
      · cases hi
    simp only [Word.ofInt?, Option.ite_none_right_eq_some, Option.some.injEq] at hn
    obtain ⟨⟨hlow, hhigh⟩, rfl⟩ := hn
    rw [Int64.toInt_ofInt_of_le (by omega) (by omega)]
  · rintro rfl
    exact Json.word?_ofInt n

theorem Json.str?_eq_some_iff {j : Json} {s : String} : j.str? = some s ↔ j = .str s := by
  cases j <;> simp [Json.str?]

theorem Json.bool?_eq_some_iff {j : Json} {b : Bool} : j.bool? = some b ↔ j = .bool b := by
  cases j <;> simp [Json.bool?]

/-! ### Expressions -/

/-- Whatever is read spells what it is read as. -/
theorem Expr.spelled_of_ofJson? {place : Place} {j : Json} {e : Expr}
    (h : Expr.ofJson? place j = some e) : e.Spelled .part place j := by
  -- the recursion is on the document: the parts of a node are smaller
  rw [Expr.ofJson?_eq, Option.bind_eq_some_iff] at h
  obtain ⟨node, hnode, hexpr⟩ := h
  unfold Node.expr? at hexpr
  split at hexpr
  · obtain ⟨x, hx, rfl⟩ := Option.map_eq_some_iff.mp hexpr
    obtain rfl := Json.str?_eq_some_iff.mp hx
    exact .var (Node.ofJson?_eq_some_iff.mp hnode).2
  · simp only [Option.bind_eq_bind, Option.bind_eq_some_iff, Option.pure_def,
      Option.some.injEq] at hexpr
    obtain ⟨x, hx, ty, hty, b, hb, rfl⟩ := hexpr
    obtain rfl := Json.str?_eq_some_iff.mp hx
    exact .lam (Node.ofJson?_eq_some_iff.mp hnode).2 (Ty.ofOptionalJson?_eq_some_iff.mp hty)
      (Expr.spelled_of_ofJson? hb)
  · simp only [Option.bind_eq_bind, Option.bind_eq_some_iff, Option.pure_def,
      Option.some.injEq] at hexpr
    obtain ⟨f, hf, a, ha, rfl⟩ := hexpr
    exact .app (Node.ofJson?_eq_some_iff.mp hnode).2 (Expr.spelled_of_ofJson? hf)
      (Expr.spelled_of_ofJson? ha)
  · simp only [Option.bind_eq_bind, Option.bind_eq_some_iff, Option.pure_def,
      Option.some.injEq] at hexpr
    obtain ⟨e, he, yes, hyes, no, hno, rfl⟩ := hexpr
    exact .cond (Node.ofJson?_eq_some_iff.mp hnode).2 (Expr.spelled_of_ofJson? he)
      (Expr.spelled_of_ofJson? hyes) (Expr.spelled_of_ofJson? hno)
  · simp only [Option.bind_eq_bind, Option.bind_eq_some_iff, Option.pure_def,
      Option.some.injEq] at hexpr
    obtain ⟨l, hl, op, hop, r, hr, rfl⟩ := hexpr
    exact .binary (Node.ofJson?_eq_some_iff.mp hnode).2 (Expr.spelled_of_ofJson? hl)
      (Operator.ofJson?_eq_some_iff.mp hop) (Expr.spelled_of_ofJson? hr)
  · simp only [Option.bind_eq_bind, Option.bind_eq_some_iff, Option.pure_def,
      Option.some.injEq] at hexpr
    obtain ⟨rec, hrec, x, hx, e, he, b, hb, rfl⟩ := hexpr
    obtain rfl := Json.bool?_eq_some_iff.mp hrec
    obtain rfl := Json.str?_eq_some_iff.mp hx
    exact .letIn (Node.ofJson?_eq_some_iff.mp hnode).2 (Expr.spelled_of_ofJson? he)
      (Expr.spelled_of_ofJson? hb)
  · obtain ⟨n, hn, rfl⟩ := Option.map_eq_some_iff.mp hexpr
    obtain rfl := Json.word?_eq_some_iff.mp hn
    exact .int (Node.ofJson?_eq_some_iff.mp hnode).2
  · obtain ⟨b, hb, rfl⟩ := Option.map_eq_some_iff.mp hexpr
    obtain rfl := Json.bool?_eq_some_iff.mp hb
    exact .bool (Node.ofJson?_eq_some_iff.mp hnode).2
  · obtain ⟨s, hs, rfl⟩ := Option.map_eq_some_iff.mp hexpr
    obtain rfl := Json.str?_eq_some_iff.mp hs
    exact .str (Node.ofJson?_eq_some_iff.mp hnode).2
  · cases hexpr
termination_by sizeOf j
decreasing_by all_goals exact Node.sizeOf_lt_of_mem_parts hnode (by simp)

/-- A document with a kind and fields is read as these say. -/
theorem Expr.ofJson?_of_node {place : Place} (kind : Kind) (parts : List Json) {j : Json}
    (h : Node.Spelled place kind.word kind.number (kind.fields.zip parts) j)
    (hlength : kind.fields.length = parts.length) :
    Expr.ofJson? place j = Node.expr? ⟨kind, parts⟩ := by
  rw [Expr.ofJson?_eq, Node.ofJson?_eq_some_iff.mpr ⟨hlength, h⟩, Option.bind_some]

/-- Whatever spells an expression is read as that. -/
theorem Expr.Spelled.ofJson? {place : Place} {j : Json} {e : Expr}
    (h : e.Spelled .part place j) : Expr.ofJson? place j = some e := by
  induction h with
  | var h => exact Expr.ofJson?_of_node .var [_] h rfl
  | bool h => exact Expr.ofJson?_of_node .bool [_] h rfl
  | str h => exact Expr.ofJson?_of_node .str [_] h rfl
  | @int _ n _ h =>
      rw [Expr.ofJson?_of_node .int [_] h rfl]
      exact congrArg (Option.map Expr.int) (Json.word?_ofInt n)
  | lam h hty _ ihb =>
      rw [Expr.ofJson?_of_node .lam [_, _, _] h rfl]
      simp [Node.expr?, Json.str?, Ty.ofOptionalJson?_eq_some_iff.mpr hty, ihb]
  | app h _ _ ihf iha =>
      rw [Expr.ofJson?_of_node .app [_, _] h rfl]
      simp [Node.expr?, ihf, iha]
  | cond h _ _ _ ihe ihy ihn =>
      rw [Expr.ofJson?_of_node .cond [_, _, _] h rfl]
      simp [Node.expr?, ihe, ihy, ihn]
  | binary h _ hop _ ihl ihr =>
      rw [Expr.ofJson?_of_node .binary [_, _, _] h rfl]
      simp [Node.expr?, Operator.ofJson?_eq_some_iff.mpr hop, ihl, ihr]
  | letIn h _ _ ihe ihb =>
      rw [Expr.ofJson?_of_node .letIn [_, _, _, _] h rfl]
      simp [Node.expr?, Json.bool?, Json.str?, ihe, ihb]

theorem Expr.ofJson?_eq_some_iff {place : Place} {j : Json} {e : Expr} :
    Expr.ofJson? place j = some e ↔ e.Spelled .part place j :=
  ⟨Expr.spelled_of_ofJson?, Expr.Spelled.ofJson?⟩

/-- A field that is not there, or there more than once, makes an object unreadable. -/
theorem Expr.ofJson?_eq_none_of_field {place : Place} {members : List (String × Json)} {kind : Kind}
    (hkind : Json.Sole members "kind" (.str kind.word)) {key : String} (hkey : key ∈ kind.fields)
    (hfield : ∀ value, ¬ Json.Field members key value) :
    Expr.ofJson? place (.obj members) = none := by
  have hnode : Node.ofJson? place (.obj members) = none := by
    have htag : Kind.ofJson? place (.str kind.word) = some kind :=
      Kind.ofJson?_eq_some_iff.mpr .word
    cases hparts : kind.fields.mapM (Json.field? members) with
    | none => simp [Node.ofJson?, Json.valuesOf_eq_singleton_iff.mpr hkind, htag, hparts]
    | some parts =>
        obtain ⟨part, hpart⟩ :=
          Json.exists_field_of_mem (Json.mapM_field?_eq_some_iff.mp hparts) hkey
        exact absurd hpart (hfield part)
  rw [Expr.ofJson?_eq, hnode, Option.bind_none]

/-! ### Strict spellings -/

theorem Json.Names.relax {place : Place} {name : String} {j : Json} (h : j.Names .whole name) :
    j.Names place name := by
  cases h with
  | plain => exact .plain
  | null => exact .null
  | empty h => cases h

theorem Node.Spelled.relax {place : Place} {word : String} {number : Nat}
    {fields : List (String × Json)} {j : Json} (h : Node.Spelled .whole word number fields j) :
    Node.Spelled place word number fields j := by
  have htag {tag : Json} (h : tag.Tags .whole word number) : tag.Tags place word number := by
    cases h with
    | word => exact .word
    | number h => cases h
  cases h with
  | object hsole h hfields => exact .object hsole (htag h) hfields
  | array h => exact .array (htag h)

theorem Ty.Spelled.relax {place : Place} {ty : Ty} {j : Json} (h : ty.Spelled .whole j) :
    ty.Spelled place j := by
  induction h with
  | int h => exact .int h.relax
  | bool h => exact .bool h.relax
  | string h => exact .string h.relax
  | arrow _ _ ihd ihc => exact .arrow ihd ihc

theorem Ty.SpelledIfAny.relax {place : Place} {ty : Option Ty} {j : Json}
    (h : Ty.SpelledIfAny .whole ty j) : Ty.SpelledIfAny place ty j := by
  cases h with
  | none => exact .none
  | some h => exact .some h.relax

/-- What is strictly spelled can stand in any place. -/
theorem Expr.Spelled.anywhere {inner place : Place} {e : Expr} {j : Json}
    (h : e.Spelled inner .whole j) : e.Spelled inner place j := by
  cases h with
  | var h => exact .var h.relax
  | lam h hty hb => exact .lam h.relax hty hb
  | app h hf ha => exact .app h.relax hf ha
  | cond h he hyes hno => exact .cond h.relax he hyes hno
  | binary h hl hop hr => exact .binary h.relax hl hop hr
  | letIn h he hb => exact .letIn h.relax he hb
  | int h => exact .int h.relax
  | bool h => exact .bool h.relax
  | str h => exact .str h.relax

/-- What is strictly spelled all the way down is spelled. -/
theorem Expr.Spelled.relax {place : Place} {e : Expr} {j : Json} (h : e.Spelled .whole place j) :
    e.Spelled .part place j := by
  induction h with
  | var h => exact .var h
  | lam h hty _ ihb => exact .lam h hty.relax ihb.anywhere
  | app h _ _ ihf iha => exact .app h ihf.anywhere iha.anywhere
  | cond h _ _ _ ihe ihy ihn => exact .cond h ihe.anywhere ihy.anywhere ihn.anywhere
  | binary h _ hop _ ihl ihr => exact .binary h ihl.anywhere hop.relax ihr.anywhere
  | letIn h _ _ ihe ihb => exact .letIn h ihe.anywhere ihb.anywhere
  | int h => exact .int h
  | bool h => exact .bool h
  | str h => exact .str h

/-- **The reader accepts exactly the spellings.**

* A document is read as an expression exactly if it spells that expression.  A text is read as one
  exactly if it is the text of such a document.
* A document is unreadable exactly if it spells no expression.
* All the documents that spell one expression are read alike, and no document spells two.
* What is strictly spelled all the way down is read.
* An object of some kind is unreadable if a field of that kind is missing from it, unless it is the
  type of a parameter, or is there more than once.
* Operators and types on their own are read exactly if they are strictly spelled.

`Json.read?` does not limit how deep a document is nested.  For a reader that does, what is said of
texts holds of those whose documents stay within its limit. -/
theorem reader_accepts_spellings :
    (∀ (doc : Json) (e : Expr), Expr.ofJson? .whole doc = some e ↔ e.Spelled .part .whole doc) ∧
    (∀ (text : String) (e : Expr), Expr.read? text = some e ↔
      ∃ doc, Json.read? text = some doc ∧ e.Spelled .part .whole doc) ∧
    (∀ doc : Json, Expr.ofJson? .whole doc = none ↔ ∀ e : Expr, ¬ e.Spelled .part .whole doc) ∧
    (∀ (doc doc' : Json) (e e' : Expr), e.Spelled .part .whole doc →
      (e.Spelled .part .whole doc' → Expr.ofJson? .whole doc = Expr.ofJson? .whole doc') ∧
      (e'.Spelled .part .whole doc → e' = e)) ∧
    (∀ (doc : Json) (e : Expr), e.Spelled .whole .whole doc → Expr.ofJson? .whole doc = some e) ∧
    (∀ (members : List (String × Json)) (kind : Kind) (key : String),
      Json.Sole members "kind" (.str kind.word) → key ∈ kind.fields →
      (∀ value, ¬ Json.Field members key value) → Expr.ofJson? .whole (.obj members) = none) ∧
    (∀ (doc : Json) (op : Operator),
      Operator.ofJson? .whole doc = some op ↔ doc.Names .whole op.name) ∧
    (∀ (doc : Json) (ty : Ty), Ty.ofJson? .whole doc = some ty ↔ ty.Spelled .whole doc) := by
  refine ⟨fun doc e => Expr.ofJson?_eq_some_iff, fun text e => ?_, fun doc => ?_,
    fun doc doc' e e' h => ⟨fun h' => ?_, fun h' => ?_⟩, fun doc e h => h.relax.ofJson?,
    fun members kind key hkind hkey hfield => Expr.ofJson?_eq_none_of_field hkind hkey hfield,
    fun doc op => Operator.ofJson?_eq_some_iff, fun doc ty => Ty.ofJson?_eq_some_iff⟩
  · simp only [Expr.read?, Option.bind_eq_some_iff, Expr.ofJson?_eq_some_iff]
  · simp only [Option.eq_none_iff_forall_ne_some, ne_eq, Expr.ofJson?_eq_some_iff]
  · rw [h.ofJson?, h'.ofJson?]
  · exact Option.some.inj (h'.ofJson?.symm.trans h.ofJson?)

/-- `\x => x` as an object without a type, its members in disorder and among others. -/
def scattered : Json :=
  .obj [("note", .null), ("body", .arr [.str "var", .str "x"]), ("note", .bool true),
    ("kind", .str "lambda"), ("param", .str "x")]

/-- `\x => x` as an array, with an object for the variable. -/
def inOrder : Json :=
  .arr [.str "lambda", .str "x", .null, .obj [("name", .str "x"), ("kind", .str "var")]]

/-- The two documents are read as the same lambda.  With two callees, an application is
unreadable. -/
theorem reader_accepts_spellings_scattered :
    let twice : List (String × Json) := [("func", inOrder), ("kind", .str "app"),
      ("arg", inOrder), ("func", inOrder)]
    Expr.ofJson? .whole scattered = some (.lam "x" none (.var "x")) ∧
      Expr.ofJson? .whole scattered = Expr.ofJson? .whole inOrder ∧
      Expr.ofJson? .whole (.obj twice) = none := by
  intro twice
  obtain ⟨-, -, -, hsame, hstrict, hfield, -⟩ := reader_accepts_spellings
  have hscattered : (Expr.lam "x" none (.var "x")).Spelled .whole .whole scattered := by
    refine .lam (.object (Json.valuesOf_eq_singleton_iff.mp rfl) .word ?_) .none
      (.var (.array .word))
    simp only [List.forall_mem_cons]
    exact ⟨.there (Json.valuesOf_eq_singleton_iff.mp rfl), .leftOut (by decide),
      .there (Json.valuesOf_eq_singleton_iff.mp rfl), by simp⟩
  have hinOrder : (Expr.lam "x" none (.var "x")).Spelled .whole .whole inOrder := by
    refine .lam (.array .word) .none
      (.var (.object (Json.valuesOf_eq_singleton_iff.mp rfl) .word ?_))
    simp only [List.forall_mem_cons]
    exact ⟨.there (Json.valuesOf_eq_singleton_iff.mp rfl), by simp⟩
  refine ⟨hstrict _ _ hscattered,
    (hsame scattered inOrder _ (.lam "x" none (.var "x")) hscattered.relax).1 hinOrder.relax,
    hfield twice .app "func" (Json.valuesOf_eq_singleton_iff.mp rfl) (by decide) fun value h => ?_⟩
  cases Json.field?_eq_some_iff.mpr h

/-- An array has the kind first, and then the fields. -/
theorem Node.Spelled.of_array {place : Place} {word : String} {number : Nat}
    {fields : List (String × Json)} {tag : Json} {parts : List Json}
    (h : Node.Spelled place word number fields (.arr (tag :: parts))) :
    tag.Tags place word number ∧ parts = fields.map (·.2) := by
  cases h with
  | array htag => exact ⟨htag, rfl⟩

/-- **The reader is lax.**  Two arrays, one with a number for the kind of a part and one with an
empty object in an operator, are read, although neither strictly spells anything. -/
theorem reader_is_lax :
    let numbered : Json := .arr [.str "app", .arr [.num (.integer 0), .str "f"],
      .arr [.str "bool", .bool true]]
    let emptied : Json := .arr [.str "binary", .arr [.str "bool", .bool true],
      .obj [("add", .obj [])], .arr [.str "bool", .bool true]]
    (Expr.ofJson? .whole numbered = some (.app (.var "f") (.bool true)) ∧
      ∀ e : Expr, ¬ e.Spelled .whole .whole numbered) ∧
    (Expr.ofJson? .whole emptied = some (.binary (.bool true) .add (.bool true)) ∧
      ∀ e : Expr, ¬ e.Spelled .whole .whole emptied) := by
  intro numbered emptied
  have hnumbered : (Expr.app (.var "f") (.bool true)).Spelled .part .whole numbered :=
    .app (.array .word) (.var (.array (.number rfl))) (.bool (.array .word))
  have hemptied : (Expr.binary (.bool true) .add (.bool true)).Spelled .part .whole emptied :=
    .binary (.array .word) (.bool (.array .word)) (.empty rfl) (.bool (.array .word))
  refine ⟨⟨hnumbered.ofJson?, fun e h => ?_⟩, hemptied.ofJson?, fun e h => ?_⟩
  · obtain rfl := Option.some.inj (h.relax.ofJson?.symm.trans hnumbered.ofJson?)
    cases h with
    | app h hf ha =>
        obtain ⟨rfl, rfl⟩ : _ = _ ∧ _ = _ := by simpa using h.of_array.2
        cases hf with
        | var hf =>
            cases hf.of_array.1 with
            | number h => cases h
  · obtain rfl := Option.some.inj (h.relax.ofJson?.symm.trans hemptied.ofJson?)
    cases h with
    | binary h hl hop hr =>
        obtain ⟨-, rfl, -⟩ : _ = _ ∧ _ = _ ∧ _ = _ := by simpa using h.of_array.2
        cases hop with
        | empty h => cases h

end EagerLambda
