import EagerLambda.Proofs.Unambiguity
import EagerLambda.Value.Basic

/-!
# Faces — what the text of a value tells

The text of a word, a truth value or a string shows all of it; that of a function shows a name.
`Value.face` is what is shown, and no more is lost than that: values with the same text have the
same face (`values_told_apart`).

The first character of a text tells of which kind it is, since strings are quoted and functions are
between angle brackets, and from there on the text can be read (`Face.read?`).  The names of
functions stand there as they are and may hold anything, also quotes and brackets; but what goes
before a name is fixed, and it ends one character before the end.  The characters of a string are
read back whatever characters are hidden, so one reader serves for all ways to show values
(`Face.read?_text`).
-/

namespace EagerLambda

open Text Surface

variable {κ : Type}

/-- What the text of a value shows: the value itself, or the name of a function. -/
inductive Face where
  | int (n : Int64)
  | bool (b : Bool)
  | str (s : String)
  | closure (param : String)
  | builtin (name : String)
  deriving DecidableEq

namespace Face

/-- The type of the values with this face. -/
def tag : Face → Tag
  | .int _     => .int
  | .bool _    => .bool
  | .str _     => .string
  | .closure _ => .closure
  | .builtin _ => .builtin

/-- The text of the values with this face. -/
def text (hidden : Char → Bool) : Face → String
  | .int n         => decimal n.toInt
  | .bool b        => truth b
  | .str s         => quoteWith hidden s
  | .closure param => "<closure \\" ++ param ++ ">"
  | .builtin name  => "<builtin " ++ name ++ ">"

/-- The value with this face, if it is no function. -/
def base? : Face → Option (Value κ)
  | .int n  => some (.int n)
  | .bool b => some (.bool b)
  | .str s  => some (.str s)
  | _       => none

end Face

/-- What is shown of a value. -/
def Value.face : Value κ → Face
  | .int n     => .int n
  | .bool b    => .bool b
  | .str s     => .str s
  | .closure c => .closure c.param
  | .builtin b => .builtin b.name

namespace Value

theorem tag_eq_tag_face (v : Value κ) : v.tag = v.face.tag := by cases v <;> rfl

theorem renderWith_eq_text_face (hidden : Char → Bool) (v : Value κ) :
    v.renderWith hidden = v.face.text hidden := by
  cases v <;> rfl

theorem base?_face {v : Value κ} (hv : v.isCallable = false) : v.face.base? = some v := by
  cases v with
  | int | bool | str => rfl
  | closure | builtin => cases hv

end Value

theorem Face.not_callable_of_base? {face : Face} {v : Value κ} (h : face.base? = some v) :
    v.isCallable = false := by
  cases face with
  | int | bool | str => cases h; rfl
  | closure | builtin => cases h

/-! ### Reading a text -/

namespace Face

/-- The word with the given sign and digits. -/
def number (negative : Bool) (digits : List Char) : Int64 :=
  let n : Int := Nat.ofDigitChars 10 digits 0
  Int64.ofInt (if negative then -n else n)

/-- The name between `opening` and the last character. -/
def named? (opening : String) (cs : List Char) : Option String :=
  (expect? opening.toList cs).map fun cs => String.ofList cs.dropLast

/-- The face of which this is the text. -/
def read? : List Char → Option Face
  | [] => none
  | c :: cs =>
    if c.isDigit then some (.int (number false (c :: cs)))
    else match c with
      | '-' => some (.int (number true cs))
      | 't' => some (.bool true)
      | 'f' => some (.bool false)
      | '"' => (unquote? cs.length cs).map fun read => .str (String.ofList read.1)
      | '<' => (named? "closure \\" cs).map .closure <|> (named? "builtin " cs).map .builtin
      | _   => none

theorem number_digits (n : Int64) :
    number (decide (n.toInt < 0)) (Nat.toDigits 10 n.toInt.natAbs) = n :=
  Expr.int.inj (numeral_digits n)

theorem named?_append (opening name : String) :
    named? opening (opening.toList ++ (name.toList ++ ['>'])) = some name := by
  rw [named?, expect?_append, Option.map_some, List.dropLast_concat, String.ofList_toList]

/-- Every character takes at least one between the quotes. -/
theorem length_le_length_flatMap (hidden : Char → Bool) (cs : List Char) :
    cs.length ≤ (cs.flatMap (escapeChar hidden)).length := by
  induction cs with
  | nil => exact Nat.le_refl 0
  | cons c cs ih =>
      have hpos : 0 < (escapeChar hidden c).length := by
        rw [List.length_pos_iff]
        intro hnil
        exact absurd (quotedChar?_escapeChar hidden c []) (by rw [hnil]; simp [quotedChar?])
      rw [List.flatMap_cons, List.length_append, List.length_cons]
      omega

theorem read?_decimal (n : Int64) : read? (decimal n.toInt).toList = some (.int n) := by
  have hnumber := number_digits n
  rw [toList_decimal]
  by_cases hn : n.toInt < 0
  · rw [decide_eq_true hn] at hnumber
    rw [if_pos hn]
    show some (Face.int (number true (Nat.toDigits 10 n.toInt.natAbs))) = _
    rw [hnumber]
  · obtain ⟨d, ds, hdigits, hd⟩ := digits_eq_cons n.toInt.natAbs
    rw [decide_eq_false hn, hdigits] at hnumber
    rw [if_neg hn, hdigits, List.nil_append]
    refine (if_pos hd).trans ?_
    rw [hnumber]

theorem read?_quoteWith (hidden : Char → Bool) (s : String) :
    read? (quoteWith hidden s).toList = some (.str s) := by
  have hfuel : s.toList.length < (s.toList.flatMap (escapeChar hidden) ++ ['"']).length := by
    rw [List.length_append]
    exact Nat.lt_add_one_of_le (length_le_length_flatMap hidden s.toList)
  rw [toList_quoteWith]
  show (unquote? _ _).map _ = _
  rw [unquote?_flatMap hidden s.toList [] hfuel, Option.map_some, String.ofList_toList]

theorem read?_truth (b : Bool) : read? (truth b).toList = some (.bool b) := by cases b <;> rfl

theorem read?_angle (cs : List Char) : read? ('<' :: cs) =
    ((named? "closure \\" cs).map .closure <|> (named? "builtin " cs).map .builtin) := rfl

theorem toList_angle {opening kind : String} (h : opening.toList = '<' :: kind.toList)
    (name : String) :
    (opening ++ name ++ ">").toList = '<' :: (kind.toList ++ (name.toList ++ ['>'])) := by
  rw [String.toList_append, String.toList_append, h, List.append_assoc]
  rfl

theorem read?_closure (param : String) :
    read? ("<closure \\" ++ param ++ ">").toList = some (.closure param) := by
  have hopen : "<closure \\".toList = '<' :: "closure \\".toList := rfl
  rw [toList_angle hopen, read?_angle, named?_append]
  rfl

theorem read?_builtin (name : String) :
    read? ("<builtin " ++ name ++ ">").toList = some (.builtin name) := by
  have hopen : "<builtin ".toList = '<' :: "builtin ".toList := rfl
  have hother : named? "closure \\" ("builtin ".toList ++ (name.toList ++ ['>'])) = none := rfl
  rw [toList_angle hopen, read?_angle, hother, named?_append]
  rfl

/-- **A text is read back** as the face that it is the text of. -/
theorem read?_text (hidden : Char → Bool) (face : Face) :
    read? (face.text hidden).toList = some face := by
  cases face with
  | int n => exact read?_decimal n
  | bool b => exact read?_truth b
  | str s => exact read?_quoteWith hidden s
  | closure param => exact read?_closure param
  | builtin name => exact read?_builtin name

end Face

/-- The base value of which this is the text. -/
def Value.recover? (hidden : Char → Bool) (text : String) : Option (Value κ) := do
  let face ← Face.read? text.toList
  let v ← face.base?
  if v.renderWith hidden = text then some v else none

/-! ### Values told apart -/

theorem face_eq_of_renderWith_eq {hidden : Char → Bool} {v w : Value κ}
    (h : v.renderWith hidden = w.renderWith hidden) : v.face = w.face := by
  rw [v.renderWith_eq_text_face, w.renderWith_eq_text_face] at h
  have hread := Face.read?_text hidden v.face
  rw [h, Face.read?_text] at hread
  exact (Option.some.inj hread).symm

theorem recover?_eq_some_iff {hidden : Char → Bool} {text : String} {v : Value κ} :
    Value.recover? hidden text = some v ↔ v.isCallable = false ∧ v.renderWith hidden = text := by
  constructor
  · intro h
    obtain ⟨face, -, h⟩ := Option.bind_eq_some_iff.mp h
    obtain ⟨w, hw, h⟩ := Option.bind_eq_some_iff.mp h
    split at h
    · next htext =>
        cases h
        exact ⟨Face.not_callable_of_base? hw, htext⟩
    · cases h
  · rintro ⟨hv, rfl⟩
    have hread : Face.read? (v.renderWith hidden).toList = some v.face := by
      rw [v.renderWith_eq_text_face, Face.read?_text]
    rw [Value.recover?, hread, Option.bind_eq_bind, Option.bind_some, Value.base?_face hv,
      Option.bind_eq_bind, Option.bind_some, if_pos rfl]

/-- **Values are told apart by their texts**, whatever characters are hidden.  Two values have the
same text only if they are of the same type and are the same word, truth value or string, closures
with the same parameter, or builtins with the same name.  So a value that is no function can be
recovered from its text; and of a text of no such value, nothing is recovered. -/
theorem values_told_apart (hidden : Char → Bool) (v w : Value κ) (text : String) :
    (v.renderWith hidden = w.renderWith hidden ↔
      v.tag.name = w.tag.name ∧ v.face = w.face) ∧
    (Value.recover? hidden text = some v ↔
      v.isCallable = false ∧ v.renderWith hidden = text) := by
  refine ⟨⟨fun h => ?_, fun h => ?_⟩, recover?_eq_some_iff⟩
  · have hface := face_eq_of_renderWith_eq h
    rw [v.tag_eq_tag_face, w.tag_eq_tag_face, hface]
    exact ⟨rfl, rfl⟩
  · rw [v.renderWith_eq_text_face, w.renderWith_eq_text_face, h.2]

-- a hidden character, and the characters by which it is shown
example : (Value.str "\x7f" : Value Empty).render = "\"\\u\x7b7f\x7d\"" ∧
    (Value.str "\\u\x7b7f\x7d" : Value Empty).render = "\"\\\\u\x7b7f\x7d\"" := by
  decide +kernel

end EagerLambda
