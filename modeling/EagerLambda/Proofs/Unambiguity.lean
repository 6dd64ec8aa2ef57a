import EagerLambda.Proofs.SurfaceReader

/-!
# Surface text — one text, one expression

`surface_eq_iff`: two expressions with proper names have the same surface text only if they are the
same.

The text of an expression is read back whatever follows it, as long as that cannot be taken for a
part of it (`Follows`).  Since operators associate to the left, the reader has to finish the left
operand of an expression before it knows of the expression.  The invariant `Reads` therefore speaks
of what the reader does from the expression on: if that leads to a result, then so does reading the
text first.
-/

namespace EagerLambda

namespace Surface

open EagerLambda.Text

/-! ### Enough fuel -/

/-- `P` holds from some number on. -/
def Eventually (P : Nat → Prop) : Prop := ∃ n, ∀ m, n ≤ m → P m

namespace Eventually

variable {P Q : Nat → Prop}

theorem and (hp : Eventually P) (hq : Eventually Q) : Eventually fun n => P n ∧ Q n := by
  obtain ⟨n, hp⟩ := hp
  obtain ⟨k, hq⟩ := hq
  exact ⟨max n k, fun m hm => ⟨hp m (by omega), hq m (by omega)⟩⟩

/-- One more unit of fuel for the reader that calls the others. -/
theorem step (hp : Eventually P) (h : ∀ n, P n → Q (n + 1)) : Eventually Q := by
  obtain ⟨n, hp⟩ := hp
  refine ⟨n + 1, fun m hm => ?_⟩
  obtain ⟨m, rfl⟩ : ∃ k, m = k + 1 := Nat.exists_eq_add_one_of_ne_zero (by omega)
  exact h m (hp m (by omega))

/-- A reader that calls no other needs one unit of fuel. -/
theorem of_succ (h : ∀ n, P (n + 1)) : Eventually P :=
  step (P := fun _ => True) ⟨0, fun _ _ => trivial⟩ fun n _ => h n

/-- With enough fuel there is one result. -/
theorem unique {α : Type} {f : Nat → Option α} {a b : α} (ha : Eventually fun n => f n = some a)
    (hb : Eventually fun n => f n = some b) : a = b := by
  obtain ⟨n, h⟩ := ha.and hb
  obtain ⟨ha, hb⟩ := h n (Nat.le_refl n)
  exact Option.some.inj (ha.symm.trans hb)

end Eventually

/-! ### Words -/

theorem expect?_append (lit cs : List Char) : expect? lit (lit ++ cs) = some cs := by
  induction lit with
  | nil => rfl
  | cons c lit ih => simpa [expect?] using ih

theorem expect?_blank (cs : List Char) : expect? [' '] (' ' :: cs) = some cs := rfl

theorem word_append {ds cs : List Char} (hds : ds.all isNameChar = true)
    (hcs : Stops isNameChar cs) : word (ds ++ cs) = (String.ofList ds, cs) := by
  rw [List.all_eq_true] at hds
  rw [word, hcs.takeWhile_append hds, hcs.dropWhile_append hds]

theorem word_name {name : String} (hname : IsName name) {cs : List Char}
    (hcs : Stops isNameChar cs) : word (name.toList ++ cs) = (name, cs) := by
  rw [word_append hname.2.1 hcs, String.ofList_toList]

theorem all_isNameChar_digits (n : Nat) : (Nat.toDigits 10 n).all isNameChar = true := by
  rw [List.all_eq_true]
  intro c hc
  simp [isNameChar, Char.isAlphanum, isDigit_of_mem_digits hc]

theorem word_digits (n : Nat) {cs : List Char} (hcs : Stops isNameChar cs) :
    word (Nat.toDigits 10 n ++ cs) = (String.ofList (Nat.toDigits 10 n), cs) :=
  word_append (all_isNameChar_digits n) hcs

theorem stops_blank (cs : List Char) : Stops isNameChar (' ' :: cs) := stops_cons.mpr (by decide)

theorem stops_close (cs : List Char) : Stops isNameChar (')' :: cs) := stops_cons.mpr (by decide)

/-! ### Types -/

theorem domain?_base {ty : Ty} (hty : ty.isArrow = false) {cs : List Char}
    (hcs : Stops isNameChar cs) (n : Nat) :
    domain? (n + 1) (ty.surface.toList ++ cs) = some (ty, cs) := by
  have hname : ty.surface.toList.all isNameChar = true := by
    cases ty with
    | arrow => cases hty
    | _ => rfl
  have hopen : ∀ after, ty.surface.toList ++ cs ≠ '(' :: after := by
    cases ty with
    | arrow => cases hty
    | _ => simp [Ty.surface]
  rw [domain?.eq_3 _ _ hopen, word_append hname hcs, String.ofList_toList]
  cases ty with
  | arrow => cases hty
  | _ => rfl

/-- The left side of an arrow is read back, in parentheses or not. -/
theorem reads_domain {domain : Ty} {cs : List Char} (hcs : Stops isNameChar cs)
    (hdomain : Eventually fun n =>
      ty? n (domain.surface.toList ++ ')' :: cs) = some (domain, ')' :: cs)) :
    Eventually fun n => domain? n ((if domain.isArrow then "(" ++ domain.surface ++ ")"
      else domain.surface).toList ++ cs) = some (domain, cs) := by
  refine hdomain.step fun n h => ?_
  cases harrow : domain.isArrow with
  | false => exact domain?_base harrow hcs n
  | true =>
    have htext : (if true = true then "(" ++ domain.surface ++ ")"
        else domain.surface).toList ++ cs = '(' :: (domain.surface.toList ++ ')' :: cs) := by
      simp
    rw [htext, domain?.eq_2, h]
    rfl

theorem reads_base {ty : Ty} (hty : ty.isArrow = false) {cs : List Char}
    (hcs : Stops isNameChar cs) (hend : expect? " -> ".toList cs = none) :
    Eventually fun n => ty? n (ty.surface.toList ++ cs) = some (ty, cs) := by
  have hdomain := Eventually.of_succ (P := fun n => domain? n _ = _) (domain?_base hty hcs)
  refine hdomain.step fun n h => ?_
  simp only [ty?, h, Option.bind_eq_bind, Option.bind_some, hend]
  rfl

/-- The text of a type is read back in front of anything but another arrow. -/
theorem reads_ty (ty : Ty) {cs : List Char} (hcs : Stops isNameChar cs)
    (hend : expect? " -> ".toList cs = none) :
    Eventually fun n => ty? n (ty.surface.toList ++ cs) = some (ty, cs) := by
  induction ty generalizing cs with
  | int | bool | string => exact reads_base rfl hcs hend
  | arrow domain codomain ihd ihc =>
    have hdomain := reads_domain
      (stops_blank ('-' :: '>' :: ' ' :: (codomain.surface.toList ++ cs))) (ihd (stops_close _) rfl)
    refine (hdomain.and (ihc hcs hend)).step fun n ⟨hd, hc⟩ => ?_
    have htext : (Ty.arrow domain codomain).surface.toList ++ cs =
        (if domain.isArrow then "(" ++ domain.surface ++ ")" else domain.surface).toList ++
          ' ' :: '-' :: '>' :: ' ' :: (codomain.surface.toList ++ cs) := by
      simp [Ty.surface]
    have harrow : expect? " -> ".toList
        (' ' :: '-' :: '>' :: ' ' :: (codomain.surface.toList ++ cs)) =
          some (codomain.surface.toList ++ cs) := rfl
    rw [htext]
    simp only [ty?, hd, Option.bind_eq_bind, Option.bind_some, harrow, hc]
    rfl

/-! ### Parts in parentheses -/

/-- The text of an expression where the level `required` is asked for. -/
def fencedText (required : Nat) (e : Expr) : List Char :=
  (Expr.fenced required e.level e.surface).toList

theorem fencedText_of_lt {required : Nat} {e : Expr} (h : e.level < required) (cs : List Char) :
    fencedText required e ++ cs = '(' :: (e.surface.toList ++ ')' :: cs) := by
  simp [fencedText, Expr.fenced, h]

theorem fencedText_of_le {required : Nat} {e : Expr} (h : required ≤ e.level) :
    fencedText required e = e.surface.toList := by
  simp [fencedText, Expr.fenced, Nat.not_lt.mpr h]

theorem surface_build (joint : Joint) (left right : Expr) :
    (joint.build left right).surface.toList =
      fencedText joint.precedence left ++ joint.text ++
        fencedText (joint.precedence + 1) right := by
  cases joint <;> simp [Joint.build, Joint.precedence, Joint.text, Expr.surface, fencedText,
    Expr.appLevel, Expr.atomLevel]

theorem level_build (joint : Joint) (left right : Expr) :
    (joint.build left right).level = joint.precedence := by
  cases joint <;> rfl

/-! ### What can follow -/

/-- Nothing in front of `cs` extends an expression at level `k`: the text does not go on with a
letter, and only with a joint that binds no tighter. -/
def Follows (k : Nat) (cs : List Char) : Prop :=
  Stops isNameChar cs ∧ ∀ joint after, joint? cs = some (joint, after) → joint.precedence ≤ k

theorem Follows.mono {k l : Nat} {cs : List Char} (h : Follows k cs) (hkl : k ≤ l) : Follows l cs :=
  ⟨h.1, fun joint after hj => Nat.le_trans (h.2 joint after hj) hkl⟩

theorem Joint.precedence_pos (joint : Joint) : 0 < joint.precedence := by
  cases joint with
  | apply => decide
  | operator op => cases op <;> decide

theorem Follows.of_none {k : Nat} {cs : List Char} (hcs : Stops isNameChar cs)
    (h : joint? cs = none) : Follows k cs :=
  ⟨hcs, by simp [h]⟩

theorem Follows.joint?_eq_none {cs : List Char} (h : Follows 0 cs) : joint? cs = none := by
  cases hj : joint? cs with
  | none => rfl
  | some found =>
    have := h.2 found.1 found.2 hj
    have := found.1.precedence_pos
    omega

theorem follows_nil : Follows 0 [] := .of_none .nil rfl

theorem follows_close (k : Nat) (cs : List Char) : Follows k (')' :: cs) :=
  .of_none (stops_close cs) rfl

theorem follows_in (cs : List Char) : Follows 0 (" in ".toList ++ cs) :=
  .of_none (stops_blank _) rfl

theorem follows_then (cs : List Char) : Follows 0 (" then ".toList ++ cs) :=
  .of_none (stops_blank _) rfl

theorem follows_else (cs : List Char) : Follows 0 (" else ".toList ++ cs) :=
  .of_none (stops_blank _) rfl

/-! ### The steps of the reader -/

section Steps

variable {e left right : Expr} {level : Nat} {cs after : List Char} {r : Expr × List Char}

theorem expr?_of_primary (hp : Eventually fun n => primary? n cs = some (e, after))
    (hm : Eventually fun n => more? n level e after = some r) :
    Eventually fun n => expr? n level cs = some r := by
  refine (hp.and hm).step fun n ⟨hp, hm⟩ => ?_
  simp [expr?, hp, hm]

/-- Nothing more belongs to the expression. -/
theorem more?_done (h : ∀ joint after, joint? cs = some (joint, after) → joint.precedence < level) :
    Eventually fun n => more? n level e cs = some (e, cs) := by
  refine .of_succ fun n => ?_
  rw [more?]
  split
  · next joint after hj => rw [if_neg (Nat.not_le.mpr (h joint after hj))]
  · rfl

theorem more?_of_follows (h : Follows 0 cs) :
    Eventually fun n => more? n level e cs = some (e, cs) :=
  more?_done (by simp [h.joint?_eq_none])

theorem more?_joint {joint : Joint} {between : List Char}
    (hj : joint? cs = some (joint, between)) (hlevel : level ≤ joint.precedence)
    (hright : Eventually fun n => expr? n (joint.precedence + 1) between = some (right, after))
    (hm : Eventually fun n => more? n level (joint.build left right) after = some r) :
    Eventually fun n => more? n level left cs = some r := by
  refine (hright.and hm).step fun n ⟨hright, hm⟩ => ?_
  simp [more?, hj, hlevel, hright, hm]

theorem primary?_parens (h : Eventually fun n => expr? n 0 cs = some (e, ')' :: after)) :
    Eventually fun n => primary? n ('(' :: cs) = some (e, after) := by
  refine h.step fun n h => ?_
  simp [primary?, h, expect?]

end Steps

/-! ### The invariant -/

/-- The text of `e` is read back in front of whatever can follow it.  It is read on the way to some
result, which may have `e` as its first operand only. -/
def Reads (e : Expr) : Prop :=
  ∀ (level : Nat) (cs : List Char) (r : Expr × List Char), level ≤ e.level → Follows e.level cs →
    (Eventually fun n => more? n level e cs = some r) →
    Eventually fun n => expr? n level (e.surface.toList ++ cs) = some r

/-- An expression that is read in one go. -/
theorem Reads.of_primary {e : Expr} (h : ∀ cs, Follows e.level cs →
    Eventually fun n => primary? n (e.surface.toList ++ cs) = some (e, cs)) : Reads e :=
  fun _ cs _ _ hcs hm => expr?_of_primary (h cs hcs) hm

section Invariant

variable {e left right : Expr} {cs : List Char}

/-- The text of the whole, where any expression may stand. -/
theorem Reads.whole (he : Reads e) (hcs : Follows 0 cs) :
    Eventually fun n => expr? n 0 (e.surface.toList ++ cs) = some (e, cs) :=
  he _ _ _ (Nat.zero_le _) (hcs.mono (Nat.zero_le _)) (more?_of_follows hcs)

/-- The text of a part, in parentheses or not. -/
theorem Reads.fenced (he : Reads e) {required level : Nat} {r : Expr × List Char}
    (hlevel : level ≤ required) (hcs : Follows required cs)
    (hm : Eventually fun n => more? n level e cs = some r) :
    Eventually fun n => expr? n level (fencedText required e ++ cs) = some r := by
  rcases Nat.lt_or_ge e.level required with hlt | hge
  · rw [fencedText_of_lt hlt]
    exact expr?_of_primary (primary?_parens (he.whole (follows_close 0 cs))) hm
  · rw [fencedText_of_le hge]
    exact he _ _ _ (Nat.le_trans hlevel hge) (hcs.mono hge) hm

/-- Two operands and their joint.  The left operand is read on the way to the whole, and the right
one at a level that excludes what follows. -/
theorem Reads.build (joint : Joint) (hl : Reads left) (hr : Reads right)
    (hjoint : ∀ {cs}, Stops isNameChar cs →
      joint? (joint.text ++ (fencedText (joint.precedence + 1) right ++ cs)) =
        some (joint, fencedText (joint.precedence + 1) right ++ cs)) :
    Reads (joint.build left right) := by
  intro level cs r hlevel hcs hm
  rw [level_build] at hlevel hcs
  have hj := hjoint hcs.1
  have hafter : Follows joint.precedence
      (joint.text ++ (fencedText (joint.precedence + 1) right ++ cs)) := by
    refine ⟨by cases joint <;> exact stops_blank _, fun joint' after h => ?_⟩
    rw [hj] at h
    cases h
    exact Nat.le_refl _
  have hright : Eventually fun n =>
      expr? n (joint.precedence + 1) (fencedText (joint.precedence + 1) right ++ cs) =
        some (right, cs) :=
    hr.fenced (Nat.le_refl _) (hcs.mono (Nat.le_succ _))
      (more?_done fun joint' after h => Nat.lt_succ_of_le (hcs.2 joint' after h))
  rw [surface_build, List.append_assoc, List.append_assoc]
  exact hl.fenced hlevel hafter (more?_joint hj hlevel hright hm)

end Invariant

/-! ### Forms that start with a word -/

theorem ne_of_isNameChar {c d : Char} (hc : isNameChar c = true) (hd : isNameChar d = false) :
    c ≠ d := by
  rintro rfl
  rw [hd] at hc
  cases hc

/-- What starts with a word is read by that word. -/
theorem primary?_word {ds cs : List Char} (hne : ds ≠ []) (hds : ds.all isNameChar = true)
    (hcs : Stops isNameChar cs) {r : Expr × List Char}
    (h : Eventually fun n => phrase? n (String.ofList ds) cs = some r) :
    Eventually fun n => primary? n (ds ++ cs) = some r := by
  refine h.step fun n h => ?_
  obtain ⟨d, ds, rfl⟩ := List.exists_cons_of_ne_nil hne
  have hd : isNameChar d = true := List.all_eq_true.mp hds d (by simp)
  have hparen : d ≠ '(' := ne_of_isNameChar hd (by decide)
  have hlam : d ≠ '\\' := ne_of_isNameChar hd (by decide)
  have hquote : d ≠ '"' := ne_of_isNameChar hd (by decide)
  have hminus : d ≠ '-' := ne_of_isNameChar hd (by decide)
  rw [List.cons_append, primary?.eq_6 _ _ (by simp [hparen]) (by simp [hlam]) (by simp [hquote])
    (by simp [hminus]), ← List.cons_append, word_append hds hcs]
  exact h

theorem IsName.ne {name : String} (hname : IsName name) {keyword : String}
    (hkey : keyword ∈ keywords) : name ≠ keyword := by
  rintro rfl
  exact hname.2.2.2 hkey

theorem reads_var {name : String} (hname : IsName name) : Reads (.var name) := by
  refine .of_primary fun cs hcs => primary?_word hname.1 hname.2.1 hcs.1 (.of_succ fun n => ?_)
  have hdigit : name.toList.head?.any Char.isDigit = false := hname.2.2.1
  have hlet : name ≠ "let" := hname.ne (by decide)
  have hif : name ≠ "if" := hname.ne (by decide)
  have htrue : name ≠ "true" := hname.ne (by decide)
  have hfalse : name ≠ "false" := hname.ne (by decide)
  simp [phrase?, hdigit, hlet, hif, htrue, hfalse]

theorem reads_bool (b : Bool) : Reads (.bool b) := by
  refine .of_primary fun cs hcs => ?_
  have hname : (truth b).toList.all isNameChar = true := by cases b <;> rfl
  refine primary?_word (by cases b <;> decide) hname hcs.1 (.of_succ fun n => ?_)
  cases b <;> rfl

theorem reads_str (s : String) : Reads (.str s) := by
  refine .of_primary fun cs _ => ?_
  have hunquote : Eventually fun n =>
      unquote? n (s.toList.flatMap (escapeChar isHidden) ++ '"' :: cs) = some (s.toList, cs) :=
    ⟨s.toList.length + 1, fun m hm => unquote?_flatMap isHidden s.toList cs hm⟩
  have htext : (Expr.str s).surface.toList ++ cs =
      '"' :: (s.toList.flatMap (escapeChar isHidden) ++ '"' :: cs) := by
    simp [Expr.surface, quote, toList_quoteWith]
  refine hunquote.step fun n h => ?_
  simp [htext, primary?, h]

theorem numeral_digits (n : Int64) :
    numeral (decide (n.toInt < 0)) (Nat.toDigits 10 n.toInt.natAbs) = .int n := by
  have hvalue : (if n.toInt < 0 then -(n.toInt.natAbs : Int) else n.toInt.natAbs) = n.toInt := by
    omega
  simp only [numeral, Nat.ofDigitChars_ten_toDigits, decide_eq_true_eq, hvalue, Int64.ofInt_toInt]

theorem reads_int (n : Int64) : Reads (.int n) := by
  refine .of_primary fun cs hcs => ?_
  have hnumeral := numeral_digits n
  rw [Expr.surface, toList_decimal, List.append_assoc]
  by_cases hn : n.toInt < 0
  · refine .of_succ fun m => ?_
    simp only [hn, decide_true] at hnumeral
    simp [hn, primary?, word_digits _ hcs.1, hnumeral]
  · simp only [hn, decide_false] at hnumeral
    rw [if_neg hn, List.nil_append]
    refine primary?_word Nat.toDigits_ne_nil (all_isNameChar_digits _) hcs.1 (.of_succ fun m => ?_)
    obtain ⟨d, ds, h, hd⟩ := digits_eq_cons n.toInt.natAbs
    rw [h] at hnumeral ⊢
    simp [phrase?, hd, hnumeral]

/-- An annotation, or none, in front of the arrow of a lambda. -/
theorem reads_annotation (ty : Option Ty) (cs : List Char) :
    Eventually fun n => annotation? n ((ty.elim "" fun ty => ": " ++ ty.surface).toList ++
      (" => ".toList ++ cs)) = some (ty, " => ".toList ++ cs) := by
  cases ty with
  | none => exact .of_succ fun n => rfl
  | some ty =>
    have hstop : Stops isNameChar (" => ".toList ++ cs) := stops_blank _
    obtain ⟨n, hty⟩ := reads_ty ty hstop rfl
    refine ⟨n, fun m hm => ?_⟩
    have htext : (": " ++ ty.surface).toList ++ (" => ".toList ++ cs) =
        ": ".toList ++ (ty.surface.toList ++ (" => ".toList ++ cs)) := by
      rw [String.toList_append, List.append_assoc]
    simp only [Option.elim_some, htext, annotation?, expect?_append, hty m hm, Option.map_some]

theorem reads_lam {param : String} (hparam : IsName param) (ty : Option Ty) {body : Expr}
    (hbody : Reads body) : Reads (.lam param ty body) := by
  refine .of_primary fun cs hcs => ?_
  have hty := reads_annotation ty (body.surface.toList ++ cs)
  have htext : (Expr.lam param ty body).surface.toList ++ cs =
      '\\' :: (param.toList ++ ((ty.elim "" fun ty => ": " ++ ty.surface).toList ++
        (" => ".toList ++ (body.surface.toList ++ cs)))) := by
    cases ty <;> simp [Expr.surface]
  have hstop : Stops isNameChar ((ty.elim "" fun ty => ": " ++ ty.surface).toList ++
      (" => ".toList ++ (body.surface.toList ++ cs))) := by
    cases ty with
    | none => exact stops_blank _
    | some ty => simp [stops_cons, isNameChar]
  rw [htext]
  refine (hty.and (hbody.whole hcs)).step fun n ⟨hty, hbody⟩ => ?_
  rw [primary?.eq_3, word_name hparam hstop]
  simp only [hty, Option.bind_eq_bind, Option.bind_some, expect?_append, hbody]
  rfl

theorem reads_cond {test yes no : Expr} (htest : Reads test) (hyes : Reads yes) (hno : Reads no) :
    Reads (.cond test yes no) := by
  refine .of_primary fun cs hcs => ?_
  have hno := hno.whole hcs
  have hyes := hyes.whole (follows_else (no.surface.toList ++ cs))
  have htest := htest.whole
    (follows_then (yes.surface.toList ++ (" else ".toList ++ (no.surface.toList ++ cs))))
  have htext : (Expr.cond test yes no).surface.toList ++ cs =
      "if".toList ++ ' ' :: (test.surface.toList ++ (" then ".toList ++ (yes.surface.toList ++
        (" else ".toList ++ (no.surface.toList ++ cs))))) := by
    simp [Expr.surface]
  rw [htext]
  refine primary?_word (by decide) rfl (stops_blank _) ?_
  refine ((htest.and hyes).and hno).step fun n ⟨⟨htest, hyes⟩, hno⟩ => ?_
  rw [phrase?, if_neg (by decide), if_neg (by decide), if_pos (by decide)]
  simp only [expect?_blank, expect?_append, Option.bind_eq_bind, Option.bind_some, htest, hyes, hno]
  rfl

theorem recursion?_append {name : String} (hname : IsName name) (recursive : Bool) {cs : List Char}
    (hcs : Stops isNameChar cs) :
    recursion? ((if recursive then "rec ".toList else []) ++ (name.toList ++ cs)) =
      some (recursive, name.toList ++ cs) := by
  cases recursive with
  | true =>
    have hword : word ("rec".toList ++ ' ' :: (name.toList ++ cs)) =
        ("rec", ' ' :: (name.toList ++ cs)) := word_append rfl (stops_blank _)
    show recursion? ("rec".toList ++ ' ' :: (name.toList ++ cs)) = _
    rw [recursion?, hword]
    rfl
  | false =>
    have hrec : name ≠ "rec" := hname.ne (by decide)
    show recursion? (name.toList ++ cs) = _
    rw [recursion?, word_name hname hcs, if_neg hrec]

theorem reads_letIn (recursive : Bool) {name : String} (hname : IsName name) {value body : Expr}
    (hvalue : Reads value) (hbody : Reads body) : Reads (.letIn recursive name value body) := by
  refine .of_primary fun cs hcs => ?_
  have hbody := hbody.whole hcs
  have hvalue := hvalue.whole (follows_in (body.surface.toList ++ cs))
  have hstop : Stops isNameChar (" = ".toList ++ (value.surface.toList ++
      (" in ".toList ++ (body.surface.toList ++ cs)))) := stops_blank _
  have htext : (Expr.letIn recursive name value body).surface.toList ++ cs =
      "let".toList ++ ' ' :: ((if recursive then "rec ".toList else []) ++ (name.toList ++
        (" = ".toList ++ (value.surface.toList ++ (" in ".toList ++
          (body.surface.toList ++ cs)))))) := by
    cases recursive <;> simp [Expr.surface]
  rw [htext]
  refine primary?_word (by decide) rfl (stops_blank _) ?_
  refine (hvalue.and hbody).step fun n ⟨hvalue, hbody⟩ => ?_
  rw [phrase?, if_neg (by decide), if_pos (by decide)]
  simp only [expect?_blank, Option.bind_eq_bind, Option.bind_some,
    recursion?_append hname recursive hstop, word_name hname hstop, expect?_append, hvalue, hbody]
  rfl

/-! ### Arguments -/

theorem operator?_eq_none {c : Char} {cs : List Char}
    (hc : isNameChar c = true ∨ c = '(' ∨ c = '"') : operator? (c :: cs) = none := by
  rw [operator?.eq_def]
  split
  case h_10 => rfl
  all_goals
    next heq =>
      obtain ⟨rfl, -⟩ := List.cons.inj heq
      exact absurd hc (by decide)

/-- A word that divides no form is an argument. -/
theorem joint?_word {ds cs : List Char} (hne : ds ≠ []) (hds : ds.all isNameChar = true)
    (hcs : Stops isNameChar cs) (hword : String.ofList ds ∉ ["in", "then", "else"]) :
    joint? (' ' :: (ds ++ cs)) = some (.apply, ds ++ cs) := by
  have hfirst : (word (ds ++ cs)).1 ∉ ["in", "then", "else"] := by
    rwa [word_append hds hcs]
  obtain ⟨d, ds, rfl⟩ := List.exists_cons_of_ne_nil hne
  have hd : isNameChar d = true := List.all_eq_true.mp hds d (by simp)
  have hstarts : startsArgument (d :: (ds ++ cs)) = true := by
    rw [List.cons_append] at hfirst
    simp [startsArgument, hd, hfirst]
  rw [List.cons_append, joint?, operator?_eq_none (.inl hd)]
  simp [hstarts]

/-- So is what stands in parentheses or between quotes. -/
theorem joint?_mark {c : Char} (hc : c = '(' ∨ c = '"') (cs : List Char) :
    joint? (' ' :: c :: cs) = some (.apply, c :: cs) := by
  have hstarts : startsArgument (c :: cs) = true := by
    rcases hc with rfl | rfl <;> simp [startsArgument]
  simp [joint?, operator?_eq_none (.inr hc), hstarts]

theorem joint?_digits (n : Nat) {cs : List Char} (hcs : Stops isNameChar cs) :
    joint? (' ' :: (Nat.toDigits 10 n ++ cs)) = some (.apply, Nat.toDigits 10 n ++ cs) := by
  refine joint?_word Nat.toDigits_ne_nil (all_isNameChar_digits n) hcs fun hmem => ?_
  obtain ⟨d, ds, h, hd⟩ := digits_eq_cons n
  have hlist := List.mem_map_of_mem (f := fun s => s.toList.head?.any Char.isDigit) hmem
  simp [h, hd] at hlist

theorem joint?_argument {right : Expr} (hright : right.Named) {cs : List Char}
    (hcs : Stops isNameChar cs) :
    joint? (' ' :: (fencedText Expr.atomLevel right ++ cs)) =
      some (.apply, fencedText Expr.atomLevel right ++ cs) := by
  rcases Nat.lt_or_ge right.level Expr.atomLevel with hlt | hge
  · rw [fencedText_of_lt hlt]
    exact joint?_mark (.inl rfl) _
  rw [fencedText_of_le hge]
  cases right with
  | var name =>
    refine joint?_word hright.1 hright.2.1 hcs ?_
    have hin : name ≠ "in" := hright.ne (by decide)
    have hthen : name ≠ "then" := hright.ne (by decide)
    have helse : name ≠ "else" := hright.ne (by decide)
    simp [Expr.surface, hin, hthen, helse]
  | bool b => cases b <;> exact joint?_word (by decide) rfl hcs (by decide)
  | str s =>
    simp only [Expr.surface, quote, toList_quoteWith, List.cons_append]
    exact joint?_mark (.inr rfl) _
  | int n =>
    -- a negative literal does not stand at this level
    have hn : ¬n.toInt < 0 := by
      intro hneg
      have hlt : n < 0 := Int64.lt_iff_toInt_lt.mpr hneg
      simp [Expr.level, hlt, Expr.appLevel, Expr.atomLevel] at hge
    rw [Expr.surface, toList_decimal, if_neg hn, List.nil_append]
    exact joint?_digits _ hcs
  | binary left op right =>
    cases op <;> simp [Expr.level, Operator.precedence, Expr.atomLevel] at hge
  | _ => simp [Expr.level, Expr.appLevel, Expr.atomLevel] at hge

/-! ### Expressions -/

theorem joint?_operator (op : Operator) (cs : List Char) :
    joint? ((Joint.operator op).text ++ cs) = some (.operator op, cs) := by
  cases op <;> rfl

theorem reads (e : Expr) (he : e.Named) : Reads e := by
  induction e with
  | var name => exact reads_var he
  | lam param ty body ih => exact reads_lam he.1 ty (ih he.2)
  | app func arg ihf iha =>
    exact Reads.build .apply (ihf he.1) (iha he.2) fun hcs => joint?_argument he.2 hcs
  | cond test yes no iht ihy ihn => exact reads_cond (iht he.1) (ihy he.2.1) (ihn he.2.2)
  | binary left op right ihl ihr =>
    exact Reads.build (.operator op) (ihl he.1) (ihr he.2) fun _ => joint?_operator op _
  | letIn recursive name value body ihv ihb =>
    exact reads_letIn recursive he.1 (ihv he.2.1) (ihb he.2.2)
  | int n => exact reads_int n
  | bool b => exact reads_bool b
  | str s => exact reads_str s

/-- With enough fuel, the reader gives an expression back from its text. -/
theorem expr?_surface {e : Expr} (he : e.Named) :
    Eventually fun n => expr? n 0 e.surface.toList = some (e, []) := by
  simpa using (reads e he).whole follows_nil

end Surface

/-- Expressions with proper names are the same if their texts are. -/
theorem surface_eq_iff {e e' : Expr} (he : e.Named) (he' : e'.Named) :
    e.surface = e'.surface ↔ e = e' := by
  constructor
  · intro htext
    have hread := Surface.expr?_surface he
    rw [htext] at hread
    exact congrArg Prod.fst (hread.unique (Surface.expr?_surface he'))
  · rintro rfl
    rfl

/-- `f (-1) - (x - "\"")`. -/
def nestedRight : Expr :=
  .binary (.app (.var "f") (.int (-1))) .subtract (.binary (.var "x") .subtract (.str "\""))

/-- `f (-1) - x - "\""`. -/
def nestedLeft : Expr :=
  .binary (.binary (.app (.var "f") (.int (-1))) .subtract (.var "x")) .subtract (.str "\"")

/-- Trees that differ in nothing but how the operators are nested have different texts. -/
theorem surface_eq_iff_nested :
    nestedRight.Named ∧ nestedLeft.Named ∧
      nestedRight.surface = "f (-1) - (x - \"\\\"\")" ∧
      nestedLeft.surface = "f (-1) - x - \"\\\"\"" ∧
      nestedRight.surface ≠ nestedLeft.surface := by
  have hright : nestedRight.Named := by decide +kernel
  have hleft : nestedLeft.Named := by decide +kernel
  refine ⟨hright, hleft, by decide +kernel, by decide +kernel, fun h => ?_⟩
  exact absurd ((surface_eq_iff hright hleft).mp h) (by decide)

end EagerLambda
