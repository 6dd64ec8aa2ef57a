import EagerLambda.Proofs.Arithmetic
import EagerLambda.Proofs.Threshold

/-!
# Cipher — a program that walks a string, verified

`caesar` is a program of the language: it rotates every lower-case letter of a text by `k` places
with a recursive function of two arguments, one after the other.  It does what it says on texts of
every length, and it takes one level of calls for every letter and one more (`caesar_rotates`).

The program is followed by one derivation, by induction on the text (`bigStep_walk`).  A step calls
twice: `shift k` comes back at once with a closure, and calling that one goes on with the rest of
the text while the step waits.  So only one of the two calls adds to the height (`bigStep_shift`),
and from the height the limit at which the program stops working follows (`BigStep.eval_eq`).
-/

namespace EagerLambda

variable {κ σ : Type}

/-! ### The program -/

namespace Cipher

/-- `(charCode s - 97 + k) % 26 + 97`: the code of the first letter of `s`, rotated by `k`. -/
def rotated : Expr :=
  .binary (.binary (.binary (.binary (.app (.var "charCode") (.var "s")) .subtract (.int 97))
    .add (.var "k")) .mod (.int 26)) .add (.int 97)

/-- `if s == "" then "" else codeChar rotated # shift k (remainingChars s)`. -/
def walk : Expr :=
  .cond (.binary (.var "s") .equality (.str "")) (.str "")
    (.binary (.app (.var "codeChar") rotated) .concat
      ((Expr.var "shift").apps [.var "k", .app (.var "remainingChars") (.var "s")]))

/-- `let rec shift = \k => \s => walk in shift k text`. -/
def caesar (k : Int64) (text : String) : Expr :=
  .letIn true "shift" (.lam "k" none (.lam "s" none walk))
    ((Expr.var "shift").apps [.int k, .str text])

/-! ### Letters -/

/-- The letter number `i`, counted from zero and around. -/
def letter (i : Nat) : Char := Char.ofNat (i % 26 + 97)

/-- The letter `k` places further. -/
def rotate (k : Nat) (c : Char) : Char := letter (c.toNat - 97 + k)

/-- The text with every letter `k` places further. -/
def rotateAll (k : Nat) (text : String) : String := String.ofList (text.toList.map (rotate k))

theorem toNat_letter (i : Nat) : (letter i).toNat = i % 26 + 97 := by
  have hall : ∀ j < 26, (Char.ofNat (j + 97)).toNat = j + 97 := by decide
  exact hall (i % 26) (Nat.mod_lt i (by decide))

theorem isLower_iff {c : Char} : c.isLower = true ↔ 97 ≤ c.toNat ∧ c.toNat ≤ 122 := by
  show (decide (c.val ≥ 97) && decide (c.val ≤ 122)) = true ↔ _
  simp only [ge_iff_le, Bool.and_eq_true, decide_eq_true_eq, UInt32.le_iff_toNat_le]
  rfl

theorem isLower_letter (i : Nat) : (letter i).isLower = true := by
  have hlt := Nat.mod_lt i (show 26 > 0 by decide)
  rw [isLower_iff, toNat_letter]
  omega

/-- A lower-case letter is the one with its number. -/
theorem letter_toNat {c : Char} (hc : c.isLower = true) : letter (c.toNat - 97) = c := by
  have hrange := isLower_iff.mp hc
  rw [letter, Nat.mod_eq_of_lt (by omega), Nat.sub_add_cancel hrange.1, Char.ofNat_toNat]

/-- Rotations that add up to whole turns cancel each other. -/
theorem rotate_rotate {j k : Nat} (h : (k + j) % 26 = 0) {c : Char} (hc : c.isLower = true) :
    rotate j (rotate k c) = c := by
  have hturn : ((c.toNat - 97 + k) % 26 + 97 - 97 + j) % 26 = (c.toNat - 97) % 26 := by omega
  rw [rotate, rotate, toNat_letter, letter, hturn]
  exact letter_toNat hc

theorem rotateAll_rotateAll {j k : Nat} (h : (k + j) % 26 = 0) {text : String}
    (htext : text.toList.all Char.isLower = true) : rotateAll j (rotateAll k text) = text := by
  have hback : (text.toList.map (rotate k)).map (rotate j) = text.toList := by
    rw [List.map_map]
    exact (List.map_congr_left fun c hc => rotate_rotate h (List.all_eq_true.mp htext c hc)).trans
      (List.map_id _)
  rw [rotateAll, rotateAll, String.toList_ofList, hback, String.ofList_toList]

theorem all_isLower_rotateAll (k : Nat) (text : String) :
    (rotateAll k text).toList.all Char.isLower = true := by
  simp [rotateAll, rotate, isLower_letter]

theorem length_rotateAll (k : Nat) (text : String) : (rotateAll k text).length = text.length := by
  simp [rotateAll, ← String.length_toList]

end Cipher

/-! ### Derivations -/

/-- The name of the intrinsic is bound to it. -/
def Env.Supplies (env : Env κ) (i : Intrinsic) : Prop :=
  ∃ b : Builtin κ, env.lookup? i.name = some (.builtin b) ∧ b.code = .intrinsic i

theorem Env.Supplies.frame {env : Env κ} {i : Intrinsic} (h : env.Supplies i) {x : String}
    (hx : x ≠ i.name) (id : Nat) (v : Value κ) : (Env.frame id x v env).Supplies i := by
  obtain ⟨b, hb, hcode⟩ := h
  exact ⟨b, (if_neg hx).trans hb, hcode⟩

/-- The prelude supplies every intrinsic. -/
theorem Env.supplies_withPrelude (store : Store σ) (i : Intrinsic) :
    (Env.withPrelude (κ := κ) store).1.Supplies i := by
  cases i <;> exact ⟨_, rfl, rfl⟩

/-- The prelude holds nothing but intrinsics. -/
theorem Env.within_withPrelude (store : Store σ) (Q : κ → Prop) :
    (Env.withPrelude (κ := κ) store).1.Within Q := ⟨trivial, trivial, trivial, trivial, trivial⟩

section

variable {host : Host κ σ} {env : Env κ}

/-- The expression has the value `v`.  No closure is called for it, and nothing is made. -/
def Expr.Yields (host : Host κ σ) (env : Env κ) (e : Expr) (v : Value κ) : Prop :=
  ∀ t, BigStep host t env e (.ok v) 0 t

namespace Expr.Yields

/-- An intrinsic that succeeds. -/
theorem intrinsic {i : Intrinsic} {a : Expr} {v w : Value κ} (hi : env.Supplies i)
    (ha : a.Yields host env v) (hw : i.apply v = .ok w) :
    (Expr.app (.var i.name) a).Yields host env w := by
  obtain ⟨b, hb, hcode⟩ := hi
  intro t
  rw [← hw]
  exact .appIntrinsic (.var hb) (ha t) hcode

/-- An operator that succeeds. -/
theorem binary {l r : Expr} {op : Operator} {u v w : Value κ} (hl : l.Yields host env u)
    (hr : r.Yields host env v) (hw : op.apply u v = .ok w) :
    (Expr.binary l op r).Yields host env w := by
  intro t
  rw [← hw]
  exact .binary (hl t) (hr t)

/-- An arithmetic operator whose exact result is a word. -/
theorem arithmetic (op : Operator) {l r : Expr} {a b : Int64} {x y n : Int}
    (hl : l.Yields host env (.int a)) (ha : a.toInt = x) (hr : r.Yields host env (.int b))
    (hb : b.toInt = y) (hop : op ≠ .mod ∨ b ≠ -1) (hn : op.result? x y = some n)
    (hrange : Word.InRange n) :
    ∃ w : Int64, (Expr.binary l op r).Yields host env (.int w) ∧ w.toInt = n := by
  subst ha hb
  obtain ⟨w, hw, happly⟩ := op.exists_apply hop hn hrange
  exact ⟨w, hl.binary hr happly, hw⟩

end Expr.Yields

end

namespace Cipher

/-- The function that the program binds, over the environment `outer`. -/
def shift (id : Nat) (outer : Env κ) : Closure κ :=
  ⟨id, "k", .lam "s" none walk, some "shift", outer⟩

/-- `shift` is bound to the function of the program, over an environment with the intrinsics. -/
def Shifts (env : Env κ) : Prop :=
  ∃ id outer, env.lookup? "shift" = some (.closure (shift id outer)) ∧ ∀ i, outer.Supplies i

/-- An environment in which `walk` runs, with the letters `cs` to go. -/
structure Inside (k : Int64) (cs : List Char) (env : Env κ) : Prop where
  text : env.lookup? "s" = some (.str (String.ofList cs))
  key : env.lookup? "k" = some (.int k)
  shifts : Shifts env
  supplies : ∀ i, env.Supplies i

/-- What the two calls of a step bind. -/
theorem Inside.of_calls {outer : Env κ} (h : ∀ i, outer.Supplies i) (id i j l : Nat) (k : Int64)
    (cs : List Char) :
    Inside k cs (.frame i "s" (.str (String.ofList cs)) (.frame j "k" (.int k)
      (.frame l "shift" (.closure (shift id outer)) outer))) where
  text := rfl
  key := rfl
  shifts := ⟨id, outer, rfl, h⟩
  supplies i := by
    refine (((h i).frame ?_ _ _).frame ?_ _ _).frame ?_ _ _
    all_goals cases i <;> decide

variable {host : Host κ σ} {env : Env κ} {k : Int64}

/-- **`shift` applied to two arguments** is `walk`, one call deeper: the first of the two calls is
over when the second is made. -/
theorem bigStep_shift (hshift : Shifts env) {ek es : Expr} {cs : List Char} {w : Value κ} {h : Nat}
    (hk : ek.Yields host env (.int k)) (hs : es.Yields host env (.str (String.ofList cs)))
    (hwalk : ∀ (t : Store σ) env', Inside k cs env' →
      ∃ t', BigStep host t env' walk (.ok w) h t') (t : Store σ) :
    ∃ t', BigStep host t env ((Expr.var "shift").apps [ek, es]) (.ok w) (h + 1) t' := by
  obtain ⟨id, outer, hlookup, hsupplies⟩ := hshift
  have hfirst := BigStep.appRecursive (.var hlookup) (hk t) rfl .lam
  obtain ⟨t', hbody⟩ := hwalk _ _ (.of_calls hsupplies id _ _ _ k cs)
  have hsecond := BigStep.appClosure hfirst (hs _) rfl hbody
  have hheight : max (max (max (max 0 0) (0 + 1)) 0) (h + 1) = h + 1 := by omega
  exact ⟨t', hheight ▸ hsecond⟩

/-- **The code of a letter, rotated.**  Nothing on the way leaves the range of words, and nothing is
negative, so the remainder is the one of natural numbers. -/
theorem yields_rotated {c : Char} {cs : List Char} (hin : Inside k (c :: cs) env)
    (hc : c.isLower = true) (hlow : 0 ≤ k.toInt) (hhigh : k.toInt + 25 ≤ Int64.maxValue.toInt) :
    ∃ n : Int64, rotated.Yields host env (.int n) ∧
      n.toInt = (rotate k.toInt.toNat c).toNat := by
  have hletter := isLower_iff.mp hc
  have hmax : k.toInt + 25 ≤ 9223372036854775807 := hhigh
  have hcode : (Int64.ofNat c.toNat).toInt = c.toNat := Intrinsic.toInt_code c
  have h97 : (97 : Int64).toInt = 97 := rfl
  have h26 : (26 : Int64).toInt = 26 := rfl
  have h₀ : (Expr.app (.var "charCode") (.var "s")).Yields host env _ :=
    .intrinsic (hin.supplies .charCode) (fun _ => .var hin.text) (Intrinsic.onChars_cons _ _ c cs)
  obtain ⟨n₁, h₁, hn₁⟩ := h₀.arithmetic .subtract hcode (fun _ => .int) h97
    (.inl (by decide)) rfl (Word.inRange_iff.mpr (by omega))
  obtain ⟨n₂, h₂, hn₂⟩ := h₁.arithmetic .add hn₁ (fun _ => .var hin.key) rfl
    (.inl (by decide)) rfl (Word.inRange_iff.mpr (by omega))
  have hmod : Operator.mod.result? (c.toNat - 97 + k.toInt) 26 =
      some ((c.toNat - 97 + k.toInt) % 26) := by
    rw [Operator.result?, if_neg (by decide), Int.tmod_eq_emod_of_nonneg (by omega)]
  obtain ⟨n₃, h₃, hn₃⟩ := h₂.arithmetic .mod hn₂ (fun _ => .int) h26
    (.inr (by decide)) hmod (Word.inRange_iff.mpr (by omega))
  obtain ⟨n₄, h₄, hn₄⟩ := h₃.arithmetic .add hn₃ (fun _ => .int) h97
    (.inl (by decide)) rfl (Word.inRange_iff.mpr (by omega))
  refine ⟨n₄, h₄, ?_⟩
  rw [hn₄, rotate, toNat_letter]
  omega

/-- **The walk**: the letters that are left come out rotated, with one call nested for each. -/
theorem bigStep_walk (hlow : 0 ≤ k.toInt) (hhigh : k.toInt + 25 ≤ Int64.maxValue.toInt)
    (cs : List Char) (hcs : cs.all Char.isLower = true) :
    ∀ (t : Store σ) (env : Env κ), Inside k cs env → ∃ t', BigStep host t env walk
      (.ok (.str (String.ofList (cs.map (rotate k.toInt.toNat))))) cs.length t' := by
  induction cs with
  | nil =>
      intro t env hin
      have htest : (Expr.binary (.var "s") .equality (.str "")).Yields host env (.bool true) :=
        .binary (fun _ => .var hin.text) (fun _ => .str) rfl
      exact ⟨t, .condTrue (htest t) .str⟩
  | cons c cs ih =>
      intro t env hin
      obtain ⟨hc, hcs⟩ := Bool.and_eq_true_iff.mp hcs
      have htest : (Expr.binary (.var "s") .equality (.str "")).Yields host env (.bool false) :=
        .binary (fun _ => .var hin.text) (fun _ => .str) (by simp [Operator.apply])
      obtain ⟨n, hrotated, hn⟩ := yields_rotated hin hc hlow hhigh
      have hletter : (Expr.app (.var "codeChar") rotated).Yields host env
          (.str (String.ofList [rotate k.toInt.toNat c])) :=
        .intrinsic (hin.supplies .codeChar) hrotated
          (Intrinsic.apply_codeChar hn)
      have hrest : (Expr.app (.var "remainingChars") (.var "s")).Yields host env
          (.str (String.ofList cs)) :=
        .intrinsic (hin.supplies .remainingChars) (fun _ => .var hin.text)
          (Intrinsic.onChars_cons _ _ c cs)
      obtain ⟨t', hshift⟩ := bigStep_shift hin.shifts (fun _ => .var hin.key) hrest (ih hcs) t
      have hjoined : Operator.concat.apply (.str (String.ofList [rotate k.toInt.toNat c]))
          (.str (String.ofList (cs.map (rotate k.toInt.toNat)))) =
          (.ok (.str (String.ofList ((c :: cs).map (rotate k.toInt.toNat)))) :
            Except (EvalError κ) (Value κ)) := by
        simp [Operator.apply]
      have hheight : max 0 (max 0 (cs.length + 1)) = (c :: cs).length := by
        simp
      refine ⟨t', ?_⟩
      rw [← hjoined, ← hheight]
      exact .condFalse (htest t) (.binary (hletter t) hshift)

/-- **The program**: the text comes out rotated, and the calls are nested once for each letter and
once more. -/
theorem bigStep_caesar (hlow : 0 ≤ k.toInt) (hhigh : k.toInt + 25 ≤ Int64.maxValue.toInt)
    {text : String} (htext : text.toList.all Char.isLower = true) (hsupplies : ∀ i, env.Supplies i)
    (t : Store σ) :
    ∃ t', BigStep host t env (caesar k text) (.ok (.str (rotateAll k.toInt.toNat text)))
      (text.length + 1) t' := by
  have htied : Shifts (.frame (t.next + 2) "shift" (.closure (shift (t.next + 1) env)) env) :=
    ⟨t.next + 1, env, rfl, hsupplies⟩
  have hstr (env' : Env κ) : (Expr.str text).Yields host env'
      (.str (String.ofList text.toList)) := by
    rw [String.ofList_toList]
    exact fun _ => .str
  obtain ⟨t', hshift⟩ := bigStep_shift htied (fun _ => .int) (hstr _)
    (bigStep_walk hlow hhigh text.toList htext) (t.taken 3)
  refine ⟨t', ?_⟩
  rw [← Nat.zero_max (text.length + 1), ← String.length_toList]
  exact .letRec .lam rfl hshift

/-- What the program comes to under a limit. -/
theorem eval_caesar (host : Host κ σ) (hsupplies : ∀ i, env.Supplies i)
    (hheld : env.Within fun _ => False) {context : Context} {store : Store σ}
    (hclear : context.isInterrupted store = false) (hdepth : context.depth = 0)
    (hlow : 0 ≤ k.toInt) (hhigh : k.toInt + 25 ≤ Int64.maxValue.toInt) {text : String}
    (htext : text.toList.all Char.isLower = true) :
    ((caesar k text).eval host env (.start context store)).1 =
      if text.length + 1 ≤ context.limit then .ok (.str (rotateAll k.toInt.toNat text)) else
        .error (.stackOverflow context.limit context.limit) := by
  obtain ⟨t', hb⟩ := bigStep_caesar hlow hhigh htext hsupplies store
  have hleaves : host.Leaves context.flag fun _ => False := fun _ _ _ _ h => h.elim
  have heval := BigStep.eval_eq (s := .start context store) hb hleaves hheld hclear
    (Nat.le_trans (Nat.le_of_eq hdepth) (Nat.zero_le _))
  rw [heval]
  simp only [Run.State.start, hdepth, Nat.zero_add]

/-- The number of places that undoes a rotation by `k`. -/
theorem toInt_opposite (hlow : 0 ≤ k.toInt) : (26 - k % 26).toInt = 26 - k.toInt % 26 := by
  have hmod : (k % 26).toInt = k.toInt % 26 := by
    rw [Int64.toInt_mod]
    exact Int.tmod_eq_emod_of_nonneg hlow
  have hexact : 26 - k % 26 = Int64.ofInt (26 - k.toInt % 26) := by
    rw [Int64.ofInt_sub, ← hmod, Int64.ofInt_toInt]
    rfl
  rw [hexact, Int64.toInt_ofInt_of_le (by omega) (by omega)]

/-- **The cipher works at every length.**  Take a text of `n` lower-case letters, a number `k` that
leaves room for one letter below the greatest word, and a context at depth zero with the flag down.
Over the prelude, the program yields the text with every letter `k` places further, and the program
with the opposite number of places undoes it, if there is room for `n + 1` nested calls.  If there
is less room, the limit is reached. -/
theorem caesar_rotates (host : Host κ σ) (made : Store σ) (context : Context) (store : Store σ)
    (k : Int64) (text : String) (hclear : context.isInterrupted store = false)
    (hdepth : context.depth = 0) (hlow : 0 ≤ k.toInt)
    (hhigh : k.toInt + 25 ≤ Int64.maxValue.toInt)
    (htext : text.toList.all Char.isLower = true) :
    let env : Env κ := (Env.withPrelude made).1
    let ends (j : Int64) (text : String) := ((caesar j text).eval host env (.start context store)).1
    (text.length + 1 ≤ context.limit →
      ends k text = .ok (.str (rotateAll k.toInt.toNat text)) ∧
      ends (26 - k % 26) (rotateAll k.toInt.toNat text) = .ok (.str text)) ∧
    (context.limit ≤ text.length →
      ends k text = .error (.stackOverflow context.limit context.limit)) := by
  intro env ends
  have hends {j : Int64} (hlow : 0 ≤ j.toInt) (hhigh : j.toInt + 25 ≤ Int64.maxValue.toInt)
      {text : String} (htext : text.toList.all Char.isLower = true) :=
    eval_caesar host (Env.supplies_withPrelude made) (Env.within_withPrelude made _) hclear hdepth
      hlow hhigh htext
  constructor
  · intro hroom
    have hback := toInt_opposite hlow
    have hmax : Int64.maxValue.toInt = 9223372036854775807 := rfl
    refine ⟨(hends hlow hhigh htext).trans (if_pos hroom), ?_⟩
    refine (hends (by omega) (by omega) (all_isLower_rotateAll k.toInt.toNat text)).trans ?_
    rw [length_rotateAll, if_pos hroom, rotateAll_rotateAll (by omega) htext]
  · intro hroom
    exact (hends hlow hhigh htext).trans (if_neg (by omega))

/-- Three letters and the greatest number of places: four nested calls are enough, three are not. -/
theorem caesar_rotates_xyz :
    let env : Env Stock := (Env.withPrelude (.initial fun _ : Nat => 0)).1
    let ends (limit : Nat) (k : Int64) (text : String) := ((caesar k text).eval Stock.host env
      (.start ⟨limit, 0, 0⟩ ⟨9, fun _ => false, fun _ => 0⟩)).1
    ends 4 9223372036854775782 "xyz" = .ok (.str "fgh") ∧
    ends 4 18 "fgh" = .ok (.str "xyz") ∧
    ends 3 9223372036854775782 "xyz" = .error (.stackOverflow 3 3) := by
  intro env ends
  have hlaw (limit : Nat) := caesar_rotates Stock.host (.initial fun _ : Nat => 0)
    ⟨limit, 0, 0⟩ ⟨9, fun _ => false, fun _ => 0⟩ 9223372036854775782 "xyz" rfl rfl (by decide)
    (by decide) (by decide)
  have htext : rotateAll 9223372036854775782 "xyz" = "fgh" := by decide
  obtain ⟨hforth, hback⟩ := (hlaw 4).1 (by decide)
  exact ⟨by rw [← htext]; exact hforth, by rw [← htext]; exact hback, (hlaw 3).2 (by decide)⟩

end Cipher

end EagerLambda
