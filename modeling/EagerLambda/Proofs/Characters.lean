import EagerLambda.Eval.Stock
import EagerLambda.Proofs.Causes

/-!
# Characters — strings taken apart and put together

Three intrinsics look at the first character of a string: one yields it, one what is left without
it, one its code point.  The fourth goes from a code point to the character.  Together with
concatenation they lose nothing (`strings_rebuilt`): the first character and the rest make up the
string again, a code point and its character determine each other, and a string is what its code
points spell.

A string is looked at as `String.ofList cs`, and what is said of the whole of it goes by induction
on the list: `behead_ofList` for the characters taken off one by one, `codes_ofList` for the code
points met on the way, `spell_codePoints` for the way back.

Code points are words, but not every word is one.  `isScalar_iff` says that those in the two ranges
around the surrogates are exactly those of characters.
-/

namespace EagerLambda

variable {κ : Type}

namespace Value

/-- The string of one character. -/
def character (c : Char) : Value κ := .str (String.ofList [c])

/-- The code point of a character, as a word. -/
def codePoint (c : Char) : Value κ := .int (Int64.ofNat c.toNat)

/-- Take off `n` characters, one after the other. -/
def behead : Nat → Value κ → Except (EvalError κ) (Value κ)
  | 0, v => .ok v
  | n + 1, v => do behead n (← Intrinsic.remainingChars.apply v)

/-- The code points of the first `n` characters, each met when those before it are taken off. -/
def codes : Nat → Value κ → Except (EvalError κ) (List (Value κ))
  | 0, _ => .ok []
  | n + 1, v => do
    let code ← Intrinsic.charCode.apply v
    let rest ← Intrinsic.remainingChars.apply v
    return code :: (← codes n rest)

/-- The characters with the given code points, concatenated in order. -/
def spell (codes : List (Value κ)) : Except (EvalError κ) (Value κ) := do
  let characters ← codes.mapM Intrinsic.codeChar.apply
  characters.foldlM Operator.concat.apply (.str "")

end Value

/-! ### Code points -/

/-- A number is in the ranges around the surrogates if it is the code point of a character. -/
theorem isScalar_iff {n : Int} : IsScalar n ↔ ∃ c : Char, n = c.toNat := by
  constructor
  · intro h
    simp only [IsScalar] at h
    have hvalid : n.toNat.isValidChar := by
      simp only [Nat.isValidChar]
      omega
    have hcode : (Char.ofNatAux n.toNat hvalid).toNat = n.toNat := rfl
    exact ⟨Char.ofNatAux n.toNat hvalid, by omega⟩
  · rintro ⟨c, rfl⟩
    have hvalid : c.toNat.isValidChar := c.valid
    simp only [Nat.isValidChar] at hvalid
    simp only [IsScalar]
    omega

/-- A word that is the code point of a character is made into that character. -/
theorem codeChar_apply_of_isScalar {n : Int64} (h : IsScalar n.toInt) :
    ∃ c, Intrinsic.codeChar.apply (.int n : Value κ) = .ok (.character c) ∧
      Value.int n = .codePoint (κ := κ) c := by
  obtain ⟨c, hc⟩ := isScalar_iff.mp h
  refine ⟨c, Intrinsic.apply_codeChar hc, congrArg Value.int (Int64.toInt_inj.mp ?_)⟩
  rw [hc, Intrinsic.toInt_code]

theorem codeChar_apply_of_not_isScalar {n : Int64} (h : ¬ IsScalar n.toInt) :
    Intrinsic.codeChar.apply (.int n : Value κ) = .error (.invalidCharCode n) := by
  simp only [Intrinsic.apply, Intrinsic.charOf?_eq_none_iff.mpr h]

/-! ### The first character -/

section

variable (c : Char) (cs : List Char)

theorem firstChar_apply_cons :
    Intrinsic.firstChar.apply (.str (String.ofList (c :: cs)) : Value κ) = .ok (.character c) :=
  Intrinsic.onChars_cons _ _ c cs

theorem remainingChars_apply_cons :
    Intrinsic.remainingChars.apply (.str (String.ofList (c :: cs)) : Value κ) =
      .ok (.str (String.ofList cs)) :=
  Intrinsic.onChars_cons _ _ c cs

theorem charCode_apply_cons :
    Intrinsic.charCode.apply (.str (String.ofList (c :: cs)) : Value κ) = .ok (.codePoint c) :=
  Intrinsic.onChars_cons _ _ c cs

theorem codeChar_apply_codePoint :
    Intrinsic.codeChar.apply (.codePoint c : Value κ) = .ok (.character c) :=
  Intrinsic.apply_codeChar (Intrinsic.toInt_code c)

theorem concat_apply_ofList (bs : List Char) :
    Operator.concat.apply (.str (String.ofList bs)) (.str (String.ofList cs) : Value κ) =
      .ok (.str (String.ofList (bs ++ cs))) := by
  rw [String.ofList_append]
  rfl

end

/-! ### All characters -/

/-- **Taking off characters** ends when none is left. -/
theorem behead_ofList (n : Nat) : ∀ cs : List Char,
    (Value.str (String.ofList cs) : Value κ).behead n =
      if n ≤ cs.length then .ok (.str (String.ofList (cs.drop n)))
      else .error (.emptyString Intrinsic.remainingChars.name) := by
  induction n with
  | zero => intro cs; rfl
  | succ n ih =>
      intro cs
      cases cs with
      | nil => rfl
      | cons c cs =>
          show (Intrinsic.remainingChars.apply _ >>= fun rest => Value.behead n rest) = _
          rw [remainingChars_apply_cons]
          refine (ih cs).trans ?_
          simp only [List.length_cons, Nat.add_le_add_iff_right, List.drop_succ_cons]

/-- The empty string is reached after as many steps as there are characters, no earlier and no
later. -/
theorem behead_eq_empty_iff (s : String) (n : Nat) :
    (Value.str s : Value κ).behead n = .ok (.str "") ↔ n = s.length := by
  have hbehead := behead_ofList (κ := κ) n s.toList
  rw [String.ofList_toList, String.length_toList] at hbehead
  rw [hbehead]
  split
  · next hle =>
      rw [Except.ok.injEq, Value.str.injEq, String.ofList_eq_empty_iff, List.drop_eq_nil_iff,
        String.length_toList]
      omega
  · next hlt =>
      constructor
      · intro h; cases h
      · intro h; exact absurd (Nat.le_of_eq h) hlt

/-- **The code points** met on the way are those of the characters. -/
theorem codes_ofList (cs : List Char) :
    (Value.str (String.ofList cs) : Value κ).codes cs.length = .ok (cs.map .codePoint) := by
  induction cs with
  | nil => rfl
  | cons c cs ih =>
      simp only [List.length_cons, Value.codes, charCode_apply_cons, remainingChars_apply_cons]
      show (Value.codes cs.length _ >>= fun codes => Except.ok (Value.codePoint c :: codes)) = _
      rw [ih]
      rfl

theorem mapM_codeChar_codePoints (cs : List Char) :
    (cs.map .codePoint : List (Value κ)).mapM Intrinsic.codeChar.apply =
      .ok (cs.map .character) := by
  induction cs with
  | nil => rfl
  | cons c cs ih =>
      rw [List.map_cons, List.mapM_cons, codeChar_apply_codePoint, ih]
      rfl

theorem foldlM_concat_characters (cs : List Char) : ∀ bs : List Char,
    (cs.map .character : List (Value κ)).foldlM Operator.concat.apply (.str (String.ofList bs)) =
      .ok (.str (String.ofList (bs ++ cs))) := by
  induction cs with
  | nil => intro bs; rw [List.append_nil]; rfl
  | cons c cs ih =>
      intro bs
      rw [List.map_cons, List.foldlM_cons, Value.character, concat_apply_ofList]
      refine (ih (bs ++ [c])).trans ?_
      rw [List.append_assoc]
      rfl

/-- **The way back**: the code points of a string spell it. -/
theorem spell_codePoints (cs : List Char) :
    Value.spell (cs.map .codePoint : List (Value κ)) = .ok (.str (String.ofList cs)) := by
  rw [Value.spell, mapM_codeChar_codePoints]
  exact foldlM_concat_characters cs []

/-! ### Strings rebuilt -/

/-- **The intrinsics on strings decompose and rebuild every string.**  The empty string is refused
by the three that look at the first character.  Any other is the concatenation of its first
character and the rest, and its first character is the one with its code point.  Of a character
concatenated with a string, the first character is that character, and the rest is that string.  A
word is made into a character if it is a scalar value, and the string of that character has this
code point and no rest; other words are refused.  So taking off the characters of a string one by
one reaches the empty string after as many steps as it has characters, and the code points met on
the way spell it. -/
theorem strings_rebuilt (s : String) (n : Int64) :
    (s = "" → ∀ i ∈ [Intrinsic.firstChar, .remainingChars, .charCode],
      i.apply (.str s : Value κ) = .error (.emptyString i.name)) ∧
    (s ≠ "" → ∃ first rest code : Value κ,
      Intrinsic.firstChar.apply (.str s) = .ok first ∧
      Intrinsic.remainingChars.apply (.str s) = .ok rest ∧
      Intrinsic.charCode.apply (.str s) = .ok code ∧
      Operator.concat.apply first rest = .ok (.str s) ∧
      Intrinsic.codeChar.apply code = .ok first) ∧
    (∀ c : String, c.length = 1 → ∃ joined : Value κ,
      Operator.concat.apply (.str c) (.str s) = .ok joined ∧
      Intrinsic.firstChar.apply joined = .ok (.str c) ∧
      Intrinsic.remainingChars.apply joined = .ok (.str s)) ∧
    (IsScalar n.toInt → ∃ single : Value κ,
      Intrinsic.codeChar.apply (.int n) = .ok single ∧
      Intrinsic.charCode.apply single = .ok (.int n) ∧
      Intrinsic.remainingChars.apply single = .ok (.str "")) ∧
    (¬ IsScalar n.toInt →
      Intrinsic.codeChar.apply (.int n : Value κ) = .error (.invalidCharCode n)) ∧
    (∀ steps, (Value.str s : Value κ).behead steps = .ok (.str "") ↔ steps = s.length) ∧
    ∃ codes, (Value.str s : Value κ).codes s.length = .ok codes ∧
      Value.spell codes = .ok (.str s) := by
  refine ⟨?_, ?_, ?_, ?_, codeChar_apply_of_not_isScalar, behead_eq_empty_iff s, ?_⟩
  · rintro rfl i hi
    simp only [List.mem_cons, List.not_mem_nil, or_false] at hi
    rcases hi with rfl | rfl | rfl <;> rfl
  · intro hs
    obtain ⟨c, cs, hcs⟩ := List.exists_cons_of_ne_nil (mt String.toList_eq_nil_iff.mp hs)
    obtain rfl : s = String.ofList (c :: cs) := by rw [← hcs, String.ofList_toList]
    exact ⟨_, _, _, firstChar_apply_cons c cs, remainingChars_apply_cons c cs,
      charCode_apply_cons c cs, concat_apply_ofList cs [c], codeChar_apply_codePoint c⟩
  · intro c hc
    obtain ⟨d, hd⟩ := List.length_eq_one_iff.mp ((String.length_toList (s := c)).trans hc)
    obtain rfl : c = String.ofList [d] := by rw [← hd, String.ofList_toList]
    have hjoined := concat_apply_ofList (κ := κ) s.toList [d]
    have hrest := remainingChars_apply_cons (κ := κ) d s.toList
    rw [String.ofList_toList] at hjoined hrest
    exact ⟨_, hjoined, firstChar_apply_cons d s.toList, hrest⟩
  · intro hn
    obtain ⟨c, hchar, hcode⟩ := codeChar_apply_of_isScalar (κ := κ) hn
    exact ⟨_, hchar, hcode ▸ charCode_apply_cons c [], remainingChars_apply_cons c []⟩
  · have hcodes := codes_ofList (κ := κ) s.toList
    have hspell := spell_codePoints (κ := κ) s.toList
    rw [String.ofList_toList] at hcodes hspell
    rw [String.length_toList] at hcodes
    exact ⟨_, hcodes, hspell⟩

/-- Characters of one to four bytes, the first code point past the surrogates, and a surrogate. -/
theorem strings_rebuilt_wide :
    (∀ i ∈ [Intrinsic.firstChar, .remainingChars, .charCode],
      i.apply (.str "" : Value Stock) = .error (.emptyString i.name)) ∧
    (∃ first rest : Value Stock, Intrinsic.firstChar.apply (.str "ß水🎉") = .ok first ∧
      Intrinsic.remainingChars.apply (.str "ß水🎉") = .ok rest ∧
      Operator.concat.apply first rest = .ok (.str "ß水🎉")) ∧
    (∃ joined : Value Stock, Operator.concat.apply (.str "z") (.str "ß水🎉") = .ok joined ∧
      Intrinsic.firstChar.apply joined = .ok (.str "z") ∧
      Intrinsic.remainingChars.apply joined = .ok (.str "ß水🎉")) ∧
    (∃ single : Value Stock, Intrinsic.codeChar.apply (.int 0xE000) = .ok single ∧
      Intrinsic.charCode.apply single = .ok (.int 0xE000)) ∧
    Intrinsic.codeChar.apply (.int 0xD800 : Value Stock) = .error (.invalidCharCode 0xD800) ∧
    ∃ codes, (Value.str "ß水🎉" : Value Stock).codes 3 = .ok codes ∧
      Value.spell codes = .ok (.str "ß水🎉") := by
  have hscalar : IsScalar (0xE000 : Int64).toInt := .inr ⟨by decide, by decide⟩
  have hsurrogate : ¬ IsScalar (0xD800 : Int64).toInt := by
    rintro (h | h)
    · exact absurd h.2 (by decide)
    · exact absurd h.1 (by decide)
  obtain ⟨hempty, -⟩ := strings_rebuilt (κ := Stock) "" 0
  obtain ⟨-, hparts, hjoined, hchar, -, -, hcodes⟩ := strings_rebuilt (κ := Stock) "ß水🎉" 0xE000
  obtain ⟨-, -, -, -, hrefused, -⟩ := strings_rebuilt (κ := Stock) "" 0xD800
  obtain ⟨first, rest, code, hfirst, hrest, -, hconcat, -⟩ := hparts (by decide)
  obtain ⟨single, hsingle, hcode, -⟩ := hchar hscalar
  exact ⟨hempty rfl, ⟨first, rest, hfirst, hrest, hconcat⟩, hjoined "z" (by decide),
    ⟨single, hsingle, hcode⟩, hrefused hsurrogate, hcodes⟩

end EagerLambda
