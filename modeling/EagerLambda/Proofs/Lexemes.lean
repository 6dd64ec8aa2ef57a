import EagerLambda.Text.Record
import EagerLambda.Text.Quoted

/-!
# Lexemes

A reader takes the longest run of characters of one class, so a lexeme is read back exactly when
the text after it does not go on in that class (`Stops`).  This is how numerals end, in the
interchange form as well as in the surface text.

A quoted string carries its end with it.  `unquote?` reads it back, whatever characters are written
by their code points (`unquote?_flatMap`).
-/

namespace EagerLambda.Text

/-- The text is over, or its first character is not in the class `p`. -/
def Stops (p : Char → Bool) (rest : List Char) : Prop := ∀ c ∈ rest.head?, p c = false

section Stops

variable {p : Char → Bool} {ds rest : List Char}

theorem Stops.nil : Stops p [] := by simp [Stops]

theorem stops_cons {c : Char} : Stops p (c :: rest) ↔ p c = false := by simp [Stops]

/-- A run of the class in front of a text that stops it is what the class takes. -/
theorem Stops.takeWhile_append (hrest : Stops p rest) (hds : ∀ c ∈ ds, p c = true) :
    (ds ++ rest).takeWhile p = ds := by
  rw [List.takeWhile_append_of_pos hds]
  cases rest with
  | nil => simp
  | cons c cs => simp [stops_cons.mp hrest]

theorem Stops.dropWhile_append (hrest : Stops p rest) (hds : ∀ c ∈ ds, p c = true) :
    (ds ++ rest).dropWhile p = rest := by
  rw [List.dropWhile_append_of_pos hds]
  cases rest with
  | nil => rfl
  | cons c cs => simp [stops_cons.mp hrest]

end Stops

/-! ### Numerals -/

theorem isDigit_of_mem_digits {n : Nat} {c : Char} (hc : c ∈ Nat.toDigits 10 n) :
    c.isDigit = true :=
  Nat.isDigit_of_mem_toDigits (by decide) (by decide) hc

theorem digits_eq_cons (n : Nat) :
    ∃ d ds, Nat.toDigits 10 n = d :: ds ∧ d.isDigit = true := by
  obtain ⟨d, ds, h⟩ := List.exists_cons_of_ne_nil (Nat.toDigits_ne_nil (n := n) (b := 10))
  have hd : d ∈ Nat.toDigits 10 n := by simp [h]
  exact ⟨d, ds, h, isDigit_of_mem_digits hd⟩

/-- Only the numeral of zero starts with a zero. -/
theorem head?_digits_ne_zero {n : Nat} (hn : 0 < n) : (Nat.toDigits 10 n).head? ≠ some '0' := by
  induction n using Nat.strongRecOn with
  | ind n ih =>
    rcases Nat.lt_or_ge n 10 with hlt | hge
    · rw [Nat.toDigits_of_lt_base hlt]
      have hall : ∀ m < 10, 0 < m → [Nat.digitChar m].head? ≠ some '0' := by decide
      exact hall n hlt hn
    · rw [Nat.toDigits_of_base_le (by decide) hge]
      have htop := ih (n / 10) (by omega) (by omega)
      obtain ⟨d, ds, h, -⟩ := digits_eq_cons (n / 10)
      simpa [h] using htop

/-- The characters of a numeral: a sign in front of the negative ones, and the digits of the
absolute value. -/
theorem toList_decimal (n : Int) :
    (decimal n).toList = (if n < 0 then ['-'] else []) ++ Nat.toDigits 10 n.natAbs := by
  cases n with
  | ofNat n => simp [decimal]
  | negSucc n => simp [decimal, Int.negSucc_lt_zero]

/-! ### Quoted strings -/

/-- The value of a hexadecimal digit in lower case. -/
def hexDigit (c : Char) : Nat := if c.isDigit then c.toNat - '0'.toNat else c.toNat - 'a'.toNat + 10

/-- The value of hexadecimal digits. -/
def ofHexDigits (ds : List Char) : Nat := ds.foldl (fun n d => n * 16 + hexDigit d) 0

theorem hexDigit_digitChar {d : Nat} (hd : d < 16) :
    hexDigit (Nat.digitChar d) = d ∧ Nat.digitChar d ≠ '\x7d' := by
  have hall : ∀ d < 16, hexDigit (Nat.digitChar d) = d ∧ Nat.digitChar d ≠ '\x7d' := by decide
  exact hall d hd

/-- The hexadecimal digits of `n` have the value `n`, and none of them is a brace. -/
theorem ofHexDigits_toDigits (n : Nat) :
    ofHexDigits (Nat.toDigits 16 n) = n ∧ '\x7d' ∉ Nat.toDigits 16 n := by
  induction n using Nat.strongRecOn with
  | ind n ih =>
    rcases Nat.lt_or_ge n 16 with hlt | hge
    · obtain ⟨hvalue, hbrace⟩ := hexDigit_digitChar hlt
      rw [Nat.toDigits_of_lt_base hlt]
      simp [ofHexDigits, hvalue, hbrace.symm]
    · obtain ⟨hvalue, hbrace⟩ := hexDigit_digitChar (Nat.mod_lt n (by decide : 0 < 16))
      obtain ⟨hhigh, hnone⟩ := ih (n / 16) (by omega)
      rw [Nat.toDigits_of_base_le (by decide) hge]
      simp only [ofHexDigits, List.foldl_append, List.foldl_cons, List.foldl_nil] at hhigh ⊢
      rw [hhigh, hvalue]
      exact ⟨by omega, by simp [hnone, hbrace.symm]⟩

/-- The character with a short escape, by the letter after the backslash. -/
def unescape? : Char → Option Char
  | '0'  => some '\x00'
  | 't'  => some '\t'
  | 'n'  => some '\n'
  | 'r'  => some '\r'
  | '"'  => some '"'
  | '\\' => some '\\'
  | _    => none

/-- The next character between quotes, and the rest. -/
def quotedChar? : List Char → Option (Char × List Char)
  | '\\' :: 'u' :: '\x7b' :: cs =>
    some (Char.ofNat (ofHexDigits (cs.takeWhile (· != '\x7d'))),
      (cs.dropWhile (· != '\x7d')).drop 1)
  | '\\' :: letter :: cs => (unescape? letter).map fun c => (c, cs)
  | c :: cs => some (c, cs)
  | [] => none

/-- The characters up to the closing quote, and what follows it. -/
def unquote? : Nat → List Char → Option (List Char × List Char)
  | 0, _ => none
  | _ + 1, '"' :: cs => some ([], cs)
  | fuel + 1, cs => do
    let (c, cs) ← quotedChar? cs
    let (more, cs) ← unquote? fuel cs
    return (c :: more, cs)

theorem unescape?_shortEscape? {c letter : Char} (h : shortEscape? c = some letter) :
    unescape? letter = some c ∧ letter ≠ 'u' := by
  simp only [shortEscape?] at h
  split at h <;> cases h <;> exact ⟨rfl, by decide⟩

section Quoted

variable (hidden : Char → Bool)

/-- A character as it is written between quotes is the next character there. -/
theorem quotedChar?_escapeChar (c : Char) (rest : List Char) :
    quotedChar? (escapeChar hidden c ++ rest) = some (c, rest) := by
  simp only [escapeChar]
  split
  · next letter h =>
    obtain ⟨hletter, hu⟩ := unescape?_shortEscape? h
    simp only [List.cons_append, List.nil_append]
    rw [quotedChar?.eq_2 _ _ (by simp [hu])]
    simp [hletter]
  · next h =>
    have hback : c ≠ '\\' := by rintro rfl; simp [shortEscape?] at h
    split
    · obtain ⟨hvalue, hbrace⟩ := ofHexDigits_toDigits c.toNat
      have hstop : Stops (· != '\x7d') ('\x7d' :: rest) := stops_cons.mpr (by simp)
      have hdigits : ∀ d ∈ Nat.toDigits 16 c.toNat, (d != '\x7d') = true := by
        intro d hd
        simp only [bne_iff_ne]
        rintro rfl
        exact hbrace hd
      have htake := hstop.takeWhile_append hdigits
      have hdrop := hstop.dropWhile_append hdigits
      simp [quotedChar?, htake, hdrop, hvalue]
    · simp only [List.cons_append, List.nil_append]
      rw [quotedChar?.eq_3 _ _ (by simp [hback]) (by simp [hback])]

/-- Nothing that is written for a character looks like the closing quote. -/
theorem escapeChar_append_ne_quote (c : Char) (rest cs : List Char) :
    escapeChar hidden c ++ rest ≠ '"' :: cs := by
  simp only [escapeChar]
  split
  · simp
  · next h =>
    split
    · simp
    · intro heq
      obtain ⟨rfl, -⟩ := List.cons.inj heq
      simp [shortEscape?] at h

/-- One unit of fuel for every character, and one for the closing quote. -/
theorem unquote?_flatMap (cs rest : List Char) {fuel : Nat} (hfuel : cs.length < fuel) :
    unquote? fuel (cs.flatMap (escapeChar hidden) ++ '"' :: rest) = some (cs, rest) := by
  induction cs generalizing fuel with
  | nil =>
    obtain ⟨fuel, rfl⟩ := Nat.exists_eq_add_one_of_ne_zero (Nat.ne_zero_of_lt hfuel)
    simp [unquote?]
  | cons c cs ih =>
    obtain ⟨fuel, rfl⟩ := Nat.exists_eq_add_one_of_ne_zero (Nat.ne_zero_of_lt hfuel)
    have hcs : cs.length < fuel := by simpa using hfuel
    rw [List.flatMap_cons, List.append_assoc,
      unquote?.eq_3 _ _ (escapeChar_append_ne_quote hidden c _), quotedChar?_escapeChar]
    simp [ih hcs]

theorem toList_quoteWith (s : String) :
    (quoteWith hidden s).toList = '"' :: (s.toList.flatMap (escapeChar hidden) ++ ['"']) := by
  simp [quoteWith]

end Quoted

end EagerLambda.Text
