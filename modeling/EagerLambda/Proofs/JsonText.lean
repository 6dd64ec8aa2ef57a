import EagerLambda.Json.Reader
import EagerLambda.Json.Text
import EagerLambda.Proofs.Lexemes

/-!
# JSON — the text of a document spells it

`Json.read?_render`: reading the compact text of a document gives the document back, if its numbers
are integers of at most 64 binary digits.

The readers are given fuel.  Every statement about one of them asks for more fuel than the text has
characters in front of the rest, which is what a whole text is read with.
-/

namespace EagerLambda.Json

open EagerLambda.Text

/-! ### Strings -/

theorem unescape?_shortEscape? {c letter : Char} (h : shortEscape? c = some letter) :
    unescape? letter = some c ∧ letter ≠ 'u' := by
  simp only [shortEscape?] at h
  split at h <;> cases h <;> exact ⟨rfl, by decide⟩

theorem hexValue?_digitChar {d : Nat} (hd : d < 16) : hexValue? (Nat.digitChar d) = some d := by
  have hall : ∀ d < 16, hexValue? (Nat.digitChar d) = some d := by decide
  exact hall d hd

/-- A character as it is written inside quotes is the next character there. -/
theorem stringChar?_escapeChar (c : Char) (rest : List Char) :
    stringChar? (escapeChar c rest) = some (c, rest) := by
  simp only [escapeChar]
  split
  · next letter h =>
    obtain ⟨hletter, hu⟩ := unescape?_shortEscape? h
    rw [stringChar?.eq_2 _ _ (by simpa using hu)]
    simp [hletter]
  · next h =>
    split
    · next hc =>
      have hhigh : hexValue? (Nat.digitChar (c.toNat / 16)) = some (c.toNat / 16) :=
        hexValue?_digitChar (by omega)
      have hlow : hexValue? (Nat.digitChar (c.toNat % 16)) = some (c.toNat % 16) :=
        hexValue?_digitChar (by omega)
      have hzero : hexValue? '0' = some 0 := rfl
      have hsum : c.toNat / 16 * 16 + c.toNat % 16 = c.toNat := by omega
      have hplane : c.toNat < 0xd800 := by omega
      simp [stringChar?, codePoint?, hexUnit?, hhigh, hlow, hzero, hsum, hplane]
    · next hc =>
      have hquote : c ≠ '"' := by rintro rfl; simp [shortEscape?] at h
      have hback : c ≠ '\\' := by rintro rfl; simp [shortEscape?] at h
      rw [stringChar?.eq_3 _ _ (by simp [hback]) (by simp [hback])]
      simp [hquote, hback, hc]

/-- Nothing that is written for a character looks like the closing quote. -/
theorem escapeChar_ne_quote (c : Char) (rest cs : List Char) : escapeChar c rest ≠ '"' :: cs := by
  simp only [escapeChar]
  split
  · simp
  · next h =>
    split
    · simp
    · rintro heq
      obtain ⟨rfl, -⟩ := List.cons.inj heq
      simp [shortEscape?] at h

theorem length_lt_escapeChar (c : Char) (rest : List Char) :
    rest.length < (escapeChar c rest).length := by
  simp only [escapeChar]
  split
  · simp +arith
  · split <;> simp +arith

theorem length_le_foldr_escapeChar (cs rest : List Char) :
    cs.length + rest.length ≤ (cs.foldr escapeChar rest).length := by
  induction cs with
  | nil => simp
  | cons c cs ih =>
    have := length_lt_escapeChar c (cs.foldr escapeChar rest)
    simp only [List.foldr_cons, List.length_cons]
    omega

theorem length_lt_stringText (s : String) (rest : List Char) :
    s.toList.length + rest.length + 1 < (stringText s rest).length := by
  have := length_le_foldr_escapeChar s.toList ('"' :: rest)
  simp only [stringText, List.length_cons] at this ⊢
  omega

/-- One unit of fuel for every character, and one for the quote. -/
theorem stringRest?_foldr (cs rest done : List Char) {fuel : Nat} (hfuel : cs.length < fuel) :
    stringRest? fuel done (cs.foldr escapeChar ('"' :: rest)) =
      some (String.ofList (done.reverse ++ cs), rest) := by
  induction cs generalizing done fuel with
  | nil =>
    obtain ⟨fuel, rfl⟩ := Nat.exists_eq_add_one_of_ne_zero (Nat.ne_of_gt hfuel)
    simp [stringRest?]
  | cons c cs ih =>
    obtain ⟨fuel, rfl⟩ := Nat.exists_eq_add_one_of_ne_zero (Nat.ne_zero_of_lt hfuel)
    rw [List.foldr_cons, stringRest?.eq_3 _ _ _ (escapeChar_ne_quote c _),
      stringChar?_escapeChar]
    have hcs : cs.length < fuel := by simpa using hfuel
    simp [ih (c :: done) hcs]

theorem stringRest?_string (s : String) (rest : List Char) {fuel : Nat}
    (hfuel : (stringText s rest).length < fuel + 2 + rest.length) :
    stringRest? fuel [] (s.toList.foldr escapeChar ('"' :: rest)) = some (s, rest) := by
  have hlength := length_lt_stringText s rest
  rw [stringRest?_foldr s.toList rest [] (by omega)]
  simp

/-! ### Numbers -/

namespace Number

/-- An integer that has at most 64 binary digits. -/
def Fits : Number → Prop
  | .integer n => n.natAbs < Nat.pow 2 64
  | .decimal _ _ _ => False

/-- The text does not go on with anything that could belong to a number. -/
def Ends (rest : List Char) : Prop :=
  Stops Char.isDigit rest ∧ Stops (· ∈ ['.', 'e', 'E']) rest

theorem Ends.nil : Ends [] := ⟨.nil, .nil⟩

theorem ends_cons {c : Char} {rest : List Char} (hdigit : c.isDigit = false)
    (hmark : c ∉ ['.', 'e', 'E']) : Ends (c :: rest) :=
  ⟨stops_cons.mpr hdigit, stops_cons.mpr (by simpa using hmark)⟩

theorem le_ofDigitChars (ds : List Char) (w : Nat) : w ≤ Nat.ofDigitChars 10 ds w := by
  induction ds generalizing w with
  | nil => simp
  | cons d ds ih =>
    rw [Nat.ofDigitChars_cons]
    have := ih (10 * w + (d.toNat - '0'.toNat))
    omega

/-- Digits whose value fits into a word are all leading. -/
theorem leading_of_lt {w : Nat} {ds : List Char} (h : Nat.ofDigitChars 10 ds w < Nat.pow 2 64) :
    leading w ds = (Nat.ofDigitChars 10 ds w, []) := by
  induction ds generalizing w with
  | nil => simp [leading]
  | cons d ds ih =>
    rw [Nat.ofDigitChars_cons] at h ⊢
    have hnext : 10 * w + (d.toNat - '0'.toNat) < Nat.pow 2 64 :=
      Nat.lt_of_le_of_lt (le_ofDigitChars ds _) h
    simp only [leading, if_pos hnext]
    exact ih h

theorem isFiniteScaled_zero {w : Nat} (hw : w < Nat.pow 2 64) : isFiniteScaled w 0 = true := by
  have hround : round53 w ≤ 2 * Nat.pow 2 64 :=
    Nat.le_trans (round53_le w) (Nat.mul_le_mul_left 2 (Nat.le_of_lt hw))
  have hlarge : 2 * Nat.pow 2 64 < infinite := by decide +kernel
  have hone : round53 (Nat.pow 10 0) = 1 := by decide
  have hbelow : round53 w < infinite := Nat.lt_of_le_of_lt hround hlarge
  simp only [isFiniteScaled, Bool.or_eq_true, Bool.and_eq_true, decide_eq_true_eq]
  refine .inr ⟨by decide, ?_⟩
  rwa [Int.toNat_zero, hone, Nat.mul_one]

theorem isFinite_digits {n : Nat} (hn : n < Nat.pow 2 64) :
    isFinite (Nat.toDigits 10 n) [] 0 = true := by
  have hvalue : Nat.ofDigitChars 10 (Nat.toDigits 10 n) 0 = n := Nat.ofDigitChars_ten_toDigits
  have hleading : leading 0 (Nat.toDigits 10 n) = (n, []) := by
    rw [leading_of_lt (by rwa [hvalue]), hvalue]
  simp [isFinite, hleading, leading, isFiniteScaled_zero hn]

/-- The digits of a number, and what follows them, after the sign. -/
theorem digits?_append (n : Nat) {rest : List Char} (hrest : Stops Char.isDigit rest) :
    digits? (Nat.toDigits 10 n ++ rest) = some (Nat.toDigits 10 n, rest) := by
  have hdigits : ∀ c ∈ Nat.toDigits 10 n, c.isDigit = true := fun _ => isDigit_of_mem_digits
  rw [digits?, hrest.takeWhile_append hdigits, hrest.dropWhile_append hdigits]
  obtain ⟨d, ds, h, -⟩ := digits_eq_cons n
  rw [h]

theorem fraction?_of_ends {rest : List Char} (hrest : Ends rest) :
    fraction? rest = some (none, rest) := by
  rw [fraction?.eq_def]
  split
  · have := stops_cons.mp hrest.2
    simp at this
  · rfl

theorem exponent?_of_ends {rest : List Char} (hrest : Ends rest) :
    exponent? rest = some (none, rest) := by
  rw [exponent?.eq_def]
  split
  · have := stops_cons.mp hrest.2
    simp at this
  · have := stops_cons.mp hrest.2
    simp at this
  · rfl

theorem sign_digits (n : Nat) (rest : List Char) :
    sign (Nat.toDigits 10 n ++ rest) = (false, Nat.toDigits 10 n ++ rest) := by
  obtain ⟨d, ds, h, hd⟩ := digits_eq_cons n
  rw [h, List.cons_append, sign.eq_2]
  rintro cs heq
  obtain ⟨rfl, -⟩ := List.cons.inj heq
  simp at hd

theorem no_leading_zero (n : Nat) :
    ¬((Nat.toDigits 10 n).head? = some '0' ∧ (Nat.toDigits 10 n).length ≠ 1) := by
  rintro ⟨hhead, hlength⟩
  rcases Nat.eq_zero_or_pos n with rfl | hn
  · exact hlength rfl
  · exact head?_digits_ne_zero hn hhead

theorem assemble?_integer {n : Int} (hn : n.natAbs < Nat.pow 2 64) :
    assemble? (decide (n < 0)) (Nat.toDigits 10 n.natAbs) none none = some (.integer n) := by
  have hdigits : Nat.ofDigitChars 10 (Nat.toDigits 10 n.natAbs) 0 = n.natAbs :=
    Nat.ofDigitChars_ten_toDigits
  have hvalue : (if n < 0 then -(n.natAbs : Int) else n.natAbs) = n := by omega
  -- a minus sign stands only in front of a number that is not zero
  have hzero : (decide (n < 0) && n.natAbs == 0) = false := by
    rw [Bool.and_eq_false_iff, decide_eq_false_iff_not, beq_eq_false_iff_ne]
    omega
  simp only [assemble?, Option.getD_none, List.append_nil, hdigits, isFinite_digits hn, hzero,
    Option.isSome_none, Bool.not_true, Bool.or_self, decide_eq_true_eq, hvalue]
  rfl

theorem read?_text {n : Number} (hn : n.Fits) {rest : List Char} (hrest : Ends rest) :
    read? (n.text rest) = some (n, rest) := by
  cases n with
  | decimal => exact hn.elim
  | integer n =>
    have hsign : sign ((Text.decimal n).toList ++ rest) =
        (decide (n < 0), Nat.toDigits 10 n.natAbs ++ rest) := by
      rw [toList_decimal]
      by_cases h : n < 0
      · simp [h, sign]
      · simp [h, sign_digits]
    simp [text, read?, hsign, digits?_append n.natAbs hrest.1, no_leading_zero n.natAbs,
      fraction?_of_ends hrest, exponent?_of_ends hrest, assemble?_integer hn]

end Number

/-! ### Documents -/

mutual

/-- Every number of the document fits. -/
def Fits : Json → Prop
  | .num n       => n.Fits
  | .arr items   => ItemsFit items
  | .obj members => MembersFit members
  | .null | .bool _ | .str _ => True

def ItemsFit : List Json → Prop
  | []            => True
  | item :: items => item.Fits ∧ ItemsFit items

def MembersFit : List (String × Json) → Prop
  | []                    => True
  | (_, value) :: members => value.Fits ∧ MembersFit members

end

theorem skipBlanks_cons {c : Char} {cs : List Char} (hc : isBlank c = false) :
    skipBlanks (c :: cs) = c :: cs := by
  simp [skipBlanks, hc]

/-- The first character of a number. -/
theorem Number.text_eq_cons (n : Number) (rest : List Char) :
    ∃ c cs, n.text rest = c :: cs ∧ (c.isDigit = true ∨ c = '-') ∧ rest.length ≤ cs.length := by
  cases n with
  | integer n =>
    obtain ⟨d, ds, h, hd⟩ := digits_eq_cons n.natAbs
    rw [Number.text, toList_decimal, h]
    by_cases hn : n < 0
    · exact ⟨'-', d :: ds ++ rest, by simp [hn], .inr rfl, by simp +arith⟩
    · exact ⟨d, ds ++ rest, by simp [hn], .inl hd, by simp⟩
  | decimal negative digits exponent =>
    obtain ⟨d, ds, h, hd⟩ := digits_eq_cons digits
    rw [Number.text, h]
    cases negative with
    | true => exact ⟨'-', _, rfl, .inr rfl, by simp +arith⟩
    | false => exact ⟨d, _, rfl, .inl hd, by simp +arith⟩

theorem isBlank_numeral {c : Char} (hc : c.isDigit = true ∨ c = '-') :
    isBlank c = false ∧ c ≠ ']' := by
  rcases hc with hc | rfl
  · refine ⟨?_, by rintro rfl; simp at hc⟩
    simp only [isBlank, Bool.or_eq_false_iff, beq_eq_false_iff_ne]
    refine ⟨⟨⟨?_, ?_⟩, ?_⟩, ?_⟩ <;> (rintro rfl; simp at hc)
  · decide

/-- A document starts with no blank and no closing bracket, so an array that has an item cannot be
taken for the empty one. -/
theorem text_eq_cons (j : Json) (rest : List Char) :
    ∃ c cs, j.text rest = c :: cs ∧ isBlank c = false ∧ c ≠ ']' := by
  cases j with
  | null => exact ⟨_, _, rfl, by decide⟩
  | bool b => cases b <;> exact ⟨_, _, rfl, by decide⟩
  | num n =>
    obtain ⟨c, cs, h, hc, -⟩ := n.text_eq_cons rest
    exact ⟨c, cs, h, isBlank_numeral hc⟩
  | str s => exact ⟨_, _, rfl, by decide⟩
  | arr items => exact ⟨_, _, by rw [text], by decide⟩
  | obj members => exact ⟨_, _, by rw [text], by decide⟩

mutual

theorem length_lt_text (j : Json) (rest : List Char) : rest.length < (j.text rest).length := by
  match j with
  | .null => simp +arith [text]
  | .bool true => simp +arith [text]
  | .bool false => simp +arith [text]
  | .num n =>
    obtain ⟨c, cs, h, -, hlength⟩ := n.text_eq_cons rest
    simp only [text, h, List.length_cons]
    omega
  | .str s =>
    have := length_lt_stringText s rest
    simp only [text]
    omega
  | .arr items =>
    have := length_lt_itemsText items rest
    simp only [text, List.length_cons]
    omega
  | .obj members =>
    have := length_lt_membersText members rest
    simp only [text, List.length_cons]
    omega

theorem length_lt_itemsText (items : List Json) (rest : List Char) :
    rest.length < (itemsText items rest).length := by
  match items with
  | [] => simp [itemsText]
  | [item] =>
    have := length_lt_text item (']' :: rest)
    simp only [itemsText, List.length_cons] at this ⊢
    omega
  | item :: next :: items =>
    have := length_lt_text item (',' :: itemsText (next :: items) rest)
    have := length_lt_itemsText (next :: items) rest
    simp only [itemsText, List.length_cons] at *
    omega

theorem length_lt_membersText (members : List (String × Json)) (rest : List Char) :
    rest.length < (membersText members rest).length := by
  match members with
  | [] => simp [membersText]
  | [(key, value)] =>
    have := length_lt_text value ('\x7d' :: rest)
    have := length_lt_stringText key (':' :: value.text ('\x7d' :: rest))
    simp only [membersText, List.length_cons] at *
    omega
  | (key, value) :: next :: members =>
    have := length_lt_text value (',' :: membersText (next :: members) rest)
    have := length_lt_stringText key (':' :: value.text (',' :: membersText (next :: members) rest))
    have := length_lt_membersText (next :: members) rest
    simp only [membersText, List.length_cons] at *
    omega

end

/-- What starts with a digit or a sign is read as a number. -/
theorem value?_number {c : Char} {cs : List Char} (hc : c.isDigit = true ∨ c = '-') (fuel : Nat) :
    value? (fuel + 1) (c :: cs) =
      (Number.read? (c :: cs)).map fun (n, rest) => (.num n, rest) := by
  have hne {d : Char} (hdigit : d.isDigit = false) (hminus : d ≠ '-') : c ≠ d := by
    rintro rfl
    rcases hc with hc | rfl
    · rw [hdigit] at hc
      cases hc
    · exact hminus rfl
  have hn : c ≠ 'n' := hne (by decide) (by decide)
  have ht : c ≠ 't' := hne (by decide) (by decide)
  have hf : c ≠ 'f' := hne (by decide) (by decide)
  have hquote : c ≠ '"' := hne (by decide) (by decide)
  have harr : c ≠ '[' := hne (by decide) (by decide)
  have hobj : c ≠ '\x7b' := hne (by decide) (by decide)
  rw [value?, skipBlanks_cons (isBlank_numeral hc).1]
  split <;> simp_all

/-- What stands behind a value inside another one does not belong to a number. -/
theorem ends_punctuation {c : Char} (hc : c ∈ [',', ']', '\x7d']) (rest : List Char) :
    Number.Ends (c :: rest) := by
  simp only [List.mem_cons, List.not_mem_nil, or_false] at hc
  rcases hc with rfl | rfl | rfl <;> exact Number.ends_cons (by decide) (by decide)

-- The three readers, on what the three writers put in front of a text.  The induction is on the
-- fuel; each reader has used up a character by the time it calls another, so what fuel it has left
-- still exceeds what is left to read.
mutual

theorem value?_text (j : Json) (hj : j.Fits) {rest : List Char} (hrest : Number.Ends rest)
    {fuel : Nat} (hfuel : (j.text rest).length < fuel + rest.length) :
    value? fuel (j.text rest) = some (j, rest) := by
  have hlength := length_lt_text j rest
  obtain ⟨n, hn⟩ : ∃ n, fuel = n + 1 := Nat.exists_eq_add_one_of_ne_zero (by omega)
  rw [hn] at hfuel ⊢
  match j with
  | .null => simp [text, value?, skipBlanks, isBlank]
  | .bool true => simp [text, value?, skipBlanks, isBlank]
  | .bool false => simp [text, value?, skipBlanks, isBlank]
  | .num number =>
    obtain ⟨c, cs, h, hc, -⟩ := number.text_eq_cons rest
    have hnumber : number.Fits := by simpa only [Fits] using hj
    rw [text, h, value?_number hc, ← h, Number.read?_text hnumber hrest]
    rfl
  | .str s =>
    simp only [text] at hfuel
    have hread : stringRest? n [] (s.toList.foldr escapeChar ('"' :: rest)) = some (s, rest) :=
      stringRest?_string s rest (by omega)
    simp [text, stringText, value?, skipBlanks, isBlank, hread]
  | .arr [] => simp [text, itemsText, value?, skipBlanks, isBlank]
  | .arr (item :: items) =>
    simp only [Fits] at hj
    simp only [text, List.length_cons] at hfuel
    have hread : items? n (itemsText (item :: items) rest) = some (item :: items, rest) :=
      items?_text item items hj (by omega)
    obtain ⟨c, cs, h, hblank, hclose⟩ : ∃ c cs, itemsText (item :: items) rest = c :: cs ∧
        isBlank c = false ∧ c ≠ ']' := by
      cases items with
      | nil => exact text_eq_cons item _
      | cons next items => exact text_eq_cons item _
    rw [text, value?, skipBlanks_cons (by decide)]
    simp only [h, skipBlanks_cons hblank] at hread ⊢
    split <;> simp_all
  | .obj [] => simp [text, membersText, value?, skipBlanks, isBlank]
  | .obj ((key, value) :: members) =>
    simp only [Fits] at hj
    simp only [text, List.length_cons] at hfuel
    have hread : members? n (membersText ((key, value) :: members) rest) =
        some ((key, value) :: members, rest) :=
      members?_text key value members hj (by omega)
    obtain ⟨cs, h⟩ : ∃ cs, membersText ((key, value) :: members) rest = '"' :: cs := by
      cases members with
      | nil => exact ⟨_, by rw [membersText, stringText]⟩
      | cons next members => exact ⟨_, by rw [membersText, stringText]; simp⟩
    rw [text, value?, skipBlanks_cons (by decide)]
    simp only [h, skipBlanks_cons (c := '"') (by decide)] at hread ⊢
    simp [hread]
termination_by fuel
decreasing_by all_goals omega

theorem items?_text (item : Json) (items : List Json) (hitems : ItemsFit (item :: items))
    {rest : List Char} {fuel : Nat}
    (hfuel : (itemsText (item :: items) rest).length < fuel + rest.length) :
    items? fuel (itemsText (item :: items) rest) = some (item :: items, rest) := by
  have hlength := length_lt_itemsText (item :: items) rest
  obtain ⟨n, hn⟩ : ∃ n, fuel = n + 1 := Nat.exists_eq_add_one_of_ne_zero (by omega)
  rw [hn] at hfuel ⊢
  simp only [ItemsFit] at hitems
  obtain ⟨hitem, hitems⟩ := hitems
  match items with
  | [] =>
    simp only [itemsText] at hfuel ⊢
    have hread : value? n (item.text (']' :: rest)) = some (item, ']' :: rest) :=
      value?_text item hitem (ends_punctuation (by simp) rest)
        (by simp only [List.length_cons]; omega)
    simp [items?, hread, skipBlanks, isBlank]
  | next :: items =>
    simp only [itemsText] at hfuel ⊢
    have hrest := length_lt_itemsText (next :: items) rest
    have htext := length_lt_text item (',' :: itemsText (next :: items) rest)
    simp only [List.length_cons] at htext
    have hread : value? n (item.text (',' :: itemsText (next :: items) rest)) =
        some (item, ',' :: itemsText (next :: items) rest) :=
      value?_text item hitem (ends_punctuation (by simp) _) (by simp only [List.length_cons]; omega)
    have hmore : items? n (itemsText (next :: items) rest) = some (next :: items, rest) :=
      items?_text next items hitems (by omega)
    simp [items?, hread, hmore, skipBlanks, isBlank]
termination_by fuel
decreasing_by all_goals omega

theorem members?_text (key : String) (value : Json) (members : List (String × Json))
    (hmembers : MembersFit ((key, value) :: members)) {rest : List Char} {fuel : Nat}
    (hfuel : (membersText ((key, value) :: members) rest).length < fuel + rest.length) :
    members? fuel (membersText ((key, value) :: members) rest) =
      some ((key, value) :: members, rest) := by
  have hlength := length_lt_membersText ((key, value) :: members) rest
  obtain ⟨n, hn⟩ : ∃ n, fuel = n + 1 := Nat.exists_eq_add_one_of_ne_zero (by omega)
  rw [hn] at hfuel ⊢
  simp only [MembersFit] at hmembers
  obtain ⟨hvalue, hmembers⟩ := hmembers
  -- the key and the value, whether or not another member follows
  have hfront (after : List Char) (hafter : Number.Ends after)
      (h : (stringText key (':' :: value.text after)).length < n + 1 + after.length) :
      stringRest? n [] (key.toList.foldr escapeChar ('"' :: ':' :: value.text after)) =
          some (key, ':' :: value.text after) ∧
        value? n (value.text after) = some (value, after) := by
    have hkey := length_lt_stringText key (':' :: value.text after)
    have htext := length_lt_text value after
    simp only [List.length_cons] at hkey
    exact ⟨stringRest?_string key _ (by simp only [List.length_cons]; omega),
      value?_text value hvalue hafter (by omega)⟩
  match members with
  | [] =>
    simp only [membersText] at hfuel ⊢
    obtain ⟨hkey, hread⟩ := hfront ('\x7d' :: rest) (ends_punctuation (by simp) rest)
      (by simp only [List.length_cons]; omega)
    simp [stringText, members?, hkey, hread, skipBlanks, isBlank]
  | (next, nextValue) :: members =>
    simp only [membersText] at hfuel ⊢
    have hrest := length_lt_membersText ((next, nextValue) :: members) rest
    have hkeyText := length_lt_stringText key
      (':' :: value.text (',' :: membersText ((next, nextValue) :: members) rest))
    have htext := length_lt_text value (',' :: membersText ((next, nextValue) :: members) rest)
    simp only [List.length_cons] at hkeyText htext
    obtain ⟨hkey, hread⟩ := hfront (',' :: membersText ((next, nextValue) :: members) rest)
      (ends_punctuation (by simp) _) (by simp only [List.length_cons]; omega)
    have hmore : members? n (membersText ((next, nextValue) :: members) rest) =
        some ((next, nextValue) :: members, rest) :=
      members?_text next nextValue members hmembers (by omega)
    simp [stringText, members?, hkey, hread, hmore, skipBlanks, isBlank]
termination_by fuel
decreasing_by all_goals omega

end

/-- Reading the text of a document gives the document back. -/
theorem read?_render {j : Json} (hj : j.Fits) : read? j.render = some j := by
  have hread : value? ((j.text []).length + 1) (j.text []) = some (j, []) :=
    value?_text j hj .nil (by simp)
  simp [read?, render, hread, skipBlanks]

end EagerLambda.Json
