import OpticScript.Proofs.Text.Endings

/-!
# Reading the text of numbers

The text of an integer that is not negative is a numeral and has its value
(`numeralSize_digits`, `numeralValue_toDigits`), if what comes after it does not go on with it.
The text of a binary64 number is `inf`, or digits with a point between them, unless it is not
read back at all (`Decimal.RoundTrips.cases`). That a number is read back from its text is a
property of the arithmetic of the machine, which no definition gives; it is stated of one number
(`Decimal.RoundTrips`).
-/

namespace OpticScript

/-- What the arithmetic of the machine owes to a number that was read from a numeral : it is not
negative, since no numeral has a sign, and its text is read as it. -/
structure Decimal.RoundTrips (x : Float) : Prop where
  nonneg : x.toBits.toNat < Nat.pow 2 63
  reads : Lexeme.numeralValue? (Decimal.render x).toList = some (.float x)

/-- A number that its text is read as. -/
def Number.IsReadable : Number → Prop
  | integer value => 0 ≤ value ∧ value < integerLimit
  | float value => Decimal.RoundTrips value

namespace Lexeme

/-- The text does not go on with a numeral. -/
def EndsNumeral (rest : List Char) : Prop :=
  ∀ c ∈ rest.head?, c.isDigit = false ∧ c ≠ '.' ∧ c ≠ 'e' ∧ c ≠ 'E'

/-- The text does not go on with a word. -/
def EndsWord (rest : List Char) : Prop := ∀ c ∈ rest.head?, isWordChar c = false

section

variable {rest text whole fraction : List Char} {c : Char}

theorem EndsWord.endsNumeral (h : EndsWord rest) : EndsNumeral rest := fun c hc => by
  have hword := h c hc
  refine ⟨Bool.eq_false_iff.2 fun hdigit => ?_, ?_, ?_, ?_⟩
  · simp [isWordChar, Char.isAlphanum, hdigit] at hword
  all_goals (rintro rfl; simp [isWordChar] at hword)

theorem endsWord_cons (hc : isWordChar c = false) (rest : List Char) : EndsWord (c :: rest) :=
  fun _ hd => Option.some.inj hd ▸ hc

/-- What comes after a run of characters is not a part of it. -/
theorem takeWhile_append_of_head {p : Char → Bool} (htext : ∀ c ∈ text, p c = true)
    (hrest : ∀ c ∈ rest.head?, p c = false) : (text ++ rest).takeWhile p = text :=
  (takeWhile_append_of_head_not hrest text).trans (List.takeWhile_eq_self_iff.2 htext)

theorem digitCount_digits (htext : ∀ c ∈ text, c.isDigit = true) (hrest : EndsNumeral rest) :
    digitCount (text ++ rest) = text.length := by
  rw [digitCount, takeWhile_append_of_head htext fun c hc => (hrest c hc).1]

theorem exponentSize_of_endsNumeral (h : EndsNumeral rest) : exponentSize? rest = none := by
  rcases rest with _ | ⟨c, rest⟩
  · rfl
  · obtain ⟨-, -, he, hE⟩ := h c rfl
    simp [exponentSize?, he, hE]

theorem startsInfinite_of_digit (hc : c.isDigit = true) (rest : List Char) :
    startsInfinite (c :: rest) = false := by
  unfold startsInfinite
  split
  · rename_i heq
    obtain rfl : c = 'i' := (List.cons.inj heq).1
    simp at hc
  · rfl

/-- A run of digits is one numeral up to its end, unless a zero comes first : then the zeros are. -/
theorem numeralSize_run (hne : text ≠ []) (htext : ∀ c ∈ text, c.isDigit = true)
    (hrest : EndsNumeral rest) : numeralSize? (text ++ rest) =
      some (if text.head? = some '0' then (text.takeWhile (· = '0')).length else text.length) := by
  obtain ⟨c, digits, rfl⟩ := List.exists_cons_of_ne_nil hne
  have hcount := digitCount_digits htext hrest
  have hpoint : rest.head? ≠ some '.' := fun h => (hrest '.' h).2.1 rfl
  have hinfinite : startsInfinite (c :: digits ++ rest) = false :=
    startsInfinite_of_digit (htext c List.mem_cons_self) _
  have hstop : ∀ d ∈ rest.head?, decide (d = '0') = false := fun d hd => by
    rw [decide_eq_false_iff_not]
    rintro rfl
    exact absurd (hrest '0' hd).1 (by decide)
  unfold numeralSize?
  rw [hinfinite, if_neg Bool.false_ne_true, hcount, if_pos (by simp),
    List.drop_left, numeralSizeAfter_of_head hpoint, exponentSize_of_endsNumeral hrest]
  refine congrArg some ?_
  dsimp only [Option.elim]
  rw [takeWhile_append_of_head_not hstop]
  rfl

/-- Digits are a numeral, if a zero comes first only where all of them are zeros. -/
theorem numeralSize_digits (hne : text ≠ []) (htext : ∀ c ∈ text, c.isDigit = true)
    (hzero : text.head? = some '0' → ∀ c ∈ text, c = '0') (hrest : EndsNumeral rest) :
    numeralSize? (text ++ rest) = some text.length := by
  rw [numeralSize_run hne htext hrest]
  refine congrArg some ?_
  split
  · rename_i hhead
    have hzeros : text.takeWhile (· = '0') = text :=
      List.takeWhile_eq_self_iff.2 fun d hd => decide_eq_true (hzero hhead d hd)
    rw [hzeros]
  · rfl

/-- Digits with a point between them are a numeral. -/
theorem numeralSize_point (hne : whole ≠ []) (hwhole : ∀ c ∈ whole, c.isDigit = true)
    (hfraction : ∀ c ∈ fraction, c.isDigit = true) (hrest : EndsNumeral rest) :
    numeralSize? (whole ++ '.' :: fraction ++ rest) = some (whole ++ '.' :: fraction).length := by
  obtain ⟨c, digits, rfl⟩ := List.exists_cons_of_ne_nil hne
  have hdot : ∀ c ∈ ('.' :: fraction ++ rest).head?, c.isDigit = false := by simp
  have hcount : digitCount (c :: digits ++ '.' :: fraction ++ rest) = (c :: digits).length := by
    rw [List.append_assoc, digitCount, takeWhile_append_of_head hwhole hdot]
  have hinfinite : startsInfinite (c :: digits ++ '.' :: fraction ++ rest) = false :=
    startsInfinite_of_digit (hwhole c List.mem_cons_self) _
  have hsize : fractionSize (fraction ++ rest) = fraction.length := by
    rw [fractionSize, digitCount_digits hfraction hrest, List.drop_left, exponentSize,
      exponentSize_of_endsNumeral hrest]
    rfl
  unfold numeralSize?
  rw [hinfinite, if_neg Bool.false_ne_true, hcount, if_pos (by simp), List.append_assoc,
    List.drop_left]
  change some (_ + 1 + fractionSize (fraction ++ rest)) = _
  rw [hsize, List.length_append, List.length_cons (a := '.')]
  exact congrArg some (by omega)

theorem numeralSize_infinite (hrest : EndsWord rest) :
    numeralSize? (['i', 'n', 'f'] ++ rest) = some 3 := by
  have hinfinite : startsInfinite (['i', 'n', 'f'] ++ rest) = true := by
    rcases rest with _ | ⟨c, rest⟩
    · rfl
    · simp [startsInfinite, hrest c rfl]
  unfold numeralSize?
  rw [if_pos hinfinite]

end

/-! ## Integers -/

theorem isDigit_of_mem_toDigits {n : Nat} {c : Char} (h : c ∈ Nat.toDigits 10 n) :
    c.isDigit = true :=
  Nat.isDigit_of_mem_toDigits (by decide) (by decide) h

/-- Only zero is written with a zero in front. -/
theorem toDigits_of_head_zero {n : Nat} (h : (Nat.toDigits 10 n).head? = some '0') :
    Nat.toDigits 10 n = ['0'] := by
  induction n using Nat.strongRecOn with
  | ind n ih =>
    rw [Nat.toDigits_eq_if (by decide)] at h ⊢
    split at h
    · rename_i hlt
      rw [if_pos hlt]
      simpa using h
    · rename_i hge
      have hhead : (Nat.toDigits 10 (n / 10)).head? = some '0' := by
        rwa [List.head?_append_of_ne_nil _ Nat.toDigits_ne_nil] at h
      have hzero : Nat.toDigits 10 (n / 10) = Nat.toDigits 10 0 :=
        ih (n / 10) (Nat.div_lt_self (by omega) (by decide)) hhead
      have hdiv : n / 10 = 0 := by
        rw [← Nat.ofDigitChars_toDigits (b := 10) (by decide) (by decide) (n := n / 10), hzero]
        rfl
      omega

/-- A run of digits has neither a point nor an exponent. -/
theorem numeralValue_digits {text : List Char} (htext : ∀ c ∈ text, c.isDigit = true) :
    numeralValue? text = if Decimal.ofDigits text < Number.integerLimit then
      some (.integer (Decimal.ofDigits text)) else none := by
  have hpoint : text.any (fun c => c = '.' || c = 'e' || c = 'E') = false := by
    rw [List.any_eq_false]
    intro c hc
    have hdigit := htext c hc
    simp only [Bool.or_eq_true, decide_eq_true_eq, not_or]
    refine ⟨⟨?_, ?_⟩, ?_⟩ <;> (rintro rfl; simp at hdigit)
  have hinfinite : startsInfinite text = false := by
    rcases text with _ | ⟨c, text⟩
    · rfl
    · exact startsInfinite_of_digit (htext c List.mem_cons_self) text
  rw [numeralValue?, hinfinite, if_neg Bool.false_ne_true, hpoint, if_neg Bool.false_ne_true]

theorem numeralValue_toDigits {n : Nat} (h : n < Number.integerLimit) :
    numeralValue? (Nat.toDigits 10 n) = some (.integer n) := by
  have hvalue : Decimal.ofDigits (Nat.toDigits 10 n) = n :=
    Nat.ofDigitChars_toDigits (by decide) (by decide)
  rw [numeralValue_digits fun c => isDigit_of_mem_toDigits, hvalue, if_pos h]

end Lexeme

/-! ## Binary64 numbers -/

namespace Decimal

open Lexeme

/-- Digits with a point between them. -/
def IsPointed (text : List Char) : Prop :=
  ∃ whole fraction, text = whole ++ '.' :: fraction ∧ whole ≠ [] ∧
    (∀ c ∈ whole, c.isDigit = true) ∧ ∀ c ∈ fraction, c.isDigit = true

/-- Positional notation is a run of digits, with a point in it or not. -/
theorem Scaled.positional_cases (d : Scaled) :
    (∀ c ∈ d.positional, c.isDigit = true) ∨ IsPointed d.positional := by
  have hdigits : ∀ c ∈ Nat.toDigits 10 d.digits, c.isDigit = true :=
    fun c => isDigit_of_mem_toDigits
  have hzeros : ∀ n, ∀ c ∈ List.replicate n '0', c.isDigit = true := fun n c hc => by
    rw [List.eq_of_mem_replicate hc]
    rfl
  have hboth : ∀ {l l' : List Char}, (∀ c ∈ l, c.isDigit = true) → (∀ c ∈ l', c.isDigit = true) →
      ∀ c ∈ l ++ l', c.isDigit = true := fun hl hl' c hc =>
    (List.mem_append.1 hc).elim (hl c) (hl' c)
  unfold Scaled.positional
  dsimp only
  split
  · exact .inl (hboth hdigits (hzeros _))
  · refine .inr ?_
    split
    · exact ⟨['0'], _, rfl, by simp, by simp, hboth (hzeros _) hdigits⟩
    · refine ⟨_, _, rfl, ?_, fun c hc => hdigits c (List.mem_of_mem_take hc),
        fun c hc => hdigits c (List.mem_of_mem_drop hc)⟩
      rw [← List.length_pos_iff, List.length_take]
      omega

/-- The text of a number that is read back is the word for infinity or has a point. -/
theorem RoundTrips.cases {x : Float} (h : RoundTrips x) :
    (render x).toList = ['i', 'n', 'f'] ∨ IsPointed (render x).toList := by
  obtain ⟨hsign, hreads⟩ := h
  have hdigits : ¬∀ c ∈ (render x).toList, c.isDigit = true := fun hdigits => by
    rw [numeralValue_digits hdigits] at hreads
    split at hreads <;> simp at hreads
  have hsign : (if Nat.pow 2 63 ≤ x.toBits.toNat then "-" else "") = "" :=
    if_neg (Nat.not_le_of_lt hsign)
  unfold render at hdigits hreads ⊢
  dsimp only at hdigits hreads ⊢
  rw [hsign] at hdigits hreads ⊢
  split
  · rename_i hnan
    rw [if_pos hnan] at hreads
    simp [numeralValue?, startsInfinite] at hreads
  · rename_i hnumber
    split
    · exact .inl rfl
    · rename_i hfinite
      rw [if_neg hnumber, if_neg hfinite] at hdigits
      rw [String.empty_append, String.toList_ofList] at hdigits ⊢
      refine .inr ?_
      unfold Binary.render at hdigits ⊢
      split
      · exact ⟨_, ['0'], rfl, Nat.toDigits_ne_nil, fun c => isDigit_of_mem_toDigits, by simp⟩
      · rename_i hwhole
        simp only [hwhole] at hdigits
        exact (Scaled.positional_cases _).resolve_left hdigits

end Decimal

/-! ## Numbers -/

namespace Number

open Lexeme

variable {n : Number} {rest : List Char}

theorem toList_repr_natCast (value : Nat) : (value : Int).repr.toList = Nat.toDigits 10 value :=
  Nat.toList_repr

/-- The text of an integer ends where no numeral goes on. -/
theorem numeralSize_integer (value : Nat) (hrest : EndsNumeral rest) :
    numeralSize? ((integer value).render.toList ++ rest) =
      some (integer value).render.toList.length := by
  rw [render, toList_repr_natCast]
  have hzero : (Nat.toDigits 10 value).head? = some '0' → ∀ c ∈ Nat.toDigits 10 value, c = '0' :=
    fun hhead c hc => by simpa [toDigits_of_head_zero hhead] using hc
  exact numeralSize_digits Nat.toDigits_ne_nil (fun c => isDigit_of_mem_toDigits) hzero hrest

theorem numeralSize_render (h : n.IsReadable) (hrest : EndsWord rest) :
    numeralSize? (n.render.toList ++ rest) = some n.render.toList.length := by
  cases n with
  | integer value =>
    obtain ⟨value, rfl⟩ := Int.eq_ofNat_of_zero_le h.1
    exact numeralSize_integer value hrest.endsNumeral
  | float value =>
    rw [render]
    rcases Decimal.RoundTrips.cases h with heq | ⟨whole, fraction, heq, hne, hwhole, hfraction⟩
    · rw [heq]
      exact numeralSize_infinite hrest
    · rw [heq]
      exact numeralSize_point hne hwhole hfraction hrest.endsNumeral

theorem numeralValue_render (h : n.IsReadable) : numeralValue? n.render.toList = some n := by
  cases n with
  | integer value =>
    obtain ⟨value, rfl⟩ := Int.eq_ofNat_of_zero_le h.1
    rw [render, toList_repr_natCast]
    exact numeralValue_toDigits (Int.ofNat_lt.1 h.2)
  | float value => exact Decimal.RoundTrips.reads h

/-- The text of a number consists of word characters and begins with a digit or with `inf`. -/
theorem isWordChar_of_mem_render (h : n.IsReadable) :
    (∀ c ∈ n.render.toList, isWordChar c = true) ∧
      ∃ c rest, n.render.toList = c :: rest ∧ (c.isDigit = true ∨ c = 'i') := by
  have hdigit : ∀ c : Char, c.isDigit = true → isWordChar c = true := fun c hc => by
    simp [isWordChar, Char.isAlphanum, hc]
  cases n with
  | integer value =>
    obtain ⟨value, rfl⟩ := Int.eq_ofNat_of_zero_le h.1
    rw [render, toList_repr_natCast]
    obtain ⟨c, rest, heq⟩ := List.exists_cons_of_ne_nil (Nat.toDigits_ne_nil (n := value) (b := 10))
    exact ⟨fun c hc => hdigit c (isDigit_of_mem_toDigits hc), c, rest, heq,
      .inl (isDigit_of_mem_toDigits (by rw [heq]; exact List.mem_cons_self))⟩
  | float value =>
    rw [render]
    rcases Decimal.RoundTrips.cases h with heq | ⟨whole, fraction, heq, hne, hwhole, hfraction⟩
    · rw [heq]
      exact ⟨by simp [isWordChar], _, _, rfl, .inr rfl⟩
    · obtain ⟨c, whole, rfl⟩ := List.exists_cons_of_ne_nil hne
      rw [heq]
      refine ⟨fun d hd => ?_, _, _, rfl, .inl (hwhole c List.mem_cons_self)⟩
      rcases List.mem_append.1 hd with hd | hd
      · exact hdigit d (hwhole d hd)
      · rcases List.mem_cons.1 hd with rfl | hd
        · rfl
        · exact hdigit d (hfraction d hd)

end Number

end OpticScript
