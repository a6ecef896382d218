import Mathlib.Data.List.Induction
import Mathlib.Data.Nat.Digits.Defs
import OpticScript.Proofs.Lexeme.Numeral

/-!
# The forms of a numeral

There are six forms of a numeral (`NumeralForm.Spells`), and `inf` is one only if no word goes on
behind it. A form matches a text at its longest beginning that is of the form
(`NumeralForm.Matches`), and the numeral that a text starts with is the match of the first form
that has one (`NumeralForm.IsFirst`, `numeralSize_forms`). An integer is of one of the last two
forms and has the value of its digits, if that is below the limit; a numeral of any other form has
a binary64 number for its value.

`NumeralForm.size?` is the length of a match, form by form : what it gives is a beginning of the
form (`NumeralForm.exists_spells_of_size`), and no beginning of the form is longer
(`NumeralForm.Spells.exists_size`).
-/

namespace OpticScript.Lexeme

/-- Digits, at least one. -/
def IsDigits (text : List Char) : Prop := text ≠ [] ∧ ∀ c ∈ text, c.isDigit = true

/-- A letter `e`, a sign or none, and digits. -/
inductive IsExponent : List Char → Prop
  | mk {letter : Char} {sign digits : List Char} (hletter : letter = 'e' ∨ letter = 'E')
      (hsign : sign = [] ∨ sign = ['+'] ∨ sign = ['-']) (hdigits : IsDigits digits) :
      IsExponent (letter :: (sign ++ digits))

/-- The forms of a numeral, in the order in which they are tried. -/
inductive NumeralForm where
  | infinite
  /-- Digits, a point, digits or none, and an exponent or none. -/
  | pointed
  /-- Digits and an exponent. -/
  | exponential
  /-- A point, digits, and an exponent or none. -/
  | fractional
  /-- Zeros only. -/
  | zeros
  /-- Digits, the first of which is no zero. -/
  | whole
  deriving DecidableEq

namespace NumeralForm

def all : List NumeralForm := [infinite, pointed, exponential, fractional, zeros, whole]

theorem mem_all (form : NumeralForm) : form ∈ all := by
  cases form <;> decide

/-- The first part of a text is of this form; the second one is what comes after it. -/
inductive Spells : NumeralForm → List Char → List Char → Prop
  | infinite {rest : List Char} (hrest : EndsWord rest) : Spells infinite ['i', 'n', 'f'] rest
  | pointed {digits fraction exponent rest : List Char} (hdigits : IsDigits digits)
      (hfraction : ∀ c ∈ fraction, c.isDigit = true)
        (hexponent : exponent = [] ∨ IsExponent exponent) :
      Spells pointed (digits ++ '.' :: (fraction ++ exponent)) rest
  | exponential {digits exponent rest : List Char} (hdigits : IsDigits digits)
      (hexponent : IsExponent exponent) : Spells exponential (digits ++ exponent) rest
  | fractional {fraction exponent rest : List Char} (hfraction : IsDigits fraction)
      (hexponent : exponent = [] ∨ IsExponent exponent) :
      Spells fractional ('.' :: (fraction ++ exponent)) rest
  | zeros {text rest : List Char} (hne : text ≠ []) (hzeros : ∀ c ∈ text, c = '0') :
    Spells zeros text rest
  | whole {c : Char} {digits rest : List Char} (hc : c.isDigit = true) (hne : c ≠ '0')
      (hdigits : ∀ c ∈ digits, c.isDigit = true) : Spells whole (c :: digits) rest

/-- No longer beginning of the text is of this form. -/
structure Matches (form : NumeralForm) (lexeme rest : List Char) : Prop where
  spells : form.Spells lexeme rest
  longest : ∀ longer rest', longer ++ rest' = lexeme ++ rest → form.Spells longer rest' →
    longer.length ≤ lexeme.length

/-- This form matches, and there is no beginning of a form before it. -/
structure IsFirst (form : NumeralForm) (lexeme rest : List Char) : Prop where
  here : form.Matches lexeme rest
  first : ∃ before after, all = before ++ form :: after ∧ ∀ earlier ∈ before, ∀ lexeme' rest',
    lexeme' ++ rest' = lexeme ++ rest → ¬earlier.Spells lexeme' rest'

/-- The length of the match of this form. -/
def size? : NumeralForm → List Char → Option Nat
  | infinite, text => if startsInfinite text then some 3 else none
  | pointed, text =>
    if 0 < digitCount text then
      match text.drop (digitCount text) with
      | '.' :: fraction => some (digitCount text + 1 + fractionSize fraction)
      | _ => none
    else none
  | exponential, text =>
    if 0 < digitCount text then
      (exponentSize? (text.drop (digitCount text))).map (digitCount text + ·)
    else none
  | fractional, text =>
    match text with
    | '.' :: fraction => if 0 < digitCount fraction then some (1 + fractionSize fraction) else none
    | _ => none
  | zeros, text => if text.head? = some '0' then some (text.takeWhile (· = '0')).length else none
  | whole, text =>
    if 0 < digitCount text ∧ text.head? ≠ some '0' then some (digitCount text) else none

end NumeralForm

/-! ## Parts of a numeral -/

section

variable {text rest digits exponent fraction : List Char} {n : Nat}

theorem digitCount_append_digits (hdigits : ∀ c ∈ digits, c.isDigit = true) (rest : List Char) :
    digitCount (digits ++ rest) = digits.length + digitCount rest := by
  rw [digitCount, List.takeWhile_append_of_pos hdigits, List.length_append, digitCount]

theorem digitCount_of_head {c : Char} (hc : c.isDigit = false) (rest : List Char) :
    digitCount (c :: rest) = 0 := by
  rw [digitCount, List.takeWhile_cons_of_neg (by simp [hc]), List.length_nil]

/-- A text is the digits that it starts with and what comes after them. -/
theorem exists_digits (text : List Char) : ∃ digits, digits.length = digitCount text ∧
    (∀ c ∈ digits, c.isDigit = true) ∧ text = digits ++ text.drop (digitCount text) := by
  refine ⟨text.takeWhile Char.isDigit, rfl, fun c => List.mem_takeWhile_imp, ?_⟩
  have happ := List.takeWhile_append_dropWhile (p := Char.isDigit) (l := text)
  have hdrop : text.drop (digitCount text) = text.dropWhile Char.isDigit := by
    calc text.drop (digitCount text)
        = (text.takeWhile Char.isDigit ++ text.dropWhile Char.isDigit).drop (digitCount text) := by
          rw [happ]
      _ = text.dropWhile Char.isDigit := List.drop_left
  rw [hdrop, happ]

theorem IsExponent.size_eq (h : IsExponent exponent) (rest : List Char) :
    exponentSize? (exponent ++ rest) = some (exponent.length + digitCount rest) := by
  obtain ⟨hletter, hsign, hne, hdigits⟩ := h
  rename_i letter sign digits
  have hsigned : (if startsSigned (sign ++ digits ++ rest) then 1 else 0) = sign.length := by
    rcases hsign with rfl | rfl | rfl
    · obtain ⟨c, digits, rfl⟩ := List.exists_cons_of_ne_nil hne
      have hc := hdigits c List.mem_cons_self
      have hplus : c ≠ '+' := by rintro rfl; simp at hc
      have hminus : c ≠ '-' := by rintro rfl; simp at hc
      simp [startsSigned, hplus, hminus]
    · rfl
    · rfl
  have hcount : digitCount ((sign ++ digits ++ rest).drop sign.length) =
      digits.length + digitCount rest := by
    rw [List.append_assoc, List.drop_left, digitCount_append_digits hdigits]
  have hpos := List.length_pos_iff.2 hne
  rw [List.cons_append, exponentSize?, if_pos (by simpa using hletter), hsigned]
  dsimp only
  rw [hcount, if_neg (by omega)]
  simp only [List.length_cons, List.length_append]
  congr 1
  omega

/-- A text is the sign that it starts with, if any, and what comes after it. -/
theorem exists_sign (text : List Char) : ∃ sign, (sign = [] ∨ sign = ['+'] ∨ sign = ['-']) ∧
    sign.length = (if startsSigned text then 1 else 0) ∧
      text = sign ++ text.drop (if startsSigned text then 1 else 0) := by
  rcases text with _ | ⟨c, rest⟩
  · exact ⟨[], .inl rfl, rfl, rfl⟩
  · by_cases hc : startsSigned (c :: rest) = true
    · have hsign : c = '+' ∨ c = '-' := by simpa [startsSigned] using hc
      refine ⟨[c], .inr (hsign.imp (congrArg ([·])) (congrArg ([·]))), ?_, ?_⟩ <;> simp [hc]
    · exact ⟨[], .inl rfl, by simp [hc], by simp [hc]⟩

theorem exists_exponent (h : exponentSize? text = some n) :
    ∃ exponent rest, text = exponent ++ rest ∧ exponent.length = n ∧ IsExponent exponent := by
  rcases text with _ | ⟨letter, tail⟩
  · simp [exponentSize?] at h
  · obtain ⟨sign, hsign, hlength, htail⟩ := exists_sign tail
    rw [exponentSize?] at h
    split at h
    · rename_i hletter
      dsimp only at h
      rw [← hlength] at h htail
      obtain ⟨digits, hcount, hdigits, hrest⟩ := exists_digits (tail.drop sign.length)
      rw [← hcount] at h hrest
      split at h
      · simp at h
      · rename_i hne
        refine ⟨letter :: (sign ++ digits), (tail.drop sign.length).drop digits.length, ?_, ?_,
          .mk (by simpa using hletter) hsign ⟨by simpa using hne, hdigits⟩⟩
        · rw [List.cons_append, List.append_assoc, ← hrest, ← htail]
        · rw [← Option.some.inj h, List.length_cons, List.length_append]
          omega
    · simp at h

theorem IsExponent.head (h : IsExponent exponent) :
    ∃ letter tail, exponent = letter :: tail ∧ letter.isDigit = false := by
  obtain ⟨hletter, -, -⟩ := h
  refine ⟨_, _, rfl, ?_⟩
  rcases hletter with rfl | rfl <;> rfl

theorem length_le_fractionSize (hfraction : ∀ c ∈ fraction, c.isDigit = true)
    (hexponent : exponent = [] ∨ IsExponent exponent) (rest : List Char) :
    (fraction ++ exponent).length ≤ fractionSize (fraction ++ exponent ++ rest) := by
  rw [fractionSize, List.append_assoc, digitCount_append_digits hfraction]
  rcases hexponent with rfl | hexponent
  · simp only [List.append_nil]
    omega
  · obtain ⟨letter, tail, heq, hletter⟩ := hexponent.head
    have hcount : digitCount (exponent ++ rest) = 0 := by
      rw [heq, List.cons_append, digitCount_of_head hletter]
    rw [hcount, Nat.add_zero, List.drop_left, exponentSize, hexponent.size_eq, List.length_append]
    simp only [Option.getD_some]
    omega

theorem exists_fraction (text : List Char) : ∃ fraction exponent rest,
    text = fraction ++ exponent ++ rest ∧ (fraction ++ exponent).length = fractionSize text ∧
      fraction.length = digitCount text ∧ (∀ c ∈ fraction, c.isDigit = true) ∧
        (exponent = [] ∨ IsExponent exponent) := by
  obtain ⟨fraction, hlength, hfraction, heq⟩ := exists_digits text
  rcases hexponent : exponentSize? (text.drop (digitCount text)) with _ | n
  · refine ⟨fraction, [], text.drop (digitCount text), by rwa [List.append_nil], ?_, hlength,
      hfraction, .inl rfl⟩
    rw [List.append_nil, fractionSize, exponentSize, hexponent, hlength]
    rfl
  · obtain ⟨exponent, rest, hrest, hsize, hmark⟩ := exists_exponent hexponent
    refine ⟨fraction, exponent, rest, ?_, ?_, hlength, hfraction, .inr hmark⟩
    · rw [List.append_assoc, ← hrest, ← heq]
    · rw [List.length_append, fractionSize, exponentSize, hexponent, hlength, hsize]
      rfl

end

/-! ## Matches of a form -/

namespace NumeralForm

variable {form : NumeralForm} {text lexeme rest : List Char} {n : Nat}

/-- What a form gives is the length of a beginning of the form. -/
theorem exists_spells_of_size (h : form.size? text = some n) :
    ∃ lexeme rest, text = lexeme ++ rest ∧ lexeme.length = n ∧ form.Spells lexeme rest := by
  cases form with
  | infinite =>
    rw [size?, startsInfinite_eq] at h
    split at h
    · rename_i hinfinite
      obtain ⟨hinf, hword⟩ := Bool.and_eq_true_iff.1 hinfinite
      obtain ⟨rest, rfl⟩ := List.isPrefixOf_iff_prefix.1 hinf
      refine ⟨_, rest, rfl, Option.some.inj h, .infinite fun c hc => ?_⟩
      rcases rest with _ | ⟨d, rest⟩
      · simp at hc
      · obtain rfl : d = c := Option.some.inj hc
        simpa using hword
    · simp at h
  | pointed =>
    obtain ⟨digits, hlength, hdigits, heq⟩ := exists_digits text
    rw [size?] at h
    split at h
    · rename_i hpos
      split at h
      · rename_i tail hpoint
        obtain ⟨fraction, exponent, rest, rfl, hsize, -, hfraction, hexponent⟩ :=
          exists_fraction tail
        refine ⟨_, rest, ?_, ?_,
          .pointed ⟨List.length_pos_iff.1 (hlength ▸ hpos), hdigits⟩ hfraction hexponent⟩
        · rw [heq, hpoint]
          simp
        · rw [← Option.some.inj h, ← hsize, ← hlength]
          simp only [List.length_append, List.length_cons]
          omega
      · simp at h
    · simp at h
  | exponential =>
    obtain ⟨digits, hlength, hdigits, heq⟩ := exists_digits text
    rw [size?] at h
    split at h
    · rename_i hpos
      obtain ⟨size, hsize, rfl⟩ := Option.map_eq_some_iff.1 h
      obtain ⟨exponent, rest, hrest, hexponent, hmark⟩ := exists_exponent hsize
      refine ⟨digits ++ exponent, rest, ?_, ?_,
        .exponential ⟨List.length_pos_iff.1 (hlength ▸ hpos), hdigits⟩ hmark⟩
      · rw [List.append_assoc, ← hrest, ← heq]
      · rw [List.length_append, hlength, hexponent]
    · simp at h
  | fractional =>
    unfold size? at h
    dsimp only at h
    split at h
    · rename_i tail
      split at h
      · rename_i hpos
        obtain ⟨fraction, exponent, rest, rfl, hsize, hlength, hfraction, hexponent⟩ :=
          exists_fraction tail
        refine ⟨_, rest, rfl, ?_,
          .fractional ⟨List.length_pos_iff.1 (hlength ▸ hpos), hfraction⟩ hexponent⟩
        rw [← Option.some.inj h, List.length_cons, hsize, Nat.add_comm]
      · simp at h
    · simp at h
  | zeros =>
    rw [size?] at h
    split at h
    · rename_i hhead
      obtain ⟨rest, rfl⟩ := List.head?_eq_some_iff.1 hhead
      refine ⟨_, _, List.takeWhile_append_dropWhile.symm, Option.some.inj h,
        .zeros (by simp) fun c hc => ?_⟩
      simpa using List.mem_takeWhile_imp hc
    · simp at h
  | whole =>
    obtain ⟨digits, hlength, hdigits, heq⟩ := exists_digits text
    rw [size?] at h
    split at h
    · rename_i hwhole
      obtain ⟨c, digits, rfl⟩ := List.exists_cons_of_length_pos (hlength ▸ hwhole.1)
      obtain ⟨hc, hdigits⟩ := List.forall_mem_cons.1 hdigits
      refine ⟨c :: digits, _, heq, hlength.trans (Option.some.inj h), .whole hc ?_ hdigits⟩
      rintro rfl
      exact hwhole.2 (by rw [heq]; rfl)
    · simp at h

/-- No beginning of the form is longer than what the form gives. -/
theorem Spells.exists_size (h : form.Spells lexeme rest) :
    ∃ n, form.size? (lexeme ++ rest) = some n ∧ lexeme.length ≤ n := by
  cases h with
  | infinite hrest =>
    refine ⟨3, ?_, Nat.le_refl 3⟩
    have hword : rest.head?.any isWordChar = false := by
      rcases rest with _ | ⟨c, rest⟩
      · rfl
      · exact hrest c rfl
    rw [size?, startsInfinite_eq, if_pos]
    simp [hword]
  | @pointed digits fraction exponent _ hdigits hfraction hexponent =>
    have hcount : digitCount (digits ++ '.' :: (fraction ++ exponent) ++ rest) = digits.length := by
      rw [List.append_assoc, digitCount_append_digits hdigits.2, List.cons_append,
        digitCount_of_head rfl, Nat.add_zero]
    have hle := length_le_fractionSize hfraction hexponent rest
    refine ⟨digits.length + 1 + fractionSize (fraction ++ exponent ++ rest), ?_, ?_⟩
    · rw [size?, hcount, if_pos (List.length_pos_iff.2 hdigits.1), List.append_assoc,
        List.drop_left]
      rfl
    · simp only [List.length_append, List.length_cons] at hle ⊢
      omega
  | @exponential digits exponent _ hdigits hexponent =>
    obtain ⟨letter, tail, heq, hletter⟩ := hexponent.head
    have hcount : digitCount (digits ++ exponent ++ rest) = digits.length := by
      rw [List.append_assoc, digitCount_append_digits hdigits.2, heq, List.cons_append,
        digitCount_of_head hletter, Nat.add_zero]
    refine ⟨digits.length + (exponent.length + digitCount rest), ?_, ?_⟩
    · rw [size?, hcount, if_pos (List.length_pos_iff.2 hdigits.1), List.append_assoc,
        List.drop_left, hexponent.size_eq]
      rfl
    · rw [List.length_append]
      omega
  | @fractional fraction exponent _ hfraction hexponent =>
    have hle := length_le_fractionSize hfraction.2 hexponent rest
    have hpos : 0 < digitCount (fraction ++ exponent ++ rest) := by
      rw [List.append_assoc, digitCount_append_digits hfraction.2]
      exact Nat.add_pos_left (List.length_pos_iff.2 hfraction.1) _
    refine ⟨1 + fractionSize (fraction ++ exponent ++ rest), if_pos hpos, ?_⟩
    rw [List.length_cons]
    omega
  | zeros hne hzeros =>
    obtain ⟨c, zeros, rfl⟩ := List.exists_cons_of_ne_nil hne
    have hrun : ((c :: zeros ++ rest).takeWhile (· = '0')).length =
        (c :: zeros).length + (rest.takeWhile (· = '0')).length := by
      rw [List.takeWhile_append_of_pos fun d hd => decide_eq_true (hzeros d hd), List.length_append]
    refine ⟨_, if_pos (by simp [hzeros c List.mem_cons_self]), ?_⟩
    rw [hrun]
    exact Nat.le_add_right _ _
  | @whole c digits _ hc hne hdigits =>
    have hcount : digitCount (c :: digits ++ rest) = (c :: digits).length + digitCount rest :=
      digitCount_append_digits (List.forall_mem_cons.2 ⟨hc, hdigits⟩) rest
    have hpos : 0 < digitCount (c :: digits ++ rest) := by
      rw [hcount, List.length_cons]
      omega
    refine ⟨_, if_pos ⟨hpos, by simpa using hne⟩, ?_⟩
    rw [hcount]
    exact Nat.le_add_right _ _

theorem matches_iff :
    form.Matches lexeme rest ↔ form.size? (lexeme ++ rest) = some lexeme.length := by
  constructor
  · rintro ⟨hspells, hlongest⟩
    obtain ⟨n, hsize, hle⟩ := hspells.exists_size
    obtain ⟨longer, rest', heq, rfl, hlonger⟩ := exists_spells_of_size hsize
    rw [hsize, Nat.le_antisymm (hlongest longer rest' heq.symm hlonger) hle]
  · intro hsize
    obtain ⟨lexeme', rest', heq, hlength, hspells⟩ := exists_spells_of_size hsize
    obtain ⟨rfl, rfl⟩ := List.append_inj heq hlength.symm
    refine ⟨hspells, fun longer rest' hlonger hspells' => ?_⟩
    obtain ⟨n, hsize', hle⟩ := hspells'.exists_size
    rw [hlonger, hsize] at hsize'
    exact (Option.some.inj hsize').symm ▸ hle

/-- A form gives nothing if no beginning of the text is of the form. -/
theorem size_eq_none_iff : form.size? text = none ↔
    ∀ lexeme rest, lexeme ++ rest = text → ¬form.Spells lexeme rest := by
  constructor
  · rintro hnone lexeme rest rfl hspells
    obtain ⟨n, hsize, -⟩ := hspells.exists_size
    simp [hsize] at hnone
  · intro hnone
    refine Option.eq_none_iff_forall_ne_some.2 fun n hn => ?_
    obtain ⟨lexeme, rest, rfl, -, hspells⟩ := exists_spells_of_size hn
    exact hnone lexeme rest rfl hspells

theorem size_pointed_of_head (h : (text.drop (digitCount text)).head? ≠ some '.') :
    pointed.size? text = none := by
  unfold size?
  dsimp only
  split
  · split
    · rename_i hpoint
      exact absurd (congrArg List.head? hpoint) h
    · rfl
  · rfl

theorem size_fractional_of_digits (h : 0 < digitCount text) : fractional.size? text = none := by
  unfold size?
  dsimp only
  split
  · simp [digitCount_of_head] at h
  · rfl

/-- The forms are tried in their order. -/
theorem numeralSize_eq (text : List Char) : numeralSize? text = all.findSome? (·.size? text) := by
  have hinfinite : infinite.size? text = if startsInfinite text then some 3 else none := rfl
  unfold numeralSize?
  simp only [all, List.findSome?_cons, List.findSome?_nil, hinfinite]
  split
  · rfl
  · dsimp only
    by_cases hpos : 0 < digitCount text
    · rw [if_pos hpos, size_fractional_of_digits hpos]
      by_cases hpoint : (text.drop (digitCount text)).head? = some '.'
      · obtain ⟨fraction, hfraction⟩ := List.head?_eq_some_iff.1 hpoint
        simp [size?, hpos, hfraction, numeralSizeAfter]
      · rw [numeralSizeAfter_of_head hpoint, size_pointed_of_head hpoint]
        rcases hexponent : exponentSize? (text.drop (digitCount text)) with _ | size
        · by_cases hzero : text.head? = some '0' <;> simp [size?, hpos, hexponent, hzero]
        · simp [size?, hpos, hexponent]
    · have hzero : text.head? ≠ some '0' := fun hhead => by
        obtain ⟨rest, rfl⟩ := List.head?_eq_some_iff.1 hhead
        simp [digitCount] at hpos
      have hpointed : pointed.size? text = none := if_neg hpos
      have hexponential : exponential.size? text = none := if_neg hpos
      have hzeros : zeros.size? text = none := if_neg hzero
      have hwhole : whole.size? text = none := if_neg fun h => hpos h.1
      rw [if_neg hpos, hpointed, hexponential, hzeros, hwhole]
      change fractional.size? text = _
      cases fractional.size? text <;> rfl

theorem numeralSize_eq_some_iff : numeralSize? text = some n ↔
    ∃ form lexeme rest, text = lexeme ++ rest ∧ lexeme.length = n ∧ IsFirst form lexeme rest := by
  rw [numeralSize_eq, List.findSome?_eq_some_iff]
  constructor
  · rintro ⟨before, form, after, hall, hsize, hbefore⟩
    obtain ⟨lexeme, rest, rfl, rfl, -⟩ := exists_spells_of_size hsize
    exact ⟨form, lexeme, rest, rfl, rfl, matches_iff.2 hsize, before, after, hall,
      fun earlier hearlier => size_eq_none_iff.1 (hbefore earlier hearlier)⟩
  · rintro ⟨form, lexeme, rest, rfl, rfl, hhere, before, after, hall, hbefore⟩
    exact ⟨before, form, after, hall, matches_iff.1 hhere,
      fun earlier hearlier => size_eq_none_iff.2 (hbefore earlier hearlier)⟩

end NumeralForm

/-! ## Values -/

theorem ofDigits_eq (digits : List Char) : Decimal.ofDigits digits =
    Nat.ofDigits 10 (digits.reverse.map fun c => c.toNat - '0'.toNat) := by
  induction digits using List.reverseRecOn with
  | nil => rfl
  | append_singleton digits c ih =>
    rw [List.reverse_append, List.reverse_singleton, List.singleton_append, List.map_cons,
      Nat.ofDigits_cons, ← ih, Decimal.ofDigits, List.foldl_append, ← Decimal.ofDigits]
    simp [Nat.add_comm]

theorem numeralValue_marked {text : List Char} (h : ∃ c ∈ text, c = '.' ∨ c = 'e' ∨ c = 'E') :
    ∃ x, numeralValue? text = some (.float x) := by
  obtain ⟨c, hc, hmark⟩ := h
  have hany : text.any (fun c => c = '.' || c = 'e' || c = 'E') = true :=
    List.any_eq_true.2 ⟨c, hc, by simpa [or_assoc] using hmark⟩
  unfold numeralValue?
  split
  · exact ⟨_, rfl⟩
  · exact ⟨_, rfl⟩

theorem IsExponent.marked {exponent : List Char} (h : IsExponent exponent) :
    ∃ c ∈ exponent, c = '.' ∨ c = 'e' ∨ c = 'E' := by
  obtain ⟨hletter, -, -⟩ := h
  exact ⟨_, List.mem_cons_self, .inr hletter⟩

/-- A numeral that is more than digits has a binary64 number for its value. -/
theorem NumeralForm.Spells.value_float {form : NumeralForm} {lexeme rest : List Char}
    (h : form.Spells lexeme rest) (hdigits : ¬∀ c ∈ lexeme, c.isDigit = true) :
    ∃ x, numeralValue? lexeme = some (.float x) := by
  cases h with
  | infinite => exact ⟨_, rfl⟩
  | pointed => exact numeralValue_marked ⟨'.', by simp, .inl rfl⟩
  | @exponential digits exponent _ _ hexponent =>
    obtain ⟨c, hc, hmark⟩ := hexponent.marked
    exact numeralValue_marked ⟨c, List.mem_append_right digits hc, hmark⟩
  | fractional => exact numeralValue_marked ⟨'.', List.mem_cons_self, .inl rfl⟩
  | zeros hne hzeros => exact absurd (fun c hc => by rw [hzeros c hc]; rfl) hdigits
  | whole hc hne hrest =>
    refine absurd (fun d hd => ?_) hdigits
    rcases List.mem_cons.1 hd with rfl | hd
    · exact hc
    · exact hrest d hd

/-- The numeral that a text starts with is what the first form takes that matches it, each form
as much as it can, and there is none if no form matches. An integer has the value of its digits, or
none if that is too large, and any other numeral has a binary64 number for its value. -/
theorem numeralSize_forms (text : List Char) :
    (∀ n, numeralSize? text = some n ↔ ∃ form lexeme rest,
      text = lexeme ++ rest ∧ lexeme.length = n ∧ NumeralForm.IsFirst form lexeme rest) ∧
    (numeralSize? text = none ↔
      ∀ (form : NumeralForm) lexeme rest, text = lexeme ++ rest → ¬form.Spells lexeme rest) ∧
    ∀ (form : NumeralForm) lexeme rest, text = lexeme ++ rest → form.IsFirst lexeme rest →
      let value : Nat := Nat.ofDigits 10 (lexeme.reverse.map fun c => c.toNat - '0'.toNat)
      ((∀ c ∈ lexeme, c.isDigit = true) → numeralValue? lexeme =
        if value ≤ 2 ^ 63 - 1 then some (.integer value) else none) ∧
      (¬(∀ c ∈ lexeme, c.isDigit = true) → ∃ x, numeralValue? lexeme = some (.float x)) := by
  refine ⟨fun n => NumeralForm.numeralSize_eq_some_iff, ?_, ?_⟩
  · rw [NumeralForm.numeralSize_eq, List.findSome?_eq_none_iff]
    exact ⟨fun h form lexeme rest heq => NumeralForm.size_eq_none_iff.1 (h form form.mem_all) lexeme
      rest heq.symm,
      fun h form _ => NumeralForm.size_eq_none_iff.2 fun lexeme rest heq =>
        h form lexeme rest heq.symm⟩
  · rintro form lexeme rest rfl hfirst value
    refine ⟨fun hdigits => ?_, hfirst.here.spells.value_float⟩
    have hlimit : value ≤ 2 ^ 63 - 1 ↔ value < Number.integerLimit := by
      have htop : Number.integerLimit = 2 ^ 63 := rfl
      omega
    rw [numeralValue_digits hdigits, ofDigits_eq]
    simp only [hlimit]
    rfl

/-- Zeros before another digit, and an integer above the limit. -/
theorem numeralSize_forms_integers :
    (NumeralForm.zeros.IsFirst ['0', '0'] ['7'] ∧ numeralSize? ['0', '0', '7'] = some 2 ∧
      numeralValue? ['0', '0'] = some (.integer 0)) ∧
    (NumeralForm.whole.IsFirst "9223372036854775808".toList [] ∧
      numeralValue? "9223372036854775808".toList = none) := by
  have hzeros : NumeralForm.zeros.IsFirst ['0', '0'] ['7'] :=
    ⟨NumeralForm.matches_iff.2 (by decide), [.infinite, .pointed, .exponential, .fractional],
      [.whole], rfl,
      fun earlier hearlier => NumeralForm.size_eq_none_iff.1 (by revert earlier; decide)⟩
  have hwhole : NumeralForm.whole.IsFirst "9223372036854775808".toList [] :=
    ⟨NumeralForm.matches_iff.2 (by decide),
      [.infinite, .pointed, .exponential, .fractional, .zeros], [], rfl,
      fun earlier hearlier => NumeralForm.size_eq_none_iff.1 (by revert earlier; decide)⟩
  refine ⟨⟨hzeros, ?_, ?_⟩, hwhole, ?_⟩
  · exact ((numeralSize_forms _).1 2).2 ⟨_, _, _, rfl, rfl, hzeros⟩
  · exact ((numeralSize_forms _).2.2 _ _ _ rfl hzeros).1 (List.all_eq_true.1 (by decide))
  · exact ((numeralSize_forms _).2.2 _ _ _ rfl hwhole).1 (List.all_eq_true.1 (by decide))

end OpticScript.Lexeme
