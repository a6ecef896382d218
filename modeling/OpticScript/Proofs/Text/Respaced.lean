import OpticScript.Proofs.Lexeme.Scanning

/-!
# Blanks between lexemes

Texts that are the same but for the blanks before, between and behind their lexemes
(`Respaced`) go on alike up to where both have a blank (`Respaced.fork`). So they begin with the
same lexeme, and what is behind it is the same but for blanks again (`Respaced.scan`). Blanks
do not turn up or vanish altogether (`Respaced.takeWhile_eq_nil_iff`), since that could cut a
lexeme in two or make one of two.
-/

namespace OpticScript.Text

open Lexer (isBlank)

/-- The texts have the same lexemes, and blanks at the same places between them, though not as
many nor the same ones. They may go on as one and the same text, which they do where no lexeme
begins. -/
inductive Respaced : List Char → List Char → Prop
  | refl (text : List Char) : Respaced text text
  | blanks {gap gap' rest rest' : List Char} (hne : gap ≠ []) (hne' : gap' ≠ [])
      (hgap : ∀ c ∈ gap, isBlank c = true) (hgap' : ∀ c ∈ gap', isBlank c = true)
      (h : Respaced rest rest') : Respaced (gap ++ rest) (gap' ++ rest')
  | lexeme {text rest rest' : List Char} {lexeme : Lexeme}
      (hscan : Lexeme.scan? (text ++ rest) = some lexeme) (hsize : lexeme.size = text.length)
      (h : Respaced rest rest') : Respaced (text ++ rest) (text ++ rest')

section

variable {text rest rest' : List Char} {lexeme : Lexeme}

theorem exists_cons_of_scan (hscan : Lexeme.scan? (text ++ rest) = some lexeme)
    (hsize : lexeme.size = text.length) : ∃ c tail, text = c :: tail ∧ isBlank c = false := by
  obtain ⟨c, tail, rfl⟩ := List.exists_cons_of_length_pos (hsize ▸ lexeme.size_pos)
  exact ⟨c, tail, rfl, Lexeme.not_isBlank_of_scan hscan⟩

theorem Respaced.eq_nil_iff (h : Respaced rest rest') : rest = [] ↔ rest' = [] := by
  cases h with
  | refl => exact Iff.rfl
  | blanks hne hne' => simp [hne, hne']
  | lexeme hscan hsize =>
    obtain ⟨c, tail, rfl, -⟩ := exists_cons_of_scan hscan hsize
    simp

/-- The texts are the same, or they are up to a blank. -/
theorem Respaced.fork (h : Respaced rest rest') : rest' = rest ∨
    ∃ common b tail b' tail', isBlank b = true ∧ isBlank b' = true ∧
      rest = common ++ b :: tail ∧ rest' = common ++ b' :: tail' := by
  induction h with
  | refl => exact .inl rfl
  | @blanks gap gap' rest rest' hne hne' hgap hgap' =>
    obtain ⟨b, gap, rfl⟩ := List.exists_cons_of_ne_nil hne
    obtain ⟨b', gap', rfl⟩ := List.exists_cons_of_ne_nil hne'
    exact .inr ⟨[], b, gap ++ rest, b', gap' ++ rest', hgap b List.mem_cons_self,
      hgap' b' List.mem_cons_self, rfl, rfl⟩
  | @lexeme text _ _ _ _ _ _ ih =>
    rcases ih with rfl | ⟨common, b, tail, b', tail', hb, hb', rfl, rfl⟩
    · exact .inl rfl
    · exact .inr ⟨text ++ common, b, tail, b', tail', hb, hb', by simp, by simp⟩

/-- The lexeme before the blanks is the same. -/
theorem Respaced.scan_append (h : Respaced rest rest')
    (hscan : Lexeme.scan? (text ++ rest) = some lexeme) (hsize : lexeme.size = text.length) :
    Lexeme.scan? (text ++ rest') = some lexeme := by
  rcases h.fork with rfl | ⟨common, b, tail, b', tail', hb, hb', rfl, rfl⟩
  · exact hscan
  · rw [← List.append_assoc] at hscan ⊢
    refine Lexeme.scan_of_append hb hb' hscan ?_
    rw [hsize, List.length_append]
    exact Nat.le_add_right _ _

/-- Where no blank comes next, the same lexeme does, or the texts are the same and none does. -/
theorem Respaced.scan {c : Char} {tail : List Char} (h : Respaced rest rest')
    (hrest : rest = c :: tail) (hc : isBlank c = false) :
    (rest' = rest ∧ Lexeme.scan? rest = none) ∨
      ∃ lexeme text, Lexeme.scan? rest = some lexeme ∧ Lexeme.scan? rest' = some lexeme ∧
        rest.take lexeme.size = text ∧ rest'.take lexeme.size = text ∧
        Respaced (rest.drop text.length) (rest'.drop text.length) := by
  cases h with
  | refl =>
    rcases hscan : Lexeme.scan? rest with _ | lexeme
    · exact .inl ⟨rfl, rfl⟩
    · exact .inr ⟨lexeme, _, rfl, rfl, rfl, rfl, .refl _⟩
  | blanks hne _ hgap =>
    obtain ⟨b, gap, rfl⟩ := List.exists_cons_of_ne_nil hne
    obtain ⟨rfl, -⟩ := List.cons.inj hrest
    simp [hgap b List.mem_cons_self] at hc
  | @lexeme text _ _ lexeme hscan hsize h =>
    refine .inr ⟨lexeme, text, hscan, h.scan_append hscan hsize, ?_, ?_, ?_⟩
    · rw [hsize, List.take_left]
    · rw [hsize, List.take_left]
    · rwa [List.drop_left, List.drop_left]

theorem dropWhile_isBlank_of_scan (hscan : Lexeme.scan? (text ++ rest) = some lexeme)
    (hsize : lexeme.size = text.length) (rest' : List Char) :
    (text ++ rest').dropWhile isBlank = text ++ rest' ∧ (text ++ rest').takeWhile isBlank = [] := by
  obtain ⟨c, tail, rfl, hc⟩ := exists_cons_of_scan hscan hsize
  simp [hc]

theorem Respaced.dropWhile (h : Respaced rest rest') :
    Respaced (rest.dropWhile isBlank) (rest'.dropWhile isBlank) := by
  induction h with
  | refl => exact .refl _
  | blanks _ _ hgap hgap' _ ih =>
    rwa [List.dropWhile_append_of_pos hgap, List.dropWhile_append_of_pos hgap']
  | lexeme hscan hsize h =>
    rw [(dropWhile_isBlank_of_scan hscan hsize _).1, (dropWhile_isBlank_of_scan hscan hsize _).1]
    exact .lexeme hscan hsize h

/-- There are blanks in both texts or in neither. -/
theorem Respaced.takeWhile_eq_nil_iff (h : Respaced rest rest') :
    rest.takeWhile isBlank = [] ↔ rest'.takeWhile isBlank = [] := by
  cases h with
  | refl => exact Iff.rfl
  | blanks hne hne' hgap hgap' =>
    rw [List.takeWhile_append_of_pos hgap, List.takeWhile_append_of_pos hgap']
    simp [hne, hne']
  | lexeme hscan hsize =>
    rw [(dropWhile_isBlank_of_scan hscan hsize _).2, (dropWhile_isBlank_of_scan hscan hsize _).2]

/-- Both texts end in a line break or neither does. -/
theorem Respaced.any_getLast_eq (h : Respaced rest rest') :
    rest'.getLast?.any isLineBreak = rest.getLast?.any isLineBreak := by
  have hblank : ∀ gap : List Char, (∀ c ∈ gap, isBlank c = true) →
      gap.getLast?.any isLineBreak = false := by
    intro gap hgap
    rw [Bool.eq_false_iff, ne_eq, Option.any_eq_true]
    rintro ⟨c, hc, hbreak⟩
    simp [isLineBreak_of_isBlank (hgap c (List.mem_of_getLast? hc))] at hbreak
  induction h with
  | refl => rfl
  | @blanks gap gap' rest rest' _ _ hgap hgap' h ih =>
    by_cases hnil : rest = []
    · rw [hnil, h.eq_nil_iff.1 hnil, List.append_nil, List.append_nil, hblank gap hgap,
        hblank gap' hgap']
    · rw [List.getLast?_append_of_ne_nil _ hnil,
        List.getLast?_append_of_ne_nil _ (mt h.eq_nil_iff.2 hnil), ih]
  | @lexeme text rest rest' _ _ _ h ih =>
    by_cases hnil : rest = []
    · rw [hnil, h.eq_nil_iff.1 hnil]
    · rw [List.getLast?_append_of_ne_nil _ hnil,
        List.getLast?_append_of_ne_nil _ (mt h.eq_nil_iff.2 hnil), ih]

end

end OpticScript.Text
