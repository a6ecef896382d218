import Mathlib.Data.List.DropRight
import OpticScript.Proofs.Script.Derivation
import OpticScript.Proofs.Script.Failure
import OpticScript.Proofs.Text.Bytes

/-!
# A text and then bytes that are no text

A script that begins with a text of whole lines and goes on with bytes that are no text.
The lexer gives the tokens of the text until its lines are used up, and then the bytes are
an error at the line after them (`Lexer.item_undecodable`).

An error that is found in the text before its end (`Cause.Early`) is the same for the
whole. In all other cases the bytes are the error : if the lines of the text are read, the
next line begins with them (`Seam.conclusion_of_reads`), and if no rule fits one of them,
the lexer comes to the bytes when it looks for an error of its own
(`Followed.conclusion_exhausted`). `Script.ofSource_undecodable` says so of lexing and of
reading a script.
-/

namespace OpticScript

open Packrat Packrat.Outcome

/-- Neither a bracket that is still open at the end, nor a line that no rule fits, for which
the lexer goes on to the end. -/
def Cause.Early (cause : Cause) : Prop :=
  cause ≠ .unrecognized ∧ ∀ bracket, cause ≠ .unclosed bracket

theorem Cause.Grammatical.early {cause : Cause} (h : cause.Grammatical) : cause.Early := by
  cases h <;> exact ⟨by simp, by simp⟩

namespace Lexer

variable {lexer whole : Lexer} {more pieces : List Piece} {n wall fuel : Nat} {e : ScriptError}

/-! ## Errors -/

/-- What is wrong with a text on its line is found there. -/
theorem scan_early {c : Char} (h : (lexer.scan c).1 = .error e) :
    ∃ d, e = .located d ∧ d.cause.Early := by
  rcases hscan : Lexeme.scan? lexer.rest with _ | lexeme
  · rw [scan_of_none hscan] at h
    obtain rfl := Except.error.inj h
    exact ⟨_, rfl, by simp [blame], by simp [blame]⟩
  rcases hliteral : Lexeme.literal? lexeme.kind (lexer.rest.take lexeme.size) with _ | literal
  · rw [scan_of_no_literal hscan hliteral] at h
    obtain rfl := Except.error.inj h
    exact ⟨_, rfl, by simp [blame], by simp [blame]⟩
  rw [scan_of_literal hscan hliteral] at h
  rcases lexer.accept_cases
    ((lexer.tokenHere lexeme.kind (lexer.rest.take lexeme.size)).withLiteral literal)
    (lexer.rest.take lexeme.size) with ⟨openers, -, heq⟩ | heq
  · rw [heq] at h
    obtain rfl := Except.error.inj h
    exact ⟨_, rfl, by simp [blame], by simp [blame]⟩
  · simp [heq] at h

/-- Bytes that are no text are an error at the line after those that have been read. -/
theorem item_undecodable (hex : lexer.Exhausted) (pieces : List Piece) :
    (lexer.within #[] (.undecodable :: pieces)).item 0 =
      .error (.unreadable lexer.source (lexer.lines.size + 1)) := by
  obtain ⟨hrest, hunread⟩ := hex
  rw [item_eq_error_iff, after, nextToken]
  simp [within, hunread, nextTokenFrom, Lexer.skipBlanks, hrest]

/-- There is no line where the lexer is in error. -/
theorem comesTo_scriptLine_error {pos : Nat} (he : lexer.item pos = .error e) (hfuel : 3 ≤ fuel) :
    (lexer.comesTo fuel .scriptLine pos).answer = .error (.item e) := by
  obtain ⟨fuel, rfl⟩ := Nat.exists_eq_add_of_le' hfuel
  have hname : (lexer.comesTo (fuel + 1) (.token .name) pos).answer = .error (.item e) := by
    rw [Lexer.comesTo_token]
    simp [takeAt, lookAt, he, thenMatch, andThen]
  have hcommand : (lexer.comesTo (fuel + 2) .command pos).answer = .error (.item e) := by
    rw [Lexer.comesTo_succ lexer (fuel + 1) rfl]
    simp [Phrase.branches, Phrase.command, Phrase.token, Phrase.rule, Bind.bind, Branch.bind,
      firstOutcome, Branch.outcome, hname, thenMatch, andThen]
  rw [Lexer.comesTo_succ lexer (fuel + 2) rfl]
  simp [Phrase.branches, Phrase.scriptLine, Phrase.token, Phrase.rule,
    Phrase.optionalToken, Bind.bind,
    Branch.bind, firstOutcome, Branch.outcome, hcommand, thenMatch, andThen]

/-! ## Lines up to an error -/

/-- If the lines before an error of the lexer are read, that is the error. -/
theorem Seam.conclusion_of_reads (h : lexer.Seam whole n) (hends : lexer.EndsAt wall)
    (hn : n ≤ wall) (hfuel : fuelFor wall 0 ≤ fuel) {m : Nat} {script : Script}
    (hreads : Reads (lexer.comesTo fuel .scriptLine) .empty 0 m script n)
    (he : whole.item n = .error e) :
    whole.conclusion (linesOutcome (whole.comesTo fuel .scriptLine) fuel .empty 0) =
      .error (.fatal e) := by
  obtain ⟨hm, hlines⟩ := h.linesOutcome_eq hends (hn.trans (Nat.le_succ wall)) hfuel hreads
  unfold fuelFor at hfuel
  obtain ⟨rounds, hrounds⟩ : ∃ rounds, fuel = rounds + 1 + m := ⟨fuel - m - 1, by omega⟩
  have hanswer : (linesOutcome (whole.comesTo fuel .scriptLine) fuel .empty 0).answer =
      .error (.item e) := by
    rw [congrArg (linesOutcome (whole.comesTo fuel .scriptLine) · .empty 0) hrounds,
      hlines (rounds + 1), linesOutcome, andThen_error (comesTo_scriptLine_error he (by omega))]
  rw [conclusion, hanswer]

namespace Followed

/-! ## A text that is broken -/

/-- If the lines are not used up, there is something wrong with one of them, whatever comes
after them. -/
theorem item_broken (h : lexer.Followed more wall) (hex : ¬(lexer.after wall).Exhausted)
    (pieces : List Piece) :
    let whole := lexer.within #[] pieces
    ∃ d, d.cause.Early ∧ lexer.item wall = .error (.located d) ∧
      whole.item wall = .error (.located d) ∧ whole.EndsAt wall := by
  intro whole
  have hseam := h.seam_broken_before hex pieces
  obtain ⟨⟨e, he⟩, -⟩ := h.endsAt.broken h.regular h.more_ne_nil h.left hex
  have he' : whole.item wall = .error e := (hseam.item_eq wall (Nat.lt_succ_self wall)).trans he
  have hends := hseam.endsAt_of_error h.endsAt (Nat.le_succ wall) he'
  have hregular := (h.after_eq fun i hi => h.left_of_lt hi).1
  obtain ⟨⟨start, c, hscan⟩, -⟩ := hregular.nextToken_left h.more_ne_nil hex
  obtain ⟨d, rfl, hearly⟩ := scan_early (hscan ▸ item_eq_error_iff.1 he)
  exact ⟨d, hearly, he, he', hends⟩

theorem toEnd_broken (h : lexer.Followed more wall) (hex : ¬(lexer.after wall).Exhausted)
    (pieces : List Piece) :
    let whole := lexer.within #[] pieces
    whole.toEnd.tokens = lexer.toEnd.tokens ∧ whole.toEnd.failure = lexer.toEnd.failure ∧
      ∃ d, lexer.toEnd.failure = some (.located d) ∧ d.cause.Early := by
  intro whole
  obtain ⟨d, hearly, he, he', hends⟩ := h.item_broken hex pieces
  have htake := h.endsAt.take_tokens hends fun i hi =>
    (h.seam_broken_before hex pieces).item_eq i (Nat.lt_succ_of_lt hi)
  rw [List.take_of_length_le (hends.length_tokens_of_error he').le,
    List.take_of_length_le (h.endsAt.length_tokens_of_error he).le] at htake
  have hfailure := h.endsAt.failure_of_error he
  exact ⟨htake, (hends.failure_of_error he').trans hfailure.symm, d, hfailure, hearly⟩

theorem conclusion_broken (h : lexer.Followed more wall) (hfuel : fuelFor wall 0 ≤ fuel)
    (hex : ¬(lexer.after wall).Exhausted) (pieces : List Piece) :
    let whole := lexer.within #[] pieces
    ∃ d, d.cause.Early ∧
      lexer.conclusion (linesOutcome (lexer.comesTo fuel .scriptLine) fuel .empty 0) =
        .error (.fatal (.located d)) ∧
      whole.conclusion (linesOutcome (whole.comesTo fuel .scriptLine) fuel .empty 0) =
        .error (.fatal (.located d)) := by
  intro whole
  obtain ⟨d, hearly, he, he', hends⟩ := h.item_broken hex pieces
  rcases hresult : lexer.conclusion (linesOutcome (lexer.comesTo fuel .scriptLine) fuel .empty 0)
    with halt | script
  · rcases (h.seam_broken_before hex pieces).lines_error h.regular.of_within h.endsAt
      (Nat.le_refl _)
      hfuel hresult with
      ⟨m, script, hreads⟩ | ⟨hsame, d', rfl, ⟨i, hi, hitem⟩ | hgrammatical⟩ | ⟨n, hn, rfl, hwhole⟩
    · have hle := hreads.le_wall h.endsAt.wall (Nat.zero_le wall)
      exact absurd hle (Nat.not_succ_le_self wall)
    · obtain rfl : i = wall := by
        refine Nat.le_antisymm (Nat.le_of_lt_succ hi) (Nat.le_of_not_lt fun hlt => ?_)
        obtain ⟨t, ht, -⟩ := h.endsAt.not_wall i hlt
        simp [ht] at hitem
      obtain rfl : d = d' := by simpa [he] using hitem
      exact ⟨d, hearly, rfl, hsame⟩
    · exact ⟨d', hgrammatical.early, rfl, hsame⟩
    · rw [h.endsAt.rejection_of_error he hn]
      exact ⟨d, hearly, rfl, by rw [hwhole, hends.rejection_of_error he' hn]⟩
  · exact absurd (h.reads_of_ok hfuel hresult).1 hex

/-! ## A text that is used up -/

/-- All that can be wrong at the end of the lines is that a bracket is open. -/
theorem item_late (h : lexer.Followed more wall) (hex : (lexer.after wall).Exhausted)
    {d : Diagnostic} (hd : lexer.item wall = .error (.located d)) : ¬d.cause.Early := by
  obtain ⟨-, hclosed, hopen⟩ := h.item_exhausted hex
  by_cases hopeners : (lexer.after wall).openers = []
  · obtain ⟨mark, hmark, -⟩ := hclosed hopeners
    simp [hmark] at hd
  · obtain ⟨opener, hopener⟩ := hopen hopeners
    obtain rfl : _ = d := by simpa [hopener] using hd
    exact fun hearly => hearly.2 _ rfl

/-- A line that no rule fits is no error before the end. -/
theorem rejection_late (h : lexer.Followed more wall) (hex : (lexer.after wall).Exhausted)
    (hn : n < wall) {d : Diagnostic} (hd : lexer.rejection (n + 1) = .fatal (.located d)) :
    ¬d.cause.Early := by
  rcases hitem : lexer.item wall with e | _ | mark
  · rw [h.endsAt.rejection_of_error hitem (Nat.lt_succ_of_lt hn)] at hd
    obtain rfl := Halt.fatal.inj hd
    exact h.item_late hex hitem
  · exact absurd hitem (item_ne_none wall)
  · obtain ⟨d', hd', hcause, -⟩ := h.rejection_closed hex hitem hn
    obtain rfl : d' = d := by simpa [hd'] using hd
    exact fun hearly => hearly.1 hcause

theorem toEnd_exhausted (h : lexer.Followed more wall) (hex : (lexer.after wall).Exhausted)
    (he : (lexer.within #[] pieces).item wall = .error e) :
    let whole := lexer.within #[] pieces
    whole.toEnd.tokens = lexer.toEnd.tokens.rdropWhile (·.kind ≠ .newline) ∧
      whole.toEnd.failure = some e ∧
      ∀ d, lexer.toEnd.failure = some (.located d) → ¬d.cause.Early := by
  intro whole
  have hseam := h.seam_exhausted_before hex pieces
  have hends : whole.EndsAt wall := hseam.endsAt_of_error h.endsAt (Nat.le_refl wall) he
  have htake := h.endsAt.take_tokens hends hseam.item_eq
  rw [List.take_of_length_le (hends.length_tokens_of_error he).le] at htake
  -- the last token before the end is the newline of the last line
  have hnewline : (lexer.toEnd.tokens.take wall).rdropWhile (·.kind ≠ .newline) =
      lexer.toEnd.tokens.take wall := by
    obtain ⟨n, t, rfl, ht, hkind⟩ := h.endsAt.newline h.regular h.more_ne_nil h.left hex
    rw [List.take_add_one, (h.endsAt.toEnd_eq.2.2 n t).2 ⟨Nat.le_succ n, ht⟩]
    exact List.rdropWhile_concat_neg _ _ _ (by simp [hkind])
  refine ⟨?_, hends.failure_of_error he,
    fun d hd => h.item_late hex ((h.endsAt.toEnd_eq.2.1 _).1 hd)⟩
  rcases h.endsAt.toEnd_cases with ⟨e', -, -, hlength⟩ | ⟨mark, -, hkind, -, -, htokens⟩
  · rw [List.take_of_length_le hlength.le] at htake hnewline
    exact htake.trans hnewline.symm
  · rw [htokens, List.rdropWhile_concat_pos _ _ _ (by simp [hkind]), hnewline, htake]

/-- When the lines are used up, the error after them is the one of the whole, unless the
grammar complains of one of them. -/
theorem conclusion_exhausted (h : lexer.Followed more wall) (hfuel : fuelFor wall 0 ≤ fuel)
    (hopeners : lexer.openers = []) (hex : (lexer.after wall).Exhausted)
    (he : (lexer.within #[] pieces).item wall = .error e) :
    let result := lexer.conclusion (linesOutcome (lexer.comesTo fuel .scriptLine) fuel .empty 0)
    let whole := lexer.within #[] pieces
    let wholeResult :=
      whole.conclusion (linesOutcome (whole.comesTo fuel .scriptLine) fuel .empty 0)
    (∃ d, d.cause.Early ∧ result = .error (.fatal (.located d)) ∧
      wholeResult = .error (.fatal (.located d))) ∨
    (∀ d, result = .error (.fatal (.located d)) → ¬d.cause.Early) ∧
      wholeResult = .error (.fatal e) := by
  intro result whole wholeResult
  have hseam := h.seam_exhausted_before hex pieces
  have hends : whole.EndsAt wall := hseam.endsAt_of_error h.endsAt (Nat.le_refl wall) he
  rcases hresult : result with halt | script
  · rcases hseam.lines_error h.regular.of_within h.endsAt (Nat.le_succ wall) hfuel hresult with
      ⟨m, script, hreads⟩ | ⟨hsame, d, rfl, ⟨i, hi, hitem⟩ | hgrammatical⟩ | ⟨n, hn, rfl, hwhole⟩
    · simp [result, h.conclusion_of_reads hfuel hopeners hex hreads] at hresult
    · obtain ⟨t, ht, -⟩ := h.endsAt.not_wall i hi
      simp [ht] at hitem
    · exact .inl ⟨d, hgrammatical.early, rfl, hsame⟩
    · refine .inr ⟨fun d hd => h.rejection_late hex hn (Except.error.inj hd), ?_⟩
      exact hwhole.trans (by rw [hends.rejection_of_error he (Nat.lt_succ_of_lt hn)])
  · obtain ⟨-, -, m, hreads⟩ := h.reads_of_ok hfuel hresult
    exact .inr ⟨by simp, hseam.conclusion_of_reads h.endsAt (Nat.le_refl wall) hfuel hreads he⟩

end Followed

end Lexer

/-! ## Texts -/

section

variable {name text : String} {tab : TabStop} {chunk rest : List UInt8}

/-- A text of whole lines is lexed as before up to the bytes that are no text. -/
theorem Lexer.ofSource_within_undecodable (htext : text = "" ∨ text.toList.getLast? = some '\n')
    (h : Undecodable chunk rest) :
    Lexer.ofSource (.ofBytes name (text.toUTF8.data.toList ++ (chunk ++ rest)) tab) =
      (Lexer.ofSource (.ofText name text tab)).within #[] (.undecodable :: Piece.ofBytes rest) := by
  have hlast : ∀ c ∈ text.toList.getLast?, c = '\n' := by
    rcases htext with rfl | htext
    · simp
    · simp [htext]
  simp only [Lexer.ofSource, Lexer.within, Source.ofBytes, Source.ofText, Piece.ofText, utf8_eq,
    Piece.ofBytes_undecodable hlast h]
  rfl

/-- When all lines of a text are used up, the bytes after them are an error at the next line. -/
theorem Lexer.Followed.item_undecodable {more : List Piece} {wall : Nat}
    (h : (Lexer.ofSource (.ofText name text tab)).Followed more wall)
    (hex : ((Lexer.ofSource (.ofText name text tab)).after wall).Exhausted) (pieces : List Piece) :
    ((Lexer.ofSource (.ofText name text tab)).within #[] (.undecodable :: pieces)).item wall =
      .error (.unreadable name ((Text.lines text.toList).length + 1)) := by
  have hsource := (h.regular.of_within.onward (Nat.zero_le wall)).source_eq
  rw [← Nat.add_zero wall, Lexer.item_add,
    h.regular.after_left h.more_ne_nil (fun i hi => h.left_of_lt hi) (.undecodable :: pieces),
    Lexer.item_undecodable hex, hsource, Lexer.lines_size_eq hex]
  rfl

/-- The bytes are an error of the lexer unless it finds one before them. -/
theorem Lexer.toEnd_undecodable (htext : text = "" ∨ text.toList.getLast? = some '\n')
    (pieces : List Piece) :
    let lexer := Lexer.ofSource (.ofText name text tab)
    let scan := lexer.toEnd
    let wholeScan := (lexer.within #[] (.undecodable :: pieces)).toEnd
    (wholeScan.tokens = scan.tokens ∧ wholeScan.failure = scan.failure ∧
      ∃ d, scan.failure = some (.located d) ∧ d.cause.Early) ∨
    wholeScan.tokens = (if text = "" then [] else scan.tokens.rdropWhile (·.kind ≠ .newline)) ∧
      wholeScan.failure = some (.unreadable name ((Text.lines text.toList).length + 1)) ∧
      ∀ d, scan.failure = some (.located d) → ¬d.cause.Early := by
  intro lexer scan wholeScan
  rcases htext with rfl | htext
  · have hex : lexer.Exhausted := ⟨rfl, rfl⟩
    have he := Lexer.item_undecodable hex pieces
    have hfailure : scan.failure = none := (ofSource_derives _ _ (Script.ofSource_nil name tab)).1
    refine .inr ⟨?_, ?_, by simp [hfailure]⟩
    · exact congrArg Scan.tokens (toEnd_of_error he)
    · exact congrArg Scan.failure (toEnd_of_error he)
  · obtain ⟨wall, -, h⟩ := Lexer.followed_ofText name tab htext (show "\n" ≠ "" by decide)
    have hne : text ≠ "" := by
      rintro rfl
      simp at htext
    by_cases hex : (lexer.after wall).Exhausted
    · rw [if_neg hne]
      exact .inr (h.toEnd_exhausted hex (h.item_undecodable hex pieces))
    · exact .inl (h.toEnd_broken hex _)

/-- The bytes are what is wrong with a script unless an error is found before them. -/
theorem Lexer.conclusion_undecodable (htext : text = "" ∨ text.toList.getLast? = some '\n')
    (pieces : List Piece) {fuel : Nat}
    (hfuel : Parser.fuel (.ofLexer (.ofSource (.ofText name text tab))) ≤ fuel) :
    let lexer := Lexer.ofSource (.ofText name text tab)
    let result := lexer.conclusion (linesOutcome (lexer.comesTo fuel .scriptLine) fuel .empty 0)
    let whole := lexer.within #[] (.undecodable :: pieces)
    let wholeResult :=
      whole.conclusion (linesOutcome (whole.comesTo fuel .scriptLine) fuel .empty 0)
    (∃ d, d.cause.Early ∧ result = .error (.fatal (.located d)) ∧
      wholeResult = .error (.fatal (.located d))) ∨
    (∀ d, result = .error (.fatal (.located d)) → ¬d.cause.Early) ∧
      wholeResult =
        .error (.fatal (.unreadable name ((Text.lines text.toList).length + 1))) := by
  intro lexer result whole wholeResult
  rcases htext with rfl | htext
  · have hex : lexer.Exhausted := ⟨rfl, rfl⟩
    have he := Lexer.item_undecodable hex pieces
    obtain ⟨wall, hwall, hends⟩ := lexer.exists_endsAt
    have hseam : lexer.Seam whole 0 :=
      ⟨by simp, fun i hi => by rw [Nat.le_zero.1 hi, after, after, within_blame], by simp⟩
    refine .inr ⟨fun d hd => ?_, ?_⟩
    · have hok : result = .ok .empty :=
        (ofSource_eq_conclusion hfuel).symm.trans (Script.ofSource_nil name tab)
      simp [hok] at hd
    · exact hseam.conclusion_of_reads hends (Nat.zero_le wall)
        ((fuelFor_le_fuel_ofLexer hwall).trans hfuel) (.nil .empty 0) he
  · obtain ⟨wall, hwall, h⟩ := Lexer.followed_ofText name tab htext (show "\n" ≠ "" by decide)
    by_cases hex : (lexer.after wall).Exhausted
    · exact h.conclusion_exhausted (hwall.trans hfuel) rfl hex (h.item_undecodable hex pieces)
    · exact .inl (h.conclusion_broken (hwall.trans hfuel) hex _)

/-- Bytes that are no text are reported at their line and hide nothing of the lines before
them. If the lexer finds an error before the end of those lines, it gives the same tokens
and the same error; otherwise it gives the tokens up to the last newline, none if there are
no lines, and then the error of the bytes. What is wrong with the lines is what is wrong
with the whole, unless it is an open bracket or a line that no rule fits; in all other
cases it is the error of the bytes. -/
theorem Script.ofSource_undecodable (htext : text = "" ∨ text.toList.getLast? = some '\n')
    (h : Undecodable chunk rest) :
    let lines := Source.ofText name text tab
    let whole := Source.ofBytes name (text.toUTF8.data.toList ++ (chunk ++ rest)) tab
    let scan := (Lexer.ofSource lines).toEnd
    let wholeScan := (Lexer.ofSource whole).toEnd
    let e := ScriptError.unreadable name ((Text.lines text.toList).length + 1)
    ((∃ d, scan.failure = some (.located d) ∧ d.cause.Early) →
      wholeScan.tokens = scan.tokens ∧ wholeScan.failure = scan.failure) ∧
    ((∀ d, scan.failure = some (.located d) → ¬d.cause.Early) →
      wholeScan.tokens =
          (if text = "" then [] else scan.tokens.rdropWhile (·.kind ≠ .newline)) ∧
        wholeScan.failure = some e) ∧
    (∀ d, Script.ofSource lines = .error (.fatal (.located d)) → d.cause.Early →
      Script.ofSource whole = .error (.fatal (.located d))) ∧
    ((∀ d, Script.ofSource lines = .error (.fatal (.located d)) → ¬d.cause.Early) →
      Script.ofSource whole = .error (.fatal e)) := by
  intro lines whole scan wholeScan e
  have hwhole : Lexer.ofSource whole =
      (Lexer.ofSource lines).within #[] (.undecodable :: Piece.ofBytes rest) :=
    Lexer.ofSource_within_undecodable htext h
  have hscan : wholeScan = _ := congrArg Lexer.toEnd hwhole
  -- fuel that is enough for the lines and for the whole
  obtain ⟨fuel, hfuel, hfuel'⟩ : ∃ fuel, Parser.fuel (.ofLexer (.ofSource whole)) ≤ fuel ∧
      Parser.fuel (.ofLexer (.ofSource lines)) ≤ fuel :=
    ⟨_, Nat.le_add_right _ _, Nat.le_add_left _ _⟩
  have hresult := ofSource_eq_conclusion hfuel
  rw [hwhole] at hresult
  rw [hscan, hresult, ofSource_eq_conclusion hfuel']
  refine ⟨?_, ?_, ?_, ?_⟩
  · rintro ⟨d, hd, hearly⟩
    rcases Lexer.toEnd_undecodable htext (Piece.ofBytes rest) with ⟨htokens, hfailure, -⟩ |
      ⟨-, -, hnone⟩
    · exact ⟨htokens, hfailure⟩
    · exact absurd hearly (hnone d hd)
  · intro hnone
    rcases Lexer.toEnd_undecodable htext (Piece.ofBytes rest) with
      ⟨-, -, d, hd, hearly⟩ | ⟨htokens, hfailure, -⟩
    · exact absurd hearly (hnone d hd)
    · exact ⟨htokens, hfailure⟩
  · intro d hd hearly
    rcases Lexer.conclusion_undecodable htext (Piece.ofBytes rest) hfuel' with
      ⟨d', -, hd', hsame⟩ | ⟨hnone, -⟩
    · obtain rfl : d' = d := by simpa using hd'.symm.trans hd
      exact hsame
    · exact absurd hearly (hnone d hd)
  · intro hnone
    rcases Lexer.conclusion_undecodable htext (Piece.ofBytes rest) hfuel' with
      ⟨d, hearly, hd, -⟩ | ⟨-, hbytes⟩
    · exact absurd hearly (hnone d hd)
    · exact hbytes

end

/-- A key without a value, and below it bytes that are no text : the lexer comes to the bytes,
and reading the script to the key. -/
theorem Script.ofSource_undecodable_two_lines :
    let d : Diagnostic := { cause := .missingValue, source := "", line := 1, startColumn := 4,
                            endColumn := 5, text := "=", context := some "m k=" }
    let whole := Source.ofBytes "" ("m k=\n".toUTF8.data.toList ++ ([0xff, 0x0a] ++ [0x6d]))
    Undecodable [0xff, 0x0a] [0x6d] ∧
      Script.ofSource (.ofText "" "m k=\n") = .error (.fatal (.located d)) ∧
      Script.ofSource whole = .error (.fatal (.located d)) ∧
      (Lexer.ofSource whole).toEnd.tokens.length = 4 ∧
      (Lexer.ofSource whole).toEnd.failure = some (.unreadable "" 2) := by
  intro d whole
  have hbytes : Undecodable [0xff, 0x0a] [0x6d] :=
    ⟨no_text_iff.2 (by decide), by decide, .inl rfl⟩
  have herror : Script.ofSource (.ofText "" "m k=\n") = .error (.fatal (.located d)) := by
    rw [Script.ofSource_eq_verdict]
    decide +kernel
  have hfailure : (Lexer.ofSource (.ofText "" "m k=\n")).toEnd.failure = none := by decide +kernel
  have htokens : ((Lexer.ofSource (.ofText "" "m k=\n")).toEnd.tokens.rdropWhile
      (·.kind ≠ .newline)).length = 4 := by decide +kernel
  obtain ⟨-, hscan, hearly, -⟩ :=
    @Script.ofSource_undecodable "" "m k=\n" default [0xff, 0x0a] [0x6d] (by decide) hbytes
  obtain ⟨hlist, hbad⟩ := hscan (by simp [hfailure])
  exact ⟨hbytes, herror, hearly d herror (by simp [Cause.Early, d]),
    (congrArg List.length hlist).trans htokens, hbad⟩

/-- Without a line before the bytes the lexer gives no token, although it gives a newline
for a script without lines. -/
theorem Lexer.toEnd_undecodable_no_lines :
    let scan := (Lexer.ofSource (.ofText "" "")).toEnd
    let wholeScan := (Lexer.ofSource (.ofBytes "" ("".toUTF8.data.toList ++ ([0xff] ++ [])))).toEnd
    Undecodable [0xff] [] ∧ scan.failure = none ∧
      scan.tokens.rdropWhile (·.kind ≠ .newline) = [.synthetic .newline 1 1] ∧
      wholeScan.tokens = [] ∧ wholeScan.failure = some (.unreadable "" 1) ∧
      wholeScan.tokens ≠ scan.tokens.rdropWhile (·.kind ≠ .newline) := by
  have hbytes : Undecodable [0xff] [] := ⟨no_text_iff.2 (by decide), by decide, .inr rfl⟩
  have hfailure : (Lexer.ofSource (.ofText "" "")).toEnd.failure = none := by decide +kernel
  have htokens : (Lexer.ofSource (.ofText "" "")).toEnd.tokens.rdropWhile (·.kind ≠ .newline) =
      [.synthetic .newline 1 1] := by decide +kernel
  have hnone :
      (Lexer.ofSource (.ofBytes "" ("".toUTF8.data.toList ++ ([0xff] ++ [])))).toEnd.tokens =
      [] := by decide +kernel
  have hbad :
      (Lexer.ofSource (.ofBytes "" ("".toUTF8.data.toList ++ ([0xff] ++ [])))).toEnd.failure =
      some (.unreadable "" 1) := by decide +kernel
  refine ⟨hbytes, hfailure, htokens, hnone, hbad, ?_⟩
  rw [htokens, hnone]
  exact (List.cons_ne_nil _ _).symm

end OpticScript
