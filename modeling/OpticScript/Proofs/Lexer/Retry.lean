import OpticScript.Proofs.Lexer.Nesting
import OpticScript.Proofs.Lexer.Scanned

/-!
# Asking again after an error

A lexer that has refused a text stands in front of it, so what it is asked next is about the same
text (`nextTokenFrom_located`). An illegal character, a number that is too large and an open bracket
at the end are refused again, and nothing changes. A closing bracket that does not fit has used up
the bracket that it was compared with : asked again it is compared with the next one, and it is
taken as soon as it fits (`AtBracket.asked_refuses`, `AtBracket.asked_takes`).

So the lexer goes on refusing the text if and only if none of the brackets that are still open is
one that the text closes (`Lexer.nextToken_refused`).
-/

namespace OpticScript

/-- The kind of the bracket that a refused closing bracket closes. -/
def Cause.closes? : Cause → Option TokenKind
  | .extraneous bracket =>
    if bracket = ")" then some .leftParen else if bracket = "]" then some .leftBracket else none
  | _ => none

namespace Lexer

/-- The lexer after so many requests, whatever the answers to them are. -/
def asked : Nat → Lexer → Lexer
  | 0, lexer => lexer
  | n + 1, lexer => asked n lexer.nextToken.2

variable {lexer start after : Lexer} {c : Char} {tail : List Char} {d : Diagnostic}

/-! ## The place of an error -/

theorem skipBlanks_withOpeners (h : start.skipBlanks = start) (openers : List Token) :
    { start with openers }.skipBlanks = { start with openers } :=
  congrArg (fun lexer : Lexer => { lexer with openers }) h

/-- An error in the text is found where the text is scanned, or where it ends. -/
theorem nextTokenFrom_located (pieces : List Piece) (hunread : lexer.unread = pieces)
    (h : nextTokenFrom pieces lexer = (.error (.located d), after)) :
    ∃ start : Lexer, start.skipBlanks = start ∧ start.line = lexer.line ∧
      start.openers = lexer.openers ∧
      ((∃ c tail, start.rest = c :: tail ∧ start.scan c = (.error (.located d), after)) ∨
        start.rest = [] ∧ start.unread = [] ∧ start.finish = (.error (.located d), after)) := by
  obtain ⟨start, ⟨hline, hopeners⟩, hblanks, ⟨c, tail, hrest, hreply⟩ | ⟨hrest, hunread, hreply⟩ |
      ⟨more, -, -, hreply⟩⟩ :=
    nextTokenFrom_cases (P := fun start => start.line = lexer.line ∧ start.openers = lexer.openers)
      (fun _ h => h) (fun _ _ _ h _ _ => h) pieces hunread ⟨rfl, rfl⟩
  · exact ⟨start, hblanks, hline, hopeners, .inl ⟨c, tail, hrest, hreply.symm.trans h⟩⟩
  · exact ⟨start, hblanks, hline, hopeners, .inr ⟨hrest, hunread, hreply.symm.trans h⟩⟩
  · have heq := hreply.symm.trans h
    simp at heq

theorem nextToken_of_cons (hblanks : start.skipBlanks = start) (hrest : start.rest = c :: tail) :
    start.nextToken = start.scan c := by
  rw [← hblanks] at hrest
  rw [nextToken, nextTokenFrom_of_cons _ hrest, hblanks]

theorem nextToken_of_nil (hblanks : start.skipBlanks = start) (hrest : start.rest = [])
    (hunread : start.unread = []) : start.nextToken = start.finish := by
  rw [← hblanks] at hrest
  rw [nextToken, hunread, nextTokenFrom_nil hrest, hblanks]

/-! ## Closing brackets -/

/-- The lexer stands in front of a closing bracket, which it compares with the open ones. -/
structure AtBracket (lexer : Lexer) (token : Token) (text : List Char)
    (opener : TokenKind) : Prop where
  nextToken : ∀ openers, { lexer with openers }.nextToken =
    { lexer with openers }.close token text opener
  closes : (Cause.extraneous token.text).closes? = some opener

/-- A closing bracket is spelled as one. -/
theorem closes_of_scan {text : List Char} {lexeme : Lexeme} {opener : TokenKind}
    (h : Lexeme.scan? text = some lexeme) (hkind : lexeme.kind.opener? = some opener) :
    (Cause.extraneous (String.ofList (text.take lexeme.size))).closes? = some opener := by
  have hspelling : (text.take lexeme.size, lexeme.kind) ∈ TokenKind.punctuation := by
    rcases Lexeme.scan_cases h with hother | ⟨hname, -⟩ | hmark
    · simp only [List.mem_cons, List.not_mem_nil, or_false] at hother
      rcases hother with hother | hother | hother | hother <;>
        simp [hother, TokenKind.opener?] at hkind
    · simp [hname, TokenKind.opener?] at hkind
    · exact hmark
  have hclosing : ∀ entry ∈ TokenKind.punctuation, ∀ opener, entry.2.opener? = some opener →
      (Cause.extraneous (String.ofList entry.1)).closes? = some opener := by
    simp [TokenKind.punctuation, TokenKind.opener?, Cause.closes?]
  exact hclosing _ hspelling opener hkind

theorem accept_of_opener {token : Token} {opener : TokenKind} (h : token.kind.opener? = some opener)
    (lexer : Lexer) (text : List Char) :
    lexer.accept token text = lexer.close token text opener := by
  unfold accept
  split <;> simp_all [TokenKind.opener?]

theorem accept_of_not_closing {token : Token} (h : token.kind.opener? = none) (lexer : Lexer)
    (text : List Char) : (lexer.accept token text).1 = .ok token := by
  unfold accept
  split <;> simp_all [TokenKind.opener?]

theorem refuse_located {cause : Cause} {token : Token}
    (h : lexer.refuse cause token = (.error (.located d), after)) :
    d = lexer.blame cause token ∧ after = lexer := by
  simp only [refuse, Prod.mk.injEq, Except.error.injEq, ScriptError.located.injEq] at h
  exact ⟨h.1.symm, h.2.symm⟩

/-- A text that is refused is no closing bracket, and then the lexer stays where it is, or it is one
that the open brackets are compared with. -/
theorem scan_located (hblanks : start.skipBlanks = start) (hrest : start.rest = c :: tail)
    (h : start.scan c = (.error (.located d), after)) :
    d.cause.closes? = none ∧ after = start ∨
      ∃ token text opener, start.AtBracket token text opener ∧
        start.close token text opener = (.error (.located d), after) := by
  rcases hscan : Lexeme.scan? start.rest with _ | lexeme
  · obtain ⟨rfl, rfl⟩ := refuse_located ((scan_of_none hscan c).symm.trans h)
    exact .inl ⟨rfl, rfl⟩
  rcases hliteral : Lexeme.literal? lexeme.kind (start.rest.take lexeme.size) with _ | literal
  · obtain ⟨rfl, rfl⟩ := refuse_located ((scan_of_no_literal hscan hliteral c).symm.trans h)
    exact .inl ⟨rfl, rfl⟩
  let token := (start.tokenHere lexeme.kind (start.rest.take lexeme.size)).withLiteral literal
  have haccept : ∀ openers, { start with openers }.scan c =
      { start with openers }.accept token (start.rest.take lexeme.size) := fun openers =>
    @scan_of_literal { start with openers } lexeme literal hscan hliteral c
  rcases hopener : token.kind.opener? with _ | opener
  · have htaken := accept_of_not_closing hopener start (start.rest.take lexeme.size)
    rw [← haccept start.openers, h] at htaken
    simp at htaken
  · refine .inr ⟨token, start.rest.take lexeme.size, opener,
      ⟨fun openers => ?_, closes_of_scan hscan hopener⟩, ?_⟩
    · rw [nextToken_of_cons (skipBlanks_withOpeners hblanks openers) hrest, haccept,
        accept_of_opener hopener]
    · rw [← accept_of_opener hopener, ← haccept start.openers]
      exact h

theorem close_located {token : Token} {text : List Char} {opener : TokenKind}
    (h : lexer.close token text opener = (.error (.located d), after)) :
    d = lexer.blame (.extraneous token.text) token ∧
      after = { lexer with openers := lexer.openers.tail } ∧
      ∀ t ∈ lexer.openers.head?, t.kind ≠ opener := by
  rw [close] at h
  rcases hopeners : lexer.openers with _ | ⟨innermost, outer⟩
  · rw [hopeners] at h
    obtain ⟨rfl, rfl⟩ := refuse_located h
    exact ⟨rfl, by rw [List.tail_nil, ← hopeners], by simp⟩
  · simp only [hopeners] at h
    split at h
    · simp at h
    · obtain ⟨rfl, rfl⟩ := refuse_located h
      exact ⟨rfl, rfl, by simpa⟩

namespace AtBracket

variable {token : Token} {text : List Char} {opener : TokenKind} {openers : List Token}

/-- What a closing bracket is compared with is used up. -/
theorem nextToken_refuses (h : lexer.AtBracket token text opener)
    (hmisfit : ∀ t ∈ openers.head?, t.kind ≠ opener) :
    { lexer with openers }.nextToken =
      (.error (.located (lexer.blame (.extraneous token.text) token)),
      { lexer with openers := openers.tail }) := by
  rw [h.nextToken, close]
  rcases openers with _ | ⟨innermost, outer⟩
  · rfl
  · dsimp only
    rw [if_neg (hmisfit innermost rfl)]
    rfl

/-- A closing bracket is refused as long as no open bracket fits. -/
theorem asked_refuses (h : lexer.AtBracket token text opener)
    (hmisfit : ∀ t ∈ openers, t.kind ≠ opener)
    (n : Nat) : ∃ openers', (({ lexer with openers } : Lexer).asked n).nextToken =
      (.error (.located (lexer.blame (.extraneous token.text) token)),
        { lexer with openers := openers' }) := by
  have hnext := h.nextToken_refuses fun t ht => hmisfit t (List.mem_of_mem_head? ht)
  induction n generalizing openers with
  | zero => exact ⟨_, hnext⟩
  | succ n ih =>
    have htail : ∀ t ∈ openers.tail, t.kind ≠ opener :=
      fun t ht => hmisfit t (List.mem_of_mem_tail ht)
    rw [asked, hnext]
    exact ih htail (h.nextToken_refuses fun t ht => htail t (List.mem_of_mem_head? ht))

/-- A closing bracket is taken when it has come to an open bracket that fits. -/
theorem asked_takes (h : lexer.AtBracket token text opener) {fits : Token} (hfits : fits ∈ openers)
    (hkind : fits.kind = opener) :
    ∃ n, (({ lexer with openers } : Lexer).asked n).nextToken.1 = .ok token := by
  induction openers with
  | nil => simp at hfits
  | cons innermost outer ih =>
    by_cases hinnermost : innermost.kind = opener
    · refine ⟨0, ?_⟩
      rw [asked, h.nextToken, close]
      simp [hinnermost]
    · rcases List.mem_cons.1 hfits with rfl | houter
      · exact absurd hkind hinnermost
      · obtain ⟨n, hn⟩ := ih houter
        have hmisfit : ∀ t ∈ (innermost :: outer).head?, t.kind ≠ opener := by
          simpa using hinnermost
        exact ⟨n + 1, by rwa [asked, h.nextToken_refuses hmisfit]⟩

end AtBracket

/-! ## Asking again -/

/-- The error is given again on every further request. -/
theorem asked_stays (h : lexer.nextToken = (.error (.located d), lexer)) (n : Nat) :
    (lexer.asked n).nextToken = (.error (.located d), lexer) := by
  induction n with
  | zero => exact h
  | succ n ih => rwa [asked, h]

/-- A refusal other than that of a closing bracket leaves the lexer in front of the text. -/
theorem finish_located (h : lexer.finish = (.error (.located d), after)) :
    d.cause.closes? = none ∧ after = lexer := by
  obtain ⟨opener, -, heq⟩ | ⟨-, -, heq⟩ | ⟨-, -, heq⟩ := lexer.finish_cases <;> rw [heq] at h
  · obtain ⟨rfl, rfl⟩ := refuse_located h
    exact ⟨rfl, rfl⟩
  · simp at h
  · simp at h

/-- A lexer that has refused a text stands in front of it. The error is given again on every further
request if and only if no bracket that is still open is one that the text closes. The lexer is as it
was but for the innermost open bracket, and that is gone if the text is a closing bracket that does
not fit it. -/
theorem nextToken_refused (h : lexer.nextToken = (.error (.located d), after)) :
    after.line = lexer.line ∧
      (after.openers = lexer.openers ∧
        (∀ n, (after.asked n).nextToken = (.error (.located d), after)) ∨
        ∃ innermost opener, lexer.openers = innermost :: after.openers ∧
          d.cause.closes? = some opener ∧ innermost.kind ≠ opener) ∧
      ((∀ n, ∃ openers, (after.asked n).nextToken = (.error (.located d), { after with openers })) ↔
        ∀ t ∈ after.openers, d.cause.closes? ≠ some t.kind) := by
  obtain ⟨start, hblanks, hline, hopeners, hplace⟩ := nextTokenFrom_located _ rfl h
  have hcases :
      (d.cause.closes? = none ∧ after = start ∧ start.nextToken = (.error (.located d), after)) ∨
      ∃ token text opener, start.AtBracket token text opener ∧
        start.close token text opener = (.error (.located d), after) := by
    rcases hplace with ⟨c, tail, hrest, hscan⟩ | ⟨hrest, hunread, hfinish⟩
    · rcases scan_located hblanks hrest hscan with ⟨hcause, hafter⟩ | hbracket
      · exact .inl ⟨hcause, hafter, (nextToken_of_cons hblanks hrest).trans hscan⟩
      · exact .inr hbracket
    · obtain ⟨hcause, hafter⟩ := finish_located hfinish
      exact .inl ⟨hcause, hafter, (nextToken_of_nil hblanks hrest hunread).trans hfinish⟩
  rw [← hline, ← hopeners]
  rcases hcases with ⟨hcause, rfl, hnext⟩ | ⟨token, text, opener, hat, hclose⟩
  · have hstays := asked_stays hnext
    exact ⟨rfl, .inl ⟨rfl, hstays⟩, by simp [hcause], fun _ n => ⟨_, hstays n⟩⟩
  · obtain ⟨rfl, rfl, hmisfit⟩ := close_located hclose
    refine ⟨rfl, ?_, fun hagain t ht hkind => ?_, fun hnone => ?_⟩
    · rcases hstart : start.openers with _ | ⟨innermost, outer⟩
      · exact .inl ⟨rfl, asked_stays (hat.nextToken_refuses (by simp))⟩
      · exact .inr ⟨innermost, opener, rfl, hat.closes, hmisfit innermost (by simp [hstart])⟩
    · obtain ⟨n, hn⟩ := hat.asked_takes ht (Option.some.inj (hkind.symm.trans hat.closes))
      obtain ⟨openers, hrefused⟩ := hagain n
      simp [hrefused] at hn
    · exact hat.asked_refuses fun t ht hkind => hnone t ht (hkind ▸ hat.closes)

/-- A lexer in front of a parenthesis, with a square bracket open inside of another parenthesis. -/
def atMisfit : Lexer := (ofSource (.ofText "" "([)")).asked 2

/-- The error at that parenthesis. -/
def misfit : Diagnostic :=
  { cause := .extraneous ")", source := "", line := 1, startColumn := 3, endColumn := 4,
    text := ")", context := some "([)" }

/-- A parenthesis that does not fit the square bracket is refused, but not for ever. -/
theorem nextToken_refused_misfit :
    atMisfit.nextToken.1 = .error (.located misfit) ∧
      atMisfit.nextToken.2.openers.length + 1 = atMisfit.openers.length ∧
      ¬∀ n, ∃ openers, (atMisfit.nextToken.2.asked n).nextToken =
        (.error (.located misfit), { atMisfit.nextToken.2 with openers }) := by
  have h : atMisfit.nextToken.1 = .error (.located misfit) := by decide +kernel
  have hlength : atMisfit.nextToken.2.openers.length + 1 = atMisfit.openers.length := by
    decide +kernel
  have hkinds : atMisfit.nextToken.2.openers.map Token.kind = [.leftParen] := by decide +kernel
  obtain ⟨t, ht, hkind⟩ := List.mem_map.1 (hkinds ▸ List.mem_singleton.2 rfl)
  obtain ⟨-, -, hagain⟩ := nextToken_refused (Prod.ext h rfl)
  exact ⟨h, hlength, fun hfails => hagain.1 hfails t ht (hkind ▸ rfl)⟩

/-- Asked again, the lexer takes the parenthesis that it has refused. -/
theorem refused_then_taken :
    atMisfit.nextToken.1 = .error (.located misfit) ∧
      atMisfit.nextToken.2.nextToken.1 = .ok (.ofText .rightParen ")" 1 3 4) := by
  constructor <;> decide +kernel

end Lexer

end OpticScript
