import OpticScript.Proofs.Lexer.Pieces
import OpticScript.Proofs.Script.Rendering
import OpticScript.Proofs.Script.Spelled

/-!
# Motions

A motion is a word of motion codes, a group of motions in brackets, one in braces with a repeat
count, or two motions one after the other (`Motion`). It may be rendered with blanks between any
two tokens, and has to have some between two words (`Motion.Renders`).

The symbols of a rendering do not tell the blanks (`Motion.Renders.spelling`), and an action is
derived from them whose codes are those of the words and groups in their order, with the counts in
plain decimal (`Motion.derives`). So a line with a rendered motion behind its directive is read as
a command with that action for its only parameter (`Script.ofText_motion`).
-/

namespace OpticScript

open Lexeme

/-! ## Motions -/

/-- The digits of a repeat count that an integer has; a zero comes first only if all of them are
zeros. -/
structure RepeatCount where
  digits : List Char
  ne_nil : digits ≠ []
  isDigit : ∀ c ∈ digits, c.isDigit = true
  zeros : digits.head? = some '0' → ∀ c ∈ digits, c = '0'
  value_lt : Decimal.ofDigits digits < Number.integerLimit

/-- Words of motion codes and groups, nested and one after the other. -/
inductive Motion where
  | word (codes : String) (h : IsMotionWord codes)
  | group (b : Bracket) (inner : Motion)
  | repeated (inner : Motion) (count : RepeatCount)
  | join (first second : Motion)

namespace RepeatCount

def value (count : RepeatCount) : Nat := Decimal.ofDigits count.digits

def symbol (count : RepeatCount) : Symbol :=
  { kind := .number, text := String.ofList count.digits, literal := .number (.integer count.value) }

end RepeatCount

namespace Motion

/-- The spelling without blanks, with the counts in plain decimal. -/
def codes : Motion → String
  | word codes _ => codes
  | group b inner => b.opening.text ++ inner.codes ++ b.closing.text
  | repeated inner count =>
    Bracket.brace.opening.text ++ inner.codes ++ Bracket.brace.closing.text ++ toString count.value
  | join first second => first.codes ++ second.codes

def symbols : Motion → List Symbol
  | word codes _ => [.name codes]
  | group b inner => b.opening :: inner.symbols ++ [b.closing]
  | repeated inner count => Bracket.brace.opening :: inner.symbols ++
    [Bracket.brace.closing, count.symbol]
  | join first second => first.symbols ++ second.symbols

/-- Whether the first token is a word. -/
def beginsInWord : Motion → Bool
  | word _ _ => true
  | group _ _ => false
  | repeated _ _ => false
  | join first _ => first.beginsInWord

/-- Whether the last token is a word. -/
def endsInWord : Motion → Bool
  | word _ _ => true
  | group _ _ => false
  | repeated _ _ => false
  | join _ second => second.endsInWord

/-- The texts of the motion : blanks may come before each token, and one has to come between two
words. -/
inductive Renders : Motion → List Char → Prop
  | word {codes : String} (h : IsMotionWord codes) : Renders (.word codes h) codes.toList
  | blank {m : Motion} {c : Char} {text : List Char} (hc : Lexer.isBlank c = true)
    (h : Renders m text) : Renders m (c :: text)
  | group {inner : Motion} {text gap : List Char} (b : Bracket) (h : Renders inner text)
      (hgap : ∀ c ∈ gap, Lexer.isBlank c = true) :
      Renders (.group b inner) (b.opening.text.toList ++ text ++ gap ++ b.closing.text.toList)
  | repeated {inner : Motion} {text gap gap' : List Char} (h : Renders inner text)
      (hgap : ∀ c ∈ gap, Lexer.isBlank c = true) (count : RepeatCount)
      (hgap' : ∀ c ∈ gap', Lexer.isBlank c = true) :
      Renders (.repeated inner count) (Bracket.brace.opening.text.toList ++ text ++ gap ++
        Bracket.brace.closing.text.toList ++ gap' ++ count.digits)
  | join {first second : Motion} {text text' : List Char} (h : Renders first text)
    (h' : Renders second text')
      (hwords : first.endsInWord = true → second.beginsInWord = true →
        ∃ c ∈ text'.head?, Lexer.isBlank c = true) :
      Renders (.join first second) (text ++ text')

/-! ## The symbols of a rendering -/

/-- The text does not go on with the last token of the motion. -/
def EndsBefore : Motion → List Char → Prop
  | word _ _, rest => EndsWord rest
  | group _ _, _ => True
  | repeated _ _, rest => EndsNumeral rest
  | join _ second, rest => second.EndsBefore rest

section

variable {m first second : Motion} {text rest gap : List Char} {symbols : List Symbol} {c : Char}

theorem endsBefore_of (hword : m.endsInWord = true → EndsWord rest) (hcount : EndsNumeral rest) :
    m.EndsBefore rest := by
  induction m with
  | word => exact hword rfl
  | group => trivial
  | repeated => exact hcount
  | join _ second _ ih => exact ih hword

theorem endsBefore_of_endsWord (h : EndsWord rest) : m.EndsBefore rest :=
  endsBefore_of (fun _ => h) h.endsNumeral

theorem not_isWordChar_of_isBlank (hc : Lexer.isBlank c = true) : isWordChar c = false := by
  rcases (by simpa [Lexer.isBlank] using hc : c = ' ' ∨ c = '\t') with rfl | rfl <;> rfl

theorem endsWord_blanks (hgap : ∀ c ∈ gap, Lexer.isBlank c = true) : EndsWord gap := fun c hc =>
  not_isWordChar_of_isBlank (hgap c (List.mem_of_mem_head? hc))

/-- A rendering begins with a blank or a bracket, or else with a motion code. -/
theorem Renders.head (h : m.Renders text) : ∃ c, text.head? = some c ∧
    (isWordChar c = false ∨ m.beginsInWord = true ∧ Lexer.isBlank c = false ∧ ∀ rest,
      EndsNumeral (c :: rest)) := by
  have hcode : ∀ c ∈ ['c', 'd', 'h', 'i', 'n', 'r', 's', 't', 'v'],
      Lexer.isBlank c = false ∧ c.isDigit = false ∧ c ≠ '.' ∧ c ≠ 'e' ∧ c ≠ 'E' := by
        simp [Lexer.isBlank]
  induction h with
  | @word codes hcodes =>
    obtain ⟨c, tail, heq⟩ := List.exists_cons_of_ne_nil (mt String.toList_eq_nil_iff.1 hcodes.1)
    obtain ⟨hblank, hends⟩ := hcode c (hcodes.2 c (heq ▸ List.mem_cons_self))
    exact ⟨c, by rw [heq, List.head?_cons],
      .inr ⟨rfl, hblank, fun _ d hd => Option.some.inj hd ▸ hends⟩⟩
  | blank hc => exact ⟨_, rfl, .inl (not_isWordChar_of_isBlank hc)⟩
  | group b => cases b <;> exact ⟨_, rfl, .inl rfl⟩
  | repeated => exact ⟨_, rfl, .inl rfl⟩
  | join _ _ _ ih _ =>
    obtain ⟨c, hhead, hc⟩ := ih
    exact ⟨c, by rw [List.head?_append, hhead, Option.some_or], hc⟩

/-- A motion does not run into one behind it. -/
theorem Renders.endsBefore (h : second.Renders text)
    (hwords : first.endsInWord = true → second.beginsInWord = true → ∃ c ∈ text.head?,
      Lexer.isBlank c = true)
    (rest : List Char) : first.EndsBefore (text ++ rest) := by
  obtain ⟨c, hhead, hc⟩ := h.head
  obtain ⟨tail, rfl⟩ := List.head?_eq_some_iff.1 hhead
  rcases hc with hword | ⟨hbegins, hblank, hnumeral⟩
  · exact endsBefore_of_endsWord (endsWord_cons hword _)
  · refine endsBefore_of (fun hends => ?_) (hnumeral _)
    obtain ⟨d, hd, hblank'⟩ := hwords hends hbegins
    obtain rfl : c = d := by simpa using hd
    simp [hblank] at hblank'

end

end Motion

theorem Spelling.blanks {gap text : List Char} {symbols : List Symbol}
    (hgap : ∀ c ∈ gap, Lexer.isBlank c = true) (h : Spelling text symbols) :
    Spelling (gap ++ text) symbols := by
  induction gap with
  | nil => exact h
  | cons c gap ih =>
    obtain ⟨hc, hgap⟩ := List.forall_mem_cons.1 hgap
    exact (ih hgap).blank hc

theorem RepeatCount.scans (count : RepeatCount) {rest : List Char} (hrest : EndsNumeral rest) :
    count.symbol.Scans rest := by
  have hsize := numeralSize_digits count.ne_nil count.isDigit count.zeros hrest
  obtain ⟨c, tail, heq⟩ := List.exists_cons_of_ne_nil count.ne_nil
  have hdigit : c.isDigit = true := count.isDigit c (heq ▸ List.mem_cons_self)
  refine ⟨fun d hd => ?_, ?_, ?_⟩
  · have hd : d.isDigit = true := count.isDigit d (by simpa [symbol] using hd)
    refine Text.isLineBreak_eq_false.2 ⟨?_, ?_⟩ <;> (rintro rfl; simp at hd)
  · rw [heq] at hsize
    simpa [symbol, heq] using scan_numeral (.inl hdigit) hsize
  · simp [symbol, value, literal?, numeralValue_digits count.isDigit, count.value_lt]

/-- A rendered motion is spelled with its symbols. -/
theorem Motion.Renders.spelling {m : Motion} {text rest : List Char} {symbols : List Symbol}
    (h : m.Renders text) (hrest : Spelling rest symbols) (hends : m.EndsBefore rest) :
    Spelling (text ++ rest) (m.symbols ++ symbols) := by
  -- what a group holds, up to its closing bracket
  have hgroup : ∀ {inner : Motion} {text gap rest : List Char} {symbols : List Symbol}
    (b : Bracket), (inner.EndsBefore gap → Spelling (text ++ gap) (inner.symbols ++ [])) →
      (∀ c ∈ gap, Lexer.isBlank c = true) → Spelling rest symbols →
      Spelling (b.opening.text.toList ++ text ++ gap ++ b.closing.text.toList ++ rest)
        (b.opening :: inner.symbols ++ b.closing :: symbols) := by
    intro inner text gap rest symbols b hinner hgap hrest
    have hspelling := hinner (endsBefore_of_endsWord (endsWord_blanks hgap))
    rw [List.append_nil] at hspelling
    simpa using hspelling.group b hrest
  induction h generalizing rest symbols with
  | @word codes hcodes =>
    exact .cons ⟨rfl, rfl⟩
      (fun _ hmore => Symbol.scans_name hcodes.isWord (Spelling.endsWord_append hends hmore)) hrest
  | blank hc _ ih => exact (ih hrest hends).blank hc
  | @group inner text gap b _ hgap ih =>
    have hblanks : Spelling gap [] := by simpa using Spelling.nil.blanks hgap
    simpa [Motion.symbols] using hgroup b (ih hblanks) hgap hrest
  | @repeated inner text gap gap' _ hgap count hgap' ih =>
    have hblanks : Spelling gap [] := by simpa using Spelling.nil.blanks hgap
    have hcount : Spelling (count.digits ++ rest) (count.symbol :: symbols) := by
      have hscans : ∀ more, EndsWord more →
          count.symbol.Scans (rest ++ more) := fun more hmore => by
        refine count.scans ?_
        rcases rest with _ | ⟨c, rest⟩
        · exact hmore.endsNumeral
        · exact hends
      simpa [RepeatCount.symbol] using Spelling.cons ⟨rfl, rfl⟩ hscans hrest
    simpa [Motion.symbols] using hgroup .brace (ih hblanks) hgap (hcount.blanks hgap')
  | @join first second text text' _ h' hwords ih ih' =>
    have hmore := ih (ih' hrest hends) (h'.endsBefore hwords rest)
    simpa [Motion.symbols] using hmore

/-! ## The action of a motion -/

/-- The symbols of a motion are an action with its codes. -/
theorem Motion.derives (m : Motion) {tokens : List Token}
    (htokens : tokens.map Token.symbol = m.symbols)
    (rest : List Token) : DerivesAction (tokens ++ rest) rest m.codes := by
  induction m generalizing tokens rest with
  | word codes hcodes =>
    obtain ⟨t, rfl, ht⟩ := List.map_eq_singleton_iff.1 htokens
    obtain rfl : t.text = codes := congrArg Symbol.text ht
    exact .codes (congrArg Symbol.kind ht) hcodes
  | group b inner ih =>
    obtain ⟨first, last, rfl, hfirst, hlast⟩ := List.map_eq_append_iff.1 htokens
    obtain ⟨left, contents, rfl, hleft, hcontents⟩ := List.map_eq_cons_iff.1 hfirst
    obtain ⟨right, rfl, hright⟩ := List.map_eq_singleton_iff.1 hlast
    have hinner := ih hcontents (right :: rest)
    have hopen : left.kind = b.opening.kind := congrArg Symbol.kind hleft
    have hclose : right.kind = b.closing.kind := congrArg Symbol.kind hright
    have hopening : left.text = b.opening.text := congrArg Symbol.text hleft
    have hclosing : right.text = b.closing.text := congrArg Symbol.text hright
    rw [codes, ← hopening, ← hclosing]
    simp only [List.cons_append, List.append_assoc, List.nil_append]
    cases b with
    | brace => simpa using DerivesAction.braces hopen hinner hclose (.nothing rest)
    | bracket => exact .brackets hopen hinner hclose
    | paren => exact .parens hopen hinner hclose
  | repeated inner count ih =>
    obtain ⟨first, last, rfl, hfirst, hlast⟩ := List.map_eq_append_iff.1 htokens
    obtain ⟨left, contents, rfl, hleft, hcontents⟩ := List.map_eq_cons_iff.1 hfirst
    obtain ⟨right, counts, rfl, hright, hcounts⟩ := List.map_eq_cons_iff.1 hlast
    obtain ⟨number, rfl, hnumber⟩ := List.map_eq_singleton_iff.1 hcounts
    have hopening : left.text = Bracket.brace.opening.text := congrArg Symbol.text hleft
    have hclosing : right.text = Bracket.brace.closing.text := congrArg Symbol.text hright
    have hvalue : number.number? = some (.integer count.value) := by
      rw [Token.number?, show number.literal = _ from congrArg Symbol.literal hnumber]
      rfl
    rw [codes, ← hopening, ← hclosing]
    simp only [List.cons_append, List.append_assoc, List.nil_append]
    exact .braces (congrArg Symbol.kind hleft) (ih hcontents (right :: number :: rest))
      (congrArg Symbol.kind hright) (.count (congrArg Symbol.kind hnumber) hvalue)
  | join first second ih ih' =>
    obtain ⟨tokens, tokens', rfl, hfirst, hsecond⟩ := List.map_eq_append_iff.1 htokens
    rw [List.append_assoc]
    exact .join (ih hfirst (tokens' ++ rest)) (ih' hsecond rest)

/-! ## Lines -/

/-- The symbols of a motion are read as an action with its codes. -/
theorem Motion.readsFrom (m : Motion) : (Value.action m.codes).ReadsFrom m.symbols := by
  intro items pos hshows hends
  obtain ⟨tokens, htokens, hlists⟩ := shows_iff_lists.1 hshows
  obtain ⟨next, hitem, -⟩ := id hends
  rw [← htokens, List.length_map] at hitem hends ⊢
  obtain ⟨stop, -, hlength, -, hmatches⟩ :=
    (m.derives htokens [next]).matches_action (lists_append.2 ⟨hlists, hitem, trivial⟩)
  obtain rfl : stop = pos + tokens.length := by
    rw [List.length_append] at hlength
    omega
  exact matches_value_action (hmatches hends.valueEnds.actionEnds)

/-- The symbols of a motion, with nothing behind them, are read as the parameters of a line. -/
theorem Motion.matches_params (m : Motion) {items : Nat → Except ScriptError (Option Token)}
    {pos : Nat}
    (hshows : Shows items pos m.symbols)
    (hend : Sees items (pos + m.symbols.length) (· = .newline)) :
    Rule.commandParams.Matches items pos (some { args := [.action m.codes], keywords := .empty })
      (pos + m.symbols.length) :=
  (ReadsParams.values (.one m.readsFrom)).matches_params hshows
    (hend.imp fun _ heq => by simp [heq])
    (.nothing (hend.imp fun _ heq => by simp [heq]))

/-- A line with a directive and a motion in any rendering is read as a command whose only parameter
is an action : the words and groups of the motion with nothing dropped, repeated or reordered. -/
theorem Script.ofText_motion (name : String) {directive : String}
    (hdirective : IsWord directive.toList)
    {m : Motion} {text gap : List Char} (h : m.Renders text)
    (hgap : ∀ c ∈ gap, Lexer.isBlank c = true) (e : Option LineEnding) :
    Script.ofText name (directive ++ " " ++ String.ofList (text ++ gap ++ LineEnding.ends e)) =
      .ok { commands := #[
        { directive, parameters := { args := [.action m.codes], keywords := .empty } }] } := by
  have hblanks : Spelling gap [] := by simpa using Spelling.nil.blanks hgap
  have hmotion : Spelling (text ++ gap) m.symbols := by
    simpa using h.spelling hblanks (Motion.endsBefore_of_endsWord (Motion.endsWord_blanks hgap))
  have hspace : EndsWord (' ' :: (text ++ gap)) := endsWord_cons rfl _
  have hline : Spelling (directive.toList ++ ' ' :: (text ++ gap)) (.name directive :: m.symbols) :=
    .cons ⟨rfl, rfl⟩
      (fun _ hmore => Symbol.scans_name hdirective (Spelling.endsWord_append hspace hmore))
      (hmotion.blank rfl)
  have htext : (directive ++ " " ++ String.ofList (text ++ gap ++ LineEnding.ends e)).toList =
      (directive.toList ++ ' ' :: (text ++ gap)) ++ LineEnding.ends e := by simp
  obtain ⟨⟨⟨t, hitem, ht⟩, hshows⟩, ⟨newline, hnewline, hkind⟩, hmark⟩ :=
    hline.cut.shows hline.nested (by simp) htext name default
  obtain rfl : t.text = directive := congrArg Symbol.text ht
  rw [List.length_cons, Nat.add_comm] at hnewline hmark
  exact Script.ofSource_command hitem (congrArg Symbol.kind ht)
    (m.matches_params hshows ⟨newline, hnewline, hkind⟩) (.newline hnewline hkind) hmark

/-- A group with a count of zeros, and words with a blank between them. -/
theorem Script.ofText_motion_zeros :
    Script.ofText "" "m1 \x7bc [t]\t\x7d 00r  d" =
      .ok { commands := #[
        { directive := "m1",
          parameters := { args := [.action "\x7bc[t]\x7d0rd"], keywords := .empty } }] } := by
  have hcode : ∀ c ∈ ["c", "t", "r", "d"], IsMotionWord c := by decide
  have hc : IsMotionWord "c" := hcode _ (by simp)
  have ht : IsMotionWord "t" := hcode _ (by simp)
  have hr : IsMotionWord "r" := hcode _ (by simp)
  have hd : IsMotionWord "d" := hcode _ (by simp)
  let count : RepeatCount :=
    { digits := ['0', '0']
      ne_nil := by simp
      isDigit := by simp
      zeros := by simp
      value_lt := Nat.two_pow_pos 63 }
  have hnone : ∀ c ∈ ([] : List Char), Lexer.isBlank c = true := by simp
  have htab : ∀ c ∈ ['\t'], Lexer.isBlank c = true := by simp [Lexer.isBlank]
  have hspace : ∀ c ∈ [' '], Lexer.isBlank c = true := by simp [Lexer.isBlank]
  have hinner :=
    Motion.Renders.join (.word hc) (.blank (c := ' ') rfl (.group .bracket (.word ht) hnone))
    (by simp [Motion.beginsInWord])
  have hgroup := hinner.repeated htab count hspace
  have hwords :=
    Motion.Renders.join (.word hr) (.blank (c := ' ') rfl (.blank (c := ' ') rfl (.word hd)))
    (fun _ _ => ⟨' ', rfl, rfl⟩)
  have hrenders := hgroup.join hwords (by simp [Motion.endsInWord])
  have hm1 : IsWord "m1".toList := ⟨rfl, by decide⟩
  refine (congrArg (Script.ofText "") ?_).trans
    ((Script.ofText_motion "" hm1 hrenders hnone none).trans (congrArg Except.ok ?_))
  · rw [← String.toList_inj]
    simp [count, Bracket.opening, Bracket.closing, Symbol.mark, LineEnding.ends]
  · have hzero : toString count.value = "0" := by
      rw [show count.value = 0 from rfl]
      rfl
    simp [Motion.codes, hzero, Bracket.opening, Bracket.closing, Symbol.mark]

end OpticScript
