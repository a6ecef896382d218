import OpticScript.Proofs.Parser.Outcome

/-!
# Caching does not show

A parser that keeps a memo of every rule and one that keeps memos of the left recursive
rules only answer alike. `session` is what a user of a parser sees : the answers to the
requests and the position after each, up to the first error. Whatever is asked, it is the
same with caching and without, and so is the script that is read afterwards.

Both parsers answer what the items of the lexer say, and from one request to the next both
have read the same number of them (`session_paired`).
-/

namespace OpticScript.Parser

open Packrat Packrat.Outcome

/-- An answer, and the position of the cursor after it. -/
structure Shown where
  request : Request
  answer : Except (Halt ScriptError) request.Answer
  mark : Nat

/-- What the requests show up to the first error, and the parser after them if there is
none. -/
def session (caching : Bool) : List Request → Parser → List Shown × Option Parser
  | [], parser => ([], some parser)
  | request :: requests, parser =>
    match answerWith caching (fuel parser) request parser with
    | (.error halt, after) => ([⟨request, .error halt, after.cursor⟩], none)
    | (.ok answer, after) =>
      let (shown, last) := session caching requests after
      (⟨request, .ok answer, after.cursor⟩ :: shown, last)

/-- Every request is admissible when it is made : the cursor is not put behind what has been
read, and an end marker is not asked for without an end. -/
def Admits : List Request → Parser → Prop
  | [], _ => True
  | request :: requests, parser =>
    request.Admissible parser.feed.tokens.size ∧
      match answerWith true (fuel parser) request parser with
      | (.error _, _) => True
      | (.ok _, after) => Admits requests after

instance decidableAdmits : (requests : List Request) → (parser : Parser) →
    Decidable (Admits requests parser)
  | [], _ => .isTrue trivial
  | request :: requests, parser =>
    match h : answerWith true (fuel parser) request parser with
    | (.error _, _) =>
      decidable_of_iff (request.Admissible parser.feed.tokens.size) (by simp [Admits, h])
    | (.ok _, after) =>
      have := decidableAdmits requests after
      decidable_of_iff (request.Admissible parser.feed.tokens.size ∧ Admits requests after)
        (by simp [Admits, h])

section

variable {lexer : Lexer} {caching : Bool} {n : Nat} {parser plain : Parser}

theorem exists_wall_of_sound (h : Sound lexer caching n parser) :
    ∃ wall, parser.cursor ≤ wall ∧ Wall lexer.item (fun t => t.kind = .endMarker) wall ∧
      fuelFor wall parser.cursor ≤ fuel parser := by
  have hholds : parser.feed.Holds lexer n := h.holds
  obtain ⟨wall, hle, hremaining, hwall⟩ := lexer.exists_wall n
  refine ⟨wall, h.cursor_le.trans hle, hwall, ?_⟩
  rw [fuel, fuelFor, hholds.size_eq, hholds.lexer_eq]
  omega

theorem fuel_eq_of_sound (h : Sound lexer true n parser) (h' : Sound lexer false n plain) :
    fuel plain = fuel parser := by
  have hholds : parser.feed.Holds lexer n := h.holds
  have hholds' : plain.feed.Holds lexer n := h'.holds
  rw [fuel, fuel, hholds.size_eq, hholds.lexer_eq, hholds'.size_eq, hholds'.lexer_eq]

/-- One request to a parser with a cache and to one without, which have read the same. -/
theorem answerWith_eq (h : Sound lexer true n parser) (h' : Sound lexer false n plain)
    (hcursor : plain.cursor = parser.cursor) {request : Request}
    (hadmissible : request.Admissible n) :
    let cached := answerWith true (fuel parser) request parser
    let uncached := answerWith false (fuel plain) request plain
    uncached.1 = cached.1 ∧ uncached.2.cursor = cached.2.cursor ∧
      cached.1 ≠ .error .outOfFuel ∧
      ∀ a, cached.1 = .ok a →
        ∃ n, Sound lexer true n cached.2 ∧ Sound lexer false n uncached.2 := by
  obtain ⟨wall, hle, hwall, hfuel⟩ := exists_wall_of_sound h
  have hfinishes := request.outcome_finishes hwall hle hfuel hadmissible
  have hagrees := answerWith_agrees (fuel parser) h request hadmissible
  have hagrees' := answerWith_agrees (fuel parser) h' request hadmissible
  rw [hcursor] at hagrees'
  rw [fuel_eq_of_sound h h']
  obtain ⟨hanswer, hmark, hhalt, hsound⟩ := hagrees.eq_of_finishes hagrees' hfinishes
  exact ⟨hanswer, hmark, hhalt, fun a ha => ⟨_, hsound a ha⟩⟩

theorem parseWith_eq_parse (h : Sound lexer true n parser) (h' : Sound lexer false n plain)
    (hcursor : plain.cursor = parser.cursor) :
    (parseWith false (fuel plain) plain).1 = (parse parser).1 ∧
      (parse parser).1 ≠ .error .outOfFuel := by
  obtain ⟨wall, hle, hwall, hfuel⟩ := exists_wall_of_sound h
  have hfinishes := Lexer.scriptOutcome_finishes hwall hle hfuel
  have hparse := parseWith_eq h hfinishes
  have hplain := parseWith_eq h' (hcursor ▸ hfinishes)
  rw [fuel_eq_of_sound h h', hplain, hcursor, parse, hparse]
  exact ⟨rfl, Lexer.verdict_ne_outOfFuel hfinishes⟩

/-- A parser with a cache and one without that have read the same and stand at the same place. -/
structure Paired (lexer : Lexer) (parser plain : Parser) : Prop where
  sound : ∃ n, Sound lexer true n parser ∧ Sound lexer false n plain
  cursor_eq : plain.cursor = parser.cursor

/-- The requests show the same with a cache and without, and the parsers after them, if there are
any, are such a pair again. -/
theorem session_paired (requests : List Request) (h : Paired lexer parser plain)
    (hadmits : Admits requests parser) :
    (session false requests plain).1 = (session true requests parser).1 ∧
      (∀ shown ∈ (session true requests parser).1, shown.answer ≠ .error .outOfFuel) ∧
      Option.Rel (Paired lexer) (session true requests parser).2
        (session false requests plain).2 := by
  induction requests generalizing parser plain with
  | nil => exact ⟨rfl, by simp [session], .some h⟩
  | cons request requests ih =>
    obtain ⟨n, hparser, hplain⟩ := h.sound
    have hholds : parser.feed.Holds lexer n := hparser.holds
    obtain ⟨hadmissible, hrest⟩ := hadmits
    rw [hholds.size_eq] at hadmissible
    have hstep := answerWith_eq hparser hplain h.cursor_eq hadmissible
    rcases hcached : answerWith true (fuel parser) request parser with ⟨answer, after⟩
    rcases huncached : answerWith false (fuel plain) request plain with ⟨answer', after'⟩
    rw [hcached, huncached] at hstep
    obtain ⟨rfl, hmark, hhalt, hsound⟩ := hstep
    dsimp only at hmark hhalt hsound
    rw [session, session, hcached, huncached]
    cases answer' with
    | error halt => exact ⟨by simp [hmark], by simpa using hhalt, .none⟩
    | ok a =>
      rw [hcached] at hrest
      obtain ⟨hshown, hshownHalt, hlast⟩ := ih ⟨hsound a rfl, hmark⟩ hrest
      exact ⟨by simp [hshown, hmark], by simpa using hshownHalt, hlast⟩

/-- The requests show the same with a cache and without, and what is left to read as well. -/
theorem session_eq (requests : List Request) (h : Sound lexer true n parser)
    (h' : Sound lexer false n plain) (hcursor : plain.cursor = parser.cursor)
    (hadmits : Admits requests parser) :
    (session false requests plain).1 = (session true requests parser).1 ∧
      (∀ shown ∈ (session true requests parser).1, shown.answer ≠ .error .outOfFuel) ∧
      (session false requests plain).2.map (fun plain => (parseWith false (fuel plain) plain).1) =
        (session true requests parser).2.map (fun parser => (parse parser).1) ∧
      ∀ last ∈ (session true requests parser).2, (parse last).1 ≠ .error .outOfFuel := by
  obtain ⟨hshown, hhalts, hlast⟩ := session_paired requests ⟨⟨n, h, h'⟩, hcursor⟩ hadmits
  refine ⟨hshown, hhalts, ?_⟩
  generalize (session true requests parser).2 = last at hlast ⊢
  generalize (session false requests plain).2 = last' at hlast ⊢
  cases hlast with
  | none => simp
  | some hpaired =>
    obtain ⟨n, hlast, hlast'⟩ := hpaired.sound
    obtain ⟨hparse, hhalt⟩ := parseWith_eq_parse hlast hlast' hpaired.cursor_eq
    exact ⟨congrArg some hparse, by simpa using hhalt⟩

end

/-- A memo table does not show. For every source and every admissible requests the answers,
the positions after them and the script or the error that is read in the end are those of a
parser that keeps memos of the left recursive rules only. None of them is for want of
fuel. -/
theorem session_caching (source : Source) (trace : Option Trace) (requests : List Request)
    (hadmits : Admits requests (.ofLexer (.ofSource source) trace)) :
    let cached := session true requests (.ofLexer (.ofSource source) trace)
    let uncached := session false requests (.ofLexer (.ofSource source) trace)
    uncached.1 = cached.1 ∧ (∀ shown ∈ cached.1, shown.answer ≠ .error .outOfFuel) ∧
      uncached.2.map (fun parser => (parseWith false (fuel parser) parser).1) =
        cached.2.map (fun parser => (parse parser).1) ∧
      ∀ parser ∈ cached.2, (parse parser).1 ≠ .error .outOfFuel :=
  session_eq requests (sound_ofLexer _ true trace) (sound_ofLexer _ false trace) rfl hadmits

/-- A sum that is read, and then a part of it once more. -/
theorem session_caching_difference :
    Admits [.rule .sum, .reset 2, .rule .product] (.ofLexer (.ofSource (.ofText "" "x-y"))) ∧
      (session false [.rule .sum, .reset 2, .rule .product]
        (.ofLexer (.ofSource (.ofText "" "x-y")))).1 =
      (session true [.rule .sum, .reset 2, .rule .product]
        (.ofLexer (.ofSource (.ofText "" "x-y")))).1 := by
  have h : Admits [.rule .sum, .reset 2, .rule .product]
      (.ofLexer (.ofSource (.ofText "" "x-y"))) := by decide +kernel
  exact ⟨h, (session_caching (.ofText "" "x-y") none _ h).1⟩

end OpticScript.Parser
