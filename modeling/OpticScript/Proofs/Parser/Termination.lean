import OpticScript.Proofs.Lexer.Scanned
import OpticScript.Proofs.Packrat.Extension
import OpticScript.Proofs.Parser.Caching

/-!
# Every parse comes to its end

Fuel does not show. What is enough can be read off the number of tokens of the source
(`fuelFor`), whatever was asked before and wherever the cursor is; more of it makes no
difference to the answer or to the parser afterwards, and with less of it a run that comes to its
end is the same (`Settles`). So a rule and a whole script always have an answer
(`session_settles`).

Enough is enough because a rule cannot get past the end (`Lexer.comesTo_finishes`). There the
lexer gives the end marker every time (`Lexer.item_of_endMarker`), so behind it is an end as
well. More is the same because fuel is only ever run out of (`Packrat.Extends`).
-/

namespace OpticScript

open Packrat Packrat.Outcome

/-! ## The end marker -/

theorem Lexeme.kind_ne_endMarker {text : List Char} {lexeme : Lexeme}
    (h : scan? text = some lexeme) : lexeme.kind ≠ .endMarker := by
  rcases scan_cases h with hkind | ⟨hkind, -⟩ | hmem
  · rintro heq
    simp [heq] at hkind
  · simp [hkind]
  · exact (punctuation_table _ hmem).2.2

namespace Lexer

variable {lexer after : Lexer} {t : Token}

theorem scan_kind_ne_endMarker {c : Char} (h : lexer.scan c = (.ok t, after)) :
    t.kind ≠ .endMarker := by
  rcases lexer.scan_cases c with ⟨_, _, _, -, -, -, heq⟩ |
    ⟨lexeme, literal, t', hlexeme, -, ht, heq⟩
  · simp [heq, refuse] at h
  · obtain rfl : t' = t := Except.ok.inj (congrArg Prod.fst (heq.symm.trans h))
    rw [ht]
    exact Lexeme.kind_ne_endMarker hlexeme

/-- After the end marker nothing is left. -/
theorem finish_of_endMarker (h : lexer.finish = (.ok t, after)) (ht : t.kind = .endMarker) :
    after = lexer ∧ lexer.finish = (.ok t, lexer) := by
  have hafter : after = lexer := by
    obtain ⟨opener, -, heq⟩ | ⟨-, -, heq⟩ | ⟨-, -, heq⟩ := lexer.finish_cases <;> rw [heq] at h
    · simp [refuse] at h
    · obtain rfl := Except.ok.inj (congrArg Prod.fst h)
      simp [Token.synthetic] at ht
    · exact (Prod.mk.inj h).2.symm
  exact ⟨hafter, hafter ▸ h⟩

theorem nextToken_of_endMarker (h : lexer.nextToken = (.ok t, after)) (ht : t.kind = .endMarker) :
    after.nextToken = (.ok t, after) := by
  obtain ⟨start, -, hblanks, ⟨c, tail, -, hreply⟩ | ⟨hrest, hunread, hreply⟩ |
      ⟨more, -, -, hreply⟩⟩ :=
    nextTokenFrom_cases (P := fun _ => True) (fun _ _ => trivial) (fun _ _ _ _ _ _ => trivial)
      lexer.unread rfl trivial
  · exact absurd ht (scan_kind_ne_endMarker (hreply.symm.trans h))
  · obtain ⟨rfl, hfinish⟩ := finish_of_endMarker (hreply.symm.trans h) ht
    rw [← hblanks] at hrest
    rw [nextToken, hunread, nextTokenFrom_nil hrest, hblanks, hfinish]
  · have heq := hreply.symm.trans h
    simp at heq

/-- The end marker is given again on every request. -/
theorem item_of_endMarker {n : Nat} (h : lexer.item n = .ok (some t)) (ht : t.kind = .endMarker)
    {m : Nat} (hle : n ≤ m) : lexer.item m = .ok (some t) := by
  induction m, hle using Nat.le_induction with
  | base => exact h
  | succ m _ ih =>
    have hnext := nextToken_of_endMarker (item_eq_ok_iff.1 ih) ht
    rw [item, hnext]
    rfl

/-- Behind an end marker that has been read there is an end everywhere. -/
theorem EndsAt.wall_of_read {wall n pos : Nat} (hends : lexer.EndsAt wall)
    (hread : ∀ i < n, ∃ t, lexer.item i = .ok (some t)) (hpos : pos ≤ n) :
    Wall lexer.item (fun t => t.kind = .endMarker) (max wall pos) := by
  rcases Nat.le_total pos wall with hle | hle
  · rw [Nat.max_eq_left hle]
    exact hends.wall
  · rw [Nat.max_eq_right hle]
    rcases Nat.eq_or_lt_of_le hle with rfl | hlt
    · exact hends.wall
    · obtain ⟨mark, hmark⟩ := hread wall (hlt.trans_le hpos)
      have hkind := hends.wall mark hmark
      rintro t ht
      obtain rfl : mark = t := by simpa [item_of_endMarker hmark hkind hle] using ht
      exact hkind

end Lexer

namespace Parser

/-! ## More fuel -/

section

variable {caching : Bool} {fuel fuel' : Nat}

theorem addLines_extends {line line' : Parser → Reply (Option Line)}
    (hline : ∀ parser, Extends (line parser) (line' parser)) :
    ∀ {rounds rounds' : Nat}, rounds ≤ rounds' → ∀ script parser,
      Extends (addLines line rounds script parser) (addLines line' rounds' script parser)
  | 0, _, _, _, parser => extends_outOfFuel parser _
  | rounds + 1, 0, h, _, _ => absurd h (by omega)
  | rounds + 1, rounds' + 1, h, script, parser => by
    rw [addLines_succ, addLines_succ]
    refine (hline parser).andThen fun next parser' => ?_
    cases next with
    | none => exact .refl _
    | some next =>
      dsimp only
      cases addLine script next with
      | ok script => exact addLines_extends hline (Nat.le_of_succ_le_succ h) script parser'
      | error blame => exact .refl _

theorem callWith_extends (h : fuel ≤ fuel') (rule : Rule) (parser : Parser) :
    Extends (callWith caching fuel rule parser) (callWith caching fuel' rule parser) :=
  call_extends _ _ _ h rule parser

theorem expectWith_extends (h : fuel ≤ fuel') (rule : Rule) (parser : Parser) :
    Extends (expectWith caching fuel rule parser) (expectWith caching fuel' rule parser) := by
  rw [expectWith, expectWith, expect_eq, expect_eq]
  exact (callWith_extends h rule parser).andThen fun _ _ => .refl _

theorem script_extends (h : fuel ≤ fuel') (parser : Parser) :
    Extends (script caching fuel parser) (script caching fuel' parser) := by
  rw [script_eq, script_eq]
  refine (addLines_extends (expectWith_extends h .scriptLine) h .empty parser).andThen
    fun script after => ?_
  exact (expectWith_extends h _ after).andThen fun _ _ => .refl _

theorem parseWith_extends (h : fuel ≤ fuel') (parser : Parser) :
    Extends (parseWith caching fuel parser) (parseWith caching fuel' parser) := by
  intro hend
  have hscript : (script caching fuel (mapTrace (·.attempt "start") parser)).1 ≠
      .error .outOfFuel := by
    rintro hout
    rw [parseWith] at hend
    rcases hrun : script caching fuel (mapTrace (·.attempt "start") parser) with ⟨answer, after⟩
    rw [hrun] at hout hend
    obtain rfl : answer = .error .outOfFuel := hout
    exact hend rfl
  rw [parseWith, parseWith, script_extends h _ hscript]

/-- With enough fuel, or more, a run comes to this reply, and with less it comes to the same or
has no fuel left. -/
structure Settles {α : Type} (enough : Nat) (run : Nat → Reply α) (reply : Reply α) : Prop where
  halts : reply.1 ≠ .error .outOfFuel
  enough : ∀ fuel, enough ≤ fuel → run fuel = reply
  less : ∀ fuel, (run fuel).1 ≠ .error .outOfFuel → run fuel = reply

theorem settles_of_extends {α : Type} {run : Nat → Reply α} {enough : Nat}
    (hextends : ∀ {fuel fuel'}, fuel ≤ fuel' → Extends (run fuel) (run fuel'))
    (hhalts : (run enough).1 ≠ .error .outOfFuel) : Settles enough run (run enough) where
  halts := hhalts
  enough _ hle := hextends hle hhalts
  less fuel hfuel := by
    rcases Nat.le_total fuel enough with hle | hle
    · exact (hextends hle hfuel).symm
    · exact hextends hle hhalts

end

/-! ## Enough fuel -/

section

variable {lexer : Lexer} {caching : Bool} {n : Nat} {parser plain : Parser}

/-- An amount of fuel for anything that the lexer can be asked for. -/
def enoughFor (lexer : Lexer) : Nat := fuelFor lexer.toEnd.tokens.length 0

theorem exists_wall_enough (h : Sound lexer caching n parser) {pos : Nat} (hpos : pos ≤ n) :
    ∃ wall, pos ≤ wall ∧ Wall lexer.item (fun t => t.kind = .endMarker) wall ∧
      fuelFor wall pos ≤ enoughFor lexer := by
  have hholds : parser.feed.Holds lexer n := h.holds
  have hread : ∀ i < n, ∃ t, lexer.item i = .ok (some t) := fun i hi =>
    ⟨_, hholds.item_eq i _ (Array.getElem?_eq_getElem (hholds.size_eq ▸ hi))⟩
  obtain ⟨wall, -, hends⟩ := lexer.exists_endsAt
  have hwall : wall ≤ lexer.toEnd.tokens.length := by
    rcases hends.toEnd_cases with ⟨_, -, -, hlength⟩ | ⟨_, -, -, -, hlength, -⟩ <;> omega
  refine ⟨max wall pos, Nat.le_max_right _ _, hends.wall_of_read hread hpos, ?_⟩
  simp only [enoughFor, fuelFor]
  omega

theorem callWith_settles (h : Sound lexer caching n parser) (rule : Rule) {pos : Nat}
    (hpos : pos ≤ n) : ∃ reply, Settles (enoughFor lexer)
      (fun fuel => callWith caching fuel rule (parser.moveTo pos)) reply := by
  obtain ⟨wall, hle, hwall, hfuel⟩ := exists_wall_enough h hpos
  have hagrees : Answers lexer caching n
      ((lexer.comesTo (enoughFor lexer) rule pos).wrapped Rule.nodes)
      (callWith caching (enoughFor lexer) rule (parser.moveTo pos)) :=
    callWith_agrees rule (h.moveTo hpos)
  obtain ⟨-, -, hhalts, -⟩ :=
    hagrees.eq_of_finishes hagrees ((Lexer.comesTo_finishes hwall hle hfuel).map _)
  exact ⟨_, settles_of_extends (fun hle => callWith_extends hle rule _) hhalts⟩

theorem parseWith_settles (h : Sound lexer caching n parser) : ∃ reply, Settles (enoughFor lexer)
    (fun fuel => parseWith caching fuel parser) reply := by
  obtain ⟨wall, hle, hwall, hfuel⟩ := exists_wall_enough h h.cursor_le
  have hfinishes := Lexer.scriptOutcome_finishes hwall hle hfuel
  have hhalts : (parseWith caching (enoughFor lexer) parser).1 ≠ .error .outOfFuel := by
    rw [parseWith_eq h hfinishes]
    exact Lexer.verdict_ne_outOfFuel hfinishes
  exact ⟨_, settles_of_extends (fun hle => parseWith_extends hle parser) hhalts⟩

/-- A parser takes as much fuel as is enough. -/
theorem enoughFor_le_fuel (h : Sound lexer caching n parser) : enoughFor lexer ≤ fuel parser := by
  have hholds : parser.feed.Holds lexer n := h.holds
  obtain ⟨wall, -, hends⟩ := lexer.exists_endsAt
  have hwall : wall ≤ n + (lexer.after n).remaining := by
    rcases Nat.le_total wall n with hle | hle
    · omega
    · obtain ⟨k, rfl⟩ := Nat.exists_eq_add_of_le hle
      obtain ⟨m, hm, hends'⟩ := (lexer.after n).exists_endsAt
      have hk : ¬ m < k := fun hlt => by
        obtain ⟨t, ht, hne⟩ := hends.after.not_wall m hlt
        exact hne (hends'.wall t ht)
      omega
  have hlength : lexer.toEnd.tokens.length ≤ wall + 1 := by
    rcases hends.toEnd_cases with ⟨_, -, -, hlength⟩ | ⟨_, -, -, -, hlength, -⟩ <;> omega
  rw [enoughFor, fuel, fuelFor, hholds.size_eq, hholds.lexer_eq]
  omega

/-- After admissible requests, with a cache and without, memos are outcomes. -/
theorem sound_of_session (requests : List Request) (h : Sound lexer true n parser)
    (h' : Sound lexer false n plain) (hcursor : plain.cursor = parser.cursor)
    (hadmits : Admits requests parser) :
    (∀ last ∈ (session true requests parser).2, ∃ n, Sound lexer true n last) ∧
      ∀ last ∈ (session false requests plain).2, ∃ n, Sound lexer false n last := by
  obtain ⟨-, -, hlast⟩ := session_paired requests ⟨⟨n, h, h'⟩, hcursor⟩ hadmits
  generalize (session true requests parser).2 = last at hlast ⊢
  generalize (session false requests plain).2 = last' at hlast ⊢
  cases hlast with
  | none => simp
  | some hpaired =>
    obtain ⟨n, hlast, hlast'⟩ := hpaired.sound
    exact ⟨by simpa using ⟨n, hlast⟩, by simpa using ⟨n, hlast'⟩⟩

/-- What is left of the parser after requests without an error is sound. -/
theorem exists_sound_of_session {source : Source} {trace : Option Trace} {requests : List Request}
    (hadmits : Admits requests (.ofLexer (.ofSource source) trace))
    (hparser : parser ∈ (session caching requests (.ofLexer (.ofSource source) trace)).2) :
    ∃ n, Sound (.ofSource source) caching n parser := by
  have hsession := sound_of_session requests (sound_ofLexer _ true trace)
    (sound_ofLexer _ false trace) rfl hadmits
  cases caching with
  | true => exact hsession.1 parser hparser
  | false => exact hsession.2 parser hparser

end

/-- Every parse comes to its end. For every source there is an amount of fuel, computed from the
number of its tokens, such that after all admissible requests, none of which was an error, the
script from the cursor on has an answer, and so has every rule at every position up to the next
token to be read. More fuel changes neither the answer nor the parser after it, and a parser
takes as much. -/
theorem session_settles (source : Source) (trace : Option Trace) (requests : List Request)
    (hadmits : Admits requests (.ofLexer (.ofSource source) trace)) (caching : Bool) :
    let enough := enoughFor (.ofSource source)
    ∀ parser ∈ (session caching requests (.ofLexer (.ofSource source) trace)).2,
      enough ≤ fuel parser ∧
        (∃ reply, Settles enough (fun fuel => parseWith caching fuel parser) reply) ∧
        ∀ rule, ∀ pos ≤ parser.feed.tokens.size, ∃ reply,
          Settles enough (fun fuel => callWith caching fuel rule (parser.moveTo pos)) reply := by
  intro enough parser hparser
  obtain ⟨n, h⟩ := exists_sound_of_session hadmits hparser
  have hholds : parser.feed.Holds (.ofSource source) n := h.holds
  exact ⟨enoughFor_le_fuel h, parseWith_settles h,
    fun rule pos hpos => callWith_settles h rule (hholds.size_eq ▸ hpos)⟩

/-- After a name has been read and the cursor is at the start again, the script comes to a command,
and behind the name there is another one. -/
theorem session_settles_name :
    let lexer := Lexer.ofSource (.ofText "" "x y")
    let requests := [Request.rule (.token .name), .reset 0]
    let command : Command :=
      { directive := "x", parameters := { args := [.expr (.name "y")], keywords := .empty } }
    Admits requests (ofLexer lexer) ∧ ∃ parser ∈ (session true requests (ofLexer lexer)).2,
      (∃ reply, Settles (enoughFor lexer) (fun fuel => parseWith true fuel parser) reply ∧
        reply.1 = .ok { commands := #[command] }) ∧
      ∃ reply, Settles (enoughFor lexer)
          (fun fuel => callWith true fuel (.token .name) (parser.moveTo 1)) reply ∧
        reply.1 = .ok (some (.token (.ofText .name "y" 1 3 4))) ∧ reply.2.cursor = 2 := by
  intro lexer requests command
  have h : Admits requests (ofLexer lexer) := by decide +kernel
  obtain ⟨parser, hparser, hparse, hcall, hcursor, hread⟩ :
      ∃ parser ∈ (session true requests (ofLexer lexer)).2,
        (parseWith true 100 parser).1 = .ok { commands := #[command] } ∧
        (callWith true 1 (.token .name) (parser.moveTo 1)).1 =
          .ok (some (.token (.ofText .name "y" 1 3 4))) ∧
        (callWith true 1 (.token .name) (parser.moveTo 1)).2.cursor = 2 ∧
        1 ≤ parser.feed.tokens.size :=
    ⟨(answer (.reset 0) (answer (.rule (.token .name)) (ofLexer lexer)).2).2,
      rfl, by decide +kernel, rfl, rfl, Nat.le_refl 1⟩
  obtain ⟨-, ⟨script, hscript⟩, hrules⟩ :=
    session_settles (.ofText "" "x y") none requests h true parser hparser
  obtain ⟨name, hname⟩ := hrules (.token .name) 1 hread
  refine ⟨h, parser, hparser, ⟨script, hscript, ?_⟩, name, hname, ?_⟩
  · rw [← hscript.less 100 (by simp [hparse])]
    exact hparse
  · rw [← hname.less 1 (by simp [hcall])]
    exact ⟨hcall, hcursor⟩

end Parser

end OpticScript
