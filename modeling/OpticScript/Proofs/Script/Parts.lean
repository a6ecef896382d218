import OpticScript.Proofs.Grammar.Parts
import OpticScript.Proofs.Lexer.Pieces
import OpticScript.Proofs.Script.Spelled

/-!
# Parts of a line

A part of a line is a piece of it with balanced brackets and no comment (`Part`). Parts are put
together with a comma or several commas between them (`Part.separated`). If the symbols of a part
are read as parameters, then a line of a directive, the part, a comma or none, and a remark is read
as a command with those parameters (`Part.ofText_command`).
-/

namespace OpticScript

open Lexeme

/-! ## Parts -/

/-- A piece of a line with balanced brackets and no comment, and its symbols. -/
structure Part (text : List Char) (symbols : List Symbol) : Prop where
  cut : Cut text symbols
  nested : Nested symbols
  no_comment : ∀ symbol ∈ symbols, symbol.kind ≠ .comment

theorem Symbol.scans_comma (rest : List Char) : Symbol.comma.Scans rest :=
  Symbol.scans_plain (by decide) (by decide) rest

theorem nested_comma : Nested [Symbol.comma] := .of_not_isBracket ⟨rfl, rfl⟩

namespace Part

variable {text text' : List Char} {symbols symbols' : List Symbol}

/-- Commas in front of a part. -/
theorem commas (h : Part text symbols) (count : Nat) :
    Part (List.replicate count ',' ++ text) (List.replicate count Symbol.comma ++ symbols) := by
  induction count with
  | zero => exact h
  | succ count ih =>
    have hkinds : ∀ symbol ∈ Symbol.comma :: (List.replicate count Symbol.comma ++ symbols),
        symbol.kind ≠ .comment :=
          List.forall_mem_cons.2 ⟨by simp [Symbol.comma, Symbol.mark], ih.no_comment⟩
    exact ⟨ih.cut.cons (Symbol.scans_comma _), nested_comma.append ih.nested, hkinds⟩

/-- Two parts with commas between them. -/
theorem separated (h : Part text symbols) {count : Nat} (hcount : count ≠ 0)
    (h' : Part text' symbols') : Part (text ++ (List.replicate count ',' ++ text'))
      (symbols ++ (List.replicate count Symbol.comma ++ symbols')) where
  cut := by
    obtain ⟨count, rfl⟩ := Nat.exists_eq_succ_of_ne_zero hcount
    have hpauses : Pauses (List.replicate (count + 1) ',' ++ text') := by
      simp [Pauses, List.replicate_succ]
    exact h.cut.append h.no_comment hpauses (h'.commas _).cut
  nested := h.nested.append (h'.commas count).nested
  no_comment := List.forall_mem_append.2 ⟨h.no_comment, (h'.commas count).no_comment⟩

end Part

/-! ## What comes behind the parameters -/

/-- Blanks, and a comment or none. -/
inductive Remark : List Char → Prop
  | nothing : Remark []
  | blank {c : Char} {text : List Char} (hc : Lexer.isBlank c = true) (h : Remark text) :
    Remark (c :: text)
  | comment {text : List Char} (hunbroken : ∀ c ∈ text, Text.isLineBreak c = false) :
    Remark ('#' :: text)

/-- A comma or none. -/
def trailingComma (trailing : Bool) : List Char := List.replicate trailing.toNat ','

theorem Remark.pauses {text : List Char} (h : Remark text) : Pauses text := by
  cases h with
  | nothing => simp [Pauses]
  | blank hc => exact pauses_cons hc _
  | comment => simp [Pauses]

theorem Remark.cut {text : List Char} (h : Remark text) :
    ∃ symbols, Cut text symbols ∧ IsOptional .comment symbols := by
  induction h with
  | nothing => exact ⟨[], .nil, .inl rfl⟩
  | blank hc _ ih =>
    obtain ⟨symbols, hcut, hsymbols⟩ := ih
    exact ⟨symbols, hcut.blank hc, hsymbols⟩
  | comment hunbroken =>
    obtain ⟨comment, hkind, hcut⟩ := Cut.comment hunbroken
    exact ⟨[comment], hcut, .inr ⟨comment, rfl, hkind⟩⟩

theorem nested_nil : Nested [] := by
  intro tokens openers heq
  obtain rfl := List.map_eq_nil_iff.1 heq
  rfl

/-- The symbols of a comma or none and of a remark. -/
theorem Remark.exists_closing {text : List Char} (h : Remark text) (trailing : Bool) :
    ∃ symbols, IsOptional .comment symbols ∧ Pauses (trailingComma trailing ++ text) ∧
      Cut (trailingComma trailing ++ text) (List.replicate trailing.toNat Symbol.comma ++ symbols) ∧
      Nested (List.replicate trailing.toNat Symbol.comma ++ symbols) := by
  obtain ⟨symbols, hcut, hsymbols⟩ := h.cut
  have hnested : Nested symbols := by
    rcases hsymbols with rfl | ⟨comment, rfl, hkind⟩
    · exact nested_nil
    · exact .of_not_isBracket (by rw [hkind]; exact ⟨rfl, rfl⟩)
  refine ⟨symbols, hsymbols, ?_⟩
  cases trailing with
  | false => exact ⟨h.pauses, hcut, hnested⟩
  | true =>
    exact ⟨by simp [Pauses, trailingComma], hcut.cons (Symbol.scans_comma _),
      nested_comma.append hnested⟩

/-! ## Lines -/

theorem isWord_m1 : IsWord "m1".toList := ⟨rfl, by decide⟩

/-- A line of a directive and parameters is read as a command, if they end in a comma or not and
be there a comment or not. -/
theorem Part.ofText_command {text : List Char} {symbols : List Symbol} (h : Part text symbols)
    {args : List Value} {pairs : List (String × Value)} (hreads : ReadsParams args pairs symbols)
    (name : String) {directive : String} (hdirective : IsWord directive.toList) (trailing : Bool)
    {remark : List Char} (hremark : Remark remark) (e : Option LineEnding) :
    Script.ofText name (directive ++ " " ++
        String.ofList (text ++ (trailingComma trailing ++ remark) ++ LineEnding.ends e)) =
      .ok { commands := #[{ directive, parameters := { args, keywords := .ofList pairs } }] } := by
  obtain ⟨comment, hsymbols, hpauses, hclosing, hclosed⟩ := hremark.exists_closing trailing
  set commas := List.replicate trailing.toNat Symbol.comma with hcommas
  -- the symbols of the line
  have hcut : Cut (directive.toList ++ ' ' :: (text ++ (trailingComma trailing ++ remark)))
      (.name directive :: (symbols ++ (commas ++ comment))) :=
    ((h.cut.append h.no_comment hpauses hclosing).blank rfl).cons
      (Symbol.scans_name hdirective (endsWord_cons rfl _))
  have hname : Nested [Symbol.name directive] := .of_not_isBracket ⟨rfl, rfl⟩
  have hnested : Nested (.name directive :: (symbols ++ (commas ++ comment))) :=
    hname.append (h.nested.append hclosed)
  have htext : (directive ++ " " ++ String.ofList (text ++ (trailingComma trailing ++ remark) ++
      LineEnding.ends e)).toList =
      (directive.toList ++ ' ' :: (text ++ (trailingComma trailing ++ remark))) ++
        LineEnding.ends e := by
    simp
  obtain ⟨⟨⟨t, hitem, ht⟩, hshows⟩, hnewline, hmark⟩ :=
    hcut.shows hnested (by simp) htext name default
  obtain rfl : t.text = directive := congrArg Symbol.text ht
  -- what is read of them
  obtain ⟨hparams, hmore⟩ := shows_append.1 hshows
  obtain ⟨htrailing, hcomment'⟩ := shows_append.1 hmore
  have hlength : (Symbol.name t.text :: (symbols ++ (commas ++ comment))).length =
      0 + 1 + symbols.length + commas.length + comment.length := by
    simp only [List.length_cons, List.length_append]
    omega
  rw [hlength] at hnewline hmark
  have hend := hsymbols.endReads hcomment' hnewline
  have hoptional : IsOptional .comma commas := by
    cases trailing with
    | false => exact .inl rfl
    | true => exact .inr ⟨.comma, rfl, rfl⟩
  obtain ⟨htrails, hends⟩ := hoptional.trailingReads htrailing hend.lineEnds
  exact Script.ofSource_command hitem (congrArg Symbol.kind ht)
    (hreads.matches_params hparams hends htrails) hend hmark

end OpticScript
