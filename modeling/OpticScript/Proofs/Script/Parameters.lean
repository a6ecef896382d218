import OpticScript.Proofs.Grammar.Settled
import OpticScript.Proofs.Script.Completeness
import OpticScript.Proofs.Script.Parts

/-!
# Parameters that are joined

A text that is the only parameter of a line, without a comma, a comment or a line break
(`LoneParameter`), is read as the same parameter among others. The line is derived from its tokens
with no value cut short, so it begins with a value that is settled, behind a key or not
(`LoneParameter.exists_line`). What is settled is read wherever it stands, and nothing else can have
been read of the line (`LoneParameter.eq_of_reads`).

So texts of values joined with commas, and texts of pairs behind them (`JoinsParams`), are read as
these values and pairs in their order (`Script.ofText_parameters`).
-/

namespace OpticScript

open Lexeme

/-! ## Texts of one parameter -/

/-- Behind a directive the text is read as these parameters, and none of its tokens is a comma, a
comment or a line break; the newline that a lexer adds is empty. -/
structure LoneParameter (name text : String) (p : Parameters) : Prop where
  reads : Script.ofText name ("m1 " ++ text) =
    .ok { commands := #[{ directive := "m1", parameters := p }] }
  lone : ∀ t ∈ (Lexer.ofSource (.ofText name ("m1 " ++ text))).toEnd.tokens,
    t.kind ∉ [.comma, .comment] ∧ (t.kind = .newline → t.text = "")

/-- A line of tokens, the first ones of which are those of a text, with what parameters are derived
from it. -/
structure LoneParameter.Line (text : String) (p : Parameters)
    (tokens rest : List Token) : Prop where
  part : Part text.toList (tokens.map Token.symbol)
  lone : ∀ t ∈ tokens, ¬t.kind.EndsParameter
  atEnd : AtEnd rest
  unabridged : Unabridged (tokens ++ rest)
  derives : ∃ args pairs mid, DerivesParams (tokens ++ rest) mid args pairs ∧ AtEnd mid ∧
    parametersOf args pairs = p

/-- The first line of a script that begins with a name is that of its first command. -/
theorem DerivesLines.first_command {first mark : Token} {tokens : List Token}
    {forms : List LineForm}
    (h : DerivesLines (first :: tokens) [mark] forms) (hfirst : first.kind = .name)
    (hmark : mark.kind = .endMarker) {c : Command} (hcommands : commandsOf forms = [c]) :
    ∃ args pairs mid, DerivesParams tokens mid args pairs ∧ AtEnd mid ∧
      parametersOf args pairs = c.parameters := by
  cases h with
  | nil => simp [hmark] at hfirst
  | cons head tail =>
    cases head with
    | blank comment hnewline =>
      cases comment with
      | nothing => simp [hnewline] at hfirst
      | comment hcomment => simp [hcomment] at hfirst
    | @command mid _ _ _ hcommand comment hnewline =>
      have hmid : AtEnd mid := by
        cases comment with
        | nothing => exact ⟨by simp [hnewline]⟩
        | comment hcomment => exact ⟨by simp [hcomment]⟩
      cases hcommand with
      | surface hplus => simp [hplus] at hfirst
      | command hname params =>
        rw [commandsOf] at hcommands
        obtain ⟨rfl, -⟩ := List.cons.inj hcommands
        exact ⟨_, _, mid, params, hmid, rfl⟩

namespace LoneParameter

variable {name text key : String} {v : Value} {p : Parameters}

theorem of_verdict
    (hreads : let lexer := Lexer.ofSource (.ofText name ("m1 " ++ text))
      lexer.verdict 0 (lexer.scriptOutcome (Parser.fuel (.ofLexer lexer)) 0) =
        .ok { commands := #[{ directive := "m1", parameters := p }] })
    (hlone : (Lexer.ofSource (.ofText name ("m1 " ++ text))).toEnd.tokens.all
      (fun t => t.kind ∉ [.comma, .comment] ∧ (t.kind = .newline → t.text = "")) = true) :
    LoneParameter name text p :=
  ⟨(Script.ofSource_eq_verdict _).trans hreads,
    fun t ht => of_decide_eq_true (List.all_eq_true.1 hlone t ht)⟩

/-- Between the directive and the end of the line are the tokens of the text. -/
theorem exists_tokens (h : LoneParameter name text p)
    (hfailure : (Lexer.ofSource (.ofText name ("m1 " ++ text))).toEnd.failure = none) :
    ∃ first tokens newline mark, (Lexer.ofSource (.ofText name ("m1 " ++ text))).toEnd.tokens =
        first :: (tokens ++ [newline, mark]) ∧
      first.kind = .name ∧ newline.kind = .newline ∧ Part text.toList (tokens.map Token.symbol) ∧
      ∀ t ∈ tokens, ¬t.kind.EndsParameter := by
  have hunbroken := Lexer.unbroken_of_newlines hfailure fun t ht => (h.lone t ht).2
  have hchars : ("m1 " ++ text).toList = "m1".toList ++ ' ' :: text.toList := by simp
  obtain ⟨line, newline, mark, htokens, hnewline, -, hkinds, hcut, hbalanced⟩ :=
    Lexer.exists_cut (fun heq => by simp [heq] at hchars) hunbroken hfailure
  have hdirective : Cut ("m1".toList ++ []) [.name "m1"] :=
    Cut.nil.cons (Symbol.scans_name isWord_m1 (by simp [EndsWord]))
  rw [List.append_nil] at hdirective
  rw [hchars] at hcut
  obtain ⟨symbols, hsymbols, hmore⟩ :=
    hdirective.of_append (by simp [Symbol.name, Symbol.mark]) (pauses_cons rfl _) hcut
  obtain ⟨first, tokens, rfl, hfirst, rfl⟩ := List.map_eq_cons_iff.1 hsymbols
  have hname : first.kind = .name := congrArg Symbol.kind hfirst
  have hnested : Nested (tokens.map Token.symbol) := by
    refine nested_of_balanced ?_
    have hbracket : brackets [first] = [] := by
      simp [brackets, Token.isBracket, hname, TokenKind.opens, TokenKind.opener?]
    rwa [brackets_cons, hbracket, List.nil_append] at hbalanced
  have hlone : ∀ t ∈ tokens, ¬t.kind.EndsParameter := by
    intro t ht hends
    have hmem : t ∈ (Lexer.ofSource (.ofText name ("m1 " ++ text))).toEnd.tokens := by
      simp [htokens, ht]
    have hkind := (h.lone t hmem).1
    have hline := hkinds t (List.mem_cons_of_mem _ ht)
    simp at hends hkind
    tauto
  refine ⟨first, tokens, newline, mark, by rw [htokens, List.cons_append], hname, hnewline,
    ⟨hmore.of_blank rfl, hnested, fun symbol hsymbol heq => ?_⟩, hlone⟩
  obtain ⟨t, ht, rfl⟩ := List.mem_map.1 hsymbol
  exact hlone t ht (by simp [show t.kind = .comment from heq])

/-- The line of a directive and a text that is one parameter. -/
theorem exists_line (h : LoneParameter name text p) : ∃ tokens rest, Line text p tokens rest := by
  obtain ⟨hfailure, forms, hderives, -, hcommands, hwhole⟩ := Script.exists_derives h.reads
  obtain ⟨first, tokens, newline, mark, htokens, hname, hnewline, hpart, hlone⟩ :=
    h.exists_tokens hfailure
  rw [htokens] at hwhole hderives
  rw [noneCutShort_first (by simp [hname])] at hwhole
  obtain ⟨hlines, hend⟩ := hderives
  exact ⟨tokens, [newline, mark], hpart, hlone, ⟨by simp [hnewline]⟩, hwhole,
    hlines.first_command hname hend hcommands.symm⟩

/-- What can be read of the text of a parameter is that parameter. -/
theorem eq_of_reads (h : LoneParameter name text p) {symbols : List Symbol}
    (hpart : Part text.toList symbols)
    {args : List Value} {pairs : List (String × Value)} (hreads : ReadsParams args pairs symbols) :
    p = { args, keywords := .ofList pairs } := by
  have hline := hpart.ofText_command hreads name isWord_m1 false .nothing none
  have htext :
    "m1" ++ " " ++ String.ofList (text.toList ++ (trailingComma false ++ []) ++
      LineEnding.ends none) = "m1 " ++ text := by
    simp [trailingComma, LineEnding.ends]
  rw [htext, h.reads] at hline
  simpa using hline

/-- The text of a value is read as that value wherever it stands. -/
theorem value (h : LoneParameter name text { args := [v], keywords := .empty }) :
    ∃ symbols, Part text.toList symbols ∧ v.ReadsFrom symbols := by
  obtain ⟨tokens, rest, hline⟩ := h.exists_line
  obtain ⟨args, pairs, mid, hparams, hmid, hp⟩ := hline.derives
  have hargs : args = [v] := congrArg Parameters.args hp
  rcases hparams.first hmid with ⟨-, v', more, hvalue, hmore⟩ | ⟨hnil, -⟩
  · obtain ⟨v', hsettled⟩ := hvalue.exists_settled hmore hline.unabridged.1
    have hreads : v'.ReadsFrom (tokens.map Token.symbol) :=
      hsettled.readsFrom hline.lone hline.atEnd
    have heq := h.eq_of_reads hline.part (.values (.one hreads))
    obtain rfl : v = v' := by simpa using congrArg Parameters.args heq
    exact ⟨_, hline.part, hreads⟩
  · simp [hargs] at hnil

/-- The text of a pair is read as that pair wherever it stands. -/
theorem pair (h : LoneParameter name text { args := [], keywords := .ofList [(key, v)] }) :
    ∃ symbols, Part text.toList symbols ∧ ReadsPairs [(key, v)] symbols := by
  obtain ⟨tokens, rest, hline⟩ := h.exists_line
  obtain ⟨args, pairs, mid, hparams, hmid, hp⟩ := hline.derives
  have hargs : args = [] := congrArg Parameters.args hp
  rcases hparams.first hmid with
    ⟨hne, -⟩ | ⟨-, name, equals, more, v', more', heq, hname, hequals, hvalue, hmore⟩
  · exact absurd hargs hne
  -- the key and the equals sign are tokens of the text
  obtain ⟨tokens, rfl, rfl⟩ : ∃ tokens', tokens = name :: equals :: tokens' ∧
      more = tokens' ++ rest := by
    obtain ⟨hend⟩ := hline.atEnd
    rcases tokens with _ | ⟨t, _ | ⟨t', tokens⟩⟩
    · simp at heq
      simp [heq.1, hname] at hend
    · simp at heq
      simp [heq.2.1, hequals] at hend
    · simp at heq
      exact ⟨tokens, by rw [heq.1, heq.2.1], heq.2.2.symm⟩
  have hwhole := hline.unabridged.2
  rw [heq, noneCutShort_skip (by simp [hname]), noneCutShort_separator (by simp [hequals])]
    at hwhole
  obtain ⟨v', hsettled⟩ := hvalue.exists_settled hmore hwhole.1
  have hreads : v'.ReadsFrom (tokens.map Token.symbol) :=
    hsettled.readsFrom (fun t ht => hline.lone t (by simp [ht])) hline.atEnd
  have hpair :
      ReadsPairs [(name.symbol.text, v')] (name.symbol :: equals.symbol ::
        tokens.map Token.symbol) :=
    .one hname hequals hreads
  have hp := h.eq_of_reads hline.part (.pairs hpair)
  obtain ⟨rfl, rfl⟩ : key = name.text ∧ v = v' := by
    simpa [Token.symbol, Keywords.ofList, Keywords.insertAll, Keywords.insert, Keywords.empty,
      Keywords.assign] using
      congrArg Parameters.keywords hp
  exact ⟨_, hline.part, hpair⟩

end LoneParameter

/-! ## Joined texts -/

/-- Texts of values with a comma between any two of them. -/
inductive JoinsValues : List Value → List Char → Prop
  | one {name text : String} {v : Value}
    (h : LoneParameter name text { args := [v], keywords := .empty }) : JoinsValues [v] text.toList
  | more {name text : String} {v : Value} {vs : List Value} {rest : List Char}
      (h : LoneParameter name text { args := [v], keywords := .empty })
        (hmore : JoinsValues vs rest) :
      JoinsValues (v :: vs) (text.toList ++ ',' :: rest)

/-- Texts of pairs with at least one comma between any two of them. -/
inductive JoinsPairs : List (String × Value) → List Char → Prop
  | one {name text key : String} {v : Value}
      (h : LoneParameter name text { args := [], keywords := .ofList [(key, v)] }) :
      JoinsPairs [(key, v)] text.toList
  | more {name text key : String} {v : Value} {pairs : List (String × Value)} {rest : List Char}
      (h : LoneParameter name text { args := [], keywords := .ofList [(key, v)] }) {count : Nat}
      (hcount : count ≠ 0) (hmore : JoinsPairs pairs rest) :
      JoinsPairs ((key, v) :: pairs) (text.toList ++ (List.replicate count ',' ++ rest))

/-- Texts of values, of pairs, or of values and then of pairs with a comma between them. -/
inductive JoinsParams : List Value → List (String × Value) → List Char → Prop
  | values {args : List Value} {text : List Char} (h : JoinsValues args text) :
    JoinsParams args [] text
  | pairs {pairs : List (String × Value)} {text : List Char} (h : JoinsPairs pairs text) :
      JoinsParams [] pairs text
  | both {args : List Value} {pairs : List (String × Value)} {text rest : List Char}
    (h : JoinsValues args text)
      (h' : JoinsPairs pairs rest) : JoinsParams args pairs (text ++ ',' :: rest)

section

variable {args : List Value} {pairs : List (String × Value)} {text : List Char}

theorem JoinsValues.exists_part (h : JoinsValues args text) :
    ∃ symbols, Part text symbols ∧ ReadsValues args symbols := by
  induction h with
  | one h =>
    obtain ⟨symbols, hpart, hreads⟩ := h.value
    exact ⟨symbols, hpart, .one hreads⟩
  | more h _ ih =>
    obtain ⟨symbols, hpart, hreads⟩ := h.value
    obtain ⟨rest, hrest, hmore⟩ := ih
    exact ⟨_, hpart.separated Nat.one_ne_zero hrest, .more hreads rfl hmore⟩

theorem JoinsPairs.exists_part (h : JoinsPairs pairs text) :
    ∃ symbols, Part text symbols ∧ ReadsPairs pairs symbols := by
  induction h with
  | one h => exact h.pair
  | more h hcount _ ih =>
    obtain ⟨symbols, hpart, hreads⟩ := h.pair
    obtain ⟨rest, hrest, hmore⟩ := ih
    refine ⟨_, hpart.separated hcount hrest,
      .more hreads (by simpa using hcount) (fun comma hcomma => ?_) hmore⟩
    rw [List.eq_of_mem_replicate hcomma]
    rfl

theorem JoinsParams.exists_part (h : JoinsParams args pairs text) :
    ∃ symbols, Part text symbols ∧ ReadsParams args pairs symbols := by
  cases h with
  | values h =>
    obtain ⟨symbols, hpart, hreads⟩ := h.exists_part
    exact ⟨symbols, hpart, .values hreads⟩
  | pairs h =>
    obtain ⟨symbols, hpart, hreads⟩ := h.exists_part
    exact ⟨symbols, hpart, .pairs hreads⟩
  | both h h' =>
    obtain ⟨symbols, hpart, hreads⟩ := h.exists_part
    obtain ⟨rest, hrest, hmore⟩ := h'.exists_part
    exact ⟨_, hpart.separated Nat.one_ne_zero hrest, .both hreads rfl hmore⟩

end

/-- Parameters that are joined are read completely and in order, be there a comma and a comment
behind them or not. The pairs are inserted from left to right : a key keeps the place where it comes
first, and has the value of the last pair with it. -/
theorem Script.ofText_parameters (name : String) {directive : String}
    (hdirective : IsWord directive.toList)
    {args : List Value} {pairs : List (String × Value)} {text : List Char}
    (h : JoinsParams args pairs text)
    (trailing : Bool) {remark : List Char} (hremark : Remark remark) (e : Option LineEnding) :
    Script.ofText name (directive ++ " " ++
        String.ofList (text ++ (trailingComma trailing ++ remark) ++ LineEnding.ends e)) =
      .ok { commands := #[{ directive, parameters := { args, keywords := .ofList pairs } }] } ∧
    (Keywords.ofList pairs).keys = (pairs.map Prod.fst).eraseDups ∧
    ∀ key, (Keywords.ofList pairs).get? key = pairs.reverse.lookup key := by
  obtain ⟨symbols, hpart, hreads⟩ := h.exists_part
  exact ⟨hpart.ofText_command hreads name hdirective trailing hremark e, Keywords.keys_ofList pairs,
    Keywords.get?_ofList pairs⟩

/-- The key that comes twice keeps its place and has its second value. -/
theorem Script.ofText_parameters_repeated :
    let p : Value := .expr (.name "p")
    let c : Value := .action "c"
    let keywords := Keywords.ofList [("x", p), ("y", c), ("x", c)]
    Script.ofText "" "m1 p, x=p,,y=c,x=c, # note" =
        .ok { commands := #[{ directive := "m1", parameters := { args := [p], keywords } }] } ∧
      keywords.keys = ["x", "y"] ∧ keywords.get? "x" = some c := by
  intro p c keywords
  obtain ⟨⟨hp, hx⟩, hy, hx'⟩ : (LoneParameter "" "p" { args := [p], keywords := .empty } ∧
      LoneParameter "" " x=p" { args := [], keywords := .ofList [("x", p)] }) ∧
      LoneParameter "" "y=c" { args := [], keywords := .ofList [("y", c)] } ∧
      LoneParameter "" "x=c" { args := [], keywords := .ofList [("x", c)] } := by
    refine ⟨⟨.of_verdict ?_ ?_, .of_verdict ?_ ?_⟩, .of_verdict ?_ ?_, .of_verdict ?_ ?_⟩ <;>
      decide +kernel
  have hjoins :=
    JoinsParams.both (.one hp) (.more hx (Nat.succ_ne_zero 1) (.more hy Nat.one_ne_zero (.one hx')))
  have hremark : Remark (' ' :: '#' :: " note".toList) :=
    .blank rfl (.comment (by simp [Text.isLineBreak]))
  obtain ⟨hreads, hkeys, hget⟩ := Script.ofText_parameters "" isWord_m1 hjoins true hremark none
  refine ⟨(congrArg (Script.ofText "") ?_).trans hreads, hkeys, hget "x"⟩
  rw [← String.toList_inj]
  simp [trailingComma, LineEnding.ends]

end OpticScript
