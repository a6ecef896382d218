import OpticScript.Proofs.Lexer.Scanned
import OpticScript.Proofs.Script.Endings
import OpticScript.Proofs.Script.LineByLine
import OpticScript.Proofs.Script.Parts

/-!
# Scripts and comments

A text may have a comment put behind any of its lines, and blank lines and lines of a comment
between them (`Text.Annotated`). A line with a remark behind it is read as the same form, since the
remark comes behind all of its symbols or goes on with the comment that is there
(`LineForm.ReadsLine.remarked`), and a line of nothing but a remark is blank. So the same script is
read (`Script.ofSource_annotated`).

A line feed that is put behind a carriage return is no line of its own, but the end of the line is
longer then. The blank line is lost, and nothing else.
-/

namespace OpticScript

open Lexeme

/-! ## Lines with a remark -/

/-- A remark behind a piece of a line goes on with the comment that the piece ends with, or it comes
behind all symbols of the piece. -/
theorem Reading.ofLine_remarked {tab : TabStop} {number : Nat} {column : UInt64}
    {body note : List Char} (hnote : Remark note)
    (hbody : ∀ c ∈ body, Text.isLineBreak c = false)
    (h : (Reading.ofLine tab number column body).fault = none) :
    ∃ before more more', (Reading.ofLine tab number column body).tokens.map Token.symbol =
      before ++ more ∧
      Cut (body ++ note) (before ++ more') ∧ (∀ symbol ∈ before, symbol.kind ≠ .comment) ∧
      IsOptional .comment more ∧ IsOptional .comment more' := by
  fun_induction Reading.ofLine tab number column body with
  | case1 column =>
    obtain ⟨symbols, hcut, hsymbols⟩ := hnote.cut
    exact ⟨[], [], symbols, rfl, hcut, by simp, .inl rfl, hsymbols⟩
  | case2 column c text hc ih =>
    obtain ⟨before, more, more', heq, hcut, hrest⟩ := ih (List.forall_mem_cons.1 hbody).2 h
    exact ⟨before, more, more', heq, hcut.blank hc, hrest⟩
  | case3 => simp [Reading.faulty] at h
  | case4 => simp [Reading.faulty] at h
  | case5 column c text hc lexeme hscan taken token literal hliteral ih =>
    by_cases hhash : c = '#'
    · subst hhash
      have htext := (List.forall_mem_cons.1 hbody).2
      obtain ⟨symbols, hremark, -⟩ := hnote.cut
      obtain ⟨comment, hkind, hcut⟩ := Cut.comment htext
      obtain ⟨comment', hkind', hcut'⟩ :=
        Cut.comment (List.forall_mem_append.2 ⟨htext, hremark.unbroken⟩)
      obtain ⟨tokens, hreads, hsymbols⟩ := hcut.reads tab number column
      rw [Reading.ofLine_cons rfl hscan hliteral] at hreads
      rw [hreads]
      exact ⟨[], [comment], [comment'], hsymbols, hcut', by simp, .inr ⟨_, rfl, hkind⟩,
        .inr ⟨_, rfl, hkind'⟩⟩
    · have hkind := kind_ne_comment hhash hscan
      obtain ⟨before, more, more', heq, hcut, hbefore, hmore⟩ := ih (Reading.unbroken_drop hbody) h
      have hsize := (Reading.scan_unbroken hbody hscan).1
      -- the lexeme is the same in front of the remark
      have hscans : (Symbol.mk lexeme.kind (String.ofList taken) literal).Scans
          ((c :: text).drop lexeme.size ++ note) := by
        refine ⟨?_, ⟨lexeme, ?_, rfl, ?_⟩, ?_⟩ <;> simp only [String.toList_ofList]
        · exact fun d hd => hbody d (List.mem_of_mem_take hd)
        · rw [← List.append_assoc, List.take_append_drop]
          exact scan_of_pauses hnote.pauses (hbody c List.mem_cons_self) hscan hkind
        · exact (List.length_take_of_le hsize).symm
        · exact hliteral
      have hall := hcut.cons hscans
      simp only [String.toList_ofList] at hall
      rw [← List.append_assoc, List.take_append_drop] at hall
      exact ⟨_ :: before, more, more', congrArg (_ :: ·) heq, hall,
        List.forall_mem_cons.2 ⟨hkind, hbefore⟩, hmore⟩

/-- A line with a remark behind it is read as the same form. -/
theorem LineForm.ReadsLine.remarked {form : LineForm} {body note : List Char}
    {symbols : List Symbol}
    (h : form.ReadsLine symbols) (hcut : Cut body symbols) (hnote : Remark note) :
    ∃ symbols', Cut (body ++ note) symbols' ∧ form.ReadsLine symbols' ∧
      ∀ spellings, bracketKinds (symbols' :: spellings) = bracketKinds (symbols :: spellings) := by
  obtain ⟨tokens, hreads, rfl⟩ := hcut.reads default 1 0
  have hclean : (Reading.ofLine default 1 0 body).fault = none := by rw [hreads]
  obtain ⟨before, more, more', heq, hcut', hbefore, hmore, hmore'⟩ :=
    Reading.ofLine_remarked hnote hcut.unbroken hclean
  rw [hreads] at heq
  rw [show tokens.map Token.symbol = before ++ more from heq] at h ⊢
  exact ⟨before ++ more', hcut', .mk (h.readsFrom hbefore hmore) hbefore hmore',
    fun spellings => (bracketKinds_note hmore').trans (bracketKinds_note hmore).symm⟩

/-- A line of nothing but a remark is blank. -/
theorem Remark.exists_reads {text : List Char} (h : Remark text) :
    ∃ symbols, Cut text symbols ∧ LineForm.blank.ReadsLine symbols ∧
      ∀ spellings, bracketKinds (symbols :: spellings) = bracketKinds spellings := by
  obtain ⟨symbols, hcut, hnote⟩ := h.cut
  have hreads : LineForm.blank.ReadsLine ([] ++ symbols) :=
    .mk LineForm.readsFrom_nil (by simp) hnote
  have hkinds : ∀ spellings, bracketKinds (([] ++ symbols) :: spellings) =
      bracketKinds ([] :: spellings) :=
    fun _ => bracketKinds_note hnote
  exact ⟨symbols, hcut, hreads, hkinds⟩

/-! ## Forms with blank lines among them -/

/-- The lines make the same commands, and the same surfaces before the first one. -/
structure SameCommands (forms forms' : List LineForm) : Prop where
  surfaces_eq : surfacesOf forms' = surfacesOf forms
  commands_eq : commandsOf forms' = commandsOf forms

namespace SameCommands

variable {forms forms' : List LineForm}

theorem refl (forms : List LineForm) : SameCommands forms forms := ⟨rfl, rfl⟩

theorem cons (h : SameCommands forms forms') (form : LineForm) :
    SameCommands (form :: forms) (form :: forms') := by
  cases form <;>
    exact ⟨by simp [surfacesOf, h.surfaces_eq], by simp [commandsOf, h.surfaces_eq, h.commands_eq]⟩

theorem blank_right_iff : SameCommands forms (.blank :: forms') ↔ SameCommands forms forms' :=
  ⟨fun h => ⟨h.surfaces_eq, h.commands_eq⟩, fun h => ⟨h.surfaces_eq, h.commands_eq⟩⟩

end SameCommands

/-! ## Texts -/

namespace Text

/-- What comes of lines when remarks are put behind them, and lines of nothing but a remark between
them. -/
inductive Annotated : List (List Char) → List Char → Prop
  | finish : Annotated [] []
  | insert {note text : List Char} {lines : List (List Char)} (hnote : Remark note)
    (h : Annotated lines text) : Annotated lines (note ++ '\n' :: text)
  | line {body note text : List Char} {lines : List (List Char)} {e : LineEnding}
      (hbody : ∀ c ∈ body, isLineBreak c = false) (hnote : Remark note) (h : Annotated lines text) :
      Annotated ((body ++ e.chars) :: lines) (body ++ note ++ e.chars ++ text)
  | last {body note : List Char} (hne : body ≠ []) (hbody : ∀ c ∈ body, isLineBreak c = false)
      (hnote : Remark note) : Annotated [body] (body ++ note)

section

variable {pieces : List (List Char)} {body text : List Char} {spellings : List (List Symbol)}
  {forms forms' : List LineForm} {symbols : List Symbol} {form : LineForm}

/-- A line that is read, in front of lines that are read one by one. -/
theorem exists_reads_cons (hcut : Cut body symbols) (hform : form.ReadsLine symbols)
    (e : LineEnding) (hmore : List.Forall₂ CutLine (lines text) spellings)
    (hforms : List.Forall₂ LineForm.ReadsLine forms' spellings)
    (hsame : SameCommands forms forms') :
    ∃ spellings' forms'', List.Forall₂ CutLine (lines (body ++ e.chars ++ text)) spellings' ∧
      List.Forall₂ LineForm.ReadsLine forms'' spellings' ∧
      bracketKinds spellings' = bracketKinds (symbols :: spellings) ∧
      SameCommands (form :: forms) forms'' := by
  obtain ⟨e', hlines | ⟨rest, rfl, hlines⟩⟩ := lines_ended_or e hcut.unbroken text <;> rw [hlines]
  · exact ⟨symbols :: spellings, form :: forms', .cons ⟨_, some e', rfl, hcut⟩ hmore,
      .cons hform hforms, rfl, hsame.cons form⟩
  · -- the blank line that the line feed was is lost
    rw [show lines ('\n' :: rest) = ['\n'] :: lines rest from lines_ending (.inl rfl)] at hmore
    cases hmore with
    | @cons _ _ _ spellings hblank hmore =>
      obtain rfl := hblank.eq_nil_of_blank
      cases hforms with
      | @cons first _ forms' _ hfirst hforms =>
        obtain rfl := hfirst.eq_blank
        refine ⟨symbols :: spellings, form :: forms', .cons ⟨_, some e', rfl, hcut⟩ hmore,
          .cons hform hforms, ?_, (SameCommands.blank_right_iff.1 hsame).cons form⟩
        simp [bracketKinds]

/-- Lines that are read one by one are read so with remarks among them. -/
theorem Annotated.exists_reads (h : Annotated pieces text)
    (hcut : List.Forall₂ CutLine pieces spellings)
    (hreads : List.Forall₂ LineForm.ReadsLine forms spellings) :
    ∃ spellings' forms', List.Forall₂ CutLine (lines text) spellings' ∧
      List.Forall₂ LineForm.ReadsLine forms' spellings' ∧
      bracketKinds spellings' = bracketKinds spellings ∧
      SameCommands forms forms' := by
  induction h generalizing spellings forms with
  | finish =>
    cases hcut
    cases hreads
    exact ⟨[], [], .nil, .nil, rfl, .refl _⟩
  | @insert note text _ hnote _ ih =>
    obtain ⟨spellings', forms', hcut', hreads', hkinds, hsame⟩ := ih hcut hreads
    obtain ⟨symbols, hfirst, hblank, hnone⟩ := hnote.exists_reads
    have hlines : lines (note ++ LineEnding.lineFeed.chars ++ text) =
        (note ++ ['\n']) :: lines text :=
      lines_ended_of_head .lineFeed hfirst.unbroken (by simp)
    rw [show note ++ '\n' :: text = note ++ LineEnding.lineFeed.chars ++
      text by simp [LineEnding.chars], hlines]
    exact ⟨symbols :: spellings', .blank :: forms', .cons ⟨note, some .lineFeed, rfl, hfirst⟩ hcut',
      .cons hblank hreads', (hnone _).trans hkinds, SameCommands.blank_right_iff.2 hsame⟩
  | @line body note text _ e hbody hnote _ ih =>
    cases hcut with
    | cons hline hcut =>
      cases hreads with
      | cons hform hreads =>
        obtain ⟨symbols', hcut', hform', hkinds⟩ :=
          hform.remarked (CutLine.cut (e := some e) hline hbody) hnote
        obtain ⟨spellings', forms', hmore, hforms, hkinds', hsame⟩ := ih hcut hreads
        obtain ⟨spellings'', forms'', hall, hforms', hkinds'', hsame'⟩ :=
          exists_reads_cons hcut' hform' e hmore hforms hsame
        refine ⟨spellings'', forms'', hall, hforms', ?_, hsame'⟩
        rw [hkinds'', hkinds, bracketKinds_cons, bracketKinds_cons, hkinds']
  | @last body note hne hbody hnote =>
    cases hcut with
    | @cons _ symbols _ _ hline hcut =>
      cases hcut
      cases hreads with
      | @cons form _ _ _ hform hreads =>
        cases hreads
        rw [← List.append_nil body] at hline
        obtain ⟨symbols', hcut', hform', hkinds⟩ :=
          hform.remarked (CutLine.cut (e := none) hline hbody) hnote
        rw [lines_body (by simp [hne]) hcut'.unbroken]
        exact ⟨[symbols'], [form], .cons ⟨_, none, (List.append_nil _).symm, hcut'⟩ .nil,
          .cons hform' .nil, hkinds [], .refl _⟩

end

end Text

/-- Comments and blank lines are transparent : if a script is read from a text, the same script is
read from the text with a comment, or blanks, put behind any of its lines, and with lines of blanks
or of a comment put anywhere between them. -/
theorem Script.ofSource_annotated {name text text' : String} {tab : TabStop}
    {source source' : Source}
    {script : Script} (h : source.Holds name text tab) (h' : source'.Holds name text' tab)
    (hannotated : Text.Annotated (Text.lines text.toList) text'.toList)
    (hscript : Script.ofSource source = .ok script) : Script.ofSource source' = .ok script := by
  rw [h.eq_ofText, Script.ofText_eq_ok_iff] at hscript
  obtain ⟨spellings, forms, ⟨hcut, hreads, hbalanced⟩, hfirst, hcommands⟩ := hscript
  obtain ⟨spellings', forms', hcut', hreads', hkinds, hsame⟩ := hannotated.exists_reads hcut hreads
  rw [h'.eq_ofText, Script.ofText_eq_ok_iff]
  exact ⟨spellings', forms', ⟨hcut', hreads', hkinds ▸ hbalanced⟩, hsame.surfaces_eq.trans hfirst,
    hcommands.trans hsame.commands_eq.symm⟩

/-- A comment in front of the text and behind each line of it, and a blank line behind a carriage
return. -/
theorem Script.ofSource_annotated_surface :
    let text := "m1 x=z,\r+y"
    let text' := "# first\nm1 x=z, # \"\r\n+y #"
    let script : Script := { commands := #[
      { directive := "m1", parameters := parametersOf [] [("x", .expr (.name "z"))],
        surfaces := #[parametersOf [.expr (.name "y")] []] }] }
    Text.Annotated (Text.lines text.toList) text'.toList ∧
      Script.ofSource (.ofText "" text) = .ok script ∧
      Script.ofSource (.ofBytes "" text'.toUTF8.data.toList) = .ok script := by
  intro text text' script
  have hplain : ∀ {body : List Char}, body.any Text.isLineBreak = false →
      ∀ c ∈ body, Text.isLineBreak c = false := fun h => by simpa using h
  have hlines : Text.lines text.toList =
      ["m1 x=z,".toList ++ LineEnding.carriageReturn.chars, "+y".toList] := by decide
  have htext : text'.toList = '#' :: " first".toList ++ '\n' ::
      ("m1 x=z,".toList ++ ' ' :: '#' :: " \"".toList ++
      LineEnding.carriageReturn.chars ++ ([] ++ '\n' :: ("+y".toList ++ ' ' :: ['#']))) := by decide
  have hannotated : Text.Annotated (Text.lines text.toList) text'.toList := by
    rw [hlines, htext]
    exact .insert (.comment (hplain rfl)) (.line (hplain rfl) (.blank rfl (.comment (hplain rfl)))
      (.insert .nothing (.last (by decide) (hplain rfl) (.blank rfl (.comment (hplain rfl))))))
  have hscript : Script.ofSource (.ofText "" "m1 x=z,\r+y") = .ok script := by
    rw [Script.ofSource_eq_verdict]
    decide +kernel
  exact ⟨hannotated, hscript, Script.ofSource_annotated (.inl rfl) (.inr rfl) hannotated hscript⟩

end OpticScript
