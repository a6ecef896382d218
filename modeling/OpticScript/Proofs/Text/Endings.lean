import Mathlib.Data.List.Forall2
import OpticScript.Proofs.Lexeme.Locality
import OpticScript.Proofs.Text.Lines

/-!
# Line endings

A text may end its lines in one of three ways (`LineEnding`). Texts of the same lines that
end them in different ways (`joined`) are cut into lines that differ in their ends at most
(`SameLine`, `sameLines_joined`).

The end of a line has no bearing on the lexeme that the line begins with, unless it is the
end itself (`Lexeme.scan_ends`) : not even on a string or a comment that it cuts off.
-/

namespace OpticScript

/-- The ways to end a line. -/
inductive LineEnding where
  | lineFeed
  | carriageReturn
  | both
  deriving DecidableEq, Inhabited

namespace LineEnding

def chars : LineEnding → List Char
  | lineFeed => ['\n']
  | carriageReturn => ['\r']
  | both => ['\r', '\n']

def text (ending : LineEnding) : String := String.ofList ending.chars

/-- A line end, or none. -/
def ends : Option LineEnding → List Char
  | none => []
  | some ending => ending.chars

end LineEnding

namespace Text

open LineEnding

/-- The lines with this ending between them, and behind the last one if the text is `ended`. -/
def joined (ending : LineEnding) (lines : List String) (ended : Bool) : String :=
  String.intercalate ending.text lines ++ if ended then ending.text else ""

/-- Lines that differ in their ends at most; either both of them have one or none has. -/
def SameLine (line line' : List Char) : Prop :=
  ∃ body first second, (∀ c ∈ body, isLineBreak c = false) ∧
    line = body ++ ends first ∧ line' = body ++ ends second ∧ first.isSome = second.isSome

section

variable {line line' body : List Char} {ending : LineEnding}

/-- What has no line break is not a part of a line end. -/
theorem takeWhile_ends {p : Char → Bool} (hp : ∀ c, p c = true → isLineBreak c = false)
    (text : List Char) (ending : Option LineEnding) :
    (text ++ ends ending).takeWhile p = text.takeWhile p := by
  refine Lexeme.takeWhile_append_of_head_not (fun c hc => Bool.eq_false_iff.2 fun h => ?_) text
  have hbreak : isLineBreak c = true := by
    rcases ending with _ | ending
    · simp [ends] at hc
    · cases ending <;> (obtain rfl := Option.some.inj hc; rfl)
  simp [hp c h] at hbreak

theorem dropWhile_ends {p : Char → Bool} (hp : ∀ c, p c = true → isLineBreak c = false)
    (text : List Char) (ending : Option LineEnding) :
    (text ++ ends ending).dropWhile p = text.dropWhile p ++ ends ending := by
  have happ := List.takeWhile_append_dropWhile (p := p) (l := text ++ ends ending)
  rw [takeWhile_ends hp] at happ
  have hsame : text.takeWhile p ++ (text ++ ends ending).dropWhile p =
      text.takeWhile p ++ (text.dropWhile p ++ ends ending) := by
    rw [happ, ← List.append_assoc, List.takeWhile_append_dropWhile]
  exact List.append_cancel_left hsame

theorem body_ends (hbody : ∀ c ∈ body, isLineBreak c = false) (ending : Option LineEnding) :
    Text.body (body ++ ends ending) = body := by
  rw [Text.body, takeWhile_ends (by simp), List.takeWhile_eq_self_iff]
  simpa using hbody

theorem isLine_ends (hbody : ∀ c ∈ body, isLineBreak c = false) (ending : Option LineEnding) :
    IsLine (body ++ ends ending) := by
  have hlength : bodyLength (body ++ ends ending) = body.length :=
    congrArg List.length (body_ends hbody ending)
  rw [IsLine, hlength, List.drop_left]
  rcases ending with _ | _ | _ | _ <;> simp [ends, chars]

/-- A line end is told by its last character. -/
theorem any_getLast_ends (hbody : ∀ c ∈ body, isLineBreak c = false) (ending : Option LineEnding) :
    (body ++ ends ending).getLast?.any isLineBreak = ending.isSome := by
  rcases ending with _ | _ | _ | _
  · rw [ends, List.append_nil, Option.isSome_none, Bool.eq_false_iff, ne_eq, Option.any_eq_true]
    rintro ⟨c, hc, hbreak⟩
    simp [hbody c (List.mem_of_getLast? hc)] at hbreak
  all_goals simp [ends, chars, isLineBreak]

theorem SameLine.body_eq (h : SameLine line line') :
    line'.takeWhile (fun c => !isLineBreak c) = line.takeWhile fun c => !isLineBreak c := by
  obtain ⟨body, first, second, hbody, rfl, rfl, -⟩ := h
  exact (body_ends hbody second).trans (body_ends hbody first).symm

theorem SameLine.isLine (h : SameLine line line') : IsLine line ∧ IsLine line' := by
  obtain ⟨body, first, second, hbody, rfl, rfl, -⟩ := h
  exact ⟨isLine_ends hbody first, isLine_ends hbody second⟩

theorem SameLine.any_getLast_eq (h : SameLine line line') :
    line'.getLast?.any isLineBreak = line.getLast?.any isLineBreak := by
  obtain ⟨body, first, second, hbody, rfl, rfl, hsome⟩ := h
  rw [any_getLast_ends hbody, any_getLast_ends hbody, hsome]

theorem SameLine.eq_nil_iff (h : SameLine line line') : line = [] ↔ line' = [] := by
  obtain ⟨body, first, second, -, rfl, rfl, hsome⟩ := h
  have hends : ∀ e, ends e = [] ↔ e.isSome = false := by
    rintro (_ | _ | _ | _) <;> decide
  rw [List.append_eq_nil_iff, List.append_eq_nil_iff, hends, hends, hsome]

theorem SameLine.refl (hbody : ∀ c ∈ body, isLineBreak c = false) : SameLine body body :=
  ⟨body, none, none, hbody, (List.append_nil _).symm, (List.append_nil _).symm, rfl⟩

theorem SameLine.nil : SameLine [] [] := .refl (by simp)

theorem SameLine.ended (hbody : ∀ c ∈ body, isLineBreak c = false) (u v : LineEnding) :
    SameLine (body ++ u.chars) (body ++ v.chars) :=
  ⟨body, some u, some v, hbody, rfl, rfl, rfl⟩

end

/-! ## Joined lines -/

/-- The characters of the joined lines. -/
def joinedChars (ending : LineEnding) (bodies : List (List Char)) (ended : Bool) : List Char :=
  ending.chars.intercalate bodies ++ if ended then ending.chars else []

section

variable {bodies : List (List Char)} {body next : List Char} {ended : Bool} (u v : LineEnding)

theorem toList_joined (lines : List String) (ended : Bool) :
    (joined u lines ended).toList = joinedChars u (lines.map String.toList) ended := by
  cases ended <;> simp [joined, joinedChars, LineEnding.text, String.toList_intercalate]

theorem joinedChars_cons_cons : joinedChars u (body :: next :: bodies) ended =
    body ++ u.chars ++ joinedChars u (next :: bodies) ended := by
  simp [joinedChars, List.intercalate_cons_cons]

/-- Lines that end in carriage returns only have no line feed in them. -/
theorem lineFeed_notMem_joinedChars
    (hbodies : ∀ body ∈ bodies, ∀ c ∈ body, isLineBreak c = false) :
    '\n' ∉ joinedChars .carriageReturn bodies ended := by
  have hending : '\n' ∉ LineEnding.carriageReturn.chars := by decide
  have hended : '\n' ∉ if ended then LineEnding.carriageReturn.chars else [] := by
    cases ended
    · exact List.not_mem_nil
    · exact hending
  induction bodies with
  | nil => exact hended
  | cons body bodies ih =>
    obtain ⟨hbody, hbodies⟩ := List.forall_mem_cons.1 hbodies
    have hline : '\n' ∉ body := fun hc => absurd (hbody _ hc) (by decide)
    rcases bodies with _ | ⟨next, bodies⟩
    · rw [joinedChars, List.intercalate_singleton, List.mem_append]
      exact not_or_intro hline hended
    · rw [joinedChars_cons_cons]
      simpa using ⟨hline, hending, ih hbodies⟩

/-- A line and its end come before the rest of the text, unless a line feed there is a part of the
end. -/
theorem lines_ended_of_head (hbody : ∀ c ∈ body, isLineBreak c = false) {rest : List Char}
    (hrest : u = .carriageReturn → rest.head? ≠ some '\n') :
    lines (body ++ u.chars ++ rest) = (body ++ u.chars) :: lines rest := by
  refine ((isLines_lines rest).cons hbody ?_).lines_eq
  cases u with
  | lineFeed => exact .inl rfl
  | both => exact .inr (.inl rfl)
  | carriageReturn => exact .inr (.inr ⟨rfl, hrest rfl⟩)

/-- A line comes before what is behind it, unless a line feed there becomes a part of its end. -/
theorem lines_ended_or (hbody : ∀ c ∈ body, isLineBreak c = false) (text : List Char) :
    ∃ v : LineEnding, lines (body ++ u.chars ++ text) = (body ++ v.chars) :: lines text ∨
      ∃ rest, text = '\n' :: rest ∧
        lines (body ++ u.chars ++ text) = (body ++ v.chars) :: lines rest := by
  by_cases hmerge : u = .carriageReturn ∧ text.head? = some '\n'
  · obtain ⟨rfl, hhead⟩ := hmerge
    obtain ⟨rest, rfl⟩ := List.head?_eq_some_iff.1 hhead
    refine ⟨.both, .inr ⟨rest, rfl, ?_⟩⟩
    have hboth : lines (body ++ LineEnding.both.chars ++ rest) = (body ++ LineEnding.both.chars) ::
        lines rest :=
      lines_ended_of_head .both hbody (by simp)
    rw [← hboth]
    simp [LineEnding.chars]
  · exact ⟨u, .inl (lines_ended_of_head u hbody fun hreturn hhead => hmerge ⟨hreturn, hhead⟩)⟩

theorem lines_ended (hbody : ∀ c ∈ body, isLineBreak c = false) {rest : List Char}
    (hrest : u = .carriageReturn → '\n' ∉ rest) :
    lines (body ++ u.chars ++ rest) = (body ++ u.chars) :: lines rest :=
  lines_ended_of_head u hbody fun hreturn hhead => hrest hreturn (List.mem_of_head? hhead)

/-- A text of a single line, be there an end or not. -/
theorem lines_ends (hne : body ≠ []) (hbody : ∀ c ∈ body, isLineBreak c = false)
    (e : Option LineEnding) : lines (body ++ ends e) = [body ++ ends e] := by
  rcases e with _ | ending
  · rw [ends, List.append_nil, lines_body hne hbody]
  · have hnil : ending = .carriageReturn → '\n' ∉ ([] : List Char) := fun _ => List.not_mem_nil
    simpa [lines, ends] using lines_ended ending hbody hnil

theorem sameLines_joinedChars (hbodies : ∀ body ∈ bodies, ∀ c ∈ body, isLineBreak c = false) :
    List.Forall₂ SameLine (lines (joinedChars u bodies ended))
      (lines (joinedChars v bodies ended)) := by
  have hlast : ∀ (w : LineEnding) {body : List Char}, (∀ c ∈ body, isLineBreak c = false) →
      lines (body ++ w.chars) = [body ++ w.chars] := fun w body hbody => by
    have hnil : w = .carriageReturn → '\n' ∉ ([] : List Char) := fun _ => List.not_mem_nil
    simpa [lines] using lines_ended w hbody hnil
  induction bodies with
  | nil =>
    cases ended
    · exact .nil
    · have hnil : ∀ c ∈ ([] : List Char), isLineBreak c = false := by simp
      have hlines : ∀ w, lines (joinedChars w [] true) = [[] ++ w.chars] := fun w => hlast w hnil
      rw [hlines, hlines]
      exact .cons (.ended hnil u v) .nil
  | cons body bodies ih =>
    obtain ⟨hbody, hbodies⟩ := List.forall_mem_cons.1 hbodies
    rcases bodies with _ | ⟨next, bodies⟩
    · cases ended
      · simp only [joinedChars, List.intercalate_singleton, Bool.false_eq_true, if_false,
          List.append_nil]
        rcases eq_or_ne body [] with rfl | hne
        · exact .nil
        · rw [lines_body hne hbody]
          exact .cons (.refl hbody) .nil
      · simp only [joinedChars, List.intercalate_singleton, if_true, hlast _ hbody]
        exact .cons (.ended hbody u v) .nil
    · have hrest : ∀ w, w = .carriageReturn → '\n' ∉ joinedChars w (next :: bodies) ended := by
        rintro _ rfl
        exact lineFeed_notMem_joinedChars hbodies
      rw [joinedChars_cons_cons, joinedChars_cons_cons, lines_ended u hbody (hrest u),
        lines_ended v hbody (hrest v)]
      exact .cons (.ended hbody u v) (ih hbodies)

/-- The lines of the joined texts differ in their ends at most. -/
theorem sameLines_joined {lines : List String}
    (hlines : ∀ line ∈ lines, ∀ c ∈ line.toList, isLineBreak c = false) (ended : Bool) :
    List.Forall₂ SameLine (Text.lines (joined u lines ended).toList)
      (Text.lines (joined v lines ended).toList) := by
  rw [toList_joined, toList_joined]
  exact sameLines_joinedChars u v (by simpa using hlines)

end

end Text

/-! ## Lexemes -/

namespace Lexeme

open Text LineEnding

variable (e : Option LineEnding)

theorem pauses_ends : Pauses (ends e) := by
  rcases e with _ | _ | _ | _ <;> simp [Pauses, ends, chars, isLineBreak]

theorem closingSize_ends (quote : Char) (text : List Char) :
    closingSize? quote (text ++ ends e) = closingSize? quote text := by
  fun_induction closingSize? quote text with
  | case1 => rcases e with _ | _ | _ | _ <;> simp [ends, chars, closingSize?, isLineBreak]
  | case2 => rcases e with _ | _ | _ | _ <;> simp [ends, chars, closingSize?, isLineBreak]
  | case3 c rest ih => simp [closingSize?, ih]
  | case4 c rest hlast hmore hc =>
    rw [List.cons_append, closingSize_cons (ne_backslash hlast hmore), if_pos hc]
  | case5 rest hlast hmore hc =>
    rw [List.cons_append, closingSize_cons (ne_backslash hlast hmore), if_neg hc, if_pos rfl]
  | case6 c rest hlast hmore hc hquote ih =>
    rw [List.cons_append, closingSize_cons (ne_backslash hlast hmore), if_neg hc, if_neg hquote, ih]

theorem quoteSize_ends (text : List Char) : quoteSize? (text ++ ends e) = quoteSize? text := by
  rcases text with _ | ⟨c, rest⟩
  · rcases e with _ | _ | _ | _ <;> rfl
  · simp only [List.cons_append, quoteSize?, closingSize_ends]

theorem commentSize_ends (text : List Char) :
    commentSize? (text ++ ends e) = commentSize? text := by
  rcases text with _ | ⟨c, rest⟩
  · rcases e with _ | _ | _ | _ <;> rfl
  · rcases eq_or_ne c '#' with rfl | hc
    · simp only [List.cons_append, commentSize?,
        takeWhile_ends (p := fun c => !isLineBreak c) (by simp)]
    · simp [commentSize?, hc]

/-- The lexeme that a line begins with does not depend on the end of the line. -/
theorem scan_ends {c : Char} (hc : isLineBreak c = false) (rest : List Char) :
    scan? (c :: rest ++ ends e) = scan? (c :: rest) := by
  have hbreak : lineBreakSize? (c :: rest ++ ends e) = lineBreakSize? (c :: rest) :=
    (lineBreakSize_of_cons hc _).trans (lineBreakSize_of_cons hc _).symm
  have hpauses := pauses_ends e
  simp only [scan?, hbreak, commentSize_ends, numeralSize_append hpauses, quoteSize_ends,
    wordSize_append hpauses, punctuation_append hpauses]

end Lexeme

end OpticScript
