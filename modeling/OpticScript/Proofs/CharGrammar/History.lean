import OpticScript.Proofs.CharGrammar.Ranking

/-!
# A memo table has no history

What a rule of a ranked grammar over characters comes to does not depend on what was called
before : after any calls, and with the cursor put anywhere in the text, it gives the result that
it gives with an empty table, and stops where it stops with that (`call_of_reached`).

Every call keeps the parse `Steady` : each memo is the outcome of its rule where it begins
(`State.Sound`), and the cursor is within the text. The memo of a rule that is being grown is not
an outcome yet. It is pending, and only the rule itself can read it (`Ranking.Clear`), so no
other memo is made from it, and at the end of a call none is pending.
-/

namespace OpticScript.Packrat

namespace CharGrammar

/-- The parses that come of calls and of putting the cursor anywhere in the text. -/
inductive Reached (rules : CharGrammar) (text : String) : CharParse → Prop
  | start : Reached rules text (start rules text)
  | call {parse : CharParse} (h : Reached rules text parse) (index : Nat) :
    Reached rules text (call rules index parse).2
  | reset {parse : CharParse} (h : Reached rules text parse) {pos : Nat}
    (hpos : pos ≤ text.length) : Reached rules text (parse.moveTo pos)

/-- The cursor is within the text, and every memo is an outcome that depends on nothing behind
the end of the text. -/
structure Steady (rules : CharGrammar) (text : Array Char) (parse : CharParse) : Prop where
  sound : parse.Sound (view text) (toGrammar rules) .plain .empty (text.size + 1)
  cursor_le : parse.cursor ≤ text.size

section

variable {rules : CharGrammar} {rank : Nat → Nat} {text : Array Char} {parse : CharParse}

theorem Steady.text_eq (h : Steady rules text parse) : parse.feed.text = text := h.sound.holds

theorem Steady.moveTo (h : Steady rules text parse) {pos : Nat} (hpos : pos ≤ text.size) :
    Steady rules text (parse.moveTo pos) :=
  ⟨h.sound.moveTo (Nat.le_succ_of_le hpos), hpos⟩

theorem steady_start (rules : CharGrammar) (text : String) :
    Steady rules text.toList.toArray (start rules text) where
  sound := {
    holds := rfl
    cursor_le := Nat.zero_le _
    get?_of_pending := fun h => by simp at h
    settled := fun h => by simp [start] at h }
  cursor_le := Nat.zero_le _

/-- A call takes as much fuel as its rule needs. -/
theorem Steady.comesTo_finishes (h : Steady rules text parse) (hranked : rules.RankedBy rank)
    (index : Nat) : (comesTo rules text (fuel rules parse) index parse.cursor).Finishes := by
  have hle := h.cursor_le
  rw [← h.text_eq] at hle ⊢
  exact hranked.comesTo_finishes parse index hle

/-- A call answers what the rule comes to and stops there, and the parse is steady again. -/
theorem Steady.call (h : Steady rules text parse) (hranked : rules.RankedBy rank) (index : Nat) :
    ∃ result stop, (call rules index parse).1 = .ok result ∧
      (call rules index parse).2.cursor = stop ∧ Steady rules text (call rules index parse).2 ∧
      ∀ fuel, (comesTo rules text fuel index parse.cursor).Finishes →
        (comesTo rules text fuel index parse.cursor).answer = .ok result ∧
        (comesTo rules text fuel index parse.cursor).stop = stop := by
  have hfinishes := h.comesTo_finishes hranked index
  obtain ⟨result, hanswer⟩ := hranked.exists_answer hfinishes
  have hupTo : (comesTo rules text (fuel rules parse) index parse.cursor).UpTo text.size :=
    comesTo_upTo _ index h.cursor_le
  have hagrees := call_agrees Wrapping.lawful_plain hranked.ranking (fuel rules parse) index h.sound
    fun _ _ _ hpending => by simp at hpending
  rw [Outcome.wrapped_plain] at hagrees
  change Agrees _ _ _ _ _ (comesTo rules text (fuel rules parse) index parse.cursor)
    (CharGrammar.call rules index parse) at hagrees
  unfold Agrees at hagrees
  rw [hanswer] at hagrees
  obtain ⟨hresult, hstop, hsound⟩ := hagrees
  rw [Nat.max_eq_left hupTo.reach_le] at hsound
  refine ⟨result, _, hresult, hstop, ⟨hsound, hstop ▸ hupTo.stop_le _ hanswer⟩, fun n hn => ?_⟩
  have heq : comesTo rules text n index parse.cursor = comesTo rules text _ index parse.cursor :=
    evaluate_eq_of_finishes hfinishes hn
  rw [heq]
  exact ⟨hanswer, rfl⟩

theorem Reached.steady {text : String} (h : Reached rules text parse)
    (hranked : rules.RankedBy rank) : Steady rules text.toList.toArray parse := by
  induction h with
  | start => exact steady_start rules text
  | call _ index ih =>
    obtain ⟨_, _, -, -, hsteady, -⟩ := ih.call hranked index
    exact hsteady
  | reset _ hpos ih => exact ih.moveTo (by simpa [← String.length_toList] using hpos)

end

/-- The answers of a ranked grammar do not depend on what was called before. Every rule has an
answer at every position of the text, and it answers the same and stops at the same place as
with an empty table. -/
theorem call_of_reached {rules : CharGrammar} {rank : Nat → Nat} (hranked : rules.RankedBy rank)
    {text : String} {parse : CharParse} (hreached : Reached rules text parse) (index : Nat)
    {pos : Nat} (hpos : pos ≤ text.length) :
    ∃ result stop,
      ((call rules index (parse.moveTo pos)).1 = .ok result ∧
        (call rules index (parse.moveTo pos)).2.cursor = stop) ∧
      (call rules index ((start rules text).moveTo pos)).1 = .ok result ∧
        (call rules index ((start rules text).moveTo pos)).2.cursor = stop := by
  have hsize : pos ≤ text.toList.toArray.size := by
    simpa [← String.length_toList] using hpos
  have hsteady := (hreached.steady hranked).moveTo hsize
  have hfresh := (steady_start rules text).moveTo hsize
  obtain ⟨result, stop, hresult, hstop, -, hcomesTo⟩ := hsteady.call hranked index
  obtain ⟨result', stop', hresult', hstop', -, hcomesTo'⟩ := hfresh.call hranked index
  -- both are what the rule comes to with the fuel of either
  have hfinishes :
      (comesTo rules text.toList.toArray (fuel rules (start rules text)) index pos).Finishes :=
    hranked.comesTo_finishes (start rules text) index hsize
  obtain ⟨hanswer, hplace⟩ := hcomesTo _ hfinishes
  obtain ⟨hanswer', hplace'⟩ := hcomesTo' _ hfinishes
  obtain rfl : result = result' := Except.ok.inj (hanswer.symm.trans hanswer')
  obtain rfl : stop = stop' := hplace.symm.trans hplace'
  exact ⟨result, stop, ⟨hresult, hstop⟩, hresult', hstop'⟩

/-- Sums of digits. -/
def digitSums : CharGrammar :=
  [{ name := "sum", alternatives := [[.rule 0, .oneOf ['+'], .rule 1], [.rule 1]],
     leftRecursive := true },
   { name := "digit", alternatives := [[.oneOf ['1', '2', '3']]] }]

/-- Sums are of a higher rank than digits. -/
theorem rankedBy_digitSums : digitSums.RankedBy (fun index => 1 - index) := by
  refine ⟨by simp [digitSums], fun caller rule hrule alternative halternative index hindex => ?_⟩
  rcases caller with _ | _ | caller
  · obtain rfl := Option.some.inj hrule
    rcases (by simpa using halternative :
      alternative = [.rule 0, .oneOf ['+'], .rule 1] ∨ alternative = [.rule 1]) with rfl | rfl
    · exact .inr ⟨by simpa [leading] using hindex, rfl⟩
    · exact .inl (by simp_all [leading])
  · obtain rfl := Option.some.inj hrule
    obtain rfl : alternative = [.oneOf ['1', '2', '3']] := by simpa using halternative
    simp [leading] at hindex
  · simp [digitSums] at hrule

/-- A sum is read, and then what comes after its first sign. -/
theorem call_of_reached_digitSums :
    let later := (call digitSums 0 (start digitSums "1+2+3")).2.moveTo 2
    let fresh := (start digitSums "1+2+3").moveTo 2
    let rest := "sum(sum(digit(2)),+,digit(3))"
    digitSums.RankedBy (fun index => 1 - index) ∧
      ((call digitSums 0 later).1 = .ok (some rest) ∧ (call digitSums 0 later).2.cursor = 5) ∧
      (call digitSums 0 fresh).1 = .ok (some rest) ∧ (call digitSums 0 fresh).2.cursor = 5 := by
  have hreached : Reached digitSums "1+2+3" (call digitSums 0 (start digitSums "1+2+3")).2 :=
    .call .start 0
  have hcall : (call digitSums 0 ((call digitSums 0 (start digitSums "1+2+3")).2.moveTo 2)).1 =
      .ok (some "sum(sum(digit(2)),+,digit(3))") := rfl
  have hcursor : (call digitSums 0 ((call digitSums 0 (start digitSums "1+2+3")).2.moveTo
      2)).2.cursor = 5 := rfl
  obtain ⟨result, stop, ⟨hresult, hstop⟩, hfresh⟩ :=
    call_of_reached rankedBy_digitSums hreached 0 (show 2 ≤ "1+2+3".length by decide)
  obtain rfl := Except.ok.inj (hcall.symm.trans hresult)
  obtain rfl := hcursor.symm.trans hstop
  exact ⟨rankedBy_digitSums, ⟨hcall, hcursor⟩, hfresh⟩

end CharGrammar

end OpticScript.Packrat
