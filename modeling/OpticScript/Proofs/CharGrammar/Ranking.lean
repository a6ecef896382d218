import Mathlib.Data.Finset.Card
import Mathlib.Data.Finset.Range
import OpticScript.Packrat.CharGrammar
import OpticScript.Proofs.Packrat.Agreement

/-!
# Ranked grammars over characters

Rules over characters are ranked (`CharGrammar.RankedBy`) if what an alternative calls before
it takes a character is of a lower rank, or is the rule itself and that one is left recursive,
and no alternative aborts. Then the grammar is ranked in the sense of the engine
(`RankedBy.ranking`), and the end of the text is a wall for it.

The ranks may be anything. Only their order matters, so they can be taken from among as many
numbers as there are rules (`place`), and `CharGrammar.fuel` is enough for them
(`RankedBy.comesTo_finishes`). So a rule comes to a result at every position of the text
(`RankedBy.exists_answer`).
-/

namespace OpticScript.Packrat

namespace CharGrammar

/-- The rules that an alternative calls before it takes a character. -/
def leading : List Symbol → List Nat
  | .rule index :: rest => index :: leading rest
  | _ => []

/-- No alternative aborts, and each calls only rules of a lower rank before it takes a
character, but a left recursive rule may call itself. -/
structure RankedBy (rules : CharGrammar) (rank : Nat → Nat) : Prop where
  total : ∀ rule ∈ rules, ∀ alternative ∈ rule.alternatives, ∀ message,
    .abort message ∉ alternative
  descends : ∀ caller rule, rules[caller]? = some rule → ∀ alternative ∈ rule.alternatives,
    ∀ index ∈ leading alternative,
      rank index < rank caller ∨ index = caller ∧ rule.leftRecursive = true

/-- The number of rules of a lower rank, counted from one; a number with no rule has none. -/
def place (rules : CharGrammar) (rank : Nat → Nat) (index : Nat) : Nat :=
  if index < rules.length then
    ((Finset.range rules.length).filter fun other => rank other < rank index).card + 1
  else 0

section

variable {rules : CharGrammar} {rank : Nat → Nat}

theorem place_le (rules : CharGrammar) (rank : Nat → Nat) (index : Nat) :
    place rules rank index ≤ rules.length := by
  unfold place
  split
  · rename_i h
    have hsub : (Finset.range rules.length).filter (fun other => rank other < rank index) ⊂
        Finset.range rules.length :=
      Finset.filter_ssubset.2 ⟨index, Finset.mem_range.2 h, Nat.lt_irrefl _⟩
    have hlt := Finset.card_lt_card hsub
    rwa [Finset.card_range] at hlt
  · exact Nat.zero_le _

theorem place_lt_place {index caller : Nat} (hcaller : caller < rules.length)
    (h : rank index < rank caller) : place rules rank index < place rules rank caller := by
  unfold place
  rw [if_pos hcaller]
  split
  · rename_i hindex
    refine Nat.succ_lt_succ (Finset.card_lt_card ?_)
    refine Finset.ssubset_iff_subset_ne.2 ⟨fun other hother => ?_, fun heq => ?_⟩
    · obtain ⟨hmem, hlt⟩ := Finset.mem_filter.1 hother
      exact Finset.mem_filter.2 ⟨hmem, hlt.trans h⟩
    · -- the called rule is of a lower rank than the caller and not than itself
      have hmem : index ∈ (Finset.range rules.length).filter fun other =>
          rank other < rank caller :=
        Finset.mem_filter.2 ⟨Finset.mem_range.2 hindex, h⟩
      rw [← heq] at hmem
      exact absurd (Finset.mem_filter.1 hmem).2 (Nat.lt_irrefl _)
  · exact Nat.succ_pos _

/-! ## The grammar -/

theorem production_eq {index : Nat} {rule : CharRule} (h : rules[index]? = some rule) :
    (toGrammar rules).production index = production rule := by
  simp [toGrammar, h]

theorem production_of_none {index : Nat} (h : rules[index]? = none) :
    (toGrammar rules).production index = { branches := [] } := by
  simp [toGrammar, h]

theorem strategy_of_leftRecursive {index : Nat} {rule : CharRule} (h : rules[index]? = some rule)
    (hrec : rule.leftRecursive = true) : (toGrammar rules).strategy index = .grown := by
  simp [toGrammar, h, hrec]

/-- The branches of a rule are those of its alternatives. -/
theorem exists_alternative {index : Nat} {b : Branch Nat CharResult Char String String}
    (h : b ∈ ((toGrammar rules).production index).branches) :
    ∃ rule alternative, rules[index]? = some rule ∧ alternative ∈ rule.alternatives ∧
      b = branch rule.name [] alternative := by
  cases hrule : rules[index]? with
  | none => simp [production_of_none hrule] at h
  | some rule =>
    rw [production_eq hrule] at h
    obtain ⟨alternative, hmem, rfl⟩ := List.mem_map.1 h
    exact ⟨rule, alternative, rfl, hmem, rfl⟩

theorem branch_ranked {name : String} {parts : List String} {caller : Nat}
    {symbols : List Symbol} {moved : Bool} {order : Nat → Nat}
    (h : moved = false → ∀ index ∈ leading symbols,
      (toGrammar rules).MayCall order caller false index) :
    (branch name parts symbols).Ranked (toGrammar rules) order (fun _ => false) caller moved := by
  induction symbols generalizing parts moved with
  | nil => simp [branch, Branch.Ranked]
  | cons symbol rest ih =>
    cases symbol with
    | oneOf characters => exact fun c => ih (by simp)
    | rule index =>
      refine ⟨?_, fun part => ih fun hmoved other hother => ?_⟩
      · cases moved with
        | true => exact .inl rfl
        | false => exact h rfl index (by simp [leading])
      · exact h (by simpa using hmoved) other (by simp [leading, hother])
    | abort message => trivial

/-- A ranked grammar over characters is ranked for the engine. -/
def RankedBy.ranking (h : rules.RankedBy rank) : (toGrammar rules).Ranking where
  rank := place rules rank
  consumes _ := false
  ranked caller b hb := by
    obtain ⟨rule, alternative, hrule, hmem, rfl⟩ := exists_alternative hb
    refine branch_ranked fun _ index hindex => ?_
    rcases h.descends caller rule hrule alternative hmem index hindex with hlt | ⟨rfl, hrec⟩
    · exact .inr (.inl (place_lt_place (List.getElem?_eq_some_iff.1 hrule).1 hlt))
    · exact .inr (.inr ⟨rfl, strategy_of_leftRecursive hrule hrec⟩)

theorem branch_confined (name : String) (parts : List String) (symbols : List Symbol) :
    (branch name parts symbols).Confined (fun _ => False) (fun _ => True) := by
  induction symbols generalizing parts with
  | nil => trivial
  | cons symbol rest ih =>
    cases symbol with
    | oneOf characters => exact ⟨fun _ hc => hc.elim, fun c => ih _⟩
    | rule index => exact ⟨trivial, fun part => ih _⟩
    | abort message => trivial

theorem toGrammar_confined (rules : CharGrammar) :
    (toGrammar rules).Confined (fun _ => False) (fun _ => True) := by
  intro index _ b hb
  obtain ⟨rule, alternative, -, -, rfl⟩ := exists_alternative hb
  exact branch_confined _ _ _

/-! ## The text -/

/-- The characters of a text as items of a parse. -/
def items (text : Array Char) (pos : Nat) : Except String (Option Char) := .ok text[pos]?

/-- A feed that holds a text gives its characters, however many it has given. -/
def view (text : Array Char) : feed.View where
  items := items text
  report _ message := message
  Holds _ source := source.text = text
  holds_observe event h := by
    cases event <;> exact h
  item_eq h _ := by simp [feed, items, h]
  holds_item h _ _ := h
  report_eq _ _ := rfl

theorem wall_items (text : Array Char) : Wall (items text) (fun _ => False) text.size := by
  intro c hc
  simp [items] at hc

/-! ## Results -/

/-- What a rule comes to at a position of a text. -/
def comesTo (rules : CharGrammar) (text : Array Char) (fuel index pos : Nat) :
    Outcome String String (Option String) :=
  evaluate (toGrammar rules) (items text) fuel index pos

theorem comesTo_upTo {text : Array Char} (fuel index : Nat) {pos : Nat} (hpos : pos ≤ text.size) :
    (comesTo rules text fuel index pos).UpTo text.size :=
  evaluate_upTo (toGrammar_confined rules) (wall_items text) fuel index pos trivial hpos

/-- A parse that is within its text has fuel enough for any of its rules. -/
theorem enough_le_fuel {parse : CharParse} {index : Nat} (hindex : index < rules.length)
    (pos : Nat) : enough (rules.length + 1) parse.feed.text.size (place rules rank index) pos ≤
      fuel rules parse := by
  have hplace := place_le rules rank index
  have hreach : parse.feed.text.size + 1 ≤ reach parse := Nat.succ_le_succ (Nat.le_max_left _ _)
  have hmemos := Nat.mul_le_mul_left rules.length hreach
  have hpos : (rules.length + 1 + 1) * (parse.feed.text.size - pos) ≤
      (rules.length + 1 + 1) * parse.feed.text.size := Nat.mul_le_mul_left _ (Nat.sub_le _ _)
  have hsize : parse.feed.text.size ≤ rules.length * parse.feed.text.size :=
    Nat.le_mul_of_pos_left _ (Nat.zero_lt_of_lt hindex)
  have hsquare : rules.length * reach parse ≤
      rules.length * reach parse * (rules.length * reach parse) := Nat.le_mul_self _
  simp only [enough, fuel, Nat.mul_add, Nat.add_mul, Nat.one_mul, Nat.mul_one] at *
  omega

theorem RankedBy.comesTo_finishes (h : rules.RankedBy rank) (parse : CharParse) (index : Nat)
    {pos : Nat} (hpos : pos ≤ parse.feed.text.size) :
    (comesTo rules parse.feed.text (fuel rules parse) index pos).Finishes := by
  rcases Nat.lt_or_ge index rules.length with hindex | hindex
  · exact h.ranking.evaluate_finishes (fun other => Nat.lt_succ_of_le (place_le rules rank other))
      (toGrammar_confined rules) (wall_items _) trivial hpos (enough_le_fuel hindex pos)
  · -- a number with no rule has no branches
    have hnone : rules[index]? = none := List.getElem?_eq_none hindex
    have hcached : ¬(toGrammar rules).strategy index = .grown := by simp [toGrammar, hnone]
    have hfuel : 0 < fuel rules parse := Nat.mul_pos (Nat.succ_pos _) (Nat.succ_pos _)
    obtain ⟨n, hn⟩ := Nat.exists_eq_succ_of_ne_zero hfuel.ne'
    rw [comesTo, hn, evaluate, if_neg hcached, production_of_none hnone]
    exact Outcome.finishes_here _ _

/-- Equal characters and results; nothing is like a complaint. -/
def quiet : Likeness Nat CharResult Char String String where
  item := Eq
  result _ := Eq
  complaint _ _ := False
  error _ _ := False

theorem branch_quiet {name : String} {parts : List String} {symbols : List Symbol}
    (h : ∀ message, .abort message ∉ symbols) :
    (branch name parts symbols).Alike quiet Eq (branch name parts symbols) := by
  induction symbols generalizing parts with
  | nil => exact .done rfl
  | cons symbol rest ih =>
    have hrest : ∀ message, .abort message ∉ rest := fun message hmem =>
      h message (List.mem_cons_of_mem _ hmem)
    cases symbol with
    | oneOf characters =>
      refine .take (fun c c' hc => by rw [show c = c' from hc]) fun c c' hc _ => ?_
      rw [show c = c' from hc]
      exact ih hrest
    | rule index =>
      refine .call fun part part' hpart => ?_
      rw [show part = part' from hpart]
      exact ih hrest
    | abort message => exact absurd List.mem_cons_self (h message)

theorem RankedBy.alike (h : rules.RankedBy rank) :
    (toGrammar rules).Alike quiet (toGrammar rules) where
  branches index := by
    refine List.forall₂_same.2 fun b hb => ?_
    obtain ⟨rule, alternative, hrule, hmem, rfl⟩ := exists_alternative hb
    exact branch_quiet (h.total rule (List.mem_of_getElem? hrule) alternative hmem)
  leaky _ := rfl
  grown _ := Iff.rfl

/-- A rule that comes to an end comes to a match or to none. -/
theorem RankedBy.exists_answer (h : rules.RankedBy rank) {text : Array Char} {fuel index pos : Nat}
    (hf : (comesTo rules text fuel index pos).Finishes) :
    ∃ result, (comesTo rules text fuel index pos).answer = .ok result := by
  set o := comesTo rules text fuel index pos with ho
  have hitems : ∀ i, i < o.reach → quiet.Items (items text i) (items text (i + 0)) := fun i _ => by
    show Option.Rel Eq text[i]? text[i + 0]?
    cases text[i]? with
    | none => exact .none
    | some c => exact .some rfl
  have hsame : quiet.Outcomes 0 o.reach (Option.Rel Eq) o o :=
    evaluate_alike h.alike hitems (Nat.le_refl fuel) index pos
  rcases hsame with hlt | hout | ⟨halike, -, -⟩
  · exact absurd hlt (Nat.lt_irrefl _)
  · exact absurd hf hout
  · rcases hanswer : o.answer with (e | message | _) | result
    · rw [hanswer] at halike
      exact halike.elim
    · rw [hanswer] at halike
      exact halike.elim
    · exact absurd hanswer hf
    · exact ⟨result, rfl⟩

end

end CharGrammar

end OpticScript.Packrat
