import OpticScript.Proofs.CharGrammar.History
import OpticScript.Proofs.Packrat.Matching

/-!
# Growing a seed is nesting to the left

Take a left recursive rule of a ranked grammar over characters with alternatives that begin with
the rule itself, and then others that do not call it before they take a character. It is read like
this : the first of the others that matches is the result so far, and as long as what comes after
the rule in one of the first matches behind the result, the two of them together are the next
result (`LeftNested`).

That is what a call of the rule gives (`call_leftNested`), though it runs all the alternatives in
each round from the beginning. There the rule is answered from its memo, which is the result so
far. When no alternative that begins with the rule goes on, the others match as in the first round,
which is no farther than the result so far. Behind the beginning the rule is called as anywhere
else.
-/

namespace OpticScript.Packrat

namespace CharGrammar

/-! ## Nesting to the left -/

/-- The result of a rule at a position and the position after it, if it matches there and nothing
has been called before. -/
def answerAt (rules : CharGrammar) (text : String) (index pos : Nat) : Option (String × Nat) :=
  match call rules index ((start rules text).moveTo pos) with
  | (.ok (some result), parse) => some (result, parse.cursor)
  | _ => none

/-- The parts that match symbols one by one, and the position after them. -/
def follow (rules : CharGrammar) (text : String) : List Symbol → Nat → Option (List String × Nat)
  | [], pos => some ([], pos)
  | .oneOf characters :: rest, pos =>
    match text.toList[pos]? with
    | some c =>
      if characters.contains c then
        (follow rules text rest (pos + 1)).map fun found => (String.singleton c :: found.1, found.2)
      else none
    | none => none
  | .rule index :: rest, pos =>
    match answerAt rules text index pos with
    | some (part, mid) => (follow rules text rest mid).map fun found => (part :: found.1, found.2)
    | none => none
  | .abort _ :: _, _ => none

/-- The parts of the first alternative that matches, and the position after them. -/
def firstFollow (rules : CharGrammar) (text : String) (alternatives : List (List Symbol))
    (pos : Nat) : Option (List String × Nat) :=
  alternatives.findSome? fun symbols => follow rules text symbols pos

/-- A result is nested in others, by the first of the tails that matches behind it each time, until
none does or the first that does takes no character. -/
inductive Nests (rules : CharGrammar) (text name : String) (tails : List (List Symbol)) :
    String → Nat → String → Nat → Prop
  | done {result : String} {stop : Nat}
      (h : ∀ parts next, firstFollow rules text tails stop = some (parts, next) → next = stop) :
      Nests rules text name tails result stop result stop
  | more {result final : String} {mid next stop : Nat} {parts : List String}
      (h : firstFollow rules text tails mid = some (parts, next)) (hnext : next ≠ mid)
      (tail : Nests rules text name tails (phrase name (result :: parts)) next final stop) :
      Nests rules text name tails result mid final stop

/-- The first of the `base` alternatives that matches, nested by the tails. There is no result if
none of them does or the first that does takes no character. -/
inductive LeftNested (rules : CharGrammar) (text name : String) (tails base : List (List Symbol))
    (pos : Nat) : Option String → Nat → Prop
  | unmatched (h : ∀ parts stop, firstFollow rules text base pos = some (parts, stop) →
    stop = pos) : LeftNested rules text name tails base pos none pos
  | matched {result : String} {mid stop : Nat} {parts : List String}
      (h : firstFollow rules text base pos = some (parts, mid)) (hmid : mid ≠ pos)
      (nests : Nests rules text name tails (phrase name parts) mid result stop) :
      LeftNested rules text name tails base pos (some result) stop

/-! ## What is called -/

section

variable {rules : CharGrammar} {rank : Nat → Nat}

/-- A call answers what the rule comes to with enough fuel. -/
theorem Steady.exists_matches {text : Array Char} {parse : CharParse} (h : Steady rules text parse)
    (hranked : rules.RankedBy rank) (index : Nat) :
    ∃ result stop, (CharGrammar.call rules index parse).1 = .ok result ∧
      (CharGrammar.call rules index parse).2.cursor = stop ∧
      Matches (evaluate (toGrammar rules) (items text)) index parse.cursor result stop := by
  obtain ⟨result, stop, hresult, hstop, -, hcomesTo⟩ := h.call hranked index
  refine ⟨result, stop, hresult, hstop,
    Filter.eventually_atTop.2 ⟨fuel rules parse, fun n hn => ?_⟩⟩
  have hfinishes := h.comesTo_finishes hranked index
  rw [evaluate_of_le hfinishes hn]
  exact hcomesTo _ hfinishes

variable {text : String} {index pos stop : Nat}

/-- The characters of a text. -/
abbrev itemsOf (text : String) : Nat → Except String (Option Char) := items text.toList.toArray

theorem matches_bounds (hranked : rules.RankedBy rank) (hpos : pos ≤ text.length)
    {result : Option String}
    (h : Matches (evaluate (toGrammar rules) (itemsOf text)) index pos result stop) :
    pos ≤ stop ∧ stop ≤ text.length := by
  obtain ⟨fuel, hanswer, hstop⟩ := h.exists
  have hsize : pos ≤ text.toList.toArray.size := by simpa [← String.length_toList] using hpos
  have hle := (hranked.ranking.evaluate_advances (itemsOf text) fuel index pos).le_stop
  have hupTo : (comesTo rules text.toList.toArray fuel index pos).stop ≤ text.toList.toArray.size :=
    (comesTo_upTo fuel index hsize).stop_le _ hanswer
  rw [hstop] at hle
  rw [comesTo, hstop] at hupTo
  exact ⟨hle, by simpa [← String.length_toList] using hupTo⟩

/-- What a rule gives is what it comes to. -/
theorem exists_answerAt (hranked : rules.RankedBy rank) (index : Nat) (hpos : pos ≤ text.length) :
    ∃ result stop, answerAt rules text index pos = result.map (fun part => (part, stop)) ∧
      Matches (evaluate (toGrammar rules) (itemsOf text)) index pos result stop ∧
      pos ≤ stop ∧ stop ≤ text.length := by
  have hsize : pos ≤ text.toList.toArray.size := by simpa [← String.length_toList] using hpos
  have hsteady := (steady_start rules text).moveTo hsize
  obtain ⟨result, stop, hresult, hstop, hmatches⟩ := hsteady.exists_matches hranked index
  refine ⟨result, stop, ?_, hmatches, matches_bounds hranked hpos hmatches⟩
  unfold answerAt
  rcases hcall : call rules index ((start rules text).moveTo pos) with ⟨answer, parse⟩
  rw [hcall] at hresult hstop
  obtain rfl : answer = .ok result := hresult
  obtain rfl : parse.cursor = stop := hstop
  cases result <;> rfl

/-! ## What a round comes to -/

variable {start : Nat} {seed : Memo String} {name : String}

/-- What is left of a branch matches as its symbols are followed. -/
def BranchFollows (rules : CharGrammar) (text : String)
    (callee : Nat → (index : Nat) → Nat → Outcome String String (Option (CharResult index)))
    (name : String) (parts : List String) (symbols : List Symbol) (pos : Nat) : Prop :=
  ∃ stop, (branch name parts symbols).Matches (itemsOf text) callee pos
      ((follow rules text symbols pos).map fun found =>
        phrase name (parts.reverse ++ found.1)) stop ∧
    pos ≤ stop ∧ stop ≤ text.length ∧ ∀ found ∈ follow rules text symbols pos, found.2 = stop

section

variable {callee : Nat → (index : Nat) → Nat → Outcome String String (Option (CharResult index))}
  {parts : List String} {symbols rest : List Symbol} {symbol : Symbol} {mid : Nat}

theorem branchFollows_none (hfollow : follow rules text symbols pos = none)
    (h : (branch name parts symbols).Matches (itemsOf text) callee pos none stop) (hle : pos ≤ stop)
    (hstop : stop ≤ text.length) : BranchFollows rules text callee name parts symbols pos :=
  ⟨stop, by rw [hfollow]; exact h, hle, hstop, by simp [hfollow]⟩

/-- A part comes before those of the other symbols. -/
theorem BranchFollows.cons {part : String}
    (h : BranchFollows rules text callee name (part :: parts) rest mid)
    (hle : pos ≤ mid) (hfollow : follow rules text (symbol :: rest) pos =
      (follow rules text rest mid).map fun found => (part :: found.1, found.2))
    (hmatches : ∀ {result stop},
      (branch name (part :: parts) rest).Matches (itemsOf text) callee mid result stop →
        (branch name parts (symbol :: rest)).Matches (itemsOf text) callee pos result stop) :
    BranchFollows rules text callee name parts (symbol :: rest) pos := by
  obtain ⟨stop, hrest, hmid, hstop, hfound⟩ := h
  refine ⟨stop, hmatches ?_, hle.trans hmid, hstop, fun found hmem => ?_⟩
  · rw [hfollow, Option.map_map]
    simpa [Function.comp_def] using hrest
  · rw [hfollow] at hmem
    obtain ⟨found', hmem', rfl⟩ := Option.mem_map.1 hmem
    exact hfound found' hmem'

end

/-- Symbols match as they are followed if what they call is answered as anywhere else. It is if it
is not the rule that is grown where that begins. -/
theorem branchFollows_seeded (hranked : rules.RankedBy rank) (seed : Memo String) (name : String)
    (parts : List String) {symbols : List Symbol} (htotal : ∀ message, .abort message ∉ symbols)
    (hle : start ≤ pos) (hpos : pos ≤ text.length)
    (hclear : start < pos ∨ index ∉ leading symbols) :
    BranchFollows rules text
      (seededWith (toGrammar rules) (itemsOf text) index start seed) name parts
      symbols pos := by
  induction symbols generalizing pos parts with
  | nil =>
    refine ⟨pos, ?_, Nat.le_refl _, hpos, by simp [follow]⟩
    rw [follow, Option.map_some, List.append_nil]
    exact Branch.matches_done _ _
  | cons symbol rest ih =>
    have hrest : ∀ message, .abort message ∉ rest := fun message hmem =>
      htotal message (List.mem_cons_of_mem _ hmem)
    cases symbol with
    | abort message => exact absurd List.mem_cons_self (htotal message)
    | oneOf characters =>
      rcases hchar : text.toList[pos]? with _ | c
      · have hitem : itemsOf text pos = .ok none := by simpa [items] using hchar
        exact branchFollows_none (by simp [follow, hchar]) (Branch.matches_take_end hitem)
          (Nat.le_refl _) hpos
      have hitem : itemsOf text pos = .ok (some c) := by simpa [items] using hchar
      cases hc : characters.contains c with
      | false =>
        exact branchFollows_none (by rw [follow, hchar]; exact if_neg (Bool.eq_false_iff.1 hc))
          (Branch.matches_take_none hitem hc) (Nat.le_refl _) hpos
      | true =>
        have hlt : pos < text.length := by
          simpa [← String.length_toList] using (List.getElem?_eq_some_iff.1 hchar).1
        have hmore := ih (String.singleton c :: parts) hrest (Nat.le_succ_of_le hle) hlt
          (.inl (Nat.lt_succ_of_le hle))
        refine hmore.cons (Nat.le_succ _) ?_ fun h => Branch.matches_take hitem hc h
        rw [follow, hchar]
        exact if_pos hc
    | rule other =>
      obtain ⟨result, mid, hanswer, hmatches, hmid, hlength⟩ := exists_answerAt hranked other hpos
      have hcall : Matches (seededWith (toGrammar rules) (itemsOf text) index start seed) other pos
          result mid := by
        refine matches_unseeded (fun heq hstart => ?_) hmatches
        rcases hclear with hlt | hleading
        · exact hlt.ne hstart
        · exact hleading (heq ▸ List.mem_cons_self)
      rcases result with _ | part
      · exact branchFollows_none (by rw [follow, hanswer]; rfl)
          (Branch.matches_call_none hcall) hmid hlength
      · have hclear' : start < mid ∨ index ∉ leading rest :=
          hclear.imp (fun hlt => hlt.trans_le hmid) fun hleading hmem =>
            hleading (List.mem_cons_of_mem _ hmem)
        have hmore := ih (part :: parts) hrest (hle.trans hmid) hlength hclear'
        refine hmore.cons hmid ?_ fun h => Branch.matches_call hcall h
        rw [follow, hanswer]
        rfl

/-- The first alternative that is followed is the first branch that matches. -/
theorem match_firstFollow
    {callee : Nat → (index : Nat) → Nat → Outcome String String (Option (CharResult index))}
    {before : List (List Symbol)}
    {toBranch : List Symbol → Branch Nat CharResult Char String String}
    (result : List String → String) (more : List (Branch Nat CharResult Char String String))
    (hbranch : ∀ symbols ∈ before, ∃ stop,
      (toBranch symbols).Matches (itemsOf text) callee start
        ((follow rules text symbols pos).map fun found => result found.1) stop ∧
      pos ≤ stop ∧ stop ≤ text.length ∧ ∀ found ∈ follow rules text symbols pos, found.2 = stop) :
    (∀ parts stop, firstFollow rules text before pos = some (parts, stop) →
      Branches.Match (itemsOf text) callee (before.map toBranch ++ more) start
        (some (result parts)) stop ∧ pos ≤ stop ∧ stop ≤ text.length) ∧
    (firstFollow rules text before pos = none → ∀ {result stop},
      Branches.Match (itemsOf text) callee more start result stop →
      Branches.Match (itemsOf text) callee (before.map toBranch ++ more) start result stop) := by
  have hfail : ∀ symbols ∈ before, follow rules text symbols pos = none →
      ∃ stop, (toBranch symbols).Matches (itemsOf text) callee start none stop := fun symbols
        hmem hnone => by
    obtain ⟨stop, hmatches, -⟩ := hbranch symbols hmem
    rw [hnone] at hmatches
    exact ⟨stop, hmatches⟩
  constructor
  · intro parts stop hfirst
    obtain ⟨failing, symbols, others, rfl, hfollow, hfailing⟩ := List.findSome?_eq_some_iff.1 hfirst
    obtain ⟨stop', hmatches, hle, hlength, hfound⟩ := hbranch symbols (by simp)
    rw [hfollow] at hmatches hfound
    obtain rfl : stop = stop' := hfound _ rfl
    rw [List.map_append, List.append_assoc]
    refine ⟨Branches.match_append (List.forall_mem_map.2 fun other hother => ?_)
      (Branches.match_head hmatches), hle, hlength⟩
    exact hfail other (List.mem_append_left _ hother) (hfailing other hother)
  · intro hfirst result stop hmore
    refine Branches.match_append (List.forall_mem_map.2 fun symbols hmem => ?_) hmore
    exact hfail symbols hmem (List.findSome?_eq_none_iff.1 hfirst symbols hmem)

end

/-! ## Growing -/

/-- A left recursive rule with alternatives that begin with the rule itself, and then others that
do not call it before they take a character. -/
structure IsLeftRule (rules : CharGrammar) (index : Nat) (rule : CharRule)
    (tails base : List (List Symbol)) : Prop where
  rule_eq : rules[index]? = some rule
  leftRecursive : rule.leftRecursive = true
  alternatives : rule.alternatives = tails.map (.rule index :: ·) ++ base
  base_leading : ∀ symbols ∈ base, index ∉ leading symbols

section

variable {rules : CharGrammar} {rank : Nat → Nat} {text : String} {index pos stop : Nat}
  {rule : CharRule}
  {tails base : List (List Symbol)}

theorem IsLeftRule.total (h : IsLeftRule rules index rule tails base)
    (hranked : rules.RankedBy rank) : (∀ symbols ∈ tails, ∀ message, .abort message ∉ symbols) ∧
      ∀ symbols ∈ base, ∀ message, .abort message ∉ symbols := by
  have htotal := hranked.total rule (List.mem_of_getElem? h.rule_eq)
  rw [h.alternatives, List.forall_mem_append, List.forall_mem_map] at htotal
  exact ⟨fun symbols hmem message habort =>
    htotal.1 symbols hmem message (List.mem_cons_of_mem _ habort), htotal.2⟩

theorem IsLeftRule.branches_eq (h : IsLeftRule rules index rule tails base) :
    ((toGrammar rules).production index).branches =
      tails.map (fun symbols => branch rule.name [] (.rule index :: symbols)) ++
        (base.map (branch rule.name []) ++ []) := by
  rw [production_eq h.rule_eq, production, h.alternatives, List.map_append, List.map_map,
    List.append_nil]
  rfl

/-- What the branches of a rule come to in a round of its growing. -/
abbrev Round (rules : CharGrammar) (text : String) (index pos : Nat) (seed : Memo String)
    (result : Option String) (stop : Nat) : Prop :=
  Branches.Match (itemsOf text) (seededWith (toGrammar rules) (itemsOf text) index pos seed)
    ((toGrammar rules).production index).branches pos result stop

/-- Where no tail goes on a round comes to what the first one does. -/
theorem IsLeftRule.round_base (h : IsLeftRule rules index rule tails base)
    (hranked : rules.RankedBy rank) (hpos : pos ≤ text.length) (seed : Memo String)
    (htails : ∀ symbols ∈ tails, ∃ stop, (branch rule.name [] (.rule index :: symbols)).Matches
      (itemsOf text) (seededWith (toGrammar rules) (itemsOf text) index pos seed) pos none stop) :
    (∀ parts stop, firstFollow rules text base pos = some (parts, stop) →
      Round rules text index pos seed (some (phrase rule.name parts)) stop ∧ pos ≤ stop ∧
        stop ≤ text.length) ∧
    (firstFollow rules text base pos = none → Round rules text index pos seed none pos) := by
  obtain ⟨hfirst, hnone⟩ := match_firstFollow (phrase rule.name) [] fun symbols hmem =>
    branchFollows_seeded hranked seed rule.name [] ((h.total hranked).2 symbols hmem)
      (Nat.le_refl pos) hpos
      (.inr (h.base_leading symbols hmem))
  simp only [Round, h.branches_eq]
  refine ⟨fun parts stop hfollow => ?_, fun hfollow => ?_⟩
  · obtain ⟨hmatch, hbounds⟩ := hfirst parts stop hfollow
    exact ⟨Branches.match_append (List.forall_mem_map.2 htails) hmatch, hbounds⟩
  · exact Branches.match_append (List.forall_mem_map.2 htails)
      (hnone hfollow (Branches.match_nil _))

/-- A tail goes on behind the result so far. -/
theorem IsLeftRule.round_tails (h : IsLeftRule rules index rule tails base)
    (hranked : rules.RankedBy rank)
    (value : String) (hlt : pos < stop) (hstop : stop ≤ text.length) :
    (∀ parts next, firstFollow rules text tails stop = some (parts, next) →
      Round rules text index pos { result := some value, stop }
        (some (phrase rule.name (value :: parts))) next ∧ stop ≤ next ∧ next ≤ text.length) ∧
    (firstFollow rules text tails stop = none → ∀ symbols ∈ tails, ∃ mid,
      (branch rule.name [] (.rule index :: symbols)).Matches (itemsOf text)
        (seededWith (toGrammar rules) (itemsOf text) index pos { result := some value, stop }) pos
            none mid) := by
  have hbranch : ∀ symbols ∈ tails, ∃ mid,
      (branch rule.name [] (.rule index :: symbols)).Matches (itemsOf text)
        (seededWith (toGrammar rules) (itemsOf text) index pos { result := some value, stop }) pos
        ((follow rules text symbols stop).map fun found =>
          phrase rule.name (value :: found.1)) mid ∧
      stop ≤ mid ∧ mid ≤ text.length ∧ ∀ found ∈ follow rules text symbols stop, found.2 = mid := by
    intro symbols hmem
    obtain ⟨mid, hmatches, hbounds⟩ :=
      branchFollows_seeded hranked { result := some value, stop } rule.name [value]
      ((h.total hranked).1 symbols hmem) hlt.le hstop (.inl hlt)
    exact ⟨mid, Branch.matches_call (matches_seed _) hmatches, hbounds⟩
  have hfirst := (match_firstFollow (fun parts => phrase rule.name (value :: parts))
    (base.map (branch rule.name []) ++ []) hbranch).1
  rw [← h.branches_eq] at hfirst
  refine ⟨hfirst, fun hnone symbols hmem => ?_⟩
  obtain ⟨mid, hmatches, -⟩ := hbranch symbols hmem
  rw [List.findSome?_eq_none_iff.1 hnone symbols hmem] at hmatches
  exact ⟨mid, hmatches⟩

/-- The rule does not match before it has a result so far. -/
theorem tails_none (pos : Nat) (name : String) (tails : List (List Symbol)) :
    ∀ symbols ∈ tails, ∃ stop, (branch name [] (.rule index :: symbols)).Matches (itemsOf text)
      (seededWith (toGrammar rules) (itemsOf text) index pos { result := none, stop := pos }) pos
          none stop :=
  fun _ _ => ⟨pos, Branch.matches_call_none (matches_seed _)⟩

/-- A round whose result is the first one again gets no farther than where the first one stops. -/
theorem Nests.grows {value final : String} {mid : Nat}
    (h : Nests rules text rule.name tails value mid final stop)
    (hrule : IsLeftRule rules index rule tails base) (hranked : rules.RankedBy rank)
    (hpos : pos ≤ text.length) (hlt : pos < mid) (hmid : mid ≤ text.length)
    (hbase : ∀ parts stop, firstFollow rules text base pos = some (parts, stop) → stop ≤ mid) :
    Grows (toGrammar rules) (itemsOf text) index pos { result := some value, stop := mid }
      (some final) stop := by
  induction h with
  | @done value stop hdone =>
    obtain ⟨htail, hnone⟩ := hrule.round_tails hranked value hlt hmid
    rcases hfollow : firstFollow rules text tails stop with _ | ⟨parts, next⟩
    · obtain ⟨hfirst, hempty⟩ := hrule.round_base hranked hpos _ (hnone hfollow)
      rcases hseed : firstFollow rules text base pos with _ | ⟨parts, next⟩
      · exact grows_done (hempty hseed) (by simp)
      · exact grows_done (hfirst parts next hseed).1 fun _ => hbase parts next hseed
    · exact grows_done (htail parts next hfollow).1 fun _ => (hdone parts next hfollow).le
  | @more value final mid next stop parts hfollow hnext _ ih =>
    obtain ⟨hround, hle, hlength⟩ := (hrule.round_tails hranked value hlt hmid).1 parts next hfollow
    have hgrown : mid < next := Nat.lt_of_le_of_ne hle hnext.symm
    exact grows_step hround hgrown (ih (hlt.trans hgrown) hlength fun parts stop hseed =>
      (hbase parts stop hseed).trans hle)

/-- A left recursive rule comes to what is nested to the left. -/
theorem LeftNested.matches_rule {result : Option String}
    (h : LeftNested rules text rule.name tails base pos result stop)
    (hrule : IsLeftRule rules index rule tails base) (hranked : rules.RankedBy rank)
    (hpos : pos ≤ text.length) :
    Matches (evaluate (toGrammar rules) (itemsOf text)) index pos result stop := by
  refine matches_of_grows (strategy_of_leftRecursive hrule.rule_eq hrule.leftRecursive) ?_
  let failure : Memo String := { result := none, stop := pos }
  obtain ⟨hfirst, hempty⟩ := hrule.round_base hranked hpos failure (tails_none pos rule.name tails)
  cases h with
  | unmatched h =>
    change Grows (toGrammar rules) (itemsOf text) index pos failure failure.result failure.stop
    rcases hseed : firstFollow rules text base pos with _ | ⟨parts, next⟩
    · exact grows_done (hempty hseed) (by simp)
    · exact grows_done (hfirst parts next hseed).1 fun _ => (h parts next hseed).le
  | @matched value mid stop parts h hmid hnests =>
    obtain ⟨hround, hle, hlength⟩ := hfirst parts mid h
    have hlt : pos < mid := Nat.lt_of_le_of_ne hle hmid.symm
    refine grows_step hround hlt
      (hnests.grows hrule hranked hpos hlt hlength fun parts' stop' hseed => ?_)
    obtain ⟨-, rfl⟩ := Prod.mk.inj (Option.some.inj (hseed.symm.trans h))
    exact Nat.le_refl _

/-- Nesting comes to an end, since each time it moves on within the text. -/
theorem IsLeftRule.exists_nests (h : IsLeftRule rules index rule tails base)
    (hranked : rules.RankedBy rank)
    (value : String) {mid : Nat} (hlt : pos < mid) (hmid : mid ≤ text.length) :
    ∃ final stop, Nests rules text rule.name tails value mid final stop := by
  induction hleft : text.length - mid using Nat.strong_induction_on generalizing mid value with
  | _ left ih =>
    subst hleft
    by_cases hdone : ∀ parts next, firstFollow rules text tails mid = some (parts, next) →
      next = mid
    · exact ⟨value, mid, .done hdone⟩
    · push Not at hdone
      obtain ⟨parts, next, hfollow, hnext⟩ := hdone
      obtain ⟨-, hle, hlength⟩ := (h.round_tails hranked value hlt hmid).1 parts next hfollow
      obtain ⟨final, stop, hnests⟩ :=
        ih (text.length - next) (by omega) _ (hlt.trans_le hle) hlength rfl
      exact ⟨final, stop, .more hfollow hnext hnests⟩

theorem IsLeftRule.exists_leftNested (h : IsLeftRule rules index rule tails base)
    (hranked : rules.RankedBy rank)
    (hpos : pos ≤ text.length) :
    ∃ result stop, LeftNested rules text rule.name tails base pos result stop := by
  by_cases hnone : ∀ parts stop, firstFollow rules text base pos = some (parts, stop) → stop = pos
  · exact ⟨none, pos, .unmatched hnone⟩
  · push Not at hnone
    obtain ⟨parts, mid, hfollow, hmid⟩ := hnone
    obtain ⟨hround, hle, hlength⟩ := (h.round_base hranked hpos { result := none, stop := pos }
      (tails_none pos rule.name tails)).1 parts mid hfollow
    obtain ⟨final, stop, hnests⟩ := h.exists_nests hranked (phrase rule.name parts)
      (Nat.lt_of_le_of_ne hle hmid.symm) hlength
    exact ⟨some final, stop, .matched hfollow hmid hnests⟩

end

/-- A left recursive rule is nested to the left : wherever it is called, and whatever has been
called before, it gives what is nested to the left and nothing else, and leaves the cursor behind
it. -/
theorem call_leftNested {rules : CharGrammar} {rank : Nat → Nat} (hranked : rules.RankedBy rank)
    {text : String} {parse : CharParse} (hreached : Reached rules text parse) {index : Nat}
    {rule : CharRule}
    {tails base : List (List Symbol)} (hrule : IsLeftRule rules index rule tails base) {pos : Nat}
    (hpos : pos ≤ text.length) :
    ∃ result stop, (call rules index (parse.moveTo pos)).1 = .ok result ∧
      (call rules index (parse.moveTo pos)).2.cursor = stop ∧
      ∀ result' stop', LeftNested rules text rule.name tails base pos result' stop' ↔
        result' = result ∧ stop' = stop := by
  have hsize : pos ≤ text.toList.toArray.size := by simpa [← String.length_toList] using hpos
  obtain ⟨result, stop, hresult, hstop, hmatches⟩ :=
    ((hreached.steady hranked).moveTo hsize).exists_matches hranked index
  have hunique : ∀ result' stop', LeftNested rules text rule.name tails base pos result' stop' →
      result' = result ∧ stop' = stop := fun result' stop' h =>
    (h.matches_rule hrule hranked hpos).unique hmatches
  refine ⟨result, stop, hresult, hstop, fun result' stop' => ⟨hunique result' stop', ?_⟩⟩
  rintro ⟨rfl, rfl⟩
  obtain ⟨result, stop, hnested⟩ := hrule.exists_leftNested hranked hpos
  obtain ⟨rfl, rfl⟩ := hunique result stop hnested
  exact hnested

/-- One or more letters, read as a chain and what may be chained to it. -/
def chain : CharRule :=
  { name := "chain", alternatives := [[.rule 0, .rule 0], [.oneOf ['x']]], leftRecursive := true }

/-- The rule is called behind its beginning, too, and there it reads as much as it can. -/
theorem call_leftNested_chain :
    let parse := (call [chain] 0 ((start [chain] "xxx").moveTo 1)).2.moveTo 0
    RankedBy [chain] (fun _ => 0) ∧ IsLeftRule [chain] 0 chain [[.rule 0]] [[.oneOf ['x']]] ∧
      (call [chain] 0 parse).1 = .ok (some "chain(chain(x),chain(chain(x),chain(x)))") ∧
      LeftNested [chain] "xxx" "chain" [[.rule 0]] [[.oneOf ['x']]] 0
        (some "chain(chain(x),chain(chain(x),chain(x)))") 3 := by
  intro parse
  have hranked : RankedBy [chain] (fun _ => 0) := by
    refine ⟨by simp [chain], fun caller rule hrule symbols hmem index hindex => ?_⟩
    obtain ⟨rfl, rfl⟩ : caller = 0 ∧ chain = rule := by
      rcases caller with _ | caller <;> simp_all
    have hsymbols : symbols = [.rule 0, .rule 0] ∨ symbols = [.oneOf ['x']] := by
      simpa [chain] using hmem
    rcases hsymbols with rfl | rfl
    · exact .inr ⟨by simpa [leading] using hindex, rfl⟩
    · simp [leading] at hindex
  have hrule : IsLeftRule [chain] 0 chain [[.rule 0]] [[.oneOf ['x']]] :=
    ⟨rfl, rfl, rfl, by simp [leading]⟩
  have hcall : (call [chain] 0 parse).1 = .ok (some "chain(chain(x),chain(chain(x),chain(x)))") :=
    rfl
  have hcursor : (call [chain] 0 parse).2.cursor = 3 := rfl
  have hreached : Reached [chain] "xxx" (call [chain] 0 ((start [chain] "xxx").moveTo 1)).2 :=
    .call (.reset .start (by decide)) 0
  obtain ⟨result, stop, hresult, hstop, hnested⟩ :=
    call_leftNested hranked hreached hrule (Nat.zero_le _)
  obtain rfl : _ = result := Except.ok.inj (hcall.symm.trans hresult)
  obtain rfl : _ = stop := hcursor.symm.trans hstop
  exact ⟨hranked, hrule, hcall, (hnested _ _).2 ⟨rfl, rfl⟩⟩

end CharGrammar

end OpticScript.Packrat
