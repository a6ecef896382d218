import Mathlib.Algebra.Group.Pi.Lemmas
import Mathlib.Algebra.Ring.Int.Defs
import OpticScript.Proofs.CharGrammar.History
import OpticScript.Proofs.Packrat.Memory
import OpticScript.Proofs.Packrat.Memos

/-!
# How often a rule is run

A rule of a ranked grammar over characters is not run twice for one outcome. The branches of a
rule that is not left recursive are run once for each of its memos. Those of a left recursive rule
are run once where it begins and once for each time that it grows, and each time it takes a
character more, so the runs are no more than the characters of its memos and one for each memo
(`runs_of_reached`).

While a rule is being run, the run is not accounted for by a memo yet. The `excess` of a rule is
the number of such runs. A call leaves it as it is, or makes it less if the rule is left recursive
(`Balanced`), since no rule is run again where it is being run : there it is called only if it has
a memo (`Fresh`), and what stands before it is left alone.
-/

namespace OpticScript.Packrat

namespace CharGrammar

/-- What a memo of a rule may cost : one run, or one for each character and the first one. -/
def cost (rule : CharRule) (entry : Nat × Memo String) : Nat :=
  if rule.leftRecursive then entry.2.stop - entry.1 + 1 else 1

/-- The runs of a rule that its memos do not account for. -/
def excess (parse : CharParse) (index : Nat) (rule : CharRule) : Int :=
  (parse.feed.runs[index]?.getD 0 : Nat) - (((parse.table.memosOf index).map (cost rule)).sum : Nat)

/-- There is a count for each rule, and no memo stops before it begins. -/
structure Orderly (rules : CharGrammar) (parse : CharParse) : Prop where
  size_runs : parse.feed.runs.size = rules.length
  le_stop : ∀ {index start : Nat} {memo : Memo String},
    parse.table.get? index start = some memo → start ≤ memo.stop

/-- The runs of each rule are accounted for by new memos but for its `debt`, exactly if the rule is
not left recursive, and the memos of `kept` are left alone. -/
structure Balanced (rules : CharGrammar) (kept : Nat → Nat → Prop) (debt : Nat → Int)
    (before after : CharParse) : Prop where
  orderly : Orderly rules after
  get?_eq : ∀ index start, kept index start →
    after.table.get? index start = before.table.get? index start
  excess_le : ∀ index rule, rules[index]? = some rule →
    excess after index rule ≤ excess before index rule + debt index
  excess_eq : ∀ index rule, rules[index]? = some rule → rule.leftRecursive = false →
    excess after index rule = excess before index rule + debt index

section

variable {rules : CharGrammar} {rank : Nat → Nat} {kept kept' : Nat → Nat → Prop}
  {debt debt' : Nat → Int}
  {s s' s'' : CharParse}
  {index start pos : Nat} {rule : CharRule}

theorem Orderly.moveTo (h : Orderly rules s) (pos : Nat) : Orderly rules (s.moveTo pos) :=
  ⟨h.size_runs, h.le_stop⟩

theorem Orderly.record (h : Orderly rules s) {memo : Memo String} (hstop : start ≤ memo.stop) :
    Orderly rules (s.record index start memo) where
  size_runs := h.size_runs
  le_stop {index' start' memo'} hget := by
    by_cases hsame : index' = index ∧ start' = start
    · obtain ⟨rfl, rfl⟩ := hsame
      obtain rfl : memo = memo' := by simpa [State.record] using hget
      exact hstop
    · have hne : index' ≠ index ∨ start' ≠ start := Decidable.not_and_iff_not_or_not.1 hsame
      exact h.le_stop ((Table.get?_insert_of_ne s.table hne memo).symm.trans hget)

namespace Balanced

/-- Where no memo is made and no rule is run. -/
theorem of_eq (h : Orderly rules s) (htable : s'.table = s.table)
    (hruns : s'.feed.runs = s.feed.runs) : Balanced rules kept 0 s s' := by
  have hexcess : ∀ index rule, excess s' index rule =
      excess s index rule + 0 := fun index rule => by
    rw [excess, excess, htable, hruns, Int.add_zero]
  refine ⟨⟨hruns ▸ h.size_runs, htable ▸ h.le_stop⟩, fun index start _ => by rw [htable], ?_, ?_⟩
  · exact fun index rule _ => (hexcess index rule).le
  · exact fun index rule _ _ => hexcess index rule

theorem moveTo (h : Orderly rules s) (pos : Nat) : Balanced rules kept 0 s (s.moveTo pos) :=
  of_eq h rfl rfl

theorem trans (h : Balanced rules kept debt s s') (h' : Balanced rules kept debt' s' s'') :
    Balanced rules kept (debt + debt') s s'' where
  orderly := h'.orderly
  get?_eq index start hkept := (h'.get?_eq index start hkept).trans (h.get?_eq index start hkept)
  excess_le index rule hrule := by
    have := h.excess_le index rule hrule
    have := h'.excess_le index rule hrule
    rw [Pi.add_apply]
    omega
  excess_eq index rule hrule hleft := by
    rw [h'.excess_eq index rule hrule hleft, h.excess_eq index rule hrule hleft,
      Pi.add_apply, add_assoc]

/-- What owes nothing may come first. -/
theorem settled (h : Balanced rules kept 0 s s') (h' : Balanced rules kept debt s' s'') :
    Balanced rules kept debt s s'' :=
  zero_add debt ▸ h.trans h'

theorem mono (h : Balanced rules kept debt s s')
    (hkept : ∀ index start, kept' index start → kept index start) :
    Balanced rules kept' debt s s' :=
  { h with get?_eq := fun index start h' => h.get?_eq index start (hkept index start h') }

end Balanced

/-! ## What a run costs -/

/-- A run of a rule is owed. -/
theorem balanced_run (h : Orderly rules s) (index : Nat) :
    Balanced rules kept (Pi.single index 1) s (s.observe feed (.run index)) := by
  have hexcess : ∀ other rule, rules[other]? = some rule →
      excess (s.observe feed (.run index)) other rule =
      excess s other rule + (Pi.single index 1 : Nat → Int) other := by
    intro other rule hrule
    have hlt : other < s.feed.runs.size := h.size_runs ▸ (List.getElem?_eq_some_iff.1 hrule).1
    have hruns : (s.observe feed (.run index)).feed.runs = s.feed.runs.modify index (· + 1) := rfl
    have htable : (s.observe feed (.run index)).table = s.table := rfl
    rw [excess, excess, htable, hruns, Array.getElem?_modify, Array.getElem?_eq_getElem hlt,
      Pi.single_apply]
    rcases eq_or_ne index other with rfl | hne
    · simp only [if_true, Option.map_some, Option.getD_some]
      omega
    · rw [if_neg hne, if_neg hne.symm, Int.add_zero]
  refine ⟨⟨by simpa [State.observe, feed] using h.size_runs, h.le_stop⟩, fun _ _ _ => rfl, ?_, ?_⟩
  · exact fun other rule hrule => (hexcess other rule hrule).le
  · exact fun other rule hrule _ => hexcess other rule hrule

/-- A memo pays for what the rule costs more with it. -/
theorem balanced_record {memo : Memo String} {paid : Int} (h : Orderly rules s)
    (hstop : start ≤ memo.stop)
    (hkept : ¬kept index start) (hpaid : ∀ rule, rules[index]? = some rule →
      excess (s.record index start memo) index rule ≤ excess s index rule - paid ∧
        (rule.leftRecursive = false →
          excess (s.record index start memo) index rule = excess s index rule - paid)) :
    Balanced rules kept (Pi.single index (-paid)) s (s.record index start memo) := by
  have hother : ∀ other, other ≠ index → ∀ rule,
      excess (s.record index start memo) other rule =
        excess s other rule := fun other hne rule => by
    have hsum : (((s.record index start memo).table.memosOf other).map (cost rule)).sum =
        ((s.table.memosOf other).map (cost rule)).sum := Table.sum_insert_of_ne s.table hne
    rw [excess, excess, hsum]
    rfl
  refine ⟨h.record hstop, fun other pos hpos => Table.get?_insert_of_ne s.table ?_ memo,
    fun other rule hrule => ?_, fun other rule hrule hleft => ?_⟩
  · by_contra! hsame
    exact hkept (hsame.1 ▸ hsame.2 ▸ hpos)
  · rcases eq_or_ne other index with rfl | hne
    · rw [Pi.single_eq_same]
      exact (hpaid rule hrule).1
    · rw [Pi.single_eq_of_ne hne, Int.add_zero, hother other hne]
  · rcases eq_or_ne other index with rfl | hne
    · rw [Pi.single_eq_same]
      exact (hpaid rule hrule).2 hleft
    · rw [Pi.single_eq_of_ne hne, Int.add_zero, hother other hne]

theorem excess_record_of_none {memo : Memo String} (h : s.table.get? index start = none) :
    excess (s.record index start memo) index rule =
      excess s index rule - cost rule (start, memo) := by
  have hsum : (((s.record index start memo).table.memosOf index).map (cost rule)).sum = _ :=
    Table.sum_insert_of_none h
  rw [excess, excess, hsum]
  simp only [State.record]
  omega

theorem excess_record_of_some {memo old : Memo String} (h : s.table.get? index start = some old) :
    excess (s.record index start memo) index rule =
      excess s index rule + cost rule (start, old) - cost rule (start, memo) := by
  have hsum : (((s.record index start memo).table.memosOf index).map (cost rule)).sum + _ = _ :=
    Table.sum_insert_of_some h
  rw [excess, excess]
  simp only [State.record] at hsum ⊢
  omega

/-! ## Calls -/

/-- What stands before a call : what begins earlier, or there with a higher rank. -/
def Before (rank : Nat → Nat) (index pos : Nat) (other start : Nat) : Prop :=
  start < pos ∨ start = pos ∧ rank index < rank other

/-- Calls that answer do not go back, and are balanced. What stands before them is left alone, and
everything is if the rule has a memo. -/
def CallsBalanced (rules : CharGrammar) (rank : Nat → Nat)
    (callee : (index : Nat) → Recognizer Nat CharResult String CharFeed String) : Prop :=
  ∀ index (s : CharParse) result s', Orderly rules s → callee index s = (.ok result, s') →
    s.cursor ≤ s'.cursor ∧ ∀ kept : Nat → Nat → Prop,
      ((s.table.get? index s.cursor).isSome ∨
        ∀ other start, kept other start → Before rank index s.cursor other start) →
      Balanced rules kept 0 s s'

/-- What is left alone while a rule is run : what stands before it, and its own memo. -/
def Held (rank : Nat → Nat) (index pos : Nat) (other start : Nat) : Prop :=
  Before rank index pos other start ∨ other = index ∧ start = pos

/-- A rule that is run where it has not come to take a character calls rules of a lower rank, or
itself if it has a memo. -/
def Fresh (rank : Nat → Nat) (index pos : Nat) (s : CharParse) (symbols : List Symbol) : Prop :=
  ∀ other ∈ leading symbols, rank other < rank index ∨
    other = index ∧ (s.table.get? index pos).isSome

section

variable {callee : (index : Nat) → Recognizer Nat CharResult String CharFeed String} {rounds : Nat}
  {name : String} {symbols : List Symbol} {parts : List String} {result : Option String}

/-- What the rule calls stands after what is left alone while it is run. -/
theorem isSome_or_before (hle : pos ≤ s.cursor) {other : Nat}
    (hfresh : pos < s.cursor ∨ rank other < rank index ∨
      other = index ∧ (s.table.get? index pos).isSome) :
    (s.table.get? other s.cursor).isSome ∨ ∀ key start, Held rank index pos key start →
      Before rank other s.cursor key start := by
  rcases Nat.lt_or_eq_of_le hle with hlt | rfl
  · refine .inr fun key start hheld => .inl ?_
    rcases hheld with (hstart | ⟨rfl, -⟩) | ⟨-, rfl⟩ <;> omega
  · rcases hfresh.resolve_left (Nat.lt_irrefl _) with hrank | ⟨rfl, hmemo⟩
    · refine .inr fun key start hheld => ?_
      rcases hheld with (hstart | ⟨rfl, hkey⟩) | ⟨rfl, rfl⟩
      · exact .inl hstart
      · exact .inr ⟨rfl, hrank.trans hkey⟩
      · exact .inr ⟨rfl, hrank⟩
    · exact .inl hmemo

theorem branch_balanced (hcallee : CallsBalanced rules rank callee) (h : Orderly rules s)
    (hle : pos ≤ s.cursor) (hfresh : pos < s.cursor ∨ Fresh rank index pos s symbols)
    (hrun : (branch name parts symbols).run feed callee rounds s = (.ok result, s')) :
    s.cursor ≤ s'.cursor ∧ Balanced rules (Held rank index pos) 0 s s' := by
  induction symbols generalizing parts s with
  | nil =>
    obtain rfl : s = s' := congrArg Prod.snd hrun
    exact ⟨Nat.le_refl _, .of_eq h rfl rfl⟩
  | cons symbol rest ih =>
    cases symbol with
    | abort message => simp [branch, Branch.run] at hrun
    | oneOf characters =>
      have hitem : s.item feed = (.ok s.feed.text[s.cursor]?, s) := rfl
      rw [branch, Branch.run, hitem] at hrun
      rcases hchar : s.feed.text[s.cursor]? with _ | c
      · rw [hchar] at hrun
        obtain rfl : s = s' := congrArg Prod.snd hrun
        exact ⟨Nat.le_refl _, .of_eq h rfl rfl⟩
      · rw [hchar] at hrun
        dsimp only at hrun
        split at hrun
        · obtain ⟨hcursor, hbalanced⟩ :=
            ih (h.moveTo _) (Nat.le_succ_of_le hle) (.inl (Nat.lt_succ_of_le hle)) hrun
          exact ⟨(Nat.le_succ _).trans hcursor, (Balanced.moveTo h _).settled hbalanced⟩
        · obtain rfl : s = s' := congrArg Prod.snd hrun
          exact ⟨Nat.le_refl _, .of_eq h rfl rfl⟩
    | rule other =>
      rw [branch, Branch.run] at hrun
      rcases hcall : callee other s with ⟨halt | found, mid⟩
      · simp [hcall] at hrun
      obtain ⟨hcursor, hkept⟩ := hcallee other s found mid h hcall
      have hbalanced := hkept (Held rank index pos)
        (isSome_or_before hle (hfresh.imp_right fun hfresh => hfresh other List.mem_cons_self))
      rw [hcall] at hrun
      rcases found with _ | part
      · obtain rfl : mid = s' := congrArg Prod.snd hrun
        exact ⟨hcursor, hbalanced⟩
      · have hmemo : mid.table.get? index pos = s.table.get? index pos :=
          hbalanced.get?_eq index pos (.inr ⟨rfl, rfl⟩)
        have hfresh' : pos < mid.cursor ∨ Fresh rank index pos mid rest := by
          refine hfresh.imp (fun hlt => hlt.trans_le hcursor) fun hfresh later hlater => ?_
          rw [hmemo]
          exact hfresh later (List.mem_cons_of_mem _ hlater)
        obtain ⟨hcursor', hbalanced'⟩ := ih hbalanced.orderly (hle.trans hcursor) hfresh' hrun
        exact ⟨hcursor.trans hcursor', hbalanced.settled hbalanced'⟩

theorem firstMatch_balanced (hcallee : CallsBalanced rules rank callee) (leaky : Bool)
    {alternatives : List (List Symbol)} (h : Orderly rules s) (hle : pos ≤ s.cursor)
    (hfresh : ∀ symbols ∈ alternatives, Fresh rank index pos s symbols)
    (hrun : firstMatch (Branch.run feed callee rounds) pos leaky
      (alternatives.map (branch name [])) s = (.ok result, s')) :
    pos ≤ s'.cursor ∧ Balanced rules (Held rank index pos) 0 s s' := by
  induction alternatives generalizing s with
  | nil =>
    rw [List.map_nil, firstMatch] at hrun
    obtain rfl : (if leaky then s else s.moveTo pos) = s' := congrArg Prod.snd hrun
    cases leaky with
    | true => exact ⟨hle, .of_eq h rfl rfl⟩
    | false => exact ⟨Nat.le_refl _, .of_eq h rfl rfl⟩
  | cons symbols alternatives ih =>
    rw [List.map_cons, firstMatch] at hrun
    rcases hbranch : (branch name [] symbols).run feed callee rounds (s.moveTo pos)
      with ⟨halt | found, mid⟩
    · simp [hbranch] at hrun
    obtain ⟨hfirst, hmore⟩ := List.forall_mem_cons.1 hfresh
    obtain ⟨hcursor, hbalanced⟩ :=
      branch_balanced hcallee (h.moveTo pos) (Nat.le_refl _) (.inr hfirst) hbranch
    have hbalanced : Balanced rules (Held rank index pos) 0 s mid :=
      (Balanced.moveTo h _).settled hbalanced
    rw [hbranch] at hrun
    rcases found with _ | part
    · refine (ih hbalanced.orderly hcursor (fun symbols hmem other hother => ?_) hrun).imp_right
        hbalanced.settled
      rw [hbalanced.get?_eq index pos (.inr ⟨rfl, rfl⟩)]
      exact hmore symbols hmem other hother
    · obtain rfl : mid = s' := congrArg Prod.snd hrun
      exact ⟨hcursor, hbalanced⟩

/-- A run of a rule is owed, and nothing else. -/
theorem production_balanced (hranked : rules.RankedBy rank)
    (hcallee : CallsBalanced rules rank callee) (h : Orderly rules s)
    (hmemo : ∀ rule, rules[index]? = some rule → rule.leftRecursive = true →
      (s.table.get? index s.cursor).isSome)
    (hrun : ((toGrammar rules).production index).run feed callee rounds index s =
      (.ok result, s')) :
    s.cursor ≤ s'.cursor ∧ Balanced rules (Held rank index s.cursor) (Pi.single index 1) s s' := by
  have howed :
      Balanced rules (Held rank index s.cursor) (Pi.single index 1) s
        (s.observe feed (.run index)) :=
    balanced_run h index
  suffices hbody : s.cursor ≤ s'.cursor ∧
      Balanced rules (Held rank index s.cursor) 0 (s.observe feed (.run index)) s' from
    hbody.imp_right fun hbody => add_zero (Pi.single index 1 : Nat → Int) ▸ howed.trans hbody
  rcases hrule : rules[index]? with _ | rule
  · rw [production_of_none hrule] at hrun
    obtain rfl : (s.observe feed (.run index)).moveTo s.cursor = s' := congrArg Prod.snd hrun
    exact ⟨Nat.le_refl _, .of_eq howed.orderly rfl rfl⟩
  · rw [production_eq hrule] at hrun
    refine firstMatch_balanced hcallee rule.leaky howed.orderly (Nat.le_refl _)
      (fun symbols hmem other hother => ?_) hrun
    exact (hranked.descends index rule hrule symbols hmem other hother).imp_right
        fun ⟨hsame, hleft⟩ =>
      ⟨hsame, hmemo rule hrule hleft⟩

/-! ## Rules -/

theorem not_before (rank : Nat → Nat) (index pos : Nat) : ¬Before rank index pos index pos := by
  rintro (hlt | ⟨-, hlt⟩) <;> exact Nat.lt_irrefl _ hlt

/-- The memo of a rule that is not left recursive pays for its run. -/
theorem memoize_balanced (hranked : rules.RankedBy rank) (hcallee : CallsBalanced rules rank callee)
    (h : Orderly rules s) (hcached : ∀ rule, rules[index]? = some rule → rule.leftRecursive = false)
    (hnone : s.table.get? index s.cursor = none)
    (hrun : memoize index (((toGrammar rules).production index).run feed callee rounds index) s =
      (.ok result, s')) :
    s.cursor ≤ s'.cursor ∧ Balanced rules (Before rank index s.cursor) 0 s s' := by
  rw [memoize, hnone] at hrun
  rcases hbody : ((toGrammar rules).production index).run feed callee rounds index s
    with ⟨halt | found, mid⟩
  · simp [hbody] at hrun
  simp only [hbody] at hrun
  obtain rfl : mid.record index s.cursor { result := found, stop := mid.cursor } = s' :=
    congrArg Prod.snd hrun
  obtain ⟨hcursor, hbalanced⟩ := production_balanced hranked hcallee h
    (fun rule hrule hleft => absurd hleft (by simp [hcached rule hrule])) hbody
  have habsent : mid.table.get? index s.cursor = none :=
    (hbalanced.get?_eq index s.cursor (.inr ⟨rfl, rfl⟩)).trans hnone
  have hpaid : Balanced rules (Before rank index s.cursor) (Pi.single index (-1)) mid
      (mid.record index s.cursor { result := found, stop := mid.cursor }) := by
    refine balanced_record hbalanced.orderly hcursor (not_before rank index _) fun rule hrule => ?_
    rw [excess_record_of_none habsent]
    simp [cost, hcached rule hrule]
  have hsum := (hbalanced.mono fun _ _ => Or.inl).trans hpaid
  rw [← Pi.single_add, add_neg_cancel, Pi.single_zero] at hsum
  exact ⟨hcursor, hsum⟩

/-- Each time a rule grows, the longer memo pays for the run, so that only the last run is owed. -/
theorem grow_balanced (hranked : rules.RankedBy rank) (hcallee : CallsBalanced rules rank callee)
    (hgrown : ∀ rule, rules[index]? = some rule → rule.leftRecursive = true) :
    ∀ (steps : Nat) (best : Memo String) (s : CharParse), Orderly rules s →
      s.table.get? index pos = some best →
      grow index (((toGrammar rules).production index).run feed callee rounds index) pos
        steps best s = (.ok result, s') →
      pos ≤ s'.cursor ∧ Balanced rules (Before rank index pos) (Pi.single index 1) s s'
  | 0, _, _, _, _, hrun => by simp [grow] at hrun
  | steps + 1, best, s, h, hbest, hrun => by
    rw [grow] at hrun
    rcases hbody : ((toGrammar rules).production index).run feed callee rounds index (s.moveTo pos)
      with ⟨halt | found, mid⟩
    · simp [hbody] at hrun
    obtain ⟨hcursor, hbalanced⟩ := production_balanced hranked hcallee (h.moveTo pos)
      (fun _ _ _ => by rw [Option.isSome_iff_exists]; exact ⟨best, hbest⟩) hbody
    have hheld : mid.table.get? index pos = some best :=
      (hbalanced.get?_eq index pos (.inr ⟨rfl, rfl⟩)).trans hbest
    have howed : Balanced rules (Before rank index pos) (Pi.single index 1) s mid :=
      (Balanced.moveTo h pos).settled (hbalanced.mono fun _ _ => Or.inl)
    simp only [hbody] at hrun
    split at hrun
    · rename_i hbetter
      have hpaid : Balanced rules (Before rank index pos) (Pi.single index (-1)) mid
          (mid.record index pos { result := found, stop := mid.cursor }) := by
        refine balanced_record hbalanced.orderly hcursor (not_before rank index _)
          fun rule hrule => ?_
        have hle := h.le_stop hbest
        rw [excess_record_of_some hheld]
        simp only [cost, hgrown rule hrule, if_true, Bool.true_eq_false, false_implies, and_true]
        omega
      have hlast := grow_balanced hranked hcallee hgrown steps _ _ hpaid.orderly
        (Table.get?_insert_self _ _ _ _) hrun
      have hsum := howed.trans hpaid
      rw [← Pi.single_add, add_neg_cancel, Pi.single_zero] at hsum
      exact hlast.imp_right hsum.settled
    · obtain rfl : mid.moveTo best.stop = s' := congrArg Prod.snd hrun
      refine ⟨h.le_stop hbest, ?_⟩
      exact add_zero (Pi.single index 1 : Nat → Int) ▸ howed.trans (.moveTo howed.orderly _)

/-- The first memo of a left recursive rule pays for one run. -/
theorem memoizeGrown_balanced (hranked : rules.RankedBy rank)
    (hcallee : CallsBalanced rules rank callee)
    (h : Orderly rules s) (hgrown : ∀ rule, rules[index]? = some rule → rule.leftRecursive = true)
    (hnone : s.table.get? index s.cursor = none) {steps : Nat}
    (hrun : memoizeGrown index
      (((toGrammar rules).production index).run feed callee rounds index) steps s =
      (.ok result, s')) :
    s.cursor ≤ s'.cursor ∧ Balanced rules (Before rank index s.cursor) 0 s s' := by
  rw [memoizeGrown_of_none _ _ hnone] at hrun
  have hpaid : Balanced rules (Before rank index s.cursor) (Pi.single index (-1)) s
      (s.record index s.cursor { result := none, stop := s.cursor }) := by
    refine balanced_record h (Nat.le_refl _) (not_before rank index _) fun rule hrule => ?_
    rw [excess_record_of_none hnone]
    simp [cost, hgrown rule hrule]
  obtain ⟨hcursor, howed⟩ := grow_balanced hranked hcallee hgrown steps _ _ hpaid.orderly
    (Table.get?_insert_self _ _ _ _) hrun
  have hsum := hpaid.trans howed
  rw [← Pi.single_add, neg_add_cancel, Pi.single_zero] at hsum
  exact ⟨hcursor, hsum⟩

end

/-- Only runs are counted. -/
theorem call_succ (rules : CharGrammar) (fuel index : Nat) (s : CharParse) :
    Packrat.call (toGrammar rules) .plain feed (fuel + 1) index s =
      runRule (toGrammar rules) index fuel
      (((toGrammar rules).production index).run feed
          (Packrat.call (toGrammar rules) .plain feed fuel) fuel index) s := by
  have hattempt : s.observe feed (.attempt index) = s := rfl
  rw [Packrat.call, Production.apply_plain, hattempt]
  rcases runRule (toGrammar rules) index fuel _ s with ⟨halt | _ | result, last⟩ <;> rfl

/-- A call is balanced if it answers. -/
theorem call_balanced (hranked : rules.RankedBy rank) :
    ∀ fuel, CallsBalanced rules rank (Packrat.call (toGrammar rules) .plain feed fuel)
  | 0, _, _, _, _, _, hcall => by simp [Packrat.call] at hcall
  | fuel + 1, index, s, result, s', h, hcall => by
    have hcallee := call_balanced hranked fuel
    rw [call_succ] at hcall
    rcases hget : s.table.get? index s.cursor with _ | memo
    · suffices hbalanced : s.cursor ≤ s'.cursor ∧
        Balanced rules (Before rank index s.cursor) 0 s s' from
        hbalanced.imp_right fun hbalanced kept hkept =>
          hbalanced.mono (hkept.resolve_left (by simp))
      by_cases hleft : rules[index]?.any CharRule.leftRecursive = true
      · have hgrown : (toGrammar rules).strategy index = .grown := if_pos hleft
        rw [runRule, hgrown] at hcall
        exact memoizeGrown_balanced hranked hcallee h
          (fun rule hrule => by simpa [hrule] using hleft) hget hcall
      · have hcached : (toGrammar rules).strategy index = .cached := if_neg hleft
        rw [runRule, hcached] at hcall
        exact memoize_balanced hranked hcallee h
          (fun rule hrule => by simpa [hrule] using hleft) hget hcall
    · -- the rule is answered from its memo
      have hmemo : (toGrammar rules).strategy index ≠ .plain := by
        simp only [toGrammar]
        split <;> simp
      obtain rfl : s.moveTo memo.stop = s' :=
        congrArg Prod.snd ((runRule_of_memo _ fuel hmemo hget).symm.trans hcall)
      exact ⟨h.le_stop hget, fun _ _ => .moveTo h _⟩

end

/-! ## Whole parses -/

section

variable {rules : CharGrammar} {rank : Nat → Nat}

theorem orderly_start (rules : CharGrammar) (text : String) : Orderly rules (start rules text) where
  size_runs := Array.size_replicate
  le_stop h := by simp [start] at h

theorem excess_start (rules : CharGrammar) (text : String) (index : Nat) (rule : CharRule) :
    excess (start rules text) index rule = 0 := by
  have hruns : (start rules text).feed.runs[index]?.getD 0 = 0 := by
    simp only [start, Array.getElem?_replicate]
    split <;> rfl
  have hmemos : (start rules text).table.memosOf index = [] := Table.memosOf_empty index
  rw [excess, hruns, hmemos]
  rfl

theorem Reached.balanced {text : String} {parse : CharParse} (h : Reached rules text parse)
    (hranked : rules.RankedBy rank) :
    Balanced rules (fun _ _ => False) 0 (CharGrammar.start rules text) parse := by
  induction h with
  | start => exact .of_eq (orderly_start rules text) rfl rfl
  | @call parse hreached index ih =>
    obtain ⟨result, -, hresult, -⟩ := (hreached.steady hranked).call hranked index
    have hcall :=
      call_balanced hranked (fuel rules parse) index parse result _ ih.orderly
        (Prod.ext hresult rfl)
    exact ih.settled (hcall.2 _ (.inr fun _ _ hfalse => hfalse.elim))
  | reset _ hpos ih => exact ih.settled (.moveTo ih.orderly _)

end

/-- Nothing is parsed twice. After any calls, and with the cursor put anywhere in the text, the
branches of a rule that is not left recursive have been run once for each memo of it, and those of
a left recursive rule at most once for each memo and once for each character of it. -/
theorem runs_of_reached {rules : CharGrammar} {rank : Nat → Nat} (hranked : rules.RankedBy rank)
    {text : String} {parse : CharParse} (hreached : Reached rules text parse) {index : Nat}
    {rule : CharRule} (hrule : rules[index]? = some rule) :
    ∃ runs, parse.feed.runs[index]? = some runs ∧
      (rule.leftRecursive = false → runs = (parse.table.memosOf index).length) ∧
      (rule.leftRecursive = true → (∀ entry ∈ parse.table.memosOf index, entry.1 ≤ entry.2.stop) ∧
        runs ≤ ((parse.table.memosOf index).map fun entry => entry.2.stop - entry.1 + 1).sum) := by
  have hbalanced := hreached.balanced hranked
  have hlt : index < parse.feed.runs.size :=
    hbalanced.orderly.size_runs ▸ (List.getElem?_eq_some_iff.1 hrule).1
  have hexcess : excess parse index rule = (parse.feed.runs[index] : Nat) -
      (((parse.table.memosOf index).map (cost rule)).sum : Nat) := by
    rw [excess, Array.getElem?_eq_getElem hlt, Option.getD_some]
  refine ⟨parse.feed.runs[index], Array.getElem?_eq_getElem hlt, fun hleft => ?_,
    fun hleft => ⟨?_, ?_⟩⟩
  · have heq : excess parse index rule = excess (start rules text) index rule + 0 :=
      hbalanced.excess_eq index rule hrule hleft
    have hsum : ((parse.table.memosOf index).map (cost rule)).sum =
        (parse.table.memosOf index).length := by
      simp [show cost rule = fun _ => 1 from funext fun _ => by simp [cost, hleft]]
    rw [excess_start] at heq
    omega
  · rintro ⟨pos, memo⟩ hmem
    exact hbalanced.orderly.le_stop (Table.mem_memosOf.1 hmem)
  · have hle : excess parse index rule ≤ excess (start rules text) index rule + 0 :=
      hbalanced.excess_le index rule hrule
    have hsum : ((parse.table.memosOf index).map (cost rule)).sum =
        ((parse.table.memosOf index).map fun entry => entry.2.stop - entry.1 + 1).sum :=
      congrArg List.sum (List.map_congr_left fun _ _ => if_pos hleft)
    rw [excess_start] at hle
    omega

/-- After a sum is read, and then what comes after its first sign, the sums have been run seven
times and the three digits once each. -/
theorem runs_of_reached_digitSums :
    let parse := (call digitSums 0 ((call digitSums 0 (start digitSums "1+2+3")).2.moveTo 2)).2
    digitSums.RankedBy (fun index => 1 - index) ∧ Reached digitSums "1+2+3" parse ∧
      parse.feed.runs = #[7, 3] ∧ 3 = (parse.table.memosOf 1).length ∧
      7 ≤ ((parse.table.memosOf 0).map fun entry => entry.2.stop - entry.1 + 1).sum := by
  intro parse
  have hreached : Reached digitSums "1+2+3" parse := .call (.reset (.call .start 0) (by decide)) 0
  have hruns : parse.feed.runs = #[7, 3] := rfl
  have hsum : digitSums[0]? = some digitSums[0] := rfl
  have hdigit : digitSums[1]? = some digitSums[1] := rfl
  obtain ⟨sums, hsums, -, hle⟩ := runs_of_reached rankedBy_digitSums hreached hsum
  obtain ⟨digits, hdigits, heq, -⟩ := runs_of_reached rankedBy_digitSums hreached hdigit
  obtain rfl : 7 = sums := by simpa [hruns] using hsums
  obtain rfl : 3 = digits := by simpa [hruns] using hdigits
  exact ⟨rankedBy_digitSums, hreached, hruns, heq rfl, (hle rfl).2⟩

end CharGrammar

end OpticScript.Packrat
