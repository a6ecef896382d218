import OpticScript.Proofs.Grammar.Order
import OpticScript.TokenFeed

/-!
# The items of a lexer

A lexer as a function of the position : `Lexer.item n` is the token or the error that
comes after `n` tokens. A feed that has read `n` tokens holds the first `n` items and the
lexer that is behind them, and nothing else of it shows (`TokenFeed.view`).

An end marker or an error is never farther away than the number of tokens to come
(`Lexer.exists_wall`). Up to there the items are those that `Lexer.toEnd` lists
(`toEnd_eq`).
-/

namespace OpticScript

open Packrat

namespace Lexer

/-- The lexer after so many requests. -/
def after (lexer : Lexer) : Nat → Lexer
  | 0 => lexer
  | n + 1 => (lexer.after n).nextToken.2

/-- What comes after so many requests. There is always a token or an error. -/
def item (lexer : Lexer) (n : Nat) : Except ScriptError (Option Token) :=
  (lexer.after n).nextToken.1.map some

variable {lexer : Lexer}

theorem after_add (m n : Nat) : lexer.after (m + n) = (lexer.after m).after n := by
  induction n with
  | zero => rfl
  | succ n ih => rw [← Nat.add_assoc, after, ih, after]

theorem item_add (m n : Nat) : lexer.item (m + n) = (lexer.after m).item n := by
  rw [item, after_add, item]

theorem item_ne_none (n : Nat) : lexer.item n ≠ .ok none := by
  unfold item
  cases (lexer.after n).nextToken.1 <;> simp [Except.map]

theorem item_eq_ok_iff {n : Nat} {t : Token} :
    lexer.item n = .ok (some t) ↔ (lexer.after n).nextToken = (.ok t, lexer.after (n + 1)) := by
  rw [item, after]
  rcases (lexer.after n).nextToken with ⟨e | t', after⟩ <;> simp [Except.map]

theorem item_eq_error_iff {n : Nat} {e : ScriptError} :
    lexer.item n = .error e ↔ (lexer.after n).nextToken.1 = .error e := by
  rw [item]
  cases (lexer.after n).nextToken.1 <;> simp [Except.map]

theorem item_zero_of_nextToken {t : Token} {next : Lexer} (h : lexer.nextToken = (.ok t, next)) :
    lexer.item 0 = .ok (some t) ∧ lexer.after 1 = next := by
  rw [item, after, after, after, h]
  exact ⟨rfl, rfl⟩

/-- The end marker or an error comes after so many tokens and not before. -/
structure EndsAt (lexer : Lexer) (n : Nat) : Prop where
  wall : Wall lexer.item (fun t => t.kind = .endMarker) n
  not_wall : ∀ i < n, ∃ t, lexer.item i = .ok (some t) ∧ t.kind ≠ .endMarker

theorem wall_or_token (n : Nat) : Wall lexer.item (fun t => t.kind = .endMarker) n ∨
    ∃ t, lexer.item n = .ok (some t) ∧ t.kind ≠ .endMarker := by
  by_cases h : Wall lexer.item (fun t => t.kind = .endMarker) n
  · exact .inl h
  · exact .inr (by simpa [Wall] using h)

theorem EndsAt.eq_of_endMarker {n wall : Nat} (h : lexer.EndsAt wall) (hle : n ≤ wall)
    {mark : Token}
    (hmark : lexer.item n = .ok (some mark)) (hkind : mark.kind = .endMarker) : n = wall := by
  refine Nat.le_antisymm hle (Nat.le_of_not_lt fun hlt => ?_)
  obtain ⟨t, ht, hne⟩ := h.not_wall n hlt
  obtain rfl : mark = t := by simpa [hmark] using ht
  exact hne hkind

/-- Tokens and then an end. -/
theorem EndsAt.of_after {m n : Nat} (h : (lexer.after m).EndsAt n)
    (hbefore : ∀ i < m, ∃ t, lexer.item i = .ok (some t) ∧ t.kind ≠ .endMarker) :
    lexer.EndsAt (m + n) where
  wall := by
    rw [Wall, item_add]
    exact h.wall
  not_wall i hi := by
    rcases Nat.lt_or_ge i m with hlt | hge
    · exact hbefore i hlt
    · obtain ⟨j, rfl⟩ := Nat.exists_eq_add_of_le hge
      rw [item_add]
      exact h.not_wall j (by omega)

theorem EndsAt.after {m n : Nat} (h : lexer.EndsAt (m + n)) : (lexer.after m).EndsAt n where
  wall := by
    rw [Wall, ← item_add]
    exact h.wall
  not_wall i hi := by
    rw [← item_add]
    exact h.not_wall (m + i) (Nat.add_lt_add_left hi m)

/-- The end comes within the number of tokens to come. -/
theorem exists_endsAt (lexer : Lexer) : ∃ n ≤ lexer.remaining, lexer.EndsAt n := by
  induction hr : lexer.remaining using Nat.strong_induction_on generalizing lexer with
  | _ r ih =>
    rcases lexer.wall_or_token 0 with hwall | ⟨t, ht, hkind⟩
    · exact ⟨0, Nat.zero_le r, hwall, by simp⟩
    · have hlt : (lexer.after 1).remaining < lexer.remaining :=
        remaining_nextToken_lt (item_eq_ok_iff.1 ht) hkind
      obtain ⟨n, hn, hends⟩ := ih _ (hr ▸ hlt) (lexer.after 1) rfl
      refine ⟨1 + n, by omega, hends.of_after fun i hi => ?_⟩
      obtain rfl : i = 0 := by omega
      exact ⟨t, ht, hkind⟩

theorem exists_wall (n : Nat) :
    ∃ wall, n ≤ wall ∧ wall ≤ n + (lexer.after n).remaining ∧
      Wall lexer.item (fun t => t.kind = .endMarker) wall := by
  obtain ⟨m, hm, hends⟩ := (lexer.after n).exists_endsAt
  refine ⟨n + m, by omega, by omega, ?_⟩
  rw [Wall, item_add]
  exact hends.wall

/-! ## Whole scripts -/

theorem toEnd_of_error {e : ScriptError} (he : lexer.item 0 = .error e) :
    lexer.toEnd = { tokens := [], failure := some e, final := lexer.after 1 } := by
  have hnext : lexer.nextToken = (.error e, lexer.after 1) := Prod.ext (item_eq_error_iff.1 he) rfl
  rw [toEnd]
  split
  · simp_all
  · simp_all

theorem toEnd_of_ok {t : Token} (ht : lexer.item 0 = .ok (some t)) :
    lexer.toEnd =
      if t.kind = .endMarker then { tokens := [t], failure := none, final := lexer.after 1 }
      else { (lexer.after 1).toEnd with tokens := t :: (lexer.after 1).toEnd.tokens } := by
  have hnext : lexer.nextToken = (.ok t, lexer.after 1) := item_eq_ok_iff.1 ht
  rw [toEnd]
  split
  · simp_all
  · rename_i heq
    obtain ⟨rfl, rfl⟩ : _ ∧ _ := by simpa [hnext] using heq
    rfl

theorem toEnd_of_token {t : Token} (ht : lexer.item 0 = .ok (some t))
    (hkind : t.kind ≠ .endMarker) :
    lexer.toEnd = { (lexer.after 1).toEnd with tokens := t :: (lexer.after 1).toEnd.tokens } :=
  (toEnd_of_ok ht).trans (if_neg hkind)

theorem toEnd_of_endMarker {t : Token} (ht : lexer.item 0 = .ok (some t))
    (hkind : t.kind = .endMarker) :
    lexer.toEnd = { tokens := [t], failure := none, final := lexer.after 1 } :=
  (toEnd_of_ok ht).trans (if_pos hkind)

/-- The scan of a lexer lists its items up to the end. -/
theorem EndsAt.toEnd_eq {n : Nat} (h : lexer.EndsAt n) :
    lexer.toEnd.final = lexer.after (n + 1) ∧
      (∀ e, lexer.toEnd.failure = some e ↔ lexer.item n = .error e) ∧
      ∀ i t, lexer.toEnd.tokens[i]? = some t ↔ i ≤ n ∧ lexer.item i = .ok (some t) := by
  induction n generalizing lexer with
  | zero =>
    rcases hitem : lexer.item 0 with e | _ | t
    · rw [toEnd_of_error hitem]
      refine ⟨rfl, by simp, fun i t => ?_⟩
      simp only [List.getElem?_nil, Nat.le_zero]
      refine ⟨by simp, ?_⟩
      rintro ⟨rfl, ht⟩
      simp [hitem] at ht
    · exact absurd hitem (item_ne_none 0)
    · rw [toEnd_of_endMarker hitem (h.wall t hitem)]
      refine ⟨rfl, by simp, fun i t' => ?_⟩
      rcases i with _ | i
      · simp [hitem]
      · simp
  | succ n ih =>
    obtain ⟨t, ht, hkind⟩ := h.not_wall 0 (Nat.succ_pos n)
    rw [Nat.add_comm] at h
    obtain ⟨hfinal, hfailure, htokens⟩ := ih h.after
    rw [toEnd_of_token ht hkind]
    refine ⟨?_, fun e => ?_, fun i t' => ?_⟩
    · rw [hfinal, ← after_add, Nat.add_comm]
    · rw [hfailure, ← item_add, Nat.add_comm]
    · rcases i with _ | i
      · simp [ht]
      · rw [List.getElem?_cons_succ, htokens, ← item_add, Nat.add_comm 1 i, Nat.succ_le_succ_iff]

theorem EndsAt.failure_of_error {n : Nat} {e : ScriptError} (h : lexer.EndsAt n)
    (he : lexer.item n = .error e) : lexer.toEnd.failure = some e :=
  (h.toEnd_eq.2.1 e).2 he

theorem EndsAt.failure_of_token {n : Nat} {t : Token} (h : lexer.EndsAt n)
    (ht : lexer.item n = .ok (some t)) : lexer.toEnd.failure = none := by
  by_contra hne
  obtain ⟨e, he⟩ := Option.ne_none_iff_exists'.1 hne
  simp [(h.toEnd_eq.2.1 e).1 he] at ht

/-- A scan lists the tokens before the end, and then the end marker unless it fails. -/
theorem EndsAt.toEnd_cases {n : Nat} (h : lexer.EndsAt n) :
    (∃ e, lexer.item n = .error e ∧ lexer.toEnd.failure = some e ∧
      lexer.toEnd.tokens.length = n) ∨
    ∃ mark, lexer.item n = .ok (some mark) ∧ mark.kind = .endMarker ∧
      lexer.toEnd.failure = none ∧ lexer.toEnd.tokens.length = n + 1 ∧
      lexer.toEnd.tokens = lexer.toEnd.tokens.take n ++ [mark] := by
  have hlist := h.toEnd_eq.2.2
  have hlt : ∀ i < n, i < lexer.toEnd.tokens.length := fun i hi => by
    obtain ⟨t, ht, -⟩ := h.not_wall i hi
    exact (List.getElem?_eq_some_iff.1 ((hlist i t).2 ⟨hi.le, ht⟩)).1
  have hge : n ≤ lexer.toEnd.tokens.length :=
    Nat.le_of_not_lt fun hgt => absurd (hlt _ hgt) (by omega)
  rcases hitem : lexer.item n with e | _ | mark
  · refine .inl ⟨e, rfl, h.failure_of_error hitem,
      Nat.le_antisymm (Nat.le_of_not_lt fun hgt => ?_) hge⟩
    simpa [hitem] using ((hlist n _).1 (List.getElem?_eq_getElem hgt)).2
  · exact absurd hitem (item_ne_none n)
  · have hlast := (hlist n mark).2 ⟨Nat.le_refl n, hitem⟩
    have hend : lexer.toEnd.tokens.length = n + 1 := by
      refine Nat.le_antisymm (Nat.le_of_not_lt fun hgt => ?_) (List.getElem?_eq_some_iff.1 hlast).1
      have := ((hlist (n + 1) _).1 (List.getElem?_eq_getElem hgt)).1
      omega
    refine .inr ⟨mark, rfl, h.wall mark hitem, h.failure_of_token hitem, hend, ?_⟩
    conv_lhs => rw [← List.take_of_length_le hend.le, List.take_add_one, hlast]
    rfl

theorem EndsAt.length_tokens_of_error {n : Nat} {e : ScriptError} (h : lexer.EndsAt n)
    (he : lexer.item n = .error e) : lexer.toEnd.tokens.length = n := by
  rcases h.toEnd_cases with ⟨-, -, -, hlength⟩ | ⟨mark, hmark, -⟩
  · exact hlength
  · simp [he] at hmark

/-- The tokens before the end are the same if the items are. -/
theorem EndsAt.take_tokens {lexer' : Lexer} {n : Nat} (h : lexer.EndsAt n) (h' : lexer'.EndsAt n)
    (heq : ∀ i < n, lexer'.item i = lexer.item i) :
    lexer'.toEnd.tokens.take n = lexer.toEnd.tokens.take n := by
  refine List.ext_getElem? fun i => ?_
  rw [List.getElem?_take, List.getElem?_take]
  split
  · rename_i hi
    ext t
    rw [h.toEnd_eq.2.2, h'.toEnd_eq.2.2, heq i hi]
  · rfl

theorem EndsAt.endMarker_of_failure {n : Nat} (h : lexer.EndsAt n)
    (hfailure : lexer.toEnd.failure = none) :
    ∃ mark, lexer.item n = .ok (some mark) ∧ mark.kind = .endMarker := by
  rcases h.toEnd_cases with ⟨e, -, he, -⟩ | ⟨mark, hmark, hkind, -⟩
  · simp [he] at hfailure
  · exact ⟨mark, hmark, hkind⟩

/-- A token of a scan is an item from before the end. -/
theorem exists_item_of_mem_tokens {t : Token} (h : t ∈ lexer.toEnd.tokens) :
    ∃ i m, i < m ∧ lexer.item i = .ok (some t) ∧ lexer.toEnd.final = lexer.after m := by
  obtain ⟨n, -, hends⟩ := lexer.exists_endsAt
  obtain ⟨hfinal, -, htokens⟩ := hends.toEnd_eq
  obtain ⟨i, hi⟩ := List.mem_iff_getElem?.1 h
  obtain ⟨hle, ht⟩ := (htokens i t).1 hi
  exact ⟨i, n + 1, Nat.lt_succ_of_le hle, ht, hfinal⟩

/-- A scan has the end marker if it does not fail. -/
theorem endMarker_mem_tokens_iff :
    (∃ mark ∈ lexer.toEnd.tokens, mark.kind = .endMarker) ↔ lexer.toEnd.failure = none := by
  obtain ⟨n, -, hends⟩ := lexer.exists_endsAt
  rcases hends.toEnd_cases with ⟨e, -, hfailure, hlength⟩ | ⟨mark, -, hkind, hfailure, -, htokens⟩
  · refine iff_of_false ?_ (by simp [hfailure])
    rintro ⟨mark, hmem, hkind⟩
    obtain ⟨i, hi, rfl⟩ := List.mem_iff_getElem.1 hmem
    obtain ⟨t, ht, hne⟩ := hends.not_wall i (hlength ▸ hi)
    have hitem := ((hends.toEnd_eq.2.2 i _).1 (List.getElem?_eq_getElem hi)).2
    obtain rfl : _ = t := by simpa [hitem] using ht
    exact hne hkind
  · refine iff_of_true ⟨mark, ?_, hkind⟩ hfailure
    rw [htokens]
    exact List.mem_append_right _ List.mem_cons_self

/-- From some token on a scan comes to the same end. -/
theorem EndsAt.toEnd_after {m n : Nat} (h : lexer.EndsAt n) (hm : m ≤ n) :
    (lexer.after m).toEnd.failure = lexer.toEnd.failure ∧
      (lexer.after m).toEnd.final = lexer.toEnd.final := by
  obtain ⟨n, rfl⟩ := Nat.exists_eq_add_of_le hm
  obtain ⟨hfinal, hfailure, -⟩ := h.toEnd_eq
  obtain ⟨hfinal', hfailure', -⟩ := h.after.toEnd_eq
  constructor
  · ext e
    rw [hfailure, hfailure', item_add]
  · rw [hfinal, hfinal', ← after_add, Nat.add_assoc]

end Lexer

/-! ## Feeds -/

namespace TokenFeed

/-- The feed has read the first `n` items of the lexer. -/
structure Holds (lexer : Lexer) (n : Nat) (feed : TokenFeed) : Prop where
  lexer_eq : feed.lexer = lexer.after n
  size_eq : feed.tokens.size = n
  item_eq : ∀ i t, feed.tokens[i]? = some t → lexer.item i = .ok (some t)

variable {lexer : Lexer} {n : Nat} {feed : TokenFeed}

theorem mapTrace_lexer (f : Trace → Trace) (feed : TokenFeed) :
    (feed.mapTrace f).lexer = feed.lexer ∧ (feed.mapTrace f).tokens = feed.tokens := by
  unfold mapTrace
  cases feed.trace <;> exact ⟨rfl, rfl⟩

theorem Holds.mapTrace (h : feed.Holds lexer n) (f : Trace → Trace) :
    (feed.mapTrace f).Holds lexer n := by
  obtain ⟨hlexer, htokens⟩ := mapTrace_lexer f feed
  exact ⟨hlexer.trans h.lexer_eq, (congrArg _ htokens).trans h.size_eq, htokens ▸ h.item_eq⟩

theorem Holds.observe (h : feed.Holds lexer n) (event : Event Rule) :
    (TokenFeed.observe event feed).Holds lexer n := by
  cases event with
  | run r => exact h
  | attempt r => exact h.mapTrace _
  | matched r stop => exact h.mapTrace _
  | failed r => exact h.mapTrace _
  | abandoned r => exact h.mapTrace _

theorem holds_start (lexer : Lexer) (trace : Option Trace) :
    Holds lexer 0 { lexer, tokens := #[], trace } :=
  ⟨rfl, rfl, by simp⟩

/-- The token with a number that is at most the number of tokens read. -/
theorem Holds.token (h : feed.Holds lexer n) {pos : Nat} (hpos : pos ≤ n) :
    (feed.token pos).1.map some = lexer.item pos ∧
      ∀ t, lexer.item pos = .ok (some t) → (feed.token pos).2.Holds lexer (max n (pos + 1)) := by
  obtain ⟨source, tokens, trace⟩ := feed
  obtain ⟨rfl, hsize, hitem⟩ : source = lexer.after n ∧ tokens.size = n ∧
    ∀ i t, tokens[i]? = some t → lexer.item i = .ok (some t) := ⟨h.lexer_eq, h.size_eq, h.item_eq⟩
  rcases Nat.lt_or_eq_of_le hpos with hlt | rfl
  · have hget : tokens[pos]? = some tokens[pos] := Array.getElem?_eq_getElem (by omega)
    simp only [token, hget]
    refine ⟨(hitem pos _ hget).symm, fun _ _ => ?_⟩
    rwa [Nat.max_eq_left hlt]
  · have hget : tokens[pos]? = none := by simp [hsize]
    simp only [token, hget]
    refine ⟨?_, fun t ht => ?_⟩
    · rw [Lexer.item]
      rcases (lexer.after pos).nextToken with ⟨e | t, after⟩ <;> rfl
    · rw [Lexer.item_eq_ok_iff.1 ht, Nat.max_eq_right (Nat.le_succ pos)]
      refine ⟨rfl, by simp [hsize], fun i t' hi => ?_⟩
      rw [Array.getElem?_push, hsize] at hi
      split at hi
      · rename_i hpos
        obtain rfl : t = t' := by simpa using hi
        exact hpos ▸ ht
      · exact hitem i t' hi

theorem feed_item (pos : Nat) (feed : TokenFeed) :
    TokenFeed.feed.item pos feed = ((feed.token pos).1.map some, (feed.token pos).2) := by
  rw [TokenFeed.feed]
  dsimp only
  rcases feed.token pos with ⟨e | t, after⟩ <;> rfl

/-- A feed is told by the number of tokens it has read. -/
def view (lexer : Lexer) : TokenFeed.feed.View where
  items := lexer.item
  report n blame := .located ((lexer.after n).blame blame.cause blame.token)
  Holds := Holds lexer
  holds_observe event h := h.observe event
  item_eq h hpos := by
    rw [feed_item]
    exact (h.token hpos).1
  holds_item {n feed pos item} h hpos hitem := by
    rw [feed_item]
    cases item with
    | none => exact absurd hitem (Lexer.item_ne_none pos)
    | some t => exact (h.token hpos).2 t hitem
  report_eq blame h := by
    simp [TokenFeed.feed, TokenFeed.report, h.lexer_eq]

end TokenFeed

end OpticScript
