import OpticScript.Proofs.Packrat.Matching

/-!
# Rules that begin with themselves

A grown rule whose branches are `rule op base`, for some operators, and `base`. What it matches
is a chain of matches of `base` with operators between them, grouped from the left (`Chained`) :
each link is a step of growth. If no operator comes after the chain the rule is done
(`Chained.matches_chain`), because from its seed on it would get no farther than `base`.

A grown rule whose first branch joins two matches of it takes two steps at most : the other
branches give a match (`matches_unit`), and a match that comes after that one has grown already
(`matches_join`).
-/

namespace OpticScript.Packrat

variable {K : Type} [DecidableEq K] {V : K → Type} {T F E : Type}

/-- An operator of a chain, and what it makes of its operands. -/
structure Link (V : K → Type) (key base : K) where
  operator : K
  combine : V key → V base → V key

variable {key base : K}

/-- The rule, an operator and a match of `base`. -/
def Link.branch (link : Link V key base) : Branch K V T F (V key) :=
  .call key fun left => .call link.operator fun _ => .call base fun right =>
    .done (link.combine left right)

/-- The branches of a rule for chains. -/
def chainBranches (links : List (Link V key base)) (first : V base → V key) :
    List (Branch K V T F (V key)) :=
  links.map Link.branch ++ [.call base fun a => .done (first a)]

/-- A chain of matches of `base` from a position on. -/
inductive Chained (callee : Nat → (key : K) → Nat → Outcome F E (Option (V key)))
    (links : List (Link V key base)) (first : V base → V key) (pos : Nat) : V key → Nat → Prop
  | first {a : V base} {stop : Nat} (h : Matches callee base pos (some a) stop)
    (hstop : pos < stop) : Chained callee links first pos (first a) stop
  | more {left : V key} {right : V base} {link : Link V key base}
    {before after : List (Link V key base)}
      {mid next stop : Nat} {operator : V link.operator}
      (hleft : Chained callee links first pos left mid) (hlinks : links = before ++ link :: after)
      (hbefore : ∀ other ∈ before, Matches callee other.operator mid none mid)
      (hoperator : Matches callee link.operator mid (some operator) next)
      (hright : Matches callee base next (some right) stop) (hstop : mid < stop) :
      Chained callee links first pos (link.combine left right) stop

section

variable {grammar : Grammar K V T F} {items : Nat → Except E (Option T)}
  {links : List (Link V key base)} {first : V base → V key} {pos stop : Nat} {a : V key}

/-- The grammar has this rule for chains. -/
structure IsChainRule (grammar : Grammar K V T F) (links : List (Link V key base))
    (first : V base → V key) : Prop where
  strategy : grammar.strategy key = .grown
  branches : (grammar.production key).branches = chainBranches links first
  base_ne : key ≠ base
  operator_ne : ∀ link ∈ links, key ≠ link.operator

omit [DecidableEq K] in
/-- Links that all fail leave what comes after them. -/
theorem match_of_links_fail {callee : Nat → (key : K) → Nat → Outcome F E (Option (V key))}
    {others : List (Link V key base)} {more : List (Branch K V T F (V key))}
    {result : Option (V key)}
    (hfail : ∀ link ∈ others, ∃ mid, link.branch.Matches items callee pos none mid)
    (h : Branches.Match items callee more pos result stop) :
    Branches.Match items callee (others.map Link.branch ++ more) pos result stop :=
  Branches.match_append (List.forall_mem_map.2 hfail) h

theorem IsChainRule.matches_base (h : IsChainRule grammar links first) {seed : Memo (V key)}
    {result : Option (V base)} (hbase : Matches (evaluate grammar items) base pos result stop)
    {start : Nat} : Matches (seededWith grammar items key start seed) base pos result stop :=
  matches_unseeded (fun heq => absurd heq h.base_ne) hbase

theorem IsChainRule.matches_operator (h : IsChainRule grammar links first) {seed : Memo (V key)}
    {link : Link V key base} (hlink : link ∈ links) {result : Option (V link.operator)}
    (hoperator : Matches (evaluate grammar items) link.operator pos result stop) {start : Nat} :
    Matches (seededWith grammar items key start seed) link.operator pos result stop :=
  matches_unseeded (fun heq => absurd heq (h.operator_ne link hlink)) hoperator

/-- Where no link goes on, only `base` matches. -/
theorem IsChainRule.match_base (h : IsChainRule grammar links first) {seed : Memo (V key)}
    {b : V base} (hfail : ∀ link ∈ links, ∃ mid,
      link.branch.Matches items (seededWith grammar items key pos seed) pos none mid)
    (hbase : Matches (evaluate grammar items) base pos (some b) stop) :
    Branches.Match items (seededWith grammar items key pos seed)
      (grammar.production key).branches pos
      (some (first b)) stop := by
  rw [h.branches, chainBranches]
  exact match_of_links_fail hfail
    (Branches.match_head (Branch.matches_call (h.matches_base hbase) (Branch.matches_done _ _)))

/-- Where `base` does not match the rule does not. -/
theorem IsChainRule.matches_none (h : IsChainRule grammar links first)
    (hbase : Matches (evaluate grammar items) base pos none pos) :
    Matches (evaluate grammar items) key pos none pos := by
  have hbranches : Branches.Match items
      (seededWith grammar items key pos { result := none, stop := pos })
      (grammar.production key).branches pos none pos := by
    rw [h.branches, chainBranches]
    exact match_of_links_fail (fun _ _ => ⟨pos, Branch.matches_call_none (matches_seed _)⟩)
      (Branches.match_tail (Branch.matches_call_none (h.matches_base hbase)) (Branches.match_nil _))
  exact matches_of_grows h.strategy (grows_done hbranches (by simp))

/-- A rule for chains grows to a chain, and its first match of `base` gets no farther. -/
theorem Chained.grows (h : Chained (evaluate grammar items) links first pos a stop)
    (hrule : IsChainRule grammar links first) :
    (∀ result stop', Grows grammar items key pos { result := some a, stop } result stop' →
      Grows grammar items key pos { result := none, stop := pos } result stop') ∧
    ∃ b stop', Matches (evaluate grammar items) base pos (some b) stop' ∧ stop' ≤ stop := by
  induction h with
  | first hbase hstop =>
    refine ⟨fun result stop' => grows_step (hrule.match_base (fun link hlink => ?_) hbase) hstop,
      _, _, hbase, Nat.le_refl _⟩
    exact ⟨pos, Branch.matches_call_none (matches_seed _)⟩
  | @more left right link before after mid next stop operator hleft hlinks hbefore hoperator
      hright hstop ih =>
    obtain ⟨hgrows, b, stop₀, hbase, hle⟩ := ih
    refine ⟨fun result stop' hmore => hgrows result stop' (grows_step ?_ hstop hmore),
      b, stop₀, hbase, hle.trans hstop.le⟩
    have hmem : ∀ other ∈ before ++ [link], other ∈ links := fun other hother => by
      rw [hlinks, List.append_cons]
      exact List.mem_append_left _ hother
    rw [hrule.branches, chainBranches, hlinks, List.map_append, List.append_assoc]
    refine match_of_links_fail (fun other hother => ⟨mid, ?_⟩) (Branches.match_head ?_)
    · exact Branch.matches_call (matches_seed _) (Branch.matches_call_none
        (hrule.matches_operator (hmem other (List.mem_append_left _ hother))
          (hbefore other hother)))
    · exact Branch.matches_call (matches_seed _) (Branch.matches_call
        (hrule.matches_operator (hmem link (by simp)) hoperator) (Branch.matches_call
          (hrule.matches_base hright) (Branch.matches_done _ _)))

/-- A chain with no operator after it is matched. -/
theorem Chained.matches_chain (h : Chained (evaluate grammar items) links first pos a stop)
    (hrule : IsChainRule grammar links first)
    (hend : ∀ link ∈ links, Matches (evaluate grammar items) link.operator stop none stop) :
    Matches (evaluate grammar items) key pos (some a) stop := by
  obtain ⟨hgrows, b, stop₀, hbase, hle⟩ := h.grows hrule
  refine matches_of_grows hrule.strategy (hgrows _ _ (grows_done
    (hrule.match_base (fun link hlink => ⟨stop, ?_⟩) hbase) fun _ => hle))
  exact Branch.matches_call (matches_seed _)
    (Branch.matches_call_none (hrule.matches_operator hlink (hend link hlink)))

end

/-! ## Joins -/

section

variable {grammar : Grammar K V T F} {items : Nat → Except E (Option T)}
  {join : Branch K V T F (V key)} {units : List (Branch K V T F (V key))} {pos mid stop : Nat}
  {a joined : V key}

/-- The grammar has this rule for joins, which does not join without a seed. -/
structure IsJoinRule (grammar : Grammar K V T F) (items : Nat → Except E (Option T)) (key : K)
    (join : Branch K V T F (V key)) (units : List (Branch K V T F (V key))) : Prop where
  strategy : grammar.strategy key = .grown
  branches : (grammar.production key).branches = join :: units
  join_none : ∀ pos stop, join.Matches items
    (seededWith grammar items key pos { result := none, stop }) pos none stop

/-- A match of the other branches at the start of the rule. -/
structure MatchesUnit (grammar : Grammar K V T F) (items : Nat → Except E (Option T)) (key : K)
    (units : List (Branch K V T F (V key))) (pos : Nat) (a : V key) (stop : Nat) : Prop where
  matches_units : ∀ seed, Branches.Match items (seededWith grammar items key pos seed) units pos
    (some a) stop
  lt_stop : pos < stop

/-- The join fails, so that the rule gets no farther than this. -/
def JoinStops (grammar : Grammar K V T F) (items : Nat → Except E (Option T)) (key : K)
    (join : Branch K V T F (V key)) (pos : Nat) (a : V key) (stop : Nat) : Prop :=
  ∃ mid, join.Matches items (seededWith grammar items key pos { result := some a, stop })
    pos none mid

/-- Where no other branch matches the rule does not. -/
theorem IsJoinRule.matches_none (h : IsJoinRule grammar items key join units)
    (hunits : ∀ seed, Branches.Match items (seededWith grammar items key pos seed) units pos
      none stop) :
    Matches (evaluate grammar items) key pos none pos := by
  have hbranches : Branches.Match items
      (seededWith grammar items key pos { result := none, stop := pos })
      (grammar.production key).branches pos none stop := by
    rw [h.branches]
    exact Branches.match_tail (h.join_none pos pos) (hunits _)
  exact matches_of_grows h.strategy (grows_done hbranches (by simp))

theorem MatchesUnit.grows (h : MatchesUnit grammar items key units pos a mid)
    (hrule : IsJoinRule grammar items key join units) {result : Option (V key)}
    (hmore : Grows grammar items key pos { result := some a, stop := mid } result stop) :
    Grows grammar items key pos { result := none, stop := pos } result stop := by
  refine grows_step ?_ h.lt_stop hmore
  rw [hrule.branches]
  exact Branches.match_tail (hrule.join_none pos pos) (h.matches_units _)

/-- When the join fails the other branches get no farther. -/
theorem MatchesUnit.grows_done (h : MatchesUnit grammar items key units pos a mid)
    (hrule : IsJoinRule grammar items key join units) (hle : mid ≤ stop)
    (hstops : JoinStops grammar items key join pos joined stop) :
    Grows grammar items key pos { result := some joined, stop } (some joined) stop := by
  obtain ⟨_, hstops⟩ := hstops
  have hunit := Branches.match_tail hstops (h.matches_units _)
  rw [← hrule.branches] at hunit
  exact Packrat.grows_done hunit fun _ => hle

theorem MatchesUnit.matches_unit (h : MatchesUnit grammar items key units pos a mid)
    (hrule : IsJoinRule grammar items key join units)
    (hstops : JoinStops grammar items key join pos a mid) :
    Matches (evaluate grammar items) key pos (some a) mid :=
  matches_of_grows hrule.strategy (h.grows hrule (h.grows_done hrule (Nat.le_refl _) hstops))

theorem MatchesUnit.matches_join (h : MatchesUnit grammar items key units pos a mid)
    (hrule : IsJoinRule grammar items key join units) (hstop : mid < stop)
    (hjoin : join.Matches items
      (seededWith grammar items key pos { result := some a, stop := mid }) pos
      (some joined) stop)
    (hstops : JoinStops grammar items key join pos joined stop) :
    Matches (evaluate grammar items) key pos (some joined) stop := by
  refine matches_of_grows hrule.strategy (h.grows hrule (grows_step ?_ hstop
    (h.grows_done hrule hstop.le hstops)))
  rw [hrule.branches]
  exact Branches.match_head hjoin

end

end OpticScript.Packrat
