import Mathlib.Data.List.Induction
import OpticScript.Keywords

/-!
# Keywords and pairs

Keywords that are merged are those of all pairs, inserted one by one (`ofList_append`). A
later pair takes the place of an earlier one with its key, so it makes no difference when
the keywords on the right have been made of their pairs. Keywords are made of their own
entries (`ofList_entries`), and of their pairs they keep some (`mem_of_mem_ofList`) : a key keeps
its first place (`keys_ofList`) and takes its last value (`get?_ofList`). So pairs are collected by
key, and to merge is to put pairs behind pairs (`ofList_collects`). What is taken out for a new
value can be put back (`exchange_exchange`).
-/

namespace OpticScript.Keywords

variable (keywords : Keywords) (a b : String) (v w : Value)

theorem assign_assign_self (entries : List (String × Value)) :
    assign a w (assign a v entries) = assign a w entries := by
  induction entries with
  | nil => simp [assign]
  | cons entry rest ih => by_cases h : entry.1 = a <;> simp [assign, h, ih]

/-- A pair whose key is there keeps its place, whatever else is inserted. -/
theorem assign_comm (hne : a ≠ b) {entries : List (String × Value)}
    (ha : a ∈ entries.map Prod.fst) :
    assign a v (assign b w entries) = assign b w (assign a v entries) := by
  induction entries with
  | nil => simp at ha
  | cons entry rest ih =>
    by_cases h : entry.1 = a
    · have hb : entry.1 ≠ b := fun hb => hne (h.symm.trans hb)
      simp [assign, h, hne]
    · have ha : a ∈ rest.map Prod.fst := by
        rcases List.mem_cons.1 ha with rfl | ha
        · exact absurd rfl h
        · exact ha
      by_cases hb : entry.1 = b
      · simp [assign, hb, hne.symm]
      · simp [assign, h, hb, ih ha]

theorem insert_insert_self : (keywords.insert a v).insert a w = keywords.insert a w :=
  Keywords.ext (assign_assign_self a v w _)

theorem insert_comm (hne : a ≠ b) (ha : a ∈ keywords.keys) :
    (keywords.insert b w).insert a v = (keywords.insert a v).insert b w :=
  Keywords.ext (assign_comm a b v w hne ha)

theorem mem_keys_insert {key : String} :
    key ∈ (keywords.insert a v).keys ↔ key = a ∨ key ∈ keywords.keys := by
  unfold keys insert
  rw [keys_assign]
  split <;> simp_all [or_comm]

theorem insertAll_cons (pairs : List (String × Value)) :
    keywords.insertAll ((a, v) :: pairs) = (keywords.insert a v).insertAll pairs := rfl

theorem insertAll_append (pairs others : List (String × Value)) :
    keywords.insertAll (pairs ++ others) = (keywords.insertAll pairs).insertAll others :=
  List.foldl_append

/-- A pair whose key is there can be inserted before pairs with other keys. -/
theorem insertAll_insert (ha : a ∈ keywords.keys) {pairs : List (String × Value)}
    (hpairs : a ∉ pairs.map Prod.fst) :
    (keywords.insertAll pairs).insert a v = (keywords.insert a v).insertAll pairs := by
  induction pairs generalizing keywords with
  | nil => rfl
  | cons pair pairs ih =>
    obtain ⟨b, w⟩ := pair
    have hne : a ≠ b := fun h => hpairs (by simp [h])
    rw [insertAll_cons, insertAll_cons,
      ih _ ((mem_keys_insert _ _ _).2 (.inr ha)) fun h => hpairs (List.mem_cons_of_mem _ h),
      insert_comm _ _ _ _ _ hne ha]

/-- Assigning a key and then inserting the entries is inserting them and then the key. -/
theorem insertAll_assign {entries : List (String × Value)}
    (hentries : (entries.map Prod.fst).Nodup) :
    keywords.insertAll (assign a v entries) = (keywords.insertAll entries).insert a v := by
  induction entries generalizing keywords with
  | nil => rfl
  | cons entry rest ih =>
    obtain ⟨b, w⟩ := entry
    obtain ⟨hb, hrest⟩ : b ∉ rest.map Prod.fst ∧ (rest.map Prod.fst).Nodup := by
      simpa using hentries
    by_cases h : b = a
    · subst h
      rw [assign, if_pos rfl, insertAll_cons, insertAll_cons,
        insertAll_insert _ _ _ ((mem_keys_insert _ _ _).2 (.inl rfl)) hb, insert_insert_self]
    · rw [assign, if_neg h, insertAll_cons, insertAll_cons, ih _ hrest]

theorem insertAll_entries_insertAll (other : Keywords) (pairs : List (String × Value)) :
    keywords.insertAll (other.insertAll pairs).entries =
      (keywords.insertAll other.entries).insertAll pairs := by
  induction pairs generalizing other with
  | nil => rfl
  | cons pair pairs ih =>
    rw [insertAll_cons, ih, insertAll_cons]
    congr 1
    exact insertAll_assign keywords pair.1 pair.2 other.nodup

/-- The keywords of two lists of pairs together are those of all the pairs. -/
theorem ofList_append (pairs others : List (String × Value)) :
    ofList (pairs ++ others) = (ofList pairs).merge (ofList others) := by
  rw [ofList, insertAll_append, merge, ofList, ofList, insertAll_entries_insertAll]
  rfl

theorem assign_of_notMem {entries : List (String × Value)} (ha : a ∉ entries.map Prod.fst) :
    assign a v entries = entries ++ [(a, v)] := by
  induction entries with
  | nil => rfl
  | cons entry rest ih =>
    rw [List.map_cons, List.mem_cons, not_or] at ha
    rw [assign, if_neg (Ne.symm ha.1), ih ha.2, List.cons_append]

/-- Pairs with new keys are put behind the entries. -/
theorem entries_insertAll {pairs : List (String × Value)}
    (h : ((keywords.entries ++ pairs).map Prod.fst).Nodup) :
    (keywords.insertAll pairs).entries = keywords.entries ++ pairs := by
  induction pairs generalizing keywords with
  | nil => exact (List.append_nil _).symm
  | cons pair pairs ih =>
    obtain ⟨a, v⟩ := pair
    have ha : a ∉ keywords.entries.map Prod.fst := by
      rw [List.map_append, List.map_cons, List.nodup_append] at h
      exact fun hmem => h.2.2 a hmem a List.mem_cons_self rfl
    have hinsert : (keywords.insert a v).entries = keywords.entries ++ [(a, v)] :=
      assign_of_notMem a v ha
    rw [insertAll_cons, ih, hinsert, List.append_assoc, List.singleton_append]
    rwa [hinsert, List.append_assoc, List.singleton_append]

/-- Keywords are those of their entries. -/
theorem ofList_entries : ofList keywords.entries = keywords :=
  Keywords.ext ((entries_insertAll empty keywords.nodup).trans (List.nil_append _))

theorem ofList_concat (pairs : List (String × Value)) :
    ofList (pairs ++ [(a, v)]) = (ofList pairs).insert a v := insertAll_append _ _ _

/-- A key keeps the place where it comes first. -/
theorem keys_ofList (pairs : List (String × Value)) :
    (ofList pairs).keys = (pairs.map Prod.fst).eraseDups := by
  induction pairs using List.reverseRecOn with
  | nil => rfl
  | append_singleton pairs pair ih =>
    obtain ⟨a, v⟩ := pair
    rw [ofList_concat, keys, insert, keys_assign, ← keys, ih, List.map_append,
      List.eraseDups_append]
    by_cases ha : a ∈ pairs.map Prod.fst <;> simp [ha, List.removeAll, List.eraseDups_cons]

theorem lookup_cons_eq (key : String) (entry : String × Value) (rest : List (String × Value)) :
    (entry :: rest).lookup key = if key = entry.1 then some entry.2 else rest.lookup key := by
  by_cases h : key = entry.1
  · rw [List.lookup_cons, beq_iff_eq.2 h, if_pos h]
  · rw [List.lookup_cons, beq_eq_false_iff_ne.2 h, if_neg h]

theorem lookup_assign (key : String) (entries : List (String × Value)) :
    (assign a v entries).lookup key = if key = a then some v else entries.lookup key := by
  induction entries with
  | nil => exact lookup_cons_eq key (a, v) []
  | cons entry rest ih =>
    by_cases ha : entry.1 = a
    · rw [assign, if_pos ha, lookup_cons_eq, lookup_cons_eq, ha]
      split <;> rfl
    · rw [assign, if_neg ha, lookup_cons_eq, lookup_cons_eq, ih]
      by_cases h : key = entry.1
      · simp [h, ha]
      · simp [h]

theorem assign_of_lookup {entries : List (String × Value)} (h : entries.lookup a = some v) :
    assign a v entries = entries := by
  induction entries with
  | nil => simp at h
  | cons entry rest ih =>
    rw [lookup_cons_eq] at h
    by_cases ha : entry.1 = a
    · rw [if_pos ha.symm, Option.some.injEq] at h
      rw [assign, if_pos ha, ← h]
    · rw [if_neg (Ne.symm ha)] at h
      rw [assign, if_neg ha, ih h]

/-- The value that is taken out is the one that was there : when it is put back, the keywords are as
they were, and the value that was put in comes out. -/
theorem exchange_exchange {after : Keywords} (h : keywords.exchange a v = (some w, after)) :
    after.exchange a w = (some v, keywords) := by
  obtain ⟨hget, rfl⟩ := Prod.mk.inj h
  refine Prod.ext ((lookup_assign a v a _).trans (if_pos rfl)) ?_
  rw [exchange, insert_insert_self]
  exact Keywords.ext (assign_of_lookup a w hget)

/-- Under a key is the value of the last pair with that key. -/
theorem get?_ofList (pairs : List (String × Value)) (key : String) :
    (ofList pairs).get? key = pairs.reverse.lookup key := by
  induction pairs using List.reverseRecOn with
  | nil => rfl
  | append_singleton pairs pair ih =>
    obtain ⟨a, v⟩ := pair
    rw [ofList_concat, get?, insert, lookup_assign, ← get?, ih, List.reverse_append]
    exact (lookup_cons_eq key (a, v) _).symm

/-- Every entry is one of the pairs. -/
theorem mem_of_mem_insertAll {pairs : List (String × Value)} {entry : String × Value}
    (h : entry ∈ (keywords.insertAll pairs).entries) :
    entry ∈ keywords.entries ∨ entry ∈ pairs := by
  induction pairs generalizing keywords with
  | nil => exact .inl h
  | cons pair pairs ih =>
    have hassign : ∀ entries, entry ∈ assign pair.1 pair.2 entries →
        entry ∈ entries ∨ entry = pair := by
      intro entries
      induction entries with
      | nil => exact fun h => .inr (List.mem_singleton.1 h)
      | cons other rest ih => grind [assign]
    rcases ih (keywords.insert pair.1 pair.2) h with h | h
    · rcases hassign _ h with h | rfl
      · exact .inl h
      · exact .inr List.mem_cons_self
    · exact .inr (List.mem_cons_of_mem _ h)

theorem mem_of_mem_ofList {pairs : List (String × Value)} {entry : String × Value}
    (h : entry ∈ (ofList pairs).entries) : entry ∈ pairs :=
  (mem_of_mem_insertAll empty h).resolve_left List.not_mem_nil

/-- Pairs leave entries. -/
theorem ofList_ne_nil {pairs : List (String × Value)} (h : pairs ≠ []) :
    (ofList pairs).entries ≠ [] := by
  have hkeys : ∀ (pairs : List (String × Value)) (keywords : Keywords) (a : String),
      a ∈ keywords.keys → a ∈ (keywords.insertAll pairs).keys := by
    intro pairs
    induction pairs with
    | nil => exact fun _ _ ha => ha
    | cons pair pairs ih => exact fun keywords a ha => ih _ a ((mem_keys_insert _ _ _).2 (.inr ha))
  obtain ⟨pair, pairs, rfl⟩ := List.exists_cons_of_ne_nil h
  intro hnil
  have hmem :=
    hkeys pairs (empty.insert pair.1 pair.2) pair.1 ((mem_keys_insert _ _ _).2 (.inl rfl))
  rw [← insertAll_cons] at hmem
  simp only [keys, ofList] at hmem hnil
  simp [hnil] at hmem

/-! ## What is collected -/

/-- The value of the last of the pairs with this key. -/
def IsLastValue (pairs : List (String × Value)) (key : String) (value : Value) : Prop :=
  ∃ before after, pairs = before ++ (key, value) :: after ∧ key ∉ after.map Prod.fst

theorem lookup_reverse_eq_some_iff {pairs : List (String × Value)} {key : String} {value : Value} :
    pairs.reverse.lookup key = some value ↔ IsLastValue pairs key value := by
  have hkeys : ∀ after : List (String × Value),
      (∀ pair ∈ after.reverse, key != pair.1) ↔ key ∉ after.map Prod.fst := by
    intro after
    simp only [List.mem_reverse, bne_iff_ne, List.mem_map, not_exists, not_and]
    exact forall₂_congr fun _ _ => ne_comm
  rw [List.lookup_eq_some_iff]
  constructor
  · rintro ⟨after, before, heq, hafter⟩
    refine ⟨before.reverse, after.reverse, ?_, (hkeys _).1 (by rwa [List.reverse_reverse])⟩
    rw [← List.reverse_reverse pairs, heq]
    simp
  · rintro ⟨before, after, rfl, hafter⟩
    exact ⟨after.reverse, before.reverse, by simp, (hkeys after).2 hafter⟩

/-- Under a key is the value that stands there. -/
theorem mem_entries_iff (key : String) (value : Value) :
    (key, value) ∈ keywords.entries ↔ keywords.get? key = some value := by
  obtain ⟨entries, hnodup⟩ := keywords
  change (key, value) ∈ entries ↔ entries.lookup key = some value
  induction entries with
  | nil => simp
  | cons entry rest ih =>
    obtain ⟨k, v⟩ := entry
    obtain ⟨hentry, hrest⟩ := List.nodup_cons.1 (List.map_cons ▸ hnodup)
    rw [List.mem_cons, lookup_cons_eq]
    by_cases hkey : key = k
    · subst hkey
      have hnone : (key, value) ∉ rest := fun hmem => hentry (List.mem_map.2 ⟨_, hmem, rfl⟩)
      simp [hnone, eq_comm]
    · simp [ih hrest, hkey]

theorem empty_merge : empty.merge keywords = keywords := ofList_entries keywords

theorem merge_assoc (other third : Keywords) :
    (keywords.merge other).merge third = keywords.merge (other.merge third) :=
  (insertAll_entries_insertAll keywords other third.entries).symm

/-- Pairs that are collected come to entries with distinct keys, in the order in which the keys
first came, each with the last value it was given, and that is the value under the key. Keywords
that are merged are those of the pairs of both, one after the other. So keywords have distinct keys
whatever they are made of, which may as well be their own entries, and in merging them neither
parentheses nor empty keywords make a difference. -/
theorem ofList_collects :
    (∀ pairs : List (String × Value),
      (ofList pairs).keys.Nodup ∧ (ofList pairs).keys = (pairs.map Prod.fst).eraseDups ∧
      ∀ key value,
        ((key, value) ∈ (ofList pairs).entries ↔ IsLastValue pairs key value) ∧
        ((ofList pairs).get? key = some value ↔ IsLastValue pairs key value)) ∧
    (∀ a b : List (String × Value), (ofList a).merge (ofList b) = ofList (a ++ b)) ∧
    (∀ keywords : Keywords, keywords.keys.Nodup ∧ ofList keywords.entries = keywords ∧
      keywords.merge empty = keywords ∧ empty.merge keywords = keywords) ∧
    ∀ a b c : Keywords, (a.merge b).merge c = a.merge (b.merge c) := by
  refine ⟨fun pairs => ⟨(ofList pairs).nodup, keys_ofList pairs, fun key value => ?_⟩,
    fun a b => (ofList_append a b).symm,
    fun keywords => ⟨keywords.nodup, ofList_entries keywords, rfl, empty_merge keywords⟩,
    merge_assoc⟩
  have hget : (ofList pairs).get? key = some value ↔ IsLastValue pairs key value := by
    rw [get?_ofList, lookup_reverse_eq_some_iff]
  exact ⟨(mem_entries_iff _ _ _).trans hget, hget⟩

end OpticScript.Keywords
