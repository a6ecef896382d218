import OpticScript.Expr

/-!
# Parameters

A parameter is a `Value`, given by its position or under a key. `Keywords` keeps the
values under keys in the order in which the keys first came, each key once : a key that
comes again keeps its place and takes the new value (`Keywords.insert`).
-/

namespace OpticScript

/-- The value of a parameter. -/
inductive Value where
  /-- Motion codes such as `crv` or `{ct}2`. -/
  | action (codes : String)
  | expr (expr : Expr)
  deriving BEq, DecidableEq, Inhabited

namespace Value

def render : Value → String
  | action codes => codes
  | expr e => e.render

def action? : Value → Option String
  | action codes => some codes
  | expr _ => none

def expr? : Value → Option Expr
  | action _ => none
  | expr e => some e

end Value

namespace Keywords

/-- The entries with `value` under `key`, in the place of the entry with that key if there
is one and at the end otherwise. -/
def assign (key : String) (value : Value) : List (String × Value) → List (String × Value)
  | [] => [(key, value)]
  | (k, v) :: rest => if k = key then (k, value) :: rest else (k, v) :: assign key value rest

theorem keys_assign (key : String) (value : Value) (entries : List (String × Value)) :
    (assign key value entries).map Prod.fst =
      if key ∈ entries.map Prod.fst then entries.map Prod.fst
      else entries.map Prod.fst ++ [key] := by
  induction entries with
  | nil => simp [assign]
  | cons entry rest ih =>
    by_cases h : entry.1 = key
    · simp [assign, h]
    · have h' : key ≠ entry.1 := Ne.symm h
      by_cases hk : key ∈ rest.map Prod.fst <;> simp_all [assign]

theorem nodup_keys_assign {entries : List (String × Value)} (key : String) (value : Value)
    (h : (entries.map Prod.fst).Nodup) : ((assign key value entries).map Prod.fst).Nodup := by
  rw [keys_assign]
  split
  · exact h
  · rename_i hk
    exact List.nodup_append.2 ⟨h, by simp, by grind⟩

end Keywords

/-- Values under distinct keys, in order. -/
structure Keywords where
  entries : List (String × Value)
  nodup : (entries.map Prod.fst).Nodup
  deriving DecidableEq

namespace Keywords

@[ext] theorem ext {a b : Keywords} (h : a.entries = b.entries) : a = b := by
  cases a; cases b; simp_all

def empty : Keywords := { entries := [], nodup := by simp }

instance : Inhabited Keywords := ⟨empty⟩

instance : BEq Keywords := ⟨fun a b => a.entries == b.entries⟩

def insert (keywords : Keywords) (key : String) (value : Value) : Keywords :=
  { entries := assign key value keywords.entries
    nodup := nodup_keys_assign key value keywords.nodup }

/-- The keywords after inserting the pairs one by one. -/
def insertAll (keywords : Keywords) (pairs : List (String × Value)) : Keywords :=
  pairs.foldl (fun acc pair => acc.insert pair.1 pair.2) keywords

def ofList (pairs : List (String × Value)) : Keywords := empty.insertAll pairs

/-- Both mappings together, with the values of `other` where they share a key. -/
def merge (keywords other : Keywords) : Keywords := keywords.insertAll other.entries

/-- The value under a key. -/
def get? (keywords : Keywords) (key : String) : Option Value :=
  keywords.entries.lookup key

def contains (keywords : Keywords) (key : String) : Bool := (keywords.get? key).isSome

/-- The value under a key, if there is one, and the keywords with another value in its place. -/
def exchange (keywords : Keywords) (key : String) (value : Value) : Option Value × Keywords :=
  (keywords.get? key, keywords.insert key value)

def keys (keywords : Keywords) : List String := keywords.entries.map Prod.fst

def size (keywords : Keywords) : Nat := keywords.entries.length

def isEmpty (keywords : Keywords) : Bool := keywords.entries.isEmpty

end Keywords

/-- The parameters of a line. -/
structure Parameters where
  args : List Value
  keywords : Keywords
  deriving BEq, DecidableEq, Inhabited

/-- The parameters with commas between them, those without a key first. -/
def Parameters.render (p : Parameters) : String :=
  String.intercalate ", "
    (p.args.map Value.render ++ p.keywords.entries.map fun e => e.1 ++ "=" ++ e.2.render)

end OpticScript
