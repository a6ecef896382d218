/-!
# Grammars with ordered alternatives

A grammar gives each rule a list of branches that are tried in order. Rules are named by
the elements of `K`, and a match of the rule `k` has a result of type `V k`. A `Branch`
says what has to come next, one step after the other, and what the result is made of; it
fails as soon as one step does not match. Besides failing, a branch may raise a
complaint, which ends the parse.

`Branch` is a monad, so that branches are written in `do` notation :
`do let left ← rule k; let _ ← rule op; return f left`.

What a parse keeps of a match may be of another type than the result that the caller of the rule
wants. A `Wrapping` says how a result is kept and how it is got back.
-/

namespace OpticScript.Packrat

/-- What has to come next for a rule to match, and the result `α` it then has. Items are
of type `T` and complaints of type `F`. -/
inductive Branch (K : Type) (V : K → Type) (T F α : Type) where
  | done (result : α)
  | fail
  | raise (complaint : F)
  /-- An item that satisfies a test. -/
  | take (accept : T → Bool) (next : T → Branch K V T F α)
  /-- Any item, which is not consumed. -/
  | look (next : T → Branch K V T F α)
  /-- A match of a rule. -/
  | call (key : K) (next : V key → Branch K V T F α)
  /-- A match of a rule, if there is one and the item after it passes the test `ahead`. -/
  | maybe (key : K) (ahead : Option (T → Bool)) (next : Option (V key) → Branch K V T F α)
  /-- As many matches of a rule as there are. -/
  | star (key : K) (next : List (V key) → Branch K V T F α)

variable {K : Type} {V : K → Type} {T F α β : Type}

namespace Branch

/-- One branch after the other. -/
def bind : Branch K V T F α → (α → Branch K V T F β) → Branch K V T F β
  | done result, f => f result
  | fail, _ => fail
  | raise complaint, _ => raise complaint
  | take accept next, f => take accept fun item => (next item).bind f
  | look next, f => look fun item => (next item).bind f
  | call key next, f => call key fun result => (next result).bind f
  | maybe key ahead next, f => maybe key ahead fun result => (next result).bind f
  | star key next, f => star key fun results => (next results).bind f

instance : Monad (Branch K V T F) where
  pure := done
  bind := bind

/-- Nothing, provided that the condition holds. -/
def require (condition : Bool) : Branch K V T F Unit := if condition then done () else fail

/-- The value of an option that has one. -/
def ofOption : Option α → Branch K V T F α
  | some value => done value
  | none => fail

end Branch

/-- The branches of a rule. After the last one has failed the parse goes back to where the
rule began, unless the rule is `leaky`. -/
structure Production (K : Type) (V : K → Type) (T F α : Type) where
  branches : List (Branch K V T F α)
  leaky : Bool := false

/-- How a rule is run where it was run before. -/
inductive Strategy where
  /-- Again. -/
  | plain
  /-- Its first outcome stands. -/
  | cached
  /-- Its first outcome stands, and that is grown from a seed : the rule calls itself where
  it begins. -/
  | grown
  deriving DecidableEq

/-- The rules of a language. -/
structure Grammar (K : Type) (V : K → Type) (T F : Type) where
  production : (key : K) → Production K V T F (V key)
  strategy : K → Strategy

/-- How the results of rules are kept. A result of the rule `k` has the type `V k` and is kept as
a value of the type `W k`, from which it may or may not be got back. -/
structure Wrapping (K : Type) (V W : K → Type) where
  wrap : (key : K) → V key → W key
  unwrap : (key : K) → W key → Option (V key)

namespace Wrapping

/-- Every result is kept as it is. -/
def plain : Wrapping K V V where
  wrap _ result := result
  unwrap _ result := some result

/-- Every result is got back. -/
def Lawful {W : K → Type} (wrapping : Wrapping K V W) : Prop :=
  ∀ key result, wrapping.unwrap key (wrapping.wrap key result) = some result

theorem lawful_plain : (plain : Wrapping K V V).Lawful := fun _ _ => rfl

end Wrapping

end OpticScript.Packrat
