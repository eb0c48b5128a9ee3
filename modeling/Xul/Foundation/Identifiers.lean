import Mathlib.Data.List.Basic

/-!
# Identifiers

An issuer generates identifiers and takes them back.  It honours a call if it generates, as
long as there is one, an identifier of its range that is not held (`Issuer.Honours`).
-/

set_option autoImplicit false

namespace Foundation

variable {State Id Choice : Type*}

/-- How an issuer generates an identifier, given what it has no say in, and takes one back. -/
structure Issuer (State Id Choice : Type*) where
  generate : State → Choice → Id × State
  release : State → Id → State

inductive IdCall (Id Choice : Type*) where
  | generate (choice : Choice)
  | release (id : Id)

/-- The issuer's state, the identifiers that are generated and not released, and how many were
generated. -/
structure Issued (State Id : Type*) where
  state : State
  held : List Id
  count : Nat

namespace Issuer

variable [DecidableEq Id] (issuer : Issuer State Id Choice)

def step (issued : Issued State Id) : IdCall Id Choice → Option (Issued State Id)
  | .generate choice =>
      let (id, state) := issuer.generate issued.state choice
      some ⟨state, id :: issued.held, issued.count + 1⟩
  | .release id => some ⟨issuer.release issued.state id, issued.held.erase id, issued.count⟩

/-- The range has an identifier that is not held. -/
def Free (range : Id → Prop) (issued : Issued State Id) : Prop :=
  ∃ id, range id ∧ id ∉ issued.held

def Honours (range : Id → Prop) (issued : Issued State Id) : IdCall Id Choice → Prop
  | .generate choice =>
      Free range issued →
        range (issuer.generate issued.state choice).1 ∧
          (issuer.generate issued.state choice).1 ∉ issued.held
  | .release _ => True

end Issuer

end Foundation
