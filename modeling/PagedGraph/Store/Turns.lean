import PagedGraph.Store.Transaction

/-!
# Programs that take turns

A writer does not have the store to itself. What it does is a sequence of turns: in one turn it
looks at the committed pages, or runs one transaction, or asks somebody else for advice, and what
it does next depends on the answers it has got. Between two of its turns anybody else may act.

`Turns` are such programs. `run` takes all turns of a program one right after the other.
-/

set_option autoImplicit false

namespace PagedGraph

/-- An action in company: next to the store there is a state of the caller's own. -/
abbrev ActionWith (τ : Type) := EStateM Error (Store × τ)

namespace ActionWith

variable {τ α : Type}

def act (a : Action α) : ActionWith τ α := fun (s, t) =>
  match a s with
  | .ok x s => .ok x (s, t)
  | .error e s => .error e (s, t)

def alone (x : ActionWith Unit α) : Action α := fun s =>
  match x (s, ()) with
  | .ok a (s, _) => .ok a s
  | .error e (s, _) => .error e s

end ActionWith

/-- A program of a caller with a state of its own. A turn that fails is the last one. -/
inductive Turns (τ α : Type) : Type 1 where
  | done (result : α)
  | turn {β : Type} (action : ActionWith τ β) (next : β → Turns τ α)

namespace Turns

variable {τ α β : Type}

def andThen : Turns τ α → (α → Turns τ β) → Turns τ β
  | done a, f => f a
  | turn action next, f => turn action fun b => (next b).andThen f

instance : Monad (Turns τ) where
  pure := done
  bind := andThen

def once (action : ActionWith τ α) : Turns τ α := turn action done

def act (action : Action α) : Turns τ α := once (ActionWith.act action)

def run : Turns τ α → ActionWith τ α
  | done a => pure a
  | turn action next => action >>= fun b => (next b).run

end Turns

end PagedGraph
