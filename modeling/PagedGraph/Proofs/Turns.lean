import PagedGraph.Proofs.Edits
import PagedGraph.Store.Turns

/-!
# Running programs that take turns

What a program does when it takes its turns without a break, and where it leaves the store whether
it fails or not. A program that never lets the file shrink leaves it no smaller than it was
(`Grows.run`).
-/

set_option autoImplicit false

namespace PagedGraph

def Action.after {α : Type} (action : Action α) (s : Store) : Store :=
  match action s with
  | .ok _ s => s
  | .error _ s => s

theorem Action.after_ok {α : Type} {action : Action α} {s s' : Store} {a : α}
    (h : action s = .ok a s') : action.after s = s' := by
  rw [after, h]

namespace ActionWith

variable {τ α : Type}

def after (action : ActionWith τ α) (s : Store) (own : τ) : Store × τ :=
  match action (s, own) with
  | .ok _ x => x
  | .error _ x => x

theorem after_reading (f : Store → Except Error α) (s : Store) (own : τ) :
    (act (Action.reading f)).after s own = (s, own) := by
  rw [after, act, Action.reading]
  cases f s with
  | ok a => rfl
  | error e => rfl

theorem after_act (action : Action α) (s : Store) (own : τ) :
    (act action).after s own = (action.after s, own) := by
  rw [after, act, Action.after]
  cases action s with
  | ok a s' => rfl
  | error e s' => rfl

end ActionWith

namespace Turns

variable {τ α β : Type}

theorem run_turn_ok {action : ActionWith τ β} {next : β → Turns τ α} {y y' : Store × τ} {b : β}
    (h : action y = .ok b y') : (turn action next).run y = (next b).run y' := by
  show EStateM.bind action (fun b => (next b).run) y = _
  rw [EStateM.bind, h]

theorem run_turn_error {action : ActionWith τ β} {next : β → Turns τ α} {y y' : Store × τ}
    {e : Error} (h : action y = .error e y') : (turn action next).run y = .error e y' := by
  show EStateM.bind action (fun b => (next b).run) y = _
  rw [EStateM.bind, h]

theorem run_once_ok {action : ActionWith τ α} {y y' : Store × τ} {a : α}
    (h : action y = .ok a y') : (once action).run y = .ok a y' := by
  rw [once, run_turn_ok h]
  rfl

theorem run_once_inv {action : ActionWith τ α} {y y' : Store × τ} {a : α}
    (h : (once action).run y = .ok a y') : action y = .ok a y' := by
  cases hact : action y with
  | ok b y₁ =>
    rw [run_once_ok hact] at h
    exact h
  | error e y₁ =>
    rw [once, run_turn_error hact] at h
    cases h

theorem run_act_ok {a : Action α} {s s' : Store} {b : α} (h : a s = .ok b s') (own : τ) :
    (act a : Turns τ α).run (s, own) = .ok b (s', own) := by
  apply run_once_ok
  rw [ActionWith.act, h]

theorem run_act_error {a : Action α} {s s' : Store} {e : Error} (h : a s = .error e s') (own : τ) :
    (act a : Turns τ α).run (s, own) = .error e (s', own) := by
  apply run_turn_error
  rw [ActionWith.act, h]

theorem run_bind (x : Turns τ α) (f : α → Turns τ β) :
    (x >>= f).run = x.run >>= fun a => (f a).run := by
  induction x with
  | done a => rfl
  | turn action next ih =>
    funext y
    show EStateM.bind action (fun b => ((next b).andThen f).run) y =
      EStateM.bind (EStateM.bind action fun b => (next b).run) (fun a => (f a).run) y
    rw [EStateM.bind, EStateM.bind, EStateM.bind]
    cases action y with
    | error e y' => rfl
    | ok b y' => exact congrFun (ih b) y'

theorem run_bind_ok {x : Turns τ α} {f : α → Turns τ β} {y y' : Store × τ} {a : α}
    (h : x.run y = .ok a y') : (x >>= f).run y = (f a).run y' := by
  rw [run_bind]
  show EStateM.bind _ _ y = _
  rw [EStateM.bind, h]

theorem run_bind_error {x : Turns τ α} {f : α → Turns τ β} {y y' : Store × τ} {e : Error}
    (h : x.run y = .error e y') : (x >>= f).run y = .error e y' := by
  rw [run_bind]
  show EStateM.bind _ _ y = _
  rw [EStateM.bind, h]

theorem run_bind_inv {x : Turns τ α} {f : α → Turns τ β} {y y'' : Store × τ} {b : β}
    (h : (x >>= f).run y = .ok b y'') :
    ∃ a y', x.run y = .ok a y' ∧ (f a).run y' = .ok b y'' := by
  cases hx : x.run y with
  | ok a y' =>
    rw [run_bind_ok hx] at h
    exact ⟨a, y', rfl, h⟩
  | error e y' =>
    rw [run_bind_error hx] at h
    cases h

theorem run_act_inv {a : Action α} {s : Store} {own : τ} {y' : Store × τ} {b : α}
    (h : (act a : Turns τ α).run (s, own) = .ok b y') : ∃ s', a s = .ok b s' ∧ y' = (s', own) := by
  cases ha : a s with
  | ok c s' =>
    rw [run_act_ok ha own] at h
    cases h
    exact ⟨s', rfl, rfl⟩
  | error e s' =>
    rw [run_act_error ha own] at h
    cases h

/-- Every result of the program is as said. -/
def Yields (P : α → Prop) : Turns τ α → Prop
  | done a => P a
  | turn _ next => ∀ b, (next b).Yields P

theorem Yields.bind {P : β → Prop} {x : Turns τ α} {f : α → Turns τ β}
    (hf : ∀ a, (f a).Yields P) : (x >>= f).Yields P := by
  induction x with
  | done a => exact hf a
  | turn action next ih => exact fun b => ih b

theorem Yields.run {P : α → Prop} {x : Turns τ α} (hx : x.Yields P) :
    ∀ {y y' : Store × τ} {a : α}, x.run y = .ok a y' → P a := by
  induction x with
  | done a =>
    intro y y' b h
    cases h
    exact hx
  | turn action next ih =>
    intro y y' b h
    cases hact : action y with
    | ok c y₁ =>
      rw [run_turn_ok hact] at h
      exact ih c (hx c) h
    | error e y₁ =>
      rw [run_turn_error hact] at h
      cases h

def Grows : Turns τ α → Prop
  | done _ => True
  | turn action next =>
    (∀ s own, s.pages.size ≤ (action.after s own).1.pages.size) ∧ ∀ b, (next b).Grows

theorem Grows.bind {x : Turns τ α} {f : α → Turns τ β} (hx : x.Grows) (hf : ∀ a, (f a).Grows) :
    (x >>= f).Grows := by
  induction x with
  | done a => exact hf a
  | turn action next ih => exact ⟨hx.1, fun b => ih b (hx.2 b)⟩

theorem Grows.run {x : Turns τ α} (hx : x.Grows) :
    ∀ s own, s.pages.size ≤ (x.run.after s own).1.pages.size := by
  induction x with
  | done a =>
    intro s own
    exact Nat.le_refl _
  | turn action next ih =>
    intro s own
    have hturn := hx.1 s own
    rw [ActionWith.after] at hturn ⊢
    cases haction : action (s, own) with
    | ok b y =>
      rw [haction] at hturn
      rw [run_turn_ok haction]
      exact Nat.le_trans hturn (ih b (hx.2 b) y.1 y.2)
    | error e y =>
      rw [haction] at hturn
      rw [run_turn_error haction]
      exact hturn

theorem grows_reading (f : Store → Except Error α) :
    (act (Action.reading f) : Turns τ α).Grows := by
  refine ⟨fun s own => ?_, fun _ => trivial⟩
  exact Nat.le_of_eq (by rw [ActionWith.after_reading])

theorem grows_editPage (id : PageId) (decision : Store → Page → Except Error (Edit α)) :
    (act (editPage id decision) : Turns τ α).Grows := by
  refine ⟨fun s own => ?_, fun _ => trivial⟩
  rw [ActionWith.after_act, Action.after]
  rcases editPage_cases id decision s with
    ⟨e, he⟩ | ⟨p, -, ⟨a, -, ha⟩ | ⟨q, a, -, ha⟩⟩
  · exact Nat.le_of_eq (by rw [he])
  · exact Nat.le_of_eq (by rw [ha])
  · rw [ha]
    exact Nat.le_of_eq (s.size_withPage id q).symm

end Turns

end PagedGraph
