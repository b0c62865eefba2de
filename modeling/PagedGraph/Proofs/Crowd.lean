import PagedGraph.Index
import PagedGraph.Proofs.Company
import PagedGraph.Proofs.Reopening

/-!
# Writers in company

Any number of insertions may be under way on one store. Each of them takes its turns when it
likes, and between two turns of one writer the others may do anything that writers do. A
construction may go further and run complete work of other writers within its own turn.

`Reaches` says which stores this can lead to. Every turn of an insertion keeps an intact store
intact, whatever the others have done since its last turn (`commits_insertion`), and from that every
store that a crowd reaches is intact (`Reaches.sound`).

Page numbers are finite, and the last one is reserved. A store is followed only as long as each of
its pages has a number of its own.
-/

set_option autoImplicit false

namespace PagedGraph

structure Writer where
  σ : Type
  own : σ
  rest : Turns σ Outcome

structure Crowd where
  store : Store
  writers : List Writer

/-- The crowds that a store can come to when nobody is at work on it at first.

Somebody may begin to insert a draft of the right width, with a construction whose calls leave
nobody at work behind: what a call does to the store is complete work of other writers. Whoever is
at work may take a turn; a turn that fails is his last one, and its effects stay. Anybody may
delete an element in between. -/
inductive Reaches (p : Params) (width : Nat) : Store → Crowd → Prop where
  | start (s : Store) : Reaches p width s ⟨s, []⟩
  | enter {s₀ s : Store} {ws : List Writer} {τ : Type} (own : τ) (c : Construction τ) (d : Draft)
      (past : Reaches p width s₀ ⟨s, ws⟩)
      (wide : d.vector.length = width)
      (search : ∀ q entry s₁ own₁, ((c.search q entry).after s₁ own₁).1.Numbered →
        Reaches p width s₁ ⟨((c.search q entry).after s₁ own₁).1, []⟩)
      (find : ∀ vector lists s₁ own₁, ((c.findDuplicate vector lists).after s₁ own₁).1.Numbered →
        Reaches p width s₁ ⟨((c.findDuplicate vector lists).after s₁ own₁).1, []⟩) :
      Reaches p width s₀ ⟨s, ⟨τ, own, insertion p c d⟩ :: ws⟩
  | turn {s₀ s s' : Store} {before after : List Writer} {τ β : Type} {own own' : τ}
      {action : ActionWith τ β} {next : β → Turns τ Outcome} {b : β}
      (past : Reaches p width s₀ ⟨s, before ++ ⟨τ, own, .turn action next⟩ :: after⟩)
      (works : action (s, own) = .ok b (s', own')) (numbered : s'.Numbered) :
      Reaches p width s₀ ⟨s', before ++ ⟨τ, own', next b⟩ :: after⟩
  | fail {s₀ s s' : Store} {before after : List Writer} {τ β : Type} {own own' : τ}
      {action : ActionWith τ β} {next : β → Turns τ Outcome} {e : Error}
      (past : Reaches p width s₀ ⟨s, before ++ ⟨τ, own, .turn action next⟩ :: after⟩)
      (fails : action (s, own) = .error e (s', own')) (numbered : s'.Numbered) :
      Reaches p width s₀ ⟨s', before ++ after⟩
  | leave {s₀ s : Store} {before after : List Writer} {τ : Type} {own : τ} {o : Outcome}
      (past : Reaches p width s₀ ⟨s, before ++ ⟨τ, own, .done o⟩ :: after⟩) :
      Reaches p width s₀ ⟨s, before ++ after⟩
  | delete {s₀ s : Store} {ws : List Writer} (l : Location)
      (past : Reaches p width s₀ ⟨s, ws⟩) :
      Reaches p width s₀ ⟨(markDeleted l).after s, ws⟩

/-- What a store can come to on its own it can come to while others are at work on it. So the
stores in the middle of a construction's call are stores of a crowd like any other. -/
theorem Reaches.beside {p : Params} {width : Nat} {s₀ s : Store} {ws : List Writer} {c : Crowd}
    (past : Reaches p width s₀ ⟨s, ws⟩) (inner : Reaches p width s c) :
    Reaches p width s₀ ⟨c.store, c.writers ++ ws⟩ := by
  induction inner with
  | start s => exact past
  | enter own c d _ wide search find ih => exact .enter own c d (ih past) wide search find
  | turn _ works numbered ih =>
    have hnow := ih past
    rw [List.append_assoc, List.cons_append] at hnow ⊢
    exact .turn hnow works numbered
  | fail _ fails numbered ih =>
    have hnow := ih past
    rw [List.append_assoc] at hnow ⊢
    exact .fail hnow fails numbered
  | leave _ ih =>
    have hnow := ih past
    rw [List.append_assoc] at hnow ⊢
    exact .leave hnow
  | delete l _ ih => exact .delete l (ih past)

inductive Turns.Completes {τ α : Type} : Turns τ α → Store × τ → α → Store × τ → Prop where
  | done (a : α) (y : Store × τ) : Completes (.done a) y a y
  | turn {β : Type} {action : ActionWith τ β} {next : β → Turns τ α} {y y' y'' : Store × τ} {b : β}
      {a : α} (works : action y = .ok b y') (numbered : y'.1.Numbered)
      (rest : (next b).Completes y' a y'') : Completes (.turn action next) y a y''

namespace Turns.Completes

variable {τ α β : Type} {x : Turns τ α} {y y' y'' : Store × τ} {a : α}

theorem run (h : x.Completes y a y') : x.run y = .ok a y' := by
  induction h with
  | done a y => rfl
  | turn works _ _ ih => rw [run_turn_ok works, ih]

theorem bind {f : α → Turns τ β} {b : β} (h : x.Completes y a y')
    (hf : (f a).Completes y' b y'') : (x >>= f).Completes y b y'' := by
  induction h with
  | done a y => exact hf
  | turn works numbered _ ih => exact .turn works numbered (ih hf)

theorem act {action : Action α} {s s' : Store} (h : action s = .ok a s') (hn : s'.Numbered)
    (own : τ) : (Turns.act action : Turns τ α).Completes (s, own) a (s', own) := by
  have hact : (ActionWith.act action : ActionWith τ α) (s, own) = .ok a (s', own) := by
    rw [ActionWith.act, h]
  exact .turn hact hn (.done a _)

end Turns.Completes

theorem Reaches.complete {p : Params} {width : Nat} {s₀ : Store} {ws : List Writer} {τ : Type}
    {x : Turns τ Outcome} {y y' : Store × τ} {o : Outcome} (h : x.Completes y o y')
    (past : Reaches p width s₀ ⟨y.1, ⟨τ, y.2, x⟩ :: ws⟩) : Reaches p width s₀ ⟨y'.1, ws⟩ := by
  induction h with
  | done o y =>
    have hnow : Reaches p width s₀ ⟨y.1, [] ++ ⟨τ, y.2, .done o⟩ :: ws⟩ := past
    exact hnow.leave
  | @turn β action next y _ _ b o works numbered _ ih =>
    have hnow : Reaches p width s₀ ⟨y.1, [] ++ ⟨τ, y.2, .turn action next⟩ :: ws⟩ := past
    exact ih (hnow.turn works numbered)

/-- A crowd that keeps to the rules: its store is what `s` may have become, and whoever is at work
on it goes on to keep to the rules. -/
structure Crowd.Sound (t : Header) (s : Store) (c : Crowd) : Prop where
  later : s.Later t c.store
  writers : ∀ w ∈ c.writers, w.rest.Safe t (fun _ _ => True) (fun _ _ => True) c.store

theorem safe_once {τ α : Type} {t : Header} {action : ActionWith τ α}
    (h : ∀ s own, s.Intact t → (action.after s own).1.Numbered →
      Crowd.Sound t s ⟨(action.after s own).1, []⟩) (s : Store) :
    (Turns.once action).Safe t (fun _ _ => True) (fun _ _ => True) s :=
  fun s own hs hb => ⟨(h s own hs.intact hb).later, trivial, fun _ _ _ _ => trivial⟩

theorem markDeleted_later {t : Header} {s : Store} (h : s.Intact t) (l : Location) :
    s.Later t ((markDeleted l).after s) := by
  rcases markDeleted_after h l with hsame | ⟨e, -, -, hintact, hrew⟩
  · rw [hsame]
    exact .refl h
  · exact hrew.later hintact

namespace Crowd.Sound

variable {t : Header} {s₀ s s' : Store} {before after ws : List Writer} {τ β : Type} {own own' : τ}

theorem intact {c : Crowd} (h : Sound t s c) : c.store.Intact t := h.later.intact

theorem since {c : Crowd} (h : Sound t s c) (hs : s₀.Later t s) : Sound t s₀ c :=
  ⟨hs.trans h.later, h.writers⟩

theorem others (h : Sound t s₀ ⟨s, ws⟩) (hs : s.Later t s') : Sound t s ⟨s', ws⟩ :=
  ⟨hs, fun w hw => .later (fun _ _ _ _ _ => trivial) hs (h.writers w hw)⟩

theorem enter (h : Sound t s₀ ⟨s, ws⟩) {p : Params} (hp : p.m = t.m.toNat) (c : Construction τ)
    (hsearch : ∀ q entry s own, s.Intact t → ((c.search q entry).after s own).1.Numbered →
      Sound t s ⟨((c.search q entry).after s own).1, []⟩)
    (hfind : ∀ vector lists s own, s.Intact t →
      ((c.findDuplicate vector lists).after s own).1.Numbered →
      Sound t s ⟨((c.findDuplicate vector lists).after s own).1, []⟩)
    (d : Draft) (wide : d.vector.length = t.dimensions.toNat) :
    Sound t s ⟨s, ⟨τ, own, insertion p c d⟩ :: ws⟩ := by
  have hcommits := commits_insertion (fun _ _ _ => trivial) p hp c
    (fun q entry => safe_once (hsearch q entry)) (fun vector lists => safe_once (hfind vector lists))
    d wide s
  refine ⟨.refl h.intact, fun w hw => ?_⟩
  rcases List.mem_cons.mp hw with rfl | hw
  · exact hcommits.safe.mono (fun _ _ h => h) (fun _ _ _ => trivial) s
  · exact h.writers w hw

theorem leave {w : Writer} (h : Sound t s₀ ⟨s, before ++ w :: after⟩) :
    Sound t s ⟨s, before ++ after⟩ := by
  refine ⟨.refl h.intact, fun v hv => h.writers v ?_⟩
  rcases List.mem_append.mp hv with hv | hv
  · exact List.mem_append_left _ hv
  · exact List.mem_append_right _ (List.mem_cons_of_mem _ hv)

theorem act {action : ActionWith τ β} {next : β → Turns τ Outcome}
    (h : Sound t s₀ ⟨s, before ++ ⟨τ, own, .turn action next⟩ :: after⟩)
    (hafter : action.after s own = (s', own')) (hb : s'.Numbered) :
    Sound t s ⟨s', before ++ after⟩ ∧ ∀ b, action (s, own) = .ok b (s', own') →
      (next b).Safe t (fun _ _ => True) (fun _ _ => True) s' := by
  have hturn := h.writers ⟨τ, own, .turn action next⟩ (by simp) s own (.refl h.intact)
    (by rw [hafter]; exact hb)
  rw [hafter] at hturn
  exact ⟨h.leave.others hturn.1, fun b hrun => hturn.2.2 b s' own' hrun⟩

theorem turn {action : ActionWith τ β} {next : β → Turns τ Outcome} {b : β}
    (h : Sound t s₀ ⟨s, before ++ ⟨τ, own, .turn action next⟩ :: after⟩)
    (works : action (s, own) = .ok b (s', own')) (hb : s'.Numbered) :
    Sound t s ⟨s', before ++ ⟨τ, own', next b⟩ :: after⟩ := by
  obtain ⟨hrest, hnext⟩ := h.act (by rw [ActionWith.after, works]) hb
  refine ⟨hrest.later, fun w hw => ?_⟩
  rcases List.mem_append.mp hw with hw | hw
  · exact hrest.writers w (List.mem_append_left _ hw)
  · rcases List.mem_cons.mp hw with rfl | hw
    · exact hnext b works
    · exact hrest.writers w (List.mem_append_right _ hw)

theorem fail {action : ActionWith τ β} {next : β → Turns τ Outcome} {e : Error}
    (h : Sound t s₀ ⟨s, before ++ ⟨τ, own, .turn action next⟩ :: after⟩)
    (fails : action (s, own) = .error e (s', own')) (hb : s'.Numbered) :
    Sound t s ⟨s', before ++ after⟩ :=
  (h.act (by rw [ActionWith.after, fails]) hb).1

theorem delete (h : Sound t s₀ ⟨s, ws⟩) (l : Location) :
    Sound t s ⟨(markDeleted l).after s, ws⟩ :=
  h.others (markDeleted_later h.intact l)

end Crowd.Sound

theorem Reaches.sound {p : Params} {t : Header} (hp : p.m = t.m.toNat) {s : Store} {c : Crowd}
    (h : Reaches p t.dimensions.toNat s c) (hs : s.Intact t) : c.Sound t s := by
  induction h with
  | start s => exact ⟨.refl hs, fun w hw => by cases hw⟩
  | enter own c d _ wide _ _ ih ihsearch ihfind =>
    exact ((ih hs).enter hp c (fun q entry s₁ own₁ hs₁ hb => ihsearch q entry s₁ own₁ hb hs₁)
      (fun vector lists s₁ own₁ hs₁ hb => ihfind vector lists s₁ own₁ hb hs₁) d wide).since
      (ih hs).later
  | turn _ works numbered ih => exact ((ih hs).turn works numbered).since (ih hs).later
  | fail _ fails numbered ih => exact ((ih hs).fail fails numbered).since (ih hs).later
  | leave _ ih => exact (ih hs).leave.since (ih hs).later
  | delete l _ ih => exact ((ih hs).delete l).since (ih hs).later

theorem Reaches.reading {p : Params} {width : Nat} {τ α : Type} (f : Store → Except Error α)
    (s : Store) (own : τ) :
    Reaches p width s ⟨((ActionWith.act (Action.reading f)).after s own).1, []⟩ := by
  rw [ActionWith.after_reading]
  exact .start s

theorem Reaches.inserted {p q : Params} {width : Nat} {s₀ : Store} {ws : List Writer} {τ : Type}
    {y y' : Store × τ} {d : Draft} {o : Outcome} (past : Reaches p width s₀ ⟨y.1, ws⟩)
    (wide : d.vector.length = width)
    (h : (insertion p (layerSearch τ q) d).Completes y o y') : Reaches p width s₀ ⟨y'.1, ws⟩ := by
  refine .complete h (.enter y.2 _ d past wide ?_ ?_)
  · exact fun _ _ s own _ => .reading _ s own
  · exact fun _ _ s own _ => .reading _ s own

end PagedGraph
