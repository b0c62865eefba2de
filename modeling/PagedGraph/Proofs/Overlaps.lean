import Mathlib.Logic.Relation
import PagedGraph.Proofs.Fitting

/-!
# Insertions that overlap

One insertion is watched while others are at work. `Crowd.Step` is what anybody may do next, and
`Underway` tells the story of the insertion: what has happened to the store since it began, step by
step, and who did it.

Whatever the others do, the insertion commits in at most one of its turns (`Underway.stage`). The
entry point never comes down and is never lost, and an insertion that ends with a new element leaves
an entry point that is at least as high (`entry_rises`): the single second attempt is enough.
-/

set_option autoImplicit false

namespace PagedGraph

structure Construction.Orderly {τ : Type} (p : Params) (width : Nat) (c : Construction τ) : Prop where
  search : ∀ q entry s own, ((c.search q entry).after s own).1.Numbered →
    Reaches p width s ⟨((c.search q entry).after s own).1, []⟩
  find : ∀ vector lists s own, ((c.findDuplicate vector lists).after s own).1.Numbered →
    Reaches p width s ⟨((c.findDuplicate vector lists).after s own).1, []⟩

theorem orderly_layerSearch (τ : Type) (p q : Params) (width : Nat) :
    (layerSearch τ q).Orderly p width :=
  ⟨fun _ _ s own _ => .reading _ s own, fun _ _ s own _ => .reading _ s own⟩

namespace Crowd

/-- What anybody may do next: begin to insert, take a turn, go when there is nothing left to do, or
delete an element. -/
inductive Step (p : Params) (width : Nat) : Crowd → Crowd → Prop where
  | enter {s : Store} {ws : List Writer} {τ : Type} (own : τ) (c : Construction τ) (d : Draft)
      (wide : d.vector.length = width) (orderly : c.Orderly p width) :
      Step p width ⟨s, ws⟩ ⟨s, ⟨τ, own, insertion p c d⟩ :: ws⟩
  | turn {s s' : Store} {before after : List Writer} {τ β : Type} {own own' : τ}
      {action : ActionWith τ β} {next : β → Turns τ Outcome} {b : β}
      (works : action (s, own) = .ok b (s', own')) (numbered : s'.Numbered) :
      Step p width ⟨s, before ++ ⟨τ, own, .turn action next⟩ :: after⟩
        ⟨s', before ++ ⟨τ, own', next b⟩ :: after⟩
  | fail {s s' : Store} {before after : List Writer} {τ β : Type} {own own' : τ}
      {action : ActionWith τ β} {next : β → Turns τ Outcome} {e : Error}
      (fails : action (s, own) = .error e (s', own')) (numbered : s'.Numbered) :
      Step p width ⟨s, before ++ ⟨τ, own, .turn action next⟩ :: after⟩ ⟨s', before ++ after⟩
  | leave {s : Store} {before after : List Writer} {τ : Type} {own : τ} {o : Outcome} :
      Step p width ⟨s, before ++ ⟨τ, own, .done o⟩ :: after⟩ ⟨s, before ++ after⟩
  | delete {s : Store} {ws : List Writer} (l : Location) :
      Step p width ⟨s, ws⟩ ⟨(markDeleted l).after s, ws⟩

variable {p : Params} {width : Nat}

theorem Step.reaches {s₀ : Store} {c c' : Crowd} (h : Reaches p width s₀ c) (step : c.Step p width c') :
    Reaches p width s₀ c' := by
  cases step with
  | enter own c d wide orderly => exact h.enter own c d wide orderly.search orderly.find
  | turn works numbered => exact h.turn works numbered
  | fail fails numbered => exact h.fail fails numbered
  | leave => exact h.leave
  | delete l => exact h.delete l

variable {t : Header} (hp : p.m = t.m.toNat)
include hp

theorem Sound.step {s₀ : Store} {c c' : Crowd} (h : c.Sound t s₀)
    (step : c.Step p t.dimensions.toNat c') : c'.Sound t c.store := by
  cases step with
  | enter own c d wide orderly =>
    exact h.enter hp c
      (fun q entry s₁ own₁ hs₁ hb => (orderly.search q entry s₁ own₁ hb).sound hp hs₁)
      (fun vector lists s₁ own₁ hs₁ hb => (orderly.find vector lists s₁ own₁ hb).sound hp hs₁)
      d wide
  | turn works numbered => exact h.turn works numbered
  | fail fails numbered => exact h.fail fails numbered
  | leave => exact h.leave
  | delete l => exact h.delete l

theorem Sound.steps {s₀ : Store} {c c' : Crowd} (h : c.Sound t s₀)
    (steps : Relation.ReflTransGen (Step p t.dimensions.toNat) c c') : c'.Sound t c.store := by
  induction steps with
  | refl => exact ⟨.refl h.intact, h.writers⟩
  | tail _ step ih => exact (ih.step hp step).since ih.later

end Crowd

structure Change where
  own : Bool
  before : Store
  after : Store

/-- The insertion of a draft while others are at work: what has happened since it began, the store,
the writer's own state, the turns he has still to take or the error of his last one, and the
others. -/
inductive Underway (p : Params) (width : Nat) (s₀ : Store) {τ : Type} (c : Construction τ)
    (d : Draft) :
    List Change → Store → τ → Except Error (Turns τ Outcome) → List Writer → Prop where
  | enter {s : Store} {ws : List Writer} (own : τ) (past : Reaches p width s₀ ⟨s, ws⟩) :
      Underway p width s₀ c d [] s own (.ok (insertion p c d)) ws
  | turn {trace : List Change} {s s' : Store} {own own' : τ} {β : Type} {action : ActionWith τ β}
      {next : β → Turns τ Outcome} {b : β} {ws : List Writer}
      (past : Underway p width s₀ c d trace s own (.ok (.turn action next)) ws)
      (works : action (s, own) = .ok b (s', own')) (numbered : s'.Numbered) :
      Underway p width s₀ c d (trace ++ [⟨true, s, s'⟩]) s' own' (.ok (next b)) ws
  | fail {trace : List Change} {s s' : Store} {own own' : τ} {β : Type} {action : ActionWith τ β}
      {next : β → Turns τ Outcome} {e : Error} {ws : List Writer}
      (past : Underway p width s₀ c d trace s own (.ok (.turn action next)) ws)
      (fails : action (s, own) = .error e (s', own')) (numbered : s'.Numbered) :
      Underway p width s₀ c d (trace ++ [⟨true, s, s'⟩]) s' own' (.error e) ws
  | others {trace : List Change} {s s' : Store} {own : τ} {rest : Except Error (Turns τ Outcome)}
      {ws ws' : List Writer} (past : Underway p width s₀ c d trace s own rest ws)
      (step : Crowd.Step p width ⟨s, ws⟩ ⟨s', ws'⟩) :
      Underway p width s₀ c d (trace ++ [⟨false, s, s'⟩]) s' own rest ws'

def Only (G : Store → Store → Prop) (trace : List Change) : Prop :=
  ∀ x ∈ trace, x.own = true → G x.before x.after

/-- The watched writer has committed, once, and of all else that he has done `G` holds. -/
def CommittedOnce (t : Header) (G : Store → Store → Prop) (d : Draft) (o : Outcome)
    (trace : List Change) : Prop :=
  ∃ before s₁ s₂ after, trace = before ++ ⟨true, s₁, s₂⟩ :: after ∧ Committed t d o s₁ s₂ ∧
    Only G (before ++ after)

inductive Stage (t : Header) (G : Store → Store → Prop) (d : Draft) {τ : Type}
    (trace : List Change) (s : Store) : Except Error (Turns τ Outcome) → Prop where
  | looking {x : Turns τ Outcome} (only : Only G trace)
      (rest : x.Commits t G (Committed t d) (Insertion.Topped d) s) : Stage t G d trace s (.ok x)
  | linking {x : Turns τ Outcome} (o : Outcome) (once : CommittedOnce t G d o trace)
      (rest : x.Safe t G (fun o' s => o' = o ∧ Insertion.Topped d o s) s) :
      Stage t G d trace s (.ok x)
  | failed {e : Error} (only : Only G trace ∨ ∃ o, CommittedOnce t G d o trace) :
      Stage t G d trace s (.error e)

section
variable {t : Header} {G : Store → Store → Prop} {d : Draft} {trace : List Change} {o : Outcome}

theorem Only.append {trace' : List Change} (h : Only G trace) (h' : Only G trace') :
    Only G (trace ++ trace') :=
  fun x hx => (List.mem_append.mp hx).elim (h x) (h' x)

theorem only_own {s s' : Store} (h : G s s') : Only G [⟨true, s, s'⟩] := by
  intro x hx _
  rw [List.mem_singleton.mp hx]
  exact h

theorem only_others (s s' : Store) : Only G [⟨false, s, s'⟩] := by
  intro x hx hown
  rw [List.mem_singleton.mp hx] at hown
  cases hown

theorem CommittedOnce.append {trace' : List Change} (h : CommittedOnce t G d o trace)
    (h' : Only G trace') : CommittedOnce t G d o (trace ++ trace') := by
  obtain ⟨before, s₁, s₂, after, rfl, hc, honly⟩ := h
  refine ⟨before, s₁, s₂, after ++ trace', by simp, hc, ?_⟩
  rw [← List.append_assoc]
  exact honly.append h'

theorem Only.commit {s s' : Store} (h : Only G trace) (hc : Committed t d o s s') :
    CommittedOnce t G d o (trace ++ [⟨true, s, s'⟩]) :=
  ⟨trace, s, s', [], rfl, hc, by rw [List.append_nil]; exact h⟩

theorem topped_later (o' : Outcome) (s s' : Store) (hs : s.Later t s')
    (h : o' = o ∧ Insertion.Topped d o s) : o' = o ∧ Insertion.Topped d o s' := by
  refine ⟨h.1, ?_⟩
  cases o with
  | inserted l => exact Rises.trans h.2 hs.entry
  | coalesced l => trivial
  | skipped reason => trivial

end

namespace Underway

theorem complete {p : Params} {width : Nat} {s₀ : Store} {τ : Type} {c : Construction τ} {d : Draft}
    {ws : List Writer} {x : Turns τ Outcome} {y y' : Store × τ} {o : Outcome}
    (h : x.Completes y o y') :
    ∀ trace, Underway p width s₀ c d trace y.1 y.2 (.ok x) ws →
      ∃ trace', Underway p width s₀ c d trace' y'.1 y'.2 (.ok (.done o)) ws := by
  induction h with
  | done o y => exact fun trace past => ⟨trace, past⟩
  | turn works numbered _ ih => exact fun trace past => ih _ (past.turn works numbered)

variable {p : Params} {t : Header} {s₀ s : Store} {τ : Type} {own : τ} {c : Construction τ}
  {d : Draft} {trace : List Change} {rest : Except Error (Turns τ Outcome)} {ws : List Writer}
  (hp : p.m = t.m.toNat) (hs₀ : s₀.Intact t) {G : Store → Store → Prop}
  (hG : ∀ s s', s.Quiet t s' → G s s')
  (hsearch : ∀ q entry s, (Turns.once (c.search q entry)).Safe t G (fun _ _ => True) s)
  (hfind : ∀ vector lists s,
    (Turns.once (c.findDuplicate vector lists)).Safe t G (fun _ _ => True) s)
  (hd : d.vector.length = t.dimensions.toNat)
include hp hs₀ hG hsearch hfind hd

theorem stage (h : Underway p t.dimensions.toNat s₀ c d trace s own rest ws) :
    Crowd.Sound t s₀ ⟨s, ws⟩ ∧ Stage t G d trace s rest := by
  induction h with
  | @enter s ws own past =>
    refine ⟨past.sound hp hs₀, .looking (fun x hx => by cases hx) ?_⟩
    exact commits_insertion hG p hp c hsearch hfind d hd s
  | @turn trace s s' own own' β action next b ws _ works numbered ih =>
    obtain ⟨hsound, hstage⟩ := ih
    have hafter : action.after s own = (s', own') := by rw [ActionWith.after, works]
    have hnumbered : (action.after s own).1.Numbered := by rw [hafter]; exact numbered
    cases hstage with
    | looking only hrest =>
      obtain ⟨hlater, -, hnext⟩ := hrest s own (.refl hsound.intact) hnumbered
      rw [hafter] at hlater
      refine ⟨(hsound.others hlater).since hsound.later, ?_⟩
      rcases hnext b s' own' works with ⟨hg, hrest'⟩ | ⟨o, hc, hrest'⟩
      · exact .looking (only.append (only_own hg)) hrest'
      · exact .linking o (only.commit hc) hrest'
    | linking o once hrest =>
      obtain ⟨hlater, hg, hnext⟩ := hrest s own (.refl hsound.intact) hnumbered
      rw [hafter] at hlater hg
      exact ⟨(hsound.others hlater).since hsound.later,
        .linking o (once.append (only_own hg)) (hnext b s' own' works)⟩
  | @fail trace s s' own own' β action next e ws _ fails numbered ih =>
    obtain ⟨hsound, hstage⟩ := ih
    have hafter : action.after s own = (s', own') := by rw [ActionWith.after, fails]
    have hnumbered : (action.after s own).1.Numbered := by rw [hafter]; exact numbered
    cases hstage with
    | looking only hrest =>
      obtain ⟨hlater, hfail, -⟩ := hrest s own (.refl hsound.intact) hnumbered
      rw [hafter] at hlater
      exact ⟨(hsound.others hlater).since hsound.later,
        .failed (.inl (only.append (only_own (hfail e _ fails))))⟩
    | linking o once hrest =>
      obtain ⟨hlater, hg, -⟩ := hrest s own (.refl hsound.intact) hnumbered
      rw [hafter] at hlater hg
      exact ⟨(hsound.others hlater).since hsound.later,
        .failed (.inr ⟨o, once.append (only_own hg)⟩)⟩
  | @others trace s s' own rest ws ws' _ step ih =>
    obtain ⟨hsound, hstage⟩ := ih
    have hnow := hsound.step hp step
    refine ⟨hnow.since hsound.later, ?_⟩
    cases hstage with
    | looking only hrest =>
      exact .looking (only.append (only_others s s')) (hrest.later hnow.later)
    | linking o once hrest =>
      exact .linking o (once.append (only_others s s')) (hrest.later topped_later hnow.later)
    | failed only =>
      refine .failed (only.imp (fun h => h.append (only_others s s')) ?_)
      rintro ⟨o, once⟩
      exact ⟨o, once.append (only_others s s')⟩

theorem ended {o : Outcome}
    (h : Underway p t.dimensions.toNat s₀ c d trace s own (.ok (.done o)) ws) :
    CommittedOnce t G d o trace ∧ Insertion.Topped d o s := by
  obtain ⟨-, hstage⟩ := h.stage hp hs₀ hG hsearch hfind hd
  cases hstage with
  | looking only hrest => exact hrest.elim
  | linking o' once hrest =>
    obtain ⟨rfl, htopped⟩ := hrest
    exact ⟨once, htopped⟩

end Underway

structure EntryKept (p : Params) (width : Nat) (s : Store) : Prop where
  /-- No step of anybody loses the entry point or lowers it. -/
  steps : ∀ c c', Reaches p width s c → Relation.ReflTransGen (Crowd.Step p width) c c' →
    Rises c.store.entry c'.store.entry
  /-- Neither does the work of others in the middle of a construction's call. -/
  calls : ∀ s₁ ws c, Reaches p width s ⟨s₁, ws⟩ → Reaches p width s₁ c →
    Rises s₁.entry c.store.entry
  /-- An insertion that ends with a new element leaves an entry point at least as high. -/
  inserted : ∀ {τ : Type} (c : Construction τ) (d : Draft), c.Orderly p width →
    d.vector.length = width → ∀ trace s' own ws l,
    Underway p width s c d trace s' own (.ok (.done (.inserted l))) ws →
    ∃ e, s'.entry = some e ∧ d.level ≤ e.level

/-- Whatever writers do with an index that was opened empty, and however they take turns, the entry
point is never lost or lowered, and whoever inserts an element leaves one that is at least as high,
although nobody tries more than twice. -/
theorem entry_rises {path : String} {dimensions : UInt32} {o : Options} {file file' : FileState}
    {ix : Index} {s : Store} (hblank : file.isBlank = true)
    (hopen : Index.openFile path dimensions o file = (.ok (ix, s), file')) :
    EntryKept ix.params ix.dimensions s := by
  obtain ⟨hopened, -⟩ := Index.opened_of_blank hblank hopen
  have hp := hopened.m_eq
  rw [hopened.width]
  constructor
  · intro c c' hc hsteps
    exact ((hc.sound hp hopened.intact).steps hp hsteps).later.entry
  · intro s₁ ws c hs₁ hc
    exact (hc.sound hp (hs₁.sound hp hopened.intact).intact).later.entry
  · intro τ c d horderly hd trace s' own ws l h
    obtain ⟨-, htopped⟩ := h.ended hp hopened.intact (fun _ _ _ => trivial)
      (fun q entry => safe_once fun s₁ own₁ hs₁ hb =>
        (horderly.search q entry s₁ own₁ hb).sound hp hs₁)
      (fun vector lists => safe_once fun s₁ own₁ hs₁ hb =>
        (horderly.find vector lists s₁ own₁ hb).sound hp hs₁) hd
    exact htopped _ rfl

theorem underway_new_file {level : UInt8} (hlevel : level.toNat ≤ 1) : ∃ s₁ k trace,
    Underway Params.standard 2 (Store.fresh (Index.template 2 Options.standard))
      (layerSearch Unit Params.standard) (Draft.new level [0, 0] 7) trace s₁ ()
      (.ok (.done (.inserted ⟨1, 0⟩))) [] ∧
    s₁.Intact (Index.template 2 Options.standard) ∧
    (Store.fresh (Index.template 2 Options.standard)).Puts s₁ ⟨1, 0⟩
      { (Draft.new level [0, 0] 7).element with neighborsAt := k } := by
  obtain ⟨s₁, k, hrun, hintact, hputs, -⟩ :=
    inserted_new_file (layerSearch Unit Params.standard) () hlevel
  have hbegun : Underway Params.standard 2 (Store.fresh (Index.template 2 Options.standard))
      (layerSearch Unit Params.standard) (Draft.new level [0, 0] 7) []
      (Store.fresh (Index.template 2 Options.standard)) ()
      (.ok (insertion Params.standard _ (Draft.new level [0, 0] 7))) [] := .enter () (.start _)
  obtain ⟨trace, htrace⟩ := Underway.complete hrun [] hbegun
  exact ⟨s₁, k, trace, htrace, hintact, hputs⟩

theorem entry_rises_first : ∃ s₁ e, Store.entry s₁ = some e ∧ 1 ≤ e.level ∧
    ∃ trace, Underway Params.standard 2 (Store.fresh (Index.template 2 Options.standard))
      (layerSearch Unit Params.standard) (Draft.new 1 [0, 0] 7) trace s₁ ()
      (.ok (.done (.inserted ⟨1, 0⟩))) [] := by
  have hblank : FileState.absent.isBlank = true := rfl
  have hopen := Index.openFile_blank Index.checkOptions_new_file "index" .absent hblank
  obtain ⟨s₁, k, trace, htrace, -⟩ := underway_new_file (show (1 : UInt8).toNat ≤ 1 by decide)
  obtain ⟨e, he, hlevel⟩ := (entry_rises hblank hopen).inserted _ _ (orderly_layerSearch _ _ _ _)
    rfl _ _ _ _ _ htrace
  exact ⟨s₁, e, he, hlevel, trace, htrace⟩

end PagedGraph
