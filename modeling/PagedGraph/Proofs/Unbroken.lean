import PagedGraph.Proofs.Recycling

/-!
# Insertions without a break

Somebody who searches the graph himself and takes all his turns one right after the other is a writer
like any other. Where his insertion goes through, a crowd can come to the same store
(`Reaches.insert`), and also to the store in which his element is stored but not connected yet
(`Reaches.place`). So a crowd can come to the file in which an element lies where another one was
(`Index.reused_wide`).
-/

set_option autoImplicit false

namespace PagedGraph

theorem size_editPage {α : Type} {id : PageId} {decision : Store → Page → Except Error (Edit α)}
    {s s' : Store} {a : α} (h : editPage id decision s = .ok a s') :
    s'.pages.size = s.pages.size := by
  rcases editPage_cases id decision s with ⟨e, he⟩ | ⟨p, -, ⟨b, -, hb⟩ | ⟨q, b, -, hb⟩⟩
  · cases he.symm.trans h
  · obtain ⟨-, rfl⟩ := EStateM.Result.ok.inj (hb.symm.trans h)
    rfl
  · obtain ⟨-, rfl⟩ := EStateM.Result.ok.inj (hb.symm.trans h)
    exact s.size_withPage id q

namespace Turns

variable {τ α β : Type} {s : Store} {own : τ}

/-- If no turn lets the file shrink, it is enough that the pages can be numbered at the end. -/
theorem Grows.completes {x : Turns τ α} (hx : x.Grows) :
    ∀ {y y' : Store × τ} {a : α}, x.run y = .ok a y' → y'.1.Numbered → x.Completes y a y' := by
  induction x with
  | done b =>
    intro y y' a hrun _
    obtain ⟨rfl, rfl⟩ := EStateM.Result.ok.inj hrun
    exact .done b y
  | turn action next ih =>
    intro y y' a hrun hn
    cases hact : action y with
    | error e y₁ =>
      rw [run_turn_error hact] at hrun
      cases hrun
    | ok b y₁ =>
      rw [run_turn_ok hact] at hrun
      have hgrows := (hx.2 b).run y₁.1 y₁.2
      rw [ActionWith.after, hrun] at hgrows
      exact .turn hact (Nat.le_trans hgrows hn) (ih b (hx.2 b) hrun hn)

theorem bind_bind {γ : Type} (x : Turns τ α) (f : α → Turns τ β) (g : β → Turns τ γ) :
    x >>= f >>= g = x >>= fun a => f a >>= g := by
  induction x with
  | done a => rfl
  | turn action next ih => exact congrArg (turn action) (funext ih)

theorem completes_reading {f : Store → Except Error α} {a : α} {y : Store × τ} (hn : s.Numbered)
    (h : (act (Action.reading f) : Turns τ α).run (s, own) = .ok a y) :
    y = (s, own) ∧ (act (Action.reading f) : Turns τ α).Completes (s, own) a (s, own) := by
  obtain ⟨s', hread, rfl⟩ := run_act_inv h
  obtain rfl : s' = s := by
    have hafter := ActionWith.after_reading f s own
    rw [ActionWith.after_act, Action.after, hread] at hafter
    exact congrArg Prod.fst hafter
  exact ⟨rfl, .act hread hn own⟩

end Turns

namespace Insertion

variable {τ : Type} {p q : Params} {d : Draft} {s : Store} {own : τ}

theorem completes_consult {entry : Option EntryPoint} {r : Draft × Option Location}
    {y : Store × τ} (hn : s.Numbered)
    (h : (consult (layerSearch τ q) d entry).run (s, own) = .ok r y) :
    y = (s, own) ∧ (consult (layerSearch τ q) d entry).Completes (s, own) r (s, own) := by
  cases entry with
  | none =>
    obtain ⟨rfl, rfl⟩ := EStateM.Result.ok.inj h
    exact ⟨rfl, .done _ _⟩
  | some entry =>
    obtain ⟨lists, y₁, hsearch, h⟩ := Turns.run_bind_inv h
    obtain ⟨rfl, hsearched⟩ := Turns.completes_reading hn hsearch
    obtain ⟨duplicate, y₂, hfind, h⟩ := Turns.run_bind_inv h
    obtain ⟨rfl, hlooked⟩ := Turns.completes_reading hn hfind
    obtain ⟨rfl, rfl⟩ := EStateM.Result.ok.inj h
    exact ⟨rfl, hsearched.bind (hlooked.bind (.done _ _))⟩

theorem completes_store {entry : Option EntryPoint} {i : Insertion} {y : Store × τ}
    (h : (store p entry d).run (s, own) = .ok i y) (hn : y.1.Numbered) :
    (store p entry d).Completes (s, own) i y := by
  obtain ⟨st, y₁, hact, h⟩ := Turns.run_bind_inv h
  obtain ⟨s', hstore, rfl⟩ := Turns.run_act_inv hact
  obtain ⟨rfl, rfl⟩ := EStateM.Result.ok.inj h
  exact (Turns.Completes.act hstore hn own).bind (.done _ _)

theorem completes_settle {entry : Option EntryPoint} {duplicate : Option Location} {i : Insertion}
    {y : Store × τ} (hs : s.Numbered)
    (h : (settle p entry d duplicate).run (s, own) = .ok i y) (hn : y.1.Numbered) :
    (settle p entry d duplicate).Completes (s, own) i y := by
  cases duplicate with
  | none => exact completes_store h hn
  | some l =>
    obtain ⟨joined, y₁, hact, h⟩ := Turns.run_bind_inv h
    obtain ⟨s', hattach, rfl⟩ := Turns.run_act_inv hact
    have hs' : s'.Numbered := by
      rw [Store.Numbered, size_editPage hattach]
      exact hs
    refine (Turns.Completes.act hattach hs' own).bind ?_
    cases joined with
    | true =>
      obtain ⟨rfl, rfl⟩ := EStateM.Result.ok.inj h
      exact .done _ _
    | false => exact completes_store h hn

theorem completes_place {i : Insertion} {y : Store × τ} (hs : s.Numbered)
    (h : (place p (layerSearch τ q) d).run (s, own) = .ok i y) (hn : y.1.Numbered) :
    (place p (layerSearch τ q) d).Completes (s, own) i y := by
  obtain ⟨entry, y₁, hread, h⟩ := Turns.run_bind_inv h
  obtain ⟨rfl, hlooked⟩ := Turns.completes_reading hs hread
  obtain ⟨⟨d', duplicate⟩, y₂, hconsult, h⟩ := Turns.run_bind_inv h
  obtain ⟨rfl, hconsulted⟩ := completes_consult hs hconsult
  exact hlooked.bind (hconsulted.bind (completes_settle hs h hn))

theorem completes_insertion {o : Outcome} {y : Store × τ} (hs : s.Numbered)
    (h : insertElement p (layerSearch τ q) d (s, own) = .ok o y) (hn : y.1.Numbered) :
    (insertion p (layerSearch τ q) d).Completes (s, own) o y := by
  obtain ⟨i, y₁, hplace, hconnect⟩ := Turns.run_bind_inv h
  have hgrows := (grows_connect p q i).run y₁.1 y₁.2
  rw [ActionWith.after, hconnect] at hgrows
  exact (completes_place hs hplace (Nat.le_trans hgrows hn)).bind
    ((grows_connect p q i).completes hconnect hn)

end Insertion

namespace Reaches

variable {p q : Params} {width : Nat} {s₀ s s' : Store} {ws : List Writer} {τ : Type} {own own' : τ}
  {d : Draft}

theorem through {α : Type} {x : Turns τ α} {f : α → Turns τ Outcome} {y y' : Store × τ} {a : α}
    (h : x.Completes y a y') (past : Reaches p width s₀ ⟨y.1, ⟨τ, y.2, x >>= f⟩ :: ws⟩) :
    Reaches p width s₀ ⟨y'.1, ⟨τ, y'.2, f a⟩ :: ws⟩ := by
  induction h with
  | done a y => exact past
  | @turn β action next y _ _ b a works numbered _ ih =>
    have hnow : Reaches p width s₀
        ⟨y.1, [] ++ ⟨τ, y.2, .turn action fun b => next b >>= f⟩ :: ws⟩ := past
    exact ih (hnow.turn works numbered)

theorem consult {e : Draft} {duplicate : Option Location} {y : Store × τ}
    (past : Reaches p width s₀ ⟨s, ws⟩) (wide : d.vector.length = width) (hs : s.Numbered)
    (h : (Insertion.consult (layerSearch τ q) d s.entry).run (s, own) = .ok (e, duplicate) y) :
    Reaches p width s₀ ⟨s, ⟨τ, own, Insertion.settle p s.entry e duplicate >>=
      Insertion.connect p (layerSearch τ q)⟩ :: ws⟩ := by
  have hentered : Reaches p width s₀ ⟨s, ⟨τ, own, insertion p (layerSearch τ q) d⟩ :: ws⟩ :=
    .enter own (layerSearch τ q) d past wide (fun _ _ s own _ => .reading _ s own)
      fun _ _ s own _ => .reading _ s own
  rw [insertion, Insertion.place, Turns.bind_bind] at hentered
  have hread : Action.reading (fun s => .ok s.entry) s = .ok s.entry s := rfl
  have hlooked := through (Turns.Completes.act hread hs own) hentered
  rw [Turns.bind_bind] at hlooked
  exact through (Insertion.completes_consult hs h).2 hlooked

theorem settle {entry : Option EntryPoint} {duplicate : Option Location} {i : Insertion}
    {f : Insertion → Turns τ Outcome}
    (past : Reaches p width s₀ ⟨s, ⟨τ, own, Insertion.settle p entry d duplicate >>= f⟩ :: ws⟩)
    (hs : s.Numbered)
    (h : (Insertion.settle p entry d duplicate).run (s, own) = .ok i (s', own'))
    (hn : s'.Numbered) : Reaches p width s₀ ⟨s', ⟨τ, own', f i⟩ :: ws⟩ :=
  through (Insertion.completes_settle hs h hn) past

theorem place {i : Insertion} (past : Reaches p width s₀ ⟨s, ws⟩) (wide : d.vector.length = width)
    (hs : s.Numbered)
    (h : Insertion.begin p (layerSearch τ q) d (s, own) = .ok i (s', own'))
    (hn : s'.Numbered) :
    Reaches p width s₀ ⟨s', ⟨τ, own', Insertion.connect p (layerSearch τ q) i⟩ :: ws⟩ := by
  refine through (Insertion.completes_place hs h hn) (.enter own (layerSearch τ q) d past wide ?_ ?_)
  · exact fun _ _ s own _ => .reading _ s own
  · exact fun _ _ s own _ => .reading _ s own

theorem insert {o : Outcome} (past : Reaches p width s₀ ⟨s, ws⟩) (wide : d.vector.length = width)
    (hs : s.Numbered) (h : insertElement p (layerSearch τ q) d (s, own) = .ok o (s', own'))
    (hn : s'.Numbered) : Reaches p width s₀ ⟨s', ws⟩ :=
  inserted (y := (s, own)) past wide (Insertion.completes_insertion hs h hn)

end Reaches

namespace Index

theorem first_reached : ∃ s, HasFirst s ∧ History 900 Options.standard wide s ∧
    Reaches wide.params wide.dimensions (Store.fresh (template 900 Options.standard)) ⟨s, []⟩ := by
  obtain ⟨s, hfirst, hrun⟩ := first_stored
  have hn := numbered_two hfirst.size
  refine ⟨s, hfirst, history_wide.stored (insert_wide (by decide) (by decide) hrun) hn, ?_⟩
  rw [overlapped_none] at hrun
  exact (Reaches.start _).insert (length_plain 0) (numbered_two rfl) hrun hn

theorem both_reached : ∃ s, HasBoth s first ∧ History 900 Options.standard wide s ∧
    Reaches wide.params wide.dimensions (Store.fresh (template 900 Options.standard)) ⟨s, []⟩ := by
  obtain ⟨s₁, hfirst, hhistory, hreach⟩ := first_reached
  obtain ⟨s₂, hboth, hrun⟩ := hfirst.second_stored
  have hn := numbered_two hboth.size
  refine ⟨s₂, hboth, hhistory.stored (insert_wide (by decide) (by decide) hrun) hn, ?_⟩
  rw [overlapped_none] at hrun
  exact hreach.insert (length_plain 1) (numbered_two hfirst.size) hrun hn

theorem reused_wide : ∃ s s', HasBoth s first ∧ HasBoth s' third ∧
    (History 900 Options.standard wide s ∧ History 900 Options.standard wide s') ∧
    Reaches wide.params wide.dimensions (Store.fresh (template 900 Options.standard)) ⟨s, []⟩ ∧
    Reaches wide.params wide.dimensions s ⟨s', []⟩ := by
  obtain ⟨s₂, hboth, hhistory, hreach⟩ := both_reached
  obtain ⟨s₃, hreused, hrun₃⟩ := hboth.delete.third_stored
  have hn₃ := numbered_two hreused.size
  refine ⟨s₂, s₃, hboth, hreused, ⟨hhistory, (hhistory.delete ⟨1, 0⟩).stored
    (insert_wide (by decide) (by decide) hrun₃) hn₃⟩, hreach, ?_⟩
  rw [overlapped_none] at hrun₃
  exact ((Reaches.start s₂).delete ⟨1, 0⟩).insert (length_plain 2)
    (numbered_two hboth.delete.size) hrun₃ hn₃

end Index

end PagedGraph
