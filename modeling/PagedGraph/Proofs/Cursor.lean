import PagedGraph.Proofs.Overlaps
import PagedGraph.Proofs.Probing

/-!
# The page chain and the insert cursor

Whatever a crowd does, the data pages stay chained in the order of their numbers, the insert cursor
stands on one of them, and a search for room goes through them once (`Store.Chained`).

When insertions follow each other, the cursor never goes back. The reason is an order that every
placement keeps: no neighbor record lies on a page before that of its element. The search for room
starts at the cursor, so a page for an element that it finds is not before the cursor, nor is the
page of that element's neighbors, and the cursor follows the neighbors. Only two turns of an
insertion matter, the one that stores the pair and the one that moves the cursor; all others leave
the cursor alone (`Turns.Calm`). Between these two nobody may move the cursor but the writer, and
this is where it is needed that insertions do not overlap.
-/

set_option autoImplicit false

namespace PagedGraph

namespace Store

structure Ordered (t : Header) (s : Store) : Prop extends Intact t s where
  forward : s.Forward

structure Steady (t : Header) (s s' : Store) : Prop where
  ordered : s'.Ordered t
  size : s.pages.size ≤ s'.pages.size
  cursor : s'.cursor = s.cursor

structure Onward (t : Header) (s s' : Store) : Prop where
  ordered : s'.Ordered t
  cursor : s.cursor.toNat ≤ s'.cursor.toNat

variable {t : Header} {s s' s'' : Store}

theorem Steady.refl (h : s.Ordered t) : Steady t s s := ⟨h, Nat.le_refl _, rfl⟩

theorem Steady.trans (h : Steady t s s') (h' : Steady t s' s'') : Steady t s s'' :=
  ⟨h'.ordered, Nat.le_trans h.size h'.size, h'.cursor.trans h.cursor⟩

theorem Steady.onward (h : Steady t s s') : Onward t s s' :=
  ⟨h.ordered, Nat.le_of_eq (congrArg UInt32.toNat h.cursor.symm)⟩

theorem Onward.refl (h : s.Ordered t) : Onward t s s := ⟨h, Nat.le_refl _⟩

theorem Onward.trans (h : Onward t s s') (h' : Onward t s' s'') : Onward t s s'' :=
  ⟨h'.ordered, Nat.le_trans h.cursor h'.cursor⟩

theorem Kept.steady (h : Kept t s s') (hs : s.Forward) (hcursor : s'.cursor = s.cursor) :
    Steady t s s' where
  ordered := ⟨h.intact, fun l e he => hs l e ((h.element l e).mp he)⟩
  size := Nat.le_of_eq h.size.symm
  cursor := hcursor

theorem Rewritten.steady {l : Location} {r r' : Record} (h : Rewritten s s' l r')
    (hintact : s'.Intact t) (hs : s.Forward) (hr : s.record? l = some r) (hshape : r.SameShape r') :
    Steady t s s' where
  ordered := by
    refine ⟨hintact, fun k e he => ?_⟩
    rw [h.record] at he
    obtain ⟨f, hf, -, hat⟩ := Paired.element_of_rewrite hr hshape he
    rw [← hat]
    exact hs k f hf
  size := Nat.le_of_eq h.size.symm
  cursor := by rw [cursor, cursor, h.header]

end Store

namespace Turns

variable {τ α β : Type} {t : Header}

def Calm (t : Header) : Turns τ α → Prop
  | done _ => True
  | turn action next =>
    (∀ (s : Store) own, s.Ordered t → s.Steady t (action.after s own).1) ∧ ∀ b, (next b).Calm t

theorem Calm.bind {x : Turns τ α} {f : α → Turns τ β} (hx : x.Calm t) (hf : ∀ a, (f a).Calm t) :
    (x >>= f).Calm t := by
  induction x with
  | done a => exact hf a
  | turn action next ih => exact ⟨hx.1, fun b => ih b (hx.2 b)⟩

theorem calm_act {a : Action α} (h : ∀ s : Store, s.Ordered t → (∃ e, a s = .error e s) ∨
    ∃ b s', a s = .ok b s' ∧ s.Steady t s') : (act a : Turns τ α).Calm t := by
  refine ⟨fun s own hs => ?_, fun _ => trivial⟩
  rw [ActionWith.after_act, Action.after]
  rcases h s hs with ⟨e, he⟩ | ⟨b, s', hrun, hsteady⟩
  · rw [he]
    exact .refl hs
  · rw [hrun]
    exact hsteady

theorem calm_reading (f : Store → Except Error α) :
    (act (Action.reading f) : Turns τ α).Calm t := by
  refine ⟨fun s own hs => ?_, fun _ => trivial⟩
  rw [ActionWith.after_reading]
  exact .refl hs

end Turns

section
variable {τ : Type} {t : Header}

theorem calm_writeLink (p : Params) (target : Location) (c : Connection) (layer : Nat) :
    (Turns.act (writeLink p target c layer) : Turns τ Unit).Calm t := by
  apply Turns.calm_act
  intro s hs
  by_cases hl : ∃ a, s.record? c.neighborsAt = some (.adjacency a)
  · obtain ⟨a, ha⟩ := hl
    rcases writeLink_rewritten hs.toIntact p target c layer a ha with
      ⟨hrun, -⟩ | ⟨i, s', -, -, hrun, hintact, hrew⟩
    · exact .inr ⟨(), s, hrun, .refl hs⟩
    · exact .inr ⟨(), s', hrun, hrew.steady hintact hs.forward ha List.length_set⟩
  · exact .inl (writeLink_no_adjacency hs.toIntact p target c layer fun a ha => hl ⟨a, ha⟩)

theorem calm_linkNeighbors (p : Params) (d : Draft) :
    (linkNeighbors p d : Turns τ Unit).Calm t := by
  have hcandidate : ∀ layer l, (linkCandidate p d layer l : Turns τ Unit).Calm t := by
    intro layer l
    rw [linkCandidate]
    by_cases hself : l = d.location
    · rw [if_pos hself]
      exact trivial
    · rw [if_neg hself]
      refine Turns.Calm.bind (Turns.calm_reading _) fun found => ?_
      cases found with
      | none => exact trivial
      | some c => exact calm_writeLink p d.location c layer
  have heach : ∀ layer cs, (linkEach p d layer cs : Turns τ Unit).Calm t := by
    intro layer cs
    induction cs with
    | nil => exact trivial
    | cons c rest ih => exact Turns.Calm.bind (hcandidate layer c.location) fun _ => ih
  rw [linkNeighbors]
  induction d.level.toNat with
  | zero => exact heach 0 _
  | succ layer ih => exact Turns.Calm.bind (heach (layer + 1) _) fun _ => ih

theorem calm_mergeNeighbors (p : Params) (d : Draft) (fresh : List (List Candidate)) :
    (Turns.act (mergeNeighbors p d fresh) : Turns τ Draft).Calm t := by
  apply Turns.calm_act
  intro s hs
  rcases mergeNeighbors_cases hs.toIntact p d fresh with
    hfail | ⟨a, merged, s', ha, hmerge, hrun, hintact, hrew⟩
  · exact .inl hfail
  · exact .inr ⟨_, s', hrun, hrew.steady hintact hs.forward ha (length_mergeFrom fresh 0 a _ hmerge)⟩

theorem calm_promote (candidate : EntryPoint) (prior : Option EntryPoint) :
    (Turns.act (promote candidate prior) : Turns τ Promotion).Calm t := by
  apply Turns.calm_act
  intro s hs
  rcases promote_run hs.toIntact candidate prior with
    ⟨hrun, -⟩ | ⟨current, -, ⟨hrun, -⟩ | ⟨hrun, -⟩⟩
  · have hfile : t.SameFile (s.header.withEntry candidate) := by
      have := hs.sameFile
      rw [Header.SameFile] at this ⊢
      rw [this]
      rfl
    obtain ⟨hintact, hrecord⟩ := hs.toIntact.withHeader (s.header.withEntry candidate) hfile
      hs.cursor_pos hs.cursor_lt
    refine .inr ⟨_, _, hrun, ⟨hintact, fun l e he => ?_⟩, Nat.le_of_eq (s.size_withHeader _).symm,
      promote_cursor hs.toIntact hrun⟩
    rw [hrecord] at he
    exact hs.forward l e he
  · exact .inr ⟨_, s, hrun, .refl hs⟩
  · exact .inr ⟨_, s, hrun, .refl hs⟩

namespace Insertion

theorem calm_tryPromote (d : Draft) (prior : Option EntryPoint) :
    (tryPromote d prior : Turns τ (Option EntryPoint)).Calm t := by
  rw [tryPromote]
  by_cases hrank : outranks d prior = true
  · rw [if_pos hrank]
    refine Turns.Calm.bind (calm_promote ⟨d.location, d.level⟩ prior) fun a => ?_
    cases a with
    | installed => exact trivial
    | superseded => exact trivial
    | raced rival => exact trivial
  · rw [if_neg hrank]
    exact trivial

end Insertion

end

def Deletions : Store → Store → Prop :=
  Relation.ReflTransGen fun s s' => ∃ l, s' = (markDeleted l).after s

/-- All that a construction's calls do to a store is to delete elements. -/
structure Construction.DeletesOnly {τ : Type} (c : Construction τ) : Prop where
  search : ∀ q entry s own, Deletions s ((c.search q entry).after s own).1
  find : ∀ vector lists s own, Deletions s ((c.findDuplicate vector lists).after s own).1

theorem deletesOnly_layerSearch (τ : Type) (p : Params) : (layerSearch τ p).DeletesOnly where
  search q entry s own := by
    rw [layerSearch, ActionWith.after_reading]
    exact .refl
  find vector lists s own := by
    rw [layerSearch, ActionWith.after_reading]
    exact .refl

theorem Deletions.reaches {p : Params} {width : Nat} {s s' : Store} (h : Deletions s s') :
    Reaches p width s ⟨s', []⟩ := by
  induction h with
  | refl => exact .start s
  | tail _ hlast ih =>
    obtain ⟨l, rfl⟩ := hlast
    exact .delete l ih

theorem Construction.DeletesOnly.orderly {τ : Type} {c : Construction τ} (h : c.DeletesOnly)
    (p : Params) (width : Nat) : c.Orderly p width :=
  ⟨fun q entry s own _ => (h.search q entry s own).reaches,
    fun vector lists s own _ => (h.find vector lists s own).reaches⟩

section
variable {t : Header}

theorem steady_markDeleted {s : Store} (hs : s.Ordered t) (l : Location) :
    s.Steady t ((markDeleted l).after s) := by
  rcases markDeleted_after hs.toIntact l with hsame | ⟨e, he, -, hintact, hrew⟩
  · rw [hsame]
    exact .refl hs
  · exact hrew.steady hintact hs.forward he ⟨rfl, rfl, rfl⟩

theorem Deletions.steady {s s' : Store} (h : Deletions s s') (hs : s.Ordered t) :
    s.Steady t s' := by
  induction h with
  | refl => exact .refl hs
  | tail _ hlast ih =>
    obtain ⟨l, rfl⟩ := hlast
    exact ih.trans (steady_markDeleted ih.ordered l)

theorem calm_once {τ α : Type} {action : ActionWith τ α}
    (h : ∀ s own, Deletions s (action.after s own).1) : (Turns.once action).Calm t :=
  ⟨fun s own hs => (h s own).steady hs, fun _ => trivial⟩

end

namespace Turns

variable {τ α β : Type} {t : Header}

/-- While others do nothing but delete, no turn of the program sets the cursor back, and the result
is as said. -/
def Forth (t : Header) (Q : α → Store → Prop) : Turns τ α → Store → Prop
  | done a, s => Q a s
  | turn action next, s₀ => ∀ (s : Store) own, s₀.Steady t s → (action.after s own).1.Numbered →
      s.Onward t (action.after s own).1 ∧
        ∀ b s' own', action (s, own) = .ok b (s', own') → (next b).Forth t Q s'

variable {Q : α → Store → Prop} {R : β → Store → Prop}

theorem Forth.bind {x : Turns τ α} {f : α → Turns τ β} (hf : ∀ a s, Q a s → (f a).Forth t R s) :
    ∀ s, x.Forth t Q s → (x >>= f).Forth t R s := by
  induction x with
  | done a =>
    intro s hx
    exact hf a s hx
  | turn action next ih =>
    intro s₀ hx s own hs hb
    obtain ⟨honward, hnext⟩ := hx s own hs hb
    exact ⟨honward, fun b s' own' hrun => ih b s' (hnext b s' own' hrun)⟩

theorem Calm.forth {P : α → Prop} {x : Turns τ α} (hx : x.Calm t) (hy : x.Yields P) :
    ∀ s, x.Forth t (fun a _ => P a) s := by
  induction x with
  | done a => exact fun _ => hy
  | turn action next ih =>
    exact fun s₀ s own hs _ => ⟨(hx.1 s own hs.ordered).onward,
      fun b s' _ _ => ih b (hx.2 b) (hy b) s'⟩

theorem Forth.later (hQ : ∀ a s s', s.Steady t s' → Q a s → Q a s') {x : Turns τ α} {s s' : Store}
    (hs : s.Steady t s') (h : x.Forth t Q s) : x.Forth t Q s' := by
  cases x with
  | done a => exact hQ a s s' hs h
  | turn action next => exact fun s₁ own hs₁ => h s₁ own (hs.trans hs₁)

theorem yields_trivial (x : Turns τ α) : x.Yields fun _ => True := by
  induction x with
  | done a => exact trivial
  | turn action next ih => exact ih

end Turns

namespace Insertion

variable {τ : Type} {t : Header}

def Ahead : Insertion → Store → Prop
  | joined _, _ => True
  | stored _ _ cursor, s => ∀ id, cursor = some id →
      0 < id.toNat ∧ id.toNat < s.pages.size ∧ s.cursor.toNat ≤ id.toNat

theorem forth_store (p : Params) (hp : p.m = t.m.toNat) (entry : Option EntryPoint) (d : Draft)
    (hd : d.vector.length = t.dimensions.toNat) (s₀ : Store) :
    (store p entry d : Turns τ Insertion).Forth t Ahead s₀ := by
  intro s own hs hb
  have hturn := Turns.act_turn (s.Onward t)
    (fun st s' => s'.cursor = s.cursor ∧ ∀ id, st.cursor = some id →
      0 < id.toNat ∧ id.toNat < s'.pages.size ∧ s.cursor.toNat ≤ id.toNat) hb (by
    rw [hp]
    rcases storePair_cases hs.ordered.toIntact d hd with hfail | ⟨st, s', hrun, -, hplaced⟩
    · exact .inl ⟨hfail, .refl hs.ordered⟩
    · refine .inr ⟨st, s', hrun, fun hn => ?_⟩
      have hput := hplaced hn
      obtain ⟨hpair, hcursor⟩ :=
        storePair_upward hs.ordered.toIntact hs.ordered.forward hrun
      have hsame : s'.cursor = s.cursor := by rw [Store.cursor, Store.cursor, hput.put.header]
      have hforward : s'.Forward := by
        intro l e he
        by_cases hl : l = st.location
        · subst hl
          rw [hput.put.record, putRecord_self] at he
          cases he
          exact hpair
        · rw [hput.put.record, putRecord_of_ne _ _ hl] at he
          by_cases hk : l = st.neighborsAt
          · rw [hk, putRecord_self] at he
            cases he
          · rw [putRecord_of_ne _ _ hk] at he
            exact hs.ordered.forward l e he
      refine ⟨⟨⟨hput.intact, hforward⟩, Nat.le_of_eq (congrArg UInt32.toNat hsame.symm)⟩, hsame,
        fun id hid => ?_⟩
      obtain ⟨hpos, hlt⟩ := hput.cursor id hid
      exact ⟨hpos, hlt, hcursor id hid⟩)
  refine ⟨hturn.1, fun st s' own' hrun => ?_⟩
  obtain ⟨hcursor, hahead⟩ := hturn.2.2 st s' own' hrun
  intro id hid
  rw [hcursor]
  exact hahead id hid

theorem forth_settle (p : Params) (hp : p.m = t.m.toNat) (entry : Option EntryPoint) (d : Draft)
    (hd : d.vector.length = t.dimensions.toNat) (duplicate : Option Location) (s₀ : Store) :
    (settle p entry d duplicate : Turns τ Insertion).Forth t Ahead s₀ := by
  cases duplicate with
  | none => exact forth_store p hp entry d hd s₀
  | some l =>
    have hjoin : (Turns.act (attachRow l d.row) : Turns τ Bool).Calm t := by
      apply Turns.calm_act
      intro s hs
      by_cases hl : ∃ e, s.record? l = some (.element e)
      · obtain ⟨e, he⟩ := hl
        rcases attachRow_element hs.toIntact l d.row e he with
          hno | ⟨place, s', hrun, -, -, -, hintact, hrew⟩
        · exact .inr ⟨false, s, hno, .refl hs⟩
        · exact .inr ⟨true, s', hrun, hrew.steady hintact hs.forward he ⟨rfl, rfl, rfl⟩⟩
      · exact .inl (attachRow_no_element hs.toIntact l d.row fun e he => hl ⟨e, he⟩)
    refine Turns.Forth.bind (fun joined s _ => ?_) s₀ (hjoin.forth (Turns.yields_trivial _) s₀)
    cases joined with
    | true => exact trivial
    | false => exact forth_store p hp entry d hd s

variable (p : Params) (hp : p.m = t.m.toNat) (c : Construction τ) (hc : c.DeletesOnly)
include hc

theorem calm_consult (d : Draft) (entry : Option EntryPoint) : (consult c d entry).Calm t := by
  cases entry with
  | none => exact trivial
  | some entry =>
    refine Turns.Calm.bind (calm_once (hc.search _ entry)) fun lists => ?_
    exact Turns.Calm.bind (calm_once (hc.find _ lists)) fun _ => trivial

omit hc in
theorem yields_consult (d : Draft) (entry : Option EntryPoint) :
    (consult c d entry).Yields fun r => r.1.vector = d.vector := by
  cases entry with
  | none => rfl
  | some entry => exact fun _ _ => rfl

include hp

theorem forth_place (d : Draft) (hd : d.vector.length = t.dimensions.toNat) (s₀ : Store) :
    (place p c d).Forth t Ahead s₀ := by
  refine Turns.Forth.bind (fun entry s _ => ?_) s₀
    ((Turns.calm_reading _).forth (Turns.yields_trivial _) s₀)
  refine Turns.Forth.bind (fun r s' hr => ?_) s
    ((calm_consult c hc d entry).forth (yields_consult c d entry) s)
  exact forth_settle p hp entry r.1 (by rw [hr, hd]) r.2 s'

omit hp

omit hc in
theorem calm_linkAndPromote (d : Draft) (prior : Option EntryPoint) :
    (linkNeighbors p d >>= fun _ => tryPromote d prior : Turns τ _).Calm t :=
  Turns.Calm.bind (calm_linkNeighbors p d) fun _ => calm_tryPromote d prior

omit hc in
theorem forth_publish (d : Draft) (prior : Option EntryPoint) (cursor : Option PageId) (s₀ : Store)
    (hahead : ∀ id, cursor = some id →
      0 < id.toNat ∧ id.toNat < s₀.pages.size ∧ s₀.cursor.toNat ≤ id.toNat) :
    (publish p d prior cursor : Turns τ _).Forth t (fun _ _ => True) s₀ := by
  have hrest : ∀ s, (linkNeighbors p d >>= fun _ => tryPromote d prior : Turns τ _).Forth t
      (fun _ _ => True) s :=
    (calm_linkAndPromote p d prior).forth (Turns.yields_trivial _)
  cases cursor with
  | none => exact hrest s₀
  | some id =>
    obtain ⟨hpos, hlt, hle⟩ := hahead id rfl
    refine Turns.Forth.bind (fun _ s _ => hrest s) s₀ (?_ : Turns.Forth t (fun _ _ => True) _ s₀)
    intro s own hs hb
    have hturn := Turns.act_turn (s.Onward t) (fun _ _ => True) hb (by
      obtain ⟨s', hrun, hkept, -, hcursor⟩ := moveCursor_kept hs.ordered.toIntact id hpos
        (Nat.lt_of_lt_of_le hlt hs.size)
      refine .inr ⟨(), s', hrun, fun _ => ⟨⟨⟨hkept.intact, fun l e he => ?_⟩, ?_⟩, trivial⟩⟩
      · exact hs.ordered.forward l e ((hkept.element l e).mp he)
      · rw [hcursor, hs.cursor]
        exact hle)
    exact ⟨hturn.1, fun _ _ _ _ => trivial⟩

omit hc in
theorem calm_reconnect (d : Draft) (rival : EntryPoint) (fresh : List (List Candidate)) :
    (reconnect p d rival fresh : Turns τ Unit).Calm t := by
  refine Turns.Calm.bind (calm_mergeNeighbors p d fresh) fun e => ?_
  refine Turns.Calm.bind (calm_linkNeighbors p e) fun _ => ?_
  exact Turns.Calm.bind (calm_tryPromote e (some rival)) fun _ => trivial

theorem forth_connect (i : Insertion) (s₀ : Store) (hi : i.Ahead s₀) :
    (connect p c i).Forth t (fun _ _ => True) s₀ := by
  cases i with
  | joined l => exact trivial
  | stored d prior cursor =>
    refine Turns.Forth.bind (fun found s _ => ?_) s₀ (forth_publish p d prior cursor s₀ hi)
    cases found with
    | none => exact trivial
    | some rival =>
      refine Turns.Calm.forth (P := fun _ => True) ?_ (Turns.yields_trivial _) s
      refine Turns.Calm.bind (calm_once (hc.search _ rival)) fun fresh => ?_
      exact Turns.Calm.bind (calm_reconnect p d rival fresh) fun _ => trivial

end Insertion

theorem forth_insertion {τ : Type} {t : Header} (p : Params) (hp : p.m = t.m.toNat)
    (c : Construction τ) (hc : c.DeletesOnly) (d : Draft)
    (hd : d.vector.length = t.dimensions.toNat) (s₀ : Store) :
    (insertion p c d).Forth t (fun _ _ => True) s₀ :=
  Turns.Forth.bind (fun i s hi => Insertion.forth_connect p c hc i s hi) s₀
    (Insertion.forth_place p hp c hc d hd s₀)

end PagedGraph
