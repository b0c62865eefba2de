import PagedGraph.Proofs.Beams
import PagedGraph.Proofs.History
import PagedGraph.Proofs.Merging
import PagedGraph.Proofs.SearchEnds

/-!
# Connecting a stored draft, write by write

Once a draft is stored, single writes follow. Each changes either a field of the header or one slot
of a neighbor list: the list of a candidate that the draft has in that layer, and does not have the
draft in it yet (`Woven`). So what is kept by every such write is kept by the second half of an
insertion (`connect_woven`).

`Ended` says what an insertion does to an intact store from the moment at which it has its candidates,
however old these are by then.
-/

set_option autoImplicit false

namespace PagedGraph

theorem Store.Rewritten.link {s s' : Store} {l : Location} {e e' : Element}
    (h : s.Rewritten s' l (.element e')) (he : s.record? l = some (.element e))
    (hsame : e'.level = e.level ∧ e'.neighborsAt = e.neighborsAt) (m layer : Nat) (j k : Location) :
    s'.Link m layer j k ↔ s.Link m layer j k := by
  have hadjacency : ∀ (x : Location) (a : Adjacency),
      s'.record? x = some (.adjacency a) ↔ s.record? x = some (.adjacency a) := by
    intro x a
    refine ⟨h.adjacency, fun ha => ?_⟩
    have hx : x ≠ l := by
      rintro rfl
      rw [he] at ha
      cases ha
    rw [h.record, putRecord_of_ne _ _ hx]
    exact ha
  constructor
  · rintro ⟨f, a, hf, ha, hk⟩
    have hput := (h.puts j f).mp hf
    rw [hadjacency] at ha
    by_cases hj : j = l
    · rw [if_pos hj] at hput
      subst hput
      rw [hsame.2] at ha
      rw [hsame.1] at hk
      exact ⟨e, a, by rw [hj]; exact he, ha, hk⟩
    · rw [if_neg hj] at hput
      exact ⟨f, a, hput, ha, hk⟩
  · rintro ⟨f, a, hf, ha, hk⟩
    rw [← hadjacency] at ha
    by_cases hj : j = l
    · subst hj
      obtain rfl : e = f := by
        have := he.symm.trans hf
        cases this
        rfl
      refine ⟨e', a, (h.puts j e').mpr (by rw [if_pos rfl]), ?_, ?_⟩
      · rw [hsame.2]
        exact ha
      · rw [hsame.1]
        exact hk
    · exact ⟨f, a, (h.puts j f).mpr (by rw [if_neg hj]; exact hf), ha, hk⟩

/-- Writes that connect a stored draft: to the header, and of links to the draft into lists of its
candidates that do not have it. -/
inductive Woven (t : Header) (d : Draft) (s : Store) : Store → Prop where
  | start : Woven t d s s
  | header {s₁ s₂ : Store} (past : Woven t d s s₁) (intact : s₂.Intact t)
      (record : s₂.record? = s₁.record?) (size : s₂.pages.size = s₁.pages.size) : Woven t d s s₂
  | link {s₁ s₂ : Store} {layer i : Nat} {c : Candidate} {e : Element} {a : Adjacency}
      (past : Woven t d s s₁) (low : layer ≤ d.level.toNat)
      (chosen : c ∈ d.neighbors.getD layer []) (other : c.location ≠ d.location)
      (found : s₁.record? c.location = some (.element e))
      (list : s₁.record? e.neighborsAt = some (.adjacency a))
      (slot : InLayer e.level.toNat t.m.toNat layer i) (inside : i < a.slots.length)
      (unlinked : d.location ∉ a.segment e.level.toNat layer t.m.toNat) (intact : s₂.Intact t)
      (rewritten : s₁.Rewritten s₂ e.neighborsAt (.adjacency ⟨a.slots.set i d.location⟩)) :
      Woven t d s s₂

namespace Woven

variable {t : Header} {d : Draft} {s s' s'' : Store}

theorem trans (h : Woven t d s s') (h' : Woven t d s' s'') : Woven t d s s'' := by
  induction h' with
  | start => exact h
  | header _ intact record size ih => exact .header ih intact record size
  | link _ low chosen other found list slot inside unlinked intact rewritten ih =>
    exact .link ih low chosen other found list slot inside unlinked intact rewritten

theorem intact (h : Woven t d s s') (hs : s.Intact t) : s'.Intact t := by
  cases h with
  | start => exact hs
  | header _ intact _ _ => exact intact
  | link _ _ _ _ _ _ _ _ _ intact _ => exact intact

theorem size (h : Woven t d s s') : s'.pages.size = s.pages.size := by
  induction h with
  | start => rfl
  | header _ _ _ size ih => exact size.trans ih
  | link _ _ _ _ _ _ _ _ _ _ rewritten ih => exact rewritten.size.trans ih

theorem element (h : Woven t d s s') (k : Location) (f : Element) :
    s'.record? k = some (.element f) ↔ s.record? k = some (.element f) := by
  induction h with
  | start => rfl
  | header _ _ record _ ih => rw [record, ih]
  | link _ _ _ _ _ list _ _ _ intact rewritten ih =>
    rw [(rewritten.kept intact list).element, ih]

theorem linked (h : Woven t d s s') : s.Linked s' d.location := by
  induction h with
  | start => exact .of_record rfl _
  | header _ _ record _ ih => exact ih.trans (.of_record record _)
  | link _ _ _ _ _ list _ _ _ _ rewritten ih => exact ih.trans (rewritten.linked list)

theorem resolves (h : Woven t d s s') (hd : ∃ e, s.record? d.location = some (.element e))
    (hlinks : s.Resolves) : s'.Resolves :=
  h.linked.resolves h.element hd hlinks

theorem gains (h : Woven t d s s') (hs : s.Intact t) (hused : d.location.isUsed = true) :
    Store.Gains t.m.toNat d.location (fun layer k => (layer ≤ d.level.toNat ∧
      ∃ c ∈ d.neighbors.getD layer [], c.location = k) ∧ k ≠ d.location) s s' := by
  induction h with
  | start => exact .refl _ _ _ s
  | header _ _ record _ ih => exact ih.trans (.of_record record)
  | @link s₁ s₂ layer i c e a past low chosen other found list slot inside _ _ rewritten ih =>
    refine ih.trans ((rewritten.gains (past.intact hs) found list slot inside hused).1.mono ?_)
    rintro _ _ ⟨rfl, rfl⟩
    exact ⟨⟨low, c, chosen, rfl⟩, other⟩

end Woven

section
variable {τ : Type} {t : Header} (p : Params) (hp : p.m = t.m.toNat) (own : τ)
include hp

theorem linkCandidate_woven {s : Store} (h : s.Intact t) {d : Draft} {layer : Nat} {c : Candidate}
    (hlow : layer ≤ d.level.toNat) (hc : c ∈ d.neighbors.getD layer []) {e : Element}
    (he : s.record? c.location = some (.element e))
    (hlinks : ∀ k, s.Link p.m layer c.location k → ∃ f, s.record? k = some (.element f)) :
    ∃ s', (linkCandidate p d layer c.location).run (s, own) = .ok () (s', own) ∧ Woven t d s s' ∧
      s'.header = s.header := by
  obtain ⟨a, ha, hlen⟩ := h.paired.resolves _ e he
  rw [← hp] at hlen
  by_cases hself : c.location = d.location
  · rw [linkCandidate, if_pos hself]
    exact ⟨s, rfl, .start, rfl⟩
  rcases connection?_cases p d layer he ha hlen with
    ⟨hnone, -⟩ | ⟨hlayer, hunlinked, place, hsome, hplace⟩ | ⟨-, k, hk, hout⟩
  · have hread : Action.reading (fun s => s.connection? p d c.location layer) s = .ok none s := by
      rw [Action.reading, hnone]
    rw [linkCandidate, if_neg hself]
    exact ⟨s, Turns.run_bind_ok (Turns.run_act_ok hread own), .start, rfl⟩
  · have hread : Action.reading (fun s => s.connection? p d c.location layer) s =
        .ok (some ⟨e.neighborsAt, e.level.toNat, place⟩) s := by
      rw [Action.reading, hsome]
    have hrun : ∀ s', writeLink p d.location ⟨e.neighborsAt, e.level.toNat, place⟩ layer s =
        .ok () s' → (linkCandidate p d layer c.location).run (s, own) = .ok () (s', own) := by
      intro s' hwrite
      rw [linkCandidate, if_neg hself]
      exact (Turns.run_bind_ok (Turns.run_act_ok hread own)).trans (Turns.run_act_ok hwrite own)
    rcases writeLink_rewritten h p d.location ⟨e.neighborsAt, e.level.toNat, place⟩ layer a ha with
      ⟨hwrite, -⟩ | ⟨i, s', hi, hlt, hwrite, hintact, hrew⟩
    · exact ⟨s, hrun s hwrite, .start, rfl⟩
    · have hslot : InLayer e.level.toNat p.m layer i := by
        rcases hplace with ⟨rfl, -⟩ | ⟨offset, rfl, hoffset, -⟩
        · exact (slot?_unused hlayer).1 i hi
        · cases hi
          exact ⟨hlayer, Nat.le_add_right _ _, Nat.add_lt_add_left hoffset _⟩
      rw [hp] at hslot hunlinked
      exact ⟨s', hrun s' hwrite,
        .link .start hlow hc hself he ha hslot hlt hunlinked hintact hrew, hrew.header⟩
  · obtain ⟨f, hf⟩ := hlinks k hk
    cases hout.symm.trans ((s.element_eq_ok k f).mpr hf)

theorem linkEach_woven {d : Draft} {layer : Nat} (hlow : layer ≤ d.level.toNat)
    (cs : List Candidate) : ∀ s : Store, s.Intact t → s.Resolves →
      (∃ e, s.record? d.location = some (.element e)) → s.Occupied cs →
      (∀ c ∈ cs, c ∈ d.neighbors.getD layer []) →
      ∃ s', (linkEach p d layer cs).run (s, own) = .ok () (s', own) ∧ Woven t d s s' ∧
        s'.header = s.header := by
  induction cs with
  | nil =>
    intro s _ _ _ _ _
    exact ⟨s, rfl, .start, rfl⟩
  | cons c rest ih =>
    intro s h hlinks hown hcs hchosen
    obtain ⟨e, he⟩ := hcs c List.mem_cons_self
    obtain ⟨s₁, hrun, hwoven, hheader⟩ := linkCandidate_woven p hp own h hlow
      (hchosen c List.mem_cons_self) he fun _ hk => hlinks.link hk
    obtain ⟨s₂, hrest, hwoven', hheader'⟩ := ih s₁ (hwoven.intact h)
      (hwoven.resolves hown hlinks) (hown.imp fun f hf => (hwoven.element _ f).mpr hf)
      (fun x hx => (hcs x (List.mem_cons_of_mem _ hx)).imp fun f hf => (hwoven.element _ f).mpr hf)
      (fun x hx => hchosen x (List.mem_cons_of_mem _ hx))
    refine ⟨s₂, ?_, hwoven.trans hwoven', hheader'.trans hheader⟩
    rw [linkEach, Turns.run_bind_ok hrun, hrest]

theorem linkFrom_woven {d : Draft} (top : Nat) : ∀ s : Store, s.Intact t → s.Resolves →
    (∃ e, s.record? d.location = some (.element e)) → top ≤ d.level.toNat →
    (∀ i, s.Occupied (d.neighbors.getD i [])) →
    ∃ s', (linkFrom p d top).run (s, own) = .ok () (s', own) ∧ Woven t d s s' ∧
      s'.header = s.header := by
  induction top with
  | zero =>
    intro s h hlinks hown hlow hcs
    exact linkEach_woven p hp own hlow _ s h hlinks hown (hcs 0) fun _ hc => hc
  | succ top ih =>
    intro s h hlinks hown hlow hcs
    obtain ⟨s₁, hrun, hwoven, hheader⟩ :=
      linkEach_woven p hp own hlow _ s h hlinks hown (hcs (top + 1)) fun _ hc => hc
    obtain ⟨s₂, hrest, hwoven', hheader'⟩ := ih s₁ (hwoven.intact h) (hwoven.resolves hown hlinks)
      (hown.imp fun f hf => (hwoven.element _ f).mpr hf) (Nat.le_of_succ_le hlow)
      fun i x hx => (hcs i x hx).imp fun f hf => (hwoven.element _ f).mpr hf
    refine ⟨s₂, ?_, hwoven.trans hwoven', hheader'.trans hheader⟩
    rw [linkFrom, Turns.run_bind_ok hrun, hrest]

end

namespace Insertion

section
variable {τ : Type} {t : Header} (own : τ)

theorem tryPromote_quiet {s : Store} (h : s.Intact t) (d : Draft) (prior : Option EntryPoint)
    (hprior : prior = none → s.entry = none) (hpage : d.location.page ≠ noPage) :
    ∃ s', (tryPromote d prior).run (s, own) = .ok none (s', own) ∧ s'.Intact t ∧
      s'.record? = s.record? ∧ s'.pages.size = s.pages.size := by
  rw [tryPromote]
  by_cases hrank : outranks d prior = true
  · obtain ⟨a, s', hrun, hend⟩ := promote_cases h ⟨d.location, d.level⟩ prior hpage
    rw [if_pos hrank, Turns.run_bind_ok (Turns.run_act_ok hrun own)]
    cases hend with
    | installed s' intact record size entry above => exact ⟨s', rfl, intact, record, size⟩
    | superseded current found high => exact ⟨s, rfl, h, rfl, rfl⟩
    | raced current found first =>
      rw [hprior first] at found
      cases found
  · rw [if_neg hrank]
    exact ⟨s, rfl, h, rfl, rfl⟩

variable (p : Params) (hp : p.m = t.m.toNat)
include hp

theorem connect_woven (c : Construction τ) {s : Store} (h : s.Intact t) (d : Draft)
    (prior : Option EntryPoint) (cursor : Option PageId) (hprior : prior = none → s.entry = none)
    (hcursor : ∀ id, cursor = some id → 0 < id.toNat ∧ id.toNat < s.pages.size)
    (hlinks : s.Resolves) (hown : ∃ e, s.record? d.location = some (.element e))
    (hcs : ∀ i, s.Occupied (d.neighbors.getD i [])) :
    ∃ s', (connect p c (.stored d prior cursor)).run (s, own) =
        .ok (.inserted d.location) (s', own) ∧ Woven t d s s' := by
  obtain ⟨s₁, hkept, hrecord, hpublish⟩ := publish_moved p own h d prior cursor hcursor
  have hmoved : Woven t d s s₁ := .header .start hkept.intact hrecord hkept.size
  obtain ⟨s₂, hlink, hwoven, hheader⟩ := linkFrom_woven p hp own d.level.toNat s₁ hkept.intact
    (hmoved.resolves hown hlinks) (by rw [hrecord]; exact hown) (Nat.le_refl _)
    fun i => hkept.occupied (hcs i)
  have hentry : s₂.entry = s.entry := by
    rw [Store.entry, hheader, ← Store.entry, hkept.entry]
  obtain ⟨s₃, hpromote, hintact, hrecord', hsize⟩ := tryPromote_quiet own
    (hwoven.intact hkept.intact) d prior (fun hnone => hentry.trans (hprior hnone))
    (hown.elim fun e he => h.page_ne he)
  refine ⟨s₃, ?_, ?_⟩
  · rw [connect, Turns.run_bind_ok (hpublish.trans ((Turns.run_bind_ok hlink).trans hpromote))]
    rfl
  · exact .header (hmoved.trans hwoven) hintact hrecord' hsize

end

/-- What can become of a draft that has its candidates: nothing, or its row joins an element, or it is
stored where there is room and connected. -/
inductive Ended (t : Header) (s : Store) (d : Draft) : Except Error Outcome → Store → Prop where
  | failed (e : Error) : Ended t s d (.error e) s
  | joined (l : Location) (e : Element) (place : Nat) (s' : Store)
      (found : s.record? l = some (.element e)) (intact : s'.Intact t)
      (rewritten : s.Rewritten s' l (.element (e.withRow place d.row))) :
      Ended t s d (.ok (.coalesced l)) s'
  | stored (st : Stored) (s₁ s' : Store) (room : storePair d t.m.toNat s = .ok st s₁)
      (placed : Placed t s s₁ d st)
      (woven : Woven t { d with location := st.location, neighborsAt := st.neighborsAt } s₁ s') :
      Ended t s d (.ok (.inserted st.location)) s'

section
variable {t : Header} {s s₁ s' : Store} {d : Draft} {st : Stored} (h : s.Intact t)
  (hplaced : Placed t s s₁ d st)
  (hwoven : Woven t { d with location := st.location, neighborsAt := st.neighborsAt } s₁ s')
include h hplaced hwoven

theorem woven_puts : s.Puts s' st.location { d.element with neighborsAt := st.neighborsAt } :=
  (hplaced.put.puts h).followed hwoven.element

omit h in
theorem gains_of_placed : Store.Gains t.m.toNat st.location (fun layer k =>
    (layer ≤ d.level.toNat ∧ ∃ c ∈ d.neighbors.getD layer [], c.location = k) ∧ k ≠ st.location)
    s₁ s' :=
  hwoven.gains hplaced.intact (bne_iff_ne.mpr (hplaced.intact.page_ne hplaced.element))

theorem woven_own (layer : Nat) (k : Location) : s'.Link t.m.toNat layer st.location k ↔
    layer ≤ d.level.toNat ∧ k.isUsed = true ∧ k ∈ ((d.neighbors.getD layer []).map
      Candidate.location).take (layerCapacity t.m.toNat layer) := by
  rw [(gains_of_placed hplaced hwoven).other fun hl => hl.2 rfl, hplaced.link h, if_pos rfl]

theorem woven_back {layer : Nat} {l k : Location} (hl : l ≠ st.location)
    (hk : s'.Link t.m.toNat layer l k) : s.Link t.m.toNat layer l k ∨
      k = st.location ∧ layer ≤ d.level.toNat ∧ ∃ c ∈ d.neighbors.getD layer [], c.location = l := by
  rcases (gains_of_placed hplaced hwoven).back hk with hold | ⟨hnew, hchosen, -⟩
  · rw [hplaced.link h, if_neg hl] at hold
    exact .inl hold
  · exact .inr ⟨hnew, hchosen⟩

theorem woven_above {layer : Nat} (hlayer : d.level.toNat < layer) {l : Location}
    (hl : l ≠ st.location) (k : Location) :
    s'.Link t.m.toNat layer l k ↔ s.Link t.m.toNat layer l k := by
  rw [(gains_of_placed hplaced hwoven).other fun hP => absurd hP.1.1 (Nat.not_le.mpr hlayer),
    hplaced.link h, if_neg hl]

end

structure Ready (t : Header) (s : Store) (d : Draft) (prior : Option EntryPoint) : Prop where
  intact : s.Intact t
  resolves : s.Resolves
  first : prior = none → s.entry = none
  links : ∀ i, s.Occupied (d.neighbors.getD i [])

section
variable {τ : Type} {t : Header} (own : τ) (p : Params) (hp : p.m = t.m.toNat) (q : Params)
  {s : Store} {d : Draft} (hd : d.vector.length = t.dimensions.toNat) {prior : Option EntryPoint}
  (h : Ready t s d prior)
include hp hd h

theorem store_connects {s₁ : Store} {st : Stored} (hroom : storePair d t.m.toNat s = .ok st s₁)
    (hb : s₁.Numbered) : ∃ s',
      (connect p (layerSearch τ q) (.stored { d with
        location := st.location, neighborsAt := st.neighborsAt } prior st.cursor)).run (s₁, own) =
          .ok (.inserted st.location) (s', own) ∧
      Placed t s s₁ d st ∧
      Woven t { d with location := st.location, neighborsAt := st.neighborsAt } s₁ s' := by
  have hplaced := storePair_placed h.intact d hd hroom hb
  have hentry := hplaced.entry
  obtain ⟨s', hconnect, hwoven⟩ := connect_woven own p hp (layerSearch τ q) hplaced.intact
    { d with location := st.location, neighborsAt := st.neighborsAt } prior st.cursor
    (fun hnone => hentry.trans (h.first hnone)) hplaced.cursor
    (placed_resolves h.intact h.resolves h.links hplaced) ⟨_, hplaced.element⟩
    fun i c hc => (h.links i c hc).elim fun f hf => (hplaced.put.puts h.intact).element hf
  exact ⟨s', hconnect, hplaced, hwoven⟩

theorem store_ended
    (hb : ((store p prior d >>= connect p (layerSearch τ q)).run.after s own).1.Numbered) :
    ∃ r s', Ended t s d r s' ∧
      (store p prior d >>= connect p (layerSearch τ q)).run (s, own) = Turns.ended own r s' := by
  rcases storePair_cases h.intact d hd with ⟨e, he⟩ | ⟨st, s₁, hroom, -, -⟩
  · refine ⟨.error e, s, .failed e, ?_⟩
    rw [← hp] at he
    exact Turns.run_bind_error (Turns.run_bind_error (Turns.run_act_error he own))
  · have hwhole := Turns.run_bind_ok (f := connect p (layerSearch τ q))
      (store_run p hp own prior hroom)
    -- The file does not shrink from here on, so its pages can still be numbered.
    rw [ActionWith.after, hwhole, ← ActionWith.after] at hb
    obtain ⟨s', hrun, hplaced, hwoven⟩ := store_connects own p hp q hd h hroom
      (Nat.le_trans ((grows_connect p q _).run s₁ own) hb)
    exact ⟨_, s', .stored st s₁ s' hroom hplaced hwoven, hwhole.trans hrun⟩

end

end Insertion

end PagedGraph
