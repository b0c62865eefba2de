import PagedGraph.Proofs.Recycling

/-!
# Elements that nobody leads to

A new element is linked to what its search has chosen, and only its candidates are linked back
(`insertElement_linking`). Deleted elements are not chosen. They take their places in the beams all
the same, so a search may find nothing else, and then the new element has no neighbors even though
there are live elements: it has one on layer 0 exactly if the last beam holds a live element
(`attaching_of_history`).

When the entry point is deleted before it has got any links, this never ends: nobody that is stored
from then on has a neighbor, until somebody becomes the entry point in its place (`severed_forever`).
-/

set_option autoImplicit false

namespace PagedGraph

namespace Insertion

variable {τ : Type} {t : Header} {s : Store}

theorem settle_neighbors (p : Params) (entry : Option EntryPoint) (d : Draft)
    (duplicate : Option Location) : (settle p entry d duplicate : Turns τ _).Yields fun i =>
      ∀ e prior cursor, i = .stored e prior cursor → e.neighbors = d.neighbors := by
  have hstore : (store p entry d : Turns τ _).Yields fun i =>
      ∀ e prior cursor, i = .stored e prior cursor → e.neighbors = d.neighbors := by
    refine Turns.Yields.bind fun st e prior cursor heq => ?_
    cases heq
    rfl
  cases duplicate with
  | none => exact hstore
  | some l =>
    refine Turns.Yields.bind fun joined => ?_
    cases joined with
    | true =>
      intro e prior cursor heq
      cases heq
    | false => exact hstore

theorem consult_searched (q : Params) (d : Draft) (own : τ) {x : EntryPoint} {e : Draft}
    {duplicate : Option Location} {y : Store × τ}
    (h : (consult (layerSearch τ q) d (some x)).run (s, own) = .ok (e, duplicate) y) :
    s.searchFrom q ⟨d.vector, d.level.toNat, none⟩ x = .ok e.neighbors := by
  obtain ⟨lists, y₁, hsearch, h⟩ := Turns.run_bind_inv h
  obtain ⟨found, y₂, -, h⟩ := Turns.run_bind_inv h
  cases h
  obtain ⟨s₁, hfound, -⟩ := Turns.run_act_inv hsearch
  rw [Action.reading] at hfound
  cases hres : s.searchFrom q ⟨d.vector, d.level.toNat, none⟩ x with
  | error c =>
    rw [hres] at hfound
    cases hfound
  | ok lists' =>
    rw [hres] at hfound
    cases hfound
    rfl

theorem place_searched (p q : Params) (d : Draft) (own : τ) {e : Draft} {prior : Option EntryPoint}
    {cursor : Option PageId} {y : Store × τ}
    (h : (place p (layerSearch τ q) d).run (s, own) = .ok (.stored e prior cursor) y) :
    (s.entry = none → e.neighbors = d.neighbors) ∧
      ∀ x, s.entry = some x →
        s.searchFrom q ⟨d.vector, d.level.toNat, none⟩ x = .ok e.neighbors := by
  rw [place] at h
  obtain ⟨entry, y₁, hread, h⟩ := Turns.run_bind_inv h
  obtain ⟨s₁, hentry, rfl⟩ := Turns.run_act_inv hread
  obtain ⟨rfl, rfl⟩ := EStateM.Result.ok.inj hentry
  obtain ⟨⟨d', duplicate⟩, y₂, hconsult, h⟩ := Turns.run_bind_inv h
  rw [(settle_neighbors p _ d' duplicate).run h e prior cursor rfl]
  cases hs : s.entry with
  | none =>
    rw [hs] at hconsult
    cases hconsult
    exact ⟨fun _ => rfl, fun x hx => absurd hx.symm (Option.some_ne_none x)⟩
  | some x =>
    rw [hs] at hconsult
    refine ⟨fun hnone => absurd hnone (Option.some_ne_none x), fun x' hx => ?_⟩
    obtain rfl := Option.some.inj hx
    exact consult_searched q d own hconsult

/-- An element has been stored with some candidates and connected: it has links to those of them that
fit, nobody but them has got links to it, and all other elements are as they were. -/
structure Linking (t : Header) (s s' : Store) (d : Draft) (lists : List (List Candidate))
    (l : Location) : Prop where
  intact : s'.Intact t
  element : ∃ e, s'.record? l = some (.element e) ∧ e.level = d.level ∧ e.deleted = false
  live : ∀ k, s.Live k → k ≠ l ∧ s'.Live k
  own : ∀ layer k, s'.Link t.m.toNat layer l k ↔ layer ≤ d.level.toNat ∧ k.isUsed = true ∧
    k ∈ ((lists.getD layer []).map Candidate.location).take (layerCapacity t.m.toNat layer)
  other : ∀ layer k, k ≠ l → (∀ c ∈ lists.getD layer [], c.location ≠ k) →
    ∀ j, s'.Link t.m.toNat layer k j ↔ s.Link t.m.toNat layer k j
  entry : s'.entry = if outranks d s.entry then some ⟨l, d.level⟩ else s.entry

/-- What an element that is stored means for the others: they keep what they have but for links that
give way to it, and each candidate that can take a link has one. -/
structure Meeting (t : Header) (s s' : Store) (d : Draft) (lists : List (List Candidate))
    (l : Location) : Prop extends Linking t s s' d lists l where
  puts : ∃ e, s.Puts s' l e ∧ e.level = d.level ∧ e.deleted = false
  back : ∀ layer k j, k ≠ l → s'.Link t.m.toNat layer k j → s.Link t.m.toNat layer k j ∨
    j = l ∧ layer ≤ d.level.toNat
  keeps : ∀ layer k, k ≠ l → (∃ j, s.Link t.m.toNat layer k j) → ∃ j, s'.Link t.m.toNat layer k j
  meets : ∀ layer, layer ≤ d.level.toNat → ∀ c ∈ lists.getD layer [], ∀ f,
    s.record? c.location = some (.element f) → f.deleted = false → layer ≤ f.level.toNat →
    ∃ j, s'.Link t.m.toNat layer c.location j

section
variable (h : s.Intact t) (p : Params) (hp : p.m = t.m.toNat) (hpos : 0 < t.m.toNat) (d : Draft)
  (own : τ) (hd : d.vector.length = t.dimensions.toNat)
include h hp hpos hd

theorem insertElement_linking (q : Params) (hq : q.m = t.m.toNat)
    (hlists : s.Linkable q.m d.neighbors) {l : Location}
    {s' : Store} {own' : τ}
    (hrun : insertElement p (layerSearch τ q) d (s, own) = .ok (.inserted l) (s', own'))
    (hb : s'.Numbered) : ∃ lists, Meeting t s s' d lists l ∧ s.AllLive lists ∧
      (s.entry = none → lists = d.neighbors) ∧
      ∀ x, s.entry = some x → s.searchFrom q ⟨d.vector, d.level.toNat, none⟩ x = .ok lists := by
  obtain ⟨r, s₁, hbegun, hplace⟩ := place_begun h p hp d hd own q hlists
  have hinsert : insertElement p (layerSearch τ q) d = (insertion p (layerSearch τ q) d).run := rfl
  rw [hinsert, insertion] at hrun
  cases hbegun with
  | failed e =>
    rw [Turns.run_bind_error hplace] at hrun
    cases hrun
  | joined k e place s₁ found live same free behind intact rewritten =>
    rw [Turns.run_bind_ok hplace] at hrun
    cases hrun
  | stored st lists s₁ linkable size placed =>
    rw [Turns.run_bind_ok hplace] at hrun
    have hnumbered : s₁.Numbered := by
      have hgrow := (grows_connect p q (.stored { d with
        neighbors := lists, location := st.location, neighborsAt := st.neighborsAt }
        s.entry st.cursor)).run s₁ own
      rw [ActionWith.after, hrun] at hgrow
      exact Nat.le_trans hgrow hb
    have hplaced := placed hnumbered
    have hputs := hplaced.put.puts h
    obtain ⟨hnone, hsearch⟩ := place_searched p q d own hplace
    have hprior := hplaced.entry
    rw [hq] at linkable
    obtain ⟨s₂, hconnect, hconnected⟩ := connect_run p own hp (layerSearch τ q) hplaced.intact
      { d with neighbors := lists, location := st.location, neighborsAt := st.neighborsAt }
      s.entry st.cursor hprior hplaced.cursor ⟨_, hplaced.element⟩ (hplaced.explored h linkable)
    have hgains := hconnected.gains
    obtain ⟨hl, hs⟩ := EStateM.Result.ok.inj (hrun.symm.trans hconnect)
    obtain rfl : l = st.location := Outcome.inserted.inj hl
    obtain ⟨rfl, -⟩ := Prod.mk.inj hs
    have helement := hconnected.element
    have hold : ∀ k, s.Live k → k ≠ st.location := by
      rintro k ⟨f, hf, hlive⟩ rfl
      rw [hplaced.put.free f hf] at hlive
      cases hlive
    refine ⟨lists, ⟨⟨hconnected.intact, ⟨_, (helement _ _).mpr hplaced.element, rfl, rfl⟩, ?_, ?_,
      ?_, ?_⟩, ⟨_, hputs.followed helement, rfl, rfl⟩, ?_, ?_, ?_⟩, linkable.live, hnone, hsearch⟩
    · intro k hk
      have hne := hold k hk
      obtain ⟨f, hf, hlive⟩ := hk
      exact ⟨hne, f, (helement k f).mpr ((hputs k f).mpr (by rw [if_neg hne]; exact hf)), hlive⟩
    · intro layer k
      rw [hgains.other fun hP => hP.2 rfl, hplaced.link h, if_pos rfl]
    · intro layer k hne hk j
      rw [hgains.other fun hP => hP.1.2.elim fun x hx => hk x hx.1 hx.2, hplaced.link h, if_neg hne]
    · have hlevel : ({ d with
          neighbors := lists, location := st.location, neighborsAt := st.neighborsAt } : Draft).level =
            d.level := rfl
      rw [hconnected.entry, hprior, outranks_congr hlevel]
    · intro layer k j hne hj
      refine (hgains.back hj).imp (fun hlink => ?_) fun hnew => ⟨hnew.1, hnew.2.1.1⟩
      rwa [hplaced.link h, if_neg hne] at hlink
    · rintro layer k hne ⟨j, hj⟩
      exact hgains.some ⟨j, by rwa [hplaced.link h, if_neg hne]⟩
    · intro layer hlayer c hc f hf hlive hlevel
      have hne := hold c.location ⟨f, hf, hlive⟩
      exact hconnected.meets hpos layer hlayer c hc f
        ((hputs _ f).mpr (by rw [if_neg hne]; exact hf)) hne hlive hlevel

end

end Insertion

def Store.Attached (s : Store) (m : Nat) (l : Location) : Prop :=
  ∃ e ls k f, s.element l = .ok e ∧ s.neighbors m e 0 = .ok ls ∧ k ∈ ls ∧ k ≠ l ∧
    s.element k = .ok f ∧ f.deleted = false

def Store.BeamHasLive (s : Store) (p : Params) (q : Query) : Prop :=
  ∃ x found c, s.entry = some x ∧ s.beamsFrom p q x = .ok found ∧ c ∈ found.getD 0 [] ∧
    s.Live c.location

namespace Insertion

section
variable {t : Header} {s s' : Store} {d : Draft} {lists : List (List Candidate)} {l : Location}
  (h : Linking t s s' d lists l) (hlive : s.AllLive lists)
include h hlive

theorem Linking.valid {layer : Nat} {k : Location} (hk : s'.Link t.m.toNat layer l k) :
    (∃ c ∈ lists.getD layer [], c.location = k) ∧ k ≠ l ∧ s'.Live k := by
  obtain ⟨-, -, hk⟩ := (h.own layer k).mp hk
  obtain ⟨c, hc, rfl⟩ := List.mem_map.mp (List.mem_of_mem_take hk)
  exact ⟨⟨c, hc, rfl⟩, h.live _ (hlive.layer layer c hc)⟩

theorem Linking.attached_iff (hpos : 0 < t.m.toNat) :
    s'.Attached t.m.toNat l ↔ ∃ c, c ∈ lists.getD 0 [] := by
  obtain ⟨e, he, -⟩ := h.element
  constructor
  · rintro ⟨f, ls, k, g, hf, hls, hk, -⟩
    obtain ⟨ls', hls', hiff⟩ := Store.neighbors_link h.intact t.m.toNat 0
      ((s'.element_eq_ok l f).mp hf)
    rw [hls] at hls'
    cases hls'
    obtain ⟨⟨c, hc, -⟩, -⟩ := h.valid hlive ((hiff k).mp hk)
    exact ⟨c, hc⟩
  · rintro ⟨c, hc⟩
    obtain ⟨k, hk⟩ : ∃ k, k ∈ ((lists.getD 0 []).map Candidate.location).take
        (layerCapacity t.m.toNat 0) := by
      apply List.exists_mem_of_length_pos
      rw [List.length_take, List.length_map]
      exact Nat.lt_min.mpr ⟨layerCapacity_pos hpos 0, List.length_pos_of_mem hc⟩
    obtain ⟨x, hx, hxk⟩ := List.mem_map.mp (List.mem_of_mem_take hk)
    obtain ⟨f, hf, -⟩ := (h.live _ (hlive.layer 0 x hx)).2
    rw [hxk] at hf
    have hlink : s'.Link t.m.toNat 0 l k :=
      (h.own 0 k).mpr ⟨Nat.zero_le _, bne_iff_ne.mpr (h.intact.page_ne hf), hk⟩
    obtain ⟨ls, hls, hiff⟩ := Store.neighbors_link h.intact t.m.toNat 0 he
    obtain ⟨-, hne, g, hg, hgl⟩ := h.valid hlive hlink
    exact ⟨e, ls, k, g, (s'.element_eq_ok l e).mpr he, hls, (hiff k).mpr hlink, hne,
      (s'.element_eq_ok k g).mpr hg, hgl⟩

end

end Insertion

namespace Index

variable {dimensions : UInt32} {o : Options} {ix : Index} {s : Store}

structure Attaching (ix : Index) (s s' : Store) (w : Embedding) (level : UInt8) (l : Location) :
    Prop where
  /-- It has one on layer 0 exactly if the search has come upon a live element there. -/
  attached : s'.Attached ix.params.m l ↔ s.BeamHasLive ix.searching ⟨w, level.toNat, none⟩
  /-- Whatever it has is valid. -/
  valid : ∀ layer e ls k, s'.element l = .ok e → s'.neighbors ix.params.m e layer = .ok ls → k ∈ ls →
    k ≠ l ∧ ∃ f, s'.element k = .ok f ∧ f.deleted = false
  /-- It has one if there were elements and none of them was deleted. -/
  undeleted : s.entry ≠ none → (∀ k e, s.element k = .ok e → e.deleted = false) →
    s'.Attached ix.params.m l
  /-- It has none if links from the entry point lead to deleted elements only. -/
  severed : ∀ (P : Location → Prop) (x : EntryPoint), s.entry = some x → P x.location →
    (∀ layer k j, P k → s.Link ix.params.m layer k j → P j) → (∀ k, P k → ¬s.Live k) →
    ¬s'.Attached ix.params.m l

theorem Settled.linking (h : Settled dimensions o ix s) {vector : Option Embedding} {row : RowId}
    {level : UInt8} {l : Location}
    (hanswer : (ix.insertAtLevel vector row level).answer s = .ok (.inserted l))
    (hb : ((ix.insertAtLevel vector row level).after s).Numbered) :
    ∃ v w lists, vector = some v ∧ ix.prepare v = some w ∧
      Insertion.Meeting (template dimensions o) s ((ix.insertAtLevel vector row level).after s)
        (Draft.new level w row) lists l ∧ s.AllLive lists ∧
      (s.entry = none → ∀ i, lists.getD i [] = []) ∧
      ∀ x, s.entry = some x →
        s.searchFrom ix.searching ⟨w, level.toNat, none⟩ x = .ok lists := by
  rcases ix.insertAtLevel_cases vector row level with
    hfail | ⟨reason, hskip⟩ | ⟨v, w, rfl, hlen, hprepare, hrun⟩
  · obtain ⟨e, he⟩ := hfail s
    rw [Action.answer, he] at hanswer
    cases hanswer
  · rw [Action.answer, hskip s] at hanswer
    cases hanswer
  · have hconstruction : ix.construction Unit = layerSearch Unit ix.searching := rfl
    rw [hconstruction] at hrun
    rw [hrun] at hanswer hb ⊢
    have hrun' : insertElement ix.params (layerSearch Unit ix.searching) (Draft.new level w row)
        (s, ()) = .ok (.inserted l)
          (((insertElement ix.params (layerSearch Unit ix.searching)
            (Draft.new level w row)).alone).after s, ()) := by
      rw [Action.answer, ActionWith.alone] at hanswer
      rw [Action.after, ActionWith.alone]
      cases hresult : insertElement ix.params (layerSearch Unit ix.searching)
          (Draft.new level w row) (s, ()) with
      | error e y =>
        rw [hresult] at hanswer
        cases hanswer
      | ok outcome y =>
        rw [hresult] at hanswer
        cases hanswer
        rfl
    have hwidth : w.length = (template dimensions o).dimensions.toNat := by
      rw [length_prepare hprepare, hlen, h.width]
      rfl
    obtain ⟨lists, hlinking, hlive, hnone, hsearch⟩ := Insertion.insertElement_linking h.intact
      ix.params h.m_eq (h.m_eq ▸ h.m_pos) (Draft.new level w row) () hwidth ix.searching h.m_eq
      (Store.linkable_nil _ _)
      hrun' hb
    refine ⟨v, w, lists, rfl, hprepare, hlinking, hlive, fun hs i => ?_, hsearch⟩
    rw [hnone hs]
    exact Draft.neighbors_new level w row i

section
variable (h : Settled dimensions o ix s) {q : Query}
include h

theorem Settled.beam_of_undeleted (hsome : s.entry ≠ none)
    (hundeleted : ∀ k e, s.element k = .ok e → e.deleted = false) :
    s.BeamHasLive ix.searching q := by
  have hlive : ∀ k e, s.record? k = some (.element e) → s.Live k :=
    fun k e he => ⟨e, he, hundeleted k e ((s.element_eq_ok k e).mpr he)⟩
  have hclosed : ∀ layer k j, s.Live k → s.Link ix.searching.m layer k j → s.Live j := by
    rintro layer k j - ⟨f, a, hf, ha, hj⟩
    obtain ⟨hused, i, -, hi⟩ := Adjacency.mem_layer.mp hj
    obtain ⟨g, hg⟩ := h.navigable.links _ a ha j (List.mem_of_getElem? hi) hused
    exact hlive j g hg
  cases hx : s.entry with
  | none => exact absurd hx hsome
  | some x =>
    obtain ⟨e, he, -⟩ := h.navigable.found x hx
    obtain ⟨lists, hsearch⟩ := Store.searchFrom_ok h.intact h.navigable.links ix.searching q he
    obtain ⟨found, hfound, -⟩ := Store.searchFrom_beams hsearch
    obtain ⟨hin, hnonempty⟩ := beamsFrom_holds (P := fun _ => s.Live) h.searching_pos hclosed
      (fun _ _ => id) (hlive _ e he) hfound 0
    obtain ⟨c, hc⟩ := hnonempty (Nat.zero_le _)
    exact ⟨x, found, c, hx, hfound, hc, hin c hc⟩

theorem Settled.beam_of_severed {P : Location → Prop} {x : EntryPoint} (hx : s.entry = some x)
    (hPx : P x.location) (hclosed : ∀ layer k j, P k → s.Link ix.params.m layer k j → P j)
    (hdead : ∀ k, P k → ¬s.Live k) : ¬s.BeamHasLive ix.searching q := by
  rintro ⟨x', found, c, hx', hfound, hc, hlive⟩
  obtain rfl := Option.some.inj (hx.symm.trans hx')
  obtain ⟨hin, -⟩ :=
    beamsFrom_holds (P := fun _ => P) h.searching_pos hclosed (fun _ _ => id) hPx hfound 0
  exact hdead _ (hin c hc) hlive

theorem Settled.chosen_iff {w : Embedding} {level : Nat} {lists : List (List Candidate)}
    (hlive : s.AllLive lists) (hnone : s.entry = none → ∀ i, lists.getD i [] = [])
    (hsearch : ∀ x, s.entry = some x → s.searchFrom ix.searching ⟨w, level, none⟩ x = .ok lists) :
    (∃ c, c ∈ lists.getD 0 []) ↔ s.BeamHasLive ix.searching ⟨w, level, none⟩ := by
  constructor
  · rintro ⟨c, hc⟩
    cases hx : s.entry with
    | none =>
      rw [hnone hx] at hc
      cases hc
    | some x =>
      obtain ⟨found, hfound, -, hchosen⟩ := Store.searchFrom_beams (hsearch x hx)
      refine ⟨x, found, c, hx, hfound, ?_, hlive.layer 0 c hc⟩
      rw [hchosen 0 (Nat.zero_le _)] at hc
      exact Store.mem_of_choose hc
  · rintro ⟨x, found, c, hx, hfound, hc, hclive⟩
    obtain ⟨found', hfound', -, hchosen⟩ := Store.searchFrom_beams (hsearch x hx)
    obtain rfl := Except.ok.inj (hfound.symm.trans hfound')
    rw [hchosen 0 (Nat.zero_le _)]
    exact Store.choose_some h.searching_pos hc hclive fun heq => by cases heq

end

/-- Whatever one user has done with an index that was opened on a blank file: a new element has a
neighbor on layer 0 exactly if the search has come upon a live element there. -/
theorem attaching_of_history (h : History dimensions o ix s) {vector : Option Embedding}
    {row : RowId} {level : UInt8} {l : Location}
    (hanswer : (ix.insertAtLevel vector row level).answer s = .ok (.inserted l))
    (hb : ((ix.insertAtLevel vector row level).after s).Numbered) :
    ∃ v w, vector = some v ∧ ix.prepare v = some w ∧
      Attaching ix s ((ix.insertAtLevel vector row level).after s) w level l := by
  obtain ⟨o', -, -, hsettled⟩ := h.settled
  obtain ⟨v, w, lists, hv, hprepare, hlinking, hlive, hnone, hsearch⟩ :=
    hsettled.linking hanswer hb
  refine ⟨v, w, hv, hprepare, ?_⟩
  generalize (ix.insertAtLevel vector row level).after s = s' at hlinking
  have hm := hsettled.m_eq
  have hattached : s'.Attached ix.params.m l ↔
      s.BeamHasLive ix.searching ⟨w, level.toNat, none⟩ := by
    rw [hm, hlinking.attached_iff hlive (by rw [← hm]; exact hsettled.m_pos)]
    exact hsettled.chosen_iff hlive hnone hsearch
  constructor
  · exact hattached
  · intro layer e ls k he hls hk
    rw [hm] at hls
    obtain ⟨ls', hls', hiff⟩ := Store.neighbors_link hlinking.intact
      (template dimensions o').m.toNat layer ((s'.element_eq_ok l e).mp he)
    obtain rfl := Except.ok.inj (hls.symm.trans hls')
    obtain ⟨-, hne, f, hf, hflive⟩ := hlinking.valid hlive ((hiff k).mp hk)
    exact ⟨hne, f, (s'.element_eq_ok k f).mpr hf, hflive⟩
  · exact fun hsome hundeleted => hattached.mpr (hsettled.beam_of_undeleted hsome hundeleted)
  · intro P x hx hPx hclosed hdead hatt
    exact hsettled.beam_of_severed hx hPx hclosed hdead (hattached.mp hatt)

theorem attaching_second : ∃ s s', s.element ⟨1, 0⟩ = .ok first ∧
    insertAtLevel wide (some (plain 1)) 8 2 s = .ok (.inserted ⟨1, 2⟩) s' ∧
    Attaching wide s s' (plain 1) 2 ⟨1, 2⟩ ∧ s'.Attached 16 ⟨1, 2⟩ := by
  obtain ⟨s, hfirst, hrun⟩ := first_stored
  obtain ⟨s', hboth, hrun'⟩ := hfirst.second_stored
  have hnumbered := numbered_two hboth.size
  have hinsert := insert_wide (by decide) (by decide) hrun'
  have hafter := Action.after_ok hinsert
  have hanswer : (insertAtLevel wide (some (plain 1)) 8 2).answer s = .ok (.inserted ⟨1, 2⟩) := by
    rw [Action.answer, hinsert]
  obtain ⟨v, w, hv, hw, hattaching⟩ := attaching_of_history
    (history_wide.stored (insert_wide (by decide) (by decide) hrun) (numbered_two hfirst.size))
    hanswer (by rwa [hafter])
  rw [hafter] at hattaching
  cases hv
  obtain rfl : plain 1 = w := Option.some.inj ((if_neg (by decide)).symm.trans hw)
  refine ⟨s, s', (s.element_eq_ok _ _).mpr ((hfirst.elements _ _).mpr ⟨rfl, rfl⟩), hinsert, hattaching,
    hattaching.undeleted ?_ fun k e he => ?_⟩
  · rw [hfirst.entry]
    exact Option.some_ne_none _
  · obtain ⟨-, rfl⟩ := (hfirst.elements k e).mp ((s.element_eq_ok k e).mp he)
    rfl

end Index

/-- The entry point is deleted and has no links. -/
structure Store.Severed (m : Nat) (s : Store) (x : EntryPoint) : Prop where
  entry : s.entry = some x
  deleted : ∃ e, s.record? x.location = some (.element e) ∧ e.deleted = true
  alone : ∀ layer k, ¬s.Link m layer x.location k

section
variable {t : Header} {m : Nat} {s s' : Store} {x : EntryPoint}

theorem Store.Severed.dead (h : s.Severed m x) : ¬s.Live x.location := by
  rintro ⟨f, hf, hlive⟩
  obtain ⟨e, he, hdeleted⟩ := h.deleted
  rw [he] at hf
  cases hf
  rw [hlive] at hdeleted
  cases hdeleted

theorem Store.Severed.rewritten (h : s.Severed m x) {l : Location} {e e' : Element}
    (hrew : s.Rewritten s' l (.element e')) (he : s.record? l = some (.element e))
    (hlive : e.deleted = false) : s'.Severed m x := by
  have hne : x.location ≠ l := fun heq => h.dead ⟨e, heq ▸ he, hlive⟩
  have hsame : ∀ f, s'.record? x.location = some (.element f) ↔
      s.record? x.location = some (.element f) := by
    intro f
    rw [hrew.puts, if_neg hne]
  obtain ⟨f, hf, hdeleted⟩ := h.deleted
  refine ⟨hrew.entry.trans h.entry, ⟨f, (hsame f).mpr hf, hdeleted⟩, ?_⟩
  rintro layer k ⟨g, a, hg, ha, hk⟩
  exact h.alone layer k ⟨g, a, (hsame g).mp hg, hrew.adjacency ha, hk⟩

end

namespace Index

variable {dimensions : UInt32} {o : Options} {ix : Index} {s s' : Store} {x : EntryPoint}

inductive Calls (ix : Index) (top : UInt8) (s : Store) : Store → Prop where
  | none : Calls ix top s s
  | insert {s' : Store} (past : Calls ix top s s') (vector : Option Embedding) (row : RowId)
      (level : UInt8) (low : level ≤ top)
      (numbered : ((ix.insertAtLevel vector row level).after s').Numbered) :
      Calls ix top s ((ix.insertAtLevel vector row level).after s')
  | delete {s' : Store} (past : Calls ix top s s') (l : Location) :
      Calls ix top s ((markDeleted l).after s')

theorem Calls.history {top : UInt8} (hcalls : Calls ix top s s') (h : History dimensions o ix s) :
    History dimensions o ix s' := by
  induction hcalls with
  | none => exact h
  | insert past vector row level low numbered ih => exact ih.insert vector row level numbered
  | delete past l ih => exact ih.delete l

theorem severed_delete (h : Settled dimensions o ix s) (hs : s.Severed ix.params.m x)
    (l : Location) : ((markDeleted l).after s).Severed ix.params.m x := by
  rcases markDeleted_after h.intact l with hsame | ⟨e, he, hlive, -, hrew⟩
  · rw [hsame]
    exact hs
  · exact hs.rewritten hrew he hlive

theorem severed_insert (h : Settled dimensions o ix s) (hs : s.Severed ix.params.m x)
    (vector : Option Embedding) (row : RowId) {level : UInt8} (hlevel : level ≤ x.level)
    (hb : ((ix.insertAtLevel vector row level).after s).Numbered) :
    ((ix.insertAtLevel vector row level).after s).Severed ix.params.m x := by
  rcases insertAtLevel_effect h.intact ix h.m_eq h.width vector row level hb with
    ⟨hsame, -⟩ | ⟨v, w, -, -, heffect⟩
  · rw [hsame]
    exact hs
  · generalize hanswer : (ix.insertAtLevel vector row level).answer s = r at heffect
    generalize hafter : (ix.insertAtLevel vector row level).after s = s' at heffect
    cases heffect with
    | failed e => exact hs
    | joined l e place s' found live same free behind intact rewritten =>
      exact hs.rewritten rewritten found live
    | stored st lists s₁ s' linkable placed connected =>
      have hputs := (placed.put.puts h.intact).followed connected.element
      have hapart := Insertion.placed_apart h.navigable hs.entry placed
      obtain ⟨-, w', chosen, -, -, hlinking, hlive, -⟩ := h.linking hanswer hb
      rw [hafter] at hlinking
      obtain ⟨e, he, hdeleted⟩ := hs.deleted
      refine ⟨?_, ⟨e, (hputs _ e).mpr (by rw [if_neg hapart.symm]; exact he), hdeleted⟩, ?_⟩
      · have hlow : ¬x.level < (Draft.new level w' row).level := UInt8.not_lt.mpr hlevel
        rw [hlinking.entry, hs.entry, Insertion.outranks, decide_eq_false hlow]
        rfl
      · intro layer k
        rw [h.m_eq, hlinking.other layer _ hapart.symm fun c hc heq =>
          hs.dead (heq ▸ hlive.layer layer c hc), ← h.m_eq]
        exact hs.alone layer k

/-- Once the entry point is deleted and has no links, no element that is stored from then on has a
neighbor, whatever the user does, until he asks for a higher level. -/
theorem severed_forever (h : History dimensions o ix s) (hs : s.Severed ix.params.m x)
    (hcalls : Calls ix x.level s s') {vector : Option Embedding} {row : RowId} {level : UInt8}
    {l : Location} (hanswer : (ix.insertAtLevel vector row level).answer s' = .ok (.inserted l))
    (hb : ((ix.insertAtLevel vector row level).after s').Numbered) :
    ¬((ix.insertAtLevel vector row level).after s').Attached ix.params.m l := by
  have hsevered : s'.Severed ix.params.m x := by
    clear hanswer hb
    induction hcalls with
    | none => exact hs
    | insert past vector row level low numbered ih =>
      obtain ⟨o', -, -, hsettled⟩ := (past.history h).settled
      exact severed_insert hsettled ih vector row low numbered
    | delete past l ih =>
      obtain ⟨o', -, -, hsettled⟩ := (past.history h).settled
      exact severed_delete hsettled ih l
  obtain ⟨v, w, -, -, hattaching⟩ := attaching_of_history (hcalls.history h) hanswer hb
  refine hattaching.severed (· = x.location) x hsevered.entry rfl ?_ ?_
  · rintro layer k j rfl hk
    exact absurd hk (hsevered.alone layer j)
  · rintro k rfl
    exact hsevered.dead

theorem severed_of_only (h : History dimensions o ix s) (hempty : s.entry = none)
    {vector : Option Embedding} {row : RowId} {level : UInt8} {l : Location}
    (hanswer : (ix.insertAtLevel vector row level).answer s = .ok (.inserted l))
    (hb : ((ix.insertAtLevel vector row level).after s).Numbered) :
    ((markDeleted l).after ((ix.insertAtLevel vector row level).after s)).Severed ix.params.m
      ⟨l, level⟩ := by
  obtain ⟨o', -, -, hsettled⟩ := h.settled
  obtain ⟨v, w, lists, -, -, hlinking, -, hnone, -⟩ := hsettled.linking hanswer hb
  generalize (ix.insertAtLevel vector row level).after s = s₁ at hlinking
  obtain ⟨e, he, -, hlive⟩ := hlinking.element
  obtain ⟨s₂, hrun, -, hrew⟩ := markDeleted_live hlinking.intact l e he hlive
  rw [Action.after_ok hrun]
  have hsame := (hrew.puts l e.tombstone).mpr (by rw [if_pos rfl])
  refine ⟨?_, ⟨_, hsame, rfl⟩, ?_⟩
  · rw [hrew.entry, hlinking.entry, hempty]
    rfl
  · rintro layer k ⟨f, a, hf, ha, hk⟩
    -- The tombstone has the links of the element, which was stored when there were no candidates.
    rw [hsame] at hf
    cases hf
    have hlink : s₁.Link (template dimensions o').m.toNat layer l k :=
      ⟨e, a, he, hrew.adjacency ha, by rw [← hsettled.m_eq]; exact hk⟩
    obtain ⟨-, -, hmem⟩ := (hlinking.own layer k).mp hlink
    rw [hnone hempty, List.map_nil, List.take_nil] at hmem
    cases hmem

end Index

end PagedGraph
