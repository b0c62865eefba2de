import PagedGraph.Graph.Insertion
import PagedGraph.Proofs.Beams
import PagedGraph.Proofs.PairWrites
import PagedGraph.Proofs.Turns
import PagedGraph.Proofs.Updates

/-!
# A complete insertion

What an insertion does to the elements of an intact store when it searches the graph itself and
takes its turns without a break. Either it fails and nothing has changed, or a row has joined a live
element with the same vector, or a new element lies where there was none or a deleted one
(`insertElement_cases`). All other elements stay as they are.

The failures all come before the commit of the new pair. After it the neighbors are still live, so
their records are there, and so is all that they have links to, since the search has looked at it; and
the entry point is still the one that the search started from.
-/

set_option autoImplicit false

namespace PagedGraph

namespace Store

/-- The elements of `s'` are those of `s`, but for the one at `l`. -/
def Puts (s s' : Store) (l : Location) (e : Element) : Prop :=
  ∀ k f, s'.record? k = some (.element f) ↔
    if k = l then f = e else s.record? k = some (.element f)

variable {t : Header} {s s' : Store}

theorem Rewritten.puts {l : Location} {e : Element} (h : Rewritten s s' l (.element e)) :
    s.Puts s' l e := by
  intro k f
  rw [h.record]
  by_cases hk : k = l
  · subst hk
    rw [putRecord_self, if_pos rfl]
    constructor
    · intro heq
      cases heq
      rfl
    · intro heq
      rw [heq]
  · rw [putRecord_of_ne _ _ hk, if_neg hk]

theorem Puts.followed {s₁ : Store} {l : Location} {e : Element} (h : s.Puts s₁ l e)
    (hkept : ∀ k f, s'.record? k = some (.element f) ↔ s₁.record? k = some (.element f)) :
    s.Puts s' l e := by
  intro k f
  rw [hkept, h k f]

theorem Puts.element {l k : Location} {e f : Element} (h : s.Puts s' l e)
    (hf : s.record? k = some (.element f)) : ∃ g, s'.record? k = some (.element g) := by
  by_cases hk : k = l
  · exact ⟨e, (h k e).mpr (by rw [if_pos hk])⟩
  · exact ⟨f, (h k f).mpr (by rw [if_neg hk]; exact hf)⟩

structure Linkable (s : Store) (m : Nat) (lists : List (List Candidate)) : Prop where
  live : s.AllLive lists
  explored : ∀ i, s.Explored m i (lists.getD i [])

theorem linkable_nil (m n : Nat) : s.Linkable m (List.replicate n []) where
  live := allLive_nil n
  explored := by
    intro i c hc
    rw [List.getD_eq_getElem?_getD, List.getElem?_replicate] at hc
    split at hc <;> cases hc

end Store

theorem PairPut.puts {t : Header} {s s' : Store} {l k : Location} {e : Element}
    {a : Adjacency} (h : s.Intact t)
    (hput : PairPut s s' l k e a) : s.Puts s' l e := by
  have hk : ∀ f, s.record? k ≠ some (.element f) := by
    intro f hf
    rcases hput.old with ⟨-, hnone⟩ | ⟨g, hg, -, hat, -⟩
    · rw [hnone] at hf
      cases hf
    · obtain ⟨b, hb, -⟩ := h.paired.resolves l g hg
      rw [hat, hf] at hb
      cases hb
  intro i f
  rw [hput.record]
  by_cases hi : i = l
  · subst hi
    rw [putRecord_self, if_pos rfl]
    constructor
    · intro heq
      cases heq
      rfl
    · intro heq
      rw [heq]
  · rw [putRecord_of_ne _ _ hi, if_neg hi]
    by_cases hik : i = k
    · subst hik
      rw [putRecord_self]
      constructor
      · intro heq
        cases heq
      · intro hf
        exact absurd hf (hk f)
    · rw [putRecord_of_ne _ _ hik]

theorem PairPut.free {s s' : Store} {l k : Location} {e : Element} {a : Adjacency}
    (hput : PairPut s s' l k e a) (f : Element) (hf : s.record? l = some (.element f)) :
    f.deleted = true := by
  rcases hput.old with ⟨hnone, -⟩ | ⟨g, hg, hdel, -⟩
  · rw [hnone] at hf
    cases hf
  · rw [hg] at hf
    cases hf
    exact hdel

theorem Store.Formed.page_ne {t : Header} {s : Store} (h : s.Formed t) {l : Location} {r : Record}
    (hr : s.record? l = some r) : l.page ≠ noPage := by
  obtain ⟨p, -, -, hp, -⟩ := h.page_of_record l r hr
  have hlt := (Array.getElem?_eq_some_iff.mp hp).1
  have hbound := h.bounded
  intro heq
  have hno : noPage.toNat = 4294967295 := rfl
  rw [heq, hno] at hlt
  omega

theorem Placed.entry {t : Header} {s s' : Store} {d : Draft} {st : Stored}
    (h : Placed t s s' d st) : s'.entry = s.entry := by
  rw [Store.entry, Store.entry, h.put.header]

theorem Placed.element {t : Header} {s s' : Store} {d : Draft} {st : Stored}
    (h : Placed t s s' d st) :
    s'.record? st.location = some (.element { d.element with neighborsAt := st.neighborsAt }) := by
  rw [h.put.record, putRecord_self]

theorem Placed.adjacency {t : Header} {s s' : Store} {d : Draft} {st : Stored}
    (h : Placed t s s' d st) :
    s'.record? st.neighborsAt = some (.adjacency (d.adjacency t.m.toNat)) := by
  rw [h.put.record, putRecord_of_ne _ _ h.put.ne.symm, putRecord_self]

theorem Placed.others {t : Header} {s s' : Store} {d : Draft} {st : Stored}
    (hplaced : Placed t s s' d st) {l : Location} {e : Element} (hl : l ≠ st.location)
    (he : s'.record? l = some (.element e)) :
    s'.record? e.neighborsAt = s.record? e.neighborsAt := by
  have hat : e.neighborsAt ≠ st.neighborsAt := fun heq =>
    hl (hplaced.intact.paired.apart l st.location e _ he hplaced.element heq)
  have hne : e.neighborsAt ≠ st.location := by
    intro heq
    obtain ⟨b, hb, -⟩ := hplaced.intact.paired.resolves l e he
    rw [heq, hplaced.element] at hb
    cases hb
  rw [hplaced.put.record, putRecord_of_ne _ _ hne, putRecord_of_ne _ _ hat]

theorem Placed.link_other {t : Header} {s s' : Store} {d : Draft} {st : Stored} (h : s.Intact t)
    (hplaced : Placed t s s' d st) {layer : Nat} {l k : Location} (hl : l ≠ st.location) :
    s'.Link t.m.toNat layer l k ↔ s.Link t.m.toNat layer l k := by
  have hputs := hplaced.put.puts h
  refine exists_congr fun e => exists_congr fun a => ?_
  rw [hputs l e, if_neg hl]
  refine and_congr_right fun he => ?_
  rw [hplaced.others hl ((hputs l e).mpr (by rw [if_neg hl]; exact he))]

/-- A draft takes no live element's place, so its candidates are as they were. -/
theorem Placed.explored {t : Header} {s s' : Store} {d : Draft} {st : Stored} (h : s.Intact t)
    (hplaced : Placed t s s' d st) {lists : List (List Candidate)}
    (hlists : s.Linkable t.m.toNat lists) (i : Nat) :
    s'.Explored t.m.toNat i (lists.getD i []) := by
  have hputs := hplaced.put.puts h
  intro c hc
  obtain ⟨⟨e, he⟩, hlinks⟩ := hlists.explored i c hc
  have hne : c.location ≠ st.location := by
    obtain ⟨f, hf, hlive⟩ := hlists.live.layer i c hc
    intro heq
    rw [heq] at hf
    rw [hplaced.put.free f hf] at hlive
    cases hlive
  refine ⟨hputs.element he, fun k hk => ?_⟩
  obtain ⟨f, hf⟩ := hlinks k ((hplaced.link_other h hne).mp hk)
  exact hputs.element hf

namespace Insertion

variable {τ : Type} {t : Header} (p : Params) (own : τ)

theorem tryPromote_run {s : Store} (h : s.Intact t) (d : Draft) (prior : Option EntryPoint)
    (hprior : s.entry = prior) (hpage : d.location.page ≠ noPage) :
    ∃ s', (tryPromote d prior).run (s, own) = .ok none (s', own) ∧ s'.Intact t ∧
      s'.record? = s.record? ∧
      s'.entry = if outranks d prior then some ⟨d.location, d.level⟩ else prior := by
  rw [tryPromote]
  by_cases hrank : outranks d prior = true
  · obtain ⟨a, s', hrun, hend⟩ := promote_cases h ⟨d.location, d.level⟩ prior hpage
    rw [if_pos hrank, if_pos hrank, Turns.run_bind_ok (Turns.run_act_ok hrun own)]
    cases hend with
    | installed s' intact record size entry above => exact ⟨s', rfl, intact, record, entry⟩
    | superseded current found high =>
      rw [← hprior, found, outranks, decide_eq_true_iff] at hrank
      exact absurd high (UInt8.not_le.mpr hrank)
    | raced current found first =>
      rw [hprior, first] at found
      cases found
  · rw [if_neg hrank, if_neg hrank]
    exact ⟨s, rfl, h, rfl, hprior⟩

/-- A stored element has been connected: all elements are as they were, links lead where they led or
to the new element, every candidate that can take a link on its layer has one, and the element is the
entry point if it stands above the one before. -/
structure Connected (t : Header) (s s' : Store) (d : Draft) : Prop where
  intact : s'.Intact t
  element : ∀ k f, s'.record? k = some (.element f) ↔ s.record? k = some (.element f)
  linked : s.Linked s' d.location
  gains : Store.Gains t.m.toNat d.location (fun layer k => (layer ≤ d.level.toNat ∧
    ∃ x ∈ d.neighbors.getD layer [], x.location = k) ∧ k ≠ d.location) s s'
  meets : 0 < t.m.toNat → ∀ layer, layer ≤ d.level.toNat → ∀ x ∈ d.neighbors.getD layer [], ∀ f,
    s.record? x.location = some (.element f) → x.location ≠ d.location → f.deleted = false →
    layer ≤ f.level.toNat → ∃ j, s'.Link t.m.toNat layer x.location j
  entry : s'.entry = if outranks d s.entry then some ⟨d.location, d.level⟩ else s.entry

theorem Connected.entry_cases {t : Header} {s s' : Store} {d : Draft} (h : Connected t s s' d) :
    s'.entry = s.entry ∨ s'.entry = some ⟨d.location, d.level⟩ ∧
      ∀ x, s.entry = some x → x.level < d.level := by
  have hentry := h.entry
  by_cases hrank : outranks d s.entry = true
  · rw [if_pos hrank] at hentry
    refine .inr ⟨hentry, fun x hx => ?_⟩
    rwa [hx, outranks, decide_eq_true_iff] at hrank
  · rw [if_neg hrank] at hentry
    exact .inl hentry

theorem publish_moved {s : Store} (h : s.Intact t) (d : Draft) (prior : Option EntryPoint)
    (cursor : Option PageId)
    (hcursor : ∀ id, cursor = some id → 0 < id.toNat ∧ id.toNat < s.pages.size) :
    ∃ s₁, Store.Kept t s s₁ ∧ s₁.record? = s.record? ∧
      (publish p d prior cursor).run (s, own) =
        (linkNeighbors p d >>= fun _ => tryPromote d prior : Turns τ _).run (s₁, own) := by
  cases cursor with
  | none => exact ⟨s, .refl h, rfl, rfl⟩
  | some id =>
    obtain ⟨hpos, hlt⟩ := hcursor id rfl
    obtain ⟨s₁, hmove, hkept, hrecord, -⟩ := moveCursor_kept h id hpos hlt
    exact ⟨s₁, hkept, hrecord, Turns.run_bind_ok (Turns.run_act_ok hmove own)⟩

theorem connect_run (hm : p.m = t.m.toNat) (c : Construction τ) {s : Store} (h : s.Intact t)
    (d : Draft) (prior : Option EntryPoint) (cursor : Option PageId) (hprior : s.entry = prior)
    (hcursor : ∀ id, cursor = some id → 0 < id.toNat ∧ id.toNat < s.pages.size)
    (hown : ∃ e, s.record? d.location = some (.element e))
    (hlinks : ∀ i, s.Explored t.m.toNat i (d.neighbors.getD i [])) :
    ∃ s', (connect p c (.stored d prior cursor)).run (s, own) =
        .ok (.inserted d.location) (s', own) ∧ Connected t s s' d := by
  have hpage : d.location.page ≠ noPage := by
    obtain ⟨e, he⟩ := hown
    exact h.page_ne he
  obtain ⟨s₁, hkept, hrecord, hpublish⟩ := publish_moved p own h d prior cursor hcursor
  obtain ⟨s₂, hlink, hkept', hlinked, hgains, hmeets⟩ :=
    linkFrom_gains p hm d (bne_iff_ne.mpr hpage) own d.level.toNat s₁ hkept.intact
      (by rw [hrecord]; exact hown) fun i _ => by rw [hm]; exact (hlinks i).of_record hrecord
  obtain ⟨s₃, hpromote, hintact, hrecord', hentry⟩ := tryPromote_run own hkept'.intact d prior
    (by rw [(hkept.trans hkept').entry, hprior]) hpage
  rw [hm] at hgains hmeets
  refine ⟨s₃, ?_, hintact, fun k f => ?_, ?_, ?_, fun hpos layer hlayer x hx f hf hne hlive hlevel => ?_,
    by rw [hentry, hprior]⟩
  · rw [connect, Turns.run_bind_ok (hpublish.trans ((Turns.run_bind_ok hlink).trans hpromote))]
    rfl
  · rw [hrecord', (hkept.trans hkept').element]
  · exact ((Store.Linked.of_record hrecord _).trans hlinked).trans (.of_record hrecord' _)
  · exact ((Store.Gains.of_record hrecord).trans hgains).trans (.of_record hrecord')
  · rw [← hrecord] at hf
    obtain ⟨j, hj⟩ := hmeets hpos layer hlayer x hx f hf hne hlive hlevel
    exact ⟨j, by rwa [Store.Link, hrecord']⟩

/-! The turns after the commit write one page each, so the file is no smaller afterwards. -/

theorem grows_linkNeighbors (d : Draft) : (linkNeighbors p d : Turns τ Unit).Grows := by
  have hcandidate : ∀ (layer : Nat) (l : Location), (linkCandidate p d layer l : Turns τ _).Grows := by
    intro layer l
    rw [linkCandidate]
    by_cases hself : l = d.location
    · rw [if_pos hself]
      exact trivial
    · rw [if_neg hself]
      apply (Turns.grows_reading _).bind
      intro found
      cases found with
      | none => exact trivial
      | some c => exact Turns.grows_editPage _ _
  have heach : ∀ (layer : Nat) (cs : List Candidate), (linkEach p d layer cs : Turns τ _).Grows := by
    intro layer cs
    induction cs with
    | nil => exact trivial
    | cons c rest ih => exact (hcandidate layer c.location).bind fun _ => ih
  rw [linkNeighbors]
  induction d.level.toNat with
  | zero => exact heach 0 _
  | succ layer ih => exact (heach (layer + 1) _).bind fun _ => ih

theorem grows_tryPromote (d : Draft) (prior : Option EntryPoint) :
    (tryPromote d prior : Turns τ _).Grows := by
  rw [tryPromote]
  by_cases hrank : outranks d prior = true
  · rw [if_pos hrank]
    apply (Turns.grows_editPage _ _).bind
    intro a
    cases a with
    | installed => exact trivial
    | superseded => exact trivial
    | raced rival => exact trivial
  · rw [if_neg hrank]
    exact trivial

theorem grows_connect (q : Params) (i : Insertion) : (connect p (layerSearch τ q) i).Grows := by
  cases i with
  | joined l => exact trivial
  | stored d prior cursor =>
    have hrest : (linkNeighbors p d >>= fun _ => tryPromote d prior : Turns τ _).Grows :=
      (grows_linkNeighbors p d).bind fun _ => grows_tryPromote d prior
    have hpublish : (publish p d prior cursor : Turns τ _).Grows := by
      cases cursor with
      | none => exact hrest
      | some id => exact (Turns.grows_editPage _ _).bind fun _ => hrest
    apply hpublish.bind
    intro found
    cases found with
    | none => exact trivial
    | some rival =>
      apply (Turns.grows_reading _).bind
      intro fresh
      apply Turns.Grows.bind
      · apply (Turns.grows_editPage _ _).bind
        intro e
        exact (grows_linkNeighbors p e).bind fun _ => (grows_tryPromote e _).bind fun _ => trivial
      · intro _
        exact trivial

end Insertion

def Turns.ended {τ α : Type} (own : τ) (r : Except Error α) (s : Store) :
    EStateM.Result Error (Store × τ) α :=
  match r with
  | .ok a => .ok a (s, own)
  | .error e => .error e (s, own)

namespace Insertion

inductive Begun (t : Header) (m : Nat) (s : Store) (d : Draft) :
    Except Error Insertion → Store → Prop where
  | failed (e : Error) : Begun t m s d (.error e) s
  | joined (l : Location) (e : Element) (place : Nat) (s' : Store)
      (found : s.record? l = some (.element e)) (live : e.deleted = false)
      (same : e.vector = d.vector) (free : e.firstFreeRow = some place) (behind : place ≠ 0)
      (intact : s'.Intact t) (rewritten : s.Rewritten s' l (.element (e.withRow place d.row))) :
      Begun t m s d (.ok (.joined l)) s'
  | stored (st : Stored) (lists : List (List Candidate)) (s' : Store)
      (linkable : s.Linkable m lists) (size : s.pages.size ≤ s'.pages.size)
      (placed : s'.Numbered → Placed t s s' { d with neighbors := lists } st) :
      Begun t m s d (.ok (.stored { d with
        neighbors := lists, location := st.location, neighborsAt := st.neighborsAt }
        s.entry st.cursor)) s'

/-- What a complete insertion can do to an intact store. -/
inductive Effect (t : Header) (s : Store) (d : Draft) : Except Error Outcome → Store → Prop where
  | failed (e : Error) : Effect t s d (.error e) s
  | joined (l : Location) (e : Element) (place : Nat) (s' : Store)
      (found : s.record? l = some (.element e)) (live : e.deleted = false)
      (same : e.vector = d.vector) (free : e.firstFreeRow = some place) (behind : place ≠ 0)
      (intact : s'.Intact t) (rewritten : s.Rewritten s' l (.element (e.withRow place d.row))) :
      Effect t s d (.ok (.coalesced l)) s'
  | stored (st : Stored) (lists : List (List Candidate)) (s₁ s' : Store)
      (linkable : s.Linkable t.m.toNat lists) (placed : Placed t s s₁ { d with neighbors := lists } st)
      (connected : Connected t s₁ s' { d with
        neighbors := lists, location := st.location, neighborsAt := st.neighborsAt }) :
      Effect t s d (.ok (.inserted st.location)) s'

theorem consult_run {τ : Type} (q : Params) (d : Draft) (s : Store) (own : τ)
    (hlists : s.Linkable q.m d.neighbors) (entry : Option EntryPoint) :
    (∃ e, (consult (layerSearch τ q) d entry).run (s, own) = .error e (s, own)) ∨
    ∃ lists duplicate, (consult (layerSearch τ q) d entry).run (s, own) =
        .ok ({ d with neighbors := lists }, duplicate) (s, own) ∧ s.Linkable q.m lists ∧
      ∀ l, duplicate = some l →
        ∃ e, s.record? l = some (.element e) ∧ e.deleted = false ∧ e.vector = d.vector := by
  have hreading : ∀ {α : Type} (f : Store → Except Error α),
      (∃ e, f s = .error e ∧ Action.reading f s = .error e s) ∨
        ∃ a, f s = .ok a ∧ Action.reading f s = .ok a s := by
    intro α f
    cases hf : f s with
    | error e => exact .inl ⟨e, rfl, by rw [Action.reading, hf]⟩
    | ok a => exact .inr ⟨a, rfl, by rw [Action.reading, hf]⟩
  cases entry with
  | none => exact .inr ⟨d.neighbors, none, rfl, hlists, by intro l hl; cases hl⟩
  | some entry =>
    have hconsult : consult (layerSearch τ q) d (some entry) = (do
        let lists ← Turns.act (Action.reading fun s =>
          s.searchFrom q ⟨d.vector, d.level.toNat, none⟩ entry)
        let duplicate ← Turns.act (Action.reading fun s => s.findDuplicate d.vector lists)
        return ({ d with neighbors := lists }, duplicate)) := rfl
    rw [hconsult]
    rcases hreading fun s => s.searchFrom q ⟨d.vector, d.level.toNat, none⟩ entry with
      ⟨e, -, hfail⟩ | ⟨lists, hsearch, hfound⟩
    · exact .inl ⟨e, Turns.run_bind_error (Turns.run_act_error hfail own)⟩
    · rw [Turns.run_bind_ok (Turns.run_act_ok hfound own)]
      rcases hreading fun s => s.findDuplicate d.vector lists with
        ⟨e, -, hfail⟩ | ⟨duplicate, hequal, hdone⟩
      · exact .inl ⟨e, Turns.run_bind_error (Turns.run_act_error hfail own)⟩
      · refine .inr ⟨lists, duplicate, Turns.run_bind_ok (Turns.run_act_ok hdone own),
          ⟨Store.searchFrom_live q _ entry lists hsearch, Store.searchFrom_explored hsearch⟩, ?_⟩
        intro l hl
        rw [hl] at hequal
        exact Store.findDuplicate_some d.vector l lists hequal

theorem store_run {τ : Type} {t : Header} (p : Params) (hp : p.m = t.m.toNat) (own : τ)
    (prior : Option EntryPoint) {s s₁ : Store} {d : Draft} {st : Stored}
    (hroom : storePair d t.m.toNat s = .ok st s₁) : (store p prior d).run (s, own) =
      .ok (.stored { d with location := st.location, neighborsAt := st.neighborsAt } prior st.cursor)
        (s₁, own) := by
  rw [← hp] at hroom
  exact Turns.run_bind_ok (Turns.run_act_ok hroom own)

section
variable {τ : Type} {t : Header} {s : Store} (h : s.Intact t) (p : Params) (hp : p.m = t.m.toNat)
  (d : Draft) (hd : d.vector.length = t.dimensions.toNat) (own : τ)
include h hp hd

theorem store_begun {m : Nat} (lists : List (List Candidate)) (hlists : s.Linkable m lists) :
    ∃ r s', Begun t m s d r s' ∧
      (store p s.entry { d with neighbors := lists }).run (s, own) = Turns.ended own r s' := by
  rcases storePair_cases h { d with neighbors := lists } hd with
    ⟨e, he⟩ | ⟨st, s', hrun, hsize, hplaced⟩
  · refine ⟨.error e, s, .failed e, ?_⟩
    rw [store, hp]
    exact Turns.run_bind_error (Turns.run_act_error he own)
  · exact ⟨_, s', .stored st lists s' hlists hsize hplaced, store_run p hp own s.entry hrun⟩

theorem settle_begun {m : Nat} (lists : List (List Candidate)) (hlists : s.Linkable m lists)
    (duplicate : Option Location)
    (hdup : ∀ l, duplicate = some l →
      ∃ e, s.record? l = some (.element e) ∧ e.deleted = false ∧ e.vector = d.vector) :
    ∃ r s', Begun t m s d r s' ∧
      (settle p s.entry { d with neighbors := lists } duplicate).run (s, own) =
        Turns.ended own r s' := by
  cases duplicate with
  | none => exact store_begun h p hp d hd own lists hlists
  | some l =>
    obtain ⟨e, he, hlive, hsame⟩ := hdup l rfl
    rcases attachRow_element h l d.row e he with
      hno | ⟨place, s', hrun, hfree, hbehind, -, hintact, hrew⟩
    · obtain ⟨r, s', hbegun, hrun⟩ := store_begun h p hp d hd own lists hlists
      refine ⟨r, s', hbegun, ?_⟩
      rw [← hrun]
      exact Turns.run_bind_ok (Turns.run_act_ok hno own)
    · refine ⟨_, s', .joined l e place s' he hlive hsame hfree hbehind hintact hrew, ?_⟩
      exact Turns.run_bind_ok (Turns.run_act_ok hrun own)

theorem place_begun (q : Params) (hlists : s.Linkable q.m d.neighbors) :
    ∃ r s', Begun t q.m s d r s' ∧
      (place p (layerSearch τ q) d).run (s, own) = Turns.ended own r s' := by
  have hread : Action.reading (fun s => .ok s.entry) s = .ok s.entry s := rfl
  rw [place, Turns.run_bind_ok (Turns.run_act_ok hread own)]
  rcases consult_run q d s own hlists s.entry with
    ⟨e, he⟩ | ⟨lists, duplicate, hrun, hlive, hdup⟩
  · exact ⟨.error e, s, .failed e, Turns.run_bind_error he⟩
  · rw [Turns.run_bind_ok hrun]
    exact settle_begun h p hp d hd own lists hlive duplicate hdup

theorem insertElement_grows (q : Params) (hlists : s.Linkable q.m d.neighbors) :
    s.pages.size ≤ ((insertElement p (layerSearch τ q) d).after s own).1.pages.size := by
  obtain ⟨r, s₁, hbegun, hplace⟩ := place_begun h p hp d hd own q hlists
  have hinsert : insertElement p (layerSearch τ q) d = (insertion p (layerSearch τ q) d).run := rfl
  rw [hinsert, insertion, ActionWith.after]
  cases hbegun with
  | failed e => exact Nat.le_of_eq (by rw [Turns.run_bind_error hplace])
  | joined l e place s₁ found live same free behind intact rewritten =>
    rw [Turns.run_bind_ok hplace]
    exact Nat.le_of_eq rewritten.size.symm
  | stored st lists s₁ linkable size placed =>
    rw [Turns.run_bind_ok hplace]
    exact Nat.le_trans size ((grows_connect p q _).run s₁ own)

theorem insertElement_effect (q : Params) (hq : q.m = t.m.toNat)
    (hlists : s.Linkable q.m d.neighbors)
    (hb : ((insertElement p (layerSearch τ q) d).after s own).1.Numbered) :
    ∃ r s', Effect t s d r s' ∧
      insertElement p (layerSearch τ q) d (s, own) = Turns.ended own r s' ∧
      ∀ e, r = .error e → (place p (layerSearch τ q) d).run (s, own) = .error e (s, own) := by
  obtain ⟨r, s₁, hbegun, hplace⟩ := place_begun h p hp d hd own q hlists
  have hinsert : insertElement p (layerSearch τ q) d = (insertion p (layerSearch τ q) d).run := rfl
  cases hbegun with
  | failed e =>
    refine ⟨.error e, s, .failed e, Turns.run_bind_error hplace, fun c hc => ?_⟩
    rw [← Except.error.inj hc]
    exact hplace
  | joined l e place s₁ found live same free behind intact rewritten =>
    exact ⟨.ok (.coalesced l), s₁,
      .joined l e place s₁ found live same free behind intact rewritten, Turns.run_bind_ok hplace,
      fun c hc => by cases hc⟩
  | stored st lists s₁ linkable size placed =>
    -- The file does not shrink from here on, so its pages can still be numbered.
    have hnumbered : s₁.Numbered := by
      have hafter : ((insertElement p (layerSearch τ q) d).after s own) =
          ((connect p (layerSearch τ q) (.stored { d with
            neighbors := lists, location := st.location, neighborsAt := st.neighborsAt }
            s.entry st.cursor)).run).after s₁ own := by
        rw [ActionWith.after, hinsert, insertion, Turns.run_bind_ok hplace]
        rfl
      rw [hafter] at hb
      exact Nat.le_trans ((grows_connect p q _).run s₁ own) hb
    have hplaced := placed hnumbered
    rw [hq] at linkable
    have hentry := hplaced.entry
    obtain ⟨s', hconnect, hconnected⟩ := connect_run p own hp (layerSearch τ q)
      hplaced.intact { d with
        neighbors := lists, location := st.location, neighborsAt := st.neighborsAt }
      s.entry st.cursor hentry hplaced.cursor ⟨_, hplaced.element⟩ (hplaced.explored h linkable)
    refine ⟨.ok (.inserted st.location), s', .stored st lists s₁ s' linkable hplaced hconnected, ?_,
      fun c hc => by cases hc⟩
    rw [hinsert, insertion, Turns.run_bind_ok hplace, hconnect]
    rfl

end

end Insertion

end PagedGraph
