import PagedGraph.Proofs.Inserting

/-!
# Entry point and links

In a graph that one caller after the other has worked on, the entry point is an element than which
none is higher, deleted ones included, and only an empty graph is without one. Every link leads to
an element. Complete insertions and deletions keep this, and the element at the entry point stays
what it is: no other element is stored in its place.
-/

set_option autoImplicit false

namespace PagedGraph

namespace Store

def Resolves (s : Store) : Prop :=
  ∀ k a, s.record? k = some (.adjacency a) → ∀ l ∈ a.slots, l.isUsed = true →
    ∃ e, s.record? l = some (.element e)

theorem Resolves.link {s : Store} (h : s.Resolves) {m layer : Nat} {l k : Location}
    (hk : s.Link m layer l k) : ∃ e, s.record? k = some (.element e) := by
  obtain ⟨e, a, -, ha, hk⟩ := hk
  obtain ⟨hused, i, -, hi⟩ := Adjacency.mem_layer.mp hk
  exact h _ a ha k (List.mem_of_getElem? hi) hused

theorem Resolves.explored {s : Store} (h : s.Resolves) {cs : List Candidate} (hcs : s.Occupied cs)
    (m layer : Nat) : s.Explored m layer cs :=
  fun c hc => ⟨hcs c hc, fun _ hk => h.link hk⟩

theorem Linked.resolves {s s' : Store} {l : Location} (h : s.Linked s' l)
    (hsame : ∀ k e, s'.record? k = some (.element e) ↔ s.record? k = some (.element e))
    (hl : ∃ e, s.record? l = some (.element e)) (hlinks : s.Resolves) : s'.Resolves := by
  intro k b hb j hj hused
  obtain ⟨a, ha, hba⟩ := h k b hb
  have hfound : ∃ e, s.record? j = some (.element e) := by
    rcases hba j hj with hold | rfl
    · exact hlinks k a ha j hold hused
    · exact hl
  exact hfound.imp fun e he => (hsame j e).mpr he

structure Navigable (s : Store) : Prop where
  absent : s.entry = none → ∀ l e, s.record? l ≠ some (.element e)
  found : ∀ x, s.entry = some x → ∃ e, s.record? x.location = some (.element e) ∧ e.level = x.level
  highest : ∀ x l e, s.entry = some x → s.record? l = some (.element e) → e.level ≤ x.level
  links : s.Resolves

theorem Navigable.entry_eq {s : Store} (h : s.Navigable) {k : Location} {e : Element}
    (he : s.record? k = some (.element e))
    (htop : ∀ l f, s.record? l = some (.element f) → l ≠ k → f.level < e.level) :
    s.entry = some ⟨k, e.level⟩ := by
  cases hx : s.entry with
  | none => exact absurd he (h.absent hx k e)
  | some x =>
    obtain ⟨l, level⟩ := x
    obtain ⟨f, hf, rfl⟩ := h.found _ hx
    have hhigh := h.highest _ k e hx he
    by_cases hl : l = k
    · subst hl
      have hsame := hf.symm.trans he
      cases hsame
      rfl
    · exact absurd hhigh (UInt8.not_le.mpr (htop l f hf hl))

theorem navigable_of_empty {s : Store} (hentry : s.entry = none)
    (hrecord : s.record? = fun _ => none) : s.Navigable := by
  constructor
  · intro _ l e he
    rw [hrecord] at he
    cases he
  · intro x hx
    exact absurd (hentry.symm.trans hx).symm (Option.some_ne_none x)
  · intro x l e _ he
    rw [hrecord] at he
    cases he
  · intro k a ha
    rw [hrecord] at ha
    cases ha

variable {t : Header} {s s' : Store} {l : Location} {e e' : Element}

theorem Rewritten.adjacency (h : Rewritten s s' l (.element e')) {k : Location} {a : Adjacency}
    (ha : s'.record? k = some (.adjacency a)) : s.record? k = some (.adjacency a) := by
  rw [h.record] at ha
  by_cases hk : k = l
  · rw [hk, putRecord_self] at ha
    cases ha
  · rwa [putRecord_of_ne _ _ hk] at ha

theorem Rewritten.entry {r : Record} (h : Rewritten s s' l r) : s'.entry = s.entry := by
  rw [Store.entry, Store.entry, h.header]

theorem Resolves.rewritten (h : s.Resolves) (hrew : Rewritten s s' l (.element e')) :
    s'.Resolves := by
  intro k a ha j hj hused
  obtain ⟨f, hf⟩ := h k a (hrew.adjacency ha) j hj hused
  exact hrew.puts.element hf

theorem Navigable.rewritten (h : s.Navigable) (hrew : Rewritten s s' l (.element e'))
    (he : s.record? l = some (.element e)) (hlevel : e'.level = e.level) : s'.Navigable where
  absent := by
    intro hnone
    rw [hrew.entry] at hnone
    exact absurd he (h.absent hnone l e)
  found := by
    intro x hx
    rw [hrew.entry] at hx
    obtain ⟨f, hf, hfx⟩ := h.found x hx
    by_cases hk : x.location = l
    · rw [hk, he] at hf
      cases hf
      exact ⟨e', (hrew.puts _ e').mpr (by rw [if_pos hk]), hlevel.trans hfx⟩
    · exact ⟨f, (hrew.puts _ f).mpr (by rw [if_neg hk]; exact hf), hfx⟩
  highest := by
    intro x k f hx hf
    rw [hrew.entry] at hx
    have hput := (hrew.puts k f).mp hf
    by_cases hk : k = l
    · rw [if_pos hk] at hput
      rw [hput, hlevel]
      exact h.highest x l e hx he
    · rw [if_neg hk] at hput
      exact h.highest x k f hx hput
  links := h.links.rewritten hrew

end Store

theorem Adjacency.mem_filledFrom {m : Nat} {lists : List (List Location)} {l : Location}
    (level : Nat) (h : l ∈ filledFrom m lists level) : l = .unused ∨ ∃ i, l ∈ lists.getD i [] := by
  have hfilled : ∀ layer, l ∈ filled m layer (lists.getD layer []) →
      l = .unused ∨ ∃ i, l ∈ lists.getD i [] := by
    intro layer hl
    rcases List.mem_append.mp hl with hl | hl
    · exact .inr ⟨layer, List.mem_of_mem_take hl⟩
    · exact .inl (List.eq_of_mem_replicate hl)
  induction level with
  | zero => exact hfilled 0 h
  | succ level ih => exact (List.mem_append.mp h).elim (hfilled (level + 1)) ih

theorem Draft.mem_adjacency {d : Draft} {m : Nat} {l : Location}
    (h : l ∈ (d.adjacency m).slots) (hused : l.isUsed = true) :
    ∃ i, ∃ c ∈ d.neighbors.getD i [], c.location = l := by
  rcases Adjacency.mem_filledFrom d.level.toNat h with rfl | ⟨i, hi⟩
  · cases hused
  · rw [List.getD_eq_getElem?_getD, List.getElem?_map] at hi
    refine ⟨i, ?_⟩
    rw [List.getD_eq_getElem?_getD]
    cases hcs : d.neighbors[i]? with
    | none =>
      rw [hcs] at hi
      cases hi
    | some cs =>
      rw [hcs] at hi
      exact List.mem_map.mp hi

namespace Insertion

variable {t : Header} {s s₁ s' : Store} {d : Draft} {lists : List (List Candidate)} {st : Stored}

theorem placed_resolves (h : s.Intact t) (hlinks : s.Resolves)
    (hcs : ∀ i, s.Occupied (d.neighbors.getD i [])) (hplaced : Placed t s s₁ d st) :
    s₁.Resolves := by
  have hputs := hplaced.put.puts h
  intro k a ha j hj hused
  rw [hplaced.put.record] at ha
  by_cases hl : k = st.location
  · rw [hl, putRecord_self] at ha
    cases ha
  · rw [putRecord_of_ne _ _ hl] at ha
    by_cases hk : k = st.neighborsAt
    · rw [hk, putRecord_self] at ha
      cases ha
      obtain ⟨i, c, hc, rfl⟩ := Draft.mem_adjacency hj hused
      obtain ⟨f, hf⟩ := hcs i c hc
      exact hputs.element hf
    · rw [putRecord_of_ne _ _ hk] at ha
      obtain ⟨f, hf⟩ := hlinks k a ha j hj hused
      exact hputs.element hf

theorem placed_apart (hnav : s.Navigable) {x : EntryPoint} (hx : s.entry = some x)
    (hplaced : Placed t s s₁ d st) : st.location ≠ x.location := by
  intro heq
  rcases hplaced.put.old with ⟨hnone, -⟩ | ⟨f, -, -, -, hne⟩
  · obtain ⟨e, he, -⟩ := hnav.found x hx
    rw [heq, he] at hnone
    cases hnone
  · rw [hx, heq] at hne
    exact hne rfl

theorem outranks_congr {d e : Draft} (h : d.level = e.level) (prior : Option EntryPoint) :
    outranks d prior = outranks e prior := by
  cases prior with
  | none => rfl
  | some x => rw [outranks, outranks, h]

theorem stored_navigable (h : s.Intact t) (hnav : s.Navigable) (hlive : s.AllLive lists)
    (hplaced : Placed t s s₁ { d with neighbors := lists } st) {e : Draft}
    (hconnected : Connected t s₁ s' e) (hlevel : e.level = d.level)
    (hat : e.location = st.location) : s'.Navigable := by
  have hputs := (hplaced.put.puts h).followed hconnected.element
  have hnew := (hputs st.location _).mpr (by rw [if_pos rfl])
  have hbefore := hplaced.entry
  have hentry := hconnected.entry
  rw [hbefore, outranks_congr hlevel, hat, hlevel] at hentry
  have hlevels : ∀ k f, s'.record? k = some (.element f) →
      f.level = d.level ∨ s.record? k = some (.element f) := by
    intro k f hf
    have hput := (hputs k f).mp hf
    by_cases hk : k = st.location
    · rw [if_pos hk] at hput
      exact .inl (by rw [hput]; rfl)
    · rw [if_neg hk] at hput
      exact .inr hput
  have hlinks : s'.Resolves := hconnected.linked.resolves hconnected.element
    (by rw [hat]; exact ⟨_, hplaced.element⟩)
    (placed_resolves h hnav.links hlive.occupied hplaced)
  by_cases hrank : outranks d s.entry = true
  · -- The new element is the entry point now.
    have hnow : s'.entry = some ⟨st.location, d.level⟩ := hentry.trans (if_pos hrank)
    constructor
    · intro hnone
      exact absurd (hnow.symm.trans hnone) (Option.some_ne_none _)
    · intro x hx
      obtain rfl := Option.some.inj (hnow.symm.trans hx)
      exact ⟨_, hnew, rfl⟩
    · intro x k f hx hf
      obtain rfl := Option.some.inj (hnow.symm.trans hx)
      rcases hlevels k f hf with hlevel | hold
      · exact UInt8.le_of_eq hlevel
      · cases hs : s.entry with
        | none => exact absurd hold (hnav.absent hs k f)
        | some x =>
          rw [hs, outranks, decide_eq_true_iff] at hrank
          exact UInt8.le_trans (hnav.highest x k f hs hold) (UInt8.le_of_lt hrank)
    · exact hlinks
  · have hnow : s'.entry = s.entry := hentry.trans (if_neg hrank)
    cases hs : s.entry with
    | none =>
      rw [hs] at hrank
      exact absurd rfl hrank
    | some x =>
      rw [hs, outranks, decide_eq_true_iff] at hrank
      have hx' : s'.entry = some x := hnow.trans hs
      obtain ⟨e, he, hex⟩ := hnav.found x hs
      have hapart := placed_apart hnav hs hplaced
      constructor
      · intro hnone
        exact absurd (hx'.symm.trans hnone) (Option.some_ne_none _)
      · intro y hy
        obtain rfl := Option.some.inj (hx'.symm.trans hy)
        exact ⟨e, (hputs _ e).mpr (by rw [if_neg hapart.symm]; exact he), hex⟩
      · intro y k f hy hf
        obtain rfl := Option.some.inj (hx'.symm.trans hy)
        rcases hlevels k f hf with hlevel | hold
        · rw [hlevel]
          exact UInt8.not_lt.mp hrank
        · exact hnav.highest x k f hs hold
      · exact hlinks

theorem Effect.intact {r : Except Error Outcome} (heffect : Effect t s d r s')
    (h : s.Intact t) : s'.Intact t := by
  cases heffect with
  | failed e => exact h
  | joined l e place s' found live same free behind intact rewritten => exact intact
  | stored st lists s₁ s' linkable placed connected => exact connected.intact

theorem Effect.navigable {r : Except Error Outcome} (heffect : Effect t s d r s')
    (h : s.Intact t) (hnav : s.Navigable) : s'.Navigable := by
  cases heffect with
  | failed e => exact hnav
  | joined l e place s' found live same free behind intact rewritten =>
    exact hnav.rewritten rewritten found rfl
  | stored st lists s₁ s' linkable placed connected =>
    exact stored_navigable h hnav linkable.live placed connected rfl rfl

end Insertion

theorem markDeleted_navigable {t : Header} {s : Store} (h : s.Intact t) (hnav : s.Navigable)
    (l : Location) : ((markDeleted l).after s).Navigable := by
  rcases markDeleted_after h l with hsame | ⟨e, he, -, -, hrew⟩
  · rw [hsame]
    exact hnav
  · exact hnav.rewritten hrew he rfl

/-- The element at the entry point is still there: the same level and vector, and the same place for
its neighbors. -/
def Store.Stays (s s' : Store) : Prop :=
  ∀ x e, s.entry = some x → s.element x.location = .ok e → ∃ f, s'.element x.location = .ok f ∧
    f.level = e.level ∧ f.vector = e.vector ∧ f.neighborsAt = e.neighborsAt

section
variable {t : Header} {s s' : Store}

theorem Store.Stays.refl (s : Store) : s.Stays s := fun _ e _ he => ⟨e, he, rfl, rfl, rfl⟩

theorem Store.Rewritten.stays {l : Location} {e e' : Element}
    (hrew : s.Rewritten s' l (.element e')) (he : s.record? l = some (.element e))
    (hsame : e'.level = e.level ∧ e'.vector = e.vector ∧ e'.neighborsAt = e.neighborsAt) :
    s.Stays s' := by
  intro x f _ hf
  rw [Store.element_eq_ok] at hf
  by_cases hk : x.location = l
  · rw [hk, he] at hf
    cases hf
    exact ⟨e', (s'.element_eq_ok _ _).mpr ((hrew.puts _ e').mpr (by rw [if_pos hk])), hsame⟩
  · exact ⟨f, (s'.element_eq_ok _ _).mpr ((hrew.puts _ f).mpr (by rw [if_neg hk]; exact hf)),
      rfl, rfl, rfl⟩

theorem Insertion.Effect.stays {d : Draft} {r : Except Error Outcome}
    (heffect : Insertion.Effect t s d r s') (h : s.Intact t) (hnav : s.Navigable) :
    s.Stays s' ∧ ∀ l x, r = .ok (.inserted l) → s.entry = some x → l ≠ x.location := by
  cases heffect with
  | failed e => exact ⟨.refl s, fun l x hr => by cases hr⟩
  | joined l e place s' found live same free behind intact rewritten =>
    exact ⟨rewritten.stays found ⟨rfl, rfl, rfl⟩, fun l x hr => by cases hr⟩
  | stored st lists s₁ s' linkable placed connected =>
    have hputs := (placed.put.puts h).followed connected.element
    refine ⟨fun x f hx hf => ?_, fun l x hr hx => ?_⟩
    · rw [Store.element_eq_ok] at hf
      have hapart := Insertion.placed_apart hnav hx placed
      exact ⟨f, (s'.element_eq_ok _ _).mpr ((hputs _ f).mpr (by
        rw [if_neg hapart.symm]
        exact hf)), rfl, rfl, rfl⟩
    · cases hr
      exact Insertion.placed_apart hnav hx placed

theorem markDeleted_stays (h : s.Intact t) (l : Location) : s.Stays ((markDeleted l).after s) := by
  rcases markDeleted_after h l with hsame | ⟨e, he, -, -, hrew⟩
  · rw [hsame]
    exact .refl s
  · exact hrew.stays he ⟨rfl, rfl, rfl⟩

end

end PagedGraph
