import PagedGraph.Proofs.Records

/-!
# Elements and neighbor records in pairs

In a map of records, elements and neighbor records stand in pairs: every element points to a
neighbor record with the number of slots that its level demands, no two elements point to the same
one, and none is left over. Two kinds of change keep the pairing. A record may be replaced by one
of the same shape; and a whole pair may be put where there was nothing, or where there was a pair.
-/

set_option autoImplicit false

namespace PagedGraph

/-- What a rewrite of a record in its slot may not change. -/
def Record.SameShape : Record → Record → Prop
  | .element e, .element f => f.level = e.level ∧ f.neighborsAt = e.neighborsAt ∧
      f.vector = e.vector
  | .adjacency a, .adjacency b => b.slots.length = a.slots.length
  | _, _ => False

theorem Record.SameShape.size_eq {r r' : Record} (h : r.SameShape r') :
    r'.encode.size = r.encode.size := by
  cases r with
  | element e =>
    cases r' with
    | element f =>
      show f.encode.size = e.encode.size
      rw [f.size_encode, e.size_encode, h.2.2]
    | adjacency b => exact h.elim
  | adjacency a =>
    cases r' with
    | element f => exact h.elim
    | adjacency b =>
      have hlen : b.slots.length = a.slots.length := h
      show b.encode.size = a.encode.size
      rw [b.size_encode, a.size_encode, hlen]

/-- Elements and neighbor records belong together one to one. -/
structure Paired (m : Nat) (M : Location → Option Record) : Prop where
  resolves : ∀ l e, M l = some (.element e) → ∃ a, M e.neighborsAt = some (.adjacency a) ∧
    a.slots.length = Adjacency.slotCount e.level.toNat m
  apart : ∀ k l e f, M k = some (.element e) → M l = some (.element f) →
    e.neighborsAt = f.neighborsAt → k = l
  owned : ∀ k a, M k = some (.adjacency a) → ∃ l e, M l = some (.element e) ∧ e.neighborsAt = k

def putRecord (M : Location → Option Record) (l : Location) (r : Record) :
    Location → Option Record :=
  fun k => if k = l then some r else M k

theorem putRecord_self (M : Location → Option Record) (l : Location) (r : Record) :
    putRecord M l r l = some r :=
  if_pos rfl

theorem putRecord_of_ne (M : Location → Option Record) (r : Record) {k l : Location}
    (h : k ≠ l) : putRecord M l r k = M k :=
  if_neg h

namespace Paired

variable {m : Nat} {M : Location → Option Record}

theorem empty (m : Nat) : Paired m fun _ => none where
  resolves := by
    intro l e h
    cases h
  apart := by
    intro k l e f h
    cases h
  owned := by
    intro k a h
    cases h

theorem element_of_rewrite {l k : Location} {r r' : Record} {e : Element} (hr : M l = some r)
    (hs : r.SameShape r') (hk : putRecord M l r' k = some (.element e)) :
    ∃ f, M k = some (.element f) ∧ f.level = e.level ∧ f.neighborsAt = e.neighborsAt := by
  by_cases hkl : k = l
  · subst hkl
    rw [putRecord_self] at hk
    obtain rfl : r' = .element e := Option.some.inj hk
    cases r with
    | element f => exact ⟨f, hr, hs.1.symm, hs.2.1.symm⟩
    | adjacency a => exact hs.elim
  · rw [putRecord_of_ne M r' hkl] at hk
    exact ⟨e, hk, rfl, rfl⟩

theorem element_rewrite {l k : Location} {r r' : Record} {f : Element} (hr : M l = some r)
    (hs : r.SameShape r') (hk : M k = some (.element f)) :
    ∃ e, putRecord M l r' k = some (.element e) ∧ e.level = f.level ∧
      e.neighborsAt = f.neighborsAt := by
  by_cases hkl : k = l
  · subst hkl
    obtain rfl : r = .element f := Option.some.inj (hr.symm.trans hk)
    rw [putRecord_self]
    cases r' with
    | element e => exact ⟨e, rfl, hs.1, hs.2.1⟩
    | adjacency a => exact hs.elim
  · rw [putRecord_of_ne M r' hkl]
    exact ⟨f, hk, rfl, rfl⟩

theorem adjacency_of_rewrite {l k : Location} {r r' : Record} {a : Adjacency} (hr : M l = some r)
    (hs : r.SameShape r') (hk : putRecord M l r' k = some (.adjacency a)) :
    ∃ b, M k = some (.adjacency b) ∧ b.slots.length = a.slots.length := by
  by_cases hkl : k = l
  · subst hkl
    rw [putRecord_self] at hk
    obtain rfl : r' = .adjacency a := Option.some.inj hk
    cases r with
    | element f => exact hs.elim
    | adjacency b => exact ⟨b, hr, Eq.symm hs⟩
  · rw [putRecord_of_ne M r' hkl] at hk
    exact ⟨a, hk, rfl⟩

theorem adjacency_rewrite {l k : Location} {r r' : Record} {b : Adjacency} (hr : M l = some r)
    (hs : r.SameShape r') (hk : M k = some (.adjacency b)) :
    ∃ a, putRecord M l r' k = some (.adjacency a) ∧ a.slots.length = b.slots.length := by
  by_cases hkl : k = l
  · subst hkl
    obtain rfl : r = .adjacency b := Option.some.inj (hr.symm.trans hk)
    rw [putRecord_self]
    cases r' with
    | element f => exact hs.elim
    | adjacency a => exact ⟨a, rfl, hs⟩
  · rw [putRecord_of_ne M r' hkl]
    exact ⟨b, hk, rfl⟩

theorem rewrite (h : Paired m M) {l : Location} {r r' : Record} (hr : M l = some r)
    (hs : r.SameShape r') : Paired m (putRecord M l r') where
  resolves := by
    intro k e hk
    obtain ⟨f, hf, hlevel, hat⟩ := element_of_rewrite hr hs hk
    obtain ⟨b, hb, hlen⟩ := h.resolves k f hf
    obtain ⟨a, ha, hab⟩ := adjacency_rewrite hr hs hb
    exact ⟨a, by rwa [← hat], by rw [hab, hlen, hlevel]⟩
  apart := by
    intro k k' e e' hk hk' hat
    obtain ⟨f, hf, -, hfe⟩ := element_of_rewrite hr hs hk
    obtain ⟨f', hf', -, hfe'⟩ := element_of_rewrite hr hs hk'
    exact h.apart k k' f f' hf hf' (by rw [hfe, hfe', hat])
  owned := by
    intro k a hk
    obtain ⟨b, hb, -⟩ := adjacency_of_rewrite hr hs hk
    obtain ⟨k', f, hf, hat⟩ := h.owned k b hb
    obtain ⟨e, he, -, hef⟩ := element_rewrite hr hs hf
    exact ⟨k', e, he, hef.trans hat⟩

theorem place (h : Paired m M) {l k : Location} {e : Element} {a : Adjacency} (hne : l ≠ k)
    (hat : e.neighborsAt = k) (hlen : a.slots.length = Adjacency.slotCount e.level.toNat m)
    (hold : M l = none ∧ M k = none ∨ ∃ f, M l = some (.element f) ∧ f.neighborsAt = k) :
    Paired m (putRecord (putRecord M k (.adjacency a)) l (.element e)) := by
  -- No other element points to `k`: there was nothing there, or it belonged to the old pair.
  have hother : ∀ l' f, l' ≠ l → M l' = some (.element f) → f.neighborsAt ≠ k := by
    intro l' f hl' hf hfk
    rcases hold with ⟨-, hk⟩ | ⟨g, hg, hgk⟩
    · obtain ⟨b, hb, -⟩ := h.resolves l' f hf
      rw [hfk, hk] at hb
      cases hb
    · exact hl' (h.apart l' l f g hf hg (hfk.trans hgk.symm))
  have hlk : ∀ b, M l ≠ some (.adjacency b) := by
    intro b hb
    rcases hold with ⟨hl, -⟩ | ⟨g, hg, -⟩
    · rw [hl] at hb
      cases hb
    · rw [hg] at hb
      cases hb
  have hkk : ∀ f, M k ≠ some (.element f) := by
    intro f hf
    rcases hold with ⟨-, hk⟩ | ⟨g, hg, hgk⟩
    · rw [hk] at hf
      cases hf
    · obtain ⟨b, hb, -⟩ := h.resolves l g hg
      rw [hgk, hf] at hb
      cases hb
  have hself : putRecord (putRecord M k (.adjacency a)) l (.element e) l = some (.element e) :=
    putRecord_self _ _ _
  have hk : putRecord (putRecord M k (.adjacency a)) l (.element e) k = some (.adjacency a) := by
    rw [putRecord_of_ne _ _ hne.symm, putRecord_self]
  have hframe : ∀ j, j ≠ l → j ≠ k →
      putRecord (putRecord M k (.adjacency a)) l (.element e) j = M j := by
    intro j hjl hjk
    rw [putRecord_of_ne _ _ hjl, putRecord_of_ne _ _ hjk]
  have helement : ∀ j f, putRecord (putRecord M k (.adjacency a)) l (.element e) j =
      some (.element f) → j = l ∧ f = e ∨ j ≠ l ∧ M j = some (.element f) := by
    intro j f hj
    by_cases hjl : j = l
    · subst hjl
      rw [hself] at hj
      cases hj
      exact .inl ⟨rfl, rfl⟩
    · by_cases hjk : j = k
      · subst hjk
        rw [hk] at hj
        cases hj
      · rw [hframe j hjl hjk] at hj
        exact .inr ⟨hjl, hj⟩
  constructor
  · intro j f hj
    rcases helement j f hj with ⟨rfl, rfl⟩ | ⟨hjl, hf⟩
    · exact ⟨a, by rw [hat]; exact hk, hlen⟩
    · obtain ⟨b, hb, hbl⟩ := h.resolves j f hf
      have hfl : f.neighborsAt ≠ l := by
        intro hfl
        exact hlk b (hfl ▸ hb)
      exact ⟨b, by rw [hframe _ hfl (hother j f hjl hf)]; exact hb, hbl⟩
  · intro i j f g hi hj hfg
    rcases helement i f hi with ⟨rfl, rfl⟩ | ⟨hil, hf⟩
    · rcases helement j g hj with ⟨rfl, -⟩ | ⟨hjl, hg⟩
      · rfl
      · exact absurd (hfg.symm.trans hat) (hother j g hjl hg)
    · rcases helement j g hj with ⟨rfl, rfl⟩ | ⟨hjl, hg⟩
      · exact absurd (hfg.trans hat) (hother i f hil hf)
      · exact h.apart i j f g hf hg hfg
  · intro j b hj
    by_cases hjk : j = k
    · subst hjk
      exact ⟨l, e, hself, hat⟩
    · by_cases hjl : j = l
      · subst hjl
        rw [hself] at hj
        cases hj
      · rw [hframe j hjl hjk] at hj
        obtain ⟨i, f, hf, hfj⟩ := h.owned j b hj
        have hik : i ≠ k := fun hik => hkk f (hik ▸ hf)
        have hil : i ≠ l := by
          rintro rfl
          rcases hold with ⟨hl, -⟩ | ⟨g, hg, hgk⟩
          · rw [hl] at hf
            cases hf
          · rw [hg] at hf
            cases hf
            exact hjk (hfj.symm.trans hgk)
        exact ⟨i, f, by rw [hframe i hil hik]; exact hf, hfj⟩

end Paired

end PagedGraph
