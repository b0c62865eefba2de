import PagedGraph.Proofs.BackLinks
import PagedGraph.Proofs.Merging

/-!
# Merging into the own record

Once an element has been stored, others may have written links into its record. When fresh candidates
are merged into it, the live links compete with them for the slots of a layer, and the closest remain
(`own_lists_merged`). A link is given up only for closer ones, unless it leads to the element itself:
such a link is always dropped (`own_link_dropped`).
-/

set_option autoImplicit false

namespace PagedGraph

section
variable {cs : List Candidate} {seen : List Location} {c : Candidate}

theorem mem_unseen : c ∈ unseen seen cs ↔
    c.location ∉ seen ∧ cs.find? (fun x => x.location == c.location) = some c := by
  induction cs generalizing seen with
  | nil => simp only [unseen, List.not_mem_nil, List.find?_nil, reduceCtorEq, and_false]
  | cons x cs ih =>
    rw [unseen]
    by_cases hx : x.location = c.location
    · have hfind : (x :: cs).find? (fun y => y.location == c.location) = some x :=
        List.find?_cons_of_pos (beq_iff_eq.mpr hx)
      rw [hfind]
      by_cases hseen : x.location ∈ seen
      · rw [if_pos hseen, ih, ← hx]
        exact ⟨fun h => absurd hseen h.1, fun h => absurd hseen h.1⟩
      · rw [if_neg hseen, List.mem_cons, ih, ← hx]
        constructor
        · rintro (rfl | hc)
          · exact ⟨hseen, rfl⟩
          · exact absurd List.mem_cons_self hc.1
        · exact fun hc => .inl (Option.some.inj hc.2).symm
    · have hfind : (x :: cs).find? (fun y => y.location == c.location) =
          cs.find? (fun y => y.location == c.location) :=
        List.find?_cons_of_neg fun h => hx (beq_iff_eq.mp h)
      rw [hfind]
      by_cases hseen : x.location ∈ seen
      · rw [if_pos hseen, ih]
      · have hne : c ≠ x := fun h => hx (congrArg Candidate.location h).symm
        have hloc : c.location ≠ x.location := fun h => hx h.symm
        rw [if_neg hseen, List.mem_cons, ih, List.mem_cons]
        simp only [hne, hloc, false_or]

theorem pairwise_unseen (seen : List Location) (cs : List Candidate) :
    (unseen seen cs).Pairwise fun x y => x.location ≠ y.location := by
  induction cs generalizing seen with
  | nil => exact .nil
  | cons x cs ih =>
    rw [unseen]
    by_cases hseen : x.location ∈ seen
    · rw [if_pos hseen]
      exact ih seen
    · rw [if_neg hseen]
      refine List.pairwise_cons.mpr ⟨fun y hy heq => ?_, ih _⟩
      rw [mem_unseen, ← heq] at hy
      exact hy.1 List.mem_cons_self

end

/-- What competes for a layer of a draft's record: a live element to which the record has a link
already, seen from the draft, or the first of the fresh candidates at a location to which it has none.
The draft itself does not compete. -/
inductive Store.Contender (s : Store) (p : Params) (d : Draft) (entries : List Location)
    (fresh : List Candidate) (c : Candidate) : Prop where
  | entry (e : Element) (mem : c.location ∈ entries) (other : c.location ≠ d.location)
      (found : s.element c.location = .ok e) (live : e.deleted = false)
      (distance : c.distance = p.metric.distance d.vector e.vector)
  | fresh (absent : c.location ∉ entries) (other : c.location ≠ d.location)
      (first : fresh.find? (fun x => x.location == c.location) = some c)

/-- The closest contenders for a layer are kept, each location once, as many as the layer has slots. -/
structure Store.Closest (s : Store) (p : Params) (d : Draft) (entries : List Location)
    (fresh : List Candidate) (capacity : Nat) (kept : List Candidate) : Prop where
  first : ∃ all : List Candidate, (∀ c, c ∈ all ↔ s.Contender p d entries fresh c) ∧
    all.Pairwise (fun x y => x.le y = true ∧ x.location ≠ y.location) ∧ kept = all.take capacity
  /-- A contender is not kept only if the layer is full of closer ones. -/
  missed : ∀ c, s.Contender p d entries fresh c → c ∉ kept →
    kept.length = capacity ∧ ∀ x ∈ kept, x.le c = true ∧ x.location ≠ c.location

def Store.SeenFrom (s : Store) (p : Params) (d : Draft) (current : List Location) (c : Candidate) :
    Prop :=
  c.location ∈ current ∧ ∃ e, s.element c.location = .ok e ∧ e.deleted = false ∧
    c.distance = p.metric.distance d.vector e.vector

/-- A link of a draft's record in a layer leads beyond the bytes of a page, and not to the draft. -/
def Draft.Strays (p : Params) (d : Draft) (a : Adjacency) (layer : Nat) : Prop :=
  ∃ k ∈ a.layer d.level.toNat layer p.m, k ≠ d.location ∧ k.Beyond

section
variable {s : Store} {p : Params} {d : Draft} {current : List Location}

theorem Store.found?_eq_some {l : Location} {e : Element} :
    s.found? l = some e ↔ s.element l = .ok e ∧ e.deleted = false := by
  rw [Store.found?]
  cases s.element l with
  | error c =>
    constructor
    · intro h
      cases h
    · rintro ⟨h, -⟩
      cases h
  | ok f =>
    cases hf : f.deleted with
    | true =>
      simp only [hf, if_true]
      constructor
      · intro h
        cases h
      · rintro ⟨h, hlive⟩
        rw [← Except.ok.inj h, hf] at hlive
        cases hlive
    | false =>
      simp only [hf, Bool.false_eq_true, if_false]
      constructor
      · intro h
        obtain rfl := Option.some.inj h
        exact ⟨rfl, hf⟩
      · rintro ⟨h, -⟩
        exact congrArg some (Except.ok.inj h)

theorem ownCandidates_cases (s : Store) (p : Params) (d : Draft) (current : List Location) :
    ((∃ k ∈ current, s.element k = .error .outsidePage) ∧
      ownCandidates s p d current = .error .outsidePage) ∨
    (∀ k ∈ current, s.element k ≠ .error .outsidePage) ∧
      ∃ own, ownCandidates s p d current = .ok own ∧ ∀ c, c ∈ own ↔ s.SeenFrom p d current c := by
  have hread := s.mapM_liveElement? (fun l found => found.map fun e : Element =>
    (⟨l, p.metric.distance d.vector e.vector⟩ : Candidate)) current
  rw [ownCandidates]
  rcases hread with ⟨hout, hread⟩ | ⟨hin, hread⟩
  · exact .inl ⟨hout, congrArg (Except.map _) hread⟩
  · refine .inr ⟨hin, _, congrArg (Except.map _) hread, fun c => ?_⟩
    rw [List.mem_filterMap]
    constructor
    · rintro ⟨found, hfound, rfl⟩
      obtain ⟨l, hl, hc⟩ := List.mem_map.mp hfound
      obtain ⟨e, he, rfl⟩ := Option.map_eq_some_iff.mp hc
      obtain ⟨helement, hlive⟩ := Store.found?_eq_some.mp he
      exact ⟨hl, e, helement, hlive, rfl⟩
    · rintro ⟨hl, e, helement, hlive, hdistance⟩
      refine ⟨some c, List.mem_map.mpr ⟨c.location, hl, ?_⟩, rfl⟩
      rw [Store.found?_eq_some.mpr ⟨helement, hlive⟩, Option.map_some, ← hdistance]

theorem Store.SeenFrom.eq {x c : Candidate} (hx : s.SeenFrom p d current x)
    (hc : s.SeenFrom p d current c) (hloc : x.location = c.location) : x = c := by
  obtain ⟨-, e, he, -, hdistance⟩ := hx
  obtain ⟨-, f, hf, -, hdistance'⟩ := hc
  rw [hloc, hf] at he
  obtain rfl := Except.ok.inj he
  obtain ⟨lx, dx⟩ := x
  obtain ⟨lc, dc⟩ := c
  obtain rfl : lx = lc := hloc
  obtain rfl : dx = dc := hdistance.trans hdistance'.symm
  rfl

variable {own : List Candidate} (hown : ∀ c, c ∈ own ↔ s.SeenFrom p d current c)
include hown

theorem mem_unseen_own {c : Candidate} : c ∈ unseen [] own ↔ s.SeenFrom p d current c := by
  rw [← hown]
  refine ⟨mem_of_unseen, fun hc => mem_unseen.mpr ⟨List.not_mem_nil, ?_⟩⟩
  have hsome : (own.find? fun x => x.location == c.location).isSome :=
    List.find?_isSome.mpr ⟨c, hc, beq_self_eq_true c.location⟩
  obtain ⟨x, hx⟩ := Option.isSome_iff_exists.mp hsome
  have hloc := List.find?_some hx
  rw [hx, ((hown x).mp (List.mem_of_find?_eq_some hx)).eq ((hown c).mp hc) (beq_iff_eq.mp hloc)]

theorem closest_closest (layer : Nat) {entries : List Location}
    (hcurrent : ∀ l, l ∈ current ↔ l ∈ entries ∧ l ≠ d.location) (fresh : List Candidate) :
    s.Closest p d entries fresh (p.capacity layer) (closest p d layer current own fresh) := by
  rw [closest]
  generalize hall : Candidate.sort (unseen [] own ++ unseen (d.location :: current) fresh) = all
  have hmem : ∀ c, c ∈ all ↔ s.Contender p d entries fresh c := fun c => by
    rw [← hall, (Candidate.sort_perm _).mem_iff, List.mem_append, mem_unseen_own hown,
      Store.SeenFrom, mem_unseen, hcurrent, List.mem_cons, hcurrent]
    constructor
    · rintro (⟨⟨hentry, hother⟩, e, he, hlive, hdistance⟩ | ⟨hnew, hfirst⟩)
      · exact .entry e hentry hother he hlive hdistance
      · exact .fresh (fun hentry => hnew (.inr ⟨hentry, fun h => hnew (.inl h)⟩))
          (fun h => hnew (.inl h)) hfirst
    · rintro (⟨e, hentry, hother, he, hlive, hdistance⟩ | ⟨habsent, hother, hfirst⟩)
      · exact .inl ⟨⟨hentry, hother⟩, e, he, hlive, hdistance⟩
      · exact .inr ⟨fun h => h.elim hother fun h => habsent h.1, hfirst⟩
  have hsorted : all.Pairwise fun x y => x.le y = true ∧ x.location ≠ y.location := by
    refine List.pairwise_and_iff.mpr ⟨hall ▸ Candidate.pairwise_sort _, ?_⟩
    rw [← hall, (Candidate.sort_perm _).pairwise_iff fun h => Ne.symm h, List.pairwise_append]
    refine ⟨pairwise_unseen _ _, pairwise_unseen _ _, fun x hx y hy heq => ?_⟩
    have hin := ((mem_unseen_own hown).mp hx).1
    rw [heq] at hin
    exact (mem_unseen.mp hy).1 (List.mem_cons_of_mem _ hin)
  refine ⟨⟨all, hmem, hsorted, rfl⟩, fun c hc hout => ?_⟩
  have hbehind : c ∈ all.drop (p.capacity layer) := by
    rw [← hmem, ← List.take_append_drop (p.capacity layer) all] at hc
    exact (List.mem_append.mp hc).resolve_left hout
  rw [← List.take_append_drop (p.capacity layer) all] at hsorted
  refine ⟨?_, fun x hx => (List.pairwise_append.mp hsorted).2.2 x hx c hbehind⟩
  have hlong := List.length_pos_of_mem hbehind
  rw [List.length_drop] at hlong
  rw [List.length_take]
  omega

end

section
variable {t : Header} {s : Store} {p : Params} {d : Draft} {layer : Nat} {a : Adjacency}
  {fresh : List Candidate}

theorem mergeLayer_cases (h : s.Formed t) (p : Params) (d : Draft) (layer : Nat) (a : Adjacency)
    (fresh : List Candidate) :
    d.Strays p a layer ∧ mergeLayer s p d layer a fresh = .error .outsidePage ∨
      ¬d.Strays p a layer ∧ ∃ kept, mergeLayer s p d layer a fresh = .ok kept := by
  rw [mergeLayer]
  rcases ownCandidates_cases s p d
      ((a.layer d.level.toNat layer p.m).filter (· != d.location)) with
    ⟨⟨k, hk, hout⟩, hread⟩ | ⟨hin, own, hread, -⟩
  · obtain ⟨hentry, hother⟩ := List.mem_filter.mp hk
    exact .inl ⟨⟨k, hentry, bne_iff_ne.mp hother, (h.element_outside k).mp hout⟩, by
      simp only [hread, Except.map]⟩
  · refine .inr ⟨?_, _, by simp only [hread, Except.map]; rfl⟩
    rintro ⟨k, hentry, hother, hbeyond⟩
    exact hin k (List.mem_filter.mpr ⟨hentry, bne_iff_ne.mpr hother⟩)
      ((h.element_outside k).mpr hbeyond)

theorem mergeLayer_closest {kept : List Candidate}
    (hkept : mergeLayer s p d layer a fresh = .ok kept) :
    s.Closest p d (a.layer d.level.toNat layer p.m) fresh (p.capacity layer) kept := by
  rw [mergeLayer] at hkept
  rcases ownCandidates_cases s p d
      ((a.layer d.level.toNat layer p.m).filter (· != d.location)) with
    ⟨-, hread⟩ | ⟨-, own, hread, hown⟩
  · simp only [hread, Except.map] at hkept
    cases hkept
  · simp only [hread, Except.map] at hkept
    rw [← Except.ok.inj hkept]
    exact closest_closest hown layer (fun l => by rw [List.mem_filter, bne_iff_ne]) fresh

theorem length_mergeLayer_le {kept : List Candidate}
    (hkept : mergeLayer s p d layer a fresh = .ok kept) : kept.length ≤ p.capacity layer := by
  obtain ⟨all, -, -, rfl⟩ := (mergeLayer_closest hkept).first
  rw [List.length_take]
  exact Nat.min_le_left _ _

end

namespace Adjacency

variable {a b : Adjacency} {level m layer layer' : Nat}

theorem segment_above (h : level < layer) : a.segment level layer m = [] := by
  rw [segment, layerRange, if_pos h]
  rfl

theorem segment_congr
    (h : ∀ i, InLayer level m layer i → a.slots[i]? = b.slots[i]?) :
    a.segment level layer m = b.segment level layer m := by
  by_cases hlayer : layer ≤ level
  · apply List.ext_getElem?
    intro j
    by_cases hj : j < layerCapacity m layer
    · rw [getElem?_segment hlayer hj, getElem?_segment hlayer hj]
      exact h _ ⟨hlayer, Nat.le_add_right _ _, Nat.add_lt_add_left hj _⟩
    · rw [segment_eq hlayer, segment_eq hlayer, List.getElem?_take_eq_none (Nat.not_lt.mp hj),
        List.getElem?_take_eq_none (Nat.not_lt.mp hj)]
  · rw [segment_above (Nat.not_le.mp hlayer), segment_above (Nat.not_le.mp hlayer)]

theorem segment_setLayer_of_ne (ns : List Location) (hlayer : layer ≤ level)
    (h : layer' ≠ layer) :
    (a.setLayer level layer m ns).segment level layer' m = a.segment level layer' m :=
  segment_congr fun _ hi => getElem?_setLayer_out hlayer fun hin => h (hi.unique hin)

theorem segment_setLayer (ns : List Location) (hlayer : layer ≤ level)
    (hlen : a.slots.length = slotCount level m) (hfits : ns.length ≤ layerCapacity m layer) :
    (a.setLayer level layer m ns).segment level layer m =
      ns ++ List.replicate (layerCapacity m layer - ns.length) .unused := by
  apply List.ext_getElem?
  intro j
  by_cases hj : j < layerCapacity m layer
  · rw [getElem?_segment hlayer hj,
      getElem?_setLayer_in ⟨hlayer, Nat.le_add_right _ _, Nat.add_lt_add_left hj _⟩ hlen,
      Nat.add_sub_cancel_left, List.getD_eq_getElem?_getD]
    by_cases hn : j < ns.length
    · rw [List.getElem?_append_left hn, List.getElem?_eq_getElem hn]
      rfl
    · rw [List.getElem?_append_right (by omega), List.getElem?_eq_none (by omega),
        List.getElem?_replicate, if_pos (by omega)]
      rfl
  · rw [segment_eq hlayer, List.getElem?_take_eq_none (by omega), List.getElem?_eq_none]
    rw [List.length_append, List.length_replicate]
    omega

end Adjacency

theorem mergeLayer_congr (s : Store) (p : Params) (d : Draft) {layer : Nat} {a b : Adjacency}
    (fresh : List Candidate)
    (h : a.segment d.level.toNat layer p.m = b.segment d.level.toNat layer p.m) :
    mergeLayer s p d layer a fresh = mergeLayer s p d layer b fresh := by
  have hlayer : a.layer d.level.toNat layer p.m = b.layer d.level.toNat layer p.m := by
    rw [Adjacency.layer, Adjacency.layer, h]
  simp only [mergeLayer, hlayer]

theorem Draft.strays_congr {p : Params} {d : Draft} {layer : Nat} {a b : Adjacency}
    (h : a.segment d.level.toNat layer p.m = b.segment d.level.toNat layer p.m) :
    d.Strays p a layer ↔ d.Strays p b layer := by
  rw [Draft.Strays, Draft.Strays, Adjacency.layer, Adjacency.layer, h]

structure LayerMerged (s : Store) (p : Params) (d : Draft) (layer : Nat) (a b : Adjacency)
    (fresh : List Candidate) (list : Option (List Candidate)) (kept : List Candidate) : Prop where
  merged : mergeLayer s p d layer a fresh = .ok kept
  list_eq : list = some kept
  segment : b.segment d.level.toNat layer p.m = kept.map Candidate.location ++
    List.replicate (p.capacity layer - kept.length) .unused

theorem mergeFrom_cases {t : Header} {s : Store} (h : s.Formed t) (p : Params) (d : Draft)
    (fresh : List (List Candidate)) :
    ∀ (start : Nat) (a : Adjacency) (lists : List (List Candidate)),
      ((∃ layer, start ≤ layer ∧ layer < start + fresh.length ∧ layer ≤ d.level.toNat ∧
          d.Strays p a layer) ∧ mergeFrom s p d start fresh a lists = .error .outsidePage) ∨
      (∀ layer, start ≤ layer → layer < start + fresh.length → layer ≤ d.level.toNat →
          ¬d.Strays p a layer) ∧ ∃ merged, mergeFrom s p d start fresh a lists = .ok merged := by
  induction fresh with
  | nil => exact fun start a lists => .inr ⟨fun layer hle hlt =>
      absurd hlt (Nat.not_lt.mpr hle), _, rfl⟩
  | cons first rest ih =>
    intro start a lists
    rw [mergeFrom, List.length_cons]
    by_cases habove : d.level.toNat < start
    · rw [if_pos habove]
      exact .inr ⟨fun layer hle _ hlayer => absurd (Nat.le_trans hle hlayer) (Nat.not_le.mpr habove),
        _, rfl⟩
    have hstart : start ≤ d.level.toNat := Nat.not_lt.mp habove
    rw [if_neg habove]
    rcases mergeLayer_cases h p d start a first with ⟨hstrays, hread⟩ | ⟨hclear, kept, hread⟩
    · rw [hread]
      exact .inl ⟨⟨start, Nat.le_refl _, by omega, hstart, hstrays⟩, rfl⟩
    rw [hread]
    -- The layers that follow have the links that they had.
    have hsame : ∀ layer, layer ≠ start → (d.Strays p
        (a.setLayer d.level.toNat start p.m (kept.map Candidate.location)) layer ↔
          d.Strays p a layer) := fun layer hne =>
      Draft.strays_congr (Adjacency.segment_setLayer_of_ne _ hstart hne)
    rcases ih (start + 1) (a.setLayer d.level.toNat start p.m (kept.map Candidate.location))
        (lists.set start kept) with
      ⟨⟨layer, hle, hlt, hlayer, hstrays⟩, hrest⟩ | ⟨hall, hrest⟩
    · exact .inl ⟨⟨layer, by omega, by omega, hlayer,
        (hsame layer (by omega)).mp hstrays⟩, hrest⟩
    · refine .inr ⟨fun layer hle hlt hlayer hstrays => ?_, hrest⟩
      by_cases hhere : layer = start
      · exact hclear (hhere ▸ hstrays)
      · exact hall layer (by omega) (by omega) hlayer ((hsame layer hhere).mpr hstrays)

theorem mergeFrom_layers {s : Store} {p : Params} {d : Draft} (fresh : List (List Candidate)) :
    ∀ (start : Nat) (a : Adjacency) (lists : List (List Candidate))
      {merged : Adjacency × List (List Candidate)},
      mergeFrom s p d start fresh a lists = .ok merged →
      a.slots.length = Adjacency.slotCount d.level.toNat p.m →
      (∀ layer, layer < start + fresh.length → layer ≤ d.level.toNat → layer < lists.length) →
      ∀ layer,
        (∀ found, start ≤ layer → fresh[layer - start]? = some found → layer ≤ d.level.toNat →
          ∃ kept, LayerMerged s p d layer a merged.1 found merged.2[layer]? kept) ∧
        (layer < start ∨ start + fresh.length ≤ layer ∨ d.level.toNat < layer →
          merged.1.segment d.level.toNat layer p.m = a.segment d.level.toNat layer p.m ∧
            merged.2[layer]? = lists[layer]?) := by
  induction fresh with
  | nil =>
    intro start a lists merged hmerge _ _ layer
    rw [← Except.ok.inj hmerge]
    exact ⟨fun found _ hfound => (nomatch hfound), fun _ => ⟨rfl, rfl⟩⟩
  | cons first rest ih =>
    intro start a lists merged hmerge hlen hlists layer
    rw [mergeFrom] at hmerge
    by_cases habove : d.level.toNat < start
    · rw [if_pos habove] at hmerge
      rw [← Except.ok.inj hmerge]
      exact ⟨fun found hle _ hlayer => absurd (Nat.le_trans hle hlayer) (Nat.not_le.mpr habove),
        fun _ => ⟨rfl, rfl⟩⟩
    have hstart : start ≤ d.level.toNat := Nat.not_lt.mp habove
    rw [if_neg habove] at hmerge
    cases hread : mergeLayer s p d start a first with
    | error e =>
      rw [hread] at hmerge
      cases hmerge
    | ok kept =>
      rw [hread] at hmerge
      rw [List.length_cons]
      have hinside : start < lists.length := hlists start (by simp) hstart
      have hset := Adjacency.segment_setLayer (kept.map Candidate.location) hstart hlen
        (by rw [List.length_map]; exact length_mergeLayer_le hread)
      have hother := fun (layer' : Nat) (hne : layer' ≠ start) =>
        Adjacency.segment_setLayer_of_ne (a := a) (m := p.m) (kept.map Candidate.location) hstart hne
      rw [List.length_map] at hset
      obtain ⟨hmerged, hsame⟩ := ih (start + 1)
        (a.setLayer d.level.toNat start p.m (kept.map Candidate.location)) (lists.set start kept)
        hmerge ((length_setLayer _ _ _ _ _).trans hlen)
        (fun layer' hlt hle => by
          rw [List.length_set]
          exact hlists layer' (by rw [List.length_cons]; omega) hle) layer
      constructor
      · intro found hle hfound hlayer
        by_cases hhere : layer = start
        · -- The lists that follow are for other layers and leave this one as it has been filled.
          subst hhere
          rw [Nat.sub_self, List.getElem?_cons_zero] at hfound
          obtain rfl := Option.some.inj hfound
          obtain ⟨hsegment, hlist⟩ := hsame (.inl (Nat.lt_succ_self layer))
          exact ⟨kept, hread, by rw [hlist, List.getElem?_set_self hinside], hsegment.trans hset⟩
        · -- What is merged later competes with what the record had before this layer was filled.
          have hnext : (first :: rest)[layer - start]? = rest[layer - (start + 1)]? := by
            rw [show layer - start = layer - (start + 1) + 1 by omega, List.getElem?_cons_succ]
          rw [hnext] at hfound
          obtain ⟨kept', hmerge', hlist, hsegment⟩ := hmerged found (by omega) hfound hlayer
          rw [mergeLayer_congr s p d found (hother layer hhere)] at hmerge'
          exact ⟨kept', hmerge', hlist, hsegment⟩
      · intro hout
        have hne : layer ≠ start := by omega
        obtain ⟨hsegment, hlist⟩ := hsame (by omega)
        exact ⟨hsegment.trans (hother layer hne),
          hlist.trans (List.getElem?_set_ne (Ne.symm hne))⟩

namespace Store

/-- A stored draft whose records nobody has replaced. -/
structure Owned (s : Store) (d : Draft) (e : Element) : Prop where
  element : s.element d.location = .ok e
  level : e.level = d.level
  neighborsAt : e.neighborsAt = d.neighborsAt

structure Merges (s : Store) (p : Params) (d : Draft) (fresh : List (List Candidate))
    (a b : Adjacency) (d' : Draft) (s' : Store) : Prop where
  before : s.adjacency d.neighborsAt = .ok a
  after : s'.adjacency d.neighborsAt = .ok b
  draft : d' = { d with neighbors := d'.neighbors }
  layers : ∀ layer found, fresh[layer]? = some found → layer ≤ d.level.toNat →
    ∃ kept, d'.neighbors[layer]? = some kept ∧
      s.Closest p d (a.layer d.level.toNat layer p.m) found (p.capacity layer) kept ∧
      b.segment d.level.toNat layer p.m = kept.map Candidate.location ++
        List.replicate (p.capacity layer - kept.length) .unused
  others : ∀ layer, fresh.length ≤ layer ∨ d.level.toNat < layer →
    b.segment d.level.toNat layer p.m = a.segment d.level.toNat layer p.m ∧
      d'.neighbors[layer]? = d.neighbors[layer]?
  records : ∀ l, l ≠ d.neighborsAt → s'.record? l = s.record? l
  /-- Of the store only the bytes of the record are written. -/
  bytes : ∃ page start, s.pages[d.neighborsAt.page.toNat]? = some page ∧
    page.itemId d.neighborsAt.slot.toNat = .ok (start, b.encode.size) ∧
    s' = s.withPage d.neighborsAt.page (page.write start b.encode)

end Store

theorem mergeNeighbors_merges {t : Header} {s : Store} (h : s.Intact t) {p : Params}
    (hm : p.m = t.m.toNat) {d : Draft} {e : Element} (howned : s.Owned d e)
    (fresh : List (List Candidate))
    (hlists : ∀ layer, layer < fresh.length → layer ≤ d.level.toNat → layer < d.neighbors.length) :
    ∃ a, s.adjacency d.neighborsAt = .ok a ∧
      ((∃ layer, layer < fresh.length ∧ layer ≤ d.level.toNat ∧ d.Strays p a layer) →
        mergeNeighbors p d fresh s = .error .outsidePage s) ∧
      ((∀ layer, layer < fresh.length → layer ≤ d.level.toNat → ¬d.Strays p a layer) →
        ∃ b d' s', mergeNeighbors p d fresh s = .ok d' s' ∧ s.Merges p d fresh a b d' s') := by
  obtain ⟨a, ha, hlen⟩ := h.paired.resolves _ e ((s.element_eq_ok _ e).mp howned.element)
  rw [howned.neighborsAt] at ha
  rw [howned.level, ← hm] at hlen
  have hread := (s.adjacency_eq_ok _ a).mpr ha
  refine ⟨a, hread, ?_⟩
  rcases mergeFrom_cases h.toFormed p d fresh 0 a d.neighbors with
    ⟨⟨layer, -, hlt, hlayer, hstrays⟩, herror⟩ | ⟨hclear, ⟨b, lists⟩, hmerge⟩
  · rw [Nat.zero_add] at hlt
    exact ⟨fun _ => mergeNeighbors_error h ha herror,
      fun hall => absurd hstrays (hall layer hlt hlayer)⟩
  refine ⟨fun ⟨layer, hlt, hlayer, hstrays⟩ =>
    absurd hstrays (hclear layer (Nat.zero_le _) (by omega) hlayer), fun _ => ?_⟩
  obtain ⟨page, start, hpage, hid, hq, -, hrew⟩ := h.rewrite_in_place d.neighborsAt (.adjacency a)
    (.adjacency b) ha (length_mergeFrom fresh 0 a d.neighbors hmerge)
    (Record.fits_mergeFrom h ha hmerge)
  have hlayers := mergeFrom_layers fresh 0 a d.neighbors hmerge hlen
    (fun layer hlt hle => hlists layer (by omega) hle)
  refine ⟨b, { d with neighbors := lists }, s.withPage d.neighborsAt.page
    (page.write start (Record.adjacency b).encode), ?_, hread, ?_, rfl,
    fun layer found hfound hlayer => ?_, fun layer hout => ?_, fun l hl => ?_, page, start, hpage,
    hid, rfl⟩
  · have hwrite : page.overwriteItem d.neighborsAt.slot.toNat b.encode =
        .ok (page.write start b.encode) := hq
    rw [mergeNeighbors_eq h ha hpage, hmerge]
    simp only [hwrite]
    rfl
  · rw [Store.adjacency_eq_ok, hrew.record]
    exact putRecord_self _ _ _
  · obtain ⟨kept, hkept, hlist, hsegment⟩ := (hlayers layer).1 found (Nat.zero_le _) hfound hlayer
    exact ⟨kept, hlist, mergeLayer_closest hkept, hsegment⟩
  · exact (hlayers layer).2 (.inr (by omega))
  · rw [hrew.record, putRecord_of_ne _ _ hl]

/-- Whatever several writers have done with an index that was opened empty: when fresh candidates are
merged into the record of a stored draft, each layer for which there are any keeps the closest of its
live links and of the candidates that are new to it. The merge goes through as long as no link in one
of these layers leads beyond the bytes of a page. -/
theorem own_lists_merged {path : String} {dimensions : UInt32} {o : Options} {file file' : FileState}
    {ix : Index} {s₀ : Store} (hblank : file.isBlank = true)
    (hopen : Index.openFile path dimensions o file = (.ok (ix, s₀), file')) {s : Store}
    {ws : List Writer} (hreach : Reaches ix.params ix.dimensions s₀ ⟨s, ws⟩) {d : Draft}
    {e : Element} (howned : s.Owned d e) (fresh : List (List Candidate))
    (hlists : ∀ layer, layer < fresh.length → layer ≤ d.level.toNat → layer < d.neighbors.length) :
    ∃ a, s.adjacency d.neighborsAt = .ok a ∧
      (∀ d' s', mergeNeighbors ix.params d fresh s = .ok d' s' →
        ∃ b, s.Merges ix.params d fresh a b d' s') ∧
      ((∀ layer, layer < fresh.length → layer ≤ d.level.toNat → ¬d.Strays ix.params a layer) →
        ∃ d' s', mergeNeighbors ix.params d fresh s = .ok d' s') := by
  obtain ⟨hopened, -⟩ := Index.opened_of_blank hblank hopen
  rw [hopened.width] at hreach
  have hintact := (hreach.sound hopened.m_eq hopened.intact).intact
  obtain ⟨a, ha, hstrays, hclear⟩ :=
    mergeNeighbors_merges hintact hopened.m_eq howned fresh hlists
  refine ⟨a, ha, fun d' s' hrun => ?_, fun hall => ?_⟩
  · by_cases hout : ∃ layer, layer < fresh.length ∧ layer ≤ d.level.toNat ∧
        d.Strays ix.params a layer
    · cases (hstrays hout).symm.trans hrun
    · obtain ⟨b, d₁, s₁, hrun₁, hmerges⟩ :=
        hclear fun layer hlt hle hlayer => hout ⟨layer, hlt, hle, hlayer⟩
      cases hrun₁.symm.trans hrun
      exact ⟨b, hmerges⟩
  · obtain ⟨b, d', s', hrun, -⟩ := hclear hall
    exact ⟨d', s', hrun⟩

namespace Index

structure SelfLinked (s : Store) (d : Draft) (a : Adjacency) : Prop where
  owned : s.Owned d third
  place : d.location = ⟨1, 0⟩ ∧ d.level = 0
  lists : 0 < d.neighbors.length
  before : s.adjacency d.neighborsAt = .ok a
  linked : ∀ k, k ∈ a.layer 0 0 wide.params.m ↔ k = ⟨1, 0⟩

/-- While a writer has the only element of an index as his candidate, another element is stored and
the candidate is deleted. His element takes its place. -/
theorem self_linked : ∃ s ws d a, Reaches wide.params wide.dimensions
    (Store.fresh (template 900 Options.standard)) ⟨s, ws⟩ ∧ SelfLinked s d a := by
  obtain ⟨s₁, hfirst, -, hreach⟩ := first_reached
  obtain ⟨s₂, hboth, hrun₂⟩ := hfirst.second_stored
  have hn₁ := numbered_two hfirst.size
  have hn₂ := numbered_two hboth.size
  rw [overlapped_none] at hrun₂
  -- The writer looks around while the first element is the only one.
  obtain ⟨lists, hfound⟩ := hfirst.searched ⟨plain 2, (0 : UInt8).toNat, none⟩
  have hlive := Store.searchFrom_live _ _ _ lists hfound
  have hconsult := consult_both wide.searching (Draft.new 0 (plain 2) 9) () (w := .none) hfound
    (findDuplicate_new hlive (hfirst.vector_ne (by decide)))
  rw [meanwhile_none, ← hfirst.entry] at hconsult
  have hconsulted := ((hreach.consult (length_plain 2) hn₁ hconsult).insert (length_plain 1) hn₁ hrun₂
    hn₂).delete ⟨1, 0⟩
  -- When he stores his element, the place of the first one is free again.
  have hdeleted := hboth.delete
  generalize (markDeleted ⟨1, 0⟩).after s₂ = s₃ at hconsulted hdeleted
  obtain ⟨s₄, hstore, hsize⟩ := hdeleted.room { Draft.new 0 (plain 2) 9 with neighbors := lists }
    (length_plain 2) rfl
  have hn₄ := numbered_two (hsize.trans hdeleted.size)
  have hplaced := storePair_placed hdeleted.settled.intact
    { Draft.new 0 (plain 2) 9 with neighbors := lists } (length_plain 2) hstore hn₄
  have hsettle := Insertion.store_run wide.params m_wide () s₁.entry hstore
  have hstored := hconsulted.settle (numbered_two hdeleted.size) hsettle hn₄
  have hrecord : s₄.record? ⟨1, 1⟩ = some (.adjacency (Draft.adjacency
      { Draft.new 0 (plain 2) 9 with neighbors := lists } wide.params.m)) := by
    rw [hplaced.put.record, putRecord_of_ne _ _ (by decide), putRecord_self]
    rfl
  have hall := hfirst.found hfound 0
  obtain ⟨c, hc⟩ := hall.2 (Nat.zero_le _) (Nat.zero_le _)
  refine ⟨s₄, _, { Draft.new 0 (plain 2) 9 with
      neighbors := lists, location := ⟨1, 0⟩, neighborsAt := ⟨1, 1⟩ }, _, hstored,
    ⟨(s₄.element_eq_ok _ _).mpr hplaced.element, rfl, rfl⟩, ⟨rfl, rfl⟩, ?_,
    (s₄.adjacency_eq_ok _ _).mpr hrecord, fun k => ?_⟩
  · cases lists with
    | nil => cases hc
    | cons x rest => exact Nat.succ_pos _
  · rw [Draft.adjacency, show (Draft.new 0 (plain 2) 9).level.toNat = 0 from rfl,
      Adjacency.mem_ofLayers (Nat.le_refl 0), getD_map_locations]
    constructor
    · rintro ⟨-, hk⟩
      obtain ⟨x, hx, rfl⟩ := List.mem_map.mp (List.mem_of_mem_take hk)
      exact hall.1 x hx
    · rintro rfl
      exact ⟨by decide, mem_take_of_only hall.1 ⟨c, hc⟩ (by decide)⟩

theorem SelfLinked.clear {s : Store} {d : Draft} {a : Adjacency} (h : SelfLinked s d a) :
    ∀ layer, layer < 1 → layer ≤ d.level.toNat → ¬d.Strays wide.params a layer := by
  rintro layer hlt - ⟨k, hk, hother, -⟩
  obtain rfl : layer = 0 := Nat.lt_one_iff.mp hlt
  obtain ⟨hlocation, hlevel⟩ := h.place
  rw [hlevel] at hk
  exact hother (((h.linked k).mp hk).trans hlocation.symm)

end Index

section
open Index

/-- The only link of an element leads to the element itself, which is alive. Without any fresh
candidates that link is dropped, and none is kept. -/
theorem own_link_dropped : ∃ s ws d a b d' s',
    Reaches wide.params wide.dimensions (Store.fresh (template 900 Options.standard)) ⟨s, ws⟩ ∧
    s.Owned d third ∧ s.adjacency d.neighborsAt = .ok a ∧
    d.location ∈ a.layer d.level.toNat 0 wide.params.m ∧ third.deleted = false ∧
    mergeNeighbors wide.params d [[]] s = .ok d' s' ∧ s'.adjacency d.neighborsAt = .ok b ∧
    b.layer d.level.toNat 0 wide.params.m = [] ∧ d'.neighbors[0]? = some [] := by
  obtain ⟨s, ws, d, a, hreach, hself⟩ := self_linked
  obtain ⟨hopened, -⟩ := opened_of_blank rfl (openFile_blank checkOptions_wide "index" .absent rfl)
  have hintact := (Reaches.sound m_wide hreach hopened.intact).intact
  obtain ⟨a', ha', -, hmerge⟩ := mergeNeighbors_merges hintact m_wide hself.owned [[]]
    fun layer hlt _ => Nat.lt_of_lt_of_le hlt hself.lists
  obtain rfl := Except.ok.inj (hself.before.symm.trans ha')
  obtain ⟨b, d', s', hrun, hmerges⟩ := hmerge hself.clear
  obtain ⟨hlocation, hlevel⟩ := hself.place
  obtain ⟨kept, hlist, hclosest, hsegment⟩ := hmerges.layers 0 [] rfl (Nat.zero_le _)
  have hnone : kept = [] := by
    obtain ⟨all, hall, -, rfl⟩ := hclosest.first
    refine List.eq_nil_iff_forall_not_mem.mpr fun c hc => ?_
    rcases (hall c).mp (List.mem_of_mem_take hc) with ⟨-, hmem, hother, -, -, -⟩ | ⟨-, -, hfirst⟩
    · rw [hlevel] at hmem
      exact hother (((hself.linked _).mp hmem).trans hlocation.symm)
    · cases hfirst
  rw [hnone] at hlist hsegment
  refine ⟨s, ws, d, a, b, d', s', hreach, hself.owned, hself.before, ?_, rfl, hrun, hmerges.after,
    ?_, hlist⟩
  · rw [hlevel, hlocation]
    exact (hself.linked _).mpr rfl
  · rw [Adjacency.layer, hsegment]
    exact List.filter_replicate_of_neg (by decide)

theorem own_lists_merged_wide : ∃ s ws d a,
    Reaches wide.params wide.dimensions (Store.fresh (template 900 Options.standard)) ⟨s, ws⟩ ∧
    s.Owned d third ∧ 0 < d.neighbors.length ∧ s.adjacency d.neighborsAt = .ok a ∧
    ∃ b d' s', mergeNeighbors wide.params d [[⟨⟨1, 2⟩, 5⟩]] s = .ok d' s' ∧
      s.Merges wide.params d [[⟨⟨1, 2⟩, 5⟩]] a b d' s' := by
  obtain ⟨s, ws, d, a, hreach, hself⟩ := self_linked
  have hblank : FileState.absent.isBlank = true := rfl
  obtain ⟨a', ha', hmerges, hruns⟩ := own_lists_merged hblank
    (openFile_blank checkOptions_wide "index" .absent hblank) hreach hself.owned [[⟨⟨1, 2⟩, 5⟩]]
    fun layer hlt _ => Nat.lt_of_lt_of_le hlt hself.lists
  obtain rfl := Except.ok.inj (hself.before.symm.trans ha')
  obtain ⟨d', s', hrun⟩ := hruns hself.clear
  obtain ⟨b, hmerge⟩ := hmerges d' s' hrun
  exact ⟨s, ws, d, a, hreach, hself.owned, hself.lists, hself.before, b, d', s', hrun, hmerge⟩

end

end PagedGraph
