import PagedGraph.Proofs.Beams
import PagedGraph.Proofs.Fitting
import PagedGraph.Proofs.Merging
import PagedGraph.Proofs.SearchEnds

/-!
# Elements that have found each other

A mesh is a set of live elements with links to each other in every layer that two of them reach; all
other elements are on their own (`Store.Meshed`). A search from the entry point of a mesh finds nobody
else, and it finds somebody on every layer that the entry point reaches.

Whoever has stored its element in an empty graph, and goes on, becomes the entry point or joins those
who have gone on before it: it searches from their entry point, merges what it has found into its own
list, links back, and takes the place of the entry point if it is higher (`connect_mesh`). So any
number of them come to form one mesh, whatever their order (`finish_all`).
-/

set_option autoImplicit false

namespace PagedGraph

namespace Store

def Member (s : Store) (D : Location → Prop) (layer : Nat) (l : Location) : Prop :=
  D l ∧ ∃ e, s.record? l = some (.element e) ∧ layer ≤ e.level.toNat

/-- The elements of `D` have links to each other in every layer that two of them reach. All other
elements are on their own. -/
structure Meshed (t : Header) (D : Location → Prop) (s : Store) : Prop where
  intact : s.Intact t
  live : ∀ l e, s.record? l = some (.element e) → e.deleted = false
  absent : s.entry = none → ∀ l, ¬D l
  top : ∀ x, s.entry = some x → s.Member D x.level.toNat x.location
  highest : ∀ x l e, s.entry = some x → D l → s.record? l = some (.element e) → e.level ≤ x.level
  links : ∀ layer l k, s.Link t.m.toNat layer l k → D l ∧ l ≠ k ∧ s.Member D layer k
  full : ∀ layer k l, s.Member D layer k → s.Member D layer l → k ≠ l →
    ∃ j, s.Link t.m.toNat layer k j

namespace Meshed

variable {t : Header} {D : Location → Prop} {s : Store}

theorem resolves (h : s.Meshed t D) : s.Resolves := by
  intro k a ha l hl hused
  obtain ⟨o, e, he, rfl⟩ := h.intact.paired.owned k a ha
  obtain ⟨b, hb, hlen⟩ := h.intact.paired.resolves o e he
  rw [ha] at hb
  cases hb
  obtain ⟨i, hi⟩ := List.mem_iff_getElem?.mp hl
  have hlt := (List.getElem?_eq_some_iff.mp hi).1
  rw [hlen] at hlt
  obtain ⟨layer, hlayer⟩ := exists_inLayer hlt
  have hlink : s.Link t.m.toNat layer o l :=
    ⟨e, a, he, ha, Adjacency.mem_layer.mpr ⟨hused, i, hlayer, hi⟩⟩
  obtain ⟨-, -, -, f, hf, -⟩ := h.links layer o l hlink
  exact ⟨f, hf⟩

theorem chosen (h : s.Meshed t D) {q : Params} (hq : q.m = t.m.toNat) (hpos : 0 < t.m.toNat)
    {x : EntryPoint} (hx : s.entry = some x) {query : Query}
    (hapart : ∀ own, query.exclude = some own → ¬D own) {lists : List (List Candidate)}
    (hlists : s.searchFrom q query x = .ok lists) {i : Nat} (hi : i ≤ query.level) :
    (∀ c ∈ lists.getD i [], s.Member D i c.location) ∧
      (i ≤ x.level.toNat → ∃ c, c ∈ lists.getD i []) := by
  obtain ⟨found, hfound, -, hchosen⟩ := searchFrom_beams hlists
  have hholds := beamsFrom_holds (by rw [hq]; exact hpos) (P := s.Member D)
    (fun layer l k _ hlink => (h.links layer l k (by rw [← hq]; exact hlink)).2.2)
    (fun layer l hl => by
      obtain ⟨hD, e, he, hlevel⟩ := hl
      exact ⟨hD, e, he, Nat.le_of_succ_le hlevel⟩)
    (h.top x hx) hfound
  obtain ⟨hin, hsome⟩ := hholds i
  rw [hchosen i hi]
  refine ⟨fun c hc => hin c (mem_of_choose hc), fun hlow => ?_⟩
  obtain ⟨c, hc⟩ := hsome hlow
  obtain ⟨hDc, f, hf, -⟩ := hin c hc
  exact choose_some (by rw [hq]; exact hpos) hc ⟨f, hf, h.live _ f hf⟩
    fun heq => hapart c.location heq hDc

theorem search (h : s.Meshed t D) {q : Params} (hq : q.m = t.m.toNat) (hpos : 0 < t.m.toNat)
    {x : EntryPoint} (hx : s.entry = some x) (vector : Embedding) (level : Nat) {own : Location}
    (hown : ¬D own) :
    ∃ lists, s.searchFrom q ⟨vector, level, some own⟩ x = .ok lists ∧ lists.length = level + 1 ∧
      ∀ i, i ≤ level → (∀ c ∈ lists.getD i [], s.Member D i c.location) ∧
        (i ≤ x.level.toNat → ∃ c, c ∈ lists.getD i []) := by
  obtain ⟨-, e, he, -⟩ := h.top x hx
  obtain ⟨lists, hlists⟩ := searchFrom_ok h.intact h.resolves q ⟨vector, level, some own⟩ he
  obtain ⟨-, -, hlength, -⟩ := searchFrom_beams hlists
  refine ⟨lists, hlists, hlength, fun i hi => h.chosen hq hpos hx (fun o ho => ?_) hlists hi⟩
  rwa [← Option.some.inj ho]

end Meshed

/-- An element has been connected to a mesh: links are those that were there and links between the
element and the mesh. In every layer that both reach it has a link and somebody in the mesh has. -/
structure Joined (t : Header) (D : Location → Prop) (own : Location) (s s' : Store) : Prop where
  kept : Kept t s s'
  back : ∀ layer l k, s'.Link t.m.toNat layer l k → s.Link t.m.toNat layer l k ∨
    s.Member (· = own) layer own ∧ (l = own ∧ s.Member D layer k ∨ k = own ∧ D l)
  keeps : ∀ layer l, (∃ k, s.Link t.m.toNat layer l k) → ∃ k, s'.Link t.m.toNat layer l k
  meets : ∀ layer l, s.Member D layer l → s.Member (· = own) layer own →
    (∃ k, s'.Link t.m.toNat layer own k) ∧
      ∃ j, s.Member D layer j ∧ ∃ k, s'.Link t.m.toNat layer j k

theorem Meshed.grow {t : Header} {D : Location → Prop} {s s' s'' : Store} (h : s.Meshed t D)
    {own : Location} {e : Element} (he : s.record? own = some (.element e)) (hown : ¬D own)
    (hjoined : s.Joined t D own s') (hintact : s''.Intact t) (hrecord : s''.record? = s'.record?)
    {y : EntryPoint} (hentry : s''.entry = some y)
    (hy : y = ⟨own, e.level⟩ ∧ (∀ x, s.entry = some x → x.level ≤ e.level) ∨
      s.entry = some y ∧ e.level ≤ y.level) :
    s''.Meshed t fun l => D l ∨ l = own := by
  have helement : ∀ l f, s''.record? l = some (.element f) ↔ s.record? l = some (.element f) := by
    intro l f
    rw [hrecord]
    exact hjoined.kept.element l f
  have hlink : ∀ layer l k, s''.Link t.m.toNat layer l k ↔ s'.Link t.m.toNat layer l k := by
    intro layer l k
    rw [Link, Link, hrecord]
  have hsplit : ∀ layer l, s''.Member (fun l => D l ∨ l = own) layer l ↔
      s.Member D layer l ∨ l = own ∧ s.Member (· = own) layer own := by
    intro layer l
    constructor
    · rintro ⟨hl, f, hf, hlevel⟩
      have hf' := (helement l f).mp hf
      rcases hl with hl | rfl
      · exact .inl ⟨hl, f, hf', hlevel⟩
      · exact .inr ⟨rfl, rfl, f, hf', hlevel⟩
    · rintro (⟨hl, f, hf, hlevel⟩ | ⟨rfl, -, f, hf, hlevel⟩)
      · exact ⟨.inl hl, f, (helement l f).mpr hf, hlevel⟩
      · exact ⟨.inr rfl, f, (helement l f).mpr hf, hlevel⟩
  constructor
  · exact hintact
  · intro l f hf
    exact h.live l f ((helement l f).mp hf)
  · intro hnone
    rw [hentry] at hnone
    cases hnone
  · intro x hx
    obtain rfl := Option.some.inj (hentry.symm.trans hx)
    rw [hsplit]
    rcases hy with ⟨rfl, -⟩ | ⟨hold, -⟩
    · exact .inr ⟨rfl, rfl, e, he, Nat.le_refl _⟩
    · exact .inl (h.top y hold)
  · intro x l f hx hl hf
    obtain rfl := Option.some.inj (hentry.symm.trans hx)
    have hf' := (helement l f).mp hf
    rcases hl with hl | rfl
    · rcases hy with ⟨rfl, habove⟩ | ⟨hold, -⟩
      · cases hs : s.entry with
        | none => exact absurd hl (h.absent hs l)
        | some x => exact UInt8.le_trans (h.highest x l f hs hl hf') (habove x hs)
      · exact h.highest y l f hold hl hf'
    · rw [he] at hf'
      cases hf'
      rcases hy with ⟨rfl, -⟩ | ⟨-, hle⟩
      · exact UInt8.le_refl _
      · exact hle
  · intro layer l k hk
    rw [hsplit]
    rcases hjoined.back layer l k ((hlink layer l k).mp hk) with hold | ⟨hreach, ⟨rfl, hk⟩ | ⟨rfl, hl⟩⟩
    · obtain ⟨hl, hne, hk⟩ := h.links layer l k hold
      exact ⟨.inl hl, hne, .inl hk⟩
    · exact ⟨.inr rfl, fun heq => hown (heq ▸ hk.1), .inl hk⟩
    · exact ⟨.inl hl, fun heq => hown (heq ▸ hl), .inr ⟨rfl, hreach⟩⟩
  · intro layer k l hk hl hne
    have hgoal : ∃ j, s'.Link t.m.toNat layer k j := by
      rcases (hsplit layer k).mp hk with hkD | ⟨rfl, -⟩
      · rcases (hsplit layer l).mp hl with hlD | ⟨rfl, hreach⟩
        · exact hjoined.keeps layer k (h.full layer k l hkD hlD hne)
        · -- Somebody in the mesh has been linked. If it is not this one, this one had a link before.
          obtain ⟨-, j, hj, hsome⟩ := hjoined.meets layer k hkD hreach
          by_cases hjk : k = j
          · rw [hjk]
            exact hsome
          · exact hjoined.keeps layer k (h.full layer k j hkD hj hjk)
      · rcases (hsplit layer l).mp hl with hlD | ⟨rfl, -⟩
        · rcases (hsplit layer k).mp hk with hkD | ⟨-, hreach⟩
          · exact absurd hkD.1 hown
          · exact (hjoined.meets layer l hlD hreach).1
        · exact absurd rfl hne
    obtain ⟨j, hj⟩ := hgoal
    exact ⟨j, (hlink layer k j).mpr hj⟩

end Store

theorem Store.Meshed.same {t : Header} {D : Location → Prop} {s s' : Store} (h : s.Meshed t D)
    (hkept : Store.Kept t s s') (hrecord : s'.record? = s.record?) : s'.Meshed t D where
  intact := hkept.intact
  live := fun l e he => h.live l e (by rw [← hrecord]; exact he)
  absent := fun hnone => h.absent (by rw [← hkept.entry]; exact hnone)
  top := by
    intro x hx
    rw [hkept.entry] at hx
    rw [Store.Member, hrecord]
    exact h.top x hx
  highest := by
    intro x l e hx hl he
    rw [hkept.entry] at hx
    rw [hrecord] at he
    exact h.highest x l e hx hl he
  links := by
    intro layer l k hk
    rw [Store.Link, hrecord] at hk
    rw [Store.Member, hrecord]
    exact h.links layer l k hk
  full := by
    intro layer k l hk hl hne
    rw [Store.Member, hrecord] at hk hl
    obtain ⟨j, hj⟩ := h.full layer k l hk hl hne
    exact ⟨j, by rw [Store.Link, hrecord]; exact hj⟩

namespace Insertion

structure Waiting (t : Header) (D : Location → Prop) (s : Store) (d : Draft) (e : Element) : Prop where
  found : s.record? d.location = some (.element e)
  level : e.level = d.level
  neighborsAt : e.neighborsAt = d.neighborsAt
  outside : ¬D d.location
  empty : d.neighbors = List.replicate (d.level.toNat + 1) []

section
variable {τ : Type} {t : Header} {D : Location → Prop} {s : Store} {d : Draft} {e : Element}
  (h : s.Meshed t D) (hd : Waiting t D s d e) (p : Params) (hp : p.m = t.m.toNat) (hpos : 0 < p.m)
  (own : τ)
include h hd

omit h in
theorem Waiting.neighbors (i : Nat) : d.neighbors.getD i [] = [] := by
  rw [hd.empty, List.getD_eq_getElem?_getD, List.getElem?_replicate]
  split <;> rfl

omit h in
theorem Waiting.member (layer : Nat) :
    s.Member (· = d.location) layer d.location ↔ layer ≤ d.level.toNat := by
  constructor
  · rintro ⟨-, f, hf, hlayer⟩
    rw [hd.found] at hf
    cases hf
    rwa [hd.level] at hlayer
  · exact fun hlayer => ⟨rfl, e, hd.found, by rwa [hd.level]⟩

theorem Waiting.unlinked (layer : Nat) (k : Location) : ¬s.Link t.m.toNat layer d.location k :=
  fun hk => hd.outside (h.links layer d.location k hk).1

theorem Waiting.joined {x : EntryPoint} (hx : s.entry = some x) {s₁ s₂ : Store}
    (lists : List (List Candidate)) (hkept₁ : Store.Kept t s s₁) (hkept₂ : Store.Kept t s₁ s₂)
    (hchosen : ∀ i, i ≤ d.level.toNat → (∀ c ∈ lists.getD i [], s.Member D i c.location) ∧
      (i ≤ x.level.toNat → ∃ c, c ∈ lists.getD i []))
    (hlinks₁ : ∀ layer l k, s₁.Link t.m.toNat layer l k ↔ if l = d.location then
        layer ≤ d.level.toNat ∧ ∃ c ∈ lists.getD layer [], c.location = k
      else s.Link t.m.toNat layer l k)
    (hgains : Store.Gains t.m.toNat d.location (fun layer l => (layer ≤ d.level.toNat ∧
      ∃ c ∈ lists.getD layer [], c.location = l) ∧ l ≠ d.location) s₁ s₂)
    (hlinked : ∀ layer, layer ≤ d.level.toNat → ∀ c ∈ lists.getD layer [], ∀ f,
      s₁.record? c.location = some (.element f) → c.location ≠ d.location → f.deleted = false →
      layer ≤ f.level.toNat → ∃ k, s₂.Link t.m.toNat layer c.location k) :
    s.Joined t D d.location s₂ where
  kept := hkept₁.trans hkept₂
  back := by
    intro layer l k hk
    rcases hgains.back hk with hk | ⟨rfl, ⟨hlayer, c, hc, rfl⟩, -⟩
    · rw [hlinks₁] at hk
      by_cases hl : l = d.location
      · rw [if_pos hl] at hk
        obtain ⟨hlayer, c, hc, rfl⟩ := hk
        exact .inr ⟨(hd.member layer).mpr hlayer, .inl ⟨hl, (hchosen layer hlayer).1 c hc⟩⟩
      · rw [if_neg hl] at hk
        exact .inl hk
    · exact .inr ⟨(hd.member layer).mpr hlayer, .inr ⟨rfl, ((hchosen layer hlayer).1 c hc).1⟩⟩
  keeps := by
    rintro layer l ⟨k, hk⟩
    have hne : l ≠ d.location := fun heq => hd.unlinked h layer k (heq ▸ hk)
    exact hgains.some ⟨k, (hlinks₁ layer l k).mpr (by rw [if_neg hne]; exact hk)⟩
  meets := by
    intro layer l hl hlayer
    rw [hd.member] at hlayer
    obtain ⟨hD, f, hf, hlevel⟩ := hl
    have hlow : layer ≤ x.level.toNat :=
      Nat.le_trans hlevel (UInt8.le_iff_toNat_le.mp (h.highest x l f hx hD hf))
    obtain ⟨c, hc⟩ := (hchosen layer hlayer).2 hlow
    obtain ⟨hDc, g, hg, hcl⟩ := (hchosen layer hlayer).1 c hc
    refine ⟨hgains.some ⟨c.location, ?_⟩, c.location, ⟨hDc, g, hg, hcl⟩, ?_⟩
    · rw [hlinks₁, if_pos rfl]
      exact ⟨hlayer, c, hc, rfl⟩
    · exact hlinked layer hlayer c hc g ((hkept₁.element _ g).mpr hg)
        (fun heq => hd.outside (heq ▸ hDc)) (h.live _ g hg) hcl

include hp hpos

theorem reconnect_run {x : EntryPoint} (hx : s.entry = some x) {fresh : List (List Candidate)}
    (hlength : fresh.length = d.level.toNat + 1)
    (hfresh : ∀ i, i ≤ d.level.toNat → (∀ c ∈ fresh.getD i [], s.Member D i c.location) ∧
      (i ≤ x.level.toNat → ∃ c, c ∈ fresh.getD i [])) :
    ∃ s', (reconnect p d x fresh).run (s, own) = .ok () (s', own) ∧
      s'.Meshed t (fun l => D l ∨ l = d.location) ∧
      ∀ l f, s'.record? l = some (.element f) ↔ s.record? l = some (.element f) := by
  have hmember : ∀ i c, c ∈ fresh.getD i [] → s.Member D i c.location := by
    intro i c hc
    by_cases hi : i ≤ d.level.toNat
    · exact (hfresh i hi).1 c hc
    · rw [List.getD_eq_getElem?_getD, List.getElem?_eq_none (by omega)] at hc
      cases hc
  -- The candidates become the draft's neighbors.
  obtain ⟨d', s₁, hmerge, hkept₁, ⟨hlevel, hlocation⟩, hlists, hlinks₁⟩ :=
    mergeNeighbors_blank h.intact hp hpos hd.found hd.level hd.neighborsAt
      (by rw [hp]; exact hd.unlinked h) (by rw [hd.empty, List.length_replicate]) hlength
      (fun i c hc => by
        obtain ⟨hD, f, hf, -⟩ := hmember i c hc
        exact ⟨fun heq => hd.outside (heq ▸ hD), bne_iff_ne.mpr (h.intact.page_ne hf)⟩)
  have hchosen : ∀ i, i ≤ d.level.toNat →
      (∀ c ∈ d'.neighbors.getD i [], s.Member D i c.location) ∧
        (i ≤ x.level.toNat → ∃ c, c ∈ d'.neighbors.getD i []) :=
    fun i hi => ⟨fun c hc => hmember i c ((hlists i hi).1 c hc),
      fun hlow => (hlists i hi).2 ((hfresh i hi).2 hlow)⟩
  have hstays : ∀ {l layer}, s.Member D layer l → ∃ f, s₁.record? l = some (.element f) :=
    fun ⟨_, f, hf, _⟩ => ⟨f, (hkept₁.element _ f).mpr hf⟩
  -- They link back.
  obtain ⟨s₂, hlink, hkept₂, -, hgains, hlinked⟩ := linkFrom_gains p hp d'
    (by rw [hlocation]; exact bne_iff_ne.mpr (h.intact.page_ne hd.found)) own d'.level.toNat s₁
    hkept₁.intact ⟨e, by rw [hlocation]; exact (hkept₁.element _ e).mpr hd.found⟩
    (fun i hi c hc => by
      rw [hlevel] at hi
      have hc := (hchosen i hi).1 c hc
      have hne : c.location ≠ d.location := fun heq => hd.outside (heq ▸ hc.1)
      refine ⟨hstays hc, fun k hk => ?_⟩
      rw [hlinks₁, if_neg hne, hp] at hk
      exact hstays (h.links i _ k hk).2.2)
  have hlinked := hlinked hpos
  rw [hlocation, hlevel] at hgains hlinked
  rw [hp] at hlinks₁ hgains hlinked
  have hkept := hkept₁.trans hkept₂
  have hjoined := hd.joined h hx d'.neighbors hkept₁ hkept₂ hchosen hlinks₁ hgains hlinked
  obtain ⟨s₃, hpromote, hintact, hrecord, hentry⟩ := tryPromote_run own hkept₂.intact d' (some x)
    (hkept.entry.trans hx) (by rw [hlocation]; exact h.intact.page_ne hd.found)
  refine ⟨s₃, ?_, ?_, fun l f => by rw [hrecord, hkept.element]⟩
  · rw [reconnect, Turns.run_bind_ok (Turns.run_act_ok hmerge own), linkNeighbors,
      Turns.run_bind_ok hlink, Turns.run_bind_ok hpromote]
    rfl
  · rw [hlevel, hlocation, outranks_congr (hlevel : d'.level = d.level), outranks] at hentry
    by_cases habove : x.level < d.level
    · rw [if_pos (decide_eq_true habove)] at hentry
      refine h.grow hd.found hd.outside hjoined hintact hrecord hentry (.inl ⟨by rw [hd.level], ?_⟩)
      intro y hy
      obtain rfl := Option.some.inj (hx.symm.trans hy)
      rw [hd.level]
      exact UInt8.le_of_lt habove
    · rw [if_neg (by simpa using habove)] at hentry
      refine h.grow hd.found hd.outside hjoined hintact hrecord hentry (.inr ⟨hx, ?_⟩)
      rw [hd.level]
      exact UInt8.not_lt.mp habove

theorem connect_mesh (q : Params) (hq : q.m = t.m.toNat) (cursor : Option PageId)
    (hcursor : ∀ id, cursor = some id → 0 < id.toNat ∧ id.toNat < s.pages.size) :
    ∃ s', (connect p (layerSearch τ q) (.stored d none cursor)).run (s, own) =
        .ok (.inserted d.location) (s', own) ∧
      s'.Meshed t (fun l => D l ∨ l = d.location) ∧
      ∀ l f, s'.record? l = some (.element f) ↔ s.record? l = some (.element f) := by
  obtain ⟨s₁, hkept, hrecord, hpublish⟩ := publish_moved p own h.intact d none cursor hcursor
  have hrest : (linkNeighbors p d >>= fun _ => tryPromote d none : Turns τ _) =
      tryPromote d none := by
    rw [linkNeighbors_none p d hd.neighbors]
    rfl
  rw [hrest] at hpublish
  have hmesh := h.same hkept hrecord
  have hd₁ : Waiting t D s₁ d e :=
    ⟨by rw [hrecord]; exact hd.found, hd.level, hd.neighborsAt, hd.outside, hd.empty⟩
  have hrank : outranks d none = true := rfl
  rw [tryPromote, if_pos hrank] at hpublish
  have helement : ∀ l f, s₁.record? l = some (.element f) ↔ s.record? l = some (.element f) :=
    hkept.element
  rcases promote_run hmesh.intact ⟨d.location, d.level⟩ none with
    ⟨hrun, habove⟩ | ⟨x, hx, ⟨-, hprior, -⟩ | ⟨hrun, -⟩⟩
  · have hnone : s₁.entry = none := by
      cases hentry : s₁.entry with
      | none => rfl
      | some x => exact absurd rfl (habove x hentry).1
    obtain ⟨a, s₂, hrun', hend⟩ := promote_cases hmesh.intact ⟨d.location, d.level⟩ none
      (hmesh.intact.page_ne hd₁.found)
    obtain ⟨rfl, -⟩ := EStateM.Result.ok.inj (hrun.symm.trans hrun')
    cases hend with
    | installed s₂ hintact hrecord₂ hsize hentry _ =>
      have hempty := hmesh.absent hnone
      refine ⟨s₂, ?_, ?_, fun l f => by rw [hrecord₂, helement]⟩
      · rw [connect, Turns.run_bind_ok (hpublish.trans
          (Turns.run_bind_ok (Turns.run_act_ok hrun' own)))]
        rfl
      · refine hmesh.grow hd₁.found hd₁.outside ⟨.refl hmesh.intact, fun _ _ _ => .inl,
          fun _ _ => id, fun _ l hl => absurd hl.1 (hempty l)⟩ hintact hrecord₂ hentry
          (.inl ⟨by rw [hd.level], fun x hx => ?_⟩)
        rw [hnone] at hx
        cases hx
  · exact absurd rfl hprior
  · obtain ⟨fresh, hfresh, hlength, hlists⟩ := hmesh.search hq (by rw [← hp]; exact hpos) hx d.vector
      d.level.toNat hd₁.outside
    have hread : Action.reading (fun s => s.searchFrom q ⟨d.vector, d.level.toNat,
        some d.location⟩ x) s₁ = .ok fresh s₁ := by
      rw [Action.reading, hfresh]
    obtain ⟨s₂, hreconnect, hmesh₂, helement₂⟩ := reconnect_run hmesh hd₁ p hp hpos own hx
      hlength hlists
    refine ⟨s₂, ?_, hmesh₂, fun l f => (helement₂ l f).trans (helement l f)⟩
    rw [connect, Turns.run_bind_ok (hpublish.trans
      (Turns.run_bind_ok (Turns.run_act_ok hrun own)))]
    show ((Turns.act (Action.reading fun s => s.searchFrom q ⟨d.vector, d.level.toNat,
      some d.location⟩ x) : Turns τ _) >>= fun fresh =>
        reconnect p d x fresh >>= fun _ => pure (Outcome.inserted d.location)).run (s₁, own) = _
    rw [Turns.run_bind_ok (Turns.run_act_ok hread own), Turns.run_bind_ok hreconnect]
    rfl

end

/-- An insertion that has stored its draft without neighbors, and has still to be connected. -/
inductive Pending (t : Header) (D : Location → Prop) (s : Store) : Insertion → Prop where
  | stored (d : Draft) (e : Element) (cursor : Option PageId) (waiting : Waiting t D s d e)
      (bound : ∀ id, cursor = some id → 0 < id.toNat ∧ id.toNat < s.pages.size) :
      Pending t D s (.stored d none cursor)

/-- Whatever the order in which they go on, they come to form one mesh. -/
theorem finish_all {τ : Type} {t : Header} (p q : Params) (hp : p.m = t.m.toNat)
    (hq : q.m = t.m.toNat) (hpos : 0 < p.m) (own : τ) (js : List Insertion) :
    ∀ (D : Location → Prop) (s : Store), s.Meshed t D → (js.map outcome).Nodup →
      (∀ j ∈ js, Pending t D s j) →
      ∃ s', js.mapM (finish p (layerSearch τ q)) (s, own) = .ok (js.map outcome) (s', own) ∧
        s'.Meshed t (fun l => D l ∨ .inserted l ∈ js.map outcome) ∧
        ∀ l f, s'.record? l = some (.element f) ↔ s.record? l = some (.element f) := by
  induction js with
  | nil =>
    intro D s h _ _
    refine ⟨s, rfl, ?_, fun _ _ => Iff.rfl⟩
    have hD : (fun l => D l ∨ .inserted l ∈ ([] : List Insertion).map outcome) = D := by
      funext l
      exact propext ⟨fun hl => hl.resolve_right (List.not_mem_nil), .inl⟩
    rw [hD]
    exact h
  | cons j rest ih =>
    intro D s h hapart hpending
    rw [List.map_cons, List.nodup_cons] at hapart
    obtain ⟨d, e, cursor, hd, hcursor⟩ := hpending j List.mem_cons_self
    obtain ⟨s₁, hrun, hmesh, helement⟩ := connect_mesh h hd p hp hpos own q hq cursor hcursor
    have hsize : s.pages.size ≤ s₁.pages.size := by
      have hgrow := (grows_connect p q (.stored d none cursor)).run s own
      rwa [ActionWith.after, hrun] at hgrow
    have hrest : ∀ i ∈ rest, Pending t (fun l => D l ∨ l = d.location) s₁ i := by
      intro i hi
      obtain ⟨f, g, cursor', hf, hbound⟩ := hpending i (List.mem_cons_of_mem _ hi)
      refine .stored f g cursor' ⟨(helement _ _).mpr hf.found, hf.level, hf.neighborsAt, ?_,
        hf.empty⟩ fun id hid => ⟨(hbound id hid).1, Nat.lt_of_lt_of_le (hbound id hid).2 hsize⟩
      rintro (hold | hsame)
      · exact hf.outside hold
      · apply hapart.1
        rw [outcome, ← hsame]
        exact List.mem_map_of_mem hi
    obtain ⟨s', hruns, hmesh', helement'⟩ := ih _ s₁ hmesh hapart.2 hrest
    refine ⟨s', ?_, ?_, fun l f => (helement' l f).trans (helement l f)⟩
    · have hfirst : finish p (layerSearch τ q) (.stored d none cursor) (s, own) =
          .ok (.inserted d.location) (s₁, own) := hrun
      rw [List.mapM_cons]
      simp only [bind, EStateM.bind, hfirst, hruns]
      rfl
    · have hD : (fun l => D l ∨ .inserted l ∈ (Insertion.stored d none cursor :: rest).map outcome) =
          fun l => (D l ∨ l = d.location) ∨ .inserted l ∈ rest.map outcome := by
        funext l
        rw [List.map_cons, List.mem_cons, outcome, Outcome.inserted.injEq, or_assoc]
      rw [hD]
      exact hmesh'

end Insertion

end PagedGraph
