import Mathlib.Logic.Relation
import PagedGraph.Proofs.Meshes
import PagedGraph.Proofs.Orphans

/-!
# Nobody is alone in a layer

As long as nothing is deleted, all elements form one mesh. A new element finds somebody in every layer
that it shares with another one, since the entry point reaches all of these, and is linked to whom it
has found. If only one element reached a layer before, it is this one that is found there, and it has
room for a link back. From then on a list that has a link always has one: links give way to other
links only.

So each element has a neighbor in every layer that another one reaches, and that neighbor reaches the
layer (`accompanied`).
-/

set_option autoImplicit false

namespace PagedGraph

namespace Store

def HasElement (s : Store) (l : Location) : Prop := ∃ e, s.record? l = some (.element e)

def Retains (s s' : Store) : Prop :=
  ∀ l e, s.record? l = some (.element e) → ∃ f, s'.record? l = some (.element f) ∧ f.level = e.level

section
variable {t : Header} {s s' : Store} {layer : Nat} {l : Location}

theorem member_all : s.Member s.HasElement layer l ↔
    ∃ e, s.record? l = some (.element e) ∧ layer ≤ e.level.toNat :=
  ⟨And.right, fun h => ⟨h.imp fun _ => And.left, h⟩⟩

theorem Retains.refl (s : Store) : s.Retains s := fun _ e he => ⟨e, he, rfl⟩

theorem Retains.trans {s'' : Store} (h : s.Retains s') (h' : s'.Retains s'') : s.Retains s'' := by
  intro l e he
  obtain ⟨f, hf, hlevel⟩ := h l e he
  obtain ⟨g, hg, hlevel'⟩ := h' l f hf
  exact ⟨g, hg, hlevel'.trans hlevel⟩

theorem Retains.member (h : s.Retains s') (hl : s.Member s.HasElement layer l) :
    s'.Member s'.HasElement layer l := by
  obtain ⟨-, e, he, hlayer⟩ := hl
  obtain ⟨f, hf, hlevel⟩ := h l e he
  exact member_all.mpr ⟨f, hf, by rwa [hlevel]⟩

theorem Puts.retains {e : Element} (h : s.Puts s' l e)
    (hold : ∀ f, s.record? l = some (.element f) → e.level = f.level) : s.Retains s' := by
  intro k f hf
  by_cases hk : k = l
  · rw [hk] at hf ⊢
    exact ⟨e, (h l e).mpr (by rw [if_pos rfl]), hold f hf⟩
  · exact ⟨f, (h k f).mpr (by rw [if_neg hk]; exact hf), rfl⟩

theorem Navigable.meshed (h : s.Navigable) (hs : s.Intact t)
    (hlive : ∀ l e, s.record? l = some (.element e) → e.deleted = false)
    (hlinks : ∀ layer l k, s.Link t.m.toNat layer l k → l ≠ k ∧ s.Member s.HasElement layer k)
    (hfull : ∀ layer k l, s.Member s.HasElement layer k → s.Member s.HasElement layer l → k ≠ l →
      ∃ j, s.Link t.m.toNat layer k j) : s.Meshed t s.HasElement where
  intact := hs
  live := hlive
  absent := fun hnone l ⟨e, he⟩ => h.absent hnone l e he
  top := by
    intro x hx
    obtain ⟨e, he, hlevel⟩ := h.found x hx
    exact member_all.mpr ⟨e, he, Nat.le_of_eq (congrArg UInt8.toNat hlevel.symm)⟩
  highest := fun x l e hx _ he => h.highest x l e hx he
  links := by
    intro layer l k hk
    refine ⟨?_, hlinks layer l k hk⟩
    obtain ⟨e, -, he, -⟩ := hk
    exact ⟨e, he⟩
  full := hfull

theorem Meshed.rewritten (h : s.Meshed t s.HasElement) {e e' : Element}
    (hrew : s.Rewritten s' l (.element e')) (he : s.record? l = some (.element e))
    (hsame : e'.level = e.level ∧ e'.neighborsAt = e.neighborsAt) (hlife : e'.deleted = e.deleted)
    (hs : s'.Intact t) (hnav : s'.Navigable) : s'.Meshed t s'.HasElement ∧ s.Retains s' := by
  have hretains : s.Retains s' := hrew.puts.retains fun f hf => by
    rw [he] at hf
    cases hf
    exact hsame.1
  have hback : s'.Retains s := by
    intro k f hf
    have hput := (hrew.puts k f).mp hf
    by_cases hk : k = l
    · rw [if_pos hk] at hput
      rw [hk, hput]
      exact ⟨e, he, hsame.1.symm⟩
    · rw [if_neg hk] at hput
      exact ⟨f, hput, rfl⟩
  have hlink := fun layer j k => hrew.link he hsame t.m.toNat layer j k
  refine ⟨hnav.meshed hs ?_ ?_ ?_, hretains⟩
  · intro k f hf
    have hput := (hrew.puts k f).mp hf
    by_cases hk : k = l
    · rw [if_pos hk] at hput
      rw [hput, hlife, h.live l e he]
    · rw [if_neg hk] at hput
      exact h.live k f hput
  · intro layer j k hk
    obtain ⟨-, hne, hmember⟩ := h.links layer j k ((hlink layer j k).mp hk)
    exact ⟨hne, hretains.member hmember⟩
  · intro layer k j hk hj hne
    obtain ⟨i, hi⟩ := h.full layer k j (hback.member hk) (hback.member hj) hne
    exact ⟨i, (hlink layer k i).mpr hi⟩

end

end Store

namespace Insertion

section
variable {t : Header} {s s' : Store} {d : Draft} {lists : List (List Candidate)} {l : Location}
  (h : s.Meshed t s.HasElement) (hmeeting : Meeting t s s' d lists l)
include h hmeeting

theorem Meeting.fresh : ¬s.HasElement l := by
  rintro ⟨e, he⟩
  exact (hmeeting.live l ⟨e, he, h.live l e he⟩).1 rfl

theorem Meeting.retains : s.Retains s' := by
  obtain ⟨e, hputs, -⟩ := hmeeting.puts
  exact hputs.retains fun f hf => absurd ⟨f, hf⟩ (hmeeting.fresh h)

omit h in
theorem Meeting.member {layer : Nat} {k : Location} (hk : s'.Member s'.HasElement layer k) :
    k ≠ l ∧ s.Member s.HasElement layer k ∨ k = l ∧ layer ≤ d.level.toNat := by
  obtain ⟨e, hputs, hlevel, -⟩ := hmeeting.puts
  obtain ⟨-, f, hf, hlayer⟩ := hk
  have hput := (hputs k f).mp hf
  by_cases hkl : k = l
  · rw [if_pos hkl] at hput
    rw [hput, hlevel] at hlayer
    exact .inr ⟨hkl, hlayer⟩
  · rw [if_neg hkl] at hput
    exact .inl ⟨hkl, Store.member_all.mpr ⟨f, hput, hlayer⟩⟩

/-- A new element is one of the mesh, if its search has chosen others of the mesh and has found
somebody wherever the entry point reaches. -/
theorem Meeting.meshed (hpos : 0 < t.m.toNat) (hnav : s'.Navigable)
    (hnone : s.entry = none → ∀ i, lists.getD i [] = [])
    (hchosen : ∀ x, s.entry = some x → ∀ i, i ≤ d.level.toNat →
      (∀ c ∈ lists.getD i [], s.Member s.HasElement i c.location) ∧
        (i ≤ x.level.toNat → ∃ c, c ∈ lists.getD i [])) : s'.Meshed t s'.HasElement := by
  have hretains := hmeeting.retains h
  obtain ⟨e, hputs, hlevel, hlive⟩ := hmeeting.puts
  have hnew : ∀ layer, layer ≤ d.level.toNat → s'.Member s'.HasElement layer l := fun layer hlayer =>
    Store.member_all.mpr ⟨e, (hputs l e).mpr (by rw [if_pos rfl]), by rwa [hlevel]⟩
  -- The candidates are in the mesh, and there is one wherever somebody of the mesh is.
  have hin : ∀ layer, layer ≤ d.level.toNat → ∀ c ∈ lists.getD layer [],
      s.Member s.HasElement layer c.location := by
    intro layer hlayer c hc
    cases hx : s.entry with
    | none =>
      rw [hnone hx] at hc
      cases hc
    | some x => exact (hchosen x hx layer hlayer).1 c hc
  have hsome : ∀ layer k, layer ≤ d.level.toNat → s.Member s.HasElement layer k →
      ∃ c, c ∈ lists.getD layer [] := by
    rintro layer k hlayer ⟨hk, f, hf, hreach⟩
    cases hx : s.entry with
    | none => exact absurd hk (h.absent hx k)
    | some x =>
      have hhigh := UInt8.le_iff_toNat_le.mp (h.highest x k f hx hk hf)
      exact (hchosen x hx layer hlayer).2 (Nat.le_trans hreach hhigh)
  refine hnav.meshed hmeeting.intact ?_ ?_ ?_
  · intro k f hf
    have hput := (hputs k f).mp hf
    by_cases hk : k = l
    · rw [if_pos hk] at hput
      rw [hput, hlive]
    · rw [if_neg hk] at hput
      exact h.live k f hput
  · intro layer k j hj
    by_cases hk : k = l
    · rw [hk] at hj ⊢
      obtain ⟨hlayer, -, hmem⟩ := (hmeeting.own layer j).mp hj
      obtain ⟨c, hc, rfl⟩ := List.mem_map.mp (List.mem_of_mem_take hmem)
      have hmember := hin layer hlayer c hc
      exact ⟨fun heq => hmeeting.fresh h (heq ▸ hmember.1), hretains.member hmember⟩
    · rcases hmeeting.back layer k j hk hj with hold | ⟨rfl, hlayer⟩
      · obtain ⟨-, hne, hmember⟩ := h.links layer k j hold
        exact ⟨hne, hretains.member hmember⟩
      · exact ⟨hk, hnew layer hlayer⟩
  · intro layer k j hk hj hne
    rcases hmeeting.member hk with ⟨hkl, hold⟩ | ⟨rfl, hlayer⟩
    · rcases hmeeting.member hj with ⟨-, hold'⟩ | ⟨rfl, hlayer⟩
      · exact hmeeting.keeps layer k hkl (h.full layer k j hold hold' hne)
      · obtain ⟨c, hc⟩ := hsome layer k hlayer hold
        have hmember := hin layer hlayer c hc
        by_cases hck : c.location = k
        · obtain ⟨-, f, hf, hreach⟩ := hmember
          rw [← hck]
          exact hmeeting.meets layer hlayer c hc f hf (h.live _ f hf) hreach
        · exact hmeeting.keeps layer k hkl (h.full layer k _ hold hmember (Ne.symm hck))
    · rcases hmeeting.member hj with ⟨-, hold⟩ | ⟨rfl, -⟩
      · obtain ⟨c, hc⟩ := hsome layer j hlayer hold
        obtain ⟨i, hi⟩ := List.exists_mem_of_length_pos
          (l := ((lists.getD layer []).map Candidate.location).take (layerCapacity t.m.toNat layer))
          (by
            rw [List.length_take, List.length_map]
            exact Nat.lt_min.mpr ⟨layerCapacity_pos hpos layer, List.length_pos_of_mem hc⟩)
        obtain ⟨x, hx, hxi⟩ := List.mem_map.mp (List.mem_of_mem_take hi)
        obtain ⟨-, f, hf, -⟩ := hin layer hlayer x hx
        rw [hxi] at hf
        exact ⟨i, (hmeeting.own layer i).mpr ⟨hlayer, bne_iff_ne.mpr (h.intact.page_ne hf), hi⟩⟩
      · exact absurd rfl hne

end

end Insertion

namespace Index

/-- One call of a user who deletes nothing. Whenever the index is opened anew, dimensions, fan-out and
metric are those of the first time. -/
inductive Addition (dimensions : UInt32) (o : Options) : Index × Store → Index × Store → Prop where
  | insert {ix : Index} {s : Store} (vector : Option Embedding) (row : RowId) (level : UInt8)
      (numbered : ((ix.insertAtLevel vector row level).after s).Numbered) :
      Addition dimensions o (ix, s) (ix, (ix.insertAtLevel vector row level).after s)
  | tune {ix : Index} {s : Store} (width : Nat) :
      Addition dimensions o (ix, s) (ix.withConstruction width, s)
  | reopen {ix ix' : Index} {s s' : Store} {path : String} {o' : Options} {file' : FileState}
      (fanOut : o'.m = o.m) (metric : o'.metric = o.metric)
      (opens : openFile path dimensions o' s.close = (.ok (ix', s'), file')) :
      Addition dimensions o (ix, s) (ix', s')

structure Gathered (dimensions : UInt32) (o : Options) (x : Index × Store) : Prop where
  settled : ∃ o', o'.m = o.m ∧ o'.metric = o.metric ∧ Settled dimensions o' x.1 x.2
  meshed : x.2.Meshed (template dimensions o) x.2.HasElement

variable {dimensions : UInt32} {o : Options} {ix : Index} {s : Store}

theorem Addition.stored {vector : Option Embedding} {row : RowId} {level : UInt8}
    {outcome : Outcome} {s' : Store} (hrun : ix.insertAtLevel vector row level s = .ok outcome s')
    (hn : s'.Numbered) : Addition dimensions o (ix, s) (ix, s') := by
  have hafter := Action.after_ok hrun
  have hcall : Addition dimensions o (ix, s) (ix, (ix.insertAtLevel vector row level).after s) :=
    .insert vector row level (by rwa [hafter])
  rwa [hafter] at hcall

theorem gathered_of_blank {path : String} {file file' : FileState} (blank : file.isBlank = true)
    (opens : openFile path dimensions o file = (.ok (ix, s), file')) :
    Gathered dimensions o (ix, s) := by
  have hsettled := settled_of_blank blank opens
  obtain ⟨hopened, rfl⟩ := opened_of_blank blank opens
  have hnone := record?_fresh hopened.params
  refine ⟨⟨o, rfl, rfl, hsettled⟩, hsettled.navigable.meshed hsettled.intact ?_ ?_ ?_⟩
  · intro l e he
    rw [hnone] at he
    cases he
  · rintro layer l k ⟨e, a, he, -⟩
    rw [hnone] at he
    cases he
  · rintro layer k l ⟨⟨e, he⟩, -⟩
    rw [hnone] at he
    cases he

theorem Settled.meshed_insert (h : Settled dimensions o ix s)
    (hmesh : s.Meshed (template dimensions o) s.HasElement) (vector : Option Embedding) (row : RowId)
    (level : UInt8) (hb : ((ix.insertAtLevel vector row level).after s).Numbered) :
    ((ix.insertAtLevel vector row level).after s).Meshed (template dimensions o)
        ((ix.insertAtLevel vector row level).after s).HasElement ∧
      s.Retains ((ix.insertAtLevel vector row level).after s) := by
  have hsettled := h.insert vector row level hb
  have hcourse := h.course vector row level hb
  generalize hanswer : (ix.insertAtLevel vector row level).answer s = r at hcourse
  generalize hafter : (ix.insertAtLevel vector row level).after s = s' at hcourse hsettled
  have hunchanged : s.Meshed (template dimensions o) s.HasElement ∧ s.Retains s := ⟨hmesh, .refl s⟩
  cases hcourse with
  | unchanged r nowhere => exact hunchanged
  | ended w lists r s' consulted ended =>
    cases ended with
    | failed e => exact hunchanged
    | joined l e place s' found intact rewritten =>
      exact hmesh.rewritten rewritten found ⟨rfl, rfl⟩ rfl intact hsettled.navigable
    | stored st s₁ s' room placed woven =>
      obtain ⟨v, w', chosen, -, -, hmeeting, -, hnone, hsearch⟩ := h.linking hanswer hb
      rw [hafter] at hmeeting
      have hpos : 0 < (template dimensions o).m.toNat := by
        rw [← h.m_eq]
        exact h.m_pos
      have hfanOut : ix.searching.m = (template dimensions o).m.toNat := h.m_eq
      have hnobody : ∀ own, (Query.mk w' level.toNat none).exclude = some own →
          ¬s.HasElement own := fun own hown => by cases hown
      exact ⟨hmeeting.meshed hmesh hpos hsettled.navigable hnone fun x hx i hi =>
        hmesh.chosen hfanOut hpos hx hnobody (hsearch x hx) hi, hmeeting.retains hmesh⟩

theorem Gathered.step {x y : Index × Store} (h : Gathered dimensions o x)
    (step : Addition dimensions o x y) : Gathered dimensions o y ∧ x.2.Retains y.2 := by
  obtain ⟨⟨o', hm, hmetric, hsettled⟩, hmesh⟩ := h
  have htemplate : template dimensions o' = template dimensions o := template_congr hm hmetric
  cases step with
  | insert vector row level numbered =>
    rw [← htemplate] at hmesh
    obtain ⟨hmesh', hretains⟩ := hsettled.meshed_insert hmesh vector row level numbered
    rw [htemplate] at hmesh'
    exact ⟨⟨⟨o', hm, hmetric, hsettled.insert vector row level numbered⟩, hmesh'⟩, hretains⟩
  | tune width =>
    exact ⟨⟨⟨o', hm, hmetric, ⟨hsettled.params, hsettled.width, hsettled.intact⟩,
      hsettled.navigable⟩, hmesh⟩, .refl _⟩
  | @reopen ix ix' s s' path o₂ file' fanOut metric opens =>
    obtain ⟨rfl, hsettled'⟩ :=
      hsettled.reopen (fanOut.trans hm.symm) (metric.trans hmetric.symm) opens
    exact ⟨⟨⟨o₂, fanOut, metric, hsettled'⟩, hmesh⟩, .refl _⟩

theorem Gathered.steps {x y : Index × Store} (h : Gathered dimensions o x)
    (steps : Relation.ReflTransGen (Addition dimensions o) x y) :
    Gathered dimensions o y ∧ x.2.Retains y.2 := by
  induction steps with
  | refl => exact ⟨h, .refl _⟩
  | tail _ step ih =>
    obtain ⟨hgathered, hretains⟩ := ih
    obtain ⟨hnext, hretains'⟩ := hgathered.step step
    exact ⟨hnext, hretains.trans hretains'⟩

/-- Whatever one user who deletes nothing has done with an index that was opened on a blank file: once
two elements reach a layer, all that reach it have a neighbor there from then on, and this is another
element that reaches the layer. -/
theorem accompanied {path : String} {file file' : FileState} {ix₀ ix' : Index} {s₀ s' : Store}
    (hblank : file.isBlank = true)
    (hopen : openFile path dimensions o file = (.ok (ix₀, s₀), file'))
    (hcalls : Relation.ReflTransGen (Addition dimensions o) (ix₀, s₀) (ix, s))
    (hlater : Relation.ReflTransGen (Addition dimensions o) (ix, s) (ix', s'))
    {layer : Nat} {k l : Location} {e f : Element} (hne : k ≠ l) (he : s.element k = .ok e)
    (hf : s.element l = .ok f) (hk : layer ≤ e.level.toNat) (hl : layer ≤ f.level.toNat)
    {j : Location} {g : Element} (hg : s'.element j = .ok g) (hj : layer ≤ g.level.toNat) :
    ∃ a i x, s'.adjacency g.neighborsAt = .ok a ∧ i ∈ a.layer g.level.toNat layer ix'.params.m ∧
      i ≠ j ∧ s'.element i = .ok x ∧ layer ≤ x.level.toNat := by
  obtain ⟨hgathered, -⟩ := (gathered_of_blank hblank hopen).steps hcalls
  obtain ⟨⟨⟨o', hm, -, hsettled⟩, hmesh⟩, hretains⟩ := hgathered.steps hlater
  rw [Store.element_eq_ok] at he hf hg
  have hmk : s'.Member s'.HasElement layer k := hretains.member (Store.member_all.mpr ⟨e, he, hk⟩)
  have hml : s'.Member s'.HasElement layer l := hretains.member (Store.member_all.mpr ⟨f, hf, hl⟩)
  have hmj : s'.Member s'.HasElement layer j := Store.member_all.mpr ⟨g, hg, hj⟩
  -- One of the two is not the element in question.
  obtain ⟨i, hi⟩ : ∃ i, s'.Link (template dimensions o).m.toNat layer j i := by
    by_cases hjk : j = k
    · exact hmesh.full layer j l hmj hml fun hjl => hne (hjk.symm.trans hjl)
    · exact hmesh.full layer j k hmj hmk hjk
  obtain ⟨-, hapart, -, x, hx, hreach⟩ := hmesh.links layer j i hi
  obtain ⟨a, ha, -⟩ := hmesh.intact.paired.resolves j g hg
  have hfanOut : ix'.params.m = (template dimensions o).m.toNat :=
    hsettled.m_eq.trans (congrArg UInt16.toNat hm)
  refine ⟨a, i, x, (s'.adjacency_eq_ok _ a).mpr ha, ?_, hapart.symm, (s'.element_eq_ok i x).mpr hx,
    hreach⟩
  rw [hfanOut]
  exact (Store.link_iff hg ha).mp hi

theorem accompanied_two : ∃ s₁ s₂ a i x,
    insertAtLevel wide (some (plain 0)) 7 1 (Store.fresh (template 900 Options.standard)) =
      .ok (.inserted ⟨1, 0⟩) s₁ ∧
    insertAtLevel wide (some (plain 1)) 8 2 s₁ = .ok (.inserted ⟨1, 2⟩) s₂ ∧
    s₂.element ⟨1, 0⟩ = .ok first ∧ s₂.element ⟨1, 2⟩ = .ok second ∧
    s₂.adjacency first.neighborsAt = .ok a ∧ i ∈ a.layer first.level.toNat 1 wide.params.m ∧
    i ≠ ⟨1, 0⟩ ∧ s₂.element i = .ok x ∧ 1 ≤ x.level.toNat := by
  obtain ⟨s₁, hfirst, hrun₁⟩ := first_stored
  obtain ⟨s₂, hboth, hrun₂⟩ := hfirst.second_stored
  have hinsert₁ := insert_wide (by decide) (by decide) hrun₁
  have hinsert₂ := insert_wide (by decide) (by decide) hrun₂
  have hcall : Addition 900 Options.standard _ (wide, s₁) :=
    .stored hinsert₁ (numbered_two hfirst.size)
  have hcalls := (Relation.ReflTransGen.single hcall).tail
    (.stored hinsert₂ (numbered_two hboth.size))
  have hread₁ := (s₂.element_eq_ok ⟨1, 0⟩ first).mpr hboth.atFirst
  have hread₂ := (s₂.element_eq_ok ⟨1, 2⟩ second).mpr hboth.atSecond
  have hopen := openFile_blank checkOptions_wide "index" .absent rfl
  obtain ⟨a, i, x, ha, hi, hne, hx, hreach⟩ := accompanied rfl hopen hcalls .refl (by decide) hread₁
    hread₂ (show 1 ≤ first.level.toNat by decide) (by decide) hread₁ (by decide)
  exact ⟨s₁, s₂, a, i, x, hinsert₁, hinsert₂, hread₁, hread₂, ha, hi, hne, hx, hreach⟩

end Index

end PagedGraph
