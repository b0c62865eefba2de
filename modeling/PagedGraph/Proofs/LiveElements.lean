import PagedGraph.Proofs.Company
import PagedGraph.Proofs.Reopening
import PagedGraph.Proofs.Scanning

/-!
# The live elements of an index

Behind all its pages an index is a map from locations to live elements, each with its level, its
vector and its rows. The map is what a scan shows, deleted elements left out.

An insertion that is not refused stores one element or adds one row, and a deletion takes one element
away (`insertAtLevel_inserts`, `markDeleted_deletes`); all others stay as they are.
-/

set_option autoImplicit false

namespace PagedGraph

structure LiveElement where
  level : UInt8
  vector : Embedding
  rows : List RowId
  deriving DecidableEq

def Element.live? (e : Element) : Option LiveElement :=
  if e.deleted then none else some ⟨e.level, e.vector, e.rows⟩

theorem Element.live?_of_live {e : Element} (h : e.deleted = false) :
    e.live? = some ⟨e.level, e.vector, e.rows⟩ := by
  rw [live?, h]
  rfl

abbrev LiveMap := Location → Option LiveElement

def LiveMap.set (M : LiveMap) (l : Location) (v : Option LiveElement) : LiveMap :=
  fun k => if k = l then v else M k

/-- The live elements that a scan shows. -/
def Store.liveMap (s : Store) : LiveMap := fun l =>
  match s.scan with
  | .ok found => (found.lookup l).bind Element.live?
  | .error _ => none

theorem lookup_of_mem {found : List (Location × Element)} {l : Location} {e : Element}
    (hn : (found.map Prod.fst).Nodup) (hmem : (l, e) ∈ found) : found.lookup l = some e := by
  induction found with
  | nil => cases hmem
  | cons x rest ih =>
    obtain ⟨k, f⟩ := x
    rw [List.map_cons, List.nodup_cons] at hn
    rw [List.lookup_cons]
    rcases List.mem_cons.mp hmem with heq | hrest
    · cases heq
      rw [beq_self_eq_true]
    · have hne : l ≠ k := by
        rintro rfl
        exact hn.1 (List.mem_map.mpr ⟨(l, e), hrest, rfl⟩)
      rw [beq_eq_false_iff_ne.mpr hne]
      exact ih hn.2 hrest

theorem mem_of_lookup {found : List (Location × Element)} {l : Location} {e : Element}
    (h : found.lookup l = some e) : (l, e) ∈ found := by
  induction found with
  | nil => cases h
  | cons x rest ih =>
    obtain ⟨k, f⟩ := x
    rw [List.lookup_cons] at h
    by_cases hk : l = k
    · rw [beq_iff_eq.mpr hk] at h
      rw [hk, ← Option.some.inj h]
      exact List.mem_cons_self
    · rw [beq_eq_false_iff_ne.mpr hk] at h
      exact List.mem_cons_of_mem _ (ih h)

namespace Store

variable {t : Header} {s s' : Store}

theorem liveMap_element (h : s.Formed t) {l : Location} {e : Element}
    (he : s.record? l = some (.element e)) : s.liveMap l = e.live? := by
  obtain ⟨found, hscan, hn, hmem⟩ := scan_eq h
  simp only [liveMap, hscan, lookup_of_mem hn ((hmem l e).mpr he), Option.bind_some]

theorem liveMap_none (h : s.Formed t) {l : Location}
    (hl : ∀ e, s.record? l ≠ some (.element e)) : s.liveMap l = none := by
  obtain ⟨found, hscan, -, hmem⟩ := scan_eq h
  have hlookup : found.lookup l = none := by
    cases hf : found.lookup l with
    | none => rfl
    | some e => exact absurd ((hmem l e).mp (mem_of_lookup hf)) (hl e)
  simp only [liveMap, hscan, hlookup, Option.bind_none]

theorem Puts.liveMap (h : s.Formed t) (h' : s'.Formed t) {l : Location} {e : Element}
    (hputs : s.Puts s' l e) : s'.liveMap = s.liveMap.set l e.live? := by
  funext k
  rw [LiveMap.set]
  by_cases hk : k = l
  · rw [if_pos hk]
    exact liveMap_element h' ((hputs k e).mpr (by rw [if_pos hk]))
  · rw [if_neg hk]
    by_cases he : ∃ f, s.record? k = some (.element f)
    · obtain ⟨f, hf⟩ := he
      rw [liveMap_element h hf]
      exact liveMap_element h' ((hputs k f).mpr (by rw [if_neg hk]; exact hf))
    · rw [liveMap_none h fun f hf => he ⟨f, hf⟩]
      apply liveMap_none h'
      intro f hf
      have := (hputs k f).mp hf
      rw [if_neg hk] at this
      exact he ⟨f, this⟩

theorem liveMap_congr (h : s.Formed t) (h' : s'.Formed t)
    (hsame : ∀ l e, s'.record? l = some (.element e) ↔ s.record? l = some (.element e)) :
    s'.liveMap = s.liveMap := by
  funext l
  by_cases hl : ∃ e, s.record? l = some (.element e)
  · obtain ⟨e, he⟩ := hl
    rw [liveMap_element h he, liveMap_element h' ((hsame l e).mpr he)]
  · rw [liveMap_none h fun e he => hl ⟨e, he⟩,
      liveMap_none h' fun e he => hl ⟨e, (hsame l e).mp he⟩]

end Store

/-- What an insertion adds to the live elements: an element with its row where there was none, or a
row to an element that has at least one and at most nine. -/
def Adds (d : Draft) (M : LiveMap) : Outcome → LiveMap → Prop
  | .inserted l, M' => M l = none ∧ M' = M.set l (some ⟨d.level, d.vector, [d.row]⟩)
  | .coalesced l, M' => ∃ x, M l = some x ∧ 1 ≤ x.rows.length ∧ x.rows.length ≤ 9 ∧
      M' = M.set l (some { x with rows := x.rows ++ [d.row] })
  | .skipped _, _ => False

theorem Committed.adds {t : Header} {s s' : Store} {d : Draft} {o : Outcome}
    (h : Committed t d o s s') (hrow : d.row ≠ noRow) : Adds d s.liveMap o s'.liveMap := by
  cases h with
  | inserted l k a s s' before after put =>
    have hnew : { d.element with neighborsAt := k }.live? = some ⟨d.level, d.vector, [d.row]⟩ := by
      rw [Element.live?_of_live rfl, ← Element.rows_single d.level d.vector d.row hrow]
      rfl
    refine ⟨?_, ?_⟩
    · by_cases hl : ∃ f, s.record? l = some (.element f)
      · obtain ⟨f, hf⟩ := hl
        rw [Store.liveMap_element before.toFormed hf, Element.live?, if_pos (put.free f hf)]
      · exact Store.liveMap_none before.toFormed fun f hf => hl ⟨f, hf⟩
    · rw [(put.puts before).liveMap before.toFormed after.toFormed, hnew]
  | coalesced l e place s s' before after found live free behind puts =>
    obtain ⟨-, -, hpacked⟩ := before.fits_of_record l _ found
    obtain ⟨hplace, hlt⟩ := e.firstFreeRow_eq hpacked place free
    have hcap : rowCapacity = 10 := rfl
    have hjoined : (e.withRow place d.row).live? = some ⟨e.level, e.vector, e.rows ++ [d.row]⟩ := by
      have hkept : (e.withRow place d.row).deleted = false := live
      rw [Element.live?_of_live hkept, (e.withRow_rows hpacked place d.row free).2 hrow]
      rfl
    refine ⟨⟨e.level, e.vector, e.rows⟩, ?_, ?_, ?_, ?_⟩
    · rw [Store.liveMap_element before.toFormed found, Element.live?_of_live live]
    · show 1 ≤ e.rows.length
      omega
    · show e.rows.length ≤ 9
      omega
    · rw [puts.liveMap before.toFormed after.toFormed, hjoined]

def Action.answer {α : Type} (action : Action α) (s : Store) : Except Error α :=
  match action s with
  | .ok a _ => .ok a
  | .error e _ => .error e

theorem ActionWith.after_alone {α : Type} (x : ActionWith Unit α) (s : Store) :
    x.alone.after s = (x.after s ()).1 := by
  rw [Action.after, after, alone]
  cases x (s, ()) with
  | ok a y => rfl
  | error e y => rfl

theorem Turns.alone_ended {α : Type} {x : ActionWith Unit α} {s s' : Store} {r : Except Error α}
    (h : x (s, ()) = ended () r s') : x.alone.after s = s' ∧ x.alone.answer s = r := by
  rw [Action.after, Action.answer, ActionWith.alone, h]
  cases r with
  | ok a => exact ⟨rfl, rfl⟩
  | error e => exact ⟨rfl, rfl⟩

/-- What the answer to an insertion says about the live elements before and after it. -/
def Inserts (metric : Metric) (vector : Option Embedding) (row : RowId) (level : UInt8)
    (M : LiveMap) : Except Error Outcome → LiveMap → Prop
  | .ok (.inserted l), M' => M l = none ∧
      ∃ v w, vector = some v ∧ (if metric = .cosine then v.normalize = some w else w = v) ∧
        M' = M.set l (some ⟨level, w, [row]⟩)
  | .ok (.coalesced l), M' => ∃ v x, vector = some v ∧ M l = some x ∧
      (if metric = .cosine then v.normalize = some x.vector else x.vector = v) ∧
      1 ≤ x.rows.length ∧ x.rows.length ≤ 9 ∧
      M' = M.set l (some { x with rows := x.rows ++ [row] })
  | .ok (.skipped _), M' => M' = M
  | .error _, M' => M' = M

theorem Insertion.Effect.inserts {t : Header} {s s' : Store} (h : s.Intact t) {metric : Metric}
    {v w : Embedding} {row : RowId} {level : UInt8} {r : Except Error Outcome}
    (hstored : if metric = .cosine then v.normalize = some w else w = v) (hrow : row ≠ noRow)
    (heffect : Effect t s (Draft.new level w row) r s') :
    s'.Intact t ∧ Inserts metric (some v) row level s.liveMap r s'.liveMap := by
  cases heffect with
  | failed e => exact ⟨h, rfl⟩
  | joined l e place s' found live same free behind intact rewritten =>
    have hcommitted : Committed t (Draft.new level w row) (.coalesced l) s s' :=
      .coalesced l e place s s' h intact found live free behind rewritten.puts
    obtain ⟨x, hx, hone, hnine, hmap⟩ := hcommitted.adds hrow
    refine ⟨intact, v, x, rfl, hx, ?_, hone, hnine, hmap⟩
    rw [Store.liveMap_element h.toFormed found, Element.live?_of_live live] at hx
    rw [← Option.some.inj hx]
    show if metric = .cosine then v.normalize = some e.vector else e.vector = v
    rw [same]
    exact hstored
  | stored st lists s₁ s' linkable placed connected =>
    have hcommitted : Committed t (Draft.new level w row) (.inserted st.location) s s₁ :=
      .inserted st.location st.neighborsAt _ s s₁ h placed.intact placed.put
    obtain ⟨hfree, hmap⟩ := hcommitted.adds hrow
    refine ⟨connected.intact, hfree, v, w, rfl, hstored, ?_⟩
    rw [Store.liveMap_congr placed.intact.toFormed connected.intact.toFormed connected.element, hmap]
    rfl

def Deletes (l : Location) (M : LiveMap) : Except Error Bool → LiveMap → Prop
  | .ok true, M' => M l ≠ none ∧ M' = M.set l none
  | .ok false, M' => M' = M
  | .error _, M' => M' = M

theorem markDeleted_deletes {t : Header} {s : Store} (h : s.Intact t) (l : Location) :
    ((markDeleted l).after s).Intact t ∧
      Deletes l s.liveMap ((markDeleted l).answer s) ((markDeleted l).after s).liveMap := by
  rcases markDeleted_cases h l with ⟨c, hc⟩ | hno | ⟨e, s', he, hlive, hrun, hintact, hrew⟩
  · rw [Action.after, Action.answer, hc]
    exact ⟨h, rfl⟩
  · rw [Action.after, Action.answer, hno]
    exact ⟨h, rfl⟩
  · rw [Action.after, Action.answer, hrun]
    refine ⟨hintact, ?_, ?_⟩
    · rw [Store.liveMap_element h.toFormed he, Element.live?_of_live hlive]
      exact Option.some_ne_none _
    · rw [hrew.puts.liveMap h.toFormed hintact.toFormed]
      rfl

namespace Index

theorem length_prepare {ix : Index} {v w : Embedding} (h : ix.prepare v = some w) :
    w.length = v.length := by
  rw [prepare] at h
  by_cases hn : ix.params.metric.normalizes = true
  · rw [if_pos hn, Embedding.normalize] at h
    split at h
    · cases h
    · rw [← Option.some.inj h, List.length_map]
  · rw [if_neg hn] at h
    rw [Option.some.inj h]

theorem prepare_eq {ix : Index} {v w : Embedding} (h : ix.prepare v = some w) :
    if ix.params.metric = .cosine then v.normalize = some w else w = v := by
  rw [prepare] at h
  cases hm : ix.params.metric with
  | euclidean =>
    rw [hm] at h
    exact (Option.some.inj h).symm
  | cosine =>
    rw [hm] at h
    exact h
  | innerProduct =>
    rw [hm] at h
    exact (Option.some.inj h).symm

theorem insertAtLevel_cases (ix : Index) (vector : Option Embedding) (row : RowId)
    (level : UInt8) :
    (∀ s, ∃ e, ix.insertAtLevel vector row level s = .error e s) ∨
    (∃ reason, ∀ s, ix.insertAtLevel vector row level s = .ok (.skipped reason) s) ∨
    ∃ v w, vector = some v ∧ v.length = ix.dimensions ∧ ix.prepare v = some w ∧
      ix.insertAtLevel vector row level =
        (insertElement ix.params (ix.construction Unit) (Draft.new level w row)).alone := by
  cases vector with
  | none => exact .inr (.inl ⟨.noVector, fun s => rfl⟩)
  | some v =>
    simp only [insertAtLevel]
    by_cases hlevel : ix.params.maxLevel < level.toNat
    · rw [if_pos hlevel]
      exact .inl fun s => ⟨_, rfl⟩
    · rw [if_neg hlevel]
      by_cases hwidth : v.length = ix.dimensions
      · rw [if_neg (not_not_intro hwidth)]
        by_cases hfinite : (v.any fun x => !FloatBits.isFinite x) = true
        · rw [if_pos hfinite]
          exact .inl fun s => ⟨_, rfl⟩
        · rw [if_neg hfinite]
          cases hprepare : ix.prepare v with
          | none => exact .inr (.inl ⟨.zeroNorm, fun s => rfl⟩)
          | some w => exact .inr (.inr ⟨v, w, rfl, hwidth, hprepare, rfl⟩)
      · rw [if_pos hwidth]
        exact .inl fun s => ⟨_, rfl⟩

theorem insertAtLevel_valid (ix : Index) {v : Embedding} (row : RowId) {level : UInt8}
    (hlevel : level.toNat ≤ ix.params.maxLevel) (hwidth : v.length = ix.dimensions)
    (hfinite : ∀ x ∈ v, FloatBits.isFinite x = true) :
    ix.insertAtLevel (some v) row level = match ix.prepare v with
      | none => return .skipped .zeroNorm
      | some w => (insertElement ix.params (ix.construction Unit) (Draft.new level w row)).alone := by
  have hall : ¬(v.any fun x => !FloatBits.isFinite x) = true := by
    simpa using hfinite
  refine (if_neg (Nat.not_lt.mpr hlevel)).trans ?_
  refine (if_neg (not_not_intro hwidth)).trans ?_
  refine (if_neg hall).trans ?_
  cases ix.prepare v with
  | none => rfl
  | some w => rfl

theorem insertAtLevel_effect {t : Header} {s : Store} (h : s.Intact t) (ix : Index)
    (hm : ix.params.m = t.m.toNat) (hwidth : ix.dimensions = t.dimensions.toNat)
    (vector : Option Embedding) (row : RowId) (level : UInt8)
    (hb : ((ix.insertAtLevel vector row level).after s).Numbered) :
    (ix.insertAtLevel vector row level).after s = s ∧
      ((∃ e, (ix.insertAtLevel vector row level).answer s = .error e) ∨
        ∃ reason, (ix.insertAtLevel vector row level).answer s = .ok (.skipped reason)) ∨
    ∃ v w, vector = some v ∧ ix.prepare v = some w ∧
      Insertion.Effect t s (Draft.new level w row) ((ix.insertAtLevel vector row level).answer s)
        ((ix.insertAtLevel vector row level).after s) := by
  rcases ix.insertAtLevel_cases vector row level with
    hfail | ⟨reason, hskip⟩ | ⟨v, w, rfl, hlen, hprepare, hrun⟩
  · obtain ⟨e, he⟩ := hfail s
    rw [Action.after, Action.answer, he]
    exact .inl ⟨rfl, .inl ⟨e, rfl⟩⟩
  · rw [Action.after, Action.answer, hskip s]
    exact .inl ⟨rfl, .inr ⟨reason, rfl⟩⟩
  · have hw : w.length = t.dimensions.toNat := by
      rw [length_prepare hprepare, hlen, hwidth]
    have hconstruction : ix.construction Unit =
        layerSearch Unit { ix.params with searchWidth := ix.constructionWidth } := rfl
    rw [hconstruction] at hrun
    rw [hrun, ActionWith.after_alone] at hb
    obtain ⟨r, s', heffect, hresult, -⟩ := Insertion.insertElement_effect h ix.params hm
      (Draft.new level w row) hw () { ix.params with searchWidth := ix.constructionWidth } hm
      (Store.linkable_nil _ _) hb
    obtain ⟨hstore, hanswer⟩ := Turns.alone_ended hresult
    rw [hrun, hstore, hanswer]
    exact .inr ⟨v, w, rfl, hprepare, heffect⟩

theorem insertAtLevel_inserts {t : Header} {s : Store} (h : s.Intact t) (ix : Index)
    (hm : ix.params.m = t.m.toNat) (hwidth : ix.dimensions = t.dimensions.toNat)
    (vector : Option Embedding) (row : RowId) (level : UInt8) (hrow : row ≠ noRow)
    (hb : ((ix.insertAtLevel vector row level).after s).Numbered) :
    ((ix.insertAtLevel vector row level).after s).Intact t ∧
      Inserts ix.params.metric vector row level s.liveMap
        ((ix.insertAtLevel vector row level).answer s)
        ((ix.insertAtLevel vector row level).after s).liveMap := by
  rcases insertAtLevel_effect h ix hm hwidth vector row level hb with
    ⟨hsame, ⟨e, he⟩ | ⟨reason, hskip⟩⟩ | ⟨v, w, rfl, hprepare, heffect⟩
  · rw [hsame, he]
    exact ⟨h, rfl⟩
  · rw [hsame, hskip]
    exact ⟨h, rfl⟩
  · exact heffect.inserts h (prepare_eq hprepare) hrow

variable {dimensions : UInt32} {o : Options} {ix : Index} {s : Store}

theorem template_congr {o' : Options} (hm : o'.m = o.m) (hmetric : o'.metric = o.metric) :
    template dimensions o' = template dimensions o := by
  rw [template, template, hm, hmetric]

theorem Opened.intact_of {o' : Options} (h : Opened dimensions o ix s) (hm : o'.m = o.m)
    (hmetric : o'.metric = o.metric) : s.Intact (template dimensions o') := by
  rw [template_congr hm hmetric]
  exact h.intact

end Index

end PagedGraph
