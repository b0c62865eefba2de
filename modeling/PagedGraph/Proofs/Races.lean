import PagedGraph.Proofs.History
import PagedGraph.Proofs.Meshes

/-!
# The race for the first entry point

Several insertions may find an empty graph, and each of them stores its element without any
neighbors. They take turns, in whatever order, until all of them have stored their records; then they
are connected one after the other. Whatever the order, in the end the entry point is the highest
element, and in every layer that two elements reach, all that reach it have a neighbor
(`race_settles`).
-/

set_option autoImplicit false

namespace PagedGraph

namespace Turns

variable {τ α β : Type}

inductive Step : Turns τ α → Store × τ → Turns τ α → Store × τ → Prop where
  | turn {β : Type} {action : ActionWith τ β} {next : β → Turns τ α} {y y' : Store × τ} {b : β}
      (works : action y = .ok b y') : Step (.turn action next) y (next b) y'

theorem Step.act_inv {a : Action β} {f : β → Turns τ α} {s : Store} {own : τ} {x : Turns τ α}
    {y : Store × τ} (h : Step (act a >>= f) (s, own) x y) :
    ∃ b s', a s = .ok b s' ∧ y = (s', own) ∧ x = f b := by
  have hturn : Step (.turn (ActionWith.act a) f) (s, own) x y := h
  cases hturn with
  | turn works =>
    obtain ⟨s', ha, hy⟩ := run_act_inv (run_once_ok works)
    exact ⟨_, s', ha, hy, rfl⟩

/-- Programs that take turns on one store, in whatever order, until all of them are done. Page
numbers last. -/
inductive Interleaved : List (Turns τ α) → Store × τ → List α → Store × τ → Prop where
  | done (as : List α) (y : Store × τ) : Interleaved (as.map .done) y as y
  | step {programs : List (Turns τ α)} {as : List α} {y y' z : Store × τ} {i : Nat}
      {x x' : Turns τ α} (here : programs[i]? = some x) (turn : x.Step y x' y')
      (numbered : y'.1.Numbered) (rest : Interleaved (programs.set i x') y' as z) :
      Interleaved programs y as z

end Turns

namespace Store

variable {t : Header} {s s' : Store}

theorem meshed_empty (h : s.Intact t) (hnav : s.Navigable) (hnone : s.entry = none) :
    s.Meshed t fun _ => False where
  intact := h
  live l e he := absurd he (hnav.absent hnone l e)
  absent _ _ := id
  top x hx := absurd (hnone.symm.trans hx).symm (Option.some_ne_none x)
  highest _ _ _ _ hl := hl.elim
  links := by
    rintro layer l k ⟨e, a, he, -⟩
    exact absurd he (hnav.absent hnone l e)
  full _ _ _ hk := hk.1.elim

namespace Meshed

variable {D : Location → Prop} {d : Draft} {st : Stored}

theorem free (h : s.Meshed t D) (hplaced : Placed t s s' d st) (e : Element) :
    s.record? st.location ≠ some (.element e) := by
  intro he
  have hdeleted := hplaced.put.free e he
  rw [h.live _ e he] at hdeleted
  cases hdeleted

theorem placed (h : s.Meshed t fun _ => False) (hplaced : Placed t s s' d st)
    (hlists : ∀ i, d.neighbors.getD i [] = []) : s'.Meshed t fun _ => False where
  intact := hplaced.intact
  live := by
    intro l e he
    have hput := (hplaced.put.puts h.intact l e).mp he
    by_cases hl : l = st.location
    · rw [if_pos hl] at hput
      rw [hput]
      rfl
    · rw [if_neg hl] at hput
      exact h.live l e hput
  absent _ _ := id
  top := by
    intro x hx
    rw [hplaced.entry] at hx
    exact (h.top x hx).1.elim
  highest _ _ _ _ hl := hl.elim
  links := by
    intro layer l k hk
    rw [hplaced.link h.intact] at hk
    by_cases hl : l = st.location
    · rw [if_pos hl, hlists] at hk
      obtain ⟨-, -, hk⟩ := hk
      rw [List.map_nil, List.take_nil] at hk
      cases hk
    · rw [if_neg hl] at hk
      exact (h.links layer l k hk).1.elim
  full _ _ _ hk := hk.1.elim

end Meshed

end Store

namespace Insertion

variable {τ : Type} {t : Header} {p : Params} {c : Construction τ}

/-- Where an insertion into an empty graph stands: before it has looked for an entry point, before
it has stored its records, or before it is connected. -/
inductive Stage (t : Header) (p : Params) (c : Construction τ) (s : Store) (d : Draft) :
    Turns τ Insertion → Prop where
  | arriving : Stage t p c s d (place p c d)
  | alone : Stage t p c s d (store p none d)
  | placed (st : Stored)
      (found : s.record? st.location = some (.element { d.element with
        neighborsAt := st.neighborsAt }))
      (bound : ∀ id, st.cursor = some id → 0 < id.toNat ∧ id.toNat < s.pages.size) :
      Stage t p c s d (.done (.stored { d with
        location := st.location, neighborsAt := st.neighborsAt } none st.cursor))

structure Gathered (t : Header) (p : Params) (c : Construction τ) (ds : List Draft)
    (programs : List (Turns τ Insertion)) (s : Store) : Prop where
  mesh : s.Meshed t fun _ => False
  length : programs.length = ds.length
  stage : ∀ (i : Nat) (x : Turns τ Insertion) (d : Draft), programs[i]? = some x →
    ds[i]? = some d → Stage t p c s d x
  apart : ∀ (i j : Nat) (a b : Insertion), programs[i]? = some (.done a) →
    programs[j]? = some (.done b) → a.outcome = b.outcome → i = j

theorem Stage.later {s s' : Store} {d d' : Draft} {st : Stored} {x : Turns τ Insertion}
    (hstage : Stage t p c s d x) (h : s.Meshed t fun _ => False)
    (hplaced : Placed t s s' d' st) (hsize : s.pages.size ≤ s'.pages.size) :
    Stage t p c s' d x := by
  cases hstage with
  | arriving => exact .arriving
  | alone => exact .alone
  | placed st' found bound =>
    refine .placed st' ((hplaced.put.puts h.intact _ _).mpr ?_)
      fun id hid => ⟨(bound id hid).1, Nat.lt_of_lt_of_le (bound id hid).2 hsize⟩
    rw [if_neg fun heq => h.free hplaced _ (heq ▸ found)]
    exact found

section
variable {ds : List Draft} {programs : List (Turns τ Insertion)} {s : Store}
  (hg : Gathered t p c ds programs s)
include hg

theorem Gathered.set {s' : Store} {i : Nat} {x : Turns τ Insertion} {d : Draft}
    (hmesh : s'.Meshed t fun _ => False) (hi : i < programs.length) (hd : ds[i]? = some d)
    (hstage : Stage t p c s' d x)
    (hlater : ∀ (y : Turns τ Insertion) (d : Draft), Stage t p c s d y → Stage t p c s' d y)
    (hother : ∀ (j : Nat) (a b : Insertion), x = .done a → programs[j]? = some (.done b) → j ≠ i →
      a.outcome ≠ b.outcome) : Gathered t p c ds (programs.set i x) s' where
  mesh := hmesh
  length := by rw [List.length_set, hg.length]
  stage := by
    intro j y e hy he
    by_cases hij : i = j
    · subst hij
      rw [List.getElem?_set_self hi] at hy
      obtain rfl := Option.some.inj hy
      obtain rfl := Option.some.inj (hd.symm.trans he)
      exact hstage
    · rw [List.getElem?_set_ne hij] at hy
      exact hlater y e (hg.stage j y e hy he)
  apart := by
    intro j k a b ha hb hab
    by_cases hj : i = j
    · subst hj
      by_cases hk : i = k
      · exact hk
      · rw [List.getElem?_set_self hi] at ha
        rw [List.getElem?_set_ne hk] at hb
        exact absurd hab (hother k a b (Option.some.inj ha) hb (Ne.symm hk))
    · rw [List.getElem?_set_ne hj] at ha
      by_cases hk : i = k
      · subst hk
        rw [List.getElem?_set_self hi] at hb
        exact absurd hab.symm (hother j b a (Option.some.inj hb) ha (Ne.symm hj))
      · rw [List.getElem?_set_ne hk] at hb
        exact hg.apart j k a b ha hb hab

theorem Gathered.step (hp : p.m = t.m.toNat) (hwide : ∀ d ∈ ds, d.vector.length = t.dimensions.toNat)
    (hlists : ∀ d ∈ ds, ∀ i, d.neighbors.getD i [] = []) (own : τ) {i : Nat}
    {x x' : Turns τ Insertion} {y : Store × τ} (here : programs[i]? = some x)
    (turn : x.Step (s, own) x' y) (numbered : y.1.Numbered) :
    ∃ s', y = (s', own) ∧ Gathered t p c ds (programs.set i x') s' := by
  obtain ⟨hi, -⟩ := List.getElem?_eq_some_iff.mp here
  have hid : i < ds.length := by
    rw [← hg.length]
    exact hi
  have hd : ds[i]? = some ds[i] := List.getElem?_eq_getElem hid
  have hmem : ds[i] ∈ ds := List.getElem_mem hid
  generalize ds[i] = d at hd hmem
  have hempty : s.entry = none := by
    cases hentry : s.entry with
    | none => rfl
    | some x => exact (hg.mesh.top x hentry).1.elim
  cases hg.stage i x d here hd with
  | arriving =>
    obtain ⟨entry, s', hread, rfl, rfl⟩ := Turns.Step.act_inv turn
    have hnone : Action.reading (fun s => .ok s.entry) s = .ok none s := by
      rw [Action.reading, hempty]
    rw [hnone] at hread
    obtain ⟨rfl, rfl⟩ := EStateM.Result.ok.inj hread
    refine ⟨s, rfl, hg.set hg.mesh hi hd .alone (fun _ _ => id) fun j a b ha => ?_⟩
    cases ha
  | alone =>
    obtain ⟨st, s', hstore, rfl, rfl⟩ := Turns.Step.act_inv turn
    rw [hp] at hstore
    obtain ⟨hsize, hplaced⟩ : s.pages.size ≤ s'.pages.size ∧ Placed t s s' d st := by
      rcases storePair_cases hg.mesh.intact d (hwide d hmem) with ⟨e, he⟩ | ⟨st', s₁, hrun, hsize, h⟩
      · rw [he] at hstore
        cases hstore
      · rw [hstore] at hrun
        obtain ⟨rfl, rfl⟩ := EStateM.Result.ok.inj hrun
        exact ⟨hsize, h numbered⟩
    refine ⟨s', rfl, hg.set (hg.mesh.placed hplaced (hlists d hmem)) hi hd
      (.placed st hplaced.element hplaced.cursor)
      (fun y e hy => hy.later hg.mesh hplaced hsize) fun j a b ha hb _ hab => ?_⟩
    obtain rfl := Turns.done.inj ha
    obtain ⟨hj, -⟩ := List.getElem?_eq_some_iff.mp hb
    rw [hg.length] at hj
    cases hg.stage j _ ds[j] hb (List.getElem?_eq_getElem hj) with
    | placed st' found _ =>
      have heq : st.location = st'.location := Outcome.inserted.inj hab
      exact hg.mesh.free hplaced _ (heq ▸ found)
  | placed st found bound => cases turn

end

theorem Gathered.run {ds : List Draft} (hp : p.m = t.m.toNat)
    (hwide : ∀ d ∈ ds, d.vector.length = t.dimensions.toNat)
    (hlists : ∀ d ∈ ds, ∀ i, d.neighbors.getD i [] = []) {programs : List (Turns τ Insertion)}
    {y z : Store × τ} {is : List Insertion} (h : Turns.Interleaved programs y is z) :
    Gathered t p c ds programs y.1 → ∃ s', z = (s', y.2) ∧ Gathered t p c ds (is.map .done) s' := by
  induction h with
  | done is y => exact fun hg => ⟨y.1, rfl, hg⟩
  | @step programs is y y' z i x x' here turn numbered rest ih =>
    intro hg
    obtain ⟨s', rfl, hg'⟩ := hg.step hp hwide hlists y.2 here turn numbered
    exact ih hg'

section
variable {ds : List Draft} {is : List Insertion} {s : Store}
  (hg : Gathered t p c ds (is.map .done) s)
include hg

theorem Gathered.done {i : Nat} {d : Draft} (hd : ds[i]? = some d) : ∃ st : Stored,
    is[i]? = some (.stored { d with
      location := st.location, neighborsAt := st.neighborsAt } none st.cursor) ∧
    s.record? st.location = some (.element { d.element with neighborsAt := st.neighborsAt }) ∧
    ∀ id, st.cursor = some id → 0 < id.toNat ∧ id.toNat < s.pages.size := by
  have hi : i < is.length := by
    have hlength := hg.length
    rw [List.length_map] at hlength
    rw [hlength]
    exact (List.getElem?_eq_some_iff.mp hd).1
  have his : is[i]? = some is[i] := List.getElem?_eq_getElem hi
  have hstage := hg.stage i (.done is[i]) d (by rw [List.getElem?_map, his]; rfl) hd
  generalize is[i] = a at his hstage
  cases hstage with
  | placed st found bound => exact ⟨st, his, found, bound⟩

theorem Gathered.nodup : (is.map outcome).Nodup := by
  rw [List.nodup_iff_pairwise_ne, List.pairwise_map, List.pairwise_iff_getElem]
  intro i j hi hj hlt heq
  refine absurd (hg.apart i j is[i] is[j] ?_ ?_ heq) (Nat.ne_of_lt hlt)
  · rw [List.getElem?_map, List.getElem?_eq_getElem hi]
    rfl
  · rw [List.getElem?_map, List.getElem?_eq_getElem hj]
    rfl

end

theorem gathered_start {s : Store} (h : s.Meshed t fun _ => False) (ds : List Draft) :
    Gathered t p c ds (ds.map (place p c)) s where
  mesh := h
  length := List.length_map _
  stage := by
    intro i x d hx hd
    rw [List.getElem?_map, hd] at hx
    obtain rfl := Option.some.inj hx
    exact .arriving
  apart := by
    intro i j a b ha
    rw [List.getElem?_map] at ha
    cases hd : ds[i]? with
    | none =>
      rw [hd] at ha
      cases ha
    | some d =>
      rw [hd] at ha
      cases Option.some.inj ha

end Insertion

/-- The graph after all insertions have been connected: every draft has an element of its own, the
entry point is one of the highest, and whoever shares a layer with another one has a neighbor there
that is alive and reaches the layer. -/
structure RaceSettled (m : Nat) (ds : List Draft) (outcomes : List Outcome) (s : Store) : Prop where
  apart : outcomes.Nodup
  length : outcomes.length = ds.length
  element : ∀ (i : Nat) (d : Draft), ds[i]? = some d → ∃ l k, outcomes[i]? = some (.inserted l) ∧
    s.element l = .ok { d.element with neighborsAt := k }
  entry : ∃ x, s.entry = some x ∧ .inserted x.location ∈ outcomes ∧
    (∃ d ∈ ds, d.level = x.level) ∧ ∀ d ∈ ds, d.level ≤ x.level
  neighbor : ∀ layer l k e f, .inserted l ∈ outcomes → .inserted k ∈ outcomes → l ≠ k →
    s.element l = .ok e → layer ≤ e.level.toNat → s.element k = .ok f → layer ≤ f.level.toNat →
    ∃ ls j g, s.neighbors m e layer = .ok ls ∧ j ∈ ls ∧ j ≠ l ∧ .inserted j ∈ outcomes ∧
      s.element j = .ok g ∧ g.deleted = false ∧ layer ≤ g.level.toNat

section
variable {τ : Type} {t : Header} {p q : Params} (hp : p.m = t.m.toNat) (hq : q.m = t.m.toNat)
  (hpos : 0 < p.m)
include hp

theorem Store.Meshed.settled {s : Store} {ds : List Draft} (hsome : ds ≠ []) {outcomes : List Outcome}
    (h : s.Meshed t fun l => .inserted l ∈ outcomes) (hapart : outcomes.Nodup)
    (hlength : outcomes.length = ds.length)
    (helement : ∀ (i : Nat) (d : Draft), ds[i]? = some d → ∃ l k,
      outcomes[i]? = some (.inserted l) ∧
      s.record? l = some (.element { d.element with neighborsAt := k })) :
    RaceSettled p.m ds outcomes s where
  apart := hapart
  length := hlength
  element := by
    intro i d hd
    obtain ⟨l, k, hl, he⟩ := helement i d hd
    exact ⟨l, k, hl, (s.element_eq_ok l _).mpr he⟩
  entry := by
    have hbelow : ∀ x, s.entry = some x → ∀ d ∈ ds, d.level ≤ x.level := by
      intro x hx d hd
      obtain ⟨i, hi⟩ := List.mem_iff_getElem?.mp hd
      obtain ⟨l, k, hl, he⟩ := helement i d hi
      exact h.highest x l _ hx (List.mem_of_getElem? hl) he
    obtain ⟨d, rest, rfl⟩ := List.exists_cons_of_ne_nil hsome
    obtain ⟨l, k, hl, he⟩ := helement 0 d rfl
    cases hx : s.entry with
    | none => exact absurd (List.mem_of_getElem? hl) (h.absent hx l)
    | some x =>
      obtain ⟨hmem, e, he, hlevel⟩ := h.top x hx
      refine ⟨x, rfl, hmem, ?_, hbelow x hx⟩
      obtain ⟨i, hi⟩ := List.mem_iff_getElem?.mp hmem
      have hlt : i < (d :: rest).length := by
        rw [← hlength]
        exact (List.getElem?_eq_some_iff.mp hi).1
      obtain ⟨l', k', hl', he'⟩ := helement i _ (List.getElem?_eq_getElem hlt)
      obtain rfl := Outcome.inserted.inj (Option.some.inj (hi.symm.trans hl'))
      rw [he] at he'
      cases he'
      exact ⟨_, List.getElem_mem hlt,
        UInt8.le_antisymm (hbelow x hx _ (List.getElem_mem hlt)) (UInt8.le_iff_toNat_le.mpr hlevel)⟩
  neighbor := by
    intro layer l k e f hl hk hne he hle hf hlf
    have he' := (s.element_eq_ok l e).mp he
    have hf' := (s.element_eq_ok k f).mp hf
    obtain ⟨j, hj⟩ := h.full layer l k ⟨hl, e, he', hle⟩ ⟨hk, f, hf', hlf⟩ hne
    obtain ⟨-, hself, hmem, g, hg, hreach⟩ := h.links layer l j hj
    rw [← hp] at hj
    obtain ⟨ls, hls, hiff⟩ := Store.neighbors_link h.intact p.m layer he'
    exact ⟨ls, j, g, hls, (hiff j).mpr hj, Ne.symm hself, hmem, (s.element_eq_ok j g).mpr hg,
      h.live j g hg, hreach⟩

include hq hpos

theorem race_meshed {c : Construction τ} {s : Store} (h : s.Meshed t fun _ => False) (own : τ)
    {ds : List Draft} (hsome : ds ≠ []) (hwide : ∀ d ∈ ds, d.vector.length = t.dimensions.toNat)
    (hempty : ∀ d ∈ ds, d.neighbors = List.replicate (d.level.toNat + 1) [])
    {is js : List Insertion} {y : Store × τ}
    (hplaced : Turns.Interleaved (ds.map (Insertion.place p c)) (s, own) is y)
    (horder : js.Perm is) :
    ∃ s', js.mapM (Insertion.finish p (layerSearch τ q)) y =
        .ok (js.map Insertion.outcome) (s', own) ∧
      RaceSettled p.m ds (is.map Insertion.outcome) s' := by
  have hlists : ∀ d ∈ ds, ∀ i, d.neighbors.getD i [] = [] := by
    intro d hd i
    rw [hempty d hd, List.getD_eq_getElem?_getD, List.getElem?_replicate]
    split <;> rfl
  obtain ⟨s₁, rfl, hg⟩ := Insertion.Gathered.run hp hwide hlists hplaced
    (Insertion.gathered_start h ds)
  have hlength : is.length = ds.length := by
    rw [← hg.length, List.length_map]
  have hapart := hg.nodup
  have hperm := horder.map Insertion.outcome
  obtain ⟨s', hrun, hmesh, hkept⟩ := Insertion.finish_all p q hp hq hpos own js _ s₁ hg.mesh
    (hperm.nodup_iff.mpr hapart) (by
      intro j hj
      obtain ⟨i, hi⟩ := List.mem_iff_getElem?.mp (horder.mem_iff.mp hj)
      have hlt : i < ds.length := by
        rw [← hlength]
        exact (List.getElem?_eq_some_iff.mp hi).1
      obtain ⟨st, his, hfound, hbound⟩ := hg.done (List.getElem?_eq_getElem hlt)
      obtain rfl := Option.some.inj (hi.symm.trans his)
      have hblank := hempty ds[i] (List.getElem_mem hlt)
      exact .stored _ _ _ ⟨hfound, rfl, rfl, id, hblank⟩ hbound)
  refine ⟨s', hrun, Store.Meshed.settled hp hsome ?_ hapart (by rw [List.length_map, hlength]) ?_⟩
  · have hmembers : (fun l => False ∨ .inserted l ∈ js.map Insertion.outcome) =
        fun l => .inserted l ∈ is.map Insertion.outcome := by
      funext l
      rw [false_or, hperm.mem_iff]
    rw [← hmembers]
    exact hmesh
  · intro i d hd
    obtain ⟨st, his, hfound, -⟩ := hg.done hd
    exact ⟨st.location, st.neighborsAt, by rw [List.getElem?_map, his]; rfl,
      (hkept _ _).mpr hfound⟩

end

/-- Insertions that have all found an empty graph, and whose records have all been stored, are
connected in whatever order. In the end the entry point is as high as the highest of them, and in
every layer that two of them reach, all that reach it have neighbors. -/
theorem race_settles {dimensions : UInt32} {o : Options} {ix : Index} {s : Store}
    (h : Index.History dimensions o ix s) (hempty : s.entry = none) {τ : Type} (own : τ)
    {ds : List Draft} (hsome : ds ≠ [])
    (hds : ∀ d ∈ ds, ∃ level v row, d = Draft.new level v row ∧ v.length = ix.dimensions)
    {is js : List Insertion} {y : Store × τ}
    (hplaced : Turns.Interleaved
      (ds.map (Insertion.place ix.params (ix.construction τ))) (s, own) is y)
    (horder : js.Perm is) :
    ∃ s', js.mapM (Insertion.finish ix.params (ix.construction τ)) y =
        .ok (js.map Insertion.outcome) (s', own) ∧
      RaceSettled ix.params.m ds (is.map Insertion.outcome) s' := by
  obtain ⟨o', -, -, hsettled⟩ := h.settled
  have hwider : ({ ix.params with searchWidth := ix.constructionWidth } : Params).m =
      (Index.template dimensions o').m.toNat := hsettled.m_eq
  refine race_meshed hsettled.m_eq hwider hsettled.m_pos
    (Store.meshed_empty hsettled.intact hsettled.navigable hempty) own hsome ?_ ?_ hplaced horder
  · intro d hd
    obtain ⟨level, v, row, rfl, hwidth⟩ := hds d hd
    exact hwidth.trans hsettled.width
  · intro d hd
    obtain ⟨level, v, row, rfl, -⟩ := hds d hd
    rfl

theorem Turns.Step.act {τ α β : Type} {a : Action β} {s s' : Store} {b : β} (h : a s = .ok b s')
    (own : τ) (f : β → Turns τ α) : Step (act a >>= f) (s, own) (f b) (s', own) := by
  have hturn : Step (.turn (ActionWith.act a) f) (s, own) (f b) (s', own) := by
    apply Step.turn
    rw [ActionWith.act, h]
  exact hturn

theorem Insertion.interleaved_two {τ : Type} {p : Params} (c : Construction τ) {s s₁ s₂ : Store}
    (own : τ) {d e : Draft} {st st' : Stored} (hnone : s.entry = none) (hn : s₂.Numbered)
    (hsize : s.pages.size = s₂.pages.size ∧ s₁.pages.size = s₂.pages.size)
    (he : storePair e p.m s = .ok st s₁) (hd : storePair d p.m s₁ = .ok st' s₂) :
    Turns.Interleaved ([d, e].map (place p c)) (s, own)
      [.stored { d with location := st'.location, neighborsAt := st'.neighborsAt } none st'.cursor,
        .stored { e with location := st.location, neighborsAt := st.neighborsAt } none st.cursor]
      (s₂, own) := by
  have hread : Action.reading (fun s => .ok s.entry) s = .ok none s := by
    rw [Action.reading, hnone]
  have hn₀ : s.Numbered := by
    rw [Store.Numbered, hsize.1]
    exact hn
  have hn₁ : s₁.Numbered := by
    rw [Store.Numbered, hsize.2]
    exact hn
  apply Turns.Interleaved.step (i := 0) rfl (Turns.Step.act hread own _) hn₀
  apply Turns.Interleaved.step (i := 1) rfl (Turns.Step.act hread own _) hn₀
  apply Turns.Interleaved.step (i := 1) (x := store p none e) rfl (Turns.Step.act he own _) hn₁
  apply Turns.Interleaved.step (i := 0) (x := store p none d) rfl (Turns.Step.act hd own _) hn
  exact .done [_, _] _

/-- Two elements of a new file, on levels 0 and 1, and the higher one is connected first. -/
theorem race_settles_two : ∃ (is js : List Insertion) (y : Store × Unit) (s' : Store),
    Turns.Interleaved ([Draft.new 0 [0, 0] 7, Draft.new 1 [0, 0] 8].map
        (Insertion.place Params.standard (layerSearch Unit Params.standard)))
      (Store.fresh (Index.template 2 Options.standard), ()) is y ∧ js.Perm is ∧
    js.mapM (Insertion.finish Params.standard (layerSearch Unit Params.standard)) y =
      .ok (js.map Insertion.outcome) (s', ()) ∧
    RaceSettled Params.standard.m [Draft.new 0 [0, 0] 7, Draft.new 1 [0, 0] 8]
      (is.map Insertion.outcome) s' := by
  have hhistory := Index.history_new_file
  have hintact := Index.opened_new_file.intact
  have hpage : (Store.fresh (Index.template 2 Options.standard)).pages[
      (Store.fresh (Index.template 2 Options.standard)).cursor.toNat]? = some Page.empty := by
    rw [Store.cursor, Store.header_fresh]
    rfl
  have hnone : (Store.fresh (Index.template 2 Options.standard)).entry = none := by
    rw [Store.entry, Store.header_fresh]
    rfl
  have hcount : (Store.fresh (Index.template 2 Options.standard)).pages.size = 2 := rfl
  have hm : (Index.template 2 Options.standard).m.toNat = Params.standard.m := rfl
  generalize Store.fresh (Index.template 2 Options.standard) = s at hhistory hintact hpage hnone hcount ⊢
  obtain ⟨st, st', s₁, s₂, hstore, hstore', hsize, hsize'⟩ := storePair_fits_two hintact hpage
    (Draft.new 0 [0, 0] 7) (Draft.new 1 [0, 0] 8) rfl rfl (by
      rw [Adjacency.size_encode, Draft.length_adjacency, Adjacency.size_encode,
        Draft.length_adjacency, Page.freeSpace_empty]
      decide)
  rw [hm] at hstore hstore'
  have hn : s₂.Numbered := by
    rw [Store.Numbered, hsize', hsize, hcount]
    decide
  have hplaced := Insertion.interleaved_two (layerSearch Unit Params.standard) () hnone hn
    ⟨by rw [hsize', hsize], hsize'.symm⟩ hstore hstore'
  have hconstruction : Index.construction ⟨Params.standard, 2, 64⟩ Unit =
      layerSearch Unit Params.standard := Index.construction_eq Unit rfl
  rw [← hconstruction] at hplaced ⊢
  obtain ⟨s', hrun, hsettled⟩ := race_settles hhistory hnone () (List.cons_ne_nil _ _) (by
      intro d hd
      rw [List.mem_cons, List.mem_singleton] at hd
      rcases hd with rfl | rfl
      · exact ⟨0, _, _, rfl, rfl⟩
      · exact ⟨1, _, _, rfl, rfl⟩) hplaced (List.Perm.swap _ _ [])
  exact ⟨_, _, _, s', hplaced, List.Perm.swap _ _ [], hrun, hsettled⟩

end PagedGraph
