import PagedGraph.Proofs.Coalescing
import PagedGraph.Proofs.Recycling

/-!
# Publishing a stored element

An element that has been stored becomes the entry point some turns later, under the level that it was
stored with. What lies at its location by then is not looked at again. Others may have deleted the
element in the meantime and stored another one in its space.

The location of an entry point always holds an element. The element is on the recorded level, unless
the entry point has been installed by an insertion to whose location this has happened
(`entry_published`). It can happen even if others do no more than delete one element and insert
another one (`published_reused`).
-/

set_option autoImplicit false

namespace PagedGraph

namespace Store

def Stands (s : Store) (x : EntryPoint) : Prop :=
  ∃ e, s.element x.location = .ok e ∧ e.level = x.level

def EntryStands (s : Store) : Prop := ∀ x, s.entry = some x → s.Stands x

/-- The same, with an exception for somebody who wants to become the entry point. -/
def EntryStandsBut (candidate : Option EntryPoint) (s : Store) : Prop :=
  ∀ x, s.entry = some x → candidate = some x ∨ s.Stands x

variable {s s' : Store} {x : EntryPoint}

theorem stands_iff : s.Stands x ↔ ∃ e, s.record? x.location = some (.element e) ∧
    e.level = x.level := by
  simp only [Stands, s.element_eq_ok]

theorem EntryStands.but (h : s.EntryStands) (candidate : Option EntryPoint) :
    s.EntryStandsBut candidate := fun x hx => .inr (h x hx)

theorem EntryStandsBut.entryStands (h : s.EntryStandsBut none) : s.EntryStands :=
  fun x hx => (h x hx).resolve_left (Option.some_ne_none x).symm

theorem Stands.level_eq {l : Location} {a b : UInt8} (ha : s.Stands ⟨l, a⟩) (hb : s.Stands ⟨l, b⟩) :
    a = b := by
  obtain ⟨e, he, rfl⟩ := ha
  obtain ⟨f, hf, rfl⟩ := hb
  rw [Except.ok.inj (he.symm.trans hf)]

theorem Stands.congr (h : s.Stands x)
    (hsame : ∀ l e, s'.record? l = some (.element e) ↔ s.record? l = some (.element e)) :
    s'.Stands x := by
  obtain ⟨e, he, hlevel⟩ := stands_iff.mp h
  exact stands_iff.mpr ⟨e, (hsame _ e).mpr he, hlevel⟩

theorem Puts.stands {l : Location} {f : Element} (h : s.Puts s' l f) :
    s'.Stands x ↔ if x.location = l then f.level = x.level else s.Stands x := by
  rw [stands_iff]
  by_cases hx : x.location = l
  · rw [if_pos hx]
    constructor
    · rintro ⟨e, he, hlevel⟩
      have hput := (h _ e).mp he
      rw [if_pos hx] at hput
      rwa [← hput]
    · exact fun hlevel => ⟨f, (h _ f).mpr (by rw [if_pos hx]), hlevel⟩
  · rw [if_neg hx, stands_iff]
    have hput : ∀ e, s'.record? x.location = some (.element e) ↔
        s.record? x.location = some (.element e) := fun e => by rw [h, if_neg hx]
    simp only [hput]

end Store

namespace Job

def stored? (p : Params) (s : Store) : Job → Option EntryPoint
  | insert q level vector row => (run p s (.insert q level vector row)).1.map fun x => ⟨x.1, level⟩
  | delete _ => none

def levelAt (l : Location) (level : UInt8) (stored : List EntryPoint) : UInt8 :=
  stored.foldl (fun now x => if x.location = l then x.level else now) level

/-- What a complete operation does to the elements of a store and to its entry point: it changes at
most one element and not its level, or it stores an element, not in the place of the entry point,
which may become the entry point. -/
inductive Effect (s : Store) : Option EntryPoint → Store → Prop where
  | none : Effect s .none s
  | changed (l : Location) (e f : Element) (s' : Store) (found : s.record? l = some (.element e))
      (same : f.level = e.level) (puts : s.Puts s' l f) (entry : s'.entry = s.entry) :
      Effect s .none s'
  | stored (l : Location) (f : Element) (s' : Store) (puts : s.Puts s' l f)
      (free : ∀ e, s.record? l = some (.element e) → s.entry.map EntryPoint.location ≠ some l)
      (entry : s'.entry = s.entry ∨ s'.entry = some ⟨l, f.level⟩) :
      Effect s (some ⟨l, f.level⟩) s'

namespace Effect

variable {s s' : Store} {new : Option EntryPoint}

theorem entryStands {candidate : Option EntryPoint} (h : Effect s new s')
    (hs : s.EntryStandsBut candidate) : s'.EntryStandsBut candidate := by
  cases h with
  | none => exact hs
  | changed l e f s' found same puts entry =>
    intro x hx
    rw [entry] at hx
    refine (hs x hx).imp_right fun hstands => puts.stands.mpr ?_
    by_cases hl : x.location = l
    · obtain ⟨g, hg, hlevel⟩ := Store.stands_iff.mp hstands
      rw [hl, found] at hg
      cases hg
      rw [if_pos hl, same, hlevel]
    · rwa [if_neg hl]
  | stored l f s' puts free entry =>
    intro x hx
    rcases entry with hold | hnew
    · rw [hold] at hx
      refine (hs x hx).imp_right fun hstands => puts.stands.mpr ?_
      obtain ⟨g, hg, -⟩ := Store.stands_iff.mp hstands
      have hl : x.location ≠ l := by
        rintro rfl
        exact free g hg (by rw [hx]; rfl)
      rwa [if_neg hl]
    · obtain rfl := Option.some.inj (hnew.symm.trans hx)
      exact .inr (puts.stands.mpr (by rw [if_pos rfl]))

theorem stands {l : Location} {level : UInt8} (h : Effect s new s') (hs : s.Stands ⟨l, level⟩) :
    s'.Stands ⟨l, levelAt l level new.toList⟩ := by
  cases h with
  | none => exact hs
  | changed k e f s' found same puts entry =>
    refine puts.stands.mpr ?_
    by_cases hl : l = k
    · obtain ⟨g, hg, hlevel⟩ := Store.stands_iff.mp hs
      rw [hl, found] at hg
      cases hg
      exact (if_pos hl).mpr (same.trans hlevel)
    · exact (if_neg hl).mpr hs
  | stored k f s' puts free entry =>
    refine puts.stands.mpr ?_
    by_cases hl : k = l
    · exact (if_pos hl.symm).mpr (if_pos hl).symm
    · have hsame : levelAt l level [⟨k, f.level⟩] = level := if_neg hl
      rw [if_neg (Ne.symm hl), Option.toList_some, hsame]
      exact hs

end Effect

theorem effect_placed {t : Header} {s s₁ s' : Store} {d : Draft} {st : Stored} (h : s.Intact t)
    (hplaced : Placed t s s₁ d st)
    (hkept : ∀ l e, s'.record? l = some (.element e) ↔ s₁.record? l = some (.element e))
    (hentry : s'.entry = s.entry ∨ s'.entry = some ⟨st.location, d.level⟩) :
    Effect s (some ⟨st.location, d.level⟩) s' := by
  refine .stored st.location { d.element with neighborsAt := st.neighborsAt } s'
    ((hplaced.put.puts h).followed hkept) (fun e he => ?_) hentry
  rcases hplaced.put.old with ⟨hnone, -⟩ | ⟨-, -, -, -, hne⟩
  · rw [hnone] at he
    cases he
  · exact hne

variable {t : Header} {p : Params} (hp : p.m = t.m.toNat) {s : Store} (h : s.Intact t)
include hp h

theorem effect (j : Job) (hj : j.Fits t.dimensions.toNat) (hn : (j.run p s).2.Numbered) :
    s.Later t (j.run p s).2 ∧ Effect s (j.stored? p s) (j.run p s).2 := by
  cases j with
  | delete l =>
    refine ⟨markDeleted_later h l, ?_⟩
    rw [run]
    rcases markDeleted_after h l with hsame | ⟨e, he, -, -, hrew⟩
    · rw [hsame]
      exact .none
    · exact .changed l e e.tombstone _ he rfl hrew.puts hrew.entry
  | insert width level vector row =>
    rw [run_insert] at hn
    have hgrows := Insertion.insertElement_grows h p hp (Draft.new level vector row) hj ()
      { p with searchWidth := width } (Store.linkable_nil _ _)
    obtain ⟨r, s', heffect, hresult, -⟩ := Insertion.insertElement_effect h p hp
      (Draft.new level vector row) hj () { p with searchWidth := width } hp
      (Store.linkable_nil _ _) hn
    rw [ActionWith.after, hresult] at hgrows
    rw [stored?, run, hresult]
    cases heffect with
    | failed e => exact ⟨.refl h, .none⟩
    | joined l e place s' found live same free behind intact rewritten =>
      exact ⟨rewritten.later intact, .changed l e (e.withRow place row) s' found rfl
        rewritten.puts rewritten.entry⟩
    | stored st lists s₁ s' linkable placed connected =>
      have hentry := connected.entry_cases
      rw [placed.entry] at hentry
      have hrises : Rises s.entry s'.entry := by
        rcases hentry with hold | ⟨hnew, hbelow⟩
        · rw [hold]
          exact .refl _
        · exact fun x hx => ⟨_, hnew, UInt8.le_of_lt (hbelow x hx)⟩
      exact ⟨⟨connected.intact, hgrows, hrises⟩,
        effect_placed h placed connected.element (hentry.imp_right And.left)⟩

end Job

/-- A program takes its turns while others do complete operations before, between and after them. What
they store on the way is listed. -/
inductive Turns.Attended (p : Params) (width : Nat) {τ α : Type} :
    Turns τ α → Store × τ → List EntryPoint → α → Store × τ → Prop where
  | done (a : α) (y : Store × τ) : Attended p width (.done a) y [] a y
  | turn {β : Type} {action : ActionWith τ β} {next : β → Turns τ α} {y y' y'' : Store × τ} {b : β}
      {a : α} {stored : List EntryPoint} (works : action y = .ok b y') (numbered : y'.1.Numbered)
      (rest : Attended p width (next b) y' stored a y'') :
      Attended p width (.turn action next) y stored a y''
  | others {x : Turns τ α} {s : Store} {own : τ} {y' : Store × τ} {a : α}
      {stored : List EntryPoint} (j : Job) (fits : j.Fits width)
      (numbered : (j.run p s).2.Numbered)
      (rest : Attended p width x ((j.run p s).2, own) stored a y') :
      Attended p width x (s, own) ((j.stored? p s).toList ++ stored) a y'

/-- What a turn does that comes after the commit: all elements stay as they are, and the entry point
does, too, unless it is replaced by a candidate. -/
structure Store.Promotes (candidate : Option EntryPoint) (s s' : Store) : Prop where
  element : ∀ l e, s'.record? l = some (.element e) ↔ s.record? l = some (.element e)
  entry : s'.entry = s.entry ∨ s'.entry = candidate

theorem Store.Promotes.entryStands {candidate : Option EntryPoint} {s s' : Store}
    (h : s.Promotes candidate s') (hs : s.EntryStandsBut candidate) :
    s'.EntryStandsBut candidate := by
  intro x hx
  rcases h.entry with hold | hnew
  · rw [hold] at hx
    exact (hs x hx).imp_right fun hstands => hstands.congr h.element
  · exact .inl (hnew.symm.trans hx)

section
variable {p : Params} {t : Header} (hp : p.m = t.m.toNat)
include hp

theorem Turns.Attended.stands {τ α : Type} {x : Turns τ α} {y y' : Store × τ} {a : α}
    {stored : List EntryPoint} (h : x.Attended p t.dimensions.toNat y stored a y')
    {candidate : Option EntryPoint} {P : α → Prop} (hs : y.1.Intact t)
    (hx : x.Safe t (Store.Promotes candidate) (fun a _ => P a) y.1)
    (hentry : y.1.EntryStandsBut candidate) :
    P a ∧ y'.1.EntryStandsBut candidate ∧ ∀ l level, y.1.Stands ⟨l, level⟩ →
      y'.1.Stands ⟨l, Job.levelAt l level stored⟩ := by
  induction h with
  | done a y => exact ⟨hx, hentry, fun l level hl => hl⟩
  | @turn β action next y y₁ y' b a stored works numbered _ ih =>
    have hafter : action.after y.1 y.2 = y₁ := by rw [ActionWith.after, works]
    obtain ⟨hlater, hpromotes, hnext⟩ := hx y.1 y.2 (.refl hs) (by rwa [hafter])
    rw [hafter] at hlater hpromotes
    obtain ⟨hP, hentry', hrest⟩ :=
      ih hlater.intact (hnext b y₁.1 y₁.2 works) (hpromotes.entryStands hentry)
    exact ⟨hP, hentry', fun l level hl => hrest l level (hl.congr hpromotes.element)⟩
  | @others x s own y' a stored j fits numbered _ ih =>
    obtain ⟨hlater, heffect⟩ := Job.effect hp hs j fits numbered
    obtain ⟨hP, hentry', hrest⟩ :=
      ih hlater.intact (.later (fun _ _ _ _ h => h) hlater hx) (heffect.entryStands hentry)
    refine ⟨hP, hentry', fun l level hl => ?_⟩
    rw [Job.levelAt, List.foldl_append]
    exact hrest l _ (heffect.stands hl)

end

def Outcome.candidate? (level : UInt8) : Outcome → Option EntryPoint
  | inserted l => some ⟨l, level⟩
  | _ => none

namespace Insertion

structure Awaiting (t : Header) (d : Draft) (i : Insertion) (s : Store) : Prop where
  intact : s.Intact t
  anchored : i.Anchored d s
  entry : s.EntryStands
  own : ∀ x, i.outcome.candidate? d.level = some x → s.Stands x

section
variable {τ : Type} {t : Header} {s s₁ : Store} (h : s.Intact t) (p : Params)
  (hp : p.m = t.m.toNat) (d : Draft) (hd : d.vector.length = t.dimensions.toNat) {own own' : τ}
  {i : Insertion}
include h hp hd

theorem awaiting_of_begin (q : Params) (hlists : s.Linkable q.m d.neighbors) (hentry : s.EntryStands)
    (hbegin : begin p (layerSearch τ q) d (s, own) = .ok i (s₁, own')) (hn : s₁.Numbered) :
    i.Awaiting t d s₁ := by
  obtain ⟨r, s', hbegun, hplace⟩ := place_begun h p hp d hd own q hlists
  have hended : Turns.ended own r s' = .ok i (s₁, own') := hplace.symm.trans hbegin
  cases hbegun with
  | failed e => cases hended
  | joined l e place s' found live same free behind intact rewritten =>
    cases hended
    have heffect : Job.Effect s none s₁ :=
      .changed l e (e.withRow place d.row) s₁ found rfl rewritten.puts rewritten.entry
    exact ⟨intact, trivial, (heffect.entryStands (hentry.but none)).entryStands,
      fun x hx => by cases hx⟩
  | stored st lists s' linkable size placed =>
    cases hended
    have hplaced := placed hn
    have heffect := Job.effect_placed h hplaced (fun _ _ => Iff.rfl) (.inl hplaced.entry)
    refine ⟨hplaced.intact, ⟨rfl, hplaced.intact.page_ne hplaced.element, hplaced.cursor, ?_⟩,
      (heffect.entryStands (hentry.but none)).entryStands, fun x hx => ?_⟩
    · rw [hplaced.entry]
      exact .refl _
    · cases hx
      exact (hplaced.put.puts h).stands.mpr (by rw [if_pos rfl]; rfl)

end

end Insertion

def Published (level : UInt8) (stored : List EntryPoint) (s : Store) : Outcome → Prop
  | .inserted l =>
    -- Nobody has taken the element away without storing another one in its space.
    s.Stands ⟨l, Job.levelAt l level stored⟩ ∧
    -- The entry point is an element, though maybe another one than it was.
    (∀ x, s.entry = some x → ∃ e, s.element x.location = .ok e) ∧
    (s.EntryStands ↔ (s.entry = some ⟨l, level⟩ → Job.levelAt l level stored = level))
  | _ => s.EntryStands

/-- Whatever several writers have done with an index that was opened empty: if the entry point stands
when somebody begins to insert an element, and others do any complete operations from the commit on,
then it still stands at the end, unless the insertion has installed its own element and others have
stored one on another level in its place. -/
theorem entry_published {path : String} {dimensions : UInt32} {o : Options}
    {file file' : FileState} {ix : Index} {s₀ : Store} (hblank : file.isBlank = true)
    (hopen : Index.openFile path dimensions o file = (.ok (ix, s₀), file')) {s : Store}
    {ws : List Writer} (hreach : Reaches ix.params ix.dimensions s₀ ⟨s, ws⟩)
    (hentry : s.EntryStands) {τ : Type} {own own₁ : τ} (q : Params) (level : UInt8)
    (vector : Embedding) (row : RowId) (hd : vector.length = ix.dimensions) {i : Insertion}
    {s₁ : Store} (hbegin : Insertion.begin ix.params (layerSearch τ q)
      (Draft.new level vector row) (s, own) = .ok i (s₁, own₁)) (hn : s₁.Numbered)
    {stored : List EntryPoint} {outcome : Outcome} {y : Store × τ}
    (hrest : (Insertion.connect ix.params (layerSearch τ q) i).Attended ix.params ix.dimensions
      (s₁, own₁) stored outcome y) : Published level stored y.1 outcome := by
  obtain ⟨hopened, -⟩ := Index.opened_of_blank hblank hopen
  have hp := hopened.m_eq
  rw [hopened.width] at hreach hd hrest
  have hintact := (hreach.sound hp hopened.intact).intact
  have hawaiting := Insertion.awaiting_of_begin hintact ix.params hp (Draft.new level vector row) hd
    q (Store.linkable_nil _ _) hentry hbegin hn
  have hkept : ∀ s s' : Store, s.Intact (Index.template dimensions o) →
      Store.Kept (Index.template dimensions o) s s' →
      s.Promotes (i.outcome.candidate? level) s' := fun s s' _ h => ⟨h.element, .inl h.entry⟩
  have hsafe := Insertion.safe_connect hkept ix.params (layerSearch τ q)
    (fun _ _ _ => safe_looking hkept fun _ _ _ => trivial) (Draft.new level vector row) i
    (fun l hl s s' hquiet hinstalled => ⟨hquiet.element, .inr (by rw [hl]; exact hinstalled)⟩) s₁
    hawaiting.anchored
  obtain ⟨rfl, hends, hlevels⟩ := hrest.stands hp hawaiting.intact
    (hsafe.mono (fun _ _ h => h) (fun _ _ h => h.1) s₁) (hawaiting.entry.but _)
  cases hi : i.outcome with
  | coalesced l =>
    rw [hi] at hends
    exact hends.entryStands
  | skipped reason =>
    rw [hi] at hends
    exact hends.entryStands
  | inserted l =>
    rw [hi] at hends
    have hown := hlevels l level (hawaiting.own ⟨l, level⟩ (by rw [hi]; rfl))
    refine ⟨hown, fun x hx => ?_, fun hall hmine => ?_, fun hlevel x hx => ?_⟩
    · rcases hends x hx with hsame | hstands
      · cases hsame
        exact hown.imp fun e he => he.1
      · exact hstands.imp fun e he => he.1
    · exact hown.level_eq (hall _ hmine)
    · rcases hends x hx with hsame | hstands
      · cases hsame
        rwa [hlevel hx] at hown
      · exact hstands

theorem Turns.Grows.attended {p : Params} {width : Nat} {τ α : Type} {x : Turns τ α} (hx : x.Grows) :
    ∀ {y y' : Store × τ} {a : α}, x.run y = .ok a y' → y'.1.Numbered →
      x.Attended p width y [] a y' := by
  induction x with
  | done a =>
    intro y y' b hrun _
    cases hrun
    exact .done a y
  | turn action next ih =>
    intro y y' a hrun hn
    cases hact : action y with
    | error e y₁ =>
      rw [run_turn_error hact] at hrun
      cases hrun
    | ok b y₁ =>
      rw [run_turn_ok hact] at hrun
      have hgrows := (hx.2 b).run y₁.1 y₁.2
      rw [ActionWith.after, hrun] at hgrows
      exact .turn hact (Nat.le_trans hgrows hn) (ih b (hx.2 b) hrun hn)

section
variable {τ : Type} {t : Header} {s s₁ : Store} (p : Params) (hp : p.m = t.m.toNat) (q : Params)
  (d : Draft) (own : τ) {x : EntryPoint} {lists : List (List Candidate)} {st : Stored}
  (hentry : s.entry = some x)
  (hfound : s.searchFrom q ⟨d.vector, d.level.toNat, none⟩ x = .ok lists)
  (hunequal : s.findDuplicate d.vector lists = .ok none)
  (hroom : storePair { d with neighbors := lists } t.m.toNat s = .ok st s₁)
include hp hentry hfound hunequal hroom

theorem Insertion.begin_stores : Insertion.begin p (layerSearch τ q) d (s, own) =
    .ok (.stored { d with
      neighbors := lists, location := st.location, neighborsAt := st.neighborsAt } (some x) st.cursor)
      (s₁, own) := by
  rw [← placeAmid_none]
  exact placeAmid_stores q d own (w := .none) p hp hentry hfound hunequal hroom

theorem insertElement_stores (h : s.Intact t) (hlinks : s.Resolves) (hd : d.vector.length = t.dimensions.toNat)
    (hn : s₁.Numbered) : ∃ s', insertElement p (layerSearch τ q) d (s, own) =
        .ok (.inserted st.location) (s', own) ∧
      Placed t s s₁ { d with neighbors := lists } st ∧
      Insertion.Connected t s₁ s' { d with
        neighbors := lists, location := st.location, neighborsAt := st.neighborsAt } := by
  have hplaced := storePair_placed h { d with neighbors := lists } hd hroom hn
  have hoccupied := (Store.searchFrom_live q _ x lists hfound).occupied
  have hresolves := Insertion.placed_resolves h hlinks hoccupied hplaced
  obtain ⟨s', hconnect, hconnected⟩ := Insertion.connect_run p own hp (layerSearch τ q)
    hplaced.intact
    { d with neighbors := lists, location := st.location, neighborsAt := st.neighborsAt } (some x)
    st.cursor (hplaced.entry.trans hentry) hplaced.cursor ⟨_, hplaced.element⟩
    fun i => hresolves.explored (fun c hc =>
      (hoccupied i c hc).elim fun f hf => (hplaced.put.puts h).element hf) _ i
  exact ⟨s', (Turns.run_bind_ok (Insertion.begin_stores p hp q d own hentry hfound hunequal
    hroom)).trans hconnect, hplaced, hconnected⟩

end

namespace Index

/-- The first element is in the file and is the entry point. A second one is stored but not connected,
or something has become of it. -/
structure HasStored (s : Store) (e : Element) : Prop where
  intact : s.Intact (template 900 Options.standard)
  size : s.pages.size = 2
  entry : s.entry = some ⟨⟨1, 0⟩, 1⟩
  links : s.Resolves
  others : ∀ l f, l ≠ ⟨1, 2⟩ → (s.record? l = some (.element f) ↔ l = ⟨1, 0⟩ ∧ f = first)
  atSecond : s.record? ⟨1, 2⟩ = some (.element e)

theorem m_wide : wide.params.m = (template 900 Options.standard).m.toNat := rfl

theorem HasFirst.begun {s : Store} (h : HasFirst s) : ∃ d s₁,
    Insertion.begin wide.params (layerSearch Unit wide.searching) (Draft.new 2 (plain 1) 8) (s, ()) =
      .ok (.stored d (some ⟨⟨1, 0⟩, 1⟩) none) (s₁, ()) ∧
    (d.location = ⟨1, 2⟩ ∧ d.level = 2 ∧ ∀ i, ∀ c ∈ d.neighbors.getD i [], c.location = ⟨1, 0⟩) ∧
    HasStored s₁ second := by
  obtain ⟨lists, hfound⟩ := h.searched ⟨plain 1, (2 : UInt8).toNat, none⟩
  have hlive := Store.searchFrom_live _ _ _ lists hfound
  obtain ⟨s₁, hroom, hsize⟩ := h.room { Draft.new 2 (plain 1) 8 with neighbors := lists }
    (length_plain 1) rfl
  have hsize₁ := hsize.trans h.size
  have hplaced := storePair_placed h.settled.intact { Draft.new 2 (plain 1) 8 with
    neighbors := lists } (length_plain 1) hroom (numbered_two hsize₁)
  have hputs := hplaced.put.puts h.settled.intact
  refine ⟨_, s₁, Insertion.begin_stores wide.params m_wide wide.searching (Draft.new 2 (plain 1) 8) ()
    h.entry hfound (findDuplicate_new hlive (h.vector_ne (by decide))) hroom,
    ⟨rfl, rfl, fun i => (h.found hfound i).1⟩, hplaced.intact, hsize₁,
    hplaced.entry.trans h.entry, ?_, fun l f hl => ?_, ?_⟩
  · exact Insertion.placed_resolves h.settled.intact h.settled.navigable.links hlive.occupied
      hplaced
  · rw [hputs, if_neg hl, h.elements]
  · exact hplaced.element

section
variable {s : Store}

theorem HasStored.atFirst {e : Element} (h : HasStored s e) :
    s.record? ⟨1, 0⟩ = some (.element first) :=
  (h.others _ _ (by decide)).mpr ⟨rfl, rfl⟩

theorem HasStored.delete (h : HasStored s second) :
    HasStored ((markDeleted ⟨1, 2⟩).after s) second.tombstone := by
  obtain ⟨s', hrun, hintact, hrew⟩ := markDeleted_live h.intact ⟨1, 2⟩ second h.atSecond rfl
  have hafter := Action.after_ok hrun
  rw [hafter]
  refine ⟨hintact, hrew.size.trans h.size, hrew.entry.trans h.entry, h.links.rewritten hrew,
    fun l f hl => ?_, ?_⟩
  · rw [hrew.puts, if_neg hl]
    exact h.others l f hl
  · exact (hrew.puts _ _).mpr (by rw [if_pos rfl])

theorem HasStored.reuse (h : HasStored s second.tombstone) : ∃ s',
    insertElement wide.params (layerSearch Unit wide.searching) (Draft.new 0 (plain 2) 9) (s, ()) =
      .ok (.inserted ⟨1, 2⟩) (s', ()) ∧ s'.Intact (template 900 Options.standard) ∧
    s'.entry = some ⟨⟨1, 0⟩, 1⟩ ∧ s'.Resolves ∧
    (∃ f, s'.record? ⟨1, 0⟩ = some (.element f)) ∧ ∃ f, s'.record? ⟨1, 2⟩ = some (.element f) := by
  have hnew : ∀ l f, s.record? l = some (.element f) → f.vector ≠ plain 2 := by
    intro l f hf
    by_cases hl : l = ⟨1, 2⟩
    · rw [hl, h.atSecond] at hf
      cases hf
      exact plain_ne (by decide)
    · obtain ⟨-, rfl⟩ := (h.others l f hl).mp hf
      exact plain_ne (by decide)
  have hfirst : ∀ (j : UInt16) (f : Element), j < 2 → s.record? ⟨1, j⟩ = some (.element f) →
      f.deleted = false := by
    intro j f hj hf
    have hne : (⟨1, j⟩ : Location) ≠ ⟨1, 2⟩ := fun heq =>
      UInt16.lt_irrefl 2 ((Location.mk.inj heq).2 ▸ hj)
    obtain ⟨-, rfl⟩ := (h.others _ f hne).mp hf
    rfl
  have hstart : s.record? (EntryPoint.mk ⟨1, 0⟩ 1).location = some (.element first) := h.atFirst
  obtain ⟨lists, hfound⟩ := Store.searchFrom_ok h.intact h.links wide.searching
    ⟨plain 2, (0 : UInt8).toNat, none⟩ hstart
  obtain ⟨s₁, hroom, hsize⟩ := storePair_reused h.intact h.size h.atFirst rfl h.atSecond rfl
    full_wide h.atSecond rfl rfl hfirst (by rw [h.entry]; decide)
    { Draft.new 0 (plain 2) 9 with neighbors := lists } (length_plain 2)
    (show (0 : UInt8) ≤ 2 by decide)
  obtain ⟨s', hrun, hplaced, hconnected⟩ := insertElement_stores wide.params m_wide wide.searching
    (Draft.new 0 (plain 2) 9) () h.entry hfound
    (findDuplicate_new (Store.searchFrom_live _ _ _ lists hfound) hnew) hroom h.intact h.links
    (length_plain 2) (numbered_two hsize)
  have hentry := hconnected.entry
  rw [hplaced.entry, h.entry] at hentry
  have hputs := (hplaced.put.puts h.intact).followed hconnected.element
  have hoccupied := (Store.searchFrom_live _ _ _ lists hfound).occupied
  exact ⟨s', hrun, hconnected.intact,
    hentry.trans (if_neg (show ¬decide ((1 : UInt8) < 0) = true by decide)),
    hconnected.linked.resolves hconnected.element ⟨_, hplaced.element⟩
      (Insertion.placed_resolves h.intact h.links hoccupied hplaced),
    hputs.element h.atFirst, hputs.element h.atSecond⟩

end

end Index

section
open Index

/-- An element on level 2 is stored beside one on level 1. Before it is connected it is deleted, and
an element on level 0 is stored in its place. The location becomes the entry point, on level 2. -/
theorem published_reused : ∃ s i s₁ y,
    Reaches wide.params wide.dimensions (Store.fresh (template 900 Options.standard)) ⟨s, []⟩ ∧
    s.EntryStands ∧
    Insertion.begin wide.params (layerSearch Unit wide.searching) (Draft.new 2 (plain 1) 8) (s, ()) =
      .ok i (s₁, ()) ∧
    (Insertion.connect wide.params (layerSearch Unit wide.searching) i).Attended wide.params
      wide.dimensions (s₁, ()) [⟨⟨1, 2⟩, 0⟩] (.inserted ⟨1, 2⟩) y ∧
    y.1.entry = some ⟨⟨1, 2⟩, 2⟩ ∧ y.1.Stands ⟨⟨1, 2⟩, 0⟩ ∧ ¬y.1.EntryStands := by
  obtain ⟨s, hfirst, hcompletes⟩ := first_completes_wide
  have hreach : Reaches wide.params wide.dimensions (Store.fresh (template 900 Options.standard))
      ⟨s, []⟩ := .inserted (.start _) (length_plain 0) hcompletes
  have hstands : s.EntryStands := fun x hx =>
    Store.stands_iff.mpr (hfirst.settled.navigable.found x hx)
  obtain ⟨d, s₁, hbegin, ⟨hat, hlevel, hneighbors⟩, hstored⟩ := hfirst.begun
  have hdeleted := hstored.delete
  obtain ⟨s₂, hinsert, hintact, hentry, hlinks, hoccupied, hown⟩ := hdeleted.reuse
  obtain ⟨s₃, hconnect, hconnected⟩ := Insertion.connect_run wide.params () m_wide
    (layerSearch Unit wide.searching) hintact d (some ⟨⟨1, 0⟩, 1⟩) none hentry
    (fun id hid => by cases hid) (by rw [hat]; exact hown) fun i =>
      hlinks.explored (fun c hc => by rw [hneighbors i c hc]; exact hoccupied) _ i
  have hfinal : s₃.entry = some ⟨⟨1, 2⟩, 2⟩ := by
    rw [hconnected.entry, hentry, Insertion.outranks, hlevel, hat]
    rfl
  have hjob : (Job.insert wide.searching.searchWidth 0 (plain 2) 9).run wide.params
      ((markDeleted ⟨1, 2⟩).after s₁) = (some (⟨1, 2⟩, plain 2), s₂) := by
    have hsearching : { wide.params with searchWidth := wide.searching.searchWidth } =
        wide.searching := rfl
    rw [Job.run, hsearching, hinsert]
  have hattended : (Insertion.connect wide.params (layerSearch Unit wide.searching)
      (.stored d (some ⟨⟨1, 0⟩, 1⟩) none)).Attended wide.params wide.dimensions (s₁, ())
      [⟨⟨1, 2⟩, 0⟩] (.inserted d.location) (s₃, ()) := by
    refine .others (.delete ⟨1, 2⟩) trivial hdeleted.intact.bounded ?_
    have hnext : (Insertion.connect wide.params (layerSearch Unit wide.searching)
        (.stored d (some ⟨⟨1, 0⟩, 1⟩) none)).Attended wide.params wide.dimensions
        ((markDeleted ⟨1, 2⟩).after s₁, ()) _ (.inserted d.location) (s₃, ()) :=
      .others (.insert wide.searching.searchWidth 0 (plain 2) 9) (length_plain 2)
        (by rw [hjob]; exact hintact.bounded) (by
          rw [hjob]
          exact (Insertion.grows_connect _ _ _).attended hconnect hconnected.intact.bounded)
    rw [Job.stored?, hjob] at hnext
    exact hnext
  rw [hat] at hattended
  have hblank : FileState.absent.isBlank = true := rfl
  obtain ⟨hown, -, hiff⟩ := entry_published hblank (openFile_blank checkOptions_wide "index" .absent
    hblank) hreach hstands wide.searching 2 (plain 1) 8 (length_plain 1) hbegin
    (numbered_two hstored.size) hattended
  refine ⟨s, _, s₁, _, hreach, hstands, hbegin, hattended, hfinal, hown, fun hall => ?_⟩
  exact absurd (hiff.mp hall hfinal) (by decide)

end

end PagedGraph
