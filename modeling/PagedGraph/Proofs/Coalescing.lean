import PagedGraph.Proofs.Unbroken

/-!
# What a row joins

A duplicate is looked up without a lock, and the row joins it later, under the lock of its page. In
between other writers may delete the duplicate and store another element in its space. When the row
joins, it is checked again that the element is live and has room, but not which vector it has.

So a row that joins an element joins a live one. The element has the row's own vector, unless work
of others has stored another one at that place in the meantime; then it has the vector that was
stored there last (`joins_meanwhile`).
-/

set_option autoImplicit false

namespace PagedGraph

/-- A complete operation of another writer, who searches the graph himself with a beam of his own
width. -/
inductive Job where
  | insert (width : Nat) (level : UInt8) (vector : Embedding) (row : RowId)
  | delete (l : Location)

namespace Job

def run (p : Params) (s : Store) : Job → Option (Location × Embedding) × Store
  | insert width level vector row =>
    match insertElement p (layerSearch Unit { p with searchWidth := width })
        (Draft.new level vector row) (s, ()) with
    | .ok (.inserted l) (s, _) => (some (l, vector), s)
    | .ok _ (s, _) => (none, s)
    | .error _ (s, _) => (none, s)
  | delete l => (none, (markDeleted l).after s)

def runAll (p : Params) : List Job → Store → Store
  | [], s => s
  | w :: ws, s => runAll p ws (w.run p s).2

def vectorAt (l : Location) (stored : Option (Location × Embedding)) (v : Embedding) : Embedding :=
  match stored with
  | some (k, x) => if k = l then x else v
  | none => v

/-- The vector that some operations leave at a location, given the one that was there before: that
of the last element they have stored there, if there is one. -/
def lastAt (p : Params) (l : Location) : List Job → Store → Embedding → Embedding
  | [], _, v => v
  | w :: ws, s, v => lastAt p l ws (w.run p s).2 (vectorAt l (w.run p s).1 v)

def Fits (width : Nat) : Job → Prop
  | insert _ _ vector _ => vector.length = width
  | delete _ => True

def Numbered (p : Params) : List Job → Store → Prop
  | [], _ => True
  | w :: ws, s => (w.run p s).2.Numbered ∧ Numbered p ws (w.run p s).2

def Leaves (s : Store) (stored : Option (Location × Embedding)) (s' : Store) : Prop :=
  ∀ l e, s.record? l = some (.element e) →
    ∃ f, s'.record? l = some (.element f) ∧ f.vector = vectorAt l stored e.vector

theorem leaves_refl (s : Store) : Leaves s none s := fun _ e he => ⟨e, he, rfl⟩

theorem leaves_changed {s s' : Store} {k : Location} {x f : Element} (hputs : s.Puts s' k x)
    (hf : s.record? k = some (.element f)) (hsame : x.vector = f.vector) : Leaves s none s' := by
  intro l e he
  by_cases hlk : l = k
  · rw [hlk, hf] at he
    cases he
    exact ⟨x, (hputs l x).mpr (by rw [if_pos hlk]), hsame⟩
  · exact ⟨e, (hputs l e).mpr (by rw [if_neg hlk]; exact he), rfl⟩

theorem leaves_stored {s s' : Store} {k : Location} {x : Element} (hputs : s.Puts s' k x) :
    Leaves s (some (k, x.vector)) s' := by
  intro l e he
  by_cases hlk : l = k
  · exact ⟨x, (hputs l x).mpr (by rw [if_pos hlk]), (if_pos hlk.symm).symm⟩
  · exact ⟨e, (hputs l e).mpr (by rw [if_neg hlk]; exact he), (if_neg (Ne.symm hlk)).symm⟩

theorem run_insert (p : Params) (s : Store) (width : Nat) (level : UInt8) (vector : Embedding)
    (row : RowId) : (run p s (.insert width level vector row)).2 =
      ((insertElement p (layerSearch Unit { p with searchWidth := width })
        (Draft.new level vector row)).after s ()).1 := by
  rw [run, ActionWith.after]
  split <;> simp_all

theorem run_delete (p : Params) (s : Store) (l : Location) :
    run p s (.delete l) = (none, (markDeleted l).after s) := rfl

theorem run_inserted {p : Params} {s s' : Store} {width : Nat} {level : UInt8} {vector : Embedding}
    {row : RowId} {l : Location} (h : insertElement p (layerSearch Unit { p with
      searchWidth := width }) (Draft.new level vector row) (s, ()) = .ok (.inserted l) (s', ())) :
    run p s (.insert width level vector row) = (some (l, vector), s') := by
  rw [run, h]

variable {t : Header} {p : Params} (hp : p.m = t.m.toNat)
include hp

theorem run_leaves {s : Store} (h : s.Intact t) (w : Job) (hw : w.Fits t.dimensions.toNat)
    (hb : (w.run p s).2.Numbered) :
    (w.run p s).2.Intact t ∧ Leaves s (w.run p s).1 (w.run p s).2 := by
  cases w with
  | delete k =>
    rw [run]
    rcases markDeleted_after h k with hsame | ⟨f, hf, -, hintact, hrew⟩
    · rw [hsame]
      exact ⟨h, leaves_refl s⟩
    · exact ⟨hintact, leaves_changed hrew.puts hf rfl⟩
  | insert width level vector row =>
    rw [run_insert] at hb
    obtain ⟨r, s', heffect, hresult, -⟩ := Insertion.insertElement_effect h p hp
      (Draft.new level vector row) hw () { p with searchWidth := width } hp
      (Store.linkable_nil _ _) hb
    rw [run, hresult]
    cases heffect with
    | failed e => exact ⟨h, leaves_refl s⟩
    | joined k f place s' found live same free behind intact rewritten =>
      exact ⟨intact, leaves_changed rewritten.puts found rfl⟩
    | stored st lists s₁ s' linkable placed connected =>
      exact ⟨connected.intact, leaves_stored ((placed.put.puts h).followed connected.element)⟩

theorem runAll_element (ws : List Job) :
    ∀ s : Store, s.Intact t → (∀ w ∈ ws, w.Fits t.dimensions.toNat) → Numbered p ws s →
      (runAll p ws s).Intact t ∧ ∀ l e, s.record? l = some (.element e) →
        ∃ f, (runAll p ws s).record? l = some (.element f) ∧
          f.vector = lastAt p l ws s e.vector := by
  induction ws with
  | nil =>
    intro s h _ _
    exact ⟨h, fun l e he => ⟨e, he, rfl⟩⟩
  | cons w ws ih =>
    intro s h hw hb
    obtain ⟨hnow, hleaves⟩ := run_leaves hp h w (hw w List.mem_cons_self) hb.1
    obtain ⟨hlater, hrest⟩ := ih _ hnow (fun x hx => hw x (List.mem_cons_of_mem _ hx)) hb.2
    refine ⟨hlater, fun l e he => ?_⟩
    obtain ⟨f, hf, hvector⟩ := hleaves l e he
    obtain ⟨g, hg, hlast⟩ := hrest l f hf
    refine ⟨g, hg, ?_⟩
    rw [hlast, hvector]
    rfl

end Job

/-- Candidates from any search, and a duplicate as the graph finds it among them; but other writers
do some complete work before the duplicate is handed over. -/
def belated {τ : Type} (search : Query → EntryPoint → ActionWith τ (List (List Candidate)))
    (p : Params) (ws : List Job) : Construction τ where
  search := search
  findDuplicate vector candidates := fun (s, own) =>
    match s.findDuplicate vector candidates with
    | .ok found => .ok found (Job.runAll p ws s, own)
    | .error e => .error e (s, own)

namespace Insertion

variable {τ : Type} {p : Params}

theorem connect_coalesced {c : Construction τ} {i : Insertion} {y y' : Store × τ} {l : Location}
    (h : (connect p c i).run y = .ok (.coalesced l) y') : i = .joined l ∧ y' = y := by
  cases i with
  | joined k =>
    cases h
    exact ⟨rfl, rfl⟩
  | stored d prior cursor =>
    have hyields : (connect p c (.stored d prior cursor)).Yields (· ≠ .coalesced l) := by
      apply Turns.Yields.bind
      intro found
      cases found with
      | none => exact fun heq => by cases heq
      | some rival =>
        apply Turns.Yields.bind
        intro fresh
        apply Turns.Yields.bind
        intro _
        exact fun heq => by cases heq
    exact absurd rfl (hyields.run h)

theorem settle_joined {entry : Option EntryPoint} {d : Draft} {duplicate : Option Location}
    {s : Store} {own : τ} {y : Store × τ} {l : Location}
    (h : (settle p entry d duplicate).run (s, own) = .ok (.joined l) y) :
    duplicate = some l ∧ ∃ s', attachRow l d.row s = .ok true s' ∧ y = (s', own) := by
  have hstore : (store p entry d : Turns τ _).Yields (· ≠ .joined l) := by
    apply Turns.Yields.bind
    intro st heq
    cases heq
  cases duplicate with
  | none => exact absurd rfl (hstore.run h)
  | some k =>
    obtain ⟨joined, y', hattach, h⟩ := Turns.run_bind_inv h
    obtain ⟨s', hs', rfl⟩ := Turns.run_act_inv hattach
    cases joined with
    | true =>
      cases h
      exact ⟨rfl, s', hs', rfl⟩
    | false => exact absurd rfl (hstore.run h)

end Insertion

def searched {τ : Type} (search : Query → EntryPoint → ActionWith τ (List (List Candidate)))
    (d : Draft) (own : τ) (s : Store) : Option EntryPoint → Store
  | some entry => ((search ⟨d.vector, d.level.toNat, none⟩ entry).after s own).1
  | none => s

section
variable {τ : Type} {p : Params}
  {search : Query → EntryPoint → ActionWith τ (List (List Candidate))} {ws : List Job} {d : Draft}
  {s : Store} {own : τ} {l : Location} {y : Store × τ}

theorem consult_belated {entry : Option EntryPoint} {e : Draft}
    (h : (Insertion.consult (belated search p ws) d entry).run (s, own) = .ok (e, some l) y) :
    e.row = d.row ∧ y.1 = Job.runAll p ws (searched search d own s entry) ∧
      ∃ x candidates own₁, entry = some x ∧ search ⟨d.vector, d.level.toNat, none⟩ x (s, own) =
        .ok candidates (searched search d own s entry, own₁) ∧
        (searched search d own s entry).findDuplicate d.vector candidates = .ok (some l) := by
  cases entry with
  | none => cases h
  | some entry =>
    obtain ⟨candidates, ⟨s₁, own₁⟩, hsearch, h⟩ := Turns.run_bind_inv h
    obtain ⟨found, y₂, hfind, h⟩ := Turns.run_bind_inv h
    have hsearch : search ⟨d.vector, d.level.toNat, none⟩ entry (s, own) =
        .ok candidates (s₁, own₁) := Turns.run_once_inv hsearch
    have hfind := Turns.run_once_inv hfind
    have hs₁ : searched search d own s (some entry) = s₁ := by
      rw [searched, ActionWith.after, hsearch]
    have hdone : (EStateM.Result.ok ({ d with neighbors := candidates }, found) y₂ :
        EStateM.Result Error (Store × τ) (Draft × Option Location)) = .ok (e, some l) y := h
    obtain ⟨hpair, rfl⟩ := EStateM.Result.ok.inj hdone
    obtain ⟨rfl, rfl⟩ := Prod.mk.inj hpair
    rw [hs₁]
    cases hfound : s₁.findDuplicate d.vector candidates with
    | error e =>
      simp only [belated, hfound] at hfind
      cases hfind
    | ok found =>
      simp only [belated, hfound] at hfind
      obtain ⟨rfl, rfl⟩ := EStateM.Result.ok.inj hfind
      exact ⟨rfl, rfl, entry, candidates, own₁, rfl, hsearch, hfound⟩

theorem coalesced_inv
    (h : insertElement p (belated search p ws) d (s, own) = .ok (.coalesced l) y) :
    (∃ x candidates own₁, s.entry = some x ∧ search ⟨d.vector, d.level.toNat, none⟩ x (s, own) =
      .ok candidates (searched search d own s s.entry, own₁) ∧
      (searched search d own s s.entry).findDuplicate d.vector candidates = .ok (some l)) ∧
    attachRow l d.row (Job.runAll p ws (searched search d own s s.entry)) = .ok true y.1 := by
  obtain ⟨i, y₁, hplace, hconnect⟩ := Turns.run_bind_inv h
  obtain ⟨rfl, rfl⟩ := Insertion.connect_coalesced hconnect
  obtain ⟨entry, y₂, hentry, hplace⟩ := Turns.run_bind_inv hplace
  obtain ⟨s₂, hread, rfl⟩ := Turns.run_act_inv hentry
  have hread : (.ok s.entry s : EStateM.Result Error Store _) = .ok entry s₂ := hread
  obtain ⟨rfl, rfl⟩ := EStateM.Result.ok.inj hread
  obtain ⟨⟨e, duplicate⟩, ⟨s₃, own₃⟩, hconsult, hsettle⟩ := Turns.run_bind_inv hplace
  obtain ⟨rfl, s', hattach, rfl⟩ := Insertion.settle_joined hsettle
  obtain ⟨hrow, hstore, hfound⟩ := consult_belated hconsult
  rw [hrow] at hattach
  rw [← hstore]
  exact ⟨hfound, hattach⟩

theorem belated_coalesces {s₁ s₂ : Store} {own₁ : τ} {entry : EntryPoint}
    {lists : List (List Candidate)} (hentry : s.entry = some entry)
    (hsearch : search ⟨d.vector, d.level.toNat, none⟩ entry (s, own) = .ok lists (s₁, own₁))
    (hfind : s₁.findDuplicate d.vector lists = .ok (some l))
    (hattach : attachRow l d.row (Job.runAll p ws s₁) = .ok true s₂) :
    insertElement p (belated search p ws) d (s, own) = .ok (.coalesced l) (s₂, own₁) := by
  have hread : Action.reading (fun s => .ok s.entry) s = .ok (some entry) s := by
    rw [Action.reading, hentry]
  have hfound : (Turns.once ((belated search p ws).findDuplicate d.vector lists)).run (s₁, own₁) =
      .ok (some l) (Job.runAll p ws s₁, own₁) := by
    apply Turns.run_once_ok
    rw [belated]
    simp only [hfind]
  have hconsult : (Insertion.consult (belated search p ws) d (some entry)).run (s, own) =
      .ok ({ d with neighbors := lists }, some l) (Job.runAll p ws s₁, own₁) :=
    (Turns.run_bind_ok (Turns.run_once_ok hsearch)).trans (Turns.run_bind_ok hfound)
  have hsettle : (Insertion.settle p (some entry) { d with neighbors := lists } (some l)).run
      (Job.runAll p ws s₁, own₁) = .ok (.joined l) (s₂, own₁) :=
    Turns.run_bind_ok (Turns.run_act_ok hattach own₁)
  have hplace : (Insertion.place p (belated search p ws) d).run (s, own) =
      .ok (.joined l) (s₂, own₁) :=
    (Turns.run_bind_ok (Turns.run_act_ok hread own)).trans
      ((Turns.run_bind_ok hconsult).trans hsettle)
  exact Turns.run_bind_ok hplace

theorem coalesced_element {t : Header} (hp : p.m = t.m.toNat)
    (hsearched : (searched search d own s s.entry).Intact t)
    (hws : ∀ w ∈ ws, w.Fits t.dimensions.toNat)
    (hnumbered : Job.Numbered p ws (searched search d own s s.entry))
    (h : insertElement p (belated search p ws) d (s, own) = .ok (.coalesced l) y) :
    ∃ e, y.1.element l = .ok e ∧ e.deleted = false ∧ (d.row ≠ noRow → d.row ∈ e.rows) ∧
      e.vector = Job.lastAt p l ws (searched search d own s s.entry) d.vector := by
  obtain ⟨⟨-, candidates, -, -, -, hfound⟩, hattach⟩ := coalesced_inv h
  obtain ⟨e, he, -, hsame⟩ := Store.findDuplicate_some d.vector l candidates hfound
  obtain ⟨hintact, hkept⟩ := Job.runAll_element hp ws _ hsearched hws hnumbered
  obtain ⟨f, hf, hvector⟩ := hkept l e he
  rcases attachRow_element hintact l d.row f hf with hno | ⟨place, s', hrun, hfree, -, hlive, -, hrew⟩
  · rw [hattach] at hno
    cases hno
  · rw [hattach] at hrun
    obtain ⟨-, rfl⟩ := EStateM.Result.ok.inj hrun
    obtain ⟨-, -, hpacked⟩ := hintact.fits_of_record l _ hf
    refine ⟨f.withRow place d.row, ?_, hlive, fun hrow => ?_, ?_⟩
    · rw [Store.element_eq_ok, hrew.record, putRecord_self]
    · rw [(f.withRow_rows hpacked place d.row hfree).2 hrow]
      exact List.mem_append_right _ (List.mem_singleton.mpr rfl)
    · rw [← hsame, ← hvector]
      rfl

end

/-- Whatever others have done with an index that was opened empty: if an insertion says that its
row has joined an element, the element is live and holds the row. Its vector is the one of the
inserted element, unless complete operations between the look for a duplicate and the joining have
stored another element there; then it is the vector of the last of those. -/
theorem joins_meanwhile {path : String} {dimensions : UInt32} {o : Options}
    {file file' : FileState} {ix : Index} {s : Store} (hblank : file.isBlank = true)
    (hopen : Index.openFile path dimensions o file = (.ok (ix, s), file')) {c : Crowd}
    (hreach : Reaches ix.params ix.dimensions s c) {τ : Type} (own : τ)
    (search : Query → EntryPoint → ActionWith τ (List (List Candidate)))
    (horderly : ∀ q entry s₁ own₁, ((search q entry).after s₁ own₁).1.Numbered →
      Reaches ix.params ix.dimensions s₁ ⟨((search q entry).after s₁ own₁).1, []⟩)
    (d : Draft) (ws : List Job) (hws : ∀ w ∈ ws, w.Fits ix.dimensions)
    (hsearched : (searched search d own c.store c.store.entry).Numbered)
    (hnumbered : Job.Numbered ix.params ws (searched search d own c.store c.store.entry))
    {l : Location} {y : Store × τ}
    (h : insertElement ix.params (belated search ix.params ws) d (c.store, own) =
      .ok (.coalesced l) y) :
    ∃ e, y.1.element l = .ok e ∧ e.deleted = false ∧ (d.row ≠ noRow → d.row ∈ e.rows) ∧
      e.vector = Job.lastAt ix.params l ws (searched search d own c.store c.store.entry)
        d.vector := by
  obtain ⟨hopened, -⟩ := Index.opened_of_blank hblank hopen
  rw [hopened.width] at hreach horderly hws
  have hintact := (hreach.sound hopened.m_eq hopened.intact).intact
  have hafter : (searched search d own c.store c.store.entry).Intact (Index.template dimensions o) := by
    generalize c.store.entry = entry at hsearched ⊢
    cases entry with
    | none => exact hintact
    | some entry => exact ((horderly _ entry _ own hsearched).sound hopened.m_eq hintact).intact
  exact coalesced_element hopened.m_eq hafter hws hnumbered h

namespace Index

def replacing : List Job := [.delete ⟨1, 0⟩, .insert 64 0 (plain 2) 9]

section
variable {s s' : Store} (h : HasBoth s first)
  (hrun : (overlapped Unit wide.params wide.searching .none (Draft.new 0 (plain 2) 9)).run
    ((markDeleted ⟨1, 0⟩).after s, ()) = .ok (.inserted ⟨1, 0⟩) (s', ()))
include hrun

theorem run_replacing : (Job.insert 64 0 (plain 2) 9).run wide.params ((markDeleted ⟨1, 0⟩).after s) =
    (some (⟨1, 0⟩, plain 2), s') := by
  rw [overlapped_none] at hrun
  exact Job.run_inserted hrun

theorem runAll_replacing : Job.runAll wide.params replacing s = s' := by
  rw [replacing, Job.runAll, Job.runAll, Job.runAll, Job.run_delete, run_replacing hrun]

theorem lastAt_replacing (v : Embedding) :
    Job.lastAt wide.params ⟨1, 0⟩ replacing s v = plain 2 := by
  rw [replacing, Job.lastAt, Job.lastAt, Job.lastAt, Job.run_delete, run_replacing hrun,
    Job.vectorAt]
  exact if_pos rfl

end

/-- A row joins the first element. In the meantime another one has been stored in its place. -/
theorem joins_replaced : ∃ s y e, s.element ⟨1, 0⟩ = .ok first ∧
    insertElement wide.params (belated (fun _ _ => pure [[⟨⟨1, 0⟩, 0⟩]]) wide.params replacing)
      (Draft.new 0 (plain 0) 10) (s, ()) = .ok (.coalesced ⟨1, 0⟩) y ∧
    y.1.element ⟨1, 0⟩ = .ok e ∧ e.deleted = false ∧ 10 ∈ e.rows ∧ e.vector = plain 2 := by
  obtain ⟨s, hboth, -, hreach⟩ := both_reached
  obtain ⟨s', hreused, hrun⟩ := hboth.delete.third_stored
  have hjobs := runAll_replacing hrun
  have hfirst := (s.element_eq_ok _ _).mpr hboth.atFirst
  have hlive : first.deleted = false := rfl
  have hvector : first.vector = plain 0 := rfl
  have hfind : s.findDuplicate (plain 0) [[⟨⟨1, 0⟩, 0⟩]] = .ok (some ⟨1, 0⟩) := by
    rw [Store.findDuplicate, Store.firstEqual, hfirst]
    simp [hlive, hvector]
  have hfree : third.firstFreeRow = some 1 := rfl
  obtain ⟨s'', hattach, -, -⟩ := attachRow_live hreused.settled.intact ⟨1, 0⟩ 10 third hreused.atFirst
    hfree (by decide) rfl
  rw [← hjobs] at hattach
  have hjoined : insertElement wide.params
      (belated (fun _ _ => pure [[⟨⟨1, 0⟩, 0⟩]]) wide.params replacing) (Draft.new 0 (plain 0) 10)
      (s, ()) = .ok (.coalesced ⟨1, 0⟩) (s'', ()) :=
    belated_coalesces hboth.entry rfl hfind hattach
  have hsearched : searched (fun _ _ => (pure [[⟨⟨1, 0⟩, 0⟩]] :
      ActionWith Unit (List (List Candidate)))) (Draft.new 0 (plain 0) 10) () s s.entry = s := by
    rw [hboth.entry]
    rfl
  have hnumbered : Job.Numbered wide.params replacing s := by
    rw [replacing, Job.Numbered, Job.Numbered, Job.run_delete, run_replacing hrun]
    exact ⟨numbered_two hboth.delete.size, numbered_two hreused.size, trivial⟩
  have hblank : FileState.absent.isBlank = true := rfl
  obtain ⟨e, he, hdeleted, hrow, hlast⟩ := joins_meanwhile hblank
    (openFile_blank checkOptions_wide "index" .absent hblank) hreach ()
    (fun _ _ => pure [[⟨⟨1, 0⟩, 0⟩]]) (fun _ _ s _ _ => .start s) (Draft.new 0 (plain 0) 10)
    replacing (by
      intro w hw
      rcases List.mem_cons.mp hw with rfl | hw
      · exact trivial
      · rw [List.mem_singleton.mp hw]
        exact length_plain 2)
    (by rw [hsearched]; exact numbered_two hboth.size) (by rw [hsearched]; exact hnumbered) hjoined
  rw [hsearched] at hlast
  exact ⟨s, _, e, hfirst, hjoined, he, hdeleted, hrow (by decide),
    hlast.trans (lastAt_replacing hrun _)⟩

end Index

end PagedGraph
