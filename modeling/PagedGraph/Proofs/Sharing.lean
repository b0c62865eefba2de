import Mathlib.Logic.Relation
import PagedGraph.Proofs.Crowd
import PagedGraph.Proofs.LockKeeping
import PagedGraph.Proofs.Numbering

/-!
# Who holds a lock

Guards, groups and operations on the graph share one lock table. Operations give back what they
take, turn by turn, so that between two turns every lock that is held belongs to a guard or to a
group, and to one of them only.
-/

set_option autoImplicit false

namespace PagedGraph

namespace Session

def onStore (t : Session) (s : Store) : Session := { t with store := s }

variable {t : Session} {s : Store} {name : String}

theorem Orderly.onStore (h : t.Orderly) (hs : t.store.GivesBack s) : (t.onStore s).Orderly where
  names := h.names
  held := by
    show s.held.Perm _
    rw [hs.held]
    exact h.held
  distinct := by
    show s.held.Nodup
    rw [hs.held]
    exact h.distinct
  measured := by
    intro x hx
    refine (h.measured x hx).congr fun hbase => ?_
    have hgrowth : .growth ∈ t.store.held := by
      refine h.held.mem_iff.mpr (List.mem_append_right _ ?_)
      exact List.mem_flatMap.mpr ⟨x, hx, growth_mem_locks hbase⟩
    show s.pageCount = t.store.pageCount
    rw [Store.pageCount, Store.pageCount, hs.size h.distinct hgrowth]

theorem Orderly.join (h : t.Orderly) (hnew : t.group? name = none) {w : Work}
    (hw : Kept t.store w) : Orderly ⟨w.store, t.guards, (name, w.group) :: t.groups⟩ := by
  have hown := hw.owns h.distinct
  rw [← without_eq hnew]
  refine h.put hw.pages ⟨hown.held.trans (.append_left _ ?_), hown.distinct, hown.measured⟩
  rw [without_eq hnew]
  exact h.held

theorem mem_locks {g : Group} {page : PageId} :
    .page page ∈ g.locks ↔ ∃ m ∈ g.members.toList, m.id = page := by
  rw [Group.locks, List.mem_append, List.mem_map]
  constructor
  · rintro (⟨m, hm, heq⟩ | hgrowth)
    · exact ⟨m, hm, Lock.page.inj heq⟩
    · cases hb : g.base with
      | none =>
        rw [hb] at hgrowth
        cases hgrowth
      | some base =>
        rw [hb] at hgrowth
        cases List.mem_singleton.mp hgrowth
  · rintro ⟨m, hm, rfl⟩
    exact .inl ⟨m, hm, rfl⟩

theorem Orderly.page_held (h : t.Orderly) (page : PageId) : .page page ∈ t.store.held ↔
    page ∈ t.guards ∨ ∃ name g, t.group? name = some g ∧ ∃ m ∈ g.members.toList, m.id = page := by
  rw [h.held.mem_iff, owned, List.mem_append, List.mem_map, List.mem_flatMap]
  constructor
  · rintro (⟨x, hx, heq⟩ | ⟨⟨name, g⟩, hx, hlock⟩)
    · exact .inl (Lock.page.inj heq ▸ hx)
    · exact .inr ⟨name, g, group?_of_mem h hx, mem_locks.mp hlock⟩
  · rintro (hx | ⟨name, g, hg, hm⟩)
    · exact .inl ⟨page, hx, rfl⟩
    · exact .inr ⟨(name, g), mem_groups h hg, mem_locks.mpr hm⟩

theorem tryLock_busy {page : PageId} (hpage : page.toNat < t.store.pageCount) :
    (t.step (.tryLock page)).1 = .busy ↔ .page page ∈ t.store.held := by
  rw [step, Store.tryLock, if_neg (Nat.not_le.mpr hpage)]
  cases ht : t.store.tryAcquire (.page page) with
  | none => exact iff_of_true rfl (Store.tryAcquire_none ht)
  | some s =>
    refine iff_of_false (fun heq => ?_) (Store.tryAcquire_some ht).1
    cases heq

/-- No lock is shared, and no operation leaves one behind or takes one away. -/
structure Exclusive (t : Session) : Prop where
  /-- What guards and groups own are different locks. -/
  once : (owned t.guards t.groups).Nodup
  /-- The locks that are held are those that guards and groups own. -/
  held : t.store.held.Perm (owned t.guards t.groups)
  /-- Whoever tries to lock an existing page is told that it is busy if a guard or a group has it,
  and only then. -/
  busy : ∀ page, page.toNat < t.store.pageCount →
    ((t.step (.tryLock page)).1 = .busy ↔ page ∈ t.guards ∨
      ∃ name g, t.group? name = some g ∧ ∃ m ∈ g.members.toList, m.id = page)
  /-- Whether an insertion succeeds or fails, all changes of the locks from its beginning to its end
  have been made by calls of its construction. So a construction that gives back its locks makes an
  insertion that gives back all of them: let `R` be equality. -/
  insert : ∀ {τ : Type} (p : Params) (c : Construction τ) (d : Draft) (own : τ)
    (R : List Lock → List Lock → Prop), (∀ locks, R locks locks) →
    (∀ l₁ l₂ l₃, R l₁ l₂ → R l₂ l₃ → R l₁ l₃) →
    (∀ q entry s own, R s.held ((c.search q entry).after s own).1.held) →
    (∀ vector lists s own, R s.held ((c.findDuplicate vector lists).after s own).1.held) →
    R t.store.held ((insertElement p c d).after t.store own).1.held
  /-- Whether a deletion succeeds or fails, the locks are as before. -/
  delete : ∀ l, ((markDeleted l).after t.store).held = t.store.held
  /-- Whether an allocation succeeds and is dropped, or fails, the locks are as before. -/
  allocate : ∀ size, ((transaction (Ending.abort <$> allocate size)).after t.store).held =
    t.store.held

theorem Orderly.exclusive (h : t.Orderly) : t.Exclusive where
  once := h.held.nodup_iff.mp h.distinct
  held := h.held
  busy := fun page hpage => (tryLock_busy hpage).trans (h.page_held page)
  insert := by
    intro τ p c d own R hrefl htrans hsearch hfind
    have hgives : ∀ s s' : Store, s.GivesBack s' → R s.held s'.held := fun s s' hs => by
      rw [hs.held]
      exact hrefl _
    have hwithin : (insertion p c d).Within fun s s' => R s.held s'.held :=
      insertion_within hgives hsearch hfind d
    have hrun := hwithin.run (fun s => hrefl s.held)
      (fun s₁ s₂ s₃ => htrans s₁.held s₂.held s₃.held) t.store own
    rwa [← insertElement] at hrun
  delete := fun l => (givesBack_markDeleted l t.store).held
  allocate := fun size => (givesBack_allocate size t.store).held

end Session

structure Scene where
  session : Session
  writers : List Writer

namespace Scene

/-- What can happen next. Guards and groups take a step. Somebody begins to insert, with a
construction whose calls have given back their locks when they return; whoever is inserting takes a
turn, and a turn that fails is his last one. Somebody deletes an element. Somebody looks for room,
and keeps what he finds as a group of the session. -/
inductive Step : Scene → Scene → Prop where
  | step {t : Session} {ws : List Writer} (x : Session.Step) : Step ⟨t, ws⟩ ⟨(t.step x).2, ws⟩
  | enter {t : Session} {ws : List Writer} {τ : Type} (own : τ) (p : Params) (c : Construction τ)
      (d : Draft)
      (search : ∀ q entry (s : Store) own, s.GivesBack ((c.search q entry).after s own).1)
      (find : ∀ vector lists (s : Store) own,
        s.GivesBack ((c.findDuplicate vector lists).after s own).1) :
      Step ⟨t, ws⟩ ⟨t, ⟨τ, own, insertion p c d⟩ :: ws⟩
  | turn {t : Session} {s' : Store} {before after : List Writer} {τ β : Type} {own own' : τ}
      {action : ActionWith τ β} {next : β → Turns τ Outcome} {b : β}
      (works : action (t.store, own) = .ok b (s', own')) :
      Step ⟨t, before ++ ⟨τ, own, .turn action next⟩ :: after⟩
        ⟨t.onStore s', before ++ ⟨τ, own', next b⟩ :: after⟩
  | fail {t : Session} {s' : Store} {before after : List Writer} {τ β : Type} {own own' : τ}
      {action : ActionWith τ β} {next : β → Turns τ Outcome} {e : Error}
      (fails : action (t.store, own) = .error e (s', own')) :
      Step ⟨t, before ++ ⟨τ, own, .turn action next⟩ :: after⟩ ⟨t.onStore s', before ++ after⟩
  | leave {t : Session} {before after : List Writer} {τ : Type} {own : τ} {o : Outcome} :
      Step ⟨t, before ++ ⟨τ, own, .done o⟩ :: after⟩ ⟨t, before ++ after⟩
  | delete {t : Session} {ws : List Writer} (l : Location) :
      Step ⟨t, ws⟩ ⟨t.onStore ((markDeleted l).after t.store), ws⟩
  | place {t : Session} {ws : List Writer} {name : String} {size : PairSize} {room : Placement}
      {w : Work} (new : t.group? name = none)
      (works : allocate size ⟨t.store, .empty⟩ = .ok room w) :
      Step ⟨t, ws⟩ ⟨⟨w.store, t.guards, (name, w.group) :: t.groups⟩, ws⟩
  | refuse {t : Session} {ws : List Writer} {size : PairSize} {e : Error} {w : Work}
      (fails : allocate size ⟨t.store, .empty⟩ = .error e w) :
      Step ⟨t, ws⟩ ⟨t.onStore (w.group.release w.store), ws⟩

structure Orderly (c : Scene) : Prop where
  session : c.session.Orderly
  writers : ∀ w ∈ c.writers, w.rest.Within Store.GivesBack

namespace Orderly

variable {t : Session} {s : Store} {before after : List Writer} {τ β : Type} {own own' : τ}
  {action : ActionWith τ β} {next : β → Turns τ Outcome}

theorem act (h : Orderly ⟨t, before ++ ⟨τ, own, .turn action next⟩ :: after⟩)
    (hafter : action.after t.store own = (s, own')) :
    (t.onStore s).Orderly ∧ ∀ b, (next b).Within Store.GivesBack := by
  have hturn := h.writers ⟨τ, own, .turn action next⟩
    (List.mem_append_right _ List.mem_cons_self)
  have hgives := hturn.1 t.store own
  rw [hafter] at hgives
  exact ⟨h.session.onStore hgives, hturn.2⟩

theorem others {w : Writer} (h : Orderly ⟨t, before ++ w :: after⟩) :
    ∀ v ∈ before ++ after, v.rest.Within Store.GivesBack := by
  intro v hv
  refine h.writers v ?_
  rcases List.mem_append.mp hv with hv | hv
  · exact List.mem_append_left _ hv
  · exact List.mem_append_right _ (List.mem_cons_of_mem _ hv)

end Orderly

theorem orderly_step {c c' : Scene} (h : c.Orderly) (hstep : c.Step c') : c'.Orderly := by
  cases hstep with
  | step x => exact ⟨(Session.sound_step h.session x).2, h.writers⟩
  | enter own p c d search find =>
    refine ⟨h.session, fun w hw => ?_⟩
    rcases List.mem_cons.mp hw with rfl | hw
    · exact insertion_within (fun _ _ hs => hs) search find d
    · exact h.writers w hw
  | turn works =>
    obtain ⟨hsession, hnext⟩ := h.act (by rw [ActionWith.after, works])
    refine ⟨hsession, fun w hw => ?_⟩
    rcases List.mem_append.mp hw with hw | hw
    · exact h.others w (List.mem_append_left _ hw)
    · rcases List.mem_cons.mp hw with rfl | hw
      · exact hnext _
      · exact h.others w (List.mem_append_right _ hw)
  | fail fails =>
    exact ⟨(h.act (by rw [ActionWith.after, fails])).1, h.others⟩
  | leave => exact ⟨h.session, h.others⟩
  | delete l => exact ⟨h.session.onStore (givesBack_markDeleted l _), h.writers⟩
  | @place t ws name size room w new works =>
    have hkeeps := keeps_allocate size t.store _ (.empty t.store)
    rw [Transaction.Ensures, works] at hkeeps
    exact ⟨h.session.join new hkeeps, h.writers⟩
  | @refuse t ws size e w fails =>
    have hkeeps := keeps_allocate size t.store _ (.empty t.store)
    rw [Transaction.Ensures, fails] at hkeeps
    rw [hkeeps.release]
    exact h

theorem orderly_of_steps {c c' : Scene} (h : c.Orderly)
    (hsteps : Relation.ReflTransGen Step c c') : c'.Orderly := by
  induction hsteps with
  | refl => exact h
  | tail _ hstep ih => exact orderly_step ih hstep

/-- Whatever file has been opened, and whatever guards, groups and operations on the graph have done
with it since, no lock is shared, and no operation leaves one behind. -/
theorem exclusive_of_steps {path : String} {template : Header} {file file' : FileState} {s : Store}
    (hopen : Store.openFile path template file = (.ok s, file')) {c : Scene}
    (hsteps : Relation.ReflTransGen Step ⟨Session.ofStore s, []⟩ c) : c.session.Exclusive := by
  have hidle := (Store.openFile_ok hopen).1
  have hstart : Orderly ⟨Session.ofStore s, []⟩ :=
    ⟨Session.orderly_ofStore hidle, List.forall_mem_nil _⟩
  exact (orderly_of_steps hstart hsteps).session.exclusive

theorem exclusive_of_guard :
    Session.Exclusive ((((Session.ofStore (Store.fresh (Index.template 1 Options.standard))).run
      [.lock 1, .begin "a", .append "a"])).onStore ((markDeleted ⟨1, 0⟩).after
        ((Session.ofStore (Store.fresh (Index.template 1 Options.standard))).run
          [.lock 1, .begin "a", .append "a"]).store)) := by
  have hcheck : Index.checkOptions 1 Options.standard = .ok Params.standard :=
    Index.checkOptions_standard (by decide) (by decide)
  have hformed := (Store.intact_fresh _ rfl (Index.width_template hcheck) rfl).1.toFormed
  have hopen := Store.openFile_blank hformed (Index.template_sets hcheck) "index" .absent rfl
  refine exclusive_of_steps (c := ⟨_, [⟨Unit, (), insertion Params.standard
    (layerSearch Unit Params.standard) (Draft.new 0 [0] 7)⟩]⟩) hopen ?_
  refine .tail (.tail (.tail (.tail (.tail .refl (.step (.lock 1))) (.step (.begin "a")))
    (.step (.append "a"))) (.enter _ _ _ _ ?_ ?_)) (.delete ⟨1, 0⟩)
  · intro q entry s own
    exact (within_reading (fun _ _ h => h) _).1 s own
  · intro vector lists s own
    exact (within_reading (fun _ _ h => h) _).1 s own

end Scene

end PagedGraph
