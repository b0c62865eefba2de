import PagedGraph.Proofs.Cursor
import PagedGraph.Proofs.FirstFit

/-!
# The page chain of a crowd's store

In every store that a crowd reaches, the chain of data pages is that of their numbers. It leaves no
page out and has no way back, so the insert cursor stands on it and no search for room comes to a
page twice (`chained_of_blank`). As long as insertions follow each other, the cursor only goes
forward.
-/

set_option autoImplicit false

namespace PagedGraph

namespace Crowd

/-- What anybody may do next when insertions do not overlap: nobody begins to insert before the
writer at work has gone, and what the calls of a construction do meanwhile is to delete. -/
inductive Lone (p : Params) (width : Nat) : Crowd → Crowd → Prop where
  | enter {s : Store} {τ : Type} (own : τ) (c : Construction τ) (d : Draft)
      (wide : d.vector.length = width) (deletes : c.DeletesOnly) :
      Lone p width ⟨s, []⟩ ⟨s, [⟨τ, own, insertion p c d⟩]⟩
  | turn {s s' : Store} {τ β : Type} {own own' : τ} {action : ActionWith τ β}
      {next : β → Turns τ Outcome} {b : β} (works : action (s, own) = .ok b (s', own'))
      (numbered : s'.Numbered) :
      Lone p width ⟨s, [⟨τ, own, .turn action next⟩]⟩ ⟨s', [⟨τ, own', next b⟩]⟩
  | fail {s s' : Store} {τ β : Type} {own own' : τ} {action : ActionWith τ β}
      {next : β → Turns τ Outcome} {e : Error} (fails : action (s, own) = .error e (s', own'))
      (numbered : s'.Numbered) : Lone p width ⟨s, [⟨τ, own, .turn action next⟩]⟩ ⟨s', []⟩
  | leave {s : Store} {τ : Type} {own : τ} {o : Outcome} :
      Lone p width ⟨s, [⟨τ, own, .done o⟩]⟩ ⟨s, []⟩
  | delete {s : Store} {ws : List Writer} (l : Location) :
      Lone p width ⟨s, ws⟩ ⟨(markDeleted l).after s, ws⟩

variable {p : Params} {width : Nat} {t : Header} {c c' : Crowd}

theorem Lone.step (h : c.Lone p width c') : c.Step p width c' := by
  cases h with
  | enter own construction d wide deletes =>
    exact .enter own construction d wide (deletes.orderly p width)
  | @turn s s' τ β own own' action next b works numbered =>
    have hstep : Step p width ⟨s, [] ++ ⟨τ, own, .turn action next⟩ :: []⟩
        ⟨s', [] ++ ⟨τ, own', next b⟩ :: []⟩ := .turn works numbered
    exact hstep
  | @fail s s' τ β own own' action next e fails numbered =>
    have hstep : Step p width ⟨s, [] ++ ⟨τ, own, .turn action next⟩ :: []⟩ ⟨s', [] ++ []⟩ :=
      .fail fails numbered
    exact hstep
  | @leave s τ own o =>
    have hstep : Step p width ⟨s, [] ++ ⟨τ, own, .done o⟩ :: []⟩ ⟨s, [] ++ []⟩ := .leave
    exact hstep
  | delete l => exact .delete l

theorem Lone.reaches {s : Store} (h : Relation.ReflTransGen (Lone p width) ⟨s, []⟩ c) :
    Reaches p width s c := by
  induction h with
  | refl => exact .start s
  | tail _ step ih => exact step.step.reaches ih

structure Forth (t : Header) (c : Crowd) : Prop where
  ordered : c.store.Ordered t
  writers : ∀ w ∈ c.writers, w.rest.Forth t (fun _ _ => True) c.store

theorem Forth.idle {s : Store} (hs : s.Ordered t) : Forth t ⟨s, []⟩ :=
  ⟨hs, fun _ hw => nomatch hw⟩

theorem Forth.alone {s : Store} {w : Writer} (hs : s.Ordered t)
    (hw : w.rest.Forth t (fun _ _ => True) s) : Forth t ⟨s, [w]⟩ :=
  ⟨hs, fun v hv => by rw [List.mem_singleton.mp hv]; exact hw⟩

theorem Forth.lone (hp : p.m = t.m.toNat) (h : c.Forth t) (step : c.Lone p t.dimensions.toNat c') :
    c.store.Onward t c'.store ∧ c'.Forth t := by
  have hstore := h.ordered
  cases step with
  | enter own construction d wide deletes =>
    exact ⟨.refl hstore, .alone hstore (forth_insertion p hp construction deletes d wide _)⟩
  | @turn s s' τ β own own' action next b works numbered =>
    have hafter : action.after s own = (s', own') := by rw [ActionWith.after, works]
    obtain ⟨honward, hnext⟩ := h.writers _ List.mem_cons_self s own (.refl hstore)
      (by rw [hafter]; exact numbered)
    rw [hafter] at honward
    exact ⟨honward, .alone honward.ordered (hnext b s' own' works)⟩
  | @fail s s' τ β own own' action next e fails numbered =>
    have hafter : action.after s own = (s', own') := by rw [ActionWith.after, fails]
    obtain ⟨honward, -⟩ := h.writers _ List.mem_cons_self s own (.refl hstore)
      (by rw [hafter]; exact numbered)
    rw [hafter] at honward
    exact ⟨honward, .idle honward.ordered⟩
  | leave => exact ⟨.refl hstore, .idle hstore⟩
  | delete l =>
    have hsteady := steady_markDeleted hstore l
    exact ⟨hsteady.onward, hsteady.ordered,
      fun w hw => (h.writers w hw).later (fun _ _ _ _ _ => trivial) hsteady⟩

theorem Forth.lones (hp : p.m = t.m.toNat) (h : c.Forth t)
    (steps : Relation.ReflTransGen (Lone p t.dimensions.toNat) c c') :
    c.store.Onward t c'.store ∧ c'.Forth t := by
  induction steps with
  | refl => exact ⟨.refl h.ordered, h⟩
  | tail _ step ih =>
    obtain ⟨honward, hforth⟩ := ih
    obtain ⟨hlast, hforth'⟩ := hforth.lone hp step
    exact ⟨honward.trans hlast, hforth'⟩

end Crowd

namespace Store

structure Chained (s : Store) : Prop where
  next : ∀ i p, 0 < i → i + 1 < s.pages.size → s.pages[i]? = some p → p.next.toNat = i + 1
  last : ∀ p, s.pages[s.pages.size - 1]? = some p → p.next = noPage
  chain : ∃ ids, s.chain = .ok ids ∧ ids.map UInt32.toNat = List.range' 1 (s.pages.size - 1)
  cursor : 0 < s.cursor.toNat ∧ s.cursor.toNat < s.pages.size
  /-- An allocation comes to no page twice. -/
  once : ∀ size, (s.walk size).2 = allocate size ⟨s, .empty⟩ ∧ (s.walk size).1.Nodup ∧
    ∀ id ∈ (s.walk size).1, 0 < id.toNat ∧ id.toNat < s.pages.size
  /-- It is over before it has taken all its steps. -/
  ends : ∀ size more, PagedGraph.walk size s.entry s.cursor (s.pageCount + 1 + more) s.cursor none
    ⟨s, .empty⟩ = s.walk size

theorem map_toNat_idsFrom {i n : Nat} (hn : i + n ≤ 4294967296) :
    (idsFrom i n).map UInt32.toNat = List.range' i n := by
  rw [idsFrom, List.map_map]
  conv => rhs; rw [← List.map_id (List.range' i n)]
  refine List.map_congr_left fun k hk => ?_
  rw [List.mem_range'_1] at hk
  show (UInt32.ofNat k).toNat = k
  rw [UInt32.toNat_ofNat', Nat.mod_eq_of_lt (by omega)]

theorem Intact.chained {t : Header} {s : Store} (h : s.Intact t) : s.Chained := by
  have hbound := h.bounded
  have htwo := s.two_le_size
  constructor
  · intro i p hi hlt hp
    rw [h.linked i p hi hp, successor, if_pos hlt, UInt32.toNat_ofNat', Nat.mod_eq_of_lt (by omega)]
  · intro p hp
    rw [h.linked _ p (by omega) hp, successor, if_neg (by omega)]
  · exact ⟨_, chain_eq h.toFormed, map_toNat_idsFrom (by omega)⟩
  · exact ⟨h.cursor_pos, h.cursor_lt⟩
  · intro size
    obtain ⟨n, hn, hpages, -⟩ := walk_spec h size (s.pageCount + 1) s.cursor none ⟨s, .empty⟩
      h.cursor_pos h.cursor_lt (by rw [h.pageCount_eq]; have := h.cursor_pos; omega)
      (Tidy.empty s)
    refine ⟨s.walk_result size, ?_, fun id hid => ?_⟩
    · rw [walk, hpages]
      exact nodup_idsFrom (by omega)
    · rw [walk, hpages, idsFrom, List.mem_map] at hid
      obtain ⟨k, hk, rfl⟩ := hid
      rw [List.mem_range'_1] at hk
      have hpos := h.cursor_pos
      rw [UInt32.toNat_ofNat', Nat.mod_eq_of_lt (by omega)]
      omega
  · intro size more
    obtain ⟨n, -, -, hmore⟩ := walk_spec h size (s.pageCount + 1) s.cursor none ⟨s, .empty⟩
      h.cursor_pos h.cursor_lt (by rw [h.pageCount_eq]; have := h.cursor_pos; omega)
      (Tidy.empty s)
    exact hmore more

theorem Intact.ordered {t : Header} {s : Store} (h : s.Intact t)
    (hnone : s.record? = fun _ => none) : s.Ordered t :=
  ⟨h, fun l e he => by rw [hnone] at he; cases he⟩

end Store

/-- What becomes of the page chain and of the cursor when crowds start from `s`. -/
structure ChainKept (p : Params) (width : Nat) (s : Store) : Prop where
  /-- The chain is in order after every turn of anybody. -/
  turns : ∀ c, Reaches p width s c → c.store.Chained
  /-- It is in order in the middle of a construction's call. -/
  calls : ∀ s₁ ws c, Reaches p width s ⟨s₁, ws⟩ → Reaches p width s₁ c → c.store.Chained
  /-- The cursor goes forward when insertions follow each other. -/
  forth : ∀ c c', Relation.ReflTransGen (Crowd.Lone p width) ⟨s, []⟩ c →
    Relation.ReflTransGen (Crowd.Lone p width) c c' → c.store.cursor.toNat ≤ c'.store.cursor.toNat

/-- Whatever writers do with an index that was opened empty, its data pages stay chained in the
order of their numbers, and a search for room goes along them. As long as no two insertions overlap,
the insert cursor never goes back. -/
theorem chained_of_blank {path : String} {dimensions : UInt32} {o : Options}
    {file file' : FileState} {ix : Index} {s : Store} (hblank : file.isBlank = true)
    (hopen : Index.openFile path dimensions o file = (.ok (ix, s), file')) :
    ChainKept ix.params ix.dimensions s := by
  obtain ⟨hopened, rfl⟩ := Index.opened_of_blank hblank hopen
  have hp := hopened.m_eq
  rw [hopened.width]
  constructor
  · exact fun c hc => (hc.sound hp hopened.intact).intact.chained
  · intro s₁ ws c hs₁ hc
    exact (hc.sound hp (hs₁.sound hp hopened.intact).intact).intact.chained
  · intro c c' hc hsteps
    have hordered := hopened.intact.ordered (Index.record?_fresh hopened.params)
    obtain ⟨-, hforth⟩ := (Crowd.Forth.idle hordered).lones hp hc
    exact (hforth.lones hp hsteps).1.cursor

namespace Crowd

variable {p : Params} {width : Nat} {τ : Type}

theorem Lone.through {α : Type} {x : Turns τ α} {f : α → Turns τ Outcome} {y y' : Store × τ} {a : α}
    (h : x.Completes y a y') : Relation.ReflTransGen (Lone p width)
      ⟨y.1, [⟨τ, y.2, x >>= f⟩]⟩ ⟨y'.1, [⟨τ, y'.2, f a⟩]⟩ := by
  induction h with
  | done a y => exact .refl
  | turn works numbered _ ih => exact .head (.turn works numbered) ih

theorem Lone.complete {x : Turns τ Outcome} {y y' : Store × τ} {o : Outcome}
    (h : x.Completes y o y') :
    Relation.ReflTransGen (Lone p width) ⟨y.1, [⟨τ, y.2, x⟩]⟩ ⟨y'.1, []⟩ := by
  induction h with
  | done o y => exact .single .leave
  | turn works numbered _ ih => exact .head (.turn works numbered) ih

end Crowd

section
variable {t : Header} {s : Store} (h : s.Intact t)
include h

theorem storePair_splits {d : Draft} (hd : d.vector.length = t.dimensions.toNat) {p : Page}
    (hp : s.pages[s.cursor.toNat]? = some p) (hlast : p.next = noPage)
    (hfull : ¬p.TakesPair ⟨Element.encodedSize d.vector.length,
      (d.adjacency t.m.toNat).encode.size⟩)
    (hroom : p.TakesOne (Element.encodedSize d.vector.length)) {st : Stored} {s' : Store}
    (hrun : storePair d t.m.toNat s = .ok st s') :
    s'.pages.size = s.pages.size + 1 ∧ st.cursor = some (UInt32.ofNat s.pages.size) := by
  have hend := h.last_of_next _ p h.cursor_pos hp hlast
  have hbound := h.bounded
  rcases storePair_storing h d hd with ⟨e, hfail⟩ | ⟨st', s₁, hrun', -, -, v, hstoring⟩
  · cases hfail.symm.trans hrun
  obtain ⟨rfl, rfl⟩ := EStateM.Result.ok.inj (hrun.symm.trans hrun')
  obtain ⟨place, w, hallocate, hpages⟩ := storePair_inv hrun
  obtain ⟨place', w', x, y, hallocate', hfound⟩ := hstoring.found
  obtain ⟨rfl, rfl⟩ := EStateM.Result.ok.inj (hallocate.symm.trans hallocate')
  obtain ⟨id, q, hpasses, hq, hlands⟩ := h.allocate_lands (n := ⟨Element.encodedSize d.vector.length,
    (d.adjacency t.m.toNat).encode.size⟩) (by rw [hd])
  have hlt : id.toNat < s.pages.size := (Array.getElem?_eq_some_iff.mp hq).1
  obtain rfl : id = s.cursor := UInt32.toNat_inj.mp (by have := hpasses.1; omega)
  obtain rfl : p = q := Option.some.inj (hp.symm.trans hq)
  rcases hlands with ⟨place', w', hallocate', v', m, k, hends, hstaged, hm, hk⟩ | ⟨-, e, w', hfail⟩
  · obtain ⟨rfl, rfl⟩ := EStateM.Result.ok.inj (hallocate.symm.trans hallocate')
    obtain rfl : v' = v := (Prod.mk.inj (hstaged.commit.symm.trans hfound.staged.commit)).2
    obtain ⟨-, -, hcursor⟩ := hpages m k hm hk
    rw [hcursor, hstoring.size]
    generalize hreuse : place.reuse = reuse at hends
    generalize m.id = a at hends
    generalize k.id = b at hends ⊢
    cases hends with
    | together room => exact absurd room hfull
    | split _ _ _ =>
      have hfresh := toNat_fresh (s := s) (by omega)
      have hne : UInt32.ofNat s.pages.size ≠ place.cursor := by
        rw [hfound.cursor]
        intro heq
        rw [heq] at hfresh
        omega
      exact ⟨Store.size_extend _ _ _, if_pos ⟨hne, .inl hreuse⟩⟩
    | reuse l f _ tight => exact absurd hroom (tight hlast)
    | grow spent => exact absurd hroom spent.tight
    | growTwice spent => exact absurd hroom spent.tight
  · cases hfail.symm.trans hallocate

end

namespace Index

def vast : Draft := Draft.new 0 (List.replicate 1990 0) 7

theorem checkOptions_vast : checkOptions 1990 Options.standard = .ok Params.standard :=
  checkOptions_standard (by decide) (by decide)

theorem holds_vast :
    ¬Page.empty.TakesPair ⟨Element.encodedSize vast.vector.length, (vast.adjacency 16).encode.size⟩ ∧
      Page.empty.TakesOne (Element.encodedSize vast.vector.length) := by
  have hwidth : vast.vector.length = 1990 := List.length_replicate
  rw [hwidth, vast.size_adjacency, Page.holds_empty.takesPair_iff (by decide),
    Page.holds_empty.takesOne_iff (by decide), Page.freeSpace_empty]
  decide

theorem connect_moved {τ : Type} (p : Params) (c : Construction τ) (d : Draft)
    (prior : Option EntryPoint) (id : PageId) :
    Insertion.connect p c (.stored d prior (some id)) =
      Turns.act (moveCursor id) >>= fun _ => Insertion.connect p c (.stored d prior none) :=
  Turns.bind_bind _ _ _

/-- The first element of a new file has its neighbors on a new page. The cursor has moved there, and
the writer has still to make the element the entry point. -/
theorem vast_moved {s₀ : Store} (hintact : s₀.Intact (template 1990 Options.standard))
    (hcursor : s₀.cursor = 1) (hnone : s₀.entry = none) (hpage : s₀.pages[1]? = some Page.empty)
    (hpages : s₀.pages.size = 2) : ∃ s s' : Store, ∃ d o,
    Relation.ReflTransGen (Crowd.Lone Params.standard 1990) ⟨s₀, []⟩ ⟨s, [⟨Unit, (),
      Insertion.connect Params.standard (layerSearch Unit Params.standard) (.stored d none none)⟩]⟩ ∧
    s.cursor = 2 ∧ (Insertion.connect Params.standard (layerSearch Unit Params.standard)
      (.stored d none none)).Completes (s, ()) o (s', ()) ∧ s'.pages.size = 3 := by
  have hwidth : vast.vector.length = 1990 := List.length_replicate
  have hlists : ∀ i, vast.neighbors.getD i [] = [] := Draft.neighbors_new _ _ _
  obtain ⟨hfull, hroom⟩ := holds_vast
  obtain ⟨st, s₁, hstore⟩ := storePair_ok hintact vast hwidth
    (by rw [hwidth, Page.freeSpace_empty]; decide) (by rw [Page.freeSpace_empty]; decide)
    (by rw [hpages]; decide)
  obtain ⟨hsize, hmoves⟩ := storePair_splits hintact hwidth (by rw [hcursor]; exact hpage)
    Page.next_empty hfull hroom hstore
  rw [hpages] at hsize hmoves
  have hn₁ : s₁.Numbered := by
    rw [Store.Numbered, hsize]
    decide
  have hplaced := storePair_placed hintact vast hwidth hstore hn₁
  obtain ⟨s₂, hmove, hkept, -, hcursor₂⟩ := moveCursor_kept hplaced.intact 2 (by decide)
    (by rw [hsize]; decide)
  have hn₂ : s₂.Numbered := by
    rw [Store.Numbered, hkept.size]
    exact hn₁
  obtain ⟨s₃, hconnect, -, -, -, hsize₃⟩ := connect_first hkept.intact Params.standard
    (layerSearch Unit Params.standard)
    { vast with location := st.location, neighborsAt := st.neighborsAt } ()
    (hkept.entry.trans (hplaced.entry.trans hnone)) hlists
    (hplaced.intact.page_ne hplaced.element) hn₂
  refine ⟨s₂, s₃, _, _, ?_, hcursor₂, hconnect, by rw [hsize₃, hkept.size, hsize]⟩
  have hread : Action.reading (fun s => .ok s.entry) s₀ = .ok none s₀ := by
    rw [Action.reading, hnone]
  have hplace : (Insertion.place Params.standard (layerSearch Unit Params.standard) vast).Completes
      (s₀, ()) (.stored { vast with location := st.location, neighborsAt := st.neighborsAt } none
        (some 2)) (s₁, ()) := by
    apply Turns.Completes.bind (Turns.Completes.act hread hintact.bounded ())
    apply Turns.Completes.bind (Turns.Completes.done (vast, none) _)
    refine Turns.Completes.bind (Turns.Completes.act hstore hn₁ ()) ?_
    rw [hmoves]
    exact .done _ _
  refine .head (.enter () _ vast hwidth (deletesOnly_layerSearch Unit Params.standard)) ?_
  refine (Crowd.Lone.through hplace).trans ?_
  rw [connect_moved]
  exact Crowd.Lone.through (Turns.Completes.act hmove hn₂ ())

/-- The first element of a new file has its neighbors on a new page, and the cursor is there. -/
theorem chained_of_split : ∃ s, Relation.ReflTransGen (Crowd.Lone Params.standard 1990)
      ⟨Store.fresh (template 1990 Options.standard), []⟩ ⟨s, []⟩ ∧
    s.pages.size = 3 ∧ (Store.fresh (template 1990 Options.standard)).cursor = 1 ∧ s.cursor = 2 ∧
    s.Chained := by
  have hblank : FileState.absent.isBlank = true := rfl
  have hopen := openFile_blank checkOptions_vast "index" .absent hblank
  have hkept : ChainKept Params.standard 1990 (Store.fresh (template 1990 Options.standard)) :=
    chained_of_blank hblank hopen
  have hcursor : (Store.fresh (template 1990 Options.standard)).cursor = 1 := by
    rw [Store.cursor, Store.header_fresh]
    rfl
  have hnone : (Store.fresh (template 1990 Options.standard)).entry = none := by
    rw [Store.entry, Store.header_fresh]
    rfl
  have hpage : (Store.fresh (template 1990 Options.standard)).pages[1]? = some Page.empty := rfl
  obtain ⟨s, s', d, o, hfirst, hmoved, hconnect, hsize⟩ :=
    vast_moved (settled_of_blank hblank hopen).intact hcursor hnone hpage rfl
  have hsteps := hfirst.trans (Crowd.Lone.complete hconnect)
  have hchained := hkept.turns _ (Crowd.Lone.reaches hsteps)
  have hforth := hkept.forth _ _ hfirst (Crowd.Lone.complete hconnect)
  simp only [hmoved] at hforth
  have hlt := hchained.cursor.2
  rw [hsize] at hlt
  exact ⟨s', hsteps, hsize, hcursor,
    UInt32.toNat_inj.mp (Nat.le_antisymm (Nat.le_of_lt_succ hlt) hforth), hchained⟩

end Index

end PagedGraph
