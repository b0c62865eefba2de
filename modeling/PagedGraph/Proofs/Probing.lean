import PagedGraph.Proofs.Room
import PagedGraph.Proofs.Scanning

/-!
# Which pages are probed

The search for room goes from page to page. `probe` is what it does on one of them, and `walk`
tells which pages it has come to and how it has ended. In a store in order it goes through pages
with one number after the other, so it meets none twice and stops at the last one at the latest
(`walk_spec`), long before the steps it is given are used up.

When every element has its neighbor record on its own page or on a later one, the search never
names a page before the insert cursor (`ensures_probeFrom_upward`), and the new pair is again one
whose neighbor record does not come first.
-/

set_option autoImplicit false

namespace PagedGraph

def probe (size : PairSize) (entry : Option EntryPoint) (cursor current : PageId)
    (firstFree : Option PageId) : Transaction (Placement ⊕ PageId × Option PageId) := do
  Transaction.restart
  let handle ← Transaction.register current
  let page ← Transaction.image handle
  if size.together ≤ page.freeSpace then
    return .inl ⟨handle, handle, none, firstFree, cursor⟩
  else if size.element ≤ page.freeSpace ∧ page.next = noPage then
    let fresh ← appendAfter handle
    return .inl ⟨handle, fresh, none, firstFree, cursor⟩
  else
    let deleted ← Transaction.ofExcept (tombstones entry current page)
    let firstFree := firstFree <|> deleted.head?.map fun t => t.neighborsAt.page
    match ← claimTombstone size handle current page deleted with
    | some (neighborPage, reuse) =>
      return .inl ⟨handle, neighborPage, some reuse, firstFree, cursor⟩
    | none =>
      if page.next = noPage then
        let fresh ← appendAfter handle
        if size.together ≤ Page.empty.freeSpace then
          return .inl ⟨fresh, fresh, none, firstFree, cursor⟩
        else
          let second ← appendAfter fresh
          return .inl ⟨fresh, second, none, firstFree, cursor⟩
      else return .inr (page.next, firstFree)

theorem probeFrom_succ (size : PairSize) (entry : Option EntryPoint) (cursor current : PageId)
    (firstFree : Option PageId) (steps : Nat) :
    probeFrom size entry cursor (steps + 1) current firstFree =
      probe size entry cursor current firstFree >>= fun r => match r with
        | .inl place => pure place
        | .inr (next, firstFree) => probeFrom size entry cursor steps next firstFree := by
  rw [probeFrom, probe]
  generalize Page.empty.freeSpace = room
  simp only [bind_assoc]
  refine bind_congr fun _ => bind_congr fun handle => bind_congr fun page => ?_
  by_cases hfits : size.together ≤ page.freeSpace
  · simp only [if_pos hfits, pure_bind]
  · simp only [if_neg hfits]
    by_cases htail : size.element ≤ page.freeSpace ∧ page.next = noPage
    · simp only [if_pos htail, bind_assoc, pure_bind]
    · simp only [if_neg htail, bind_assoc]
      refine bind_congr fun deleted => bind_congr fun claimed => ?_
      cases claimed with
      | some found => simp only [pure_bind]
      | none =>
        by_cases hlast : page.next = noPage
        · simp only [if_pos hlast, bind_assoc]
          refine bind_congr fun fresh => ?_
          by_cases hboth : size.together ≤ room
          · simp only [if_pos hboth, pure_bind]
          · simp only [if_neg hboth, bind_assoc, pure_bind]
        · simp only [if_neg hlast, pure_bind]

def walk (size : PairSize) (entry : Option EntryPoint) (cursor : PageId) :
    Nat → PageId → Option PageId → Work → List PageId × EStateM.Result Error Work Placement
  | 0, _, _, w => ([], .error .endlessWalk w)
  | steps + 1, current, firstFree, w => match probe size entry cursor current firstFree w with
    | .ok (.inl place) w => ([current], .ok place w)
    | .ok (.inr (next, firstFree)) w =>
      (current :: (walk size entry cursor steps next firstFree w).1,
        (walk size entry cursor steps next firstFree w).2)
    | .error e w => ([current], .error e w)

theorem walk_result (size : PairSize) (entry : Option EntryPoint) (cursor : PageId) (steps : Nat) :
    ∀ (current : PageId) (firstFree : Option PageId) (w : Work),
      (walk size entry cursor steps current firstFree w).2 =
        probeFrom size entry cursor steps current firstFree w := by
  induction steps with
  | zero => exact fun _ _ _ => rfl
  | succ steps ih =>
    intro current firstFree w
    rw [walk, probeFrom_succ]
    cases hprobe : probe size entry cursor current firstFree w with
    | error e w' => exact (Transaction.bind_error hprobe).symm
    | ok r w' =>
      rw [Transaction.bind_ok hprobe]
      cases r with
      | inl place => rfl
      | inr next => exact ih _ _ _

def Store.walk (s : Store) (size : PairSize) :
    List PageId × EStateM.Result Error Work Placement :=
  PagedGraph.walk size s.entry s.cursor (s.pageCount + 1) s.cursor none ⟨s, .empty⟩

theorem allocate_eq (s : Store) (size : PairSize) : allocate size ⟨s, .empty⟩ =
    probeFrom size s.entry s.cursor (s.pageCount + 1) s.cursor none ⟨s, .empty⟩ := rfl

theorem Store.walk_result (s : Store) (size : PairSize) :
    (s.walk size).2 = allocate size ⟨s, .empty⟩ := by
  rw [allocate_eq]
  exact PagedGraph.walk_result _ _ _ _ _ _ _

def Store.Forward (s : Store) : Prop :=
  ∀ l e, s.record? l = some (.element e) → l.page.toNat ≤ e.neighborsAt.page.toNat

/-- A walk that has come to a page from the insert cursor, and has seen nothing that lies before
it. -/
structure Store.Heads (s : Store) (current : PageId) (firstFree : Option PageId) : Prop where
  forward : s.Forward
  current : s.cursor.toNat ≤ current.toNat
  firstFree : ∀ id, firstFree = some id → s.cursor.toNat ≤ id.toNat

/-- The page for the neighbors is not before the page for the element, and neither they nor the
first tombstone's neighbors are before the insert cursor. -/
structure Upward (s : Store) (place : Placement) (w : Work) (m k : Member) : Prop where
  element : w.group.members[place.elementPage]? = some m
  neighbors : w.group.members[place.neighborPage]? = some k
  ordered : m.id.toNat ≤ k.id.toNat
  cursor : place.cursor = s.cursor
  after : s.cursor.toNat ≤ k.id.toNat
  firstFree : ∀ id, place.firstFree = some id → s.cursor.toNat ≤ id.toNat

theorem Store.Heads.see {s : Store} {current : PageId} {firstFree : Option PageId}
    (h : s.Heads current firstFree) {found : List Tombstone}
    (hfound : ∀ x ∈ found, ∃ e, Reusable s ⟨x.slot, x.neighborsAt.slot.toNat⟩ current
      x.neighborsAt.page e) :
    s.Heads current (firstFree <|> found.head?.map fun x => x.neighborsAt.page) := by
  refine ⟨h.forward, h.current, fun id hid => ?_⟩
  cases firstFree with
  | some first => exact h.firstFree id hid
  | none =>
    cases found with
    | nil => cases hid
    | cons x rest =>
      cases hid
      obtain ⟨e, he⟩ := hfound x List.mem_cons_self
      have hpage := h.forward _ e he.element
      rw [he.at_] at hpage
      exact Nat.le_trans h.current hpage

section
variable {t : Header} {s : Store} (h : s.Intact t) (size : PairSize)
include h

omit h in
theorem toNat_fresh (hlt : s.pages.size < 4294967296) :
    (UInt32.ofNat s.pages.size).toNat = s.pages.size := by
  rw [UInt32.toNat_ofNat', Nat.mod_eq_of_lt (by omega)]

theorem ensures_newPages_upward (room : Nat) (current : PageId) {firstFree : Option PageId}
    {w : Work} {handle : Nat} {m : Member} (hw : Staged s w s)
    (hm : w.group.members[handle]? = some m) (hlt : s.cursor.toNat < s.pages.size) :
    Transaction.Ensures s (do
        let fresh ← appendAfter handle
        if size.together ≤ room then
          return .inl ⟨fresh, fresh, none, firstFree, s.cursor⟩
        else
          let second ← appendAfter fresh
          return .inl ⟨fresh, second, none, firstFree, s.cursor⟩) w
      fun (r : Placement ⊕ PageId × Option PageId) w' => ∃ place, r = .inl place ∧
        (s.Heads current firstFree → ∃ m k, Upward s place w' m k) := by
  apply (ensures_appendAfter hw h.pageCount_eq hm).bind
  rintro fresh w₁ ⟨hw₁, hsize, -, hfresh⟩
  have hid := toNat_fresh hsize
  have hbehind : s.cursor.toNat ≤ (UInt32.ofNat s.pages.size).toNat := by omega
  by_cases hboth : size.together ≤ room
  · rw [if_pos hboth]
    exact Transaction.Ensures.pure ⟨_, rfl, fun hheads => ⟨_, _, hfresh, hfresh, Nat.le_refl _, rfl,
      hbehind, hheads.firstFree⟩⟩
  · rw [if_neg hboth]
    apply (ensures_appendAfter hw₁ h.pageCount_eq hfresh).bind
    rintro second w₂ ⟨-, hsize', hm₂, hsecond⟩
    rw [Store.size_extend] at hsize' hsecond
    have hid' : (UInt32.ofNat (s.pages.size + 1)).toNat = s.pages.size + 1 := by
      rw [UInt32.toNat_ofNat', Nat.mod_eq_of_lt (by omega)]
    have hbetween : (UInt32.ofNat s.pages.size).toNat ≤ (UInt32.ofNat (s.pages.size + 1)).toNat := by
      omega
    exact Transaction.Ensures.pure ⟨_, rfl, fun hheads => ⟨_, _, hm₂, hsecond, hbetween, rfl,
      Nat.le_trans hbehind hbetween, hheads.firstFree⟩⟩

theorem ensures_probe {current : PageId} (firstFree : Option PageId) {w : Work}
    (hpos : 0 < current.toNat) (hw : Tidy s w) :
    Transaction.Ensures s (probe size s.entry s.cursor current firstFree) w fun r w' => match r with
      | .inl place => s.Heads current firstFree → ∃ m k, Upward s place w' m k
      | .inr (next, firstFree') => Tidy s w' ∧ next.toNat = current.toNat + 1 ∧
          next.toNat < s.pages.size ∧ (s.Heads current firstFree → s.Heads next firstFree') := by
  rw [probe]
  generalize Page.empty.freeSpace = room
  apply (Transaction.ensures_restart hw).bind
  intro _ w₀ hw₀
  rw [hw₀]
  apply (Transaction.ensures_register (Staged.empty s) current).bind
  rintro handle w₁ ⟨hw₁, p, hp, -, rfl, hmembers⟩
  have hm : w₁.group.members[Group.empty.members.size]? = some ⟨current, p⟩ := by
    rw [hmembers]
    rfl
  apply (Transaction.ensures_image hm).bind
  intro page w₂ hpage
  rw [hpage.1, hpage.2]
  by_cases hfits : size.together ≤ p.freeSpace
  · rw [if_pos hfits]
    exact Transaction.Ensures.pure fun hheads => ⟨_, _, hm, hm, Nat.le_refl _, rfl, hheads.current,
      hheads.firstFree⟩
  · rw [if_neg hfits]
    by_cases htail : size.element ≤ p.freeSpace ∧ p.next = noPage
    · rw [if_pos htail]
      apply (ensures_appendAfter hw₁ h.pageCount_eq hm).bind
      rintro fresh w₃ ⟨-, hsize, hm₃, hfresh⟩
      have hid := toNat_fresh hsize
      have hlt : current.toNat < s.pages.size := (Array.getElem?_eq_some_iff.mp hp).1
      have hbetween : current.toNat ≤ (UInt32.ofNat s.pages.size).toNat := by omega
      exact Transaction.Ensures.pure fun hheads => ⟨_, _, hm₃, hfresh, hbetween, rfl,
        Nat.le_trans hheads.current hbetween, hheads.firstFree⟩
    · rw [if_neg htail]
      apply (Transaction.ensures_ofExcept hw₁.tidy _).bind
      intro deleted w₃ hdeleted
      rw [hdeleted.2]
      have hreusable := reusable_of_mem h hpos hp hdeleted.1
      apply (ensures_claimTombstone size hpos hw₁ hm deleted hreusable).bind
      intro claimed w₄ hclaimed
      have hsee : s.Heads current firstFree → s.Heads current
          (firstFree <|> deleted.head?.map fun x => x.neighborsAt.page) :=
        fun hheads => hheads.see fun x hx => (hreusable x hx).2
      cases claimed with
      | some found =>
        obtain ⟨other, reuse⟩ := found
        obtain ⟨-, hm₄, k, e, hk, -, hreuse⟩ := hclaimed
        refine Transaction.Ensures.pure fun hheads => ?_
        have hpage := hheads.forward _ e hreuse.element
        rw [hreuse.at_] at hpage
        exact ⟨_, k, hm₄, hk, hpage, rfl, Nat.le_trans hheads.current hpage, (hsee hheads).firstFree⟩
      | none =>
        have hstep : w₄ = w₁ := hclaimed
        rw [hstep]
        by_cases hlast : p.next = noPage
        · simp only [if_pos hlast]
          apply (ensures_newPages_upward h size room current hw₁ hm h.cursor_lt).mono
          rintro _ w₅ ⟨place, rfl, hplace⟩
          exact fun hheads => hplace (hsee hheads)
        · simp only [if_neg hlast]
          obtain ⟨hnext, hlt⟩ := h.toNat_next current.toNat p hpos hp hlast
          refine Transaction.Ensures.pure ⟨hw₁.tidy, hnext, by omega, fun hheads => ?_⟩
          have hseen := hsee hheads
          exact ⟨hseen.forward, by have := hseen.current; omega, hseen.firstFree⟩

omit h in
theorem nodup_idsFrom {i n : Nat} (hn : i + n ≤ 4294967296) : (Store.idsFrom i n).Nodup := by
  rw [Store.idsFrom, List.Nodup, List.pairwise_map]
  refine List.Pairwise.imp_of_mem (fun {x y} hx hy hne heq => hne ?_) List.nodup_range'
  rw [List.mem_range'_1] at hx hy
  have := congrArg UInt32.toNat heq
  rwa [UInt32.toNat_ofNat', UInt32.toNat_ofNat', Nat.mod_eq_of_lt (by omega),
    Nat.mod_eq_of_lt (by omega)] at this

theorem walk_spec (steps : Nat) :
    ∀ (current : PageId) (firstFree : Option PageId) (w : Work), 0 < current.toNat →
      current.toNat < s.pages.size → s.pages.size < current.toNat + steps → Tidy s w →
      ∃ n, current.toNat + n ≤ s.pages.size ∧
        (walk size s.entry s.cursor steps current firstFree w).1 =
          Store.idsFrom current.toNat n ∧
        ∀ more, walk size s.entry s.cursor (steps + more) current firstFree w =
          walk size s.entry s.cursor steps current firstFree w := by
  induction steps with
  | zero =>
    intro current firstFree w _ hlt hsteps
    omega
  | succ steps ih =>
    intro current firstFree w hpos hlt hsteps hw
    have hone : Store.idsFrom current.toNat 1 = [current] := by
      simp [Store.idsFrom]
    have hprobe := ensures_probe h size firstFree hpos hw
    unfold Transaction.Ensures at hprobe
    cases hrun : probe size s.entry s.cursor current firstFree w with
    | error e w' =>
      refine ⟨1, hlt, ?_, fun more => ?_⟩
      · rw [walk, hrun, hone]
      · rw [Nat.add_right_comm, walk, walk, hrun]
    | ok r w' =>
      cases r with
      | inl place =>
        refine ⟨1, hlt, ?_, fun more => ?_⟩
        · rw [walk, hrun, hone]
        · rw [Nat.add_right_comm, walk, walk, hrun]
      | inr next =>
        obtain ⟨next, firstFree'⟩ := next
        rw [hrun] at hprobe
        obtain ⟨htidy, hnext, hbound, -⟩ := hprobe
        obtain ⟨n, hn, hpages, hmore⟩ := ih next firstFree' w' (by omega) hbound (by omega) htidy
        refine ⟨n + 1, by omega, ?_, fun more => ?_⟩
        · rw [walk, hrun]
          simp only [hpages, hnext]
          simp [Store.idsFrom, List.range'_succ]
        · rw [Nat.add_right_comm, walk, walk, hrun]
          simp only [hmore]

theorem ensures_probeFrom_upward (steps : Nat) :
    ∀ (current : PageId) (firstFree : Option PageId) (w : Work), 0 < current.toNat → Tidy s w →
      s.Heads current firstFree →
      Transaction.Ensures s (probeFrom size s.entry s.cursor steps current firstFree) w
        fun place w' => ∃ m k, Upward s place w' m k := by
  induction steps with
  | zero =>
    intro current firstFree w _ hw _
    exact Transaction.Ensures.throw hw
  | succ steps ih =>
    intro current firstFree w hpos hw hheads
    rw [probeFrom_succ]
    apply (ensures_probe h size firstFree hpos hw).bind
    intro r w' hr
    cases r with
    | inl place => exact Transaction.Ensures.pure (hr hheads)
    | inr next =>
      obtain ⟨htidy, hnext, -, hgo⟩ := hr
      exact ih _ _ w' (by omega) htidy (hgo hheads)

theorem ensures_allocate_upward (hfwd : s.Forward) :
    Transaction.Ensures s (allocate size) ⟨s, .empty⟩ fun place w => ∃ m k,
      Upward s place w m k := by
  rw [Transaction.Ensures, allocate_eq]
  exact ensures_probeFrom_upward h size _ _ _ _ h.cursor_pos (Tidy.empty s)
    ⟨hfwd, Nat.le_refl _, by intro _ hnone; cases hnone⟩

omit h in
theorem storePair_inv {d : Draft} {m : Nat} {st : Stored} {s' : Store}
    (hrun : storePair d m s = .ok st s') :
    ∃ place w, allocate ⟨Element.encodedSize d.vector.length, (d.adjacency m).encode.size⟩
        ⟨s, .empty⟩ = .ok place w ∧
      ∀ x k, w.group.members[place.elementPage]? = some x →
        w.group.members[place.neighborPage]? = some k →
        st.location.page = x.id ∧ st.neighborsAt.page = k.id ∧ st.cursor = place.advance k.id := by
  rw [storePair, transaction] at hrun
  cases hbody : placeAndWrite d m ⟨s, .empty⟩ with
  | error e w =>
    rw [hbody] at hrun
    cases hrun
  | ok ending w =>
    rw [hbody] at hrun
    rw [placeAndWrite] at hbody
    obtain ⟨place, w₁, hallocate, hrest⟩ := Transaction.bind_inv hbody
    refine ⟨place, w₁, hallocate, fun x k hx hk => ?_⟩
    rw [Transaction.bind_ok (Transaction.pageId_eq hx),
      Transaction.bind_ok (Transaction.pageId_eq hk),
      Transaction.bind_ok (Transaction.image_eq hx),
      Transaction.bind_ok (Transaction.image_eq hk)] at hrest
    obtain ⟨_, w₂, -, hend⟩ := Transaction.bind_inv hrest
    obtain ⟨rfl, rfl⟩ := EStateM.Result.ok.inj hend
    cases hcommit : w₂.group.commit w₂.store with
    | mk answer store =>
      cases answer with
      | error e =>
        simp only [hcommit] at hrun
        cases hrun
      | ok _ =>
        simp only [hcommit] at hrun
        obtain ⟨rfl, -⟩ := EStateM.Result.ok.inj hrun
        exact ⟨rfl, rfl, rfl⟩

theorem storePair_upward (hfwd : s.Forward) {d : Draft} {m : Nat} {st : Stored} {s' : Store}
    (hrun : storePair d m s = .ok st s') :
    st.location.page.toNat ≤ st.neighborsAt.page.toNat ∧
      ∀ id, st.cursor = some id → s.cursor.toNat ≤ id.toNat := by
  obtain ⟨place, w, hallocate, hpages⟩ := storePair_inv hrun
  have hup := ensures_allocate_upward h
    ⟨Element.encodedSize d.vector.length, (d.adjacency m).encode.size⟩ hfwd
  rw [Transaction.Ensures, hallocate] at hup
  obtain ⟨x, k, hup⟩ := hup
  obtain ⟨hlocation, hneighbors, hcursor⟩ := hpages x k hup.element hup.neighbors
  rw [hlocation, hneighbors, hcursor]
  refine ⟨hup.ordered, fun id hid => ?_⟩
  rw [Placement.advance] at hid
  split at hid
  · obtain rfl : k.id = id := Option.some.inj hid
    exact hup.after
  · cases hid

end

end PagedGraph
