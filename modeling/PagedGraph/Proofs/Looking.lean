import PagedGraph.Proofs.FirstFit

/-!
# What a look at a page tells

A file is accepted for its header and its length; its data pages may hold anything, and their links
may lead anywhere. `look` says what there is to find out about a page of such a file: whether a walk
for room ends there, and if not, where it goes on. The walk finds out the same, whatever pages it
has probed before (`probe_look`), and where it fails it says why, unless some page claims more
slots than there is room for (`look_failsPlainly`).
-/

set_option autoImplicit false

namespace PagedGraph

namespace Store

def spaceAt (s : Store) (l : Location) : Except Error Nat :=
  if s.pageCount ≤ l.page.toNat then .error (.cannotLock l.page s.pageCount)
  else (s.readPage l.page).bind fun q => q.spaceAfterFreeing l.slot.toNat

def givesWay (s : Store) (size : PairSize) (id : PageId) (p : Page) (t : Tombstone) :
    Except Error Bool :=
  (p.spaceAfterFreeing t.slot).bind fun room =>
    if room < size.element then .ok false
    else if t.neighborsAt.page = id then
      (p.spaceAfterFreeing t.neighborsAt.slot.toNat).map fun room =>
        !decide (room < size.neighbors + (size.element - t.size))
    else (s.spaceAt t.neighborsAt).map fun room => !decide (room < size.neighbors)

def someGiveWay (s : Store) (size : PairSize) (id : PageId) (p : Page) :
    List Tombstone → Except Error Bool
  | [] => .ok false
  | t :: rest => (s.givesWay size id p t).bind fun given =>
      if given then .ok true else s.someGiveWay size id p rest

/-- What there is to find out about a page: nothing if the walk ends there, otherwise the page where
it goes on. -/
def look (s : Store) (size : PairSize) (id : PageId) : Except Error (Option PageId) :=
  if s.pageCount ≤ id.toNat then .error (.cannotLock id s.pageCount)
  else (s.readPage id).bind fun p =>
    if size.together ≤ p.freeSpace ∨ size.element ≤ p.freeSpace ∧ p.next = noPage then .ok none
    else (tombstones s.entry id p).bind fun deleted =>
      (s.someGiveWay size id p deleted).bind fun given =>
        .ok (if given = true ∨ p.next = noPage then none else some p.next)

def PassesOn (s : Store) (size : PairSize) (id next : PageId) : Prop :=
  s.look size id = .ok (some next)

end Store

variable {s : Store} {size : PairSize} {id : PageId} {p : Page}

theorem Store.PassesOn.unique {next next' : PageId} (h : s.PassesOn size id next)
    (h' : s.PassesOn size id next') : next = next' :=
  Option.some.inj (Except.ok.inj (h.symm.trans h'))

theorem Store.look_eq (hid : id.toNat < s.pageCount) (hp : s.pages[id.toNat]? = some p) :
    s.look size id =
      if size.together ≤ p.freeSpace ∨ size.element ≤ p.freeSpace ∧ p.next = noPage then .ok none
      else (tombstones s.entry id p).bind fun deleted =>
        (s.someGiveWay size id p deleted).bind fun given =>
          .ok (if given = true ∨ p.next = noPage then none else some p.next) := by
  rw [look, if_neg (Nat.not_le.mpr hid), (readPage_eq_ok s id p).mpr hp]
  rfl

theorem Store.passesOn_iff {next : PageId} : s.PassesOn size id next ↔
    id.toNat < s.pageCount ∧ ∃ p, s.pages[id.toNat]? = some p ∧ p.next = next ∧ next ≠ noPage ∧
      p.freeSpace < size.together ∧ ∃ deleted, tombstones s.entry id p = .ok deleted ∧
        s.someGiveWay size id p deleted = .ok false := by
  rw [PassesOn]
  constructor
  · intro h
    have hid : id.toNat < s.pageCount := by
      refine Nat.not_le.mp fun hcount => ?_
      rw [look, if_pos hcount] at h
      cases h
    obtain ⟨p, hp⟩ := s.getElem?_of_lt_pageCount _ hid
    rw [look_eq hid hp] at h
    by_cases hfits : size.together ≤ p.freeSpace ∨ size.element ≤ p.freeSpace ∧ p.next = noPage
    · rw [if_pos hfits] at h
      cases h
    · rw [if_neg hfits] at h
      obtain ⟨deleted, hdeleted, h⟩ := ok_of_bind h
      obtain ⟨given, hgiven, h⟩ := ok_of_bind h
      have hgo := Except.ok.inj h
      by_cases hlast : given = true ∨ p.next = noPage
      · rw [if_pos hlast] at hgo
        cases hgo
      · rw [if_neg hlast] at hgo
        rw [not_or] at hlast hfits
        obtain rfl := Option.some.inj hgo
        rw [Bool.eq_false_iff.mpr hlast.1] at hgiven
        exact ⟨hid, p, hp, rfl, hlast.2, Nat.not_le.mp hfits.1, deleted, hdeleted, hgiven⟩
  · rintro ⟨hid, p, hp, rfl, hnext, hfull, deleted, hdeleted, hgiven⟩
    have hno : ¬(size.together ≤ p.freeSpace ∨ size.element ≤ p.freeSpace ∧ p.next = noPage) := by
      rintro (hfits | htail)
      · exact absurd hfits (Nat.not_le.mpr hfull)
      · exact hnext htail.2
    have hgo : ¬(false = true ∨ p.next = noPage) := by
      rintro (hgiven | hlast)
      · cases hgiven
      · exact hnext hlast
    rw [look_eq hid hp, if_neg hno, hdeleted, Except.bind, hgiven, Except.bind, if_neg hgo]

structure Sole (s : Store) (w : Work) : Prop where
  pages : w.store.pages = s.pages
  page : ∀ id, Lock.page id ∈ w.store.held → id.toNat < s.pageCount + w.group.appended
  growth : Lock.growth ∈ w.store.held → w.group.base ≠ none
  base : w.group.base = none ∧ w.group.appended = 0 ∨ w.group.base = some s.pageCount

theorem Sole.single (hidle : s.held = []) (hid : id.toNat < s.pageCount) (p : Page) :
    Sole s ⟨s.locked id, .single id p⟩ where
  pages := rfl
  page := by
    intro k hk
    rw [Store.locked, hidle] at hk
    obtain rfl := Lock.page.inj (List.mem_singleton.mp hk)
    exact hid
  growth := by
    intro hgrowth
    rw [Store.locked, hidle] at hgrowth
    cases List.mem_singleton.mp hgrowth
  base := .inl ⟨rfl, rfl⟩

theorem Sole.pageCount {w : Work} (h : Sole s w) : w.store.pageCount = s.pageCount := by
  rw [Store.pageCount, Store.pageCount, h.pages]

theorem Sole.claimGrowth {w : Work} (h : Sole s w) : ∃ store group,
    w.group.claimGrowth w.store = .ok (store, group, s.pageCount) ∧ Sole s ⟨store, group⟩ ∧
      group.base = some s.pageCount ∧ group.members = w.group.members ∧
      group.appended = w.group.appended := by
  rcases h.base with ⟨hnone, happended⟩ | hsome
  · have hfree : w.store.isHeld .growth = false := by
      rw [Store.isHeld, List.contains_eq_mem, decide_eq_false_iff_not]
      exact fun hheld => h.growth hheld hnone
    have hcount : Store.pageCount { w.store with
        held := .growth :: w.store.held, two_le_size := w.store.two_le_size } = s.pageCount :=
      h.pageCount
    refine ⟨{ w.store with held := .growth :: w.store.held, two_le_size := w.store.two_le_size },
      { w.group with base := some s.pageCount }, ?_, ⟨h.pages, ?_, ?_, .inr rfl⟩, rfl, rfl, rfl⟩
    · rw [Group.claimGrowth, hnone, Store.tryAcquire, hfree]
      simp only [Bool.false_eq_true, if_false, hcount]
    · intro k hk
      rcases List.mem_cons.mp hk with hk | hk
      · cases hk
      · exact h.page k hk
    · exact fun _ hno => by cases hno
  · exact ⟨w.store, w.group, by rw [Group.claimGrowth, hsome], h, hsome, rfl, rfl⟩

theorem Sole.append {w : Work} (h : Sole s w) :
    (∃ w', Transaction.append w = .error .pageIdsExhausted w') ∨
      ∃ w' m, Transaction.append w = .ok w.group.members.size w' ∧ Sole s w' ∧
        w'.group.members = w.group.members.push m := by
  obtain ⟨store, group, hclaim, hsole, hbase, hmembers, happended⟩ := h.claimGrowth
  by_cases hlimit : 4294967296 ≤ s.pageCount + group.appended
  · refine .inl ⟨⟨store, group⟩, ?_⟩
    rw [Transaction.append, Group.append, hclaim]
    simp only [if_pos hlimit]
  · have hnumber : (UInt32.ofNat (s.pageCount + group.appended)).toNat =
        s.pageCount + group.appended := by
      rw [UInt32.toNat_ofNat', Nat.mod_eq_of_lt (by omega)]
    have hfree : store.isHeld (.page (UInt32.ofNat (s.pageCount + group.appended))) = false := by
      rw [Store.isHeld, List.contains_eq_mem, decide_eq_false_iff_not]
      intro hheld
      have hlt := hsole.page _ hheld
      rw [hnumber] at hlt
      exact absurd hlt (Nat.lt_irrefl _)
    refine .inr ⟨⟨store.locked (UInt32.ofNat (s.pageCount + group.appended)), { group with
        members := group.members.push ⟨UInt32.ofNat (s.pageCount + group.appended), Page.empty⟩
        appended := group.appended + 1 }⟩,
      ⟨UInt32.ofNat (s.pageCount + group.appended), Page.empty⟩, ?_,
      ⟨hsole.pages, ?_, ?_, .inr hbase⟩, ?_⟩
    · rw [Transaction.append, Group.append, hclaim]
      simp only [if_neg hlimit, Store.tryAcquire, hfree, hmembers]
      rfl
    · intro k hk
      show k.toNat < s.pageCount + (group.appended + 1)
      rcases List.mem_cons.mp hk with hk | hk
      · rw [Lock.page.inj hk, hnumber]
        omega
      · exact Nat.lt_succ_of_lt (hsole.page k hk)
    · intro _ hno
      rw [show group.base = none from hno] at hbase
      cases hbase
    · show group.members.push _ = _
      rw [hmembers]

theorem Sole.appendAfter {w : Work} (h : Sole s w) {handle : Nat} {m : Member}
    (hm : w.group.members[handle]? = some m) :
    (∃ w', PagedGraph.appendAfter handle w = .error .pageIdsExhausted w') ∨
      ∃ fresh w' k, PagedGraph.appendAfter handle w = .ok fresh w' ∧ Sole s w' ∧
        w'.group.members[fresh]? = some k := by
  have hlt : handle < w.group.members.size := (Array.getElem?_eq_some_iff.mp hm).1
  rcases h.append with ⟨w', hfail⟩ | ⟨w', k, happend, hsole, hmembers⟩
  · exact .inl ⟨w', Transaction.bind_error hfail⟩
  · have hk : w'.group.members[w.group.members.size]? = some k := by
      rw [hmembers, Array.getElem?_push, if_pos rfl]
    have hm' : w'.group.members[handle]? = some m := by
      rw [hmembers, Array.getElem?_push, if_neg (Nat.ne_of_lt hlt), hm]
    refine .inr ⟨w.group.members.size, _, k, (Transaction.bind_ok happend).trans
      ((Transaction.bind_ok (Transaction.pageId_eq hk)).trans
        ((Transaction.bind_ok (Transaction.image_eq hm')).trans rfl)), ?_, ?_⟩
    · exact ⟨hsole.pages, hsole.page, hsole.growth, hsole.base⟩
    · show (w'.group.members.modify handle _)[w.group.members.size]? = some k
      rw [Array.getElem?_modify, if_neg (Nat.ne_of_lt hlt), hk]

/-- What a transaction that looks for something in an open group does is what a look at the store
tells: it fails, or finds something, or finds nothing and leaves the group as it was. -/
def Transaction.Answers {α : Type} (x : Transaction (Option α)) (w : Work) :
    Except Error Bool → Prop
  | .error e => ∃ w', x w = .error e w'
  | .ok true => ∃ a w', x w = .ok (some a) w'
  | .ok false => x w = .ok none w

theorem Transaction.Answers.step {α β : Type} {x : Transaction β} {f : β → Transaction (Option α)}
    {w : Work} {b : β} {v : Except Error Bool} (hx : x w = .ok b w) (hf : (f b).Answers w v) :
    (x >>= f).Answers w v := by
  have hrun : (x >>= f) w = f b w := bind_ok hx
  unfold Answers at hf ⊢
  rwa [hrun]

def Store.Bears (s : Store) (r : EStateM.Result Error Work (Placement ⊕ PageId × Option PageId)) :
    Except Error (Option PageId) → Prop
  | .error e => ∃ w, r = .error e w
  | .ok none => (∃ place w, r = .ok (.inl place) w) ∨ ∃ w, r = .error .pageIdsExhausted w
  | .ok (some next) => ∃ firstFree w, r = .ok (.inr (next, firstFree)) w ∧ Tidy s w

theorem newPages_bears {w : Work} (hw : Sole s w) {handle : Nat} {m : Member}
    (hm : w.group.members[handle]? = some m) (size : PairSize) (room : Nat) (cursor : PageId)
    (firstFree : Option PageId) :
    s.Bears ((do
        let fresh ← appendAfter handle
        if size.together ≤ room then
          return .inl ⟨fresh, fresh, none, firstFree, cursor⟩
        else
          let second ← appendAfter fresh
          return .inl ⟨fresh, second, none, firstFree, cursor⟩ :
        Transaction (Placement ⊕ PageId × Option PageId)) w) (.ok none) := by
  rcases hw.appendAfter hm with ⟨w', hfail⟩ | ⟨fresh, w₁, k, happend, hw₁, hk⟩
  · exact .inr ⟨w', Transaction.bind_error hfail⟩
  · rw [Transaction.bind_ok happend]
    by_cases hboth : size.together ≤ room
    · rw [if_pos hboth]
      exact .inl ⟨_, w₁, rfl⟩
    · rw [if_neg hboth]
      rcases hw₁.appendAfter hk with ⟨w', hfail⟩ | ⟨second, w₂, -, happend₂, -, -⟩
      · exact .inr ⟨w', Transaction.bind_error hfail⟩
      · exact .inl ⟨_, w₂, Transaction.bind_ok happend₂⟩

section
variable (hidle : s.held = [])
include hidle

theorem claimSlot_answers {l : Location} (hother : l.page ≠ id) (n : Nat) :
    (claimSlot l.page l.slot.toNat n).Answers ⟨s.locked id, .single id p⟩
      ((s.spaceAt l).map fun room => !decide (room < n)) := by
  rw [Store.spaceAt]
  by_cases hcount : s.pageCount ≤ l.page.toNat
  · have htry : (s.locked id).tryLock l.page = .error (.cannotLock l.page s.pageCount) :=
      if_pos hcount
    rw [if_pos hcount]
    exact ⟨_, by rw [claimSlot, htry]⟩
  · have hheld : (s.locked id).isHeld (.page l.page) = false := by
      rw [Store.isHeld, Store.locked, hidle, List.contains_eq_mem, decide_eq_false_iff_not,
        List.mem_singleton]
      exact fun heq => hother (Lock.page.inj heq)
    have htry : (s.locked id).tryLock l.page = .ok (some ((s.locked id).locked l.page)) := by
      rw [Store.tryLock, if_neg (show ¬(s.locked id).pageCount ≤ l.page.toNat from hcount),
        Store.tryAcquire, hheld]
      rfl
    have hread : ((s.locked id).locked l.page).readPage l.page = s.readPage l.page := rfl
    have hnew : (Group.single id p).members.any (·.id == l.page) = false := by
      simpa [Group.single] using Ne.symm hother
    rw [if_neg hcount]
    cases hroom : (s.readPage l.page).bind fun q => q.spaceAfterFreeing l.slot.toNat with
    | error e =>
      exact ⟨_, by simp only [claimSlot, htry, hread, hroom]; rfl⟩
    | ok room =>
      by_cases hsmall : room < n
      · have hno : (!decide (room < n)) = false := by rw [decide_eq_true hsmall]; rfl
        rw [Except.map, hno]
        show claimSlot _ _ _ _ = _
        simp only [claimSlot, htry, hread, hroom, if_pos hsmall, Store.release_locked]
      · have hyes : (!decide (room < n)) = true := by rw [decide_eq_false hsmall]; rfl
        rw [Except.map, hyes]
        cases hq : s.readPage l.page with
        | error e =>
          rw [hq] at hroom
          cases hroom
        | ok q =>
          have hregister : (Group.single id p).register ((s.locked id).locked l.page) l.page =
              .ok (1, ⟨#[⟨id, p⟩, ⟨l.page, q⟩], none, 0⟩) := by
            rw [Group.register, hnew, hread, hq]
            rfl
          refine ⟨1, ⟨(s.locked id).locked l.page, ⟨#[⟨id, p⟩, ⟨l.page, q⟩], none, 0⟩⟩, ?_⟩
          simp only [claimSlot, htry, hread, hroom, if_neg hsmall, hregister]

theorem claimTombstone_answers (size : PairSize) (deleted : List Tombstone) :
    (claimTombstone size 0 id p deleted).Answers ⟨s.locked id, .single id p⟩
      (s.someGiveWay size id p deleted) := by
  induction deleted with
  | nil => rfl
  | cons t rest ih =>
    rw [claimTombstone, Store.someGiveWay, Store.givesWay]
    cases hroom : p.spaceAfterFreeing t.slot with
    | error e => exact ⟨_, rfl⟩
    | ok room =>
      refine Transaction.Answers.step (Transaction.ofExcept_ok rfl) ?_
      by_cases hsmall : room < size.element
      · simp only [Except.bind, if_pos hsmall]
        exact ih
      · simp only [Except.bind, if_neg hsmall]
        by_cases hsame : t.neighborsAt.page = id
        · simp only [if_pos hsame]
          cases hroom' : p.spaceAfterFreeing t.neighborsAt.slot.toNat with
          | error e => exact ⟨_, rfl⟩
          | ok room' =>
            refine Transaction.Answers.step (Transaction.ofExcept_ok rfl) ?_
            by_cases hsmall' : room' < size.neighbors + (size.element - t.size)
            · simp only [Except.map, if_pos hsmall', decide_eq_true hsmall']
              exact ih
            · simp only [Except.map, if_neg hsmall', decide_eq_false hsmall']
              exact ⟨_, _, rfl⟩
        · simp only [if_neg hsame]
          have hclaim := claimSlot_answers (p := p) hidle hsame size.neighbors
          cases hroom' : s.spaceAt t.neighborsAt with
          | error e =>
            rw [hroom'] at hclaim
            obtain ⟨w', hfail⟩ := hclaim
            exact ⟨w', Transaction.bind_error hfail⟩
          | ok room' =>
            rw [hroom', Except.map] at hclaim
            by_cases hsmall' : room' < size.neighbors
            · simp only [Except.map, decide_eq_true hsmall'] at hclaim ⊢
              exact Transaction.Answers.step hclaim ih
            · simp only [Except.map, decide_eq_false hsmall'] at hclaim ⊢
              obtain ⟨other, w', hfound⟩ := hclaim
              exact ⟨_, w', Transaction.bind_ok hfound⟩

/-- What a probe finds out about a page does not depend on the way that led there. -/
theorem probe_look {w : Work} (hw : Tidy s w) (size : PairSize) (cursor current : PageId)
    (firstFree : Option PageId) :
    s.Bears (probe size s.entry cursor current firstFree w) (s.look size current) := by
  rw [probe]
  generalize Page.empty.freeSpace = room
  have hrestart : Transaction.restart w = .ok () ⟨s, .empty⟩ := by
    rw [Transaction.restart, hw.release]
  rw [Transaction.bind_ok hrestart]
  by_cases hcount : s.pageCount ≤ current.toNat
  · have hlock : s.lock current = .error (.cannotLock current s.pageCount) := by
      rw [Store.lock, Store.tryLock, if_pos hcount]
    rw [Store.look, if_pos hcount]
    refine ⟨⟨s, .empty⟩, Transaction.bind_error ?_⟩
    rw [Transaction.register, hlock]
  · have hcurrent := Nat.not_le.mp hcount
    obtain ⟨p, hp⟩ := s.getElem?_of_lt_pageCount _ hcurrent
    have hfree : s.isHeld (.page current) = false := by
      rw [Store.isHeld, hidle]
      rfl
    have hsole := Sole.single hidle hcurrent p
    have hm : (Group.single current p).members[0]? = some ⟨current, p⟩ := rfl
    rw [Store.look_eq hcurrent hp,
      Transaction.bind_ok (register_empty current s p hcurrent hfree hp),
      Transaction.bind_ok (Transaction.image_eq hm)]
    by_cases hfits : size.together ≤ p.freeSpace
    · rw [if_pos hfits, if_pos (.inl hfits)]
      exact .inl ⟨_, _, rfl⟩
    · by_cases htail : size.element ≤ p.freeSpace ∧ p.next = noPage
      · rw [if_neg hfits, if_pos htail, if_pos (.inr htail)]
        rcases hsole.appendAfter hm with ⟨w', hfail⟩ | ⟨fresh, w', -, happend, -, -⟩
        · exact .inr ⟨w', Transaction.bind_error hfail⟩
        · exact .inl ⟨_, w', Transaction.bind_ok happend⟩
      · rw [if_neg hfits, if_neg htail, if_neg (not_or.mpr ⟨hfits, htail⟩)]
        cases hdeleted : tombstones s.entry current p with
        | error e => exact ⟨_, rfl⟩
        | ok deleted =>
          rw [Transaction.bind_ok (Transaction.ofExcept_ok rfl), Except.bind]
          have hclaim : (claimTombstone size 0 current p deleted).Answers
              ⟨s.locked current, .single current p⟩ (s.someGiveWay size current p deleted) :=
            claimTombstone_answers hidle size deleted
          cases hgiven : s.someGiveWay size current p deleted with
          | error e =>
            rw [hgiven] at hclaim
            obtain ⟨w', hfail⟩ := hclaim
            exact ⟨w', Transaction.bind_error hfail⟩
          | ok given =>
            rw [hgiven] at hclaim
            cases given with
            | true =>
              obtain ⟨found, w', hfound⟩ := hclaim
              rw [Transaction.bind_ok hfound]
              exact .inl ⟨_, w', rfl⟩
            | false =>
              rw [Transaction.bind_ok hclaim]
              by_cases hlast : p.next = noPage
              · simp only [Except.bind, hlast, or_true, if_true]
                exact newPages_bears hsole hm size room cursor _
              · simp only [Except.bind, hlast, Bool.false_eq_true, or_false, if_false]
                exact ⟨_, _, rfl, ⟨rfl, [.page current], rfl, .refl _⟩⟩

end

def Error.isAnswer : Error → Bool
  | .outsidePage => false
  | .wouldBlock _ => false
  | .endlessWalk => false
  | _ => true

/-- An error on an idle store that is an answer, unless some page of the store claims more slots
than there is room for on a page. -/
def Store.Plain (s : Store) (e : Error) : Prop :=
  e.isAnswer = true ∨ e = .outsidePage ∧ ∃ p ∈ s.pages, 2044 < p.slotCount

def Store.FailsPlainly {α : Type} (s : Store) (x : Except Error α) : Prop :=
  ∀ e, x = .error e → s.Plain e

namespace Store.FailsPlainly

variable {α β : Type} {x : Except Error α}

theorem ok (s : Store) (a : α) : s.FailsPlainly (.ok a) := by
  intro e h
  cases h

theorem error {e : Error} (h : s.Plain e) : s.FailsPlainly (.error e : Except Error α) := by
  intro e' he
  rwa [← Except.error.inj he]

theorem answer (s : Store) {e : Error} (h : e.isAnswer = true) :
    s.FailsPlainly (.error e : Except Error α) :=
  error (.inl h)

theorem bind {f : α → Except Error β} (hx : s.FailsPlainly x)
    (hf : ∀ a, x = .ok a → s.FailsPlainly (f a)) : s.FailsPlainly (x.bind f) := by
  cases x with
  | error e => exact error (hx e rfl)
  | ok a => exact hf a rfl

theorem map {f : α → β} (hx : s.FailsPlainly x) : s.FailsPlainly (x.map f) := by
  cases x with
  | error e => exact error (hx e rfl)
  | ok a => exact ok s _

theorem ite {c : Prop} [Decidable c] {y : Except Error α} (hx : s.FailsPlainly x)
    (hy : s.FailsPlainly y) : s.FailsPlainly (if c then x else y) := by
  by_cases hc : c
  · rwa [if_pos hc]
  · rwa [if_neg hc]

end Store.FailsPlainly

theorem outline_failsPlainly (s : Store) (bs : Bytes) : s.FailsPlainly (Element.outline bs) :=
  .ite (.answer s rfl) (.ite (.answer s rfl) (.ok s _))

section
variable (hp : p ∈ s.pages)
include hp

theorem itemId_failsPlainly (slot : Nat) : s.FailsPlainly (p.itemId slot) := by
  rw [Page.itemId]
  by_cases hcount : p.slotCount ≤ slot
  · rw [if_pos hcount]
    exact .answer s rfl
  · rw [if_neg hcount]
    by_cases hend : pageSize < Page.itemIdAt slot + Page.itemIdSize
    · rw [if_pos hend]
      refine .error (.inr ⟨rfl, p, hp, ?_⟩)
      have hsize : pageSize = 8192 := rfl
      rw [Page.itemIdAt, Page.headerSize, Page.itemIdSize] at hend
      omega
    · rw [if_neg hend]
      exact .ite (.answer s rfl) (.ok s _)

theorem spaceAfterFreeing_failsPlainly (slot : Nat) :
    s.FailsPlainly (p.spaceAfterFreeing slot) :=
  (itemId_failsPlainly hp slot).map

theorem tombstonesFrom_failsPlainly (entry : Option EntryPoint) (id : PageId) (count : Nat) :
    ∀ slot, s.FailsPlainly (tombstonesFrom entry id p count slot) := by
  induction count with
  | zero => exact fun _ => .ok s _
  | succ count ih =>
    intro slot
    refine (itemId_failsPlainly hp slot).map.bind fun bs _ => ?_
    have hrest (here : List Tombstone) : s.FailsPlainly
        ((tombstonesFrom entry id p count (slot + 1)).bind fun rest => .ok (here ++ rest)) :=
      (ih (slot + 1)).bind fun _ _ => .ok s _
    exact .ite ((outline_failsPlainly s bs).map.bind fun here _ => hrest here) (hrest [])

end

theorem readPage_failsPlainly {α : Type} {f : Page → Except Error α}
    (h : ∀ p ∈ s.pages, s.FailsPlainly (f p)) (id : PageId) :
    s.FailsPlainly ((s.readPage id).bind f) := by
  refine Store.FailsPlainly.bind ?_ fun p hread => h p ?_
  · rw [Store.readPage]
    cases s.pages[id.toNat]? with
    | none => exact .answer s rfl
    | some p => exact .ok s p
  · exact Array.mem_of_getElem? ((s.readPage_eq_ok id p).mp hread)

theorem spaceAt_failsPlainly (s : Store) (l : Location) : s.FailsPlainly (s.spaceAt l) :=
  .ite (.answer s rfl)
    (readPage_failsPlainly (fun _ hp => spaceAfterFreeing_failsPlainly hp _) _)

theorem someGiveWay_failsPlainly (hp : p ∈ s.pages) (size : PairSize) (id : PageId)
    (deleted : List Tombstone) : s.FailsPlainly (s.someGiveWay size id p deleted) := by
  induction deleted with
  | nil => exact .ok s _
  | cons t rest ih =>
    have hspace := spaceAfterFreeing_failsPlainly hp
    refine Store.FailsPlainly.bind ((hspace _).bind fun room _ => ?_) fun given _ =>
      .ite (.ok s _) ih
    exact .ite (.ok s _) (.ite (hspace _).map (spaceAt_failsPlainly s _).map)

theorem look_failsPlainly (s : Store) (size : PairSize) (id : PageId) :
    s.FailsPlainly (s.look size id) := by
  refine .ite (.answer s rfl) (readPage_failsPlainly (fun p hp => ?_) id)
  refine .ite (.ok s _) ((tombstonesFrom_failsPlainly hp _ _ _ _).bind fun deleted _ => ?_)
  exact (someGiveWay_failsPlainly hp size id deleted).bind fun _ _ => .ok s _

end PagedGraph
