import Mathlib.Data.List.Perm.Subperm
import Mathlib.Logic.Relation
import PagedGraph.Proofs.Looking
import PagedGraph.Proofs.Numbering

/-!
# When a walk for room ends

The search for room follows the links from page to page and keeps no record of the pages that it has
probed. What it finds out about a page does not depend on how it came there, so once it comes back
to a page it goes round for ever.

`Circles` says that the links lead from some page that is reached back to it, over pages that have
no room. A walk ends unless this is the case, and then it has probed no page twice
(`walk_ends_iff`).
-/

set_option autoImplicit false

namespace PagedGraph

variable {s : Store} {size : PairSize}

namespace Store

def Circles (s : Store) (size : PairSize) : Prop :=
  ∃ id, Relation.ReflTransGen (s.PassesOn size) s.cursor id ∧
    Relation.TransGen (s.PassesOn size) id id

def Strays (s : Store) (size : PairSize) : Prop :=
  ∃ id, Relation.ReflTransGen (s.PassesOn size) s.cursor id ∧
    s.look size id = .error .outsidePage

/-- A walk that has come to the first page comes to the second one when it has passed some number of
pages. -/
def Leads (s : Store) (size : PairSize) : Nat → PageId → PageId → Prop
  | 0, a, b => a = b
  | n + 1, a, b => ∃ c, s.PassesOn size a c ∧ s.Leads size n c b

variable {a b c : PageId} {m n : Nat}

theorem Leads.unique (h : s.Leads size n a b) : ∀ {c}, s.Leads size n a c → b = c := by
  induction n generalizing a with
  | zero => exact fun h' => h.symm.trans h'
  | succ n ih =>
    intro c h'
    obtain ⟨x, hx, hrest⟩ := h
    obtain ⟨y, hy, hrest'⟩ := h'
    obtain rfl := hx.unique hy
    exact ih hrest hrest'

theorem leads_add : s.Leads size (m + n) a c ↔ ∃ b, s.Leads size m a b ∧ s.Leads size n b c := by
  induction m generalizing a with
  | zero =>
    rw [Nat.zero_add]
    constructor
    · exact fun h => ⟨a, rfl, h⟩
    · rintro ⟨b, rfl, h⟩
      exact h
  | succ m ih =>
    rw [Nat.succ_add]
    constructor
    · rintro ⟨x, hx, hrest⟩
      obtain ⟨b, hfirst, hsecond⟩ := ih.mp hrest
      exact ⟨b, ⟨x, hx, hfirst⟩, hsecond⟩
    · rintro ⟨b, ⟨x, hx, hfirst⟩, hsecond⟩
      exact ⟨x, hx, ih.mpr ⟨b, hfirst, hsecond⟩⟩

theorem Leads.le_of_stuck (h : s.Leads size n a b) (hstuck : ∀ x, ¬s.PassesOn size b x)
    (h' : s.Leads size m a c) : m ≤ n := by
  refine Nat.not_lt.mp fun hlt => ?_
  obtain ⟨k, rfl⟩ := Nat.exists_eq_add_of_lt hlt
  rw [Nat.add_assoc] at h'
  obtain ⟨b', hb', x, hx, -⟩ := leads_add.mp h'
  obtain rfl := h.unique hb'
  exact hstuck x hx

theorem reaches_iff : Relation.ReflTransGen (s.PassesOn size) a b ↔ ∃ n, s.Leads size n a b := by
  constructor
  · intro h
    induction h using Relation.ReflTransGen.head_induction_on with
    | refl => exact ⟨0, rfl⟩
    | head hstep _ ih =>
      obtain ⟨n, hrest⟩ := ih
      exact ⟨n + 1, _, hstep, hrest⟩
  · rintro ⟨n, h⟩
    induction n generalizing a with
    | zero => exact h ▸ .refl
    | succ n ih =>
      obtain ⟨c, hstep, hrest⟩ := h
      exact .head hstep (ih hrest)

theorem circles_iff : s.Circles size ↔
    ∃ x m n, s.Leads size m s.cursor x ∧ s.Leads size (n + 1) x x := by
  constructor
  · rintro ⟨x, hreach, hback⟩
    obtain ⟨m, hm⟩ := reaches_iff.mp hreach
    obtain ⟨y, hstep, hrest⟩ := Relation.TransGen.head'_iff.mp hback
    obtain ⟨n, hn⟩ := reaches_iff.mp hrest
    exact ⟨x, m, n, hm, y, hstep, hn⟩
  · rintro ⟨x, m, n, hm, y, hstep, hn⟩
    exact ⟨x, reaches_iff.mpr ⟨m, hm⟩,
      Relation.TransGen.head'_iff.mpr ⟨y, hstep, reaches_iff.mpr ⟨n, hn⟩⟩⟩

theorem circles_of_twice (h : s.Leads size m s.cursor a) (h' : s.Leads size n s.cursor a)
    (hlt : m < n) : s.Circles size := by
  obtain ⟨k, rfl⟩ := Nat.exists_eq_add_of_lt hlt
  rw [Nat.add_assoc] at h'
  obtain ⟨b, hb, hback⟩ := leads_add.mp h'
  obtain rfl := h.unique hb
  exact circles_iff.mpr ⟨a, m, k, h, hback⟩

theorem Circles.leads (h : s.Circles size) (n : Nat) : ∃ b, s.Leads size n s.cursor b := by
  obtain ⟨x, m, k, hm, hback⟩ := circles_iff.mp h
  induction n using Nat.strongRecOn with
  | ind n ih =>
    by_cases hn : n ≤ m + (k + 1)
    · obtain ⟨r, hr⟩ := Nat.exists_eq_add_of_le hn
      have hround : s.Leads size (n + r) s.cursor x := hr ▸ leads_add.mpr ⟨x, hm, hback⟩
      obtain ⟨b, hb, -⟩ := leads_add.mp hround
      exact ⟨b, hb⟩
    · -- A shorter way has been there once less; one more round is put in.
      obtain ⟨r, rfl⟩ := Nat.exists_eq_add_of_lt (Nat.not_le.mp hn)
      obtain ⟨b, hb⟩ := ih (m + (r + 1)) (by omega)
      obtain ⟨y, hy, hrest⟩ := leads_add.mp hb
      obtain rfl := hm.unique hy
      refine ⟨b, ?_⟩
      rw [Nat.add_assoc]
      exact leads_add.mpr ⟨x, leads_add.mpr ⟨x, hm, hback⟩, hrest⟩

theorem circles_of_leads (h : s.Leads size (s.pageCount + 1) s.cursor b) : s.Circles size := by
  by_contra hno
  have hall : ∀ i, ∃ x, i < s.pageCount + 1 →
      s.Leads size i s.cursor x ∧ x.toNat < s.pageCount := by
    intro i
    by_cases hi : i < s.pageCount + 1
    · obtain ⟨r, hr⟩ := Nat.exists_eq_add_of_lt hi
      rw [hr, Nat.add_assoc] at h
      obtain ⟨x, hx, y, hstep, -⟩ := leads_add.mp h
      exact ⟨x, fun _ => ⟨hx, (passesOn_iff.mp hstep).1⟩⟩
    · exact ⟨0, fun hlt => absurd hlt hi⟩
  choose x hx using hall
  -- More pages than the file has would all be different ones.
  have hnodup : ((List.range (s.pageCount + 1)).map fun i => (x i).toNat).Nodup := by
    refine List.pairwise_map.mpr (List.pairwise_lt_range.imp_of_mem fun {i j} hi hj hlt heq => ?_)
    have hsame : x i = x j := UInt32.toNat_inj.mp heq
    exact hno (circles_of_twice (hx i (List.mem_range.mp hi)).1
      (hsame ▸ (hx j (List.mem_range.mp hj)).1) hlt)
  have hsub : ∀ k ∈ (List.range (s.pageCount + 1)).map fun i => (x i).toNat,
      k ∈ List.range s.pageCount := by
    intro k hk
    obtain ⟨i, hi, rfl⟩ := List.mem_map.mp hk
    exact List.mem_range.mpr (hx i (List.mem_range.mp hi)).2
  have hlength := (hnodup.subperm hsub).length_le
  rw [List.length_map, List.length_range, List.length_range] at hlength
  omega

end Store

def Store.walkFor (s : Store) (size : PairSize) (steps : Nat) :
    List PageId × EStateM.Result Error Work Placement :=
  PagedGraph.walk size s.entry s.cursor steps s.cursor none ⟨s, .empty⟩

/-- A walk has ended on a page as a look at the page tells: there is room, or no number for a new
page, or the page cannot be probed. -/
def Store.EndsOn (s : Store) (size : PairSize) (id : PageId)
    (r : EStateM.Result Error Work Placement) : Prop :=
  match s.look size id with
  | .error e => ∃ w, r = .error e w
  | .ok none => (∃ place w, r = .ok place w) ∨ ∃ w, r = .error .pageIdsExhausted w
  | .ok (some _) => False

theorem Store.EndsOn.stuck {id : PageId} {r : EStateM.Result Error Work Placement}
    (h : s.EndsOn size id r) (next : PageId) : ¬s.PassesOn size id next := by
  intro hpasses
  rw [EndsOn, hpasses] at h
  exact h

theorem Store.EndsOn.of_error {id : PageId} {e : Error} {w : Work}
    (h : s.EndsOn size id (.error e w)) : s.look size id = .error e ∨ e = .pageIdsExhausted := by
  rw [EndsOn] at h
  cases hlook : s.look size id with
  | error e' =>
    rw [hlook] at h
    obtain ⟨w', hw'⟩ := h
    cases hw'
    exact .inl rfl
  | ok goes =>
    rw [hlook] at h
    cases goes with
    | some next => exact h.elim
    | none =>
      rcases h with ⟨place, w', hw'⟩ | ⟨w', hw'⟩
      · cases hw'
      · cases hw'
        exact .inr rfl

/-- What becomes of a walk from some page that may probe some number of pages: it is still under way
when they are used up, or it has ended and more of them would make no difference. Either way it has
come to the pages to which the links lead, one after the other. -/
inductive WalksOn (s : Store) (size : PairSize) (current : PageId)
    (x : Nat → List PageId × EStateM.Result Error Work Placement) (steps : Nat) : Prop where
  | unfinished (b : PageId) (w : Work) (leads : s.Leads size steps current b)
      (probed : (x steps).1.length = steps) (result : (x steps).2 = .error .endlessWalk w)
      (way : ∀ k a, (x steps).1[k]? = some a → s.Leads size k current a)
  | ended (n : Nat) (b : PageId) (lt : n < steps) (leads : s.Leads size n current b)
      (probed : (x steps).1.length = n + 1) (ends : s.EndsOn size b (x steps).2)
      (settled : ∀ more, x (steps + more) = x steps)
      (way : ∀ k a, (x steps).1[k]? = some a → s.Leads size k current a)

theorem WalksOn.here {x : Nat → List PageId × EStateM.Result Error Work Placement}
    {current : PageId} {r : EStateM.Result Error Work Placement} (h : ∀ n, x (n + 1) = ([current], r))
    (hends : s.EndsOn size current r) (steps : Nat) : WalksOn s size current x (steps + 1) := by
  refine .ended 0 current (Nat.succ_pos steps) rfl ?_ ?_ (fun more => ?_) fun k a ha => ?_
  · rw [h]
    rfl
  · rw [h]
    exact hends
  · rw [Nat.succ_add, h, h]
  · rw [h] at ha
    cases k with
    | zero => exact Option.some.inj ha
    | succ k => cases ha

theorem WalksOn.passes {x y : Nat → List PageId × EStateM.Result Error Work Placement}
    {current next : PageId} (hpasses : s.PassesOn size current next)
    (h : ∀ n, x (n + 1) = (current :: (y n).1, (y n).2)) {steps : Nat}
    (hy : WalksOn s size next y steps) : WalksOn s size current x (steps + 1) := by
  have hway (hrest : ∀ k a, (y steps).1[k]? = some a → s.Leads size k next a) :
      ∀ k a, (x (steps + 1)).1[k]? = some a → s.Leads size k current a := by
    intro k a ha
    rw [h] at ha
    cases k with
    | zero => exact Option.some.inj ha
    | succ k => exact ⟨next, hpasses, hrest k a ha⟩
  cases hy with
  | unfinished b w leads probed result way =>
    refine .unfinished b w ⟨next, hpasses, leads⟩ ?_ ?_ (hway way)
    · rw [h, List.length_cons, probed]
    · rw [h]
      exact result
  | ended n b lt leads probed ends settled way =>
    refine .ended (n + 1) b (Nat.succ_lt_succ lt) ⟨next, hpasses, leads⟩ ?_ ?_ (fun more => ?_)
      (hway way)
    · rw [h, List.length_cons, probed]
    · rw [h]
      exact ends
    · rw [Nat.succ_add, h, h, settled]

structure Store.WalkEnds (s : Store) (size : PairSize) : Prop where
  distinct : (s.walk size).1.Nodup
  bounded : (s.walk size).1.length ≤ s.pageCount + 1
  /-- The answer is what a look at the last page tells. -/
  last : ∃ id, (s.walk size).1.getLast? = some id ∧ s.EndsOn size id (allocate size ⟨s, .empty⟩)
  answered : ∀ e w, allocate size ⟨s, .empty⟩ = .error e w → e.isAnswer = true
  /-- The limit on the number of probes has nothing to do with it. -/
  settled : ∀ steps, s.pageCount < steps → s.walkFor size steps = s.walk size

section
variable (hidle : s.held = [])
include hidle

theorem walk_walksOn (size : PairSize) (cursor : PageId) (steps : Nat) :
    ∀ (current : PageId) (firstFree : Option PageId) (w : Work), Tidy s w →
      WalksOn s size current (fun n => walk size s.entry cursor n current firstFree w) steps := by
  induction steps with
  | zero =>
    intro current firstFree w _
    refine .unfinished current w rfl rfl rfl fun k a ha => ?_
    cases ha
  | succ steps ih =>
    intro current firstFree w hw
    have hprobe := probe_look hidle hw size cursor current firstFree
    cases hlook : s.look size current with
    | error e =>
      rw [hlook] at hprobe
      obtain ⟨w', hfail⟩ := hprobe
      refine WalksOn.here (r := .error e w') (fun n => by simp only [walk, hfail]) ?_ steps
      rw [Store.EndsOn, hlook]
      exact ⟨w', rfl⟩
    | ok goes =>
      rw [hlook] at hprobe
      cases goes with
      | none =>
        rcases hprobe with ⟨place, w', hfound⟩ | ⟨w', hfail⟩
        · refine WalksOn.here (r := .ok place w') (fun n => by simp only [walk, hfound]) ?_ steps
          rw [Store.EndsOn, hlook]
          exact .inl ⟨place, w', rfl⟩
        · refine WalksOn.here (r := .error .pageIdsExhausted w')
            (fun n => by simp only [walk, hfail]) ?_ steps
          rw [Store.EndsOn, hlook]
          exact .inr ⟨w', rfl⟩
      | some next =>
        obtain ⟨firstFree', w', hpassed, hw'⟩ := hprobe
        refine WalksOn.passes hlook (fun n => ?_) (ih next firstFree' w' hw')
        simp only [walk, hpassed]

theorem walkFor_walksOn (size : PairSize) (steps : Nat) :
    WalksOn s size s.cursor (s.walkFor size) steps :=
  walk_walksOn hidle size s.cursor steps s.cursor none ⟨s, .empty⟩ (.empty s)

theorem Store.Circles.endless (h : s.Circles size) (steps : Nat) :
    (s.walkFor size steps).1.length = steps ∧
      ∃ w, (s.walkFor size steps).2 = .error .endlessWalk w := by
  cases walkFor_walksOn hidle size steps with
  | unfinished b w _ probed result _ => exact ⟨probed, w, result⟩
  | ended n b _ leads _ ends _ _ =>
    obtain ⟨c, hc⟩ := h.leads (n + 1)
    exact absurd (leads.le_of_stuck ends.stuck hc) (Nat.not_succ_le_self n)

theorem Store.walkEnds_of_not (hcircles : ¬s.Circles size) (hstrays : ¬s.Strays size) :
    s.WalkEnds size := by
  cases walkFor_walksOn hidle size (s.pageCount + 1) with
  | unfinished b w leads _ _ _ => exact absurd (circles_of_leads leads) hcircles
  | ended n b lt leads probed ends settled way =>
    have hprobed : (s.walk size).1.length = n + 1 := probed
    have hends : s.EndsOn size b (allocate size ⟨s, .empty⟩) := s.walk_result size ▸ ends
    refine ⟨?_, by omega, ⟨b, ?_, hends⟩, fun e w herror => ?_, fun steps hsteps => ?_⟩
    · refine List.pairwise_iff_getElem.mpr fun i j hi hj hlt heq => ?_
      have hfirst := way i _ (List.getElem?_eq_getElem hi)
      have hsecond := way j _ (List.getElem?_eq_getElem hj)
      exact hcircles (circles_of_twice hfirst (heq ▸ hsecond) hlt)
    · have hlt : n < (s.walk size).1.length := by omega
      rw [List.getLast?_eq_getElem?, hprobed, Nat.add_sub_cancel, List.getElem?_eq_getElem hlt]
      have hlast := way n _ (List.getElem?_eq_getElem hlt)
      rw [leads.unique hlast]
    · rw [herror] at hends
      rcases hends.of_error with hlook | rfl
      · rcases look_failsPlainly s size b e hlook with hanswer | ⟨rfl, -⟩
        · exact hanswer
        · exact absurd ⟨b, reaches_iff.mpr ⟨n, leads⟩, hlook⟩ hstrays
      · rfl
    · obtain ⟨more, rfl⟩ := Nat.exists_eq_add_of_le (Nat.succ_le_of_lt hsteps)
      exact settled more

theorem Store.Strays.outside (h : s.Strays size) :
    ∃ w, allocate size ⟨s, .empty⟩ = .error .outsidePage w := by
  obtain ⟨id, hreach, hlook⟩ := h
  obtain ⟨n, hn⟩ := reaches_iff.mp hreach
  have hstuck : ∀ x, ¬s.PassesOn size id x := by
    intro x hx
    rw [PassesOn, hlook] at hx
    cases hx
  cases walkFor_walksOn hidle size (s.pageCount + 1) with
  | unfinished b w leads _ _ _ =>
    obtain ⟨b, hb⟩ := (circles_of_leads leads).leads (n + 1)
    exact absurd (hn.le_of_stuck hstuck hb) (Nat.not_succ_le_self n)
  | ended m b _ leads _ ends _ _ =>
    obtain rfl : m = n := Nat.le_antisymm (hn.le_of_stuck hstuck leads)
      (leads.le_of_stuck ends.stuck hn)
    obtain rfl := leads.unique hn
    have hends : s.EndsOn size b (allocate size ⟨s, .empty⟩) := s.walk_result size ▸ ends
    rw [EndsOn, hlook] at hends
    exact hends

end

theorem Store.Strays.claims (h : s.Strays size) : ∃ p ∈ s.pages, 2044 < p.slotCount := by
  obtain ⟨id, -, hlook⟩ := h
  rcases look_failsPlainly s size id _ hlook with hanswer | ⟨-, hclaims⟩
  · cases hanswer
  · exact hclaims

/-- On every file that is accepted, and for records of all sizes: an allocation ends with a
placement or an error, and has probed no page twice, unless the links lead over pages without room
back to a page that is reached, or a page that is reached claims slots outside of itself. In the
first case it goes on whatever number of pages it has probed, in the second one it leaves the page. -/
theorem walk_ends_iff {path : String} {template : Header} {file file' : FileState} {s : Store}
    (hopen : Store.openFile path template file = (.ok s, file')) (size : PairSize) :
    (s.WalkEnds size ↔ ¬s.Circles size ∧ ¬s.Strays size) ∧
      (s.Circles size → ∀ steps, (s.walkFor size steps).1.length = steps ∧
        ∃ w, (s.walkFor size steps).2 = .error .endlessWalk w) ∧
      (s.Strays size → ∃ w, allocate size ⟨s, .empty⟩ = .error .outsidePage w) := by
  have hidle : s.held = [] := (Store.openFile_ok hopen).1
  refine ⟨⟨fun hends => ⟨fun hcircles => ?_, fun hstrays => ?_⟩, fun h =>
    Store.walkEnds_of_not hidle h.1 h.2⟩, Store.Circles.endless hidle, Store.Strays.outside hidle⟩
  · obtain ⟨-, w, hendless⟩ := hcircles.endless hidle (s.pageCount + 1)
    cases hends.answered .endlessWalk w ((s.walk_result size).symm.trans hendless)
  · obtain ⟨w, houtside⟩ := hstrays.outside hidle
    cases hends.answered .outsidePage w houtside

def Store.freshWith (template : Header) (first : Page) : Store :=
  (fresh template).withPage firstDataPage first

theorem Store.header_freshWith (template : Header) (first : Page) :
    (freshWith template first).header = template := by
  have hpage : (freshWith template first).headerPage = metaImage template := by
    simp [headerPage, freshWith, withPage, fresh, firstDataPage]
  rw [header, hpage, onPage_metaImage]

theorem Store.openFile_freshWith {template : Header} (h : template.Sets) (first : Page)
    (path : String) :
    openFile path template (freshWith template first).close =
      (.ok (freshWith template first), .inUse (freshWith template first).bytes) := by
  obtain ⟨s, hpages, hheld, hcontent⟩ := ofContent_concat path template
    [metaImage template, first] (Nat.le_refl 2)
  obtain rfl : s = freshWith template first := eq_of_parts hpages hheld
  have hsome : (freshWith template first).bytes.size ≠ 0 := by
    rw [size_bytes]
    exact Nat.mul_ne_zero (Nat.succ_ne_zero 1) (by decide)
  have hbytes : (freshWith template first).bytes = concat [metaImage template, first] := bytes_eq _
  rw [close, openFile, if_neg hsome, hbytes, openFile.attempt, hcontent, header_freshWith,
    h.checkHeader_eq, if_pos ⟨rfl, rfl, rfl⟩]
  rfl

theorem Store.reaches_freshWith {template : Header} (h : template.insertPage = firstDataPage)
    (first : Page) : Relation.ReflTransGen ((freshWith template first).PassesOn size)
      (freshWith template first).cursor firstDataPage := by
  rw [cursor, header_freshWith, h]

theorem Store.circles_freshWith {template : Header} (h : template.insertPage = firstDataPage)
    (hlarge : 8172 < size.together) :
    (freshWith template (Page.empty.setNext firstDataPage)).Circles size := by
  have hcount : (Page.empty.setNext firstDataPage).slotCount = 0 :=
    (Page.holds_empty.setNext firstDataPage).count
  refine ⟨firstDataPage, reaches_freshWith h _, .single (passesOn_iff.mpr
    ⟨show 1 < 2 by decide, Page.empty.setNext firstDataPage, rfl, Page.next_setNext _ _, by decide,
      ?_, [], ?_, rfl⟩)⟩
  · rwa [Page.holds_empty.freeSpace_setNext, Page.freeSpace_empty]
  · rw [tombstones, hcount]
    rfl

def Page.claiming (count : Nat) : Page := (Page.empty.setUpper 0).setSlotCount count

theorem Page.word_claiming (count : Nat) {a : Nat} (h : 8 ≤ a) :
    (claiming count).word a 2 = 0 := by
  rw [claiming, setSlotCount, word_setWord_outside _ _ _ _ _ _ (by omega), setUpper,
    word_setWord_outside _ _ _ _ _ _ (by omega), empty, setUpper,
    word_setWord_outside _ _ _ _ _ _ (by omega), setNext,
    word_setWord_outside _ _ _ _ _ _ (by omega), word_two, byte_blank, byte_blank]
  rfl

section
variable {count : Nat} (hcount : count < 65536)
include hcount

theorem Page.slotCount_claiming : (claiming count).slotCount = count :=
  word_setWord _ _ _ _ (by decide) hcount

omit hcount in
theorem Page.upper_claiming : (claiming count).upper = 0 := by
  rw [upper, claiming, setSlotCount, word_setWord_outside _ _ _ _ _ _ (by omega), setUpper,
    word_setWord _ _ _ _ (by decide) (by decide)]

theorem Page.item_claiming {slot : Nat} (hslot : slot < count) (hlt : slot < 2044) :
    (claiming count).item slot = .ok #[] := by
  have hsize : pageSize = 8192 := rfl
  have hid : (claiming count).itemId slot = .ok (0, 0) := by
    have hat : itemIdAt slot = 16 + slot * 4 := rfl
    have hstep : itemIdSize = 4 := rfl
    rw [itemId, slotCount_claiming hcount, if_neg (by omega), if_neg (by omega), upper_claiming,
      word_claiming _ (by omega), word_claiming _ (by omega), if_neg (by omega)]
  have hnothing : (claiming count).slice 0 0 = #[] :=
    Array.extract_eq_empty_of_le (Nat.min_le_left _ _)
  rw [item, hid, ← hnothing]
  rfl

theorem tombstonesFrom_claiming (hlarge : 2044 < count) (entry : Option EntryPoint) (id : PageId)
    (k : Nat) : ∀ slot n, slot + k = 2044 → k < n →
      tombstonesFrom entry id (Page.claiming count) n slot = .error .outsidePage := by
  induction k with
  | zero =>
    rintro slot n rfl hn
    obtain ⟨n, rfl⟩ := Nat.exists_eq_add_of_lt hn
    have hout : (Page.claiming count).item 2044 = .error .outsidePage := by
      rw [Page.item, Page.itemId, Page.slotCount_claiming hcount, if_neg (Nat.not_le.mpr hlarge),
        if_pos (by decide)]
      rfl
    rw [Nat.zero_add, tombstonesFrom, hout]
    rfl
  | succ k ih =>
    intro slot n hslot hn
    obtain ⟨n, rfl⟩ := Nat.exists_eq_add_of_lt hn
    have hitem : (Page.claiming count).item slot = .ok #[] :=
      Page.item_claiming hcount (by omega) (by omega)
    have hrest := ih (slot + 1) (k + 1 + n) (by omega) (by omega)
    rw [tombstonesFrom, hitem]
    show ((.ok [] : Except Error (List Tombstone)).bind fun here =>
      (tombstonesFrom entry id (Page.claiming count) (k + 1 + n) (slot + 1)).bind fun rest =>
        .ok (here ++ rest)) = _
    rw [hrest]
    rfl

theorem Store.strays_freshWith (hlarge : 2044 < count) {template : Header}
    (h : template.insertPage = firstDataPage) (hpos : 0 < size.element) :
    (freshWith template (Page.claiming count)).Strays size := by
  refine ⟨firstDataPage, reaches_freshWith h _, ?_⟩
  have hfree : (Page.claiming count).freeSpace = 0 := by
    rw [Page.freeSpace, Page.upper_claiming, Nat.zero_sub, Nat.zero_sub]
  have hfull : ¬(size.together ≤ 0 ∨ size.element ≤ 0 ∧ (Page.claiming count).next = noPage) := by
    rw [PairSize.together]
    omega
  have hthere : firstDataPage.toNat < (freshWith template (Page.claiming count)).pageCount :=
    show 1 < 2 by decide
  have hpage : (freshWith template (Page.claiming count)).pages[firstDataPage.toNat]? =
      some (Page.claiming count) := rfl
  rw [look_eq hthere hpage, hfree, if_neg hfull, tombstones, Page.slotCount_claiming hcount,
    tombstonesFrom_claiming hcount hlarge _ _ 2044 0 _ (Nat.zero_add _) hlarge]
  rfl

end

/-- An allocation in a file whose only data page is its own successor never ends, and in a file
whose only data page claims 5000 slots it leaves that page. -/
theorem walk_looped : ∃ s s' file₁ file₂,
    Store.openFile "index" (Index.template 2 Options.standard)
      (Store.freshWith (Index.template 2 Options.standard)
        (Page.empty.setNext firstDataPage)).close = (.ok s, file₁) ∧
    (∀ steps, ∃ w, (s.walkFor ⟨4000, 4200⟩ steps).2 = .error .endlessWalk w) ∧
    Store.openFile "index" (Index.template 2 Options.standard)
      (Store.freshWith (Index.template 2 Options.standard) (Page.claiming 5000)).close =
        (.ok s', file₂) ∧
    ∃ w, allocate ⟨128, 32⟩ ⟨s', .empty⟩ = .error .outsidePage w := by
  have hsets := Index.template_sets Index.checkOptions_new_file
  have hlooped := Store.openFile_freshWith hsets (Page.empty.setNext firstDataPage) "index"
  have hcircles : (Store.freshWith (Index.template 2 Options.standard)
      (Page.empty.setNext firstDataPage)).Circles ⟨4000, 4200⟩ :=
    Store.circles_freshWith rfl (by decide)
  have hclaiming := Store.openFile_freshWith hsets (Page.claiming 5000) "index"
  have hstrays : (Store.freshWith (Index.template 2 Options.standard)
      (Page.claiming 5000)).Strays ⟨128, 32⟩ :=
    Store.strays_freshWith (by decide) (by decide) rfl (by decide)
  obtain ⟨-, hendless, -⟩ := walk_ends_iff hlooped ⟨4000, 4200⟩
  obtain ⟨-, -, houtside⟩ := walk_ends_iff hclaiming ⟨128, 32⟩
  exact ⟨_, _, _, _, hlooped, fun steps => (hendless hcircles steps).2, hclaiming,
    houtside hstrays⟩

end PagedGraph
