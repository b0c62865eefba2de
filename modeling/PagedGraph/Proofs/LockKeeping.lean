import PagedGraph.Graph.Insertion
import PagedGraph.Proofs.Isolation
import PagedGraph.Proofs.Transactions
import PagedGraph.Proofs.Turns

/-!
# Every lock is given back

A transaction takes locks only for its group, and on every way out the group gives back what it
has. So an operation on the graph leaves the lock table as it has found it, whoever else holds
locks, whether it succeeds or fails (`GivesBack`). `Kept` follows the locks through a transaction,
on any store at all: nothing is assumed of the pages.

An insertion takes turns, and in some of them it calls its construction. Whatever changes the locks
from the beginning to the end of an insertion has happened in these calls (`insertion_within`).
-/

set_option autoImplicit false

namespace PagedGraph

namespace Tidy

variable {s s' : Store} {w : Work} {g : Group}

theorem push (h : Tidy s w) (m : Member) (appended : Nat) (hpages : s'.pages = w.store.pages)
    (hheld : s'.held = .page m.id :: w.store.held) :
    Tidy s ⟨s', { w.group with members := w.group.members.push m, appended := appended }⟩ where
  pages := hpages.trans h.pages
  held := by
    obtain ⟨mine, hmine, hperm⟩ := h.held
    exact ⟨.page m.id :: mine, by rw [hheld, hmine]; rfl,
      (hperm.cons _).trans (w.group.locks_push m)⟩

theorem claimGrowth (h : Tidy s w) {base : Nat}
    (hc : w.group.claimGrowth w.store = .ok (s', g, base)) : Tidy s ⟨s', g⟩ := by
  rw [Group.claimGrowth] at hc
  cases hbase : w.group.base with
  | some b =>
    rw [hbase] at hc
    cases hc
    exact h
  | none =>
    rw [hbase] at hc
    cases ht : w.store.tryAcquire .growth with
    | none =>
      rw [ht] at hc
      cases hc
    | some grown =>
      rw [ht] at hc
      cases hc
      obtain ⟨-, hpages, hheld⟩ := Store.tryAcquire_some ht
      obtain ⟨mine, hmine, hperm⟩ := h.held
      exact ⟨hpages.trans h.pages, .growth :: mine, by rw [hheld, hmine]; rfl,
        (hperm.cons _).trans (w.group.locks_claim _ hbase)⟩

theorem append (h : Tidy s w) {r : Except Error Nat}
    (hr : w.group.append w.store = (r, s', g)) : Tidy s ⟨s', g⟩ := by
  rw [Group.append] at hr
  cases hc : w.group.claimGrowth w.store with
  | error e =>
    rw [hc] at hr
    cases hr
    exact h
  | ok x =>
    obtain ⟨grown, claimed, base⟩ := x
    have hclaimed := h.claimGrowth hc
    simp only [hc] at hr
    by_cases hlimit : 4294967296 ≤ base + claimed.appended
    · rw [if_pos hlimit] at hr
      cases hr
      exact hclaimed
    · rw [if_neg hlimit] at hr
      cases ht : grown.tryAcquire (.page (UInt32.ofNat (base + claimed.appended))) with
      | none =>
        rw [ht] at hr
        cases hr
        exact h
      | some locked =>
        rw [ht] at hr
        cases hr
        obtain ⟨-, hpages, hheld⟩ := Store.tryAcquire_some ht
        exact hclaimed.push ⟨_, Page.empty⟩ (claimed.appended + 1) hpages hheld

end Tidy

/-- A transaction on a store is under way, and its group owns what has been locked since. -/
structure Kept (s : Store) (w : Work) : Prop extends Tidy s w where
  owns : s.held.Nodup → w.group.Owns w.store s.held

namespace Kept

variable {s s' : Store} {w : Work} {g : Group}

theorem empty (s : Store) : Kept s ⟨s, .empty⟩ where
  toTidy := .empty s
  owns hd := ⟨.refl _, hd, rfl⟩

theorem register (h : Kept s w) {id : PageId} {handle : Nat}
    (hl : w.store.tryLock id = .ok (some s')) (hr : w.group.register s' id = .ok (handle, g)) :
    Kept s ⟨s', g⟩ := by
  obtain ⟨-, hfree, rfl⟩ := Store.tryLock_some hl
  obtain ⟨p, -, -, rfl, -⟩ := Group.register_ok hr
  refine ⟨h.push ⟨id, p⟩ w.group.appended rfl rfl, fun hd => ?_⟩
  have hown := h.owns hd
  exact hown.push ⟨id, p⟩ w.group.appended rfl hfree rfl
    (Group.Owns.measured_push hown.measured _)

theorem append (h : Kept s w) {r : Except Error Nat}
    (hr : w.group.append w.store = (r, s', g)) : Kept s ⟨s', g⟩ where
  toTidy := h.toTidy.append hr
  owns hd := ((h.owns hd).append hr).1

theorem setImage (h : Kept s w) (handle : Nat) (image : Page) :
    Kept s { w with group := w.group.setImage handle image } where
  pages := h.pages
  held := by
    obtain ⟨mine, hmine, hperm⟩ := h.held
    exact ⟨mine, hmine, by rw [Group.locks_setImage]; exact hperm⟩
  owns hd := (h.owns hd).setImage handle image

end Kept

namespace Transaction

variable {α β : Type}

def Keeps (x : Transaction α) : Prop :=
  ∀ s w, Kept s w → Ensures s x w fun _ w' => Kept s w'

theorem Keeps.bind {x : Transaction α} {f : α → Transaction β} (hx : x.Keeps)
    (hf : ∀ a, (f a).Keeps) : (x >>= f).Keeps :=
  fun s w h => (hx s w h).bind fun a w' h' => hf a s w' h'

theorem keeps_pure (a : α) : (pure a : Transaction α).Keeps := fun _ _ h => h

theorem keeps_throw (e : Error) : (throw e : Transaction α).Keeps := fun _ _ h => h.toTidy

theorem keeps_ofExcept (x : Except Error α) : (ofExcept x).Keeps := by
  intro s w h
  cases x with
  | ok a => exact h
  | error e => exact h.toTidy

theorem keeps_reading (f : Store → Except Error α) : (Transaction.reading f).Keeps := by
  intro s w h
  rw [Ensures, Transaction.reading]
  cases f w.store with
  | ok a => exact h
  | error e => exact h.toTidy

theorem keeps_member (handle : Nat) : (member handle).Keeps := by
  intro s w h
  rw [Ensures, member]
  cases w.group.members[handle]? with
  | some m => exact h
  | none => exact h.toTidy

theorem Keeps.map {x : Transaction α} (hx : x.Keeps) (f : α → β) : (f <$> x).Keeps := by
  intro s w h
  have hrun := hx s w h
  show Ensures s (EStateM.map f x) w fun _ w' => Kept s w'
  rw [Ensures] at hrun ⊢
  rw [EStateM.map]
  cases hr : x w with
  | ok a w' =>
    rw [hr] at hrun
    exact hrun
  | error e w' =>
    rw [hr] at hrun
    exact hrun

theorem keeps_image (handle : Nat) : (image handle).Keeps := (keeps_member handle).map _

theorem keeps_pageId (handle : Nat) : (pageId handle).Keeps := (keeps_member handle).map _

theorem keeps_setImage (handle : Nat) (q : Page) : (setImage handle q).Keeps :=
  fun _ _ h => h.setImage handle q

theorem keeps_restart : restart.Keeps := by
  intro s w h
  show Kept s ⟨w.group.release w.store, .empty⟩
  rw [h.release]
  exact .empty s

theorem keeps_register (id : PageId) : (register id).Keeps := by
  intro s w h
  rw [Ensures, register, Store.lock]
  cases hl : w.store.tryLock id with
  | error e => exact h.toTidy
  | ok found =>
    cases found with
    | none => exact h.toTidy
    | some s' =>
      cases hr : w.group.register s' id with
      | error e =>
        obtain ⟨-, -, rfl⟩ := Store.tryLock_some hl
        simp only [hr, Store.release_locked]
        exact h.toTidy
      | ok r =>
        simp only [hr]
        exact h.register hl hr

theorem keeps_append : append.Keeps := by
  intro s w h
  rw [Ensures, append]
  cases ha : w.group.append w.store with
  | mk r rest =>
    cases r with
    | ok handle => exact h.append ha
    | error e => exact (h.append ha).toTidy

end Transaction

section
open Transaction

theorem keeps_claimSlot (id : PageId) (slot size : Nat) : (claimSlot id slot size).Keeps := by
  intro s w h
  rw [Ensures, claimSlot]
  cases hl : w.store.tryLock id with
  | error e => exact h.toTidy
  | ok found =>
    cases found with
    | none => exact h
    | some s' =>
      have hback : { w with store := s'.release (.page id) } = w := by
        obtain ⟨-, -, rfl⟩ := Store.tryLock_some hl
        rw [Store.release_locked]
      simp only [hback]
      cases (s'.readPage id).bind fun p => p.spaceAfterFreeing slot with
      | error e => exact h.toTidy
      | ok room =>
        by_cases hroom : room < size
        · simp only [if_pos hroom]
          exact h
        · simp only [if_neg hroom]
          cases hr : w.group.register s' id with
          | error e => exact h.toTidy
          | ok r => exact h.register hl hr

theorem keeps_claimTombstone (size : PairSize) (handle : Nat) (id : PageId) (p : Page)
    (ts : List Tombstone) : (claimTombstone size handle id p ts).Keeps := by
  induction ts with
  | nil => exact keeps_pure none
  | cons t rest ih =>
    rw [claimTombstone]
    refine (keeps_ofExcept _).bind fun room => ?_
    by_cases hroom : room < size.element
    · simp only [if_pos hroom]
      exact ih
    · simp only [if_neg hroom]
      by_cases hpage : t.neighborsAt.page = id
      · simp only [if_pos hpage]
        refine (keeps_ofExcept _).bind fun left => ?_
        by_cases hleft : left < size.neighbors + (size.element - t.size)
        · simp only [if_pos hleft]
          exact ih
        · simp only [if_neg hleft]
          exact keeps_pure _
      · simp only [if_neg hpage]
        refine (keeps_claimSlot _ _ _).bind fun found => ?_
        cases found with
        | none => exact ih
        | some other => exact keeps_pure _

theorem keeps_appendAfter (handle : Nat) : (appendAfter handle).Keeps :=
  keeps_append.bind fun fresh => (keeps_pageId fresh).bind fun _ =>
    (keeps_image handle).bind fun _ => (keeps_setImage _ _).bind fun _ => keeps_pure fresh

theorem keeps_probeFrom (size : PairSize) (entry : Option EntryPoint) (cursor : PageId) :
    ∀ (steps : Nat) (current : PageId) (firstFree : Option PageId),
      (probeFrom size entry cursor steps current firstFree).Keeps := by
  intro steps
  induction steps with
  | zero => exact fun current firstFree => keeps_throw _
  | succ steps ih =>
    intro current firstFree
    rw [probeFrom]
    generalize Page.empty.freeSpace = room
    refine keeps_restart.bind fun _ => (keeps_register current).bind fun handle =>
      (keeps_image handle).bind fun page => ?_
    by_cases hboth : size.together ≤ page.freeSpace
    · simp only [if_pos hboth]
      exact keeps_pure _
    · simp only [if_neg hboth]
      by_cases hlast : size.element ≤ page.freeSpace ∧ page.next = noPage
      · simp only [if_pos hlast]
        exact (keeps_appendAfter handle).bind fun fresh => keeps_pure _
      · simp only [if_neg hlast]
        refine (keeps_ofExcept _).bind fun deleted =>
          (keeps_claimTombstone _ _ _ _ _).bind fun found => ?_
        cases found with
        | some r => exact keeps_pure _
        | none =>
          by_cases hend : page.next = noPage
          · simp only [if_pos hend]
            refine (keeps_appendAfter handle).bind fun fresh => ?_
            by_cases hempty : size.together ≤ room
            · simp only [if_pos hempty]
              exact keeps_pure _
            · simp only [if_neg hempty]
              exact (keeps_appendAfter fresh).bind fun second => keeps_pure _
          · simp only [if_neg hend]
            exact ih _ _

theorem keeps_allocate (size : PairSize) : (allocate size).Keeps := by
  have hget : (get : Transaction Work).Keeps := fun _ _ h => h
  rw [allocate]
  exact hget.bind fun w => keeps_probeFrom size _ _ _ _ _

theorem keeps_writeMember (handle : Nat) (what : PairWrite) (write : Page → Except Error Page) :
    (writeMember handle what write).Keeps :=
  (keeps_image handle).bind fun _ => (keeps_ofExcept _).bind fun _ => keeps_setImage _ _

theorem keeps_placeAndWrite (d : Draft) (m : Nat) : (placeAndWrite d m).Keeps := by
  have hwrite : ∀ (place : Placement) (slots : Nat × Nat) (element neighbors : Bytes),
      (writePair place slots element neighbors).Keeps := by
    intro place slots element neighbors
    rw [writePair]
    cases place.reuse with
    | none => exact (keeps_writeMember _ _ _).bind fun _ => keeps_writeMember _ _ _
    | some r => exact (keeps_writeMember _ _ _).bind fun _ => keeps_writeMember _ _ _
  exact (keeps_allocate _).bind fun place => (keeps_pageId _).bind fun _ =>
    (keeps_pageId _).bind fun _ => (keeps_image _).bind fun _ => (keeps_image _).bind fun _ =>
    (hwrite _ _ _ _).bind fun _ => keeps_pure _

theorem keeps_editPage {α : Type} (id : PageId) (decision : Store → Page → Except Error (Edit α)) :
    Transaction.Keeps (do
      let handle ← Transaction.register id
      let page ← Transaction.image handle
      match ← Transaction.reading fun s => decision s page with
      | .keep a => return .abort a
      | .replace page a =>
        Transaction.setImage handle page
        return .commit a : Transaction (Ending α)) := by
  refine (keeps_register id).bind fun handle => (keeps_image handle).bind fun page =>
    (keeps_reading _).bind fun edit => ?_
  cases edit with
  | keep a => exact keeps_pure _
  | replace q a => exact (keeps_setImage handle q).bind fun _ => keeps_pure _

end

namespace Store

/-- Between two moments of a store the locks have come to be what they were, and while somebody had
the right to grow, the file has not grown. -/
structure GivesBack (s s' : Store) : Prop where
  held : s'.held = s.held
  size : s.held.Nodup → .growth ∈ s.held → s'.pages.size = s.pages.size

theorem GivesBack.refl (s : Store) : s.GivesBack s := ⟨rfl, fun _ _ => rfl⟩

theorem GivesBack.trans {s₁ s₂ s₃ : Store} (h : s₁.GivesBack s₂) (h' : s₂.GivesBack s₃) :
    s₁.GivesBack s₃ where
  held := h'.held.trans h.held
  size hd hgrowth := (h'.size (by rwa [h.held]) (by rwa [h.held])).trans (h.size hd hgrowth)

end Store

theorem Kept.commit {s s' : Store} {w : Work} {r : Except Error Unit} (h : Kept s w)
    (hc : w.group.commit w.store = (r, s')) : s.GivesBack s' := by
  by_cases hreach : ∀ m ∈ w.group.members.toList, m.id.toNat < w.group.limit w.store
  · obtain ⟨s₁, hs₁, -, hheld⟩ := w.group.commit_ok w.store hreach
    obtain rfl : s₁ = s' := (Prod.mk.inj (hs₁.symm.trans hc)).2
    refine ⟨by rw [hheld, ← Group.held_release, h.release], fun hd hgrowth => ?_⟩
    cases hbase : w.group.base with
    | none =>
      rw [Group.size_commit hs₁, Group.limit, hbase, h.pages]
      exact Nat.max_self _
    | some base =>
      -- The right to grow is not both the group's and somebody else's.
      refine absurd hgrowth ((h.owns hd).not_mem_rest ?_)
      rw [Group.locks, hbase]
      exact List.mem_append_right _ (List.mem_singleton.mpr rfl)
  · obtain ⟨e, he⟩ := w.group.commit_error w.store hreach
    rw [he] at hc
    rw [← (Prod.mk.inj hc).2, h.release]
    exact .refl s

theorem givesBack_transaction {α : Type} {body : Transaction (Ending α)} (hbody : body.Keeps)
    (s : Store) : s.GivesBack ((transaction body).after s) := by
  have hrun := hbody s _ (.empty s)
  rw [Transaction.Ensures] at hrun
  rw [Action.after, transaction]
  cases hr : body ⟨s, .empty⟩ with
  | error e w =>
    rw [hr] at hrun
    simp only [hrun.release]
    exact .refl s
  | ok ending w =>
    rw [hr] at hrun
    cases ending with
    | abort a =>
      simp only [hrun.release]
      exact .refl s
    | commit a =>
      cases hc : w.group.commit w.store with
      | mk r s' =>
        cases r with
        | error e =>
          simp only [hc]
          exact hrun.commit hc
        | ok u =>
          simp only [hc]
          exact hrun.commit hc

theorem givesBack_editPage {α : Type} (id : PageId)
    (decision : Store → Page → Except Error (Edit α)) (s : Store) :
    s.GivesBack ((editPage id decision).after s) :=
  givesBack_transaction (keeps_editPage id decision) s

theorem givesBack_storePair (d : Draft) (m : Nat) (s : Store) :
    s.GivesBack ((storePair d m).after s) :=
  givesBack_transaction (keeps_placeAndWrite d m) s

theorem givesBack_markDeleted (l : Location) (s : Store) :
    s.GivesBack ((markDeleted l).after s) :=
  givesBack_editPage _ _ s

theorem givesBack_allocate (size : PairSize) (s : Store) :
    s.GivesBack ((transaction (Ending.abort <$> allocate size)).after s) := by
  have hkeeps : Transaction.Keeps (Ending.abort <$> allocate size) := (keeps_allocate size).map _
  exact givesBack_transaction hkeeps s

namespace Turns

variable {τ α β : Type} {R : Store → Store → Prop}

def Within (R : Store → Store → Prop) : Turns τ α → Prop
  | done _ => True
  | turn action next =>
    (∀ s own, R s (action.after s own).1) ∧ ∀ b, (next b).Within R

theorem Within.bind {x : Turns τ α} {f : α → Turns τ β} (hx : x.Within R)
    (hf : ∀ a, (f a).Within R) : (x >>= f).Within R := by
  induction x with
  | done a => exact hf a
  | turn action next ih => exact ⟨hx.1, fun b => ih b (hx.2 b)⟩

theorem within_pure (a : α) : (pure a : Turns τ α).Within R := trivial

theorem within_once {action : ActionWith τ α} (h : ∀ s own, R s (action.after s own).1) :
    (once action).Within R := ⟨h, fun _ => trivial⟩

theorem within_act {action : Action α} (h : ∀ s, R s (action.after s)) :
    (act action : Turns τ α).Within R :=
  within_once fun s own => by
    rw [ActionWith.after_act]
    exact h s

theorem Within.run (hrefl : ∀ s, R s s) (htrans : ∀ s₁ s₂ s₃, R s₁ s₂ → R s₂ s₃ → R s₁ s₃)
    {x : Turns τ α} (hx : x.Within R) : ∀ s own, R s (x.run.after s own).1 := by
  induction x with
  | done a => exact fun s own => hrefl s
  | turn action next ih =>
    intro s own
    have hturn := hx.1 s own
    rw [ActionWith.after] at hturn ⊢
    cases haction : action (s, own) with
    | ok b y =>
      rw [haction] at hturn
      rw [run_turn_ok haction]
      exact htrans _ _ _ hturn (ih b (hx.2 b) y.1 y.2)
    | error e y =>
      rw [haction] at hturn
      rw [run_turn_error haction]
      exact hturn

end Turns

section
open Turns Insertion

variable {τ : Type} {R : Store → Store → Prop} {c : Construction τ} {p : Params}
  (hR : ∀ s s' : Store, s.GivesBack s' → R s s')
include hR

theorem within_reading {α : Type} (f : Store → Except Error α) :
    (act (Action.reading f) : Turns τ α).Within R := by
  refine within_act fun s => hR s _ ?_
  have hsame : (Action.reading f).after s = s := by
    rw [Action.after, Action.reading]
    cases f s <;> rfl
  rw [hsame]
  exact .refl s

theorem linkNeighbors_within (d : Draft) : (linkNeighbors p d : Turns τ Unit).Within R := by
  have hcandidate : ∀ layer l, (linkCandidate p d layer l : Turns τ Unit).Within R := by
    intro layer l
    rw [linkCandidate]
    by_cases hown : l = d.location
    · rw [if_pos hown]
      exact within_pure ()
    · rw [if_neg hown]
      refine (within_reading hR _).bind fun found => ?_
      cases found with
      | none => exact within_pure ()
      | some c => exact within_act fun s => hR s _ (givesBack_editPage _ _ s)
  have heach : ∀ layer cs, (linkEach p d layer cs : Turns τ Unit).Within R := by
    intro layer cs
    induction cs with
    | nil => exact within_pure ()
    | cons c rest ih => exact (hcandidate layer c.location).bind fun _ => ih
  rw [linkNeighbors]
  induction d.level.toNat with
  | zero => exact heach 0 _
  | succ layer ih => exact (heach (layer + 1) _).bind fun _ => ih

theorem tryPromote_within (d : Draft) (prior : Option EntryPoint) :
    (tryPromote d prior : Turns τ _).Within R := by
  rw [tryPromote]
  by_cases hrank : outranks d prior = true
  · rw [if_pos hrank]
    refine (within_act fun s => hR s _ (givesBack_editPage _ _ s)).bind fun promotion => ?_
    cases promotion with
    | raced rival => exact within_pure _
    | installed => exact within_pure _
    | superseded => exact within_pure _
  · rw [if_neg hrank]
    exact within_pure _

theorem publish_within (d : Draft) (prior : Option EntryPoint) (cursor : Option PageId) :
    (publish p d prior cursor : Turns τ _).Within R := by
  have hrest : (linkNeighbors p d >>= fun _ => tryPromote d prior : Turns τ _).Within R :=
    (linkNeighbors_within hR d).bind fun _ => tryPromote_within hR d prior
  cases cursor with
  | none => exact hrest
  | some id =>
    exact (within_act fun s => hR s _ (givesBack_editPage _ _ s)).bind fun _ => hrest

theorem settle_within (entry : Option EntryPoint) (d : Draft) (duplicate : Option Location) :
    (settle p entry d duplicate : Turns τ _).Within R := by
  have hstore : (Insertion.store p entry d : Turns τ _).Within R :=
    (within_act fun s => hR s _ (givesBack_storePair d p.m s)).bind fun _ => within_pure _
  cases duplicate with
  | none => exact hstore
  | some l =>
    refine (within_act fun s => hR s _ (givesBack_editPage _ _ s)).bind fun joined => ?_
    cases joined with
    | true => exact within_pure _
    | false => exact hstore

theorem insertion_within
    (hsearch : ∀ q entry s own, R s ((c.search q entry).after s own).1)
    (hfind : ∀ vector lists s own, R s ((c.findDuplicate vector lists).after s own).1) (d : Draft) :
    (insertion p c d).Within R := by
  have hconsult : ∀ entry, (consult c d entry).Within R := by
    intro entry
    cases entry with
    | none => exact within_pure _
    | some entry =>
      exact (within_once (hsearch _ _)).bind fun lists =>
        (within_once (hfind _ _)).bind fun _ => within_pure _
  have hplace : (place p c d).Within R :=
    (within_reading hR _).bind fun entry => (hconsult entry).bind fun found =>
      settle_within hR entry found.1 found.2
  refine hplace.bind fun i => ?_
  cases i with
  | joined l => exact within_pure _
  | stored d prior cursor =>
    refine (publish_within hR d prior cursor).bind fun rival => ?_
    cases rival with
    | none => exact within_pure _
    | some rival =>
      refine (within_once (hsearch _ _)).bind fun fresh => ?_
      refine Turns.Within.bind ?_ fun _ => within_pure _
      refine (within_act fun s => hR s _ (givesBack_editPage _ _ s)).bind fun d => ?_
      exact (linkNeighbors_within hR d).bind fun _ =>
        (tryPromote_within hR d _).bind fun _ => within_pure _

end

end PagedGraph
