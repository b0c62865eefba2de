import PagedGraph.Proofs.Addresses
import PagedGraph.Proofs.Nearest
import PagedGraph.Proofs.Publication
import PagedGraph.Proofs.Unbroken

/-!
# What a link back to a new element replaces

A neighbor that is alive and reaches a layer takes a link back to a new element into the first unused
slot of the layer. If there is none, the link replaces the first of the farthest entries, but only if
it is shorter; an entry that is deleted or cannot be read is infinitely far (`links_back`). The slot
belongs to the layer, and of all bytes of the store only the six of that slot change (`SlotSet`).

But if one of the entries of a full segment lies beyond the bytes of its page, then the call ends when
it comes to that entry, and nothing changes (`Blocked`).

The choice is made on the segment of the layer and the write on the whole record, so the offset in the
segment has to meet the number of the slot (`Adjacency.getElem?_segment`).
-/

set_option autoImplicit false

namespace PagedGraph

/-- A fold has come upon the first entry than which none is farther, if there is any entry. -/
def FirstFarthest (ds : List FloatBits) : Option (Nat × FloatBits) → Prop
  | none => ds = []
  | some (offset, worst) => ds[offset]? = some worst ∧
      (∀ d ∈ ds, FloatBits.below worst d = false) ∧
      ∀ i d, i < offset → ds[i]? = some d → FloatBits.below d worst = true

namespace FirstFarthest

variable {ds : List FloatBits}

theorem farther {offset : Nat} {worst d : FloatBits} (h : FirstFarthest ds (some (offset, worst)))
    (hds : ∀ x ∈ ds, FloatBits.isNaN x = false) (hd : FloatBits.isNaN d = false)
    (hbelow : FloatBits.below worst d = true) :
    FirstFarthest (ds ++ [d]) (some (ds.length, d)) := by
  obtain ⟨hat, hnone, -⟩ := h
  have hworst := hds worst (List.mem_of_getElem? hat)
  rw [FloatBits.below_iff hworst hd] at hbelow
  have hall : ∀ x ∈ ds, FloatBits.signed x < FloatBits.signed d := fun x hx =>
    Int.lt_of_le_of_lt (FloatBits.signed_le_of_not_below hworst (hds x hx) (hnone x hx)) hbelow
  refine ⟨List.getElem?_concat_length, fun x hx => ?_, fun i x hi hx => ?_⟩
  · rcases List.mem_append.mp hx with hx | hx
    · rw [Bool.eq_false_iff, ne_eq, FloatBits.below_iff hd (hds x hx)]
      exact Int.lt_asymm (hall x hx)
    · rw [List.mem_singleton.mp hx]
      exact FloatBits.below_self d
  · rw [List.getElem?_append_left hi] at hx
    have hmem := List.mem_of_getElem? hx
    exact (FloatBits.below_iff (hds x hmem) hd).mpr (hall x hmem)

theorem not_farther {offset : Nat} {worst d : FloatBits}
    (h : FirstFarthest ds (some (offset, worst))) (hbelow : FloatBits.below worst d = false) :
    FirstFarthest (ds ++ [d]) (some (offset, worst)) := by
  obtain ⟨hat, hnone, hfirst⟩ := h
  have hlt := (List.getElem?_eq_some_iff.mp hat).1
  refine ⟨?_, fun x hx => ?_, fun i x hi hx => ?_⟩
  · rw [List.getElem?_append_left hlt, hat]
  · rcases List.mem_append.mp hx with hx | hx
    · exact hnone x hx
    · rwa [List.mem_singleton.mp hx]
  · rw [List.getElem?_append_left (Nat.lt_trans hi hlt)] at hx
    exact hfirst i x hi hx

theorem foldl {f : Option (Nat × FloatBits) → FloatBits × Nat → Option (Nat × FloatBits)}
    (hnone : ∀ d i, f none (d, i) = some (i, d))
    (hsome : ∀ offset worst d i, f (some (offset, worst)) (d, i) =
      if FloatBits.below worst d then some (i, d) else some (offset, worst)) (rest : List FloatBits)
    {best : Option (Nat × FloatBits)} (h : FirstFarthest ds best)
    (hnumbers : ∀ d ∈ ds ++ rest, FloatBits.isNaN d = false) :
    FirstFarthest (ds ++ rest) ((rest.zipIdx ds.length).foldl f best) := by
  induction rest generalizing ds best with
  | nil => rwa [List.append_nil]
  | cons d rest ih =>
    have hds : ∀ x ∈ ds, FloatBits.isNaN x = false :=
      fun x hx => hnumbers x (List.mem_append_left _ hx)
    have hd : FloatBits.isNaN d = false :=
      hnumbers d (List.mem_append_right _ List.mem_cons_self)
    have hstep : FirstFarthest (ds ++ [d]) (f best (d, ds.length)) := by
      cases best with
      | none =>
        obtain rfl : ds = [] := h
        rw [hnone]
        refine ⟨rfl, fun x hx => ?_, fun i x hi => absurd hi (Nat.not_lt_zero i)⟩
        rw [List.mem_singleton.mp hx]
        exact FloatBits.below_self d
      | some best =>
        obtain ⟨offset, worst⟩ := best
        rw [hsome]
        split
        · next hbelow => exact h.farther hds hd hbelow
        · next hbelow => exact h.not_farther (Bool.eq_false_iff.mpr hbelow)
    have hrest := ih hstep (by rwa [List.append_assoc])
    rwa [List.append_assoc, List.length_append] at hrest

end FirstFarthest

theorem firstFarthest_farthest {ds : List FloatBits} (h : ∀ d ∈ ds, FloatBits.isNaN d = false) :
    FirstFarthest ds (Store.farthest ds) := by
  have hstart : FirstFarthest [] none := rfl
  exact hstart.foldl (fun _ _ => rfl) (fun _ _ _ _ => rfl) ds h

namespace Adjacency

variable {a : Adjacency} {level m layer : Nat}

theorem getElem?_segment (h : layer ≤ level) {offset : Nat} (hlt : offset < layerCapacity m layer) :
    (a.segment level layer m)[offset]? = a.slots[(level - layer) * m + offset]? := by
  rw [segment_eq h, List.getElem?_take_of_lt hlt, List.getElem?_drop]

structure FirstUnused (a : Adjacency) (level m layer i : Nat) : Prop where
  inLayer : InLayer level m layer i
  unused : ∃ k, a.slots[i]? = some k ∧ k.isUsed = false
  first : ∀ j k, InLayer level m layer j → j < i → a.slots[j]? = some k → k.isUsed = true

theorem exists_unused_iff (hlen : a.slots.length = slotCount level m) (h : layer ≤ level) :
    (a.layer level layer m).length < layerCapacity m layer ↔
      ∃ k ∈ a.segment level layer m, k.isUsed = false := by
  rw [← length_segment hlen h, Adjacency.layer, List.length_filter_lt_length_iff_exists]
  simp only [Bool.not_eq_true]

theorem firstUnused_slot? (at_ : Location) (hlen : a.slots.length = slotCount level m)
    (h : layer ≤ level) (hroom : (a.layer level layer m).length < layerCapacity m layer) :
    ∃ i, Connection.slot? ⟨at_, level, .unused⟩ m layer a = some i ∧
      a.FirstUnused level m layer i := by
  have hsome : Connection.slot? ⟨at_, level, .unused⟩ m layer a ≠ none :=
    (slot?_unused h).2 hlen hroom
  obtain ⟨i, hi⟩ := Option.ne_none_iff_exists'.mp hsome
  refine ⟨i, hi, (slot?_unused h).1 i hi, ?_, fun j k hj hlt hk => ?_⟩
  · have hfound := List.find?_some hi
    cases hk : a.slots[i]? with
    | none => simp [hk] at hfound
    | some k => exact ⟨k, rfl, by simpa [hk] using hfound⟩
  · obtain ⟨-, -, hbefore⟩ := List.find?_range'_eq_some.mp hi
    have hnot := hbefore j hj.2.1 hlt
    simpa [hk] using hnot

end Adjacency

namespace LittleEndian

theorem getD_toList (bs : Bytes) (i : Nat) : bs.getD i 0 = bs.toList[i]?.getD 0 := by
  rw [Array.getD_eq_getD_getElem?, Array.getElem?_toList]

end LittleEndian

theorem Adjacency.encode_set (a : Adjacency) {i : Nat} (hi : i < a.slots.length) (l : Location) :
    ∃ pre post, pre.length = headerSize + i * Location.size ∧
      a.encode.toList = pre ++ (a.slots[i].encode ++ post) ∧
      (Adjacency.mk (a.slots.set i l)).encode.toList = pre ++ (l.encode ++ post) := by
  have hset : (a.slots.set i l).flatMap Location.encode =
      (a.slots.take i).flatMap Location.encode ++
        (l.encode ++ (a.slots.drop (i + 1)).flatMap Location.encode) := by
    rw [List.set_eq_take_append_cons_drop, if_pos hi, List.flatMap_append, List.flatMap_cons]
  have hold : a.slots.flatMap Location.encode = (a.slots.take i).flatMap Location.encode ++
      (a.slots[i].encode ++ (a.slots.drop (i + 1)).flatMap Location.encode) := by
    rw [← List.flatMap_cons, ← List.drop_eq_getElem_cons hi, ← List.flatMap_append,
      List.take_append_drop]
  refine ⟨[2, 0] ++ (LittleEndian.encode 2 (min a.slots.length 65535) ++
      (a.slots.take i).flatMap Location.encode),
    (a.slots.drop (i + 1)).flatMap Location.encode ++
      List.replicate (LittleEndian.align (headerSize + a.slots.length * Location.size) -
        (headerSize + a.slots.length * Location.size)) 0, ?_, ?_, ?_⟩
  · rw [List.length_append, List.length_append, LittleEndian.length_encode,
      LittleEndian.length_flatMap_block Location.encode Location.size Location.length_encode,
      List.length_take_of_le (Nat.le_of_lt hi), ← Nat.add_assoc]
    rfl
  · rw [toList_encode, hold]
    simp only [List.append_assoc]
  · rw [toList_encode, hset, List.length_set]
    simp only [List.append_assoc]

namespace Page

theorem write_splice {p : Page} {start : Nat} {old new y : Bytes} {pre x post : List UInt8}
    (hbytes : ∀ i < old.size, p.byte (start + i) = old.getD i 0)
    (hold : old.toList = pre ++ (x ++ post)) (hnew : new.toList = pre ++ (y.toList ++ post))
    (hsize : x.length = y.size) : p.write start new = p.write (start + pre.length) y := by
  have hy : y.toList.length = y.size := Array.length_toList
  have holdsize : old.size = pre.length + (y.size + post.length) := by
    rw [← Array.length_toList, hold, List.length_append, List.length_append, hsize]
  have hnewsize : new.size = pre.length + (y.size + post.length) := by
    rw [← Array.length_toList, hnew, List.length_append, List.length_append, hy]
  refine ext_byte _ _ fun i hi => ?_
  rw [byte_write, byte_write]
  by_cases hin : start ≤ i ∧ i < start + new.size ∧ i < pageSize
  · have hbyte := hbytes (i - start) (by omega)
    rw [Nat.add_sub_cancel' hin.1, LittleEndian.getD_toList, hold] at hbyte
    rw [if_pos hin, LittleEndian.getD_toList, hnew]
    by_cases hbefore : i - start < pre.length
    · rw [if_neg (by omega), hbyte, List.getElem?_append_left hbefore,
        List.getElem?_append_left hbefore]
    · rw [List.getElem?_append_right (by omega)] at hbyte ⊢
      by_cases hpart : i - start - pre.length < y.size
      · rw [if_pos (by omega), List.getElem?_append_left (by omega), LittleEndian.getD_toList,
          Nat.sub_sub]
      · rw [if_neg (by omega), hbyte, List.getElem?_append_right (by omega),
          List.getElem?_append_right (by omega), hsize, hy]
  · rw [if_neg hin, if_neg (by omega)]

end Page

/-- One slot of a neighbor record is set. The record differs in nothing else, and six bytes of its
page are written, which are the only ones that may have changed in the store. -/
structure Store.SlotSet (s s' : Store) (at_ : Location) (a : Adjacency) (i : Nat) (l : Location) :
    Prop where
  lt : i < a.slots.length
  record : s'.adjacency at_ = .ok ⟨a.slots.set i l⟩
  bytes : ∃ page start len, s.pages[at_.page.toNat]? = some page ∧
    page.itemId at_.slot.toNat = .ok (start, len) ∧
    s' = s.withPage at_.page (page.write (start + (Adjacency.headerSize + i * Location.size))
      (Location.append #[] l))

section
variable {t : Header} {s : Store} (h : s.Intact t)
include h

theorem writeLink_slotSet (p : Params) (target : Location) (c : Connection) (layer : Nat)
    {a : Adjacency} (ha : s.record? c.neighborsAt = some (.adjacency a)) {i : Nat}
    (hi : c.slot? p.m layer a = some i) (hlt : i < a.slots.length) :
    ∃ s', writeLink p target c layer s = .ok () s' ∧
      s.SlotSet s' c.neighborsAt a i target := by
  obtain ⟨page, rs, -, hpage, hrs, hslot⟩ := h.page_of_record c.neighborsAt _ ha
  have hread : page.adjacency c.neighborsAt = .ok a :=
    (page.adjacency_eq_ok _ a).mpr (by rw [hrs.record?_eq, hslot])
  have hitem : (rs.map Record.encode)[c.neighborsAt.slot.toNat]? = some a.encode := by
    rw [List.getElem?_map, hslot]
    rfl
  have hid := hrs.holds.itemId_eq _ _ hitem
  have hsize : a.encode.size = (Adjacency.mk (a.slots.set i target)).encode.size := by
    rw [Adjacency.size_encode, Adjacency.size_encode, List.length_set]
  obtain ⟨pre, post, hpre, hold, hnew⟩ := a.encode_set hlt target
  have hsplice := Page.write_splice (y := Location.append #[] target)
    (hrs.holds.entry _ _ hitem).bytes hold (by rw [hnew, Location.toList_append]; rfl) (by
      rw [Location.length_encode, ← Array.length_toList, Location.toList_append]
      exact (Location.length_encode target).symm)
  rw [hpre] at hsplice
  generalize Page.startOf (rs.map Record.encode) c.neighborsAt.slot.toNat = start at hid hsplice
  generalize hq : page.write (start + (Adjacency.headerSize + i * Location.size))
    (Location.append #[] target) = q at hsplice
  have hwrite : page.overwriteItem c.neighborsAt.slot.toNat
      (Adjacency.mk (a.slots.set i target)).encode = .ok q := by
    rw [Page.overwriteItem, hid]
    exact (if_pos hsize).trans (congrArg Except.ok hsplice)
  have hrun : writeLink p target c layer s = .ok () (s.withPage c.neighborsAt.page q) := by
    rw [writeLink, editPage_intact h _ _ page hpage, hread]
    simp [bind, Except.bind, hi, hlt, hwrite, pure, Except.pure]
  refine ⟨_, hrun, hlt, ?_, page, start, _, hpage, hid, by rw [hq]⟩
  rcases writeLink_rewritten h p target c layer a ha with
    ⟨-, hout⟩ | ⟨j, s', hj, -, hrun', -, hrew⟩
  · exact absurd hlt (Nat.not_lt.mpr (hout i hi))
  · obtain rfl := Option.some.inj (hi.symm.trans hj)
    obtain rfl := (EStateM.Result.ok.inj (hrun.symm.trans hrun')).2
    rw [Store.adjacency_eq_ok, hrew.record]
    exact putRecord_self _ _ _

end

/-- A neighbor takes a link in a layer if it is alive, reaches the layer and does not have the link. -/
structure Eligible (e : Element) (a : Adjacency) (m layer : Nat) (new : Location) : Prop where
  alive : e.deleted = false
  reaches : layer ≤ e.level.toNat
  unlinked : new ∉ a.segment e.level.toNat layer m

/-- A link would have to replace an entry, and one of the entries lies beyond the bytes of its page. -/
structure Blocked (e : Element) (a : Adjacency) (m layer : Nat) (new : Location) : Prop extends
    Eligible e a m layer new where
  used : ∀ k ∈ a.segment e.level.toNat layer m, k.isUsed = true
  beyond : ∃ k ∈ a.segment e.level.toNat layer m, k.Beyond

structure Store.WorstSlot (s : Store) (p : Params) (e : Element) (a : Adjacency) (layer w : Nat)
    (far : FloatBits) : Prop where
  inLayer : InLayer e.level.toNat p.m layer w
  entry : ∃ k, a.slots[w]? = some k ∧ s.knownDistance p.metric e.vector k = far
  none_farther : ∀ i k, InLayer e.level.toNat p.m layer i → a.slots[i]? = some k →
    FloatBits.below far (s.knownDistance p.metric e.vector k) = false
  first : ∀ i k, InLayer e.level.toNat p.m layer i → i < w → a.slots[i]? = some k →
    FloatBits.below (s.knownDistance p.metric e.vector k) far = true

section
variable {s : Store} {p : Params} {d : Draft} {l : Location} {layer : Nat} {e : Element}
  {a : Adjacency}

theorem worstSlot_of_farthest (hlen : a.slots.length = Adjacency.slotCount e.level.toNat p.m)
    (hlayer : layer ≤ e.level.toNat) {offset : Nat} {far : FloatBits}
    (h : FirstFarthest ((a.segment e.level.toNat layer p.m).map
      (s.knownDistance p.metric e.vector)) (some (offset, far))) :
    s.WorstSlot p e a layer ((e.level.toNat - layer) * p.m + offset) far := by
  obtain ⟨hat, hnone, hfirst⟩ := h
  have hlength := Adjacency.length_segment hlen hlayer
  have hlt := (List.getElem?_eq_some_iff.mp hat).1
  rw [List.length_map, hlength] at hlt
  rw [List.getElem?_map, Adjacency.getElem?_segment hlayer hlt, Option.map_eq_some_iff] at hat
  have hget : ∀ i k, InLayer e.level.toNat p.m layer i → a.slots[i]? = some k →
      ((a.segment e.level.toNat layer p.m).map (s.knownDistance p.metric e.vector))[
        i - (e.level.toNat - layer) * p.m]? = some (s.knownDistance p.metric e.vector k) := by
    intro i k hi hk
    have hoffset : i - (e.level.toNat - layer) * p.m < layerCapacity p.m layer := by
      have := hi.2
      omega
    rw [List.getElem?_map, Adjacency.getElem?_segment hlayer hoffset, Nat.add_sub_cancel' hi.2.1,
      hk]
    rfl
  refine ⟨⟨hlayer, Nat.le_add_right _ _, Nat.add_lt_add_left hlt _⟩, hat, fun i k hi hk => ?_,
    fun i k hi hw hk => ?_⟩
  · exact hnone _ (List.mem_of_getElem? (hget i k hi hk))
  · exact hfirst _ _ (by have := hi.2.1; omega) (hget i k hi hk)

variable (he : s.record? l = some (.element e))
  (ha : s.record? e.neighborsAt = some (.adjacency a))
include he ha

theorem connection?_refused (h : ¬Eligible e a p.m layer d.location) :
    s.connection? p d l layer = .ok none := by
  simp only [Store.connection?, (s.element_eq_ok l e).mpr he, (s.adjacency_eq_ok _ a).mpr ha]
  by_cases hno : e.deleted = true ∨ e.level.toNat < layer
  · exact if_pos hno
  · rw [not_or, Bool.not_eq_true, Nat.not_lt] at hno
    rw [if_neg (by simp [hno])]
    exact if_pos (.inr (Decidable.not_not.mp fun hnew => h ⟨hno.1, hno.2, hnew⟩))

variable (hlen : a.slots.length = Adjacency.slotCount e.level.toNat p.m)
  (h : Eligible e a p.m layer d.location)
include hlen h

theorem connection?_eligible : s.connection? p d l layer =
    if (a.layer e.level.toNat layer p.m).length < layerCapacity p.m layer then
      .ok (some ⟨e.neighborsAt, e.level.toNat, .unused⟩)
    else match (a.segment e.level.toNat layer p.m).mapM (s.entryDistance p.metric e.vector) with
      | .error c => .error c
      | .ok distances => match Store.farthest distances with
        | none => .ok none
        | some (offset, worst) =>
          if FloatBits.below (p.metric.distance e.vector d.vector) worst then
            .ok (some ⟨e.neighborsAt, e.level.toNat, .at offset⟩)
          else .ok none := by
  simp only [Store.connection?, (s.element_eq_ok l e).mpr he, (s.adjacency_eq_ok _ a).mpr ha]
  have hlength := Adjacency.length_segment hlen h.reaches
  have hcapacity : p.capacity layer = layerCapacity p.m layer := rfl
  rw [if_neg (by simp [h.alive, h.reaches]), if_neg (by simp [h.unlinked, hlength, hcapacity])]
  rfl

theorem connection?_full (hused : ∀ k ∈ a.segment e.level.toNat layer p.m, k.isUsed = true) :
    s.connection? p d l layer =
      match (a.segment e.level.toNat layer p.m).mapM (s.entryDistance p.metric e.vector) with
      | .error c => .error c
      | .ok distances => match Store.farthest distances with
        | none => .ok none
        | some (offset, worst) =>
          if FloatBits.below (p.metric.distance e.vector d.vector) worst then
            .ok (some ⟨e.neighborsAt, e.level.toNat, .at offset⟩)
          else .ok none := by
  have hnone : ¬∃ k ∈ a.segment e.level.toNat layer p.m, k.isUsed = false := by
    rintro ⟨k, hk, hno⟩
    rw [hused k hk] at hno
    cases hno
  rw [connection?_eligible he ha hlen h,
    if_neg (mt (Adjacency.exists_unused_iff hlen h.reaches).mp hnone)]

end

/-- A link back to a stored draft: the neighbor is looked at, and then the link is written. -/
def linkBack (p : Params) (d : Draft) (candidate : Location) (layer : Nat) : Action Unit := do
  match ← Action.reading fun s => s.connection? p d candidate layer with
  | none => return
  | some c => writeLink p d.location c layer

section
variable {s : Store} {p : Params} {d : Draft} {candidate : Location} {layer : Nat}

theorem reading_connection {r : Option Connection}
    (h : s.connection? p d candidate layer = .ok r) :
    Action.reading (fun s => s.connection? p d candidate layer) s = .ok r s := by
  rw [Action.reading, h]

theorem linkBack_none (h : s.connection? p d candidate layer = .ok none) :
    linkBack p d candidate layer s = .ok () s := by
  rw [linkBack]
  simp [bind, EStateM.bind, reading_connection h, pure, EStateM.pure]

theorem linkBack_error {c : Error} (h : s.connection? p d candidate layer = .error c) :
    linkBack p d candidate layer s = .error c s := by
  rw [linkBack]
  simp [bind, EStateM.bind, Action.reading, h]

theorem linkBack_some {c : Connection} (h : s.connection? p d candidate layer = .ok (some c)) :
    linkBack p d candidate layer s = writeLink p d.location c layer s := by
  rw [linkBack]
  simp [bind, EStateM.bind, reading_connection h]

/-- What a writer does with a candidate if nobody else takes a turn in between. -/
theorem linkCandidate_linkBack {τ : Type} (own : τ) (hne : candidate ≠ d.location) :
    (linkCandidate p d layer candidate).run (s, own) =
      ActionWith.act (linkBack p d candidate layer) (s, own) := by
  rw [linkCandidate, if_neg hne, ActionWith.act]
  cases hc : s.connection? p d candidate layer with
  | error e =>
    have hread : Action.reading (fun s => s.connection? p d candidate layer) s = .error e s := by
      rw [Action.reading, hc]
    rw [Turns.run_bind_error (Turns.run_act_error hread own), linkBack]
    simp [bind, EStateM.bind, hread]
  | ok r =>
    rw [Turns.run_bind_ok (Turns.run_act_ok (reading_connection hc) own)]
    cases r with
    | none =>
      rw [linkBack_none hc]
      rfl
    | some c =>
      rw [linkBack_some hc]
      cases hw : writeLink p d.location c layer s with
      | ok a s' => exact Turns.run_act_ok hw own
      | error e s' => exact Turns.run_act_error hw own

end

section
variable {t : Header} {s : Store} (h : s.Intact t) {p : Params} {d : Draft} {layer : Nat}
  {l : Location} {e : Element} {a : Adjacency} (he : s.record? l = some (.element e))
  (ha : s.record? e.neighborsAt = some (.adjacency a))
  (hlen : a.slots.length = Adjacency.slotCount e.level.toNat p.m)
  (hel : Eligible e a p.m layer d.location)
include h he ha hlen hel

theorem linkBack_room (hroom : ∃ k ∈ a.segment e.level.toNat layer p.m, k.isUsed = false) :
    ∃ i s', a.FirstUnused e.level.toNat p.m layer i ∧ linkBack p d l layer s = .ok () s' ∧
      s.SlotSet s' e.neighborsAt a i d.location := by
  have hless := (Adjacency.exists_unused_iff hlen hel.reaches).mpr hroom
  have hconnection := connection?_eligible he ha hlen hel
  rw [if_pos hless] at hconnection
  obtain ⟨i, hi, hfirst⟩ :=
    Adjacency.firstUnused_slot? e.neighborsAt hlen hel.reaches hless
  obtain ⟨s', hwrite, hset⟩ := writeLink_slotSet h p d.location
    ⟨e.neighborsAt, e.level.toNat, .unused⟩ layer ha hi (by rw [hlen]; exact hfirst.inLayer.lt)
  exact ⟨i, s', hfirst, (linkBack_some hconnection).trans hwrite, hset⟩

section
variable (hused : ∀ k ∈ a.segment e.level.toNat layer p.m, k.isUsed = true)
include hused

theorem linkBack_blocked (hbeyond : ∃ k ∈ a.segment e.level.toNat layer p.m, k.Beyond) :
    linkBack p d l layer s = .error .outsidePage s := by
  apply linkBack_error
  rcases s.mapM_entryDistance p.metric e.vector (a.segment e.level.toNat layer p.m) with
    ⟨-, hread⟩ | ⟨hinside, -⟩
  · rw [connection?_full he ha hlen hel hused, hread]
  · obtain ⟨k, hk, hout⟩ := hbeyond
    exact absurd ((h.element_outside k).mpr hout) (hinside k hk)

variable (hinside : ∀ k ∈ a.segment e.level.toNat layer p.m, ¬k.Beyond)
include hinside

theorem connection?_farthest : s.connection? p d l layer =
    match Store.farthest ((a.segment e.level.toNat layer p.m).map
      (s.knownDistance p.metric e.vector)) with
    | none => .ok none
    | some (offset, worst) =>
      if FloatBits.below (p.metric.distance e.vector d.vector) worst then
        .ok (some ⟨e.neighborsAt, e.level.toNat, .at offset⟩)
      else .ok none := by
  rcases s.mapM_entryDistance p.metric e.vector (a.segment e.level.toNat layer p.m) with
    ⟨⟨k, hk, hover⟩, -⟩ | ⟨-, hread⟩
  · exact absurd ((h.element_outside k).mp hover) (hinside k hk)
  · rw [connection?_full he ha hlen hel hused, hread]

theorem linkBack_farthest {offset : Nat} {far : FloatBits}
    (hworst : Store.farthest ((a.segment e.level.toNat layer p.m).map
      (s.knownDistance p.metric e.vector)) = some (offset, far)) :
    ∃ s', linkBack p d l layer s = .ok () s' ∧
      if FloatBits.below (p.metric.distance e.vector d.vector) far then
        s.SlotSet s' e.neighborsAt a ((e.level.toNat - layer) * p.m + offset) d.location
      else s' = s := by
  have hconnection := connection?_farthest h he ha hlen hel hused hinside
  rw [hworst] at hconnection
  simp only at hconnection
  by_cases hbelow : FloatBits.below (p.metric.distance e.vector d.vector) far = true
  · rw [if_pos hbelow] at hconnection
    have hoffset := farthest_lt hworst
    rw [List.length_map, Adjacency.length_segment hlen hel.reaches] at hoffset
    have hin : InLayer e.level.toNat p.m layer ((e.level.toNat - layer) * p.m + offset) :=
      ⟨hel.reaches, Nat.le_add_right _ _, Nat.add_lt_add_left hoffset _⟩
    obtain ⟨s', hwrite, hset⟩ := writeLink_slotSet h p d.location
      ⟨e.neighborsAt, e.level.toNat, .at offset⟩ layer ha rfl (by rw [hlen]; exact hin.lt)
    refine ⟨s', (linkBack_some hconnection).trans hwrite, ?_⟩
    rwa [if_pos hbelow]
  · rw [if_neg hbelow] at hconnection
    refine ⟨s, linkBack_none hconnection, ?_⟩
    rw [if_neg hbelow]

theorem linkBack_full (hpos : 0 < p.m) :
    ∃ s', linkBack p d l layer s = .ok () s' ∧
      ((∀ k ∈ a.segment e.level.toNat layer p.m,
          FloatBits.isNaN (s.knownDistance p.metric e.vector k) = false) →
        ∃ w far, s.WorstSlot p e a layer w far ∧
          if FloatBits.below (p.metric.distance e.vector d.vector) far then
            s.SlotSet s' e.neighborsAt a w d.location
          else s' = s) := by
  have hfirst : (∀ k ∈ a.segment e.level.toNat layer p.m,
      FloatBits.isNaN (s.knownDistance p.metric e.vector k) = false) → FirstFarthest _ _ :=
    fun hnumbers => firstFarthest_farthest (List.forall_mem_map.mpr hnumbers)
  cases hworst : Store.farthest ((a.segment e.level.toNat layer p.m).map
      (s.knownDistance p.metric e.vector)) with
  | none =>
    have hnone := connection?_farthest (d := d) h he ha hlen hel hused hinside
    rw [hworst] at hnone hfirst
    refine ⟨s, linkBack_none hnone, fun hnumbers => ?_⟩
    have hempty : a.segment e.level.toNat layer p.m = [] :=
      List.map_eq_nil_iff.mp (hfirst hnumbers)
    have hlength := Adjacency.length_segment hlen hel.reaches
    rw [hempty] at hlength
    exact absurd hlength (Nat.ne_of_lt (layerCapacity_pos hpos layer))
  | some worst =>
    rw [hworst] at hfirst
    obtain ⟨s', hrun, hset⟩ := linkBack_farthest h he ha hlen hel hused hinside hworst
    exact ⟨s', hrun, fun hnumbers =>
      ⟨_, worst.2, worstSlot_of_farthest hlen hel.reaches (hfirst hnumbers), hset⟩⟩

end

end

structure LinksBack (p : Params) (d : Draft) (layer : Nat) (e : Element) (a : Adjacency)
    (s s' : Store) : Prop where
  refused : ¬Eligible e a p.m layer d.location → s' = s
  room : Eligible e a p.m layer d.location →
    (∃ k ∈ a.segment e.level.toNat layer p.m, k.isUsed = false) →
    ∃ i, a.FirstUnused e.level.toNat p.m layer i ∧ s.SlotSet s' e.neighborsAt a i d.location
  full : Eligible e a p.m layer d.location →
    (¬∃ k ∈ a.segment e.level.toNat layer p.m, k.isUsed = false) →
    (∀ k ∈ a.segment e.level.toNat layer p.m,
      FloatBits.isNaN (s.knownDistance p.metric e.vector k) = false) →
    ∃ w far, s.WorstSlot p e a layer w far ∧
      if FloatBits.below (p.metric.distance e.vector d.vector) far then
        s.SlotSet s' e.neighborsAt a w d.location
      else s' = s

theorem linkBack_linksBack {t : Header} {s : Store} (h : s.Intact t) {p : Params}
    (hm : p.m = t.m.toNat) (hpos : 0 < p.m) (d : Draft) (layer : Nat) {l : Location} {e : Element}
    (he : s.record? l = some (.element e)) : ∃ a, s.record? e.neighborsAt = some (.adjacency a) ∧
      (Blocked e a p.m layer d.location ∧ linkBack p d l layer s = .error .outsidePage s ∨
        ¬Blocked e a p.m layer d.location ∧
          ∃ s', linkBack p d l layer s = .ok () s' ∧ LinksBack p d layer e a s s') := by
  obtain ⟨a, ha, hlen⟩ := h.paired.resolves l e he
  rw [← hm] at hlen
  refine ⟨a, ha, ?_⟩
  by_cases hel : Eligible e a p.m layer d.location
  · by_cases hroom : ∃ k ∈ a.segment e.level.toNat layer p.m, k.isUsed = false
    · obtain ⟨i, s', hfirst, hrun, hset⟩ := linkBack_room h he ha hlen hel hroom
      refine .inr ⟨fun hno => ?_, s', hrun, fun hno => absurd hel hno, fun _ _ => ⟨i, hfirst, hset⟩,
        fun _ hused => absurd hroom hused⟩
      obtain ⟨k, hk, hfree⟩ := hroom
      rw [hno.used k hk] at hfree
      cases hfree
    · have hused : ∀ k ∈ a.segment e.level.toNat layer p.m, k.isUsed = true :=
        fun k hk => Bool.not_eq_false _ ▸ fun hfree => hroom ⟨k, hk, hfree⟩
      by_cases hbeyond : ∃ k ∈ a.segment e.level.toNat layer p.m, k.Beyond
      · exact .inl ⟨⟨hel, hused, hbeyond⟩, linkBack_blocked h he ha hlen hel hused hbeyond⟩
      · obtain ⟨s', hrun, hfull⟩ := linkBack_full h he ha hlen hel hused
          (fun k hk hout => hbeyond ⟨k, hk, hout⟩) hpos
        exact .inr ⟨fun hno => hbeyond hno.beyond, s', hrun, fun hno => absurd hel hno,
          fun _ hfree => absurd hfree hroom, fun _ _ => hfull⟩
  · exact .inr ⟨fun hno => hel hno.toEligible, s,
      linkBack_none (connection?_refused he ha hel), fun _ => rfl,
      fun hyes => absurd hyes hel, fun hyes => absurd hyes hel⟩

/-- Whatever several writers have done with an index that was opened empty: a link back to a draft
goes to the slot of an element's record where it belongs, or nothing changes, because it does not
belong there or because an entry that would have to be compared lies beyond its page. An insertion
that takes these two turns one after the other does the same. -/
theorem links_back {path : String} {dimensions : UInt32} {o : Options} {file file' : FileState}
    {ix : Index} {s₀ : Store} (hblank : file.isBlank = true)
    (hopen : Index.openFile path dimensions o file = (.ok (ix, s₀), file')) {s : Store}
    {ws : List Writer} (hreach : Reaches ix.params ix.dimensions s₀ ⟨s, ws⟩) (d : Draft)
    (layer : Nat) {l : Location} {e : Element} (he : s.element l = .ok e) :
    ∃ a, s.adjacency e.neighborsAt = .ok a ∧
      (Blocked e a ix.params.m layer d.location →
        linkBack ix.params d l layer s = .error .outsidePage s) ∧
      (¬Blocked e a ix.params.m layer d.location →
        ∃ s', linkBack ix.params d l layer s = .ok () s' ∧ LinksBack ix.params d layer e a s s') ∧
      ∀ (τ : Type) (own : τ), l ≠ d.location → (linkCandidate ix.params d layer l).run (s, own) =
        ActionWith.act (linkBack ix.params d l layer) (s, own) := by
  obtain ⟨hopened, -⟩ := Index.opened_of_blank hblank hopen
  rw [hopened.width] at hreach
  have hintact := (hreach.sound hopened.m_eq hopened.intact).intact
  obtain ⟨a, ha, hcases⟩ := linkBack_linksBack hintact hopened.m_eq hopened.m_pos d layer
    ((s.element_eq_ok l e).mp he)
  refine ⟨a, (s.adjacency_eq_ok _ a).mpr ha, fun hblocked => ?_, fun hclear => ?_,
    fun τ own hne => linkCandidate_linkBack own hne⟩
  · exact (hcases.resolve_right fun hno => hno.1 hblocked).2
  · exact (hcases.resolve_left fun hno => hclear hno.1).2

def Construction.given (lists : List (List Candidate)) : Construction Unit where
  search _ _ := ActionWith.act (Action.reading fun _ => .ok lists)
  findDuplicate _ _ := ActionWith.act (Action.reading fun _ => .ok none)

theorem Reaches.place_given {p : Params} {width : Nat} {s₀ s s₁ : Store} {ws : List Writer}
    {d : Draft} {st : Stored} (lists : List (List Candidate)) (past : Reaches p width s₀ ⟨s, ws⟩)
    (wide : d.vector.length = width) (hn : s.Numbered) {x : EntryPoint} (hentry : s.entry = some x)
    (hstore : storePair { d with neighbors := lists } p.m s = .ok st s₁) (hn₁ : s₁.Numbered) :
    ∃ w, Reaches p width s₀ ⟨s₁, w :: ws⟩ := by
  have hread : Action.reading (fun s => .ok s.entry) s = .ok (some x) s := by
    rw [Action.reading, hentry]
  have hplace : (Insertion.place p (.given lists) d).Completes (s, ()) (.stored { d with
      neighbors := lists, location := st.location, neighborsAt := st.neighborsAt } (some x)
        st.cursor) (s₁, ()) := by
    apply Turns.Completes.bind (Turns.Completes.act hread hn ())
    apply Turns.Completes.bind (a := ({ d with neighbors := lists }, none))
    · exact .turn rfl hn (.turn rfl hn (.done _ _))
    · exact Turns.Completes.bind (Turns.Completes.act hstore hn₁ ()) (.done _ _)
  refine ⟨_, Reaches.through hplace (.enter () (.given lists) d past wide ?_ ?_)⟩
  · exact fun _ _ s own _ => .reading (fun _ => .ok lists) s own
  · exact fun _ _ s own _ => .reading (fun _ => .ok none) s own

namespace Index

/-- Candidates for an element that fill its two upper layers with places that cannot be read. -/
def unreadable : List (List Candidate) :=
  [[], List.replicate 16 ⟨⟨9, 9⟩, 0⟩, List.replicate 16 ⟨⟨0, 5000⟩, 0⟩]

theorem unreadable_reached : ∃ s ws,
    Reaches wide.params wide.dimensions (Store.fresh (template 900 Options.standard)) ⟨s, ws⟩ ∧
    s.element ⟨1, 2⟩ = .ok second ∧ s.found? ⟨9, 9⟩ = none ∧ s.adjacency ⟨1, 3⟩ =
      .ok ({ Draft.new 2 (plain 1) 8 with neighbors := unreadable }.adjacency 16) := by
  obtain ⟨s, hfirst, -, hreach⟩ := first_reached
  obtain ⟨s₁, hstore, hsize⟩ := hfirst.room { Draft.new 2 (plain 1) 8 with neighbors := unreadable }
    (length_plain 1) rfl
  have hn₁ : s₁.Numbered := numbered_two (hsize.trans hfirst.size)
  obtain ⟨w, hplaced⟩ := hreach.place_given unreadable (d := Draft.new 2 (plain 1) 8) (length_plain 1)
    (numbered_two hfirst.size) hfirst.entry hstore hn₁
  have hpair := storePair_placed hfirst.settled.intact _ (length_plain 1) hstore hn₁
  refine ⟨s₁, _, hplaced, (s₁.element_eq_ok _ _).mpr hpair.element, ?_,
    (s₁.adjacency_eq_ok _ _).mpr hpair.adjacency⟩
  rw [Store.found?]
  cases hread : s₁.element ⟨9, 9⟩ with
  | error e => rfl
  | ok e =>
    obtain ⟨p, -, -, hp, -⟩ := hpair.intact.page_of_record _ _ ((s₁.element_eq_ok _ e).mp hread)
    have hlt : 9 < s₁.pages.size := (Array.getElem?_eq_some_iff.mp hp).1
    rw [hsize, hfirst.size] at hlt
    exact absurd hlt (by decide)

/-- The lowest layer of that element has room, the entries of the next one are infinitely far, and
those of the top layer lie beyond their page. -/
def partly : Adjacency :=
  ⟨List.replicate 16 ⟨0, 5000⟩ ++ (List.replicate 16 ⟨9, 9⟩ ++ List.replicate 32 .unused)⟩

theorem adjacency_unreadable :
    { Draft.new 2 (plain 1) 8 with neighbors := unreadable }.adjacency 16 = partly := by
  decide

section
variable {s s' : Store} {d : Draft} (hd : d.location = ⟨1, 0⟩)
include hd

theorem eligible_partly {layer : Nat} (hlayer : layer ≤ 2) :
    Eligible second partly 16 layer d.location := by
  refine ⟨rfl, hlayer, ?_⟩
  rw [hd]
  have hnew : ∀ layer ≤ 2, ⟨1, 0⟩ ∉ partly.segment 2 layer 16 := by decide
  exact hnew layer hlayer

theorem partly_room (h : LinksBack wide.params d 0 second partly s s') :
    s.SlotSet s' ⟨1, 3⟩ partly 32 ⟨1, 0⟩ := by
  have hfree : ∃ k ∈ partly.segment 2 0 16, k.isUsed = false := by decide
  obtain ⟨i, hfirst, hset⟩ := h.room (eligible_partly hd (by decide)) hfree
  have hstart : 32 ≤ i := hfirst.inLayer.2.1
  rw [hd] at hset
  rcases Nat.eq_or_lt_of_le hstart with rfl | hlt
  · exact hset
  · have hused := hfirst.first 32 .unused ⟨by decide, by decide, by decide⟩ hlt rfl
    cases hused

theorem partly_full (hvector : d.vector = plain 0) (hfound : s.found? ⟨9, 9⟩ = none)
    (h : LinksBack wide.params d 1 second partly s s') :
    s.SlotSet s' ⟨1, 3⟩ partly 16 ⟨1, 0⟩ := by
  have hsegment : partly.segment 2 1 16 = List.replicate 16 ⟨9, 9⟩ := by decide
  have hslots : ∀ i < 32, 16 ≤ i → partly.slots[i]? = some ⟨9, 9⟩ := by decide
  have hfar : s.knownDistance wide.params.metric second.vector ⟨9, 9⟩ = FloatBits.infinity := by
    rw [Store.knownDistance, hfound]
  have hused : ¬∃ k ∈ partly.segment 2 1 16, k.isUsed = false := by decide
  have hnumbers : ∀ k ∈ partly.segment 2 1 16,
      FloatBits.isNaN (s.knownDistance wide.params.metric second.vector k) = false := by
    intro k hk
    rw [hsegment] at hk
    rw [List.eq_of_mem_replicate hk, hfar]
    rfl
  obtain ⟨w, far, hworst, hset⟩ := h.full (eligible_partly hd (by decide)) hused hnumbers
  obtain ⟨hstart, hstop⟩ : 16 ≤ w ∧ w < 32 := ⟨hworst.inLayer.2.1, hworst.inLayer.2.2⟩
  obtain ⟨k, hk, rfl⟩ := hworst.entry
  obtain rfl : ⟨9, 9⟩ = k := Option.some.inj ((hslots w hstop hstart).symm.trans hk)
  have hnear : FloatBits.below (wide.params.metric.distance second.vector d.vector)
      FloatBits.infinity = true := by
    rw [hvector]
    exact (congrArg (FloatBits.below · _) (euclidean_plain (by decide) (by decide))).trans rfl
  rw [hfar, if_pos hnear, hd] at hset
  rcases Nat.eq_or_lt_of_le hstart with rfl | hlt
  · exact hset
  · have hbelow := hworst.first 16 ⟨9, 9⟩ ⟨by decide, by decide, by decide⟩ hlt rfl
    rw [hfar] at hbelow
    cases hbelow

end

/-- Links to the first element go to an unused slot, to the first of the farthest entries, and
nowhere. -/
theorem links_back_wide : ∃ s ws a,
    Reaches wide.params wide.dimensions (Store.fresh (template 900 Options.standard)) ⟨s, ws⟩ ∧
    s.element ⟨1, 2⟩ = .ok second ∧ s.adjacency ⟨1, 3⟩ = .ok a ∧ ∃ d : Draft, d.location = ⟨1, 0⟩ ∧
    (∃ s', linkBack wide.params d ⟨1, 2⟩ 0 s = .ok () s' ∧ s.SlotSet s' ⟨1, 3⟩ a 32 ⟨1, 0⟩) ∧
    (∃ s', linkBack wide.params d ⟨1, 2⟩ 1 s = .ok () s' ∧ s.SlotSet s' ⟨1, 3⟩ a 16 ⟨1, 0⟩) ∧
    linkBack wide.params d ⟨1, 2⟩ 2 s = .error .outsidePage s := by
  obtain ⟨s, ws, hreach, hsecond, hfound, hread⟩ := unreadable_reached
  rw [adjacency_unreadable] at hread
  have hblank : FileState.absent.isBlank = true := rfl
  have hd : { Draft.new 1 (plain 0) 7 with location := ⟨1, 0⟩ }.location = ⟨1, 0⟩ := rfl
  have hvector : { Draft.new 1 (plain 0) 7 with location := ⟨1, 0⟩ }.vector = plain 0 := rfl
  generalize { Draft.new 1 (plain 0) 7 with location := ⟨1, 0⟩ } = d at hd hvector
  have hlinks : ∀ layer, (Blocked second partly 16 layer d.location →
      linkBack wide.params d ⟨1, 2⟩ layer s = .error .outsidePage s) ∧
      (¬Blocked second partly 16 layer d.location → ∃ s',
        linkBack wide.params d ⟨1, 2⟩ layer s = .ok () s' ∧
          LinksBack wide.params d layer second partly s s') := by
    intro layer
    obtain ⟨a, ha, hblocked, hfree, -⟩ := links_back hblank
      (openFile_blank checkOptions_wide "index" .absent hblank) hreach d layer hsecond
    obtain rfl := Except.ok.inj (hread.symm.trans ha)
    exact ⟨hblocked, hfree⟩
  refine ⟨s, ws, partly, hreach, hsecond, hread, d, hd, ?_, ?_, ?_⟩
  · obtain ⟨s', hrun, hlinked⟩ := (hlinks 0).2 fun hno => absurd hno.used (by decide)
    exact ⟨s', hrun, partly_room hd hlinked⟩
  · obtain ⟨s', hrun, hlinked⟩ := (hlinks 1).2 fun hno => by
      obtain ⟨k, hk, hout, -⟩ := hno.beyond
      have hinside : ∀ k ∈ partly.segment 2 1 16, k.page ≠ metaPage := by decide
      exact hinside k hk hout
    exact ⟨s', hrun, partly_full hd hvector hfound hlinked⟩
  · refine (hlinks 2).1 ⟨eligible_partly hd (by decide), ?_, ⟨0, 5000⟩, ?_, ?_⟩
    · have hused : ∀ k ∈ partly.segment 2 2 16, k.isUsed = true := by decide
      exact hused
    · have hmem : ⟨0, 5000⟩ ∈ partly.segment 2 2 16 := by decide
      exact hmem
    · exact ⟨rfl, by decide, by decide⟩

end Index

end PagedGraph
