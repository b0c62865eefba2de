import PagedGraph.Proofs.Intact
import PagedGraph.Proofs.Transactions

/-!
# Growth of the page chain

A page is only ever appended behind the last page of the chain. The chain stays in the order of
page numbers, and since the new page is empty, no record appears or disappears.
-/

set_option autoImplicit false

namespace PagedGraph

namespace Page

theorem next_setNext (p : Page) (id : PageId) : (p.setNext id).next = id := by
  rw [next, setNext, word_setWord _ _ _ _ (by decide) id.toNat_lt]
  simp

end Page

namespace Store

variable {t : Header} {s : Store}

def extend (s : Store) (id : PageId) (p : Page) : Store :=
  s.withFresh.withPage id (p.setNext (UInt32.ofNat s.pages.size))

theorem size_extend (s : Store) (id : PageId) (p : Page) :
    (s.extend id p).pages.size = s.pages.size + 1 := by
  rw [extend, size_withPage, size_withFresh]

theorem getElem?_extend (s : Store) (id : PageId) (p : Page) (i : Nat)
    (hp : s.pages[id.toNat]? = some p) :
    (s.extend id p).pages[i]? =
      if i = id.toNat then some (p.setNext (UInt32.ofNat s.pages.size))
      else if i = s.pages.size then some Page.empty else s.pages[i]? := by
  have hlt : id.toNat < s.pages.size := (Array.getElem?_eq_some_iff.mp hp).1
  have hfresh : s.withFresh.pages[id.toNat]? = some p := by
    rw [getElem?_withFresh, if_neg (Nat.ne_of_lt hlt), hp]
  rw [extend, getElem?_withPage _ _ _ _ _ hfresh, getElem?_withFresh]

namespace Filled

variable {width : Nat} (h : s.Filled width) (id : PageId) (p : Page) (hid : 0 < id.toNat)
  (hp : s.pages[id.toNat]? = some p)
include h hid hp

theorem extend : (s.extend id p).Filled width := by
  obtain ⟨rs, hrs⟩ := h id.toNat p hid hp
  intro i q hi hq
  rw [getElem?_extend s id p i hp] at hq
  by_cases hii : i = id.toNat
  · rw [if_pos hii] at hq
    obtain rfl := Option.some.inj hq
    exact ⟨rs, hrs.setNext _⟩
  · rw [if_neg hii] at hq
    by_cases hnew : i = s.pages.size
    · rw [if_pos hnew] at hq
      obtain rfl := Option.some.inj hq
      exact ⟨[], Page.carries_empty _⟩
    · rw [if_neg hnew] at hq
      exact h i q hi hq

theorem record?_extend : (s.extend id p).record? = s.record? := by
  obtain ⟨rs, hrs⟩ := h id.toNat p hid hp
  funext l
  rw [record?, record?, getElem?_extend s id p _ hp]
  by_cases hl : l.page.toNat = id.toNat
  · rw [if_pos hl, hl, hp]
    show (p.setNext _).record? _ = p.record? _
    rw [(hrs.setNext _).record?_eq, hrs.record?_eq]
  · rw [if_neg hl]
    by_cases hnew : l.page.toNat = s.pages.size
    · rw [if_pos hnew, hnew, Array.getElem?_eq_none (Nat.le_refl _)]
      show Page.empty.record? _ = none
      rw [(Page.carries_empty 0).record?_eq]
      rfl
    · rw [if_neg hnew]

end Filled

namespace Formed

theorem last_of_next (h : s.Formed t) (i : Nat) (p : Page) (hi : 0 < i)
    (hp : s.pages[i]? = some p) (hnext : p.next = noPage) : i + 1 = s.pages.size := by
  have hlt : i < s.pages.size := (Array.getElem?_eq_some_iff.mp hp).1
  have hlink := h.linked i p hi hp
  have hb := h.bounded
  rw [hnext, successor] at hlink
  by_cases hlast : i + 1 < s.pages.size
  · rw [if_pos hlast] at hlink
    have := congrArg UInt32.toNat hlink
    rw [UInt32.toNat_ofNat'] at this
    have hno : noPage.toNat = 4294967295 := rfl
    omega
  · omega

theorem toNat_next (h : s.Formed t) (i : Nat) (p : Page) (hi : 0 < i)
    (hp : s.pages[i]? = some p) (hnext : p.next ≠ noPage) :
    p.next.toNat = i + 1 ∧ i + 1 < s.pages.size := by
  have hlink := h.linked i p hi hp
  have hb := h.bounded
  rw [successor] at hlink
  by_cases hmore : i + 1 < s.pages.size
  · rw [hlink, if_pos hmore, UInt32.toNat_ofNat', Nat.mod_eq_of_lt (by omega)]
    exact ⟨rfl, hmore⟩
  · rw [if_neg hmore] at hlink
    exact absurd hlink hnext

theorem headerPage_extend (id : PageId) (p : Page) (hid : 0 < id.toNat)
    (hp : s.pages[id.toNat]? = some p) : (s.extend id p).headerPage = s.headerPage := by
  apply Option.some.inj
  have := s.two_le_size
  rw [← getElem?_zero, ← getElem?_zero, getElem?_extend s id p 0 hp, if_neg (by omega),
    if_neg (by omega)]

theorem header_extend (id : PageId) (p : Page) (hid : 0 < id.toNat)
    (hp : s.pages[id.toNat]? = some p) : (s.extend id p).header = s.header := by
  rw [header, header, headerPage_extend id p hid hp]

theorem extend (h : s.Formed t) (id : PageId) (p : Page) (hid : 0 < id.toNat)
    (hp : s.pages[id.toNat]? = some p) (hnext : p.next = noPage)
    (hb : s.pages.size + 1 ≤ 4294967295) : (s.extend id p).Formed t := by
  have hlast := h.last_of_next id.toNat p hid hp hnext
  have hget := s.getElem?_extend id p
  have hheader := header_extend id p hid hp
  constructor
  · exact h.magic
  · exact h.width
  · exact h.idle
  · rw [size_extend]
    exact hb
  · exact ⟨s.header, h.sameFile, (headerPage_extend id p hid hp).trans h.headerPage_eq⟩
  · rw [cursor, hheader]
    exact h.cursor_pos
  · rw [cursor, hheader, size_extend]
    exact Nat.lt_succ_of_lt h.cursor_lt
  · exact Filled.extend h.filled id p hid hp
  · intro i q hi hq
    rw [hget i hp] at hq
    rw [successor, size_extend]
    by_cases hii : i = id.toNat
    · rw [if_pos hii] at hq
      obtain rfl := Option.some.inj hq
      rw [Page.next_setNext, if_pos (by omega), hii, hlast]
    · rw [if_neg hii] at hq
      by_cases hnew : i = s.pages.size
      · rw [if_pos hnew] at hq
        obtain rfl := Option.some.inj hq
        rw [Page.next_empty, if_neg (by omega)]
      · rw [if_neg hnew] at hq
        have hlt : i < s.pages.size := (Array.getElem?_eq_some_iff.mp hq).1
        rw [h.linked i q hi hq, successor, if_pos (by omega), if_pos (by omega)]

theorem extend_kept (h : s.Formed t) (id : PageId) (p : Page) (hid : 0 < id.toNat)
    (hp : s.pages[id.toNat]? = some p) (hnext : p.next = noPage)
    (hb : (s.extend id p).pages.size ≤ 4294967295) :
    (s.extend id p).Formed t ∧ (s.extend id p).record? = s.record? ∧
      (s.extend id p).header = s.header := by
  rw [size_extend] at hb
  exact ⟨h.extend id p hid hp hnext hb, Filled.record?_extend h.filled id p hid hp,
    header_extend id p hid hp⟩

end Formed

end Store

end PagedGraph
