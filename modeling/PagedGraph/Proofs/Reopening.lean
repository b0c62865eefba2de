import PagedGraph.Index
import PagedGraph.Proofs.Groups
import PagedGraph.Proofs.Intact

/-!
# Files and stores

The bytes of a store are cut back into exactly its pages. A blank file is set up as an intact store
without records, and an intact store that has been closed is found again as it was.
-/

set_option autoImplicit false

namespace PagedGraph

namespace Store

def concat (pages : List Page) : Bytes :=
  pages.foldl (fun bytes p => bytes ++ p.bytes.toArray) #[]

theorem bytes_eq (s : Store) : s.bytes = concat s.pages.toList := by
  rw [bytes, concat, ← Array.foldl_toList]

theorem toList_concat (pages : List Page) :
    (concat pages).toList = pages.flatMap fun p => p.bytes.toList := by
  have hfold : ∀ out : Bytes, (pages.foldl (fun bytes p => bytes ++ p.bytes.toArray) out).toList =
      out.toList ++ pages.flatMap fun p => p.bytes.toList := by
    induction pages with
    | nil =>
      intro out
      simp
    | cons p rest ih =>
      intro out
      rw [List.foldl_cons, ih, Array.toList_append, List.flatMap_cons, List.append_assoc]
      rfl
  exact hfold #[]

theorem length_page (p : Page) : p.bytes.toList.length = pageSize := Vector.length_toList

theorem size_concat (pages : List Page) : (concat pages).size = pages.length * pageSize := by
  rw [← Array.length_toList, toList_concat,
    LittleEndian.length_flatMap_block (fun p : Page => p.bytes.toList) pageSize length_page]

theorem pageOf_concat (pages : List Page) (i : Nat) (hi : i < pages.length) :
    pageOf (concat pages) i = pages[i] := by
  obtain ⟨before, after, hsplit, hlen⟩ :=
    LittleEndian.flatMap_split (fun p : Page => p.bytes.toList) pageSize length_page pages i hi
  apply Page.ext_byte
  intro j hj
  have hget : (concat pages)[i * pageSize + j]? = some pages[i].bytes[j] := by
    rw [← Array.getElem?_toList, toList_concat, hsplit, ← hlen,
      List.getElem?_append_right (Nat.le_add_right _ _), Nat.add_sub_cancel_left,
      List.getElem?_append_left (by rw [length_page]; exact hj),
      List.getElem?_eq_getElem (by rw [length_page]; exact hj)]
    simp
  rw [Page.byte_of_lt _ _ hj, Page.byte_of_lt _ _ hj]
  simp [pageOf, Array.getD_eq_getD_getElem?, hget]

theorem ofContent_concat (path : String) (template : Header) (pages : List Page)
    (htwo : 2 ≤ pages.length) :
    ∃ s : Store, s.pages = pages.toArray ∧ s.held = [] ∧
      ofContent path template (concat pages) =
        (checkHeader path s.header template).map fun _ => s := by
  have hsize := size_concat pages
  have hps : pageSize = 8192 := rfl
  have hcut : (concat pages).size / pageSize = pages.length := by
    rw [hsize, Nat.mul_div_cancel _ (by omega)]
  have hdvd : ¬((concat pages).size < 2 * pageSize ∨ (concat pages).size % pageSize ≠ 0) := by
    rw [hsize, Nat.mul_mod_left]
    have := Nat.mul_le_mul_right pageSize htwo
    omega
  rw [ofContent, dif_neg hdvd]
  refine ⟨_, ?_, rfl, rfl⟩
  apply Array.ext
  · simp [hcut]
  · intro i hi hi'
    simp only [Array.getElem_ofFn, List.getElem_toArray]
    exact pageOf_concat pages i (by simpa using hi')

end Store

/-- A path at which a new file would be set up. -/
def FileState.isBlank : FileState → Bool
  | .absent => true
  | .closed content => content.size = 0
  | _ => false

/-- A file may be set up with the header. -/
structure Header.Sets (t : Header) : Prop where
  valid : t.isValid = true
  paged : t.pageBytes.toNat = pageSize

def Header.Agrees (h asked : Header) : Prop :=
  h.dimensions = asked.dimensions ∧ h.m = asked.m ∧ h.metric = asked.metric

instance (h asked : Header) : Decidable (h.Agrees asked) :=
  inferInstanceAs (Decidable (_ ∧ _ ∧ _))

def Header.refusal (h asked : Header) : Error :=
  if h.dimensions ≠ asked.dimensions then
    .dimensionsDiffer h.dimensions.toNat asked.dimensions.toNat
  else .parametersDiffer h.m.toNat h.metric.toNat asked.m.toNat asked.metric.toNat

theorem Header.Sets.checkHeader_eq {h : Header} (hs : h.Sets) (path : String) (asked : Header) :
    Store.checkHeader path h asked =
      if h.Agrees asked then .ok () else .error (h.refusal asked) := by
  simp only [Store.checkHeader, hs.valid, hs.paged, Header.Agrees, Header.refusal]
  by_cases hdims : h.dimensions = asked.dimensions <;> by_cases hm : h.m = asked.m <;>
    by_cases hmetric : h.metric = asked.metric <;> simp [hdims, hm, hmetric]

namespace Store

theorem initialContent_eq (template : Header) :
    initialContent template = concat [metaImage template, Page.empty] := by
  rw [initialContent, concat, List.foldl_cons, List.foldl_cons, List.foldl_nil, Array.empty_append]

def fresh (template : Header) : Store where
  pages := #[metaImage template, Page.empty]
  held := []
  two_le_size := Nat.le_refl 2

theorem headerPage_fresh (template : Header) :
    (fresh template).headerPage = metaImage template := by
  simp [headerPage, fresh]

theorem header_fresh (template : Header) : (fresh template).header = template := by
  rw [header, headerPage_fresh, onPage_metaImage]

theorem getElem?_fresh_zero (template : Header) :
    (fresh template).pages[0]? = some (metaImage template) := by
  simp [fresh]

theorem getElem?_fresh (template : Header) (i : Nat) (p : Page) (hi : 0 < i)
    (hp : (fresh template).pages[i]? = some p) : i = 1 ∧ p = Page.empty := by
  have hlt : i < 2 := (Array.getElem?_eq_some_iff.mp hp).1
  have hone : (fresh template).pages[1]? = some Page.empty := by simp [fresh]
  obtain rfl : i = 1 := by omega
  rw [hone] at hp
  exact ⟨rfl, (Option.some.inj hp).symm⟩

theorem intact_fresh (t : Header) (hmagic : t.magic = Header.indexMagic)
    (hwidth : t.dimensions.toNat ≤ 65535) (hcursor : t.insertPage = firstDataPage) :
    (fresh t).Intact t ∧ (fresh t).record? = fun _ => none := by
  have hrecord : (fresh t).record? = fun _ => none := by
    funext l
    rw [record?]
    cases hp : (fresh t).pages[l.page.toNat]? with
    | none => rfl
    | some p =>
      rcases Nat.eq_zero_or_pos l.page.toNat with hz | hpos
      · rw [hz, getElem?_fresh_zero] at hp
        obtain rfl : metaImage t = p := Option.some.inj hp
        exact Page.record?_metaImage hmagic _
      · obtain ⟨-, rfl⟩ := getElem?_fresh t _ p hpos hp
        exact (Page.carries_empty 0).record?_eq _
  refine ⟨⟨⟨hmagic, hwidth, rfl, ?_, ⟨t, rfl, headerPage_fresh t⟩, ?_, ?_, ?_, ?_⟩, ?_⟩, hrecord⟩
  · show 2 ≤ 4294967295
    omega
  · rw [cursor, header_fresh, hcursor]
    decide
  · rw [cursor, header_fresh, hcursor]
    show 1 < 2
    omega
  · intro i p hi hp
    obtain ⟨-, rfl⟩ := getElem?_fresh t i p hi hp
    exact ⟨[], Page.carries_empty _⟩
  · intro i p hi hp
    obtain ⟨rfl, rfl⟩ := getElem?_fresh t i p hi hp
    exact Page.next_empty
  · rw [hrecord]
    exact Paired.empty _

theorem bytes_fresh (template : Header) : (fresh template).bytes = initialContent template := by
  rw [bytes_eq, initialContent_eq]
  rfl

theorem size_bytes (s : Store) : s.bytes.size = s.pages.size * pageSize := by
  rw [bytes_eq, size_concat, Array.length_toList]

namespace Formed

variable {t : Header} {s : Store} (h : s.Formed t)
include h

theorem sets_header (ht : t.Sets) : s.header.Sets := by
  have hcursor : s.header.insertPage ≠ noPage := by
    intro heq
    have hlt : s.header.insertPage.toNat < s.pages.size := h.cursor_lt
    have hbound := h.bounded
    rw [heq] at hlt
    have hno : noPage.toNat = 4294967295 := by decide
    omega
  constructor
  · have := ht.valid
    rw [Header.isValid, decide_eq_true_iff] at this ⊢
    rw [h.sameFile] at hcursor ⊢
    exact ⟨this.1, this.2.1, this.2.2.1, this.2.2.2.1, this.2.2.2.2.1, this.2.2.2.2.2.1, hcursor⟩
  · rw [h.sameFile]
    exact ht.paged

theorem checkHeader_eq (ht : t.Sets) (path : String) (asked : Header) :
    checkHeader path s.header asked =
      if t.Agrees asked then .ok () else .error (t.refusal asked) := by
  have hasked : s.header.dimensions = t.dimensions ∧ s.header.m = t.m ∧
      s.header.metric = t.metric := by
    rw [h.sameFile]
    exact ⟨rfl, rfl, rfl⟩
  obtain ⟨hdimensions, hm, hmetric⟩ := hasked
  have hagrees : s.header.Agrees asked = t.Agrees asked := by
    rw [Header.Agrees, Header.Agrees, hdimensions, hm, hmetric]
  have hrefusal : s.header.refusal asked = t.refusal asked := by
    rw [Header.refusal, Header.refusal, hdimensions, hm, hmetric]
  rw [(h.sets_header ht).checkHeader_eq, hrefusal]
  exact ite_congr hagrees (fun _ => rfl) fun _ => rfl

theorem attempt_eq (ht : t.Sets) (path : String) (asked : Header) :
    openFile.attempt path asked s.bytes =
      if t.Agrees asked then (.ok s, .inUse s.bytes)
      else (.error (t.refusal asked), .closed s.bytes) := by
  have htwo : 2 ≤ s.pages.toList.length := by
    rw [Array.length_toList]
    exact s.two_le_size
  obtain ⟨s', hpages, hheld, hcontent⟩ := ofContent_concat path asked s.pages.toList htwo
  obtain rfl : s' = s := eq_of_parts (by rw [hpages]) (by rw [hheld, h.idle])
  rw [openFile.attempt, bytes_eq, hcontent, h.checkHeader_eq ht path]
  by_cases hagrees : t.Agrees asked
  · rw [if_pos hagrees, if_pos hagrees]
    rfl
  · rw [if_neg hagrees, if_neg hagrees]
    rfl

theorem openFile_closed (ht : t.Sets) (path : String) (asked : Header) :
    openFile path asked s.close =
      if t.Agrees asked then (.ok s, .inUse s.bytes)
      else (.error (t.refusal asked), .closed s.bytes) := by
  have hne : s.bytes.size ≠ 0 := by
    rw [size_bytes]
    exact Nat.mul_ne_zero (Nat.ne_of_gt (Nat.lt_of_lt_of_le Nat.zero_lt_two s.two_le_size))
      (by decide)
  rw [close, openFile, if_neg hne]
  exact h.attempt_eq ht path asked

theorem openFile_close (ht : t.Sets) (path : String) :
    openFile path t s.close = (.ok s, .inUse s.bytes) := by
  rw [h.openFile_closed ht, if_pos ⟨rfl, rfl, rfl⟩]

end Formed

theorem openFile_blank {t : Header} (h : (fresh t).Formed t) (ht : t.Sets) (path : String)
    (file : FileState) (hblank : file.isBlank = true) :
    openFile path t file = (.ok (fresh t), .inUse (fresh t).bytes) := by
  have hattempt := h.attempt_eq ht path t
  rw [if_pos ⟨rfl, rfl, rfl⟩] at hattempt
  cases file with
  | absent =>
    rw [openFile, ← bytes_fresh]
    exact hattempt
  | closed content =>
    have hz : content.size = 0 := by simpa [FileState.isBlank] using hblank
    rw [openFile, if_pos hz, ← bytes_fresh]
    exact hattempt
  | directory => cases hblank
  | inUse content => cases hblank

end Store

namespace Index

theorem checkOptions_ok {dimensions : UInt32} {o : Options} {params : Params}
    (h : checkOptions dimensions o = .ok params) :
    params.m = o.m.toNat ∧ 2 ≤ o.m.toNat ∧ params.metric = o.metric ∧ dimensions ≠ 0 ∧
      dimensions.toNat ≤ Header.maxDimensions ∧ o.m.toNat ≤ maxFanOut ∧
      checkLevel o = .ok params.maxLevel := by
  simp only [checkOptions] at h
  by_cases hsmall : o.m.toNat < 2
  · rw [if_pos hsmall] at h
    cases h
  · rw [if_neg hsmall] at h
    by_cases hlarge : maxFanOut < o.m.toNat
    · rw [if_pos hlarge] at h
      cases h
    · rw [if_neg hlarge] at h
      by_cases hdims : dimensions = 0 ∨ Header.maxDimensions < dimensions.toNat
      · rw [if_pos hdims] at h
        cases h
      · rw [if_neg hdims] at h
        cases hlevel : checkLevel o with
        | error e =>
          rw [hlevel] at h
          cases h
        | ok level =>
          rw [hlevel] at h
          obtain rfl := Except.ok.inj h
          exact ⟨rfl, by omega, rfl, fun hz => hdims (.inl hz), by
            have : ¬Header.maxDimensions < dimensions.toNat := fun hl => hdims (.inr hl)
            omega, Nat.not_lt.mp hlarge, rfl⟩

theorem checkOptions_standard {dimensions : UInt32} (hpos : dimensions ≠ 0)
    (hmax : dimensions.toNat ≤ Header.maxDimensions) :
    checkOptions dimensions Options.standard = .ok Params.standard := by
  have hm : Options.standard.m.toNat = 16 := rfl
  have hrange : ¬(dimensions = 0 ∨ Header.maxDimensions < dimensions.toNat) := by
    rintro (hz | hl)
    · exact hpos hz
    · omega
  rw [checkOptions, hm, if_neg (by decide), if_neg (by decide +kernel), if_neg hrange]
  rfl

structure Opened (dimensions : UInt32) (o : Options) (ix : Index) (s : Store) : Prop where
  params : checkOptions dimensions o = .ok ix.params
  width : ix.dimensions = dimensions.toNat
  intact : s.Intact (template dimensions o)

section
variable {dimensions : UInt32} {o : Options} {params : Params}

theorem Opened.m_eq {ix : Index} {s : Store} (h : Opened dimensions o ix s) :
    ix.params.m = (template dimensions o).m.toNat :=
  (checkOptions_ok h.params).1

theorem Opened.m_pos {ix : Index} {s : Store} (h : Opened dimensions o ix s) :
    0 < ix.params.m := by
  obtain ⟨hm, htwo, -⟩ := checkOptions_ok h.params
  rw [hm]
  exact Nat.lt_of_lt_of_le Nat.two_pos htwo

theorem template_sets (h : checkOptions dimensions o = .ok params) :
    (template dimensions o).Sets := by
  obtain ⟨-, hm, -, hdims, hmax, -⟩ := checkOptions_ok h
  have hpos : 0 < dimensions := UInt32.pos_iff_ne_zero.mpr hdims
  have htwo : 2 ≤ o.m := UInt16.le_iff_toNat_le.mpr hm
  have hpaged : (UInt32.ofNat pageSize).toNat = pageSize := by decide
  have hversion : 0 < Header.currentVersion ∧ Header.currentVersion ≤ Header.currentVersion := by
    decide
  have hcursor : firstDataPage ≠ noPage := by decide
  refine ⟨?_, hpaged⟩
  rw [Header.isValid, decide_eq_true_iff]
  exact ⟨rfl, hversion.1, hversion.2, hpos, hmax, htwo, hcursor⟩

theorem width_template (h : checkOptions dimensions o = .ok params) :
    (template dimensions o).dimensions.toNat ≤ 65535 :=
  Nat.le_trans (checkOptions_ok h).2.2.2.2.1 (by decide)

theorem openFile_eq (h : checkOptions dimensions o = .ok params) {s : Store}
    (hs : s.Intact (template dimensions o)) (path : String) {file file' : FileState}
    (hopen : Store.openFile path (template dimensions o) file = (.ok s, file')) :
    openFile path dimensions o file =
      (.ok (⟨params, dimensions.toNat, o.searchWidth⟩, s), file') := by
  have hdims : s.header.dimensions = dimensions := by
    rw [hs.sameFile]
    rfl
  simp only [openFile, h, hopen, hdims]

theorem record?_fresh (h : checkOptions dimensions o = .ok params) :
    (Store.fresh (template dimensions o)).record? = fun _ => none :=
  (Store.intact_fresh (template dimensions o) rfl (width_template h) rfl).2

theorem openFile_blank (h : checkOptions dimensions o = .ok params) (path : String)
    (file : FileState) (hblank : file.isBlank = true) :
    openFile path dimensions o file =
      (.ok (⟨params, dimensions.toNat, o.searchWidth⟩, Store.fresh (template dimensions o)),
        .inUse (Store.fresh (template dimensions o)).bytes) := by
  have hs := (Store.intact_fresh (template dimensions o) rfl (width_template h) rfl).1
  exact openFile_eq h hs path (Store.openFile_blank hs.toFormed (template_sets h) path file hblank)

theorem openFile_close (h : checkOptions dimensions o = .ok params) {s : Store}
    (hs : s.Intact (template dimensions o)) (path : String) :
    openFile path dimensions o s.close =
      (.ok (⟨params, dimensions.toNat, o.searchWidth⟩, s), .inUse s.bytes) :=
  openFile_eq h hs path (hs.toFormed.openFile_close (template_sets h) path)

theorem openFile_unchecked {e : Error} (h : checkOptions dimensions o = .error e) (path : String)
    (file : FileState) : openFile path dimensions o file = (.error e, file) := by
  simp only [openFile, h]

theorem opened_of_blank {path : String} {file file' : FileState} {ix : Index} {s : Store}
    (hblank : file.isBlank = true)
    (hopen : openFile path dimensions o file = (.ok (ix, s), file')) :
    Opened dimensions o ix s ∧ s = Store.fresh (template dimensions o) := by
  cases hcheck : checkOptions dimensions o with
  | error e =>
    rw [openFile_unchecked hcheck] at hopen
    cases (Prod.mk.inj hopen).1
  | ok params =>
    rw [openFile_blank hcheck path file hblank] at hopen
    obtain ⟨rfl, rfl⟩ := Prod.mk.inj (Except.ok.inj (Prod.mk.inj hopen).1)
    have hs := (Store.intact_fresh (template dimensions o) rfl (width_template hcheck) rfl).1
    exact ⟨⟨hcheck, rfl, hs⟩, rfl⟩

end

end Index

end PagedGraph
