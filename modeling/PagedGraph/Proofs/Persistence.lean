import PagedGraph.Proofs.History
import PagedGraph.Proofs.Overlaps

/-!
# Files that outlive their users

Whatever writers have done with an index, its file can be opened again. Whoever asks for the
dimensions, fan-out and metric that it was set up with gets the store as it was left; anybody else
is told what differs, and the file stays as it is.

Page 0 changes only where the header has the entry point and the insert cursor. What says of which
kind the file is, and the rest of the page, stays as it was when the file was set up.
-/

set_option autoImplicit false

namespace PagedGraph

open LittleEndian

namespace Header

def staticSize : Nat := 24

/-- The bytes of the header that never change: magic to metric, and the byte that fills them up. -/
def static (h : Header) : List UInt8 :=
  h.magic.toList ++ (LittleEndian.encode 4 h.version.toNat ++
    (LittleEndian.encode 4 h.pageBytes.toNat ++ (LittleEndian.encode 4 h.dimensions.toNat ++
      (LittleEndian.encode 2 h.m.toNat ++ [h.metric, 0]))))

theorem length_static (h : Header) : h.static.length = staticSize := by
  simp [static, staticSize]

theorem encode_static (h : Header) : ∃ moving, h.encode.toList = h.static ++ moving := by
  rw [h.toList_encode, static]
  simp only [List.append_assoc]
  exact ⟨_, rfl⟩

theorem getD_encode_static (h : Header) (i : Nat) (hi : i < staticSize) :
    h.encode.getD i 0 = h.static.getD i 0 := by
  obtain ⟨moving, hlist⟩ := h.encode_static
  rw [Array.getD_eq_getD_getElem?, ← Array.getElem?_toList, hlist,
    List.getElem?_append_left (by rwa [length_static]), List.getD_eq_getElem?_getD]

theorem SameFile.static {t h : Header} (hs : t.SameFile h) : h.static = t.static := by
  rw [hs]
  rfl

end Header

namespace Store

/-- The offsets on page 0 at which neither the entry point nor the insert cursor is stored. -/
def Unmoved (i : Nat) : Prop := i < Header.staticSize ∨ Header.size ≤ i

theorem Formed.byte_headerPage {t : Header} {s : Store} (h : s.Formed t) {i : Nat}
    (hi : Unmoved i) : s.headerPage.byte i = (metaImage t).byte i := by
  rw [h.headerPage_eq]
  rcases hi with hi | hi
  · have hsize : i < Header.size := Nat.lt_of_lt_of_le hi (by decide)
    rw [metaImage, metaImage, Header.byte_writeTo, Header.byte_writeTo, if_pos hsize, if_pos hsize,
      Header.getD_encode_static _ i hi, Header.getD_encode_static _ i hi, h.sameFile.static]
  · rw [byte_metaImage_of_le _ i hi, byte_metaImage_of_le _ i hi]

structure Reopens (t : Header) (s : Store) : Prop where
  /-- Whoever asks for what the file has been set up for finds it as it was. -/
  found : ∀ path asked, t.Agrees asked → openFile path asked s.close = (.ok s, .inUse s.bytes)
  /-- Whoever asks for something else is told so and changes nothing. -/
  refused : ∀ path asked, ¬t.Agrees asked →
    openFile path asked s.close = (.error (t.refusal asked), .closed s.bytes)

theorem Formed.reopens {t : Header} {s : Store} (h : s.Formed t) (ht : t.Sets) : s.Reopens t where
  found := by
    intro path asked hagrees
    rw [h.openFile_closed ht, if_pos hagrees]
  refused := by
    intro path asked hdiffers
    rw [h.openFile_closed ht, if_neg hdiffers]

end Store

/-- What becomes of the file of an index that was set up for some dimensions, with some options. The
index has been opened on the store `s`. -/
structure FileKept (dimensions : UInt32) (o : Options) (ix : Index) (s : Store) : Prop where
  /-- Whatever a user has done, the file can be opened again, and nothing has changed on page 0 but
  for the entry point and the insert cursor. -/
  user : ∀ ix' s', Index.History dimensions o ix' s' →
    s'.Reopens (Index.template dimensions o) ∧
      ∀ i, Store.Unmoved i → s'.headerPage.byte i = s.headerPage.byte i
  /-- Whatever several writers have done, the file can be opened again. -/
  turns : ∀ c, Reaches ix.params ix.dimensions s c → c.store.Reopens (Index.template dimensions o)
  /-- No step of anybody changes page 0 but for the entry point and the insert cursor. -/
  steps : ∀ c c', Reaches ix.params ix.dimensions s c →
    Relation.ReflTransGen (Crowd.Step ix.params ix.dimensions) c c' →
    ∀ i, Store.Unmoved i → c'.store.headerPage.byte i = c.store.headerPage.byte i
  /-- Both hold of the work of others in the middle of a construction's call. -/
  calls : ∀ s₁ ws c, Reaches ix.params ix.dimensions s ⟨s₁, ws⟩ →
    Reaches ix.params ix.dimensions s₁ c → c.store.Reopens (Index.template dimensions o) ∧
      ∀ i, Store.Unmoved i → c.store.headerPage.byte i = s₁.headerPage.byte i

/-- Whatever users and writers do with an index that was opened empty, and however they take turns,
its file can be opened again with the parameters that it was set up with and no others, and what it
says of itself never changes. -/
theorem file_kept {path : String} {dimensions : UInt32} {o : Options} {file file' : FileState}
    {ix : Index} {s : Store} (hblank : file.isBlank = true)
    (hopen : Index.openFile path dimensions o file = (.ok (ix, s), file')) :
    FileKept dimensions o ix s := by
  obtain ⟨hopened, -⟩ := Index.opened_of_blank hblank hopen
  have hp := hopened.m_eq
  have ht := Index.template_sets hopened.params
  have hwidth : ix.dimensions = (Index.template dimensions o).dimensions.toNat := hopened.width
  constructor
  · intro ix' s' hhistory
    obtain ⟨o', hm, hmetric, hsettled⟩ := hhistory.settled
    have hintact := hsettled.intact_of hm.symm hmetric.symm
    exact ⟨hintact.reopens ht, fun i hi => by
      rw [hintact.byte_headerPage hi, hopened.intact.byte_headerPage hi]⟩
  · intro c hc
    rw [hwidth] at hc
    exact (hc.sound hp hopened.intact).intact.reopens ht
  · intro c c' hc hsteps i hi
    rw [hwidth] at hc hsteps
    have hsound := hc.sound hp hopened.intact
    rw [(hsound.steps hp hsteps).intact.byte_headerPage hi, hsound.intact.byte_headerPage hi]
  · intro s₁ ws c hs₁ hc
    rw [hwidth] at hs₁ hc
    have hintact := (hs₁.sound hp hopened.intact).intact
    have hnow := (hc.sound hp hintact).intact
    exact ⟨hnow.reopens ht, fun i hi => by
      rw [hnow.byte_headerPage hi, hintact.byte_headerPage hi]⟩

theorem file_kept_first : ∃ s, Store.entry s = some ⟨⟨1, 0⟩, 1⟩ ∧
    (∀ path, Store.openFile path (Index.template 2 Options.standard) s.close =
      (.ok s, .inUse s.bytes)) ∧
    (∀ path, Store.openFile path (Index.template 3 Options.standard) s.close =
      (.error (.dimensionsDiffer 2 3), .closed s.bytes)) ∧
    ∀ i, Store.Unmoved i → s.headerPage.byte i =
      (Store.fresh (Index.template 2 Options.standard)).headerPage.byte i := by
  have hblank : FileState.absent.isBlank = true := rfl
  have hopen := Index.openFile_blank Index.checkOptions_new_file "index" .absent hblank
  have hkept := file_kept hblank hopen
  obtain ⟨s, k, hrun, -, -, hentry, -⟩ := inserted_new_file (layerSearch Unit Params.standard) ()
    (show (1 : UInt8).toNat ≤ 1 by decide)
  have hreach : Reaches Params.standard 2 (Store.fresh (Index.template 2 Options.standard))
      ⟨s, []⟩ := .inserted (.start _) rfl hrun
  obtain ⟨hfound, hrefused⟩ := hkept.turns _ hreach
  have hcalls := hkept.calls _ _ _ (.start _) hreach
  exact ⟨s, hentry, fun path => hfound path _ ⟨rfl, rfl, rfl⟩,
    fun path => hrefused path (Index.template 3 Options.standard) (by decide), hcalls.2⟩

end PagedGraph
