import PagedGraph.Proofs.Reopening

/-!
# Requests that are refused

Whoever asks for a file that is set up already, and is refused, leaves it as it was. A blank file is
set up before the request is checked. So a header that no index may have is written to it all the
same, and what stands at the path afterwards is refused to everybody (`refused_open`). Requests that
come with checked options are not of this kind (`Index.openFile_refused`).
-/

set_option autoImplicit false

namespace PagedGraph

namespace Store

variable {path : String} {template asked : Header} {content : Bytes} {file file' : FileState}
  {e : Error}

theorem checkHeader_unset (h : ¬template.Sets) :
    checkHeader path template asked = .error (.incompatible path) := by
  have hbad : (!template.isValid || template.pageBytes.toNat != pageSize) = true := by
    rw [Bool.or_eq_true, Bool.not_eq_true', bne_iff_ne]
    by_cases hvalid : template.isValid = true
    · exact .inr fun hpaged => h ⟨hvalid, hpaged⟩
    · exact .inl (Bool.not_eq_true _ ▸ hvalid)
  rw [checkHeader, if_pos hbad]

theorem ofContent_initialContent (path : String) (template asked : Header) :
    ofContent path asked (initialContent template) =
      (checkHeader path template asked).map fun _ => fresh template := by
  obtain ⟨s, hpages, hheld, hcontent⟩ := ofContent_concat path asked
    [metaImage template, Page.empty] (Nat.le_refl 2)
  obtain rfl : s = fresh template := eq_of_parts hpages hheld
  rw [initialContent_eq, hcontent, header_fresh]

theorem size_initialContent (template : Header) : (initialContent template).size ≠ 0 := by
  rw [initialContent_eq, size_concat]
  exact Nat.mul_ne_zero (Nat.succ_ne_zero 1) (by decide)

theorem attempt_unset (h : ¬template.Sets) (path : String) (asked : Header) :
    openFile.attempt path asked (initialContent template) =
      (.error (.incompatible path), .closed (initialContent template)) := by
  rw [openFile.attempt, ofContent_initialContent, checkHeader_unset h]
  rfl

theorem attempt_sets (h : template.Sets) (path : String) :
    openFile.attempt path template (initialContent template) =
      (.ok (fresh template), .inUse (initialContent template)) := by
  rw [openFile.attempt, ofContent_initialContent, h.checkHeader_eq, if_pos ⟨rfl, rfl, rfl⟩]
  rfl

theorem isBlank_closed : (FileState.closed content).isBlank = true ↔ content.size = 0 :=
  decide_eq_true_iff

theorem openFile_of_blank (h : file.isBlank = true) :
    openFile path template file = openFile.attempt path template (initialContent template) := by
  cases file with
  | absent => rw [openFile]
  | directory => cases h
  | closed content => rw [openFile, if_pos (isBlank_closed.mp h)]
  | inUse content => cases h

/-- A blank file is refused exactly to those who want to set it up with a header that no index may
have, and it is set up nevertheless. -/
theorem openFile_blank_error (hblank : file.isBlank = true)
    (h : openFile path template file = (.error e, file')) :
    ¬template.Sets ∧ e = .incompatible path ∧ file' = .closed (initialContent template) := by
  rw [openFile_of_blank hblank] at h
  by_cases hsets : template.Sets
  · rw [attempt_sets hsets] at h
    cases (Prod.mk.inj h).1
  · rw [attempt_unset hsets] at h
    obtain ⟨herror, hfile⟩ := Prod.mk.inj h
    exact ⟨hsets, (Except.error.inj herror).symm, hfile.symm⟩

theorem attempt_error (h : openFile.attempt path template content = (.error e, file')) :
    file' = .closed content := by
  rw [openFile.attempt] at h
  cases hcontent : ofContent path template content with
  | error e =>
    rw [hcontent] at h
    exact (Prod.mk.inj h).2.symm
  | ok s =>
    rw [hcontent] at h
    cases (Prod.mk.inj h).1

theorem openFile_error (hblank : file.isBlank = false)
    (h : openFile path template file = (.error e, file')) : file' = file := by
  cases file with
  | absent => cases hblank
  | directory => exact (Prod.mk.inj h).2.symm
  | closed content =>
    have hsome : content.size ≠ 0 := fun hz =>
      absurd (isBlank_closed.mpr hz) (by rw [hblank]; decide)
    rw [openFile, if_neg hsome] at h
    exact attempt_error h
  | inUse content => exact (Prod.mk.inj h).2.symm

theorem set_up_ne (hblank : file.isBlank = true) (template : Header) :
    FileState.closed (initialContent template) ≠ file := by
  rintro rfl
  exact size_initialContent template (isBlank_closed.mp hblank)

structure Refused (path : String) (template : Header) (file : FileState) (e : Error)
    (file' : FileState) : Prop where
  /-- Exactly a blank file is not left as it was. -/
  kept : file' = file ↔ file.isBlank = false
  /-- To a blank file the header is written that is then found fault with. -/
  written : file.isBlank = true → ¬template.Sets ∧ e = .incompatible path ∧
    file' = .closed (initialContent template)
  /-- From then on nobody gets the file, whatever he asks for. -/
  spoilt : file.isBlank = true → ∀ path asked,
    openFile path asked file' = (.error (.incompatible path), file')

end Store

/-- A request for a file changes nothing if it is refused, unless the file was blank. Then it has
been set up with the unacceptable header, and whoever asks for it later is refused, too. -/
theorem refused_open {path : String} {template : Header} {file file' : FileState} {e : Error}
    (h : Store.openFile path template file = (.error e, file')) :
    Store.Refused path template file e file' := by
  cases hblank : file.isBlank with
  | false =>
    have hsame := Store.openFile_error hblank h
    exact ⟨⟨fun _ => hblank, fun _ => hsame⟩, fun hb => absurd (hblank.symm.trans hb) (by decide),
      fun hb => absurd (hblank.symm.trans hb) (by decide)⟩
  | true =>
    obtain ⟨hsets, he, rfl⟩ := Store.openFile_blank_error hblank h
    refine ⟨⟨fun hsame => absurd hsame (Store.set_up_ne hblank template),
      fun hb => absurd (hblank.symm.trans hb) (by decide)⟩, fun _ => ⟨hsets, he, rfl⟩,
      fun _ path asked => ?_⟩
    rw [Store.openFile, if_neg (Store.size_initialContent template)]
    exact Store.attempt_unset hsets path asked

/-- The header of an index with checked options may be written to a blank file. So a request of a
user who has to choose options changes nothing if it is refused. -/
theorem Index.openFile_refused {path : String} {dimensions : UInt32} {o : Options}
    {file file' : FileState} {e : Error}
    (h : openFile path dimensions o file = (.error e, file')) : file' = file := by
  cases hcheck : checkOptions dimensions o with
  | error c =>
    rw [openFile_unchecked hcheck] at h
    exact (Prod.mk.inj h).2.symm
  | ok params =>
    simp only [openFile, hcheck] at h
    cases hopen : Store.openFile path (template dimensions o) file with
    | mk result file₁ =>
      rw [hopen] at h
      cases result with
      | ok s => cases (Prod.mk.inj h).1
      | error c =>
        obtain rfl : file₁ = file' := (Prod.mk.inj h).2
        cases hblank : file.isBlank with
        | false => exact Store.openFile_error hblank hopen
        | true => exact absurd (template_sets hcheck) (Store.openFile_blank_error hblank hopen).1

/-- A header for vectors without coordinates spoils an empty file for those who come after. -/
theorem refused_open_empty : ∃ file',
    Store.openFile "index" (Header.fresh 0 16 0 8192 firstDataPage) (.closed #[]) =
      (.error (.incompatible "index"), file') ∧ file' ≠ .closed #[] ∧
    Store.openFile "index" (Index.template 2 Options.standard) file' =
      (.error (.incompatible "index"), file') := by
  have hblank : (FileState.closed #[]).isBlank = true := rfl
  have hsets : ¬(Header.fresh 0 16 0 8192 firstDataPage).Sets := fun h =>
    absurd h.valid (by decide)
  have hopen := (Store.openFile_of_blank hblank).trans (Store.attempt_unset hsets "index" _)
  have hrefused := refused_open hopen
  exact ⟨_, hopen, fun hsame => absurd (hrefused.kept.mp hsame) (by decide),
    hrefused.spoilt hblank "index" _⟩

end PagedGraph
