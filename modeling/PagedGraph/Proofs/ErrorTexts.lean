import Mathlib
import PagedGraph.CInterface
import PagedGraph.Proofs.Addresses

/-!
# The text of the last failure

A caller of the interface for C learns from the returned value whether a call has failed, and from the
text that is kept why. All calls but two set the text when they fail and clear it when they succeed, so
that after them there is a text if they have failed. `dimensions` and `free` leave the text alone, and
so it is the one of an earlier call: the last one that reports (`lastError_told`).
-/

set_option autoImplicit false

namespace PagedGraph

namespace Store

variable {path : String} {template : Header} {file file' : FileState} {s : Store}

theorem checkHeader_dimensions {h : Header} (hok : checkHeader path h template = .ok ()) :
    h.dimensions = template.dimensions := by
  rw [checkHeader] at hok
  split at hok
  · cases hok
  · split at hok
    · cases hok
    · next hsame => exact Decidable.not_not.mp hsame

theorem ofContent_dimensions {content : Bytes} (h : ofContent path template content = .ok s) :
    s.header.dimensions = template.dimensions := by
  rw [ofContent] at h
  split at h
  · cases h
  · next hsize =>
    dsimp only at h
    generalize hs : Store.mk _ _ _ = found at h
    cases hcheck : checkHeader path found.header template with
    | error e =>
      rw [hcheck] at h
      cases h
    | ok _ =>
      rw [hcheck] at h
      obtain rfl : found = s := Except.ok.inj h
      exact checkHeader_dimensions hcheck

theorem attempt_dimensions {content : Bytes}
    (h : openFile.attempt path template content = (.ok s, file')) :
    s.header.dimensions = template.dimensions := by
  rw [openFile.attempt] at h
  cases hc : ofContent path template content with
  | error e =>
    rw [hc] at h
    cases (Prod.mk.inj h).1
  | ok found =>
    rw [hc] at h
    obtain rfl := Except.ok.inj (Prod.mk.inj h).1
    exact ofContent_dimensions hc

theorem openFile_dimensions (h : openFile path template file = (.ok s, file')) :
    s.header.dimensions = template.dimensions := by
  cases file with
  | absent =>
    rw [openFile] at h
    exact attempt_dimensions h
  | closed content =>
    rw [openFile] at h
    exact attempt_dimensions h
  | directory => cases (Prod.mk.inj h).1
  | inUse content => cases (Prod.mk.inj h).1

end Store

theorem Index.openFile_pos {path : String} {dimensions : UInt32} {o : Options}
    {file file' : FileState} {ix : Index} {s : Store}
    (h : openFile path dimensions o file = (.ok (ix, s), file')) : 0 < ix.dimensions := by
  rw [openFile] at h
  cases hoptions : checkOptions dimensions o with
  | error e =>
    rw [hoptions] at h
    cases (Prod.mk.inj h).1
  | ok params =>
    rw [hoptions] at h
    dsimp only at h
    split at h
    · cases (Prod.mk.inj h).1
    · next found _ hopen =>
      obtain ⟨hix, rfl⟩ := Prod.mk.inj (Except.ok.inj (Prod.mk.inj h).1)
      have hwidth : found.header.dimensions = dimensions := Store.openFile_dimensions hopen
      rw [← hix, hwidth]
      exact UInt32.pos_iff_ne_zero.mpr (checkOptions_ok hoptions).2.2.2.1

namespace CInterface

inductive Call where
  | openStandard (path : Option Bytes) (dimensions : UInt32)
  | openWithOptions (path : Option Bytes) (dimensions m searchWidth metric : UInt32)
  | insert (h : Option Nat) (u : Float) (vector : Option Embedding) (row : RowId)
  | delete (h : Option Nat) (l : Location)
  | flush (h : Option Nat)
  | dimensions (h : Option Nat)
  | free (h : Option Nat)

inductive Reply where
  /-- Whether the handle is not a null handle. -/
  | handle (given : Bool)
  | status (n : Int)
  | width (n : Nat)
  | nothing
  deriving DecidableEq, Repr

def Reply.failed : Reply → Bool
  | handle given => !given
  | status n => n == failure
  | width n => n == 0
  | nothing => false

namespace Call

def run (t : State) : Call → Reply × State
  | .openStandard path width =>
    let (given, t) := t.openStandard path width
    (.handle given, t)
  | .openWithOptions path width m searchWidth metric =>
    let (given, t) := t.openWithOptions path width m searchWidth metric
    (.handle given, t)
  | .insert h u vector row =>
    let (n, _, t) := t.insert h u vector row
    (.status n, t)
  | .delete h l =>
    let (n, t) := t.delete h l
    (.status n, t)
  | .flush h =>
    let (n, t) := t.flush h
    (.status n, t)
  | .dimensions h => (.width (t.dimensions h), t)
  | .free h => (.nothing, t.free h)

def reports : Call → Bool
  | dimensions _ => false
  | free _ => false
  | _ => true

end Call

namespace State

/-- The state of a thread that has made no call, whatever is on the disk. On a disk without files it
is `initial`. -/
def start (disk : Disk) : State := ⟨disk, #[], none⟩

def Reflects (t : State) (c : Call) : Prop :=
  (c.run t).2.lastError.isSome = (c.run t).1.failed

def after (t : State) (calls : List Call) : State := calls.foldl (fun t c => (c.run t).2) t

def replies (t : State) : List Call → List (Call × Reply)
  | [] => []
  | c :: calls => (c, (c.run t).1) :: replies (c.run t).2 calls

def lastReport (t : State) (calls : List Call) : Option Reply :=
  ((t.replies calls).filter fun x => x.1.reports).getLast?.map Prod.snd

variable {t : State}

theorem openIndex_told (t : State) (path : String) (width : UInt32) (o : Options) :
    (t.openIndex path width o).2.lastError.isSome = !(t.openIndex path width o).1 := by
  rw [openIndex]
  split
  · split <;> rfl
  · split <;> rfl

theorem openStandard_told (t : State) (path : Option Bytes) (width : UInt32) :
    (t.openStandard path width).2.lastError.isSome = !(t.openStandard path width).1 := by
  rw [openStandard]
  split
  · rfl
  · exact t.openIndex_told _ _ _

theorem openWithOptions_told (t : State) (path : Option Bytes)
    (width m searchWidth metric : UInt32) :
    (t.openWithOptions path width m searchWidth metric).2.lastError.isSome =
      !(t.openWithOptions path width m searchWidth metric).1 := by
  rw [openWithOptions]
  split
  · rfl
  · split
    · rfl
    · split
      · rfl
      · exact t.openIndex_told _ _ _

theorem onIndex_told {α : Type} (t : State) (h : Option Nat) (f : Index → Action α) :
    (t.onIndex h f).2.lastError.isSome = (t.onIndex h f).1.isNone := by
  rw [onIndex]
  split
  · rfl
  · split <;> rfl

theorem insert_spec (t : State) (h : Option Nat) (u : Float) (vector : Option Embedding)
    (row : RowId) :
    (t.insert h u vector row).2.2 = (t.onIndex h fun ix => ix.insert u vector row).2 ∧
      ((t.insert h u vector row).1 == failure) =
        (t.onIndex h fun ix => ix.insert u vector row).1.isNone := by
  rw [insert]
  obtain ⟨_ | outcome, t'⟩ := t.onIndex h fun ix => ix.insert u vector row
  · exact ⟨rfl, rfl⟩
  · exact ⟨rfl, by cases outcome <;> rfl⟩

theorem delete_spec (t : State) (h : Option Nat) (l : Location) :
    (t.delete h l).2 = (t.onIndex h fun _ => markDeleted l).2 ∧
      ((t.delete h l).1 == failure) = (t.onIndex h fun _ => markDeleted l).1.isNone := by
  rw [delete]
  obtain ⟨_ | _ | _, t'⟩ := t.onIndex h fun _ => markDeleted l <;> exact ⟨rfl, rfl⟩

theorem flush_spec (t : State) (h : Option Nat) :
    (t.flush h).2 = (t.onIndex h fun _ => (pure () : Action Unit)).2 ∧
      ((t.flush h).1 == failure) = (t.onIndex h fun _ => (pure () : Action Unit)).1.isNone := by
  rw [flush]
  obtain ⟨_ | _, t'⟩ := t.onIndex h fun _ => (pure () : Action Unit) <;> exact ⟨rfl, rfl⟩

theorem reflects_of_reports {c : Call} (hc : c.reports = true) : t.Reflects c := by
  cases c with
  | openStandard path width => exact t.openStandard_told path width
  | openWithOptions path width m searchWidth metric =>
    exact t.openWithOptions_told path width m searchWidth metric
  | insert h u vector row =>
    obtain ⟨hstate, hfailed⟩ := t.insert_spec h u vector row
    show (t.insert h u vector row).2.2.lastError.isSome = ((t.insert h u vector row).1 == failure)
    rw [hstate, hfailed]
    exact t.onIndex_told h _
  | delete h l =>
    obtain ⟨hstate, hfailed⟩ := t.delete_spec h l
    show (t.delete h l).2.lastError.isSome = ((t.delete h l).1 == failure)
    rw [hstate, hfailed]
    exact t.onIndex_told h _
  | flush h =>
    obtain ⟨hstate, hfailed⟩ := t.flush_spec h
    show (t.flush h).2.lastError.isSome = ((t.flush h).1 == failure)
    rw [hstate, hfailed]
    exact t.onIndex_told h _
  | dimensions h => cases hc
  | free h => cases hc

theorem lastError_of_silent {c : Call} (hc : c.reports = false) :
    (c.run t).2.lastError = t.lastError := by
  cases c with
  | dimensions h => rfl
  | free h =>
    show (t.free h).lastError = _
    rw [free]
    split <;> rfl
  | openStandard => cases hc
  | openWithOptions => cases hc
  | insert => cases hc
  | delete => cases hc
  | flush => cases hc

end State

def Wide (handles : Array (Option Handle)) : Prop := ∀ x, some x ∈ handles → 0 < x.index.dimensions

section
variable {handles : Array (Option Handle)} (h : Wide handles) {y : Option Handle}
  (hy : ∀ x, y = some x → 0 < x.index.dimensions)
include h hy

theorem Wide.push : Wide (handles.push y) := by
  intro x hx
  rcases Array.mem_push.mp hx with hx | heq
  · exact h x hx
  · exact hy x heq.symm

theorem Wide.set (n : Nat) : Wide (handles.setIfInBounds n y) := by
  intro x hx
  rcases Array.mem_or_eq_of_mem_setIfInBounds hx with hx | heq
  · exact h x hx
  · exact hy x heq.symm

end

namespace State

variable {t : State}

theorem mem_of_handle? {h : Option Nat} {n : Nat} {x : Handle} (hx : t.handle? h = some (n, x)) :
    some x ∈ t.handles := by
  cases h with
  | none => cases hx
  | some k =>
    obtain ⟨y, hy, heq⟩ := Option.map_eq_some_iff.mp hx
    obtain rfl : y = x := (Prod.mk.inj heq).2
    exact Array.mem_of_getElem? (Option.join_eq_some_iff.mp hy)

section
variable (ht : Wide t.handles)
include ht

theorem refuse_wide (text : String) : Wide (t.refuse text).2.handles :=
  ht.push fun _ hx => nomatch hx

theorem openIndex_wide (path : String) (width : UInt32) (o : Options) :
    Wide (t.openIndex path width o).2.handles := by
  rw [openIndex]
  split
  · split <;> exact ht.push fun _ hx => nomatch hx
  · split
    · exact ht.push fun _ hx => nomatch hx
    · next hopen =>
      refine ht.push fun x hx => ?_
      rw [← Option.some.inj hx]
      exact Index.openFile_pos hopen

theorem onIndex_wide {α : Type} (h : Option Nat) (f : Index → Action α) :
    Wide (t.onIndex h f).2.handles := by
  rw [onIndex]
  split
  · exact ht
  · next n x hx =>
    have hwidth := ht x (mem_of_handle? hx)
    split
    · refine ht.set (fun y hy => ?_) n
      rw [← Option.some.inj hy]
      exact hwidth
    · refine ht.set (fun y hy => ?_) n
      rw [← Option.some.inj hy]
      exact hwidth

theorem run_wide (c : Call) : Wide (c.run t).2.handles := by
  cases c with
  | openStandard path width =>
    show Wide (t.openStandard path width).2.handles
    rw [openStandard]
    split
    · exact refuse_wide ht _
    · exact openIndex_wide ht _ _ _
  | openWithOptions path width m searchWidth metric =>
    show Wide (t.openWithOptions path width m searchWidth metric).2.handles
    rw [openWithOptions]
    split
    · exact refuse_wide ht _
    · split
      · exact refuse_wide ht _
      · split
        · exact refuse_wide ht _
        · exact openIndex_wide ht _ _ _
  | insert h u vector row =>
    show Wide (t.insert h u vector row).2.2.handles
    rw [(t.insert_spec h u vector row).1]
    exact onIndex_wide ht h _
  | delete h l =>
    show Wide (t.delete h l).2.handles
    rw [(t.delete_spec h l).1]
    exact onIndex_wide ht h _
  | flush h =>
    show Wide (t.flush h).2.handles
    rw [(t.flush_spec h).1]
    exact onIndex_wide ht h _
  | dimensions h => exact ht
  | free h =>
    show Wide (t.free h).handles
    rw [free]
    split
    · exact ht
    · refine ht.set (fun _ hx => ?_) _
      cases hx

theorem dimensions_eq_zero (h : Option Nat) : t.dimensions h = 0 ↔ t.handle? h = none := by
  rw [dimensions]
  cases hx : t.handle? h with
  | none => exact ⟨fun _ => rfl, fun _ => rfl⟩
  | some found =>
    obtain ⟨n, x⟩ := found
    have hwidth := ht x (mem_of_handle? hx)
    exact ⟨fun hz => absurd hz (Nat.ne_of_gt hwidth), fun hnull => nomatch hnull⟩

end

theorem after_wide (calls : List Call) : ∀ t : State, Wide t.handles →
    Wide (t.after calls).handles := by
  induction calls with
  | nil => exact fun _ ht => ht
  | cons c calls ih => exact fun t ht => ih _ (run_wide ht c)

theorem lastError_after (calls : List Call) : ∀ t : State,
    (t.after calls).lastError.isSome =
      ((t.lastReport calls).map Reply.failed).getD t.lastError.isSome := by
  induction calls with
  | nil => exact fun _ => rfl
  | cons c calls ih =>
    intro t
    have hafter : t.after (c :: calls) = (c.run t).2.after calls := rfl
    rw [hafter, ih]
    cases hc : c.reports with
    | true =>
      have hreport : t.lastReport (c :: calls) =
          some (((c.run t).2.lastReport calls).getD (c.run t).1) := by
        simp only [lastReport, replies, List.filter_cons, hc, if_true, List.getLast?_cons]
        cases (List.filter _ ((c.run t).2.replies calls)).getLast? <;> rfl
      have htold : t.Reflects c := reflects_of_reports hc
      rw [hreport, htold]
      cases (c.run t).2.lastReport calls <;> rfl
    | false =>
      have hreport : t.lastReport (c :: calls) = (c.run t).2.lastReport calls := by
        simp [lastReport, replies, hc]
      rw [hreport, lastError_of_silent hc]

/-- What the text tells on a thread after some calls. -/
structure Told (t₀ : State) (calls : List Call) : Prop where
  /-- There is one if the last call that reports has failed. -/
  text : (t₀.after calls).lastError.isSome = (t₀.lastReport calls).any Reply.failed
  /-- A further call that reports is told of. -/
  reporting : ∀ c, c.reports = true → (t₀.after calls).Reflects c
  /-- After a handle has been closed, which goes well, the text tells the truth if no failure is left
  from before. -/
  closing : ∀ h, (t₀.after calls).Reflects (.free h) ↔
    (t₀.lastReport calls).any Reply.failed = false
  /-- Only a null handle has no width. -/
  width : ∀ h, ((Call.dimensions h).run (t₀.after calls)).1.failed = true ↔
    (t₀.after calls).handle? h = none
  /-- After a null handle has been asked for its width, the text tells the truth if a failure is left
  from before, and after another handle has been asked if none is. -/
  asking : ∀ h, (t₀.after calls).Reflects (.dimensions h) ↔
    ((t₀.lastReport calls).any Reply.failed = true ↔ (t₀.after calls).handle? h = none)

/-- Whatever a thread has called, whatever was on the disk: the text tells about the last call if
that reports, and about the last one that reports if it does not. -/
theorem lastError_told (disk : Disk) (calls : List Call) : Told (start disk) calls := by
  have hwide : Wide ((start disk).after calls).handles :=
    after_wide calls _ fun _ hx => absurd hx (Array.not_mem_empty _)
  have htext : ((start disk).after calls).lastError.isSome =
      ((start disk).lastReport calls).any Reply.failed := by
    rw [lastError_after]
    cases (start disk).lastReport calls <;> rfl
  have hzero : ∀ h, ((Call.dimensions h).run ((start disk).after calls)).1.failed =
      true ↔ ((start disk).after calls).handle? h = none :=
    fun h => beq_iff_eq.trans (dimensions_eq_zero hwide h)
  refine ⟨htext, fun c => reflects_of_reports, fun h => ?_, hzero, fun h => ?_⟩
  · rw [Reflects, lastError_of_silent rfl, htext]
    rfl
  · rw [Reflects, lastError_of_silent rfl, htext, Bool.eq_iff_iff, hzero]

section
variable {t : State}

theorem openStandard_eq {bytes : Option Bytes} {path : String} (h : pathOf bytes = .ok path)
    (width : UInt32) : t.openStandard bytes width = t.openIndex path width .standard := by
  rw [openStandard, h]

theorem openIndex_ok {path : String} {width : UInt32} {o : Options} {trail : Trail}
    {file file' : FileState} {ix : Index} {s : Store} (hfind : t.disk.find path = .ok (trail, file))
    (hopen : Index.openFile path width o file = (.ok (ix, s), file')) :
    t.openIndex path width o = (true,
      ⟨t.disk.put trail file', t.handles.push (some ⟨trail, ix, s⟩), none⟩) := by
  rw [openIndex, hfind]
  simp only [hopen]

theorem onIndex_error {α : Type} {h : Option Nat} {f : Index → Action α} {n : Nat} {x : Handle}
    {e : Error} {s : Store} (hx : t.handle? h = some (n, x)) (hf : f x.index x.store = .error e s) :
    t.onIndex h f = (none,
      ⟨t.disk, t.handles.setIfInBounds n (some { x with store := s }), some (report e)⟩) := by
  simp only [onIndex, hx, hf]

end

def failing : List Call := [.openStandard (some #[97]) 2, .delete (some 0) ⟨40, 0⟩]

theorem after_failing : ∃ x, ((start ⟨[], []⟩).after failing).handle? (some 0) = some (0, x) ∧
    x.index.dimensions = 2 ∧ ((start ⟨[], []⟩).after failing).lastError.isSome = true := by
  have hpath : pathOf (some #[97]) = .ok "a" := by cbv
  have hfind : (start ⟨[], []⟩).disk.find "a" = .ok (["a"], .absent) := by cbv
  have hopen := (openStandard_eq hpath 2).trans (openIndex_ok hfind
    (Index.openFile_blank Index.checkOptions_new_file "a" .absent rfl))
  have hcount : (Store.fresh (Index.template 2 Options.standard)).pageCount ≤
      (40 : PageId).toNat := show 2 ≤ 40 by decide
  have hmissing : ∃ e, markDeleted ⟨40, 0⟩ (Store.fresh (Index.template 2 Options.standard)) =
      .error e (Store.fresh (Index.template 2 Options.standard)) :=
    ⟨_, editPage_missing _ _ _ hcount⟩
  generalize Store.fresh (Index.template 2 Options.standard) = s at hopen hmissing
  obtain ⟨e, hmissing⟩ := hmissing
  have hafter : (start ⟨[], []⟩).after failing =
      (((start ⟨[], []⟩).openStandard (some #[97]) 2).2.delete (some 0) ⟨40, 0⟩).2 := rfl
  rw [hafter, hopen, delete, onIndex_error rfl hmissing]
  exact ⟨_, rfl, rfl, rfl⟩

/-- After the failed deletion the index tells its width and is closed, and the text of the failure is
still there. A null handle has no width, and no text says so. -/
theorem lastError_outlives : ∃ t : State, t = (start ⟨[], []⟩).after failing ∧
    (Call.dimensions (some 0)).run t = (.width 2, t) ∧ t.lastError.isSome = true ∧
    ¬t.Reflects (.dimensions (some 0)) ∧ ¬t.Reflects (.free (some 0)) ∧
    ¬(start ⟨[], []⟩).Reflects (.dimensions none) := by
  obtain ⟨x, hhandle, hwidth, hsome⟩ := after_failing
  have htold := lastError_told ⟨[], []⟩ failing
  have hreport : ((start ⟨[], []⟩).lastReport failing).any Reply.failed = true :=
    htold.text.symm.trans hsome
  refine ⟨_, rfl, ?_, hsome, fun hasking => ?_, fun hclosing => ?_, fun hnull => ?_⟩
  · rw [Call.run, dimensions, hhandle]
    exact congrArg (fun n => (Reply.width n, _)) hwidth
  · have hnone := ((htold.asking (some 0)).mp hasking).mp hreport
    cases hhandle.symm.trans hnone
  · cases hreport.symm.trans ((htold.closing (some 0)).mp hclosing)
  · have hasked := (lastError_told ⟨[], []⟩ []).asking none
    cases (hasked.mp hnull).mpr rfl

end State

end CInterface

end PagedGraph
