import PagedGraph.Store.Basic

/-!
# Opening and closing files

A file is opened by one user at a time. An empty or missing file is set up first, with the
requested header on the meta page and one empty data page; then the file's own header is checked,
and it must agree with the requested one in dimensions, fan-out and metric.
-/

set_option autoImplicit false

namespace PagedGraph

/-- What stands at a path. -/
inductive FileState where
  | absent
  | directory
  | closed (content : Bytes)
  | inUse (content : Bytes)

namespace Store

def pageOf (content : Bytes) (index : Nat) : Page :=
  ⟨Vector.ofFn fun i => content.getD (index * pageSize + i) 0⟩

def metaImage (template : Header) : Page :=
  template.writeTo ⟨Vector.replicate pageSize 0⟩

def initialContent (template : Header) : Bytes :=
  (metaImage template).bytes.toArray ++ Page.empty.bytes.toArray

/-- Whether a file's header fits the one that its user asks for. -/
def checkHeader (path : String) (header template : Header) : Except Error Unit :=
  if !header.isValid || header.pageBytes.toNat != pageSize then .error (.incompatible path)
  else if header.dimensions ≠ template.dimensions then
    .error (.dimensionsDiffer header.dimensions.toNat template.dimensions.toNat)
  else if header.m ≠ template.m ∨ header.metric ≠ template.metric then
    .error (.parametersDiffer header.m.toNat header.metric.toNat template.m.toNat
      template.metric.toNat)
  else .ok ()

def ofContent (path : String) (template : Header) (content : Bytes) : Except Error Store :=
  if h : content.size < 2 * pageSize ∨ content.size % pageSize ≠ 0 then .error (.notAnIndex path)
  else
    let s : Store := {
      pages := Array.ofFn fun i : Fin (content.size / pageSize) => pageOf content i
      held := []
      two_le_size := by
        simp only [Array.size_ofFn]
        simp only [pageSize] at h ⊢
        omega }
    (checkHeader path s.header template).map fun _ => s

/-- Opens a path. The second component is what stands there afterwards: a new file is set up even
if the request then turns out to be unacceptable. -/
def openFile (path : String) (template : Header) : FileState → Except Error Store × FileState
  | .directory => (.error (.cannotOpen path .isDirectory), .directory)
  | .inUse content => (.error .alreadyOpen, .inUse content)
  | .absent => attempt (initialContent template)
  | .closed content => attempt (if content.size = 0 then initialContent template else content)
where
  attempt (content : Bytes) : Except Error Store × FileState :=
    match ofContent path template content with
    | .error e => (.error e, .closed content)
    | .ok s => (.ok s, .inUse content)

def close (s : Store) : FileState := .closed s.bytes

end Store

end PagedGraph
