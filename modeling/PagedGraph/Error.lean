import PagedGraph.Location

/-!
# Causes of failure

One type for everything that can go wrong, from a damaged page to a rejected vector. The wording
of a cause is `Error.message`; what the operating system adds to it is `Error.systemText`.

Three causes are no failures of the caller: `outsidePage` (an access that would leave the page),
`wouldBlock` (the operation waits for a lock that somebody else holds) and `endlessWalk` (the walk
along the page chain has come back to a page it has already probed, and so never ends).
-/

set_option autoImplicit false

namespace PagedGraph

/-- What an exclusive lock protects: one page, or the right to make the file grow. -/
inductive Lock where
  | page (id : PageId)
  | growth
  deriving DecidableEq, Repr

inductive PathFault where
  | isDirectory
  | noSuchEntry
  | notDirectory
  | nameTooLong
  deriving DecidableEq, Repr

/-- Which write of a new record pair did not fit. -/
inductive PairWrite where
  | addElement
  | addNeighbors
  | overwriteElement
  | overwriteNeighbors
  deriving DecidableEq, Repr

inductive Error where
  | imageSize (bytes : Nat)
  | slotOutOfRange (slot count : Nat)
  | corruptItem (slot offset len : Nat)
  | pageFull (bytes free : Nat)
  | replacementTooLarge (bytes slot : Nat)
  | outsidePage
  | shortHeader (bytes : Nat)
  | notElement
  | elementTooShort (bytes : Nat)
  | vectorTooShort (bytes dimensions : Nat)
  | notAdjacency
  | adjacencyTooShort (bytes : Nat)
  | slotsTooShort (bytes slots : Nat)
  | badElement (location : Location) (cause : Error)
  | badNeighbors (location : Location) (cause : Error)
  | pageOutOfBounds (page : PageId) (count : Nat)
  | cannotLock (page : PageId) (count : Nat)
  | registeredTwice (page : PageId)
  | pageIdsExhausted
  | beyondEnd (page : PageId) (limit : Nat)
  | wouldBlock (lock : Lock)
  | cannotOpen (path : String) (fault : PathFault)
  | alreadyOpen
  | notAnIndex (path : String)
  | incompatible (path : String)
  | dimensionsDiffer (stored requested : Nat)
  | parametersDiffer (storedM storedMetric m metric : Nat)
  | chainLoop (page : PageId)
  | endlessWalk
  | pairWrite (attempt : PairWrite) (cause : Error)
  | fanOutTooSmall (m : Nat)
  | fanOutTooLarge (cap m : Nat)
  | dimensionsOutOfRange (max dimensions : Nat)
  | maxLevelTooHigh (level cap m : Nat)
  | levelTooHigh (level max : Nat)
  | wrongDimensions (expected got : Nat)
  | notFinite
  deriving DecidableEq, Repr

def PairWrite.text : PairWrite → String
  | addElement => "Failed to add element tuple"
  | addNeighbors => "Failed to add neighbor tuple"
  | overwriteElement => "Failed to overwrite element tuple"
  | overwriteNeighbors => "Failed to overwrite neighbor tuple"

def PathFault.text : PathFault → String
  | isDirectory => "Is a directory (os error 21)"
  | noSuchEntry => "No such file or directory (os error 2)"
  | notDirectory => "Not a directory (os error 20)"
  | nameTooLong => "File name too long (os error 36)"

/-- What an error says, the outermost cause first. -/
def Error.message : Error → String
  | imageSize bytes => s!"Page image has {bytes} bytes, expected {pageSize}"
  | slotOutOfRange slot count => s!"Slot {slot} out of range (slot count {count})"
  | corruptItem slot offset len =>
      s!"Corrupt item id for slot {slot}: offset {offset}, len {len}"
  | pageFull bytes free => s!"Page full: tuple of {bytes} bytes, {free} bytes free"
  | replacementTooLarge bytes slot =>
      s!"Replacement tuple of {bytes} bytes does not fit in slot {slot}"
  | outsidePage => "Access outside the page"
  | shortHeader bytes => s!"Buffer too small for header: {bytes} bytes"
  | notElement => "Not an element tuple"
  | elementTooShort bytes => s!"Element tuple truncated: {bytes} bytes"
  | vectorTooShort bytes dimensions =>
      s!"Element tuple truncated: {bytes} bytes for {dimensions} dimensions"
  | notAdjacency => "Not a neighbor tuple"
  | adjacencyTooShort bytes => s!"Neighbor tuple truncated: {bytes} bytes"
  | slotsTooShort bytes slots =>
      s!"Neighbor tuple truncated: {bytes} bytes for {slots} slots"
  | badElement location cause => s!"Bad element tuple at {location}: " ++ cause.message
  | badNeighbors location cause => s!"Bad neighbor tuple at {location}: " ++ cause.message
  | pageOutOfBounds page count => s!"Page {page} out of bounds (store has {count} pages)"
  | cannotLock page count => s!"Cannot lock page {page}: store has {count} pages"
  | registeredTwice page => s!"Page {page} registered twice in one group"
  | pageIdsExhausted => "Page id space exhausted"
  | beyondEnd page limit => s!"Commit of page {page} beyond end of store ({limit} pages)"
  | wouldBlock _ => "Waiting for a lock held by another writer"
  | cannotOpen path _ => s!"Failed to open lattice file: {path}"
  | alreadyOpen => "Lattice file is already open by another process"
  | notAnIndex path => s!"File is not a valid Lattice index: {path}"
  | incompatible path => s!"Corrupted or incompatible Lattice file at {path}"
  | dimensionsDiffer stored requested =>
      s!"Dimension mismatch: file has {stored}, requested {requested}"
  | parametersDiffer storedM storedMetric m metric =>
      s!"Graph parameter mismatch: file has m={storedM} metric={storedMetric}, " ++
        s!"requested m={m} metric={metric}"
  | chainLoop page => s!"Page chain loops back to page {page}"
  | endlessWalk => "The walk along the page chain does not end"
  | pairWrite attempt cause => attempt.text ++ ": " ++ cause.message
  | fanOutTooSmall m => s!"m must be at least 2, got {m}"
  | fanOutTooLarge cap m => s!"m must be at most {cap} to fit a page, got {m}"
  | dimensionsOutOfRange max dimensions =>
      s!"Dimensions must be between 1 and {max}, got {dimensions}"
  | maxLevelTooHigh level cap m => s!"max_level {level} exceeds {cap} for m = {m}"
  | levelTooHigh level max => s!"Level {level} exceeds max level {max}"
  | wrongDimensions expected got =>
      s!"Vector dimension mismatch: expected {expected}, got {got}"
  | notFinite => "Vector contains non-finite values"

/-- The operating system's own text for a cause that came from it. -/
def Error.systemText : Error → Option String
  | cannotOpen _ fault => some fault.text
  | alreadyOpen => some "Resource temporarily unavailable (os error 11)"
  | _ => none

end PagedGraph
