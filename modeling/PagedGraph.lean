import PagedGraph.Store.Session
import PagedGraph.CInterface
import PagedGraph.Proofs.PageBytes
import PagedGraph.Proofs.PageContents
import PagedGraph.Proofs.HeaderPage
import PagedGraph.Proofs.Records
import PagedGraph.Proofs.Edits
import PagedGraph.Proofs.Intact
import PagedGraph.Proofs.RowLists
import PagedGraph.Proofs.Updates
import PagedGraph.Proofs.Groups
import PagedGraph.Proofs.Transactions
import PagedGraph.Proofs.Growth
import PagedGraph.Proofs.Room
import PagedGraph.Proofs.PairWrites
import PagedGraph.Proofs.Reopening
import PagedGraph.Proofs.Company
import PagedGraph.Proofs.Crowd
import PagedGraph.Proofs.Overlaps
import PagedGraph.Proofs.Isolation
import PagedGraph.Proofs.Scanning
import PagedGraph.Proofs.Searching
import PagedGraph.Proofs.Inserting
import PagedGraph.Proofs.LiveElements
import PagedGraph.Proofs.LiveChanges
import PagedGraph.Proofs.Coalescing
import PagedGraph.Proofs.Fitting
import PagedGraph.Proofs.Navigation
import PagedGraph.Proofs.History
import PagedGraph.Proofs.Capacity
import PagedGraph.Proofs.Allocation
import PagedGraph.Proofs.SearchEnds
import PagedGraph.Proofs.ValidInserts
import PagedGraph.Proofs.PageCalls
import PagedGraph.Proofs.Chains
import PagedGraph.Proofs.Races
import PagedGraph.Proofs.Orphans
import PagedGraph.Proofs.Weaving
import PagedGraph.Proofs.Interludes
import PagedGraph.Proofs.Recycling
import PagedGraph.Proofs.DistinctLinks
import PagedGraph.Proofs.LayerLinks
import PagedGraph.Proofs.SelfLinks
import PagedGraph.Proofs.FirstDuplicate
import PagedGraph.Proofs.Persistence
import PagedGraph.Proofs.Addresses
import PagedGraph.Proofs.Companions
import PagedGraph.Proofs.Publication
import PagedGraph.Proofs.Numbering
import PagedGraph.Proofs.LockKeeping
import PagedGraph.Proofs.Sharing
import PagedGraph.Proofs.FirstFit
import PagedGraph.Proofs.WholeWrites
import PagedGraph.Proofs.Nearest
import PagedGraph.Proofs.Shortlists
import PagedGraph.Proofs.Unbroken
import PagedGraph.Proofs.BackLinks
import PagedGraph.Proofs.LateLinks
import PagedGraph.Proofs.Codecs
import PagedGraph.Proofs.FullPages
import PagedGraph.Proofs.Tombstones
import PagedGraph.Proofs.OwnLists
import PagedGraph.Proofs.Segments
import PagedGraph.Proofs.RefusedOpens
import PagedGraph.Proofs.Looking
import PagedGraph.Proofs.ChainWalks
import PagedGraph.Proofs.ReportedRows
import PagedGraph.Proofs.NumericOrder
import PagedGraph.Proofs.CandidateOrder
import PagedGraph.Proofs.Expansions
import PagedGraph.Proofs.ErrorTexts
import PagedGraph.Proofs.WellPaired
import PagedGraph.Proofs.Accounting
