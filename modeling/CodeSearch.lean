import CodeSearch.Embedding.Script
import CodeSearch.Main
import CodeSearch.Record.Service
import CodeSearch.Service.Script
import CodeSearch.Proofs.Index.Traffic
import CodeSearch.Proofs.Engine.Session
import CodeSearch.Proofs.Engine.CurrentGeneration
import CodeSearch.Proofs.Chunk.Identity
import CodeSearch.Proofs.Engine.ChunkIds
import CodeSearch.Proofs.Engine.Answers
import CodeSearch.Proofs.Engine.Availability
import CodeSearch.Proofs.Index.Retirement
import CodeSearch.Proofs.Engine.KeptTables
import CodeSearch.Proofs.Engine.Remembered
import CodeSearch.Proofs.Embedding.Attempts
import CodeSearch.Proofs.Engine.Attempts
import CodeSearch.Proofs.Engine.FailedIndex
import CodeSearch.Proofs.Engine.Provenance
import CodeSearch.Proofs.Engine.Indexing
import CodeSearch.Proofs.Engine.StoreGivenUp
import CodeSearch.Proofs.Engine.Calls
import CodeSearch.Proofs.Lru.Recent
import CodeSearch.Proofs.Embedding.Workbench
import CodeSearch.Proofs.Embedding.Coherence
import CodeSearch.Proofs.Embedding.Reuse
import CodeSearch.Proofs.Explain.Replies
import CodeSearch.Proofs.Files.Contribution
import CodeSearch.Proofs.Engine.Gathering
import CodeSearch.Proofs.Engine.Contributions
import CodeSearch.Proofs.Engine.EmbedderFaults
import CodeSearch.Proofs.Engine.VectorAnswers
import CodeSearch.Proofs.Vector.Replacement
import CodeSearch.Proofs.Vector.StoredChunks
import CodeSearch.Proofs.Chunk.Placement
import CodeSearch.Proofs.Config.Saves
import CodeSearch.Proofs.Engine.Summaries
import CodeSearch.Proofs.Engine.Closing
import CodeSearch.Proofs.Files.Finding
import CodeSearch.Proofs.Embedding.Course
import CodeSearch.Proofs.Lru.LastUsed
import CodeSearch.Proofs.Embedding.Retrying
import CodeSearch.Proofs.Embedding.Keeping
import CodeSearch.Proofs.Tree.Naming
import CodeSearch.Proofs.Tree.Address
import CodeSearch.Proofs.Chunk.Numbering
import CodeSearch.Proofs.Chunk.Nesting
import CodeSearch.Proofs.Tree.FirstFault
import CodeSearch.Proofs.Chunk.SourceOrder
import CodeSearch.Proofs.Search.Verbatim
import CodeSearch.Proofs.Explain.Reasons
import CodeSearch.Proofs.Config.Overwriting
import CodeSearch.Proofs.Config.Choosing
import CodeSearch.Proofs.Chunk.Window
import CodeSearch.Proofs.Embedding.WordCounts
import CodeSearch.Proofs.Analysis.Views
import CodeSearch.Proofs.Command.Listing
import CodeSearch.Proofs.Tree.Walk
import CodeSearch.Proofs.Chunk.Recursion
