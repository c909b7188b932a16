import ChunkStore.Main
import ChunkStore.Volume
import ChunkStore.Proofs.Chunk.Accounting
import ChunkStore.Proofs.Chunk.Rebuild
import ChunkStore.Proofs.Descriptor
import ChunkStore.Proofs.FieldAgreement
import ChunkStore.Proofs.Regions
import ChunkStore.Proofs.Store.Interning
import ChunkStore.Proofs.Store.Lifecycle
import ChunkStore.Proofs.Store.Numbering
import ChunkStore.Proofs.Store.Preservation
import ChunkStore.Proofs.Store.Reference
import ChunkStore.Proofs.Store.Timestamps
import ChunkStore.Proofs.Transaction.Agreement
import ChunkStore.Proofs.Transaction.Consecutive
import ChunkStore.Proofs.Chunk.Lazy
import ChunkStore.Proofs.Cache
import ChunkStore.Proofs.Uuid
import ChunkStore.Proofs.Json
import ChunkStore.Proofs.Chunk.Listing
