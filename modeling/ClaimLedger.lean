import ClaimLedger.Block
import ClaimLedger.Block.Header
import ClaimLedger.Block.Merkle
import ClaimLedger.BlockDir
import ClaimLedger.BlockDir.Index
import ClaimLedger.BlockDir.Scan
import ClaimLedger.Bytes
import ClaimLedger.Bytes.Hex
import ClaimLedger.Bytes.Lemmas
import ClaimLedger.Chain
import ClaimLedger.Chain.Scripted
import ClaimLedger.Claim
import ClaimLedger.ClaimId
import ClaimLedger.Digest
import ClaimLedger.Digest.Ripemd160
import ClaimLedger.Digest.Sha256
import ClaimLedger.Error
import ClaimLedger.Height
import ClaimLedger.Ledger.Apply
import ClaimLedger.Ledger.Lemmas
import ClaimLedger.Ledger.Settle
import ClaimLedger.Ledger.Snapshot
import ClaimLedger.Ledger.State
import ClaimLedger.Ledger.View
import ClaimLedger.Network
import ClaimLedger.OutPoint
import ClaimLedger.Progress
import ClaimLedger.Progress.Audience
import ClaimLedger.Progress.Stream
import ClaimLedger.RowStore
import ClaimLedger.RowStore.Access
import ClaimLedger.RowStore.Faulty
import ClaimLedger.RowStore.Tables
import ClaimLedger.Rules
import ClaimLedger.Script
import ClaimLedger.Settings
import ClaimLedger.Sync
import ClaimLedger.Sync.Coverage
import ClaimLedger.Sync.Stage
import ClaimLedger.Text.Combining
import ClaimLedger.Text.Quoted
import ClaimLedger.Text.Unprintable
import ClaimLedger.Text.Utf8
import ClaimLedger.Toml.Document
import ClaimLedger.Toml.Text
import ClaimLedger.Toml.Value
import ClaimLedger.Transaction
import ClaimLedger.TxEvent
import ClaimLedger.Wire
import ClaimLedger.Proofs.Ledger.Accepted
import ClaimLedger.Proofs.Ledger.Alike
import ClaimLedger.Proofs.Ledger.Cells
import ClaimLedger.Proofs.Ledger.Changes
import ClaimLedger.Proofs.Ledger.Control
import ClaimLedger.Proofs.Ledger.Defined
import ClaimLedger.Proofs.Ledger.EachRow
import ClaimLedger.Proofs.Ledger.Eager
import ClaimLedger.Proofs.Ledger.InTurn
import ClaimLedger.Proofs.Ledger.Indexed
import ClaimLedger.Proofs.Ledger.Tenure
import ClaimLedger.Proofs.Ledger.Lookup
import ClaimLedger.Proofs.Ledger.Places
import ClaimLedger.Proofs.Ledger.Resumed
import ClaimLedger.Proofs.RowStore.Tables
import ClaimLedger.Proofs.RowStore.Recalled
import ClaimLedger.Proofs.Sync.Carried
import ClaimLedger.Proofs.Sync.Links
import ClaimLedger.Proofs.Sync.Resume
import ClaimLedger.Proofs.Sync.Cursor
import ClaimLedger.Proofs.BlockDir.Linking
import ClaimLedger.Proofs.BlockDir.Records
import ClaimLedger.Proofs.BlockDir.Catalogue
import ClaimLedger.Proofs.BlockDir.Runs
import ClaimLedger.Proofs.BlockDir.Served
import ClaimLedger.Proofs.BlockDir.Rescans
import ClaimLedger.Proofs.Ledger.Noninterference
import ClaimLedger.Proofs.Script
import ClaimLedger.Proofs.Wire.Reads
import ClaimLedger.Proofs.Block.RoundTrip
import ClaimLedger.Proofs.BlockDir.Resumption
import ClaimLedger.Proofs.BlockDir.Parents
import ClaimLedger.Proofs.BlockDir.Growing
import ClaimLedger.Proofs.Ledger.Accounted
import ClaimLedger.Proofs.RowStore.Answers
import ClaimLedger.Proofs.Ledger.Attended
import ClaimLedger.Proofs.Ledger.Surviving
import ClaimLedger.Proofs.Ledger.Summed
import ClaimLedger.Proofs.Sync.Told
import ClaimLedger.Proofs.Ledger.Renewal
import ClaimLedger.Proofs.BlockDir.Traversal
import ClaimLedger.Proofs.Block.Commitment
import ClaimLedger.Proofs.Progress.Followed
import ClaimLedger.Proofs.Sync.Coverage
import ClaimLedger.Proofs.Ledger.Represented
import ClaimLedger.Proofs.Ledger.AddsUp
