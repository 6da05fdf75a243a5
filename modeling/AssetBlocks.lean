import AssetBlocks.Main
import AssetBlocks.Proofs.Again
import AssetBlocks.Proofs.ClosingMarker
import AssetBlocks.Proofs.Concatenation
import AssetBlocks.Proofs.Failure
import AssetBlocks.Proofs.Outline
import AssetBlocks.Proofs.Printing
import AssetBlocks.Proofs.Report
import AssetBlocks.Proofs.Calls
import AssetBlocks.Proofs.Work
import AssetBlocks.Proofs.Destinations
import AssetBlocks.Proofs.Fields
import AssetBlocks.Proofs.Passes
import AssetBlocks.Proofs.Configured
import AssetBlocks.Proofs.Written
import AssetBlocks.Proofs.Counting
import AssetBlocks.Proofs.Checking
import AssetBlocks.Proofs.SelfClosing
import AssetBlocks.Proofs.Words
import AssetBlocks.Proofs.Accounting
import AssetBlocks.Proofs.Tally
import AssetBlocks.Proofs.Extraction
import AssetBlocks.Proofs.Runs
import AssetBlocks.Proofs.Ancestors
import AssetBlocks.Proofs.Expansion
import AssetBlocks.Proofs.Positions
import AssetBlocks.Proofs.Precedence
import AssetBlocks.Proofs.Tokens
import AssetBlocks.Proofs.Uncommented
import AssetBlocks.Proofs.Indentation
import AssetBlocks.Proofs.Unclosed
import AssetBlocks.Proofs.Cursor
import AssetBlocks.Proofs.Descent
import AssetBlocks.Proofs.Names
import AssetBlocks.Proofs.Options
