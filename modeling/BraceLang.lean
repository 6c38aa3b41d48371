import BraceLang.Main
import BraceLang.Proofs.ValidPrefix
import BraceLang.Proofs.Partition
import BraceLang.Proofs.LongestTokens
import BraceLang.Proofs.FaultBlanking
import BraceLang.Proofs.RoundTrip
import BraceLang.Proofs.ForLoop
import BraceLang.Proofs.Precedence
import BraceLang.Proofs.TreeTokens
import BraceLang.Proofs.Relocation
import BraceLang.Proofs.Pointing
import BraceLang.Proofs.Joining
import BraceLang.Proofs.Reuse
import BraceLang.Proofs.Limit
import BraceLang.Proofs.Layout
import BraceLang.Proofs.EndOfTokens
import BraceLang.Proofs.CommandResults
import BraceLang.Proofs.Returned
import BraceLang.Proofs.FirstTokens
import BraceLang.Proofs.Height
import BraceLang.Proofs.OpenIf
import BraceLang.Proofs.Colors
import BraceLang.Proofs.Listing
import BraceLang.Proofs.Progress
import BraceLang.Proofs.Integers
