import ComHeaders.Main
import ComHeaders.Proofs.Dispatch.Slots
import ComHeaders.Proofs.Dispatch.Generalization
import ComHeaders.Proofs.Dispatch.WrapperNames
import ComHeaders.Proofs.SourceOrder
import ComHeaders.Proofs.StructOrder.Precedence
import ComHeaders.Proofs.Classification.Agreement
import ComHeaders.Proofs.Reach
import ComHeaders.Proofs.ValueTexts
import ComHeaders.Proofs.Soundness
import ComHeaders.Proofs.Classification.Absorption
import ComHeaders.Proofs.Duplicates
import ComHeaders.Proofs.Classification.Partition
import ComHeaders.Proofs.Files
import ComHeaders.Proofs.Passes
import ComHeaders.Proofs.Writing
import ComHeaders.Proofs.Statistics
import ComHeaders.Proofs.Metadata.Written
import ComHeaders.Proofs.Command.Exit
import ComHeaders.Proofs.Dispatch.Suffixes
import ComHeaders.Proofs.Classification.BitGroups
import ComHeaders.Proofs.Naming.Rules
import ComHeaders.Proofs.Histories
import ComHeaders.Proofs.Dispatch.BaseWalks
import ComHeaders.Proofs.Answers
import ComHeaders.Proofs.Naming.Aggregates
import ComHeaders.Proofs.Literals.Singles
import ComHeaders.Proofs.Literals.Integers
import ComHeaders.Proofs.Dispatch.Signatures
import ComHeaders.Proofs.Structs.Blocks
import ComHeaders.Proofs.Literals.Guids
import ComHeaders.Proofs.Layout
import ComHeaders.Proofs.Structs.Carvings
import ComHeaders.Proofs.Classification.Inlining
import ComHeaders.Proofs.Classification.Exclusion
import ComHeaders.Proofs.Dispatch.Deprecation
import ComHeaders.Proofs.Views
