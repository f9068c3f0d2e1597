import TagLint.FileSystem.Tree
import TagLint.Main
import TagLint.Proofs.Config.Acceptance
import TagLint.Proofs.Config.Expectations
import TagLint.Proofs.Config.Extensions
import TagLint.Proofs.Config.Lists
import TagLint.Proofs.Config.Restrictions
import TagLint.Proofs.Discovery.Walk
import TagLint.Proofs.Markup.Ampersands
import TagLint.Proofs.Markup.DocumentTypes
import TagLint.Proofs.Nesting.OpenElements
import TagLint.Proofs.Nesting.Truncation
import TagLint.Proofs.Report.Lines
import TagLint.Proofs.Report.Lossless
import TagLint.Proofs.Rules.DocumentOrder
import TagLint.Proofs.Rules.LineEndings
import TagLint.Proofs.Run.Decision
import TagLint.Proofs.Run.Loading
import TagLint.Proofs.Run.Rearranging
import TagLint.Proofs.Tree.Addresses
