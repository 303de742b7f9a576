import TestOutline.CommandLine.Footprint
import TestOutline.CommandLine.Run
import TestOutline.Inspection
import TestOutline.Main
import TestOutline.Outline.Cursor
import TestOutline.Outline.Extract
import TestOutline.Outline.Json
import TestOutline.Settings.Discovery
import TestOutline.Settings.Json
import TestOutline.Proofs.Nesting
import TestOutline.Proofs.Scan
import TestOutline.Proofs.Description
import TestOutline.Proofs.Lineage
import TestOutline.Proofs.Walk
import TestOutline.Proofs.Ascent
import TestOutline.Proofs.Forest
import TestOutline.Proofs.Pattern
import TestOutline.Proofs.Selection
import TestOutline.Proofs.Cursor
import TestOutline.Proofs.SelectedCases
import TestOutline.Proofs.Words
import TestOutline.Proofs.Numbers
import TestOutline.Proofs.Literal
import TestOutline.Proofs.Tokens
import TestOutline.Proofs.Layout
import TestOutline.Proofs.Writing
import TestOutline.Proofs.SavedSettings
import TestOutline.Proofs.Grammar
import TestOutline.Proofs.Escapes
import TestOutline.Proofs.Spelling
import TestOutline.Proofs.Substitution
import TestOutline.Proofs.LiteralValue
import TestOutline.Proofs.Lenses
import TestOutline.Proofs.Reach
import TestOutline.Proofs.Segments
import TestOutline.Proofs.Ancestors
import TestOutline.Proofs.LaunchedFile
import TestOutline.Proofs.Ways
import TestOutline.Proofs.Following
import TestOutline.Proofs.Launching
import TestOutline.Proofs.RequestedFile
import TestOutline.Proofs.NearestSettings
import TestOutline.Proofs.RunnerPath
import TestOutline.Proofs.SimpleCommand
import TestOutline.Proofs.ReadBack
import TestOutline.Proofs.LineEndings
import TestOutline.Proofs.BlankLines
import TestOutline.Proofs.Succession
import TestOutline.Proofs.Restyling
import TestOutline.Proofs.WrittenLiteral
import TestOutline.Proofs.WrittenJson
import TestOutline.Proofs.KnownMembers
import TestOutline.Proofs.CanonicalPath
import TestOutline.Proofs.FreshSettings
import TestOutline.Proofs.Siblings
import TestOutline.Proofs.ShadowedSettings
import TestOutline.Proofs.CommandItems
import TestOutline.Proofs.CommandPieces
import TestOutline.Proofs.WrittenCommand
import TestOutline.Proofs.Summary
import TestOutline.Proofs.LineArgument
import TestOutline.Proofs.Modes
import TestOutline.Proofs.OutputForms
import TestOutline.Proofs.Entries
