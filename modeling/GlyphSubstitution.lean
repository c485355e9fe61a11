import GlyphSubstitution.Error
import GlyphSubstitution.Glyph
import GlyphSubstitution.LookupFlag
import GlyphSubstitution.GlyphFilter
import GlyphSubstitution.GlyphDefinitions.ClassDef
import GlyphSubstitution.GlyphDefinitions.MarkSet
import GlyphSubstitution.GlyphDefinitions.Basic
import GlyphSubstitution.GlyphDefinitions.Skipping
import GlyphSubstitution.Matching.Neighbour
import GlyphSubstitution.Matching.Sequence
import GlyphSubstitution.Matching.Context
import GlyphSubstitution.Table.Coverage
import GlyphSubstitution.Table.Rule
import GlyphSubstitution.Table.Subtable
import GlyphSubstitution.Table.LookupList
import GlyphSubstitution.Substitution.Outcome
import GlyphSubstitution.Substitution.Replacement
import GlyphSubstitution.Substitution.Ligature
import GlyphSubstitution.Substitution.Records
import GlyphSubstitution.Substitution.Contextual
import GlyphSubstitution.Substitution.Nested
import GlyphSubstitution.Substitution.Scan
import GlyphSubstitution.Substitution.Pass
import GlyphSubstitution.Proofs.SeenPositions
import GlyphSubstitution.Proofs.ContextRelation
import GlyphSubstitution.Proofs.RecursionLimit
import GlyphSubstitution.Proofs.Segments
import GlyphSubstitution.Proofs.ReplacementRecords
import GlyphSubstitution.Proofs.NestedCalls
import GlyphSubstitution.Proofs.UnseenGlyphs
import GlyphSubstitution.Proofs.KeptPositions
import GlyphSubstitution.Proofs.EditRelations
import GlyphSubstitution.Proofs.LeftOfCursor
import GlyphSubstitution.Proofs.Characters
import GlyphSubstitution.Proofs.EditingByPosition
import GlyphSubstitution.Proofs.GlyphOrder
import GlyphSubstitution.Proofs.NestingDepth
import GlyphSubstitution.Proofs.ChangeReports
import GlyphSubstitution.Proofs.ScanProgress
import GlyphSubstitution.Proofs.DryRun
import GlyphSubstitution.Proofs.SeenGlyphs
import GlyphSubstitution.Proofs.SkipTransparency
import GlyphSubstitution.Proofs.ArbitraryCalls
import GlyphSubstitution.Proofs.ChainedRules
import GlyphSubstitution.Proofs.UnmentionedGlyphs
import GlyphSubstitution.Proofs.GlyphNumbers
import GlyphSubstitution.Proofs.Growth
import GlyphSubstitution.Proofs.FencedRuns
import GlyphSubstitution.Proofs.RenumberedTables
import GlyphSubstitution.Proofs.Renumbering
import GlyphSubstitution.Proofs.LigatureFormation
import GlyphSubstitution.Proofs.ExhaustivePass
import GlyphSubstitution.Proofs.ReplacementPass
import GlyphSubstitution.Proofs.PassesInPlace
import GlyphSubstitution.Proofs.Precedence
import GlyphSubstitution.Proofs.TrackedLigatures
import GlyphSubstitution.Proofs.ShadowedRules
import GlyphSubstitution.Proofs.AcceptedTables
import GlyphSubstitution.Proofs.SkippingByClass
import GlyphSubstitution.Proofs.MirroredMatching
import GlyphSubstitution.Proofs.PartialMatches
