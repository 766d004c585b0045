import EntityScaffold.Main
import EntityScaffold.Schema.Assignment
import EntityScaffold.Proofs.Source.KeptCode
import EntityScaffold.Proofs.Source.Relexed
import EntityScaffold.Proofs.Incremental
import EntityScaffold.Proofs.Storage.Trees
import EntityScaffold.Proofs.Storage.Saving
import EntityScaffold.Proofs.Validated
import EntityScaffold.Proofs.Resolved
import EntityScaffold.Proofs.Storage.Classes
import EntityScaffold.Proofs.Backlog
import EntityScaffold.Proofs.Collected
import EntityScaffold.Proofs.BothSides
import EntityScaffold.Proofs.Overwriting
import EntityScaffold.Proofs.Unsaved
import EntityScaffold.Proofs.Additions
import EntityScaffold.Proofs.Source.LexedLines
import EntityScaffold.Proofs.Source.LexedMembers
import EntityScaffold.Proofs.Source.ParseRender
import EntityScaffold.Proofs.Isolation
import EntityScaffold.Proofs.Reports
import EntityScaffold.Proofs.Cli.ExitCodes
import EntityScaffold.Proofs.Interleaving
import EntityScaffold.Proofs.Source.CutMembers
import EntityScaffold.Proofs.Repeated
import EntityScaffold.Proofs.Cli.Escapes
import EntityScaffold.Proofs.Counterparts
import EntityScaffold.Proofs.JoinTables
import EntityScaffold.Proofs.Spared
import EntityScaffold.Proofs.Rendered.Fragments
import EntityScaffold.Proofs.Source.CanonicalLayout
import EntityScaffold.Proofs.FieldNames
import EntityScaffold.Proofs.Rendered.LegibleRelations
import EntityScaffold.Proofs.Source.MemberOrder
import EntityScaffold.Proofs.Storage.AllOrNothing
import EntityScaffold.Proofs.Unhashable
import EntityScaffold.Proofs.Cli.SameReading
import EntityScaffold.Proofs.Nullability
import EntityScaffold.Proofs.Suggestions
import EntityScaffold.Proofs.SnakePasses
import EntityScaffold.Proofs.Source.MaskShape
import EntityScaffold.Proofs.Source.ShortestMember
import EntityScaffold.Proofs.Source.AttributeGroups
