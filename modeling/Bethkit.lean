import Bethkit.Verif.Verbatim
import Bethkit.Verif.Tiling
import Bethkit.Verif.NextId
import Bethkit.Verif.EditorIndex
import Bethkit.Verif.EditorRollback
import Bethkit.Verif.GrammarDerivation
import Bethkit.Verif.Structures
import Bethkit.Verif.GrammarCompaction
import Bethkit.Verif.FailingDecision
import Bethkit.Verif.Retention
import Bethkit.Verif.StringFiles
import Bethkit.Lib.Reader
import Bethkit.Lib.Grouping
import Bethkit.Archive.BsaWriter
import Bethkit.Archive.Bsa
import Bethkit.Verif.ArchiveContents
import Bethkit.Verif.MasterIndex
import Bethkit.Verif.Snapshot
import Bethkit.Verif.ArchiveIndex
import Bethkit.Verif.NameTable
import Bethkit.Verif.Tes3Written
import Bethkit.Verif.StringBatches
import Bethkit.Verif.Ba2Bounds
import Bethkit.Archive.Ba2Writer
import Bethkit.Spec.Ba2Packing
import Bethkit.Verif.Ba2Written
import Bethkit.Verif.Ba2GnrlWritten
import Bethkit.Verif.Ba2Dx10Written
import Bethkit.Verif.MipLevels
import Bethkit.Verif.IntegerLeaf
import Bethkit.Verif.Spans
import Bethkit.Schema.Package
import Bethkit.Lib.Budget
import Bethkit.Spec.Expressions
import Bethkit.Verif.ExpressionKinds
import Bethkit.Lib.PrefixCode
import Bethkit.Lib.Ensures
import Bethkit.Spec.Shape
import Bethkit.Verif.Shape
import Bethkit.Verif.EditorIdentity
import Bethkit.Verif.Addressing
import Bethkit.Spec.InlineCodec
import Bethkit.Verif.InlineCodec
import Bethkit.Spec.ArrayBounds
import Bethkit.Verif.ArrayBounds
import Bethkit.Lib.Chunks
import Bethkit.Semantic.AfterLoad
import Bethkit.Spec.AfterLoad
import Bethkit.Verif.PathGrid
import Bethkit.Verif.MorphOrder
import Bethkit.Lib.Numerals
import Bethkit.Semantic.Numerals
import Bethkit.Verif.Numerals
import Bethkit.Semantic.LookupFormatters
import Bethkit.Spec.EditText
import Bethkit.Verif.LookupFormatters
import Bethkit.Verif.EventFunctionMember
import Bethkit.Semantic.QuestFormatters
import Bethkit.Verif.QuestText
import Bethkit.Semantic.WwiseGuid
import Bethkit.Verif.GuidBody
import Bethkit.Verif.GuidText
import Bethkit.Lib.Forest
import Bethkit.Ffi.RecordIndex
import Bethkit.Verif.RecordIndex
import Bethkit.Semantic.Analysis
import Bethkit.Semantic.InfoSort
import Bethkit.Semantic.InfoEdit
import Bethkit.Verif.PluginSelection
import Bethkit.Verif.References
import Bethkit.Verif.PackedCounts
import Bethkit.Verif.NodeIndex
import Bethkit.Verif.ExpressionBudget
import Bethkit.Verif.PathHash
import Bethkit.Verif.NestedLens
import Bethkit.Verif.InfoOrder
import Bethkit.Verif.InfoResort
import Bethkit.Lib.Framing
import Bethkit.Schema.Catalog
import Bethkit.Verif.Bundle
import Bethkit.Ffi.Snapshot
import Bethkit.Spec.WellFormed
import Bethkit.Verif.WellFormed
import Bethkit.Verif.TopicSort
import Bethkit.Spec.Lossless
import Bethkit.Verif.LosslessLeaves
import Bethkit.Verif.Lossless
