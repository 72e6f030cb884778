import SkibidiQL.Base.AliasChain
import SkibidiQL.Base.Batching
import SkibidiQL.Base.Bitmap
import SkibidiQL.Base.Bytes
import SkibidiQL.Base.DecimalNumerals
import SkibidiQL.Base.ExceptRules
import SkibidiQL.Base.ExpressionReader
import SkibidiQL.Base.FloatOrder
import SkibidiQL.Base.GreedyBudget
import SkibidiQL.Base.IntegerDouble
import SkibidiQL.Base.IntegerFloat
import SkibidiQL.Base.KeyedGroups
import SkibidiQL.Base.KeyedVector
import SkibidiQL.Base.LineText
import SkibidiQL.Base.ListRules
import SkibidiQL.Base.LittleEndian
import SkibidiQL.Base.Lockstep
import SkibidiQL.Base.NearestDouble
import SkibidiQL.Base.OffsetReader
import SkibidiQL.Base.OrderedLocks
import SkibidiQL.Base.Patch
import SkibidiQL.Base.RecencyStore
import SkibidiQL.Base.RecordLog
import SkibidiQL.Base.SignificantDigits
import SkibidiQL.Base.Simulation
import SkibidiQL.Base.StateError
import SkibidiQL.Base.Stride
import SkibidiQL.Base.UndoLog
import SkibidiQL.Base.Utf8
import SkibidiQL.Catalog.CatalogFile
import SkibidiQL.Catalog.CatalogReachable
import SkibidiQL.Catalog.CatalogRoundTrip
import SkibidiQL.Catalog.CatalogSteps
import SkibidiQL.Catalog.JsonReader
import SkibidiQL.Catalog.JsonReads
import SkibidiQL.Catalog.Metadata
import SkibidiQL.CodeGen.ExpressionText
import SkibidiQL.CodeGen.GeneratedTrees
import SkibidiQL.CodeGen.ParsedTrees
import SkibidiQL.CodeGen.SqlAgreement
import SkibidiQL.CodeGen.SqlReader
import SkibidiQL.CodeGen.SqlTexts
import SkibidiQL.CodeGen.StreamNumerals
import SkibidiQL.Compiler.CompilationCache
import SkibidiQL.Compiler.CompileFast
import SkibidiQL.Concurrency.LockProtocol
import SkibidiQL.Concurrency.NativeLock
import SkibidiQL.Dataset.Batches
import SkibidiQL.Dataset.CrashAtomicity
import SkibidiQL.Dataset.DropTable
import SkibidiQL.Dataset.EngineDatabase
import SkibidiQL.Dataset.IntegerKeys
import SkibidiQL.Dataset.KeyedInsert
import SkibidiQL.Dataset.KeyedInsertSpec
import SkibidiQL.Dataset.LoggedStatements
import SkibidiQL.Dataset.OpenTransaction
import SkibidiQL.Dataset.RowChanges
import SkibidiQL.Dataset.RowOrigins
import SkibidiQL.Dataset.SetSemantics
import SkibidiQL.Dataset.SnapshotCreate
import SkibidiQL.Dataset.SnapshotPlan
import SkibidiQL.Dataset.SnapshotRows
import SkibidiQL.Dataset.StatementFootprint
import SkibidiQL.Dataset.TableStatements
import SkibidiQL.Dataset.TransactionAtomicity
import SkibidiQL.Index.BPlusTree
import SkibidiQL.Index.BPlusTreeCorrect
import SkibidiQL.Index.BPlusTreeInvariant
import SkibidiQL.Index.BPlusTreeKeys
import SkibidiQL.Index.BPlusTreePopulated
import SkibidiQL.Index.ValueIndex
import SkibidiQL.Optimizer.ConstantFolding
import SkibidiQL.Optimizer.CountRewriting
import SkibidiQL.Optimizer.MetadataRewrites
import SkibidiQL.Optimizer.MetadataSound
import SkibidiQL.Optimizer.OutputNames
import SkibidiQL.Prompt.ActiveAtoms
import SkibidiQL.Prompt.CacheKey
import SkibidiQL.Prompt.Consistency
import SkibidiQL.Prompt.ContextMeta
import SkibidiQL.Prompt.ContextPlan
import SkibidiQL.Prompt.Extraction
import SkibidiQL.Prompt.Noninterference
import SkibidiQL.Prompt.PlanAgreement
import SkibidiQL.Prompt.PrintedResults
import SkibidiQL.Prompt.Redaction
import SkibidiQL.Prompt.Session
import SkibidiQL.Prompt.SourceSpans
import SkibidiQL.Prompt.Statements
import SkibidiQL.Prompt.StatusReplay
import SkibidiQL.Prompt.TabChains
import SkibidiQL.Prompt.TabIsolation
import SkibidiQL.Prompt.TabMerge
import SkibidiQL.Prompt.Tabs
import SkibidiQL.Prompt.Text
import SkibidiQL.Prompt.TokenBudget
import SkibidiQL.Prompt.Views
import SkibidiQL.Query.Accumulators
import SkibidiQL.Query.Ast
import SkibidiQL.Query.BloomFilter
import SkibidiQL.Query.ColumnStatistics
import SkibidiQL.Query.Database
import SkibidiQL.Query.DenseAgreement
import SkibidiQL.Query.DenseExact
import SkibidiQL.Query.DenseGroups
import SkibidiQL.Query.DirectAggregate
import SkibidiQL.Query.DirectAgreement
import SkibidiQL.Query.DirectExact
import SkibidiQL.Query.DirectPlanning
import SkibidiQL.Query.DirectPredicate
import SkibidiQL.Query.DirectScan
import SkibidiQL.Query.Eval
import SkibidiQL.Query.GroupedSelect
import SkibidiQL.Query.HashJoin
import SkibidiQL.Query.IntegerAggregates
import SkibidiQL.Query.PrimaryKey
import SkibidiQL.Query.QualifiedNames
import SkibidiQL.Query.RawPoint
import SkibidiQL.Query.RawPointAgreement
import SkibidiQL.Query.RowSelect
import SkibidiQL.Query.Select
import SkibidiQL.Query.StreamingAgreement
import SkibidiQL.Query.StreamingColumns
import SkibidiQL.Query.TableColumns
import SkibidiQL.Query.TypedVector
import SkibidiQL.Query.VectorAppends
import SkibidiQL.Query.VectorBatch
import SkibidiQL.Query.VectorEval
import SkibidiQL.Query.VectorGroups
import SkibidiQL.Query.VectorRows
import SkibidiQL.Query.VectorSteps
import SkibidiQL.Query.Vectorized
import SkibidiQL.Query.VectorizedAgreement
import SkibidiQL.Storage.BufferPool
import SkibidiQL.Storage.Disk
import SkibidiQL.Storage.DiskWrites
import SkibidiQL.Storage.FileGrowth
import SkibidiQL.Storage.FrameTable
import SkibidiQL.Storage.FrameTableSpec
import SkibidiQL.Storage.HeapFile
import SkibidiQL.Storage.HeapFileSpec
import SkibidiQL.Storage.HeapPlacement
import SkibidiQL.Storage.HeapRefinement
import SkibidiQL.Storage.HeapRestore
import SkibidiQL.Storage.HeapScan
import SkibidiQL.Storage.HeapUpdate
import SkibidiQL.Storage.IntegerValues
import SkibidiQL.Storage.NativeWal
import SkibidiQL.Storage.OrderedValues
import SkibidiQL.Storage.PageOnDisk
import SkibidiQL.Storage.PoolAccess
import SkibidiQL.Storage.PoolInvariant
import SkibidiQL.Storage.PoolTransparent
import SkibidiQL.Storage.SlottedPage
import SkibidiQL.Storage.SlottedPageInsert
import SkibidiQL.Storage.SlottedPageMap
import SkibidiQL.Storage.SlottedPageSpec
import SkibidiQL.Storage.TupleCodec
import SkibidiQL.Storage.TupleDecoders
import SkibidiQL.Storage.TupleDecodersAgree
import SkibidiQL.Storage.Value
import SkibidiQL.Storage.ValueOrder
import SkibidiQL.Storage.ValueText
import SkibidiQL.Storage.WalRecovery
import SkibidiQL.Storage.WriteAhead
import SkibidiQL.Storage.WriteFootprint
import SkibidiQL.Syntax.ExpressionParser
import SkibidiQL.Syntax.ExpressionPrinter
import SkibidiQL.Syntax.Lexer
import SkibidiQL.Syntax.LexerRules
import SkibidiQL.Syntax.ParsePrinted
import SkibidiQL.Syntax.QuotedString
