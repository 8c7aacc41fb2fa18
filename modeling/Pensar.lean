import Pensar.Computation.Layout
import Pensar.Computation.Machine
import Pensar.Computation.Queue
import Pensar.Computation.Undoable
import Pensar.Computation.StrictWeakOrder
import Pensar.Computation.Alignment
import Pensar.Computation.Search
import Pensar.Computation.SqlLexer
import Pensar.Computation.SessionVariables
import Pensar.Model.BinaryBuffer
import Pensar.Model.CS
import Pensar.Model.ClassInfo
import Pensar.Model.Object
import Pensar.Model.Generator
import Pensar.Model.Person
import Pensar.Model.Command
import Pensar.Model.CommandStream
import Pensar.Model.SortedList
import Pensar.Model.Distance
import Pensar.Model.CSOperations
import Pensar.Model.Factory
import Pensar.Model.Email
import Pensar.Model.DbConnection
import Pensar.Model.AuditDAO
import Pensar.Interface.BufferHistory
import Pensar.Interface.CommandTree
import Pensar.Interface.SortedListReference
import Pensar.Interface.FixedStringHistory
import Pensar.Interface.GeneratorHistory
import Pensar.Interface.PoolHistory
import Pensar.Interface.EmailGrammar
import Pensar.Interface.EmailHistory
import Pensar.Interface.SessionHistory
import Pensar.Analysis.BinaryBufferSteps
import Pensar.Analysis.BinaryBufferQueue
import Pensar.Analysis.BinaryBufferFile
import Pensar.Analysis.RecordReads
import Pensar.Analysis.ObjectStream
import Pensar.Analysis.GeneratorIds
import Pensar.Analysis.ObjectCopy
import Pensar.Analysis.ObjectReadFailure
import Pensar.Analysis.CommandRun
import Pensar.Analysis.CommandReads
import Pensar.Analysis.CommandStream
import Pensar.Analysis.CompositeInvariant
import Pensar.Analysis.SortedListRefinement
import Pensar.Analysis.SortedListInvariants
import Pensar.Analysis.DistanceRows
import Pensar.Analysis.FixedStringTermination
import Pensar.Analysis.FixedStringPadding
import Pensar.Analysis.PoolAccounting
import Pensar.Analysis.PoolRecycling
import Pensar.Analysis.FactoryFacade
import Pensar.Analysis.EmailGrammar
import Pensar.Analysis.EmailConstruction
import Pensar.Analysis.EmailValidity
import Pensar.Analysis.QuoteLiteral
import Pensar.Analysis.AuditSearch
import Pensar.Analysis.SessionSlots
import Pensar.Analysis.SessionIdentity
import Pensar.Computation.Transactions
import Pensar.Model.AuditLog
import Pensar.Interface.AuditHistory
import Pensar.Analysis.CrossTableSearch
import Pensar.Analysis.AuditedTable
import Pensar.Analysis.AuditReplay
import Pensar.Analysis.RowLocks
import Pensar.Analysis.EntityTimestamps
import Pensar.Model.CommandEquality
import Pensar.Analysis.CommandEquality
import Pensar.Analysis.CommandClone
import Pensar.Analysis.RunUndoProtocol
import Pensar.Model.SerializedSize
import Pensar.Analysis.SerializedSize
import Pensar.Computation.AncestorChain
import Pensar.Computation.RecursiveQuery
import Pensar.Model.OrgDatabase
import Pensar.Model.OrgHierarchy
import Pensar.Computation.KeyedRows
import Pensar.Analysis.OrgHierarchyRows
import Pensar.Analysis.LocaleViews
import Pensar.Model.OrgDAO
import Pensar.Analysis.OrgForest
import Pensar.Analysis.OrgSearchVector
import Pensar.Model.VisibilityDAO
import Pensar.Analysis.DataVisibility
import Pensar.Computation.LeftJoin
import Pensar.Model.ContactDAO
import Pensar.Analysis.ContactSummary
import Pensar.Analysis.DistanceMetric
import Pensar.Computation.Utf16
import Pensar.Computation.FirstLeast
import Pensar.Model.CSComparison
import Pensar.Model.IcuUtil
import Pensar.Model.StringSplit
import Pensar.Model.NearestString
import Pensar.Analysis.FixedStringText
import Pensar.Analysis.IcuDistance
import Pensar.Analysis.NearestString
import Pensar.Analysis.StringSplit
import Pensar.Analysis.FixedStringOrder
import Pensar.Analysis.CodePoints
import Pensar.Analysis.AccentRemoval
import Pensar.Analysis.AccentEquality
import Pensar.Analysis.FixedStringRejection
import Pensar.Analysis.BinaryBufferFailedLoad
import Pensar.Computation.Loop
import Pensar.Computation.Substring
import Pensar.Computation.Rewriting
import Pensar.Computation.Runs
import Pensar.Computation.Grouping
import Pensar.Computation.Decimal
import Pensar.Model.SubstringEditing
import Pensar.Model.IntegerText
import Pensar.Model.GeneratorClone
import Pensar.Model.GeneratorText
import Pensar.Model.PersonName
import Pensar.Model.Encoding
import Pensar.Interface.GeneratorUses
import Pensar.Analysis.SubstringRemoval
import Pensar.Analysis.SubstringReplacement
import Pensar.Analysis.DoubleSpaces
import Pensar.Analysis.DigitGrouping
import Pensar.Analysis.IntegerText
import Pensar.Analysis.GeneratorClone
import Pensar.Analysis.GeneratorText
import Pensar.Analysis.PersonName
import Pensar.Analysis.PersonNameText
import Pensar.Analysis.BomDetection
import Pensar.Computation.BlockReversal
import Pensar.Model.ByteOrder
import Pensar.Analysis.ByteOrder
import Pensar.Model.WideString
import Pensar.Analysis.WideString
import Pensar.Model.CArray
import Pensar.Analysis.ArrayRange
import Pensar.Model.MacAddress
import Pensar.Analysis.MacAddress
import Pensar.Model.StringBinary
import Pensar.Analysis.StringBinary
import Pensar.Computation.Mode
import Pensar.Model.Sysinfo
import Pensar.Analysis.CpuThreads
import Pensar.Model.StopWatch
import Pensar.Analysis.StopWatch
import Pensar.Analysis.Resolution
import Pensar.Analysis.SilentInserts
import Pensar.Computation.ForeignKeys
import Pensar.Model.ContactSchema
import Pensar.Model.ContactTables
import Pensar.Model.PersonDAO
import Pensar.Model.RoleDAO
import Pensar.Model.ContactSystem
import Pensar.Analysis.ContactIntegrity
import Pensar.Analysis.ContactRemoval
import Pensar.Interface.PersonRegister
import Pensar.Analysis.PersonRegister
import Pensar.Computation.TopRows
import Pensar.Computation.Pagination
import Pensar.Analysis.PersonListing
import Pensar.Model.SearchDAO
import Pensar.Analysis.SearchVectors
import Pensar.Analysis.ContactSearch
import Pensar.Interface.ContactBook
import Pensar.Analysis.ContactBook
import Pensar.Analysis.RemovedPersons
import Pensar.Interface.UnitRegister
import Pensar.Analysis.UnitRegister
import Pensar.Interface.AuditArchive
import Pensar.Analysis.AuditPurge
import Pensar.Interface.AccessBook
import Pensar.Analysis.AccessBook
import Pensar.Computation.RowTriggers
import Pensar.Model.AuditedContacts
import Pensar.Analysis.AuditTrail
import Pensar.Computation.LifeCycle
import Pensar.Analysis.EntityLife
import Pensar.Analysis.PersonTimestamps
import Pensar.Computation.Translation
import Pensar.Analysis.AuditedCalls
