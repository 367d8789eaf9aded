import JsonTyping.Command.Arguments
import JsonTyping.Command.Run
import JsonTyping.Double.Basic
import JsonTyping.Double.Digits
import JsonTyping.Double.Text
import JsonTyping.Files.Basic
import JsonTyping.Files.Glob
import JsonTyping.Files.Pattern
import JsonTyping.Files.Tree
import JsonTyping.Format.Basic
import JsonTyping.Format.Calendar
import JsonTyping.Graph.Attributes
import JsonTyping.Graph.Basic
import JsonTyping.Graph.Describe
import JsonTyping.Graph.Dump
import JsonTyping.Graph.NodeId
import JsonTyping.Graph.Primitive
import JsonTyping.Json.Document
import JsonTyping.Json.Event
import JsonTyping.Json.Fault
import JsonTyping.Json.NumberReader
import JsonTyping.Json.Pointer
import JsonTyping.Json.Printer
import JsonTyping.Json.Reader
import JsonTyping.Json.Trail
import JsonTyping.Json.Value
import JsonTyping.Main
import JsonTyping.Misuse
import JsonTyping.Proofs.AddressPaths
import JsonTyping.Proofs.AliasEntries
import JsonTyping.Proofs.AttributeInclusion
import JsonTyping.Proofs.BatchFailures
import JsonTyping.Proofs.BatchHistories
import JsonTyping.Proofs.BatchIndependence
import JsonTyping.Proofs.BatchOrder
import JsonTyping.Proofs.BatchRecords
import JsonTyping.Proofs.BatchRuns
import JsonTyping.Proofs.BatchSafety
import JsonTyping.Proofs.CalendarReaders
import JsonTyping.Proofs.CallRuns
import JsonTyping.Proofs.CanonicalAddresses
import JsonTyping.Proofs.CanonicalNodes
import JsonTyping.Proofs.CombinedAttributes
import JsonTyping.Proofs.CompactTexts
import JsonTyping.Proofs.ConversionDepth
import JsonTyping.Proofs.ConversionRecords
import JsonTyping.Proofs.ConversionRuns
import JsonTyping.Proofs.ConversionSafety
import JsonTyping.Proofs.ConversionSoundness
import JsonTyping.Proofs.ConversionTermination
import JsonTyping.Proofs.DescribedTrees
import JsonTyping.Proofs.DescribedUnions
import JsonTyping.Proofs.DescriptionForms
import JsonTyping.Proofs.DescriptionRuns
import JsonTyping.Proofs.DescriptionsUpToNumbers
import JsonTyping.Proofs.DocumentPaths
import JsonTyping.Proofs.EncodedUnits
import JsonTyping.Proofs.EqualDescriptions
import JsonTyping.Proofs.EquationRuns
import JsonTyping.Proofs.EventStreams
import JsonTyping.Proofs.FilledTables
import JsonTyping.Proofs.FilledTypes
import JsonTyping.Proofs.Gathering
import JsonTyping.Proofs.GraphCalls
import JsonTyping.Proofs.GraphGrowth
import JsonTyping.Proofs.GraphHistory
import JsonTyping.Proofs.GraphIsomorphism
import JsonTyping.Proofs.GraphSolutions
import JsonTyping.Proofs.GraphUnfolding
import JsonTyping.Proofs.HostAddresses
import JsonTyping.Proofs.InferenceInvariants
import JsonTyping.Proofs.InferenceMirrors
import JsonTyping.Proofs.InferenceSoundness
import JsonTyping.Proofs.InlineSources
import JsonTyping.Proofs.KeptValues
import JsonTyping.Proofs.LibraryAnswers
import JsonTyping.Proofs.LibraryFetches
import JsonTyping.Proofs.LibraryUses
import JsonTyping.Proofs.MemberSolutions
import JsonTyping.Proofs.MomentTexts
import JsonTyping.Proofs.Moments
import JsonTyping.Proofs.NodeTypes
import JsonTyping.Proofs.PartSolutions
import JsonTyping.Proofs.PathPositions
import JsonTyping.Proofs.PlaceholderRuns
import JsonTyping.Proofs.PlainEvidence
import JsonTyping.Proofs.ReadingStreams
import JsonTyping.Proofs.Rearranged
import JsonTyping.Proofs.RecordedBounds
import JsonTyping.Proofs.RecordedTexts
import JsonTyping.Proofs.RecordedTypes
import JsonTyping.Proofs.Recording
import JsonTyping.Proofs.ReferenceConsistency
import JsonTyping.Proofs.ReferenceOrder
import JsonTyping.Proofs.ReferencePointers
import JsonTyping.Proofs.ReferenceProgress
import JsonTyping.Proofs.ReferenceResolution
import JsonTyping.Proofs.ReferenceRuns
import JsonTyping.Proofs.ReferenceSteps
import JsonTyping.Proofs.ReferenceTexts
import JsonTyping.Proofs.RefusedTexts
import JsonTyping.Proofs.RenumberedDescriptions
import JsonTyping.Proofs.RepeatedKeys
import JsonTyping.Proofs.ResolutionMirrors
import JsonTyping.Proofs.ResolvedPlaces
import JsonTyping.Proofs.Runs
import JsonTyping.Proofs.SampleGrowth
import JsonTyping.Proofs.SampleInstances
import JsonTyping.Proofs.SampleOrder
import JsonTyping.Proofs.SamplePositions
import JsonTyping.Proofs.ScalarLiterals
import JsonTyping.Proofs.ScannedIds
import JsonTyping.Proofs.SchemaCalls
import JsonTyping.Proofs.SchemaConversion
import JsonTyping.Proofs.SchemaEquations
import JsonTyping.Proofs.SchemaLimits
import JsonTyping.Proofs.SchemaMembers
import JsonTyping.Proofs.SchemaParts
import JsonTyping.Proofs.SchemaPlaces
import JsonTyping.Proofs.SchemaValidity
import JsonTyping.Proofs.Sessions
import JsonTyping.Proofs.SharedNodes
import JsonTyping.Proofs.Sightings
import JsonTyping.Proofs.SourceRefusals
import JsonTyping.Proofs.TableHistories
import JsonTyping.Proofs.TableLimits
import JsonTyping.Proofs.TopLevelNames
import JsonTyping.Proofs.Traversals
import JsonTyping.Proofs.TreeInstances
import JsonTyping.Proofs.TypeSolutions
import JsonTyping.Proofs.TypeTrees
import JsonTyping.Proofs.UnionArms
import JsonTyping.Proofs.UrlAuthorities
import JsonTyping.Proofs.UrlCharacters
import JsonTyping.Proofs.UrlForms
import JsonTyping.Proofs.UrlHosts
import JsonTyping.Proofs.UrlPaths
import JsonTyping.Proofs.UrlTexts
import JsonTyping.Samples.Collection
import JsonTyping.Samples.Evidence
import JsonTyping.Samples.Handle
import JsonTyping.Samples.Inference
import JsonTyping.Samples.ObjectEvidence
import JsonTyping.Samples.Recorder
import JsonTyping.Samples.Resolution
import JsonTyping.Samples.Table
import JsonTyping.Schema.Address
import JsonTyping.Schema.Aliases
import JsonTyping.Schema.Annotation
import JsonTyping.Schema.Batch
import JsonTyping.Schema.Conversion
import JsonTyping.Schema.JsonType
import JsonTyping.Schema.Library
import JsonTyping.Schema.Place
import JsonTyping.Schema.Problem
import JsonTyping.Schema.Reference
import JsonTyping.Schema.Store
import JsonTyping.Settings
import JsonTyping.Settings.Reader
import JsonTyping.Sorted.Map
import JsonTyping.Sorted.Set
import JsonTyping.Text.CharClass
import JsonTyping.Text.CombiningClass
import JsonTyping.Text.Composed
import JsonTyping.Text.Composites
import JsonTyping.Text.Direction
import JsonTyping.Text.Joining
import JsonTyping.Text.Lines
import JsonTyping.Text.Mark
import JsonTyping.Text.Quoted
import JsonTyping.Text.Runs
import JsonTyping.Text.Spans
import JsonTyping.Text.Units
import JsonTyping.Text.Unprintable
import JsonTyping.Url.Basic
import JsonTyping.Url.Domain
import JsonTyping.Url.DomainMapping
import JsonTyping.Url.Host
import JsonTyping.Url.Label
import JsonTyping.Url.Library
import JsonTyping.Url.Percent
import JsonTyping.Url.Punycode
import JsonTyping.Url.Reader
