import BinaryImage.Bytes.Access
import BinaryImage.Bytes.Basic
import BinaryImage.Bytes.Reader
import BinaryImage.Bytes.Unsigned
import BinaryImage.Edit.Basic
import BinaryImage.Edit.Staged
import BinaryImage.Edit.Target
import BinaryImage.Elf.Command
import BinaryImage.Elf.Defect
import BinaryImage.Elf.Dynamic
import BinaryImage.Elf.Encoding
import BinaryImage.Elf.FileHeader
import BinaryImage.Elf.Image
import BinaryImage.Elf.Layout
import BinaryImage.Elf.Query
import BinaryImage.Elf.Section
import BinaryImage.Elf.Segment
import BinaryImage.Elf.StringTable
import BinaryImage.Error
import BinaryImage.Image
import BinaryImage.Layout.Region
import BinaryImage.Layout.Rule
import BinaryImage.Pe.Defect
import BinaryImage.Pe.Descriptor
import BinaryImage.Pe.Headers
import BinaryImage.Pe.Image
import BinaryImage.Pe.Layout
import BinaryImage.Pe.Query
import BinaryImage.Pe.Rename
import BinaryImage.Pe.Section
import BinaryImage.Platform
import BinaryImage.Proofs.Agreement
import BinaryImage.Proofs.Assignment
import BinaryImage.Proofs.Calls
import BinaryImage.Proofs.Confinement
import BinaryImage.Proofs.Detection
import BinaryImage.Proofs.EditWriting
import BinaryImage.Proofs.Elf.DynamicEntries
import BinaryImage.Proofs.Elf.EntryCoding
import BinaryImage.Proofs.Elf.LayoutRules
import BinaryImage.Proofs.Elf.LoadedAddresses
import BinaryImage.Proofs.Elf.Placement
import BinaryImage.Proofs.Elf.ReadingBack
import BinaryImage.Proofs.Elf.RecordLayouts
import BinaryImage.Proofs.Elf.Removals
import BinaryImage.Proofs.Elf.Reopening
import BinaryImage.Proofs.Elf.Rereading
import BinaryImage.Proofs.Elf.SearchPaths
import BinaryImage.Proofs.Elf.SectionQueries
import BinaryImage.Proofs.Elf.Separation
import BinaryImage.Proofs.Elf.Setters
import BinaryImage.Proofs.Elf.Staging
import BinaryImage.Proofs.Elf.StringAnswers
import BinaryImage.Proofs.Elf.StringEdits
import BinaryImage.Proofs.Elf.StringTails
import BinaryImage.Proofs.Elf.TableFrame
import BinaryImage.Proofs.Elf.Tables
import BinaryImage.Proofs.EntityNames
import BinaryImage.Proofs.FieldPlaces
import BinaryImage.Proofs.Machine.Basic
import BinaryImage.Proofs.Machine.Edits
import BinaryImage.Proofs.Machine.Elf.Commands
import BinaryImage.Proofs.Machine.Elf.Layout
import BinaryImage.Proofs.Machine.Elf.Parsing
import BinaryImage.Proofs.Machine.Elf.Queries
import BinaryImage.Proofs.Machine.Elf.Slots
import BinaryImage.Proofs.Machine.Image
import BinaryImage.Proofs.Machine.Pe.Layout
import BinaryImage.Proofs.Machine.Pe.Names
import BinaryImage.Proofs.Machine.Pe.Parsing
import BinaryImage.Proofs.Machine.Reading
import BinaryImage.Proofs.Machine.Session
import BinaryImage.Proofs.Machine.Sweep
import BinaryImage.Proofs.Overlap
import BinaryImage.Proofs.OverlapChecks
import BinaryImage.Proofs.Pe.AddressMapping
import BinaryImage.Proofs.Pe.DescriptorTables
import BinaryImage.Proofs.Pe.DescriptorWalk
import BinaryImage.Proofs.Pe.FieldRanges
import BinaryImage.Proofs.Pe.HeaderFrame
import BinaryImage.Proofs.Pe.ImportPlaces
import BinaryImage.Proofs.Pe.LayoutRules
import BinaryImage.Proofs.Pe.NameReading
import BinaryImage.Proofs.Pe.Renaming
import BinaryImage.Proofs.Pe.Reopening
import BinaryImage.Proofs.Pe.Setters
import BinaryImage.Proofs.RoundTrip
import BinaryImage.Proofs.Setters
import BinaryImage.Proofs.Sorting
import BinaryImage.Proofs.StoredPaths
import BinaryImage.Proofs.UnderstoodSpans
import BinaryImage.Proofs.UnsignedRange
import BinaryImage.Proofs.Utf8
import BinaryImage.Proofs.WritingBack
import BinaryImage.SearchPath
import BinaryImage.Session
import BinaryImage.Signature
import BinaryImage.Sorting
import BinaryImage.Span
import BinaryImage.Summary
import BinaryImage.Text.Blank
import BinaryImage.Text.Hex
import BinaryImage.Text.Utf8
