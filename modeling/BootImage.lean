import BootImage.Assembly.Assembler
import BootImage.Assembly.Discovery
import BootImage.Assembly.Report
import BootImage.Bytes.Basic
import BootImage.Bytes.Content
import BootImage.CommandLine.Commands
import BootImage.CommandLine.Grammar
import BootImage.CommandLine.Invocation
import BootImage.Elf.Header
import BootImage.Elf.Segments
import BootImage.Emulator.Machine
import BootImage.Failure
import BootImage.Fat.BootSector
import BootImage.Fat.ClusterTable
import BootImage.Fat.DirEntry
import BootImage.Fat.Directory
import BootImage.Fat.Edit
import BootImage.Fat.Error
import BootImage.Fat.Geometry
import BootImage.Fat.LongName
import BootImage.Fat.ShortName
import BootImage.Fat.Tree
import BootImage.Fat.Volume
import BootImage.Host.FileTree
import BootImage.Host.Listing
import BootImage.Host.Path
import BootImage.Host.Program
import BootImage.Host.Size
import BootImage.Inspect.Description
import BootImage.Inspect.Hexdump
import BootImage.Kernel
import BootImage.Layout
import BootImage.Main
import BootImage.Proofs.Assembly.Accounting
import BootImage.Proofs.Assembly.Calls
import BootImage.Proofs.Assembly.Checking
import BootImage.Proofs.Assembly.Copies
import BootImage.Proofs.Assembly.Failing
import BootImage.Proofs.Assembly.Formatting
import BootImage.Proofs.Assembly.Guarding
import BootImage.Proofs.Assembly.Images
import BootImage.Proofs.Assembly.Logging
import BootImage.Proofs.Assembly.Rebuilding
import BootImage.Proofs.Assembly.Replaying
import BootImage.Proofs.Assembly.Sealing
import BootImage.Proofs.Assembly.Skipping
import BootImage.Proofs.Assembly.Steps
import BootImage.Proofs.Assembly.Tracking
import BootImage.Proofs.Bytes.Extending
import BootImage.Proofs.Bytes.Splicing
import BootImage.Proofs.Checks
import BootImage.Proofs.CommandLine.Building
import BootImage.Proofs.Elf.Flattening
import BootImage.Proofs.Elf.Headers
import BootImage.Proofs.Elf.Loading
import BootImage.Proofs.Elf.Relocation
import BootImage.Proofs.Extracting
import BootImage.Proofs.Fat.Aliases
import BootImage.Proofs.Fat.Allocating
import BootImage.Proofs.Fat.Areas
import BootImage.Proofs.Fat.Blaming
import BootImage.Proofs.Fat.Blocks
import BootImage.Proofs.Fat.Capacity
import BootImage.Proofs.Fat.Catalog
import BootImage.Proofs.Fat.Chains
import BootImage.Proofs.Fat.Changes
import BootImage.Proofs.Fat.Circles
import BootImage.Proofs.Fat.Closing
import BootImage.Proofs.Fat.Clusters
import BootImage.Proofs.Fat.Codec
import BootImage.Proofs.Fat.FailedWrites
import BootImage.Proofs.Fat.FileTree
import BootImage.Proofs.Fat.Filling
import BootImage.Proofs.Fat.Fitting
import BootImage.Proofs.Fat.Flushing
import BootImage.Proofs.Fat.Folder
import BootImage.Proofs.Fat.Format
import BootImage.Proofs.Fat.Frame
import BootImage.Proofs.Fat.Growing
import BootImage.Proofs.Fat.Leaving
import BootImage.Proofs.Fat.LongSlots
import BootImage.Proofs.Fat.Lookup
import BootImage.Proofs.Fat.Making
import BootImage.Proofs.Fat.Naming
import BootImage.Proofs.Fat.Opening
import BootImage.Proofs.Fat.Ownership
import BootImage.Proofs.Fat.Paths
import BootImage.Proofs.Fat.Reading
import BootImage.Proofs.Fat.Record
import BootImage.Proofs.Fat.Refinement
import BootImage.Proofs.Fat.Reopening
import BootImage.Proofs.Fat.Room
import BootImage.Proofs.Fat.Runs
import BootImage.Proofs.Fat.Sizing
import BootImage.Proofs.Fat.Slots
import BootImage.Proofs.Fat.Spelling
import BootImage.Proofs.Fat.Touring
import BootImage.Proofs.Fat.Walking
import BootImage.Proofs.Fat.Writing
import BootImage.Proofs.Host.Children
import BootImage.Proofs.Host.Growth
import BootImage.Proofs.Host.Likeness
import BootImage.Proofs.Host.Persisting
import BootImage.Proofs.Host.Places
import BootImage.Proofs.Inspect.Dumps
import BootImage.Proofs.Kernel
import BootImage.Proofs.Session.Altering
import BootImage.Proofs.Session.Exchanging
import BootImage.Proofs.Session.Failing
import BootImage.Proofs.Session.Guarding
import BootImage.Proofs.Session.Looping
import BootImage.Proofs.Session.Relating
import BootImage.Proofs.Session.Replacing
import BootImage.Proofs.Session.Running
import BootImage.Proofs.Settings.Applying
import BootImage.Proofs.Settings.Assigned
import BootImage.Proofs.Settings.Editing
import BootImage.Proofs.Settings.Loading
import BootImage.Proofs.Settings.Storing
import BootImage.Proofs.Settings.Updating
import BootImage.Proofs.Target
import BootImage.Proofs.Text.Folding
import BootImage.Proofs.Text.Hexadecimal
import BootImage.Session
import BootImage.Settings.File
import BootImage.Settings.Line
import BootImage.Settings.Store
import BootImage.Target
import BootImage.Text.Blank
import BootImage.Text.Case
import BootImage.Text.CaseTable
import BootImage.Text.CodePoint
import BootImage.Text.Lines
import BootImage.Text.Number
import BootImage.Text.Pieces
import BootImage.Text.Quoted
import BootImage.Text.Units
import BootImage.Text.VisibleTable
import BootImage.Toolchain
