import NetHooks.Catalog
import NetHooks.Indentation
import NetHooks.LogicalLine
import NetHooks.Text.Alphanumeric
import NetHooks.Text.Blank
import NetHooks.Text.Lines
import NetHooks.Text.UpperCase
import NetHooks.Words
import NetHooks.Path
import NetHooks.SystemError
import NetHooks.Text.Utf8
import NetHooks.FileTree
import NetHooks.Source.Error
import NetHooks.Source.Definitions
import NetHooks.Source.Directive
import NetHooks.Source.Feed
import NetHooks.Forest
import NetHooks.Config.Phase
import NetHooks.Config.Basic
import NetHooks.Hook.OptionKey
import NetHooks.Config.Compile
import NetHooks.Store.Basic
import NetHooks.Store.Temporary
import NetHooks.Store.File
import NetHooks.Context
import NetHooks.Hook.Call
import NetHooks.Activation.Target
import NetHooks.Activation.Session
import NetHooks.Path.Template
import NetHooks.Settings.Toml
import NetHooks.Settings.Basic
import NetHooks.Source.Library
import NetHooks.Activation.Selection
import NetHooks.Hook.Folder
import NetHooks.Shell.Octets
import NetHooks.Shell.Command
import NetHooks.Shell.SyntaxError
import NetHooks.Shell.Reader
import NetHooks.Shell.Grammar
import NetHooks.Shell.Pattern
import NetHooks.Shell.Arithmetic
import NetHooks.Shell.Splitting
import NetHooks.Shell.Glob
import NetHooks.ExitStatus
import NetHooks.World
import NetHooks.Shell.System
import NetHooks.Shell.Process
import NetHooks.Shell.Signal
import NetHooks.Shell.Expansion
import NetHooks.Shell.Condition
import NetHooks.Shell.Decimal
import NetHooks.Shell.Format
import NetHooks.Shell.Program
import NetHooks.Shell.Builtin.Basic
import NetHooks.Shell.Builtin.Control
import NetHooks.Shell.Builtin.Directory
import NetHooks.Shell.Builtin.Jobs
import NetHooks.Shell.Builtin.Limits
import NetHooks.Shell.Builtin.Names
import NetHooks.Shell.Builtin.Options
import NetHooks.Shell.Builtin.Printing
import NetHooks.Shell.Builtin.Reading
import NetHooks.Shell.Builtin.Signals
import NetHooks.Shell.Builtin.Variables
import NetHooks.Shell.Builtin.Table
import NetHooks.Shell.Diversion
import NetHooks.Shell.Script
import NetHooks.Shell.Child
import NetHooks.Shell.Start
import NetHooks.Shell.Invocation
import NetHooks.Shell.Execution
import NetHooks.Shell.Quoted
import NetHooks.Terminal
import NetHooks.Hook.Runner
import NetHooks.CommandLine.Arguments
import NetHooks.CommandLine.Basic
import NetHooks.CommandLine.UpDown
import NetHooks.CommandLine.Listing
import NetHooks.CommandLine.Description
import NetHooks.CommandLine.Action
import NetHooks.Main
import NetHooks.Proofs.Fallible
import NetHooks.Proofs.Text
import NetHooks.Proofs.Words
import NetHooks.Proofs.Store.Written
import NetHooks.Proofs.Config.Statement
import NetHooks.Proofs.Config.OptionKeys
import NetHooks.Proofs.Activation.Walk
import NetHooks.Proofs.Activation.Depth
import NetHooks.Proofs.Activation.Undo
import NetHooks.Proofs.Activation.Closure
import NetHooks.Proofs.Activation.Hooks
import NetHooks.Proofs.Activation.Fidelity
import NetHooks.Proofs.Indentation
import NetHooks.Proofs.Forest
import NetHooks.Proofs.Source.Directive
import NetHooks.Proofs.Source.Run
import NetHooks.Proofs.Source.Progress
import NetHooks.Proofs.Source.Memory
import NetHooks.Proofs.Source.Outline
import NetHooks.Proofs.Source.SingleFile
import NetHooks.Proofs.Source.OutlineForest
import NetHooks.Proofs.Keyword
import NetHooks.Proofs.Source.Nesting
import NetHooks.Proofs.Source.Frame
import NetHooks.Proofs.Config.Relocation
import NetHooks.Proofs.Source.Alike
import NetHooks.Proofs.Source.Outermost
import NetHooks.Proofs.Source.Reindented
import NetHooks.Proofs.FileTree
import NetHooks.Proofs.Source.Inlining
import NetHooks.Proofs.Activation.Removal
import NetHooks.Proofs.Activation.Termination
import NetHooks.Proofs.Source.Reachable
import NetHooks.Proofs.Source.Termination
import NetHooks.Proofs.Source.Resumption
import NetHooks.Proofs.Activation.DependencyOrder
import NetHooks.Proofs.Activation.Failures
import NetHooks.Proofs.Source.Hidden
import NetHooks.Proofs.Source.Written
import NetHooks.Proofs.Quoted
import NetHooks.Proofs.Config.Written
import NetHooks.Proofs.Config.ReadBack
import NetHooks.Proofs.Activation.Repetition
import NetHooks.Proofs.Activation.Selection
import NetHooks.Proofs.Config.Union
import NetHooks.Proofs.CommandLine.Description
import NetHooks.Proofs.Forest.Stream
import NetHooks.Proofs.Source.Lineage
import NetHooks.Proofs.Config.Block
import NetHooks.Proofs.Config.Definition
import NetHooks.Proofs.Config.Grammar
import NetHooks.Proofs.FileTree.Walk
import NetHooks.Proofs.FileTree.Replacement
import NetHooks.Proofs.Store.Temporary
import NetHooks.Proofs.CommandLine.UpDown
import NetHooks.Proofs.Activation.Reversal
import NetHooks.Proofs.Activation.Environment
import NetHooks.Proofs.Activation.Mirror
import NetHooks.Proofs.Activation.Sequence
import NetHooks.Proofs.Octets
import NetHooks.Proofs.Hook.Variables
import NetHooks.Proofs.Config.Collision
import NetHooks.Proofs.Words.Grammar
import NetHooks.Proofs.Source.Substitution
import NetHooks.Proofs.LogicalLine.Continuation
import NetHooks.Proofs.Indentation.History
import NetHooks.Proofs.Store.Access
import NetHooks.Proofs.Source.Lifting
