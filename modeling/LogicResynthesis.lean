import LogicResynthesis.Aig.Builder
import LogicResynthesis.Aig.Listing
import LogicResynthesis.Aig.Netlist
import LogicResynthesis.Aig.Simulation
import LogicResynthesis.Aig.StructuralHash
import LogicResynthesis.Cli.Arguments
import LogicResynthesis.Cli.Directory
import LogicResynthesis.Cli.Query
import LogicResynthesis.Cli.Run
import LogicResynthesis.Cli.Settings
import LogicResynthesis.Cli.Stats
import LogicResynthesis.Dag.PostOrder
import LogicResynthesis.Fault
import LogicResynthesis.IndexList.Basic
import LogicResynthesis.IndexList.Decoding
import LogicResynthesis.IndexList.Encoder
import LogicResynthesis.Library.BuiltIn
import LogicResynthesis.Library.ClassIndex
import LogicResynthesis.Main
import LogicResynthesis.Npn.Canonical
import LogicResynthesis.Npn.ClassTable
import LogicResynthesis.Npn.Transform
import LogicResynthesis.Proofs.Aig.Builder
import LogicResynthesis.Proofs.Aig.Construction
import LogicResynthesis.Proofs.Aig.Depth
import LogicResynthesis.Proofs.Aig.DigestBuilder
import LogicResynthesis.Proofs.Aig.DigestHash
import LogicResynthesis.Proofs.Aig.Digests
import LogicResynthesis.Proofs.Aig.Feeding
import LogicResynthesis.Proofs.Aig.Folding
import LogicResynthesis.Proofs.Aig.HashHistory
import LogicResynthesis.Proofs.Aig.InputEntries
import LogicResynthesis.Proofs.Aig.Listing
import LogicResynthesis.Proofs.Aig.LiveGates
import LogicResynthesis.Proofs.Aig.MissingLeaves
import LogicResynthesis.Proofs.Aig.Optimisation
import LogicResynthesis.Proofs.Aig.Originals
import LogicResynthesis.Proofs.Aig.PostOrder
import LogicResynthesis.Proofs.Aig.ProgramText
import LogicResynthesis.Proofs.Aig.Repetition
import LogicResynthesis.Proofs.Aig.Semantics
import LogicResynthesis.Proofs.Aig.Sessions
import LogicResynthesis.Proofs.Aig.Sharing
import LogicResynthesis.Proofs.Aig.Simulation
import LogicResynthesis.Proofs.Aig.StraightLine
import LogicResynthesis.Proofs.Aig.StructuralEquality
import LogicResynthesis.Proofs.Cli.Limit
import LogicResynthesis.Proofs.Cli.Query
import LogicResynthesis.Proofs.Cli.Review
import LogicResynthesis.Proofs.CreationOrder
import LogicResynthesis.Proofs.Dag.Acyclic
import LogicResynthesis.Proofs.Dag.DepthFirst
import LogicResynthesis.Proofs.Dag.Reachability
import LogicResynthesis.Proofs.Dag.Recursion
import LogicResynthesis.Proofs.Fault
import LogicResynthesis.Proofs.IndexList.Acceptance
import LogicResynthesis.Proofs.IndexList.Decoding
import LogicResynthesis.Proofs.IndexList.Encoding
import LogicResynthesis.Proofs.IndexList.Meaning
import LogicResynthesis.Proofs.IndexList.PartialDecoding
import LogicResynthesis.Proofs.IndexList.Program
import LogicResynthesis.Proofs.Library.BuiltIn
import LogicResynthesis.Proofs.Library.ClassIndex
import LogicResynthesis.Proofs.Library.Coverage
import LogicResynthesis.Proofs.Npn.ClassTable
import LogicResynthesis.Proofs.Npn.Classes
import LogicResynthesis.Proofs.Npn.OrbitScan
import LogicResynthesis.Proofs.Npn.TransformGroup
import LogicResynthesis.Proofs.Resynthesis.Answering
import LogicResynthesis.Proofs.Resynthesis.Cancellation
import LogicResynthesis.Proofs.Resynthesis.Cones
import LogicResynthesis.Proofs.Resynthesis.CopyLoop
import LogicResynthesis.Proofs.Resynthesis.Copying
import LogicResynthesis.Proofs.Resynthesis.Engine
import LogicResynthesis.Proofs.Resynthesis.Enumeration
import LogicResynthesis.Proofs.Resynthesis.FreshCopies
import LogicResynthesis.Proofs.Resynthesis.LawfulNetwork
import LogicResynthesis.Proofs.Resynthesis.Limit
import LogicResynthesis.Proofs.Resynthesis.MemoGrowth
import LogicResynthesis.Proofs.Resynthesis.Query
import LogicResynthesis.Proofs.Resynthesis.Repetition
import LogicResynthesis.Proofs.Resynthesis.Replay
import LogicResynthesis.Proofs.Resynthesis.Requests
import LogicResynthesis.Proofs.Resynthesis.Safety
import LogicResynthesis.Proofs.Resynthesis.Sharing
import LogicResynthesis.Proofs.Text.HexNumeral
import LogicResynthesis.Proofs.TruthTable.Hex
import LogicResynthesis.Proofs.TruthTable.Rows
import LogicResynthesis.Proofs.Xag.Constructors
import LogicResynthesis.Proofs.Xag.NormalForm
import LogicResynthesis.Proofs.Xag.Repetition
import LogicResynthesis.Proofs.Xag.Runs
import LogicResynthesis.Proofs.Xag.Semantics
import LogicResynthesis.Proofs.Xag.Simulation
import LogicResynthesis.Report.Duration
import LogicResynthesis.Report.Statistics
import LogicResynthesis.Resynthesis.Cone
import LogicResynthesis.Resynthesis.Engine
import LogicResynthesis.Resynthesis.Network
import LogicResynthesis.Resynthesis.Query
import LogicResynthesis.Signal
import LogicResynthesis.Text.Blank
import LogicResynthesis.Text.Dyadic
import LogicResynthesis.Text.Numeral
import LogicResynthesis.Text.Quoted
import LogicResynthesis.Text.Unprintable
import LogicResynthesis.Toml.Document
import LogicResynthesis.Toml.Item
import LogicResynthesis.Toml.Lexical
import LogicResynthesis.Toml.Number
import LogicResynthesis.TruthTable.Column
import LogicResynthesis.TruthTable.Hex
import LogicResynthesis.TruthTable.Table
import LogicResynthesis.TruthTable.Table4
import LogicResynthesis.Xag.Basic
import LogicResynthesis.Xag.Simulation
