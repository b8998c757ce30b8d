import TransducerLookup.Main
import TransducerLookup.Proofs.Graph.Basic
import TransducerLookup.Proofs.Graph.Exploration
import TransducerLookup.Proofs.Loading.Alphabet
import TransducerLookup.Proofs.Loading.Tokens
import TransducerLookup.Proofs.Loading.WellFormed
import TransducerLookup.Proofs.Table.Path
import TransducerLookup.Proofs.Search.Exploration
import TransducerLookup.Proofs.Search.PathEnumeration
import TransducerLookup.Proofs.Layout.Basic
import TransducerLookup.Proofs.Layout.Refinement
import TransducerLookup.Proofs.Search.Backtracking
import TransducerLookup.Proofs.Checked.Basic
import TransducerLookup.Proofs.Checked.Flags
import TransducerLookup.Proofs.Checked.Search
import TransducerLookup.Proofs.Search.Bounds
import TransducerLookup.Proofs.Checked.Simulation
import TransducerLookup.Proofs.Checked.Loading
import TransducerLookup.Proofs.Checked.History
import TransducerLookup.Proofs.Loading.Reads
import TransducerLookup.Proofs.Search.Resources
import TransducerLookup.Proofs.Session.Reuse
import TransducerLookup.Proofs.Loading.Items
import TransducerLookup.Proofs.Loading.Image
import TransducerLookup.Proofs.Search.TurnLimit
import TransducerLookup.Proofs.Graph.DepthLimit
import TransducerLookup.Proofs.Search.DepthLimit
import TransducerLookup.Proofs.Loading.Preamble
import TransducerLookup.Proofs.Search.Weights
import TransducerLookup.Proofs.Trie.LongestMatch
import TransducerLookup.Proofs.Search.InputSymbols
import TransducerLookup.Proofs.Checked.FlagRows
import TransducerLookup.Proofs.Checked.Independence
import TransducerLookup.Proofs.Flag.Grammar
import TransducerLookup.Proofs.Flag.FirstSeen
import TransducerLookup.Proofs.Loading.Symbols
import TransducerLookup.Proofs.Search.Output
import TransducerLookup.Proofs.Search.Visits
import TransducerLookup.Proofs.Stream.Partition
import TransducerLookup.Proofs.Loading.Properties
import TransducerLookup.Proofs.CommandLine.Arguments
import TransducerLookup.Proofs.CommandLine.Lines
import TransducerLookup.Proofs.CommandLine.Words
