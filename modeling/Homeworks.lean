import Homeworks.BankServer.Conservation
import Homeworks.BankServer.Log
import Homeworks.BankServer.Refusals
import Homeworks.BankServer.Server
import Homeworks.BankServer.Slots
import Homeworks.BankServer.Tellers
import Homeworks.CString.Floating
import Homeworks.CString.Format
import Homeworks.CString.Memory
import Homeworks.CString.Number
import Homeworks.CString.Order
import Homeworks.CString.Search
import Homeworks.Catalogue.Accounts
import Homeworks.Catalogue.Loading
import Homeworks.Catalogue.Sorting
import Homeworks.ChatClient.Commands
import Homeworks.ChatClient.Messages
import Homeworks.ChatServer.Bounds
import Homeworks.ChatServer.Capacity
import Homeworks.ChatServer.Cleanup
import Homeworks.ChatServer.Commands
import Homeworks.ChatServer.Decoding
import Homeworks.ChatServer.Delivery
import Homeworks.ChatServer.Displacement
import Homeworks.ChatServer.FileQueue
import Homeworks.ChatServer.Framing
import Homeworks.ChatServer.Handlers
import Homeworks.ChatServer.Locking
import Homeworks.ChatServer.Membership
import Homeworks.ChatServer.Parsing
import Homeworks.ChatServer.Rejoin
import Homeworks.ChatServer.Server
import Homeworks.Circuit.Synchronous
import Homeworks.Coloring.Greedy
import Homeworks.Concurrency.Locks
import Homeworks.Concurrency.Ring
import Homeworks.Converter.Balance
import Homeworks.Converter.Conversions
import Homeworks.Converter.Loops
import Homeworks.Converter.Renaming
import Homeworks.Editing.Doubles
import Homeworks.FiniteMap.Basic
import Homeworks.Gpp.Agreement
import Homeworks.Gpp.Grammar
import Homeworks.Gpp.Interpreter
import Homeworks.Gpp.Operands
import Homeworks.Gpp.Syntax
import Homeworks.Gpp.Unambiguous
import Homeworks.Graphs.Coloring
import Homeworks.Graphs.EdgeSet
import Homeworks.Graphs.Files
import Homeworks.Graphs.FiniteSet
import Homeworks.Graphs.MatrixGraph
import Homeworks.Graphs.VectorCalls
import Homeworks.GroundStation.Departure
import Homeworks.GroundStation.Outcomes
import Homeworks.GroundStation.Priority
import Homeworks.GroundStation.Station
import Homeworks.GuessingGame.Game
import Homeworks.GuessingGame.Guesses
import Homeworks.GuessingGame.Secrets
import Homeworks.Hardware.Bijection
import Homeworks.Hardware.Messages
import Homeworks.Hardware.Numbering
import Homeworks.Hashing.Calls
import Homeworks.Hashing.Crowded
import Homeworks.Hashing.GTUHashMap
import Homeworks.Hashing.Probes
import Homeworks.Hashing.Refinement
import Homeworks.Hashing.Rehashing
import Homeworks.Hashing.Resizing
import Homeworks.Hashing.WrappedProbes
import Homeworks.Hashing.WrappedRuns
import Homeworks.Heap.Order
import Homeworks.LogAnalyser.Buffer
import Homeworks.LogAnalyser.Search
import Homeworks.LogAnalyser.Total
import Homeworks.Logic.Horn
import Homeworks.LogicCircuit.Counting
import Homeworks.LogicCircuit.Evaluation
import Homeworks.LogicCircuit.Gates
import Homeworks.LogicCircuit.Printing
import Homeworks.LogicCircuit.Simulation
import Homeworks.MediaDataset.Browsing
import Homeworks.MediaDataset.Dataset
import Homeworks.MediaDataset.Mirror
import Homeworks.MediaDataset.Playback
import Homeworks.Occurrence.First
import Homeworks.Occurrence.Places
import Homeworks.OperatingSystem.Completion
import Homeworks.OperatingSystem.ContextSwitch
import Homeworks.OperatingSystem.Handlers
import Homeworks.OperatingSystem.Invariant
import Homeworks.OperatingSystem.Isolation
import Homeworks.OperatingSystem.Kernel
import Homeworks.OperatingSystem.Rules
import Homeworks.OperatingSystem.Scheduler
import Homeworks.OperatingSystem.Scheduling
import Homeworks.OperatingSystem.Solo
import Homeworks.OperatingSystem.StartTime
import Homeworks.OperatingSystem.System
import Homeworks.OperatingSystem.ThreadTable
import Homeworks.OperatingSystem.UserThreads
import Homeworks.Parsing.Level
import Homeworks.PlanetSystem.Calls
import Homeworks.PlanetSystem.Invariant
import Homeworks.PlanetSystem.Queries
import Homeworks.PlanetSystem.System
import Homeworks.Polynomials.Evaluation
import Homeworks.Polynomials.Slips
import Homeworks.Polynomials.Texts
import Homeworks.Powers.Sums
import Homeworks.Probing.Quadratic
import Homeworks.Prolog.Completeness
import Homeworks.Prolog.Conjunction
import Homeworks.Prolog.Ground
import Homeworks.Prolog.Renaming
import Homeworks.Prolog.Resolver
import Homeworks.Prolog.Returns
import Homeworks.Prolog.Soundness
import Homeworks.Queue.Stable
import Homeworks.Registry.TwoSided
import Homeworks.Relation.Acyclic
import Homeworks.RobotGame.Consistency
import Homeworks.RobotGame.Death
import Homeworks.School.Agreement
import Homeworks.Simulator.Comments
import Homeworks.Simulator.Confidentiality
import Homeworks.Simulator.ControlTransfer
import Homeworks.Simulator.Faults
import Homeworks.Simulator.Parser
import Homeworks.Simulator.Protection
import Homeworks.Simulator.Robustness
import Homeworks.Sorting.Comparator
import Homeworks.Sorting.Correctness
import Homeworks.Sorting.Exchange
import Homeworks.Sorting.Ranges
import Homeworks.Sorting.Sorter
import Homeworks.Sparse.DotProduct
import Homeworks.Sparse.Loops
import Homeworks.Sparse.Matrix
import Homeworks.Sparse.MatrixSum
import Homeworks.Sparse.Printing
import Homeworks.Sparse.Subtraction
import Homeworks.Sparse.Totals
import Homeworks.Sparse.Vector
import Homeworks.SpellChecker.Suggestions
import Homeworks.TaskManager.Main
import Homeworks.TaskManager.MinHeap
import Homeworks.TaskManager.Order
import Homeworks.TaskManager.PriorityQueue
import Homeworks.TwoGrams.Counting
import Homeworks.TwoGrams.Removal
import Homeworks.WordSearch.Grid
import Homeworks.WordSearch.Matching
import Homeworks.WordSearch.Occurrences
import Homeworks.WordSearch.Words
import Homeworks.Concurrency.Fifo
import Homeworks.Daemon.Ending
import Homeworks.Daemon.Numbers
