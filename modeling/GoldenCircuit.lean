import GoldenCircuit.LogLevel
import GoldenCircuit.Main
import GoldenCircuit.Proofs.AndTree.Arguments
import GoldenCircuit.Proofs.AndTree.GoldenTexts
import GoldenCircuit.Proofs.AndTree.Propagation
import GoldenCircuit.Proofs.AndTree.Shape
import GoldenCircuit.Proofs.Catalog
import GoldenCircuit.Proofs.Chisel.Widths
import GoldenCircuit.Proofs.CommandLine
import GoldenCircuit.Proofs.ExamplePaths
import GoldenCircuit.Proofs.Execution
import GoldenCircuit.Proofs.Generation
import GoldenCircuit.Proofs.GoldenWidths
import GoldenCircuit.Proofs.ModuleDescription.Loading
import GoldenCircuit.Proofs.Netlist.Construction
import GoldenCircuit.Proofs.Netlist.Names
import GoldenCircuit.Proofs.Netlist.Signals
import GoldenCircuit.Proofs.Netlist.Updates
import GoldenCircuit.Proofs.Oblivious
import GoldenCircuit.Proofs.Poking
import GoldenCircuit.Proofs.RecordedPast
import GoldenCircuit.Proofs.Repetition
import GoldenCircuit.Proofs.Request.Members
import GoldenCircuit.Proofs.Step
import GoldenCircuit.Proofs.Stimulus.Uniform
import GoldenCircuit.Proofs.Waveform.Enumeration
import GoldenCircuit.Proofs.Waveform.Log
import GoldenCircuit.Request.Json
