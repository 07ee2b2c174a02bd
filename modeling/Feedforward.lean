import Feedforward.Number.Instances
import Feedforward.Value.Text
import Feedforward.Value.Merge
import Feedforward.Network.Compile
import Feedforward.Network.Run
import Feedforward.Network.Learn
import Feedforward.Network.Layout
import Feedforward.Json.Reading
import Feedforward.Json.Writing
import Feedforward.Blueprint
import Feedforward.Preset
import Feedforward.Yaml.Reading
import Feedforward.Network.Feed
import Feedforward.Document
import Feedforward.Files.Tree
import Feedforward.Command.Run
import Feedforward.Main
import Feedforward.Proofs.Graph.Reachability
import Feedforward.Proofs.Graph.Order
import Feedforward.Proofs.Network.Answer
import Feedforward.Proofs.Network.Positions
import Feedforward.Proofs.Network.Feed
import Feedforward.Proofs.Network.Compile
import Feedforward.Proofs.Network.Layout
import Feedforward.Proofs.Network.Run
import Feedforward.Proofs.Network.Denotation
import Feedforward.Proofs.Graph.Unfolding
import Feedforward.Proofs.Blueprint.Declaration
import Feedforward.Proofs.Network.Draws
import Feedforward.Proofs.Blueprint.Table
import Feedforward.Proofs.Blueprint.Build
import Feedforward.Proofs.Network.Description
import Feedforward.Proofs.Blueprint.Layout
import Feedforward.Proofs.Network.Renaming
import Feedforward.Proofs.Blueprint.Independence
import Feedforward.Proofs.Blueprint.Spelling
import Feedforward.Proofs.Blueprint.Restore
import Feedforward.Proofs.Tensor.Shape
import Feedforward.Proofs.Network.Dependence
import Feedforward.Proofs.Network.Session
import Feedforward.Proofs.Network.Shape
import Feedforward.Proofs.Network.Failure
import Feedforward.Proofs.Graph.Reach
import Feedforward.Proofs.Graph.Growth
import Feedforward.Proofs.Blueprint.Growth
import Feedforward.Proofs.Network.Connection
import Feedforward.Proofs.Sorting.Gallop
import Feedforward.Proofs.Sorting.Permutation
import Feedforward.Proofs.Sorting.Order
import Feedforward.Proofs.Sorting.Merging
import Feedforward.Proofs.Sorting.Sorted
import Feedforward.Proofs.Json.Writing
import Feedforward.Proofs.Json.KeyOrder
import Feedforward.Proofs.Files.Tree
import Feedforward.Proofs.Value.Alike
import Feedforward.Proofs.Blueprint.Alike
import Feedforward.Proofs.Document
import Feedforward.Proofs.Command.Arguments
import Feedforward.Proofs.Command.Draft
import Feedforward.Proofs.Command.Run
import Feedforward.Proofs.Command.Rerun
import Feedforward.Proofs.Blueprint.Check
import Feedforward.Proofs.Blueprint.Acceptance
import Feedforward.Proofs.Network.Count
import Feedforward.Proofs.Network.Keyed
import Feedforward.Proofs.Tensor.Block
import Feedforward.Proofs.Network.Columns
import Feedforward.Proofs.Network.Success
import Feedforward.Proofs.Graph.Rearrangement
import Feedforward.Proofs.Network.Rearrangement
import Feedforward.Proofs.Network.Linearity
import Feedforward.Proofs.Tensor.Row
import Feedforward.Proofs.Network.Perceptron
import Feedforward.Proofs.Network.Learning
import Feedforward.Proofs.Network.Training
import Feedforward.Proofs.Value.Merge
import Feedforward.Proofs.Value.MergeAlgebra
import Feedforward.Proofs.Number.Rounding
import Feedforward.Proofs.Number.Encoding
import Feedforward.Proofs.Stream.Weight
import Feedforward.Proofs.Blueprint.References
import Feedforward.Proofs.Network.Mismatch
import Feedforward.Proofs.Yaml.Plain
import Feedforward.Proofs.Command.Document
