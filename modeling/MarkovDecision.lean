import MarkovDecision.Number
import MarkovDecision.Decimal.Binary
import MarkovDecision.Decimal.Shortest
import MarkovDecision.Decimal.Notation
import MarkovDecision.Decimal.Reading
import MarkovDecision.Text.Printable
import MarkovDecision.Text.Quoted
import MarkovDecision.Label
import MarkovDecision.Closure
import MarkovDecision.Model.Basic
import MarkovDecision.Model.Tables
import MarkovDecision.Model.Graphviz
import MarkovDecision.Model.Connectivity
import MarkovDecision.Model.Reading
import MarkovDecision.Distance
import MarkovDecision.LinearProgram.Basic
import MarkovDecision.LinearProgram.Simplex
import MarkovDecision.LinearProgram.Components
import MarkovDecision.Reachability
import MarkovDecision.Unfolding
import MarkovDecision.Guarantee
import MarkovDecision.Random.Source
import MarkovDecision.Random.ChaCha
import MarkovDecision.Random.Draw
import MarkovDecision.Learning.Settings
import MarkovDecision.Learning.Environment
import MarkovDecision.Learning.Episode
import MarkovDecision.Learning.ValueIteration
import MarkovDecision.Learning.QLearning
import MarkovDecision.Learning.MonteCarlo
import MarkovDecision.Scenario.Commute
import MarkovDecision.Scenario.FrozenLake
import MarkovDecision.Json.Reader
import MarkovDecision.Settings
import MarkovDecision.CommandLine.Run
import MarkovDecision.Main
import MarkovDecision.CommandLine.Arguments
import MarkovDecision.Text.Csv
import MarkovDecision.Proofs.Numbers
import MarkovDecision.Proofs.Model.WellFormed
import MarkovDecision.Proofs.Model.Actions
import MarkovDecision.Proofs.Closure
import MarkovDecision.Proofs.Folds
import MarkovDecision.Proofs.Model.Connectivity
import MarkovDecision.Proofs.LinearProgram.Elimination
import MarkovDecision.Proofs.LinearProgram.Optimum
import MarkovDecision.Proofs.Expectation
import MarkovDecision.Proofs.Distance
import MarkovDecision.Proofs.Unfolding.Order
import MarkovDecision.Proofs.Unfolding.Steps
import MarkovDecision.Proofs.Unfolding.Exploration
import MarkovDecision.Proofs.Unfolding.Product
import MarkovDecision.Proofs.Unfolding.Resolved
import MarkovDecision.Proofs.Reachability.Horizon
import MarkovDecision.Proofs.Reachability.Classification
import MarkovDecision.Proofs.Reachability.Constraints
import MarkovDecision.Proofs.Reachability.Supersolution
import MarkovDecision.Proofs.Reachability.Limit
import MarkovDecision.Proofs.Reachability.Maximal
import MarkovDecision.Proofs.Reachability.Reach
import MarkovDecision.Proofs.Guarantee.Percentile
import MarkovDecision.Proofs.Guarantee.Runs
import MarkovDecision.Proofs.Relaxation
import MarkovDecision.Proofs.Unfolding.StateLimit
import MarkovDecision.Proofs.Unfolding.PruningModes
import MarkovDecision.Proofs.Unfolding.NoDeadEnds
import MarkovDecision.Proofs.Guarantee.LargerBudget
import MarkovDecision.Proofs.Reachability.Greedy
import MarkovDecision.Proofs.Guarantee.Attained
import MarkovDecision.Proofs.Model.Construction
import MarkovDecision.Proofs.Model.Tables
import MarkovDecision.Proofs.Reachability.Solvable
import MarkovDecision.Proofs.Guarantee.Targets
import MarkovDecision.Proofs.Tours
import MarkovDecision.Proofs.Unfolding.Finite
import MarkovDecision.Proofs.Reachability.BestActions
import MarkovDecision.Proofs.Unfolding.Projection
import MarkovDecision.Proofs.Guarantee.Courses
import MarkovDecision.Proofs.Learning.Sweeps
import MarkovDecision.Proofs.Learning.Plans
import MarkovDecision.Proofs.Learning.QLearning
import MarkovDecision.Proofs.Learning.Updates
import MarkovDecision.Proofs.Learning.Sessions
import MarkovDecision.Proofs.Learning.Answers
import MarkovDecision.Proofs.Learning.Bounds
import MarkovDecision.Proofs.Random.Success
import MarkovDecision.Proofs.Doubles
import MarkovDecision.Proofs.Model.Permuted
import MarkovDecision.Proofs.Reachability.Permuted
import MarkovDecision.Proofs.Unfolding.Permuted
import MarkovDecision.Proofs.Permuted
import MarkovDecision.Proofs.LeastCosts
import MarkovDecision.Proofs.Model.Account
import MarkovDecision.Proofs.Learning.Distances
import MarkovDecision.Proofs.Renaming
import MarkovDecision.Proofs.Model.Renamed
import MarkovDecision.Proofs.Reachability.Renamed
import MarkovDecision.Proofs.Rescaling
import MarkovDecision.Proofs.Unfolding.Rescaled
import MarkovDecision.Proofs.Guarantee.Rescaled
import MarkovDecision.Proofs.Unfolding.AnyOrder
import MarkovDecision.Proofs.Model.TableFaults
import MarkovDecision.Proofs.Model.TablesStored
import MarkovDecision.Proofs.Reachability.Rows
import MarkovDecision.Proofs.Model.Merged
import MarkovDecision.Proofs.Reachability.Connected
import MarkovDecision.Proofs.Learning.Convergence
import MarkovDecision.Proofs.Guarantee.Projected
import MarkovDecision.Proofs.Learning.Averages
import MarkovDecision.Proofs.Learning.Endings
