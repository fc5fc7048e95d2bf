import MarkovDecision.Model.Tables

/-!
# Getting to work

A traveller takes the train, drives through traffic of unknown density, or cycles.
-/

namespace MarkovDecision

namespace Commute

def table (entries : List (String × Float)) : Std.TreeMap String Float :=
  Std.TreeMap.ofList entries

/-- The cost in minutes of each way to go on. -/
def costs : CostTable String String Float :=
  Std.TreeMap.ofList [
    ("home", table [("railway", -2), ("car", -1), ("bike", -45)]),
    ("waiting_room", table [("wait", -3), ("go_back", -2)]),
    ("train", table [("relax", -35)]),
    ("light_traffic", table [("drive", -20)]),
    ("medium_traffic", table [("drive", -30)]),
    ("heavy_traffic", table [("drive", -70)]),
    ("work", table [("done", 0)])]

def distributions : DistributionTable String String Float :=
  Std.TreeMap.ofList [
    ("railway", table [("waiting_room", 0.1), ("train", 0.9)]),
    ("wait", table [("waiting_room", 0.1), ("train", 0.9)]),
    ("go_back", table [("home", 1)]),
    ("relax", table [("work", 1)]),
    ("car", table [("light_traffic", 0.2), ("medium_traffic", 0.7), ("heavy_traffic", 0.1)]),
    ("drive", table [("work", 1)]),
    ("bike", table [("work", 1)]),
    ("done", table [("work", 1)])]

def description : Description String String Float :=
  { costs := costs
    distributions := distributions
    start := "home"
    goal := "work" }

end Commute

end MarkovDecision
