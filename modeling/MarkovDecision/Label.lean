import MarkovDecision.Text.Quoted

/-!
# Labels

States and actions are named by labels, which are ordered and have two texts: the plain one, and
the quoted one that shows where a label begins and ends.
-/

namespace MarkovDecision

/-- The two texts of a label. -/
class Label (L : Type) where
  /-- The text that stands in tables. -/
  plain : L → String
  /-- The text that stands in messages and graphs, where labels need to be told apart. -/
  quoted : L → String

instance : Label String where
  plain := id
  quoted := MarkovDecision.quoted

instance : Label Int where
  plain := toString
  quoted := toString

instance : Label Nat where
  plain := toString
  quoted := toString

end MarkovDecision
