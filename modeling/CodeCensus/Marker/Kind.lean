/-!
# Marker kinds

The six keywords by which a comment marks something to come back to.
-/

namespace CodeCensus.Marker

/-- The kinds of marker, in the order in which a line is tried for them. -/
inductive Kind where
  | todo
  | fixme
  | hack
  | xxx
  | bug
  | note
  deriving DecidableEq, Repr

namespace Kind

/-- Every kind, in the order of the type. -/
def all : List Kind :=
  [todo, fixme, hack, xxx, bug, note]

/-- The name of a kind, as it is printed. -/
def name : Kind → String
  | todo => "TODO"
  | fixme => "FIXME"
  | hack => "HACK"
  | xxx => "XXX"
  | bug => "BUG"
  | note => "NOTE"

/-- The keyword of a kind, in the letters that a folded text has. -/
def keyword : Kind → List Char
  | todo => ['t', 'o', 'd', 'o']
  | fixme => ['f', 'i', 'x', 'm', 'e']
  | hack => ['h', 'a', 'c', 'k']
  | xxx => ['x', 'x', 'x']
  | bug => ['b', 'u', 'g']
  | note => ['n', 'o', 't', 'e']

/-- Some kinds mark a known defect rather than a plan. -/
def isCritical : Kind → Bool
  | fixme | bug | xxx => true
  | todo | hack | note => false

end Kind

end CodeCensus.Marker
