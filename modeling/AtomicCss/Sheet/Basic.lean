import AtomicCss.Context
import AtomicCss.Keyframes.Basic
import AtomicCss.Value.Basic
/-!
# Style sheets as authored

A sheet is a list of namespaces. A namespace assigns values to properties, some of them inside
blocks that belong to a context. Blocks do not nest.
-/

namespace AtomicCss

/-- What is assigned to a property: a value, nothing at all, or keyframes to be named. -/
inductive Assigned where
  | value (raw : RawValue)
  | reset
  | keyframes (keyframes : Keyframes)
deriving DecidableEq

/-- A property as it is written, and what is assigned to it. -/
structure Assignment where
  key : String
  assigned : Assigned
deriving DecidableEq

inductive Sheet.Entry where
  | single (assignment : Assignment)
  | block (context : Context) (assignments : List Assignment)
deriving DecidableEq

structure Namespace where
  name : String
  entries : List Sheet.Entry
deriving DecidableEq

structure Sheet where
  namespaces : List Namespace
deriving DecidableEq

/-- The assignments of an entry, each with its context. -/
def Sheet.Entry.assignments : Sheet.Entry → List (Context × Assignment)
  | single assignment => [(.plain, assignment)]
  | block context assignments => assignments.map (context, ·)

/-- All assignments of a namespace in authored order, each with its context. -/
def Namespace.assignments (ns : Namespace) : List (Context × Assignment) :=
  ns.entries.flatMap Sheet.Entry.assignments

end AtomicCss
