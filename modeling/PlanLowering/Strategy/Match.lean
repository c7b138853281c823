import PlanLowering.Mode
import PlanLowering.Text.Quoted
import PlanLowering.Tree.Node

/-!
A match: a node that a strategy is to lower, with its children lowered already. Each lowered child can
be taken once; a conversion is a computation that takes some of them and may fail.
-/

namespace PlanLowering

structure Match (N E : Type) where
  node : N
  mode : Mode
  path : NodePath
  /-- The name of the strategy at work. -/
  strategy : String
  /-- The lowered children; one that was taken leaves a gap. -/
  inputs : List (Option E)

namespace Match

variable {N E : Type}

def ofInputs (node : N) (mode : Mode) (path : NodePath) (strategy : String) (inputs : List E) :
    Match N E :=
  ⟨node, mode, path, strategy, inputs.map some⟩

/-- The number of children, those taken included. -/
def inputCount (m : Match N E) : Nat :=
  m.inputs.length

/-- The lowered children not taken so far, in order. -/
def remaining (m : Match N E) : List E :=
  m.inputs.filterMap id

/-- The lowered child with this index, unless it was taken. -/
def input? (m : Match N E) (index : Nat) : Option E :=
  m.inputs[index]?.join

/-- The match with a gap at an index. -/
def without (m : Match N E) (index : Nat) : Match N E :=
  { m with inputs := m.inputs.set index none }

/-- The match with nothing left to take. -/
def emptied (m : Match N E) : Match N E :=
  { m with inputs := m.inputs.map fun _ => none }

variable [SizeOf N] [TreeNode N]

/-- The failure of the strategy at work on this node. -/
def failure (m : Match N E) (reason : String) : CompileError :=
  .conversion m.strategy (TreeNode.kindName m.node) m.path reason

def missingInput (m : Match N E) (index : Nat) : String :=
  "子节点 " ++ (Numeral.ofNat index).text ++ " 不存在或已被取走（共 " ++
    (Numeral.ofNat m.inputCount).text ++ " 个）"

def debug (text : E → String) (m : Match N E) : String :=
  Text.record "Match"
    [("kind", TreeNode.kindName m.node),
      ("mode", m.mode.debugName),
      ("path", "NodePath(" ++
        Text.bracketed (m.path.indices.map fun index => (Numeral.ofNat index).text) ++ ")"),
      ("strategy", Text.quoted m.strategy),
      ("inputs", Text.bracketed (m.inputs.map fun input => Text.optional (input.map text)))]

end Match

/-- A computation that uses up the lowered children of a match. What it has taken stays taken when it
fails. -/
abbrev Conversion (N E α : Type) := ExceptT CompileError (StateM (Match N E)) α

namespace Conversion

variable {N E α : Type} [SizeOf N] [TreeNode N]

/-- Fails on behalf of the strategy at work. -/
def fail (reason : String) : Conversion N E α := do
  throw ((← get).failure reason)

/-- Takes the lowered child with this index. -/
def take (index : Nat) : Conversion N E E := do
  let m ← get
  match m.input? index with
  | some input =>
    set (m.without index)
    return input
  | none => fail (m.missingInput index)

/-- Takes `count` lowered children from `first` on, in order. -/
def takeFrom (first : Nat) : Nat → Conversion N E (List E)
  | 0 => return []
  | count + 1 => do
    let input ← take first
    let others ← takeFrom (first + 1) count
    return input :: others

/-- Takes the lowered children with the indices from `first` up to `last` exclusive. -/
def takeRange (first last : Nat) : Conversion N E (List E) :=
  takeFrom first (last - first)

/-- Takes all lowered children from `first` on. -/
def takeRest (first : Nat) : Conversion N E (List E) := do
  takeRange first (← get).inputCount

/-- All lowered children that are left. -/
def takeRemaining : Conversion N E (List E) := do
  let m ← get
  set m.emptied
  return m.remaining

/-- The outcome of a conversion on a match. -/
def on (conversion : Conversion N E α) (m : Match N E) : Except CompileError α :=
  (conversion.run.run m).1

end Conversion

end PlanLowering
