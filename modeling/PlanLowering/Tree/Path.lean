import PlanLowering.Number.Numeral

/-!
Positions in a tree: the child indices on the way down from the root.
-/

namespace PlanLowering

structure NodePath where
  indices : List Nat
deriving DecidableEq, Repr

namespace NodePath

def root : NodePath :=
  ⟨[]⟩

instance : Inhabited NodePath := ⟨root⟩

def isRoot (p : NodePath) : Bool :=
  p.indices.isEmpty

def depth (p : NodePath) : Nat :=
  p.indices.length

/-- The position of the child with this index. -/
def child (p : NodePath) (index : Nat) : NodePath :=
  ⟨p.indices ++ [index]⟩

/-- The position of the parent; the root stays where it is. -/
def parent (p : NodePath) : NodePath :=
  ⟨p.indices.dropLast⟩

/-- The index of the node below its parent. -/
def last? (p : NodePath) : Option Nat :=
  p.indices.getLast?

@[simp] theorem depth_child (p : NodePath) (index : Nat) : (p.child index).depth = p.depth + 1 := by
  simp [depth, child]

@[simp] theorem parent_child (p : NodePath) (index : Nat) : (p.child index).parent = p := by
  simp [parent, child]

@[simp] theorem last?_child (p : NodePath) (index : Nat) : (p.child index).last? = some index := by
  simp [last?, child]

/-- One `/` and the decimal digits for each index; the root is a lone `/`. -/
def chars (p : NodePath) : List Char :=
  match p.indices with
  | [] => ['/']
  | indices => indices.flatMap fun index => '/' :: Nat.toDigits 10 index

def display (p : NodePath) : String :=
  String.ofList p.chars

end NodePath

end PlanLowering
