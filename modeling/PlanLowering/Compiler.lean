import PlanLowering.Config.Basic
import PlanLowering.Log.Record
import PlanLowering.Strategy.Standard
import PlanLowering.Tree.Stats
import PlanLowering.Tree.Validate

/-!
The compiler: an ordered registry of strategies that lowers a tree from its leaves up. A tree is
validated as a whole first. Then each node is met on the way in, where the first strategy that wants
it is chosen, its children are lowered in order, and the strategy is applied to them. The first
failure ends the compilation. What is recorded on the way has no influence on the outcome.
-/

namespace PlanLowering

/-- A lowered tree and the mode it was lowered in. -/
structure Statement (E : Type) where
  root : E
  mode : Mode
deriving DecidableEq, Repr

structure Compiler (N E : Type) [SizeOf N] [TreeNode N] where
  strategies : List (Strategy N E)
  options : CompilerOptions

/-- A registry under construction; strategies added first have priority. -/
structure CompilerBuilder (N E : Type) [SizeOf N] [TreeNode N] where
  strategies : List (Strategy N E) := []
  options : CompilerOptions := {}

variable {N E : Type} [SizeOf N] [TreeNode N]

namespace Compiler

def record (level : LogLevel) (text : String) : LogRecord :=
  ⟨level, .compiler, text⟩

def number (n : Nat) : String :=
  (Numeral.ofNat n).text

def builtRecord (strategyCount : Nat) (options : CompilerOptions) : LogRecord :=
  record .info
    ("构建计划编译器: " ++ number strategyCount ++ " 个策略, 最大深度 " ++
      number options.maxPlanDepth.toNat)

def statsRecord (root : N) (mode : Mode) : LogRecord :=
  let stats := PlanStats.collect root
  record .debug
    ("编译计划: 根节点 " ++ TreeNode.kindName root ++ ", 节点数 " ++ number stats.nodeCount ++
      ", 最大深度 " ++ number stats.maxDepth ++ ", 模式 " ++ mode.name)

def emptyRegistryRecord (root : N) : LogRecord :=
  record .warn ("策略注册表为空，无法编译 " ++ TreeNode.kindName root ++ " 节点")

def traceRecord (path : NodePath) (node : N) (strategy : Strategy N E) : LogRecord :=
  record .debug
    (path.display ++ " " ++ TreeNode.kindName node ++ " -> " ++ strategy.name)

def size (compiler : Compiler N E) : Nat :=
  compiler.strategies.length

def isEmpty (compiler : Compiler N E) : Bool :=
  compiler.strategies.isEmpty

def strategyNames (compiler : Compiler N E) : List String :=
  compiler.strategies.map Strategy.name

/-- The first strategy that wants the node. -/
def select (compiler : Compiler N E) (node : N) : Option (Strategy N E) :=
  Strategy.select compiler.strategies node

/-- Lowers the tree below the current position. A node that no strategy wants fails on the way in,
before its children; a strategy fails on the way out. -/
def lower (compiler : Compiler N E) (mode : Mode) (root : N) : Walk (List LogRecord) E :=
  TreeNode.fold (fun node below => do
    let path ← Walk.here
    match compiler.select node with
    | none => throw (.unsupported (TreeNode.kindName node) path)
    | some strategy =>
      let inputs ← Walk.children below
      if compiler.options.traceStrategies then
        modify fun cursor =>
          { cursor with gathered := cursor.gathered ++ [traceRecord path node strategy] }
      liftExcept (strategy.apply (.ofInputs node mode path strategy.name inputs))) root
where
  liftExcept (outcome : Except CompileError E) : Walk (List LogRecord) E :=
    ExceptT.mk (pure outcome)

def validator (compiler : Compiler N E) : PlanValidator :=
  ⟨compiler.options.maxPlanDepth.toNat⟩

/-- The records sent between the validation and the lowering. -/
def openingRecords (compiler : Compiler N E) (root : N) (mode : Mode) : List LogRecord :=
  statsRecord root mode :: if compiler.isEmpty then [emptyRegistryRecord root] else []

/-- Compiles a tree, and lists the records sent on the way. -/
def prepareRecorded (compiler : Compiler N E) (root : N) (mode : Mode) :
    Except CompileError (Statement E) × List LogRecord :=
  match compiler.validator.validate root with
  | .error failure => (.error failure, [])
  | .ok () =>
    let (outcome, cursor) :=
      (compiler.lower mode root).runFrom .root (compiler.openingRecords root mode)
    (outcome.map fun lowered => ⟨lowered, mode⟩, cursor.gathered)

/-- Compiles a tree in a mode. -/
def prepare (compiler : Compiler N E) (root : N) (mode : Mode) :
    Except CompileError (Statement E) :=
  (compiler.prepareRecorded root mode).1

/-- Compiles a tree in the mode of the options. -/
def prepareDefault (compiler : Compiler N E) (root : N) : Except CompileError (Statement E) :=
  compiler.prepare root compiler.options.defaultMode

def debug (compiler : Compiler N E) : String :=
  Text.record "PartiQLCompiler"
    [("strategies", Text.bracketed (compiler.strategyNames.map Text.quoted)),
      ("options", compiler.options.debug)]

end Compiler

namespace CompilerBuilder

def add (builder : CompilerBuilder N E) (strategy : Strategy N E) : CompilerBuilder N E :=
  { builder with strategies := builder.strategies ++ [strategy] }

def withOptions (builder : CompilerBuilder N E) (options : CompilerOptions) :
    CompilerBuilder N E :=
  { builder with options := options }

def withStandard (builder : CompilerBuilder Operator Expr) : CompilerBuilder Operator Expr :=
  { builder with strategies := builder.strategies ++ Standard.strategies }

def size (builder : CompilerBuilder N E) : Nat :=
  builder.strategies.length

def isEmpty (builder : CompilerBuilder N E) : Bool :=
  builder.strategies.isEmpty

/-- The compiler with this registry, which does not change any more. -/
def build (builder : CompilerBuilder N E) : Compiler N E :=
  ⟨builder.strategies, builder.options⟩

/-- The record sent when the compiler is built. -/
def buildRecord (builder : CompilerBuilder N E) : LogRecord :=
  Compiler.builtRecord builder.size builder.options

end CompilerBuilder

/-- The compiler with the standard strategies and the default options. -/
def Compiler.standard : Compiler Operator Expr :=
  (CompilerBuilder.withStandard {}).build

end PlanLowering
