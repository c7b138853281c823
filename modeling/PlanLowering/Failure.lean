import PlanLowering.Tree.Path

/-!
Why a compilation stops. Each failure names the kind of the offending node and its position; nothing
is returned beside it.
-/

namespace PlanLowering

inductive CompileError where
  /-- No registered strategy matches the node. -/
  | unsupported (kind : String) (path : NodePath)
  /-- The node is at odds with itself. -/
  | malformed (kind : String) (path : NodePath) (reason : String)
  /-- A strategy gave up on the node. -/
  | conversion (strategy kind : String) (path : NodePath) (reason : String)
  /-- The node lies below the depth limit. -/
  | tooDeep (kind : String) (path : NodePath) (depth limit : Nat)
deriving DecidableEq, Repr

namespace CompileError

/-- The failure of a node below the limit; its depth is that of its position. -/
def tooDeepAt (kind : String) (path : NodePath) (limit : Nat) : CompileError :=
  tooDeep kind path path.depth limit

def kind : CompileError → String
  | unsupported kind _ | malformed kind _ _ | conversion _ kind _ _ | tooDeep kind _ _ _ => kind

def path : CompileError → NodePath
  | unsupported _ path | malformed _ path _ | conversion _ _ path _ | tooDeep _ path _ _ => path

def isUnsupported : CompileError → Bool
  | unsupported .. => true
  | _ => false

/-- The name of the cause. -/
def cause : CompileError → String
  | unsupported .. => "UnsupportedOperator"
  | malformed .. => "MalformedPlan"
  | conversion .. => "ConversionFailure"
  | tooDeep .. => "PlanTooDeep"

def message : CompileError → String
  | unsupported kind path =>
    "不支持的算子 " ++ kind ++ "（位置 " ++ path.display ++ "）：没有匹配的策略"
  | malformed kind path reason =>
    "畸形计划节点 " ++ kind ++ "（位置 " ++ path.display ++ "）：" ++ reason
  | conversion strategy kind path reason =>
    "策略 " ++ strategy ++ " 转换 " ++ kind ++ " 失败（位置 " ++ path.display ++ "）：" ++ reason
  | tooDeep kind path depth limit =>
    "计划深度 " ++ (Numeral.ofNat depth).text ++ " 超过上限 " ++ (Numeral.ofNat limit).text ++
      "：节点 " ++ kind ++ "（位置 " ++ path.display ++ "）"

end CompileError

end PlanLowering
