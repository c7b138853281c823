import PlanLowering.Proofs.Compiler.Location
import PlanLowering.Proofs.Pattern.Display
import PlanLowering.Proofs.Text.Runs
import PlanLowering.Proofs.Tree.Display

/-!
Messages that lead to a node. The text of a position in a message of the compiler is that of one
node of the tree only. Where no name has an opening bracket in it, this text stands in the first
brackets of the message, whatever the reason behind it says.
-/

namespace PlanLowering

/-- A text that cannot be taken for the place where a message gives a position. -/
def Unbracketed (text : String) : Prop :=
  '（' ∉ text.toList

instance (text : String) : Decidable (Unbracketed text) :=
  inferInstanceAs (Decidable ('（' ∉ text.toList))

theorem Unbracketed.append {text other : String} (htext : Unbracketed text)
    (hother : Unbracketed other) : Unbracketed (text ++ other) := by
  rw [Unbracketed, String.toList_append, List.mem_append, not_or]
  exact ⟨htext, hother⟩

theorem unbracketed_number (n : Nat) : Unbracketed (Numeral.ofNat n).text := by
  have hdigits : (Numeral.ofNat n).text.toList = Nat.toDigits 10 n := by
    simp [Numeral.text, Numeral.chars, Numeral.ofNat]
  rw [Unbracketed, hdigits]
  exact Numeral.notMem_toDigits (by decide) n

theorem NodePath.bracket_notMem_chars (path : NodePath) : '）' ∉ path.chars := by
  intro hbracket
  rcases NodePath.mem_chars hbracket with h | h <;> exact absurd h (by decide)

namespace CompileError

/-- What stands in the first brackets of a message, behind the label that they begin with. -/
def positionText (message : String) : String :=
  String.ofList
    (((message.toList.dropWhile (· ≠ '（')).drop "（位置 ".toList.length).takeWhile (· ≠ '）'))

/-- What a message says in front of the position. -/
def lead : CompileError → String
  | unsupported kind _ => "不支持的算子 " ++ kind
  | malformed kind _ _ => "畸形计划节点 " ++ kind
  | conversion strategy kind _ _ => "策略 " ++ strategy ++ " 转换 " ++ kind ++ " 失败"
  | tooDeep kind _ depth limit =>
    "计划深度 " ++ (Numeral.ofNat depth).text ++ " 超过上限 " ++ (Numeral.ofNat limit).text ++
      "：节点 " ++ kind

/-- What a message says behind the position. -/
def trail : CompileError → String
  | unsupported _ _ => "：没有匹配的策略"
  | malformed _ _ reason | conversion _ _ _ reason => "：" ++ reason
  | tooDeep _ _ _ _ => ""

theorem message_eq (failure : CompileError) :
    failure.message =
      failure.lead ++ "（位置 " ++ failure.path.display ++ "）" ++ failure.trail := by
  -- in the messages the brackets are part of longer literals, which are cut here
  have hlabel : " 失败（位置 " = " 失败" ++ "（位置 " := by decide
  have hclose : "）：" = "）" ++ "：" := by decide
  cases failure with
  | unsupported kind path =>
      have hend : "）：没有匹配的策略" = "）" ++ "：没有匹配的策略" := by decide
      change _ ++ "）：没有匹配的策略" = _
      rw [hend, ← String.append_assoc]
      rfl
  | malformed kind path reason =>
      change _ ++ "）：" ++ reason = _
      rw [hclose, ← String.append_assoc, String.append_assoc]
      rfl
  | conversion strategy kind path reason =>
      change _ ++ " 失败（位置 " ++ _ ++ "）：" ++ reason = _
      rw [hlabel, hclose, ← String.append_assoc, ← String.append_assoc, String.append_assoc]
      rfl
  | tooDeep kind path depth limit => exact String.append_empty.symm

theorem toList_message (failure : CompileError) :
    failure.message.toList = failure.lead.toList ++
      ("（位置 ".toList ++ (failure.path.chars ++ '）' :: failure.trail.toList)) := by
  simp only [message_eq, String.toList_append, List.append_assoc, NodePath.display,
    String.toList_ofList]
  rfl

/-- The position comes first: what is put in brackets behind it does not matter. -/
theorem positionText_message {failure : CompileError} (h : Unbracketed failure.lead) :
    positionText failure.message = failure.path.display := by
  have hlead : ∀ c ∈ failure.lead.toList, decide (c ≠ '（') = true :=
    fun c hc => decide_eq_true fun hbracket => h (hbracket ▸ hc)
  have hopen : ∀ others : List Char, ∀ c ∈ ("（位置 ".toList ++ others).head?,
      decide (c ≠ '（') = false := by
    rintro others c ⟨⟩
    rfl
  have hposition : ∀ c ∈ failure.path.chars, decide (c ≠ '）') = true :=
    fun c hc => decide_eq_true fun hbracket => failure.path.bracket_notMem_chars (hbracket ▸ hc)
  have hclose : ∀ c ∈ ('）' :: failure.trail.toList).head?, decide (c ≠ '）') = false := by
    rintro c ⟨⟩
    rfl
  rw [positionText, toList_message, Text.dropWhile_run hlead (hopen _), List.drop_left,
    Text.takeWhile_run hposition hclose, NodePath.display]

end CompileError

variable {N E : Type} [SizeOf N] [TreeNode N]

theorem unbracketed_kindName (hnames : Pattern.PlainNames N) (node : N) :
    Unbracketed (TreeNode.kindName node) :=
  fun hbracket => absurd (hnames (TreeNode.kind node) '（' hbracket) (by decide)

theorem Standard.unbracketed_name_of_mem_strategies :
    ∀ strategy ∈ Standard.strategies, Unbracketed strategy.name := by
  have hnames : ∀ name ∈ Standard.strategies.map Strategy.name, Unbracketed name := by decide
  exact fun strategy hstrategy => hnames strategy.name (List.mem_map_of_mem hstrategy)

theorem Compiler.Blames.unbracketed_lead {compiler : Compiler N E}
    {before : List (NodePath × N)} {path : NodePath} {node : N} {failure : CompileError}
    (h : compiler.Blames before path node failure) (hkind : Unbracketed (TreeNode.kindName node))
    (hnames : ∀ strategy ∈ compiler.strategies, Unbracketed strategy.name) :
    Unbracketed failure.lead := by
  cases h with
  | @tooDeep depth limit =>
      have hdepth : Unbracketed ("计划深度 " ++ (Numeral.ofNat depth).text ++ " 超过上限 ") :=
        (Unbracketed.append (by decide) (unbracketed_number depth)).append (by decide)
      have hlimit := hdepth.append (unbracketed_number limit)
      exact (hlimit.append (by decide)).append hkind
  | malformed => exact Unbracketed.append (by decide) hkind
  | conversion hfirst =>
      have hname := hnames _ (List.mem_of_find?_eq_some hfirst)
      exact (((Unbracketed.append (by decide) hname).append (by decide)).append hkind).append
        (by decide)
  | unsupported => exact Unbracketed.append (by decide) hkind

/-- A position is shown by a text of its own, the decimals behind the slashes being its indices. So
this text stands for one node of a tree only. With strategies that fail only through their match, as
the standard ones do, the text of the position in the message of a failure is that of one node of
the plan; and without brackets in any name it is the text in the first brackets of the message. -/
theorem positions_shown_unambiguously :
    (∀ p q : NodePath, p.display = q.display → p = q) ∧
    (∀ p : NodePath, NodePath.indices? p.display = some p.indices) ∧
    (∀ (root node : N) (path : NodePath), TreeNode.resolve root path = some node →
      ∃! place, place ∈ TreeNode.located root ∧ place.1.display = path.display) ∧
    (∀ (compiler : Compiler N E) (root : N) (mode : Mode) (failure : CompileError),
      (∀ strategy ∈ compiler.strategies, strategy.FailsThroughMatch) →
      compiler.prepare root mode = .error failure →
      Shows failure.message failure.path.display ∧
      (∃! place, place ∈ TreeNode.located root ∧ place.1.display = failure.path.display) ∧
      ((∀ node : N, Unbracketed (TreeNode.kindName node)) →
        (∀ strategy ∈ compiler.strategies, Unbracketed strategy.name) →
        CompileError.positionText failure.message = failure.path.display)) ∧
    (∀ plan : Operator, Unbracketed (TreeNode.kindName plan)) ∧
    (∀ query : QueryNode, Unbracketed (TreeNode.kindName query)) ∧
    ∀ strategy ∈ Standard.strategies,
      strategy.FailsThroughMatch ∧ Unbracketed strategy.name := by
  refine ⟨fun _ _ htext => NodePath.display_injective htext, NodePath.indices?_display,
    fun _ _ _ => TreeNode.existsUnique_display, ?_,
    unbracketed_kindName Pattern.plainNames_operator,
    unbracketed_kindName Pattern.plainNames_queryNode, ?_⟩
  · intro compiler root mode failure hreports hprepare
    obtain ⟨before, path, node, after, hlocated, hblames⟩ :=
      Compiler.exists_blames_of_prepare hreports hprepare
    obtain rfl := hblames.path_eq
    have hmember : (failure.path, node) ∈ TreeNode.located root := by
      rw [hlocated]
      exact List.mem_append_right _ List.mem_cons_self
    refine ⟨failure.message_shows_path,
      TreeNode.existsUnique_display (TreeNode.mem_located_iff.mp hmember), fun hkinds hnames => ?_⟩
    exact CompileError.positionText_message (hblames.unbracketed_lead (hkinds node) hnames)
  · intro strategy hstrategy
    exact ⟨Standard.failsThroughMatch_of_mem_strategies hstrategy,
      Standard.unbracketed_name_of_mem_strategies strategy hstrategy⟩

/-- A plan with a fault that speaks of another position than its own. -/
def Operator.misleadingFault : Operator :=
  .filter (.scan (.global "t")) (.err "（位置 /0）")

/-- What a fault says of another position does not lead there. -/
theorem positions_shown_unambiguously_misleadingFault :
    TreeNode.resolve Operator.misleadingFault ⟨[1]⟩ = some (.err "（位置 /0）") ∧
    (∀ strategy ∈ Compiler.standard.strategies, strategy.FailsThroughMatch) ∧
    Compiler.standard.prepare .misleadingFault .strict =
      .error (.malformed "Err" ⟨[1]⟩ "计划中包含错误节点: （位置 /0）") ∧
    (∀ plan : Operator, Unbracketed (TreeNode.kindName plan)) ∧
    (∀ strategy ∈ Compiler.standard.strategies, Unbracketed strategy.name) ∧
    (∃! place, place ∈ TreeNode.located Operator.misleadingFault ∧
      place.1.display = NodePath.display ⟨[1]⟩) ∧
    CompileError.positionText
        (CompileError.malformed "Err" ⟨[1]⟩ "计划中包含错误节点: （位置 /0）").message =
      NodePath.display ⟨[1]⟩ := by
  have hresolve :
      TreeNode.resolve Operator.misleadingFault ⟨[1]⟩ = some (.err "（位置 /0）") := rfl
  have hreports : ∀ strategy ∈ Compiler.standard.strategies, strategy.FailsThroughMatch :=
    fun _ => Standard.failsThroughMatch_of_mem_strategies
  have hfault : Compiler.standard.prepare .misleadingFault .strict =
      .error (.malformed "Err" ⟨[1]⟩ "计划中包含错误节点: （位置 /0）") := by
    with_unfolding_all rfl
  have hkinds : ∀ plan : Operator, Unbracketed (TreeNode.kindName plan) :=
    unbracketed_kindName Pattern.plainNames_operator
  have hnames : ∀ strategy ∈ Compiler.standard.strategies, Unbracketed strategy.name :=
    Standard.unbracketed_name_of_mem_strategies
  obtain ⟨-, -, hunique, hmessages, -⟩ :=
    positions_shown_unambiguously (N := Operator) (E := Expr)
  obtain ⟨-, -, hposition⟩ := hmessages Compiler.standard _ .strict _ hreports hfault
  exact ⟨hresolve, hreports, hfault, hkinds, hnames, hunique _ _ _ hresolve,
    hposition hkinds hnames⟩

end PlanLowering
