import PlanLowering.Proofs.Tree.Callbacks
import PlanLowering.Query.Identifiers

/-!
The variables that a query refers to. The collector is a visitor that overrides the callback of
variable references only and does not look below them, so it notes the outermost references in
pre-order, each by the name that its chain of identifiers spells. Where references hold plain chains
there is no reference below another one, and all of them are counted.
-/

namespace PlanLowering.QueryNode

open TreeNode

/-- The roots of the links of a chain, from link to link as long as the next one is a chain. -/
def linkRoots : QueryNode → List QueryNode
  | identifierChain root (some next) => root :: linkRoots next
  | identifierChain root none => [root]
  | _ => []

/-- The symbol of an identifier; no other node has one. -/
def symbol? : QueryNode → Option String
  | identifier symbol _ => some symbol
  | _ => none

/-- The name that a chain spells: the symbols at its links, with dots between. -/
def qualifiedName (chain : QueryNode) : String :=
  ".".intercalate (chain.linkRoots.filterMap symbol?)

/-- The name of a variable reference to a chain. -/
def referenceName? : QueryNode → Option String
  | exprVarRef target =>
    if target.kind = .identifierChain then some target.qualifiedName else none
  | _ => none

theorem chainSymbols_eq (chain : QueryNode) :
    chain.chainSymbols = chain.linkRoots.filterMap symbol? := by
  fun_induction linkRoots chain with
  | case1 root next ih =>
      rw [List.filterMap_cons, ← ih]
      cases root <;> rfl
  | case2 root => cases root <;> rfl
  | case3 node hmore hlast =>
      cases node with
      | identifierChain root next =>
          cases next with
          | some link => exact absurd rfl (hmore root link)
          | none => exact absurd rfl (hlast root)
      | _ => rfl

/-- The kind whose callback the collector overrides. -/
def referenceKind : Finset (Kind QueryNode) :=
  {QueryKind.exprVarRef}

/-- Notes the name of a variable reference, if it has one. -/
def noteReference : KindVisitor.Acts QueryNode (List String) Unit :=
  fun _ node => modify (· ++ node.val.referenceName?.toList)

theorem identifierCollector_eq :
    identifierCollector = .pruning referenceKind noteReference fun _ => pure () := by
  have hcallback : identifierCollector.callback =
      (KindVisitor.pruning referenceKind noteReference fun _ => pure ()).callback := by
    funext kind node descend
    cases kind with
    | exprVarRef =>
        obtain ⟨node, hnode⟩ := node
        cases node with
        | exprVarRef target =>
            cases target with
            | identifierChain root next =>
                have hname : (exprVarRef (identifierChain root next)).referenceName? =
                    some (".".intercalate (identifierChain root next).chainSymbols) := by
                  rw [chainSymbols_eq]
                  rfl
                change _ = modify
                  (· ++ (exprVarRef (identifierChain root next)).referenceName?.toList)
                rw [hname]
                rfl
            | _ =>
                funext names
                exact congrArg (Prod.mk ()) (List.append_nil names).symm
        | _ => cases hnode
    | _ => rfl
  exact congrArg (KindVisitor.mk · fun _ => pure ()) hcallback

theorem foldl_noteReference (row : List QueryNode) (start : List String) :
    row.foldl (fun names node =>
        ((noteReference (TreeNode.kind node) (.of node)).run names).2) start =
      start ++ row.filterMap referenceName? := by
  have hstep : (fun names node => ((noteReference (TreeNode.kind node) (.of node)).run names).2) =
      fun names node => names ++ (referenceName? node).toList := rfl
  rw [hstep, List.foldl_append_eq_append, List.filterMap_eq_flatMap_toList, List.flatMap_def]

/-- The names of the references that have no reference above them, in pre-order. -/
theorem identifiers_eq (query : QueryNode) :
    query.identifiers =
      ((located query).filter fun place =>
        place.2.kind = .exprVarRef ∧ Exposed referenceKind query place.1).filterMap
          fun place => place.2.referenceName? := by
  have hdispatches := KindVisitor.dispatches QueryNode.outline_eq query
  have hentered := hdispatches.pruning_entered referenceKind
  simp only [referenceKind, Finset.mem_singleton] at hentered
  rw [identifiers, identifierCollector_eq,
    hdispatches.pruning_stateAfter referenceKind noteReference _ [], KindVisitor.call,
    Event.foldl_perform_silent, referenceKind, hentered, foldl_noteReference, List.nil_append,
    List.filterMap_map]
  rfl

/-- Every variable reference of the query holds a chain of plain identifiers. -/
def HoldsPlainChains (query : QueryNode) : Prop :=
  ∀ path target, resolve query path = some (exprVarRef target) →
    ∃ first others, target = chain first others

/-- There is no reference in a plain chain. -/
theorem kind_ne_of_mem_chain {first : String × Bool} {others : List (String × Bool)}
    {node : QueryNode} (h : node ∈ nodes (chain first others)) : node.kind ≠ .exprVarRef := by
  have hroot : ∀ first : String × Bool, ∀ node ∈ nodes (identifier first.1 first.2),
      node.kind ≠ .exprVarRef := by
    simp [nodes_eq, TreeNode.children, children, kind]
  induction others generalizing first with
  | nil =>
      rw [chain, nodes_eq, List.mem_cons, List.mem_flatMap] at h
      rcases h with rfl | ⟨child, hchild, hnode⟩
      · exact QueryKind.noConfusion
      · rw [List.mem_singleton.mp hchild] at hnode
        exact hroot first node hnode
  | cons second others ih =>
      rw [chain, nodes_eq, List.mem_cons, List.mem_flatMap] at h
      rcases h with rfl | ⟨child, hchild, hnode⟩
      · exact QueryKind.noConfusion
      · rcases List.mem_pair.mp hchild with rfl | rfl
        · exact hroot first node hnode
        · exact ih hnode

/-- With plain chains no reference lies below another one. -/
theorem HoldsPlainChains.exposed {query : QueryNode} (h : query.HoldsPlainChains) {node : QueryNode}
    {path : NodePath} (hnode : resolve query path = some node)
    (hexposed : Exposed referenceKind query path) {place : NodePath × QueryNode}
    (hplace : place ∈ locatedFrom node path) (hkind : place.2.kind = .exprVarRef) :
    Exposed referenceKind query place.1 := by
  induction node using TreeNode.induction generalizing path with
  | step node ih =>
      rw [locatedFrom_eq, List.mem_cons, mem_zipIdx_flatMap] at hplace
      rcases hplace with rfl | ⟨index, child, hget, hbelow⟩
      · exact hexposed
      · have hchild := List.mem_of_getElem? hget
        by_cases hreference : node.kind = .exprVarRef
        · -- the children of a reference are those of a chain
          cases node with
          | exprVarRef target =>
              obtain ⟨first, others, rfl⟩ := h path target hnode
              obtain rfl := List.mem_singleton.mp hchild
              have hmember := List.mem_map_of_mem (f := Prod.snd) hbelow
              rw [map_snd_locatedFrom] at hmember
              exact absurd hkind (kind_ne_of_mem_chain hmember)
          | _ => cases hreference
        · refine ih child hchild ((resolve_child hnode index).trans hget) ?_ hbelow
          refine (exposed_child_iff hnode index).mpr ⟨hexposed, ?_⟩
          rw [referenceKind, Finset.mem_singleton]
          exact hreference

theorem referenceName?_chain (first : String × Bool) (others : List (String × Bool)) :
    (exprVarRef (chain first others)).referenceName? = some (chain first others).qualifiedName := by
  cases others <;> rfl

/-- There are as many names as references, if all of these hold plain chains. -/
theorem HoldsPlainChains.length_identifiers {query : QueryNode} (h : query.HoldsPlainChains) :
    query.identifiers.length = (PlanStats.collect query).countOf "ExprVarRef" := by
  rw [identifiers_eq, List.length_filterMap_eq_countP, List.countP_filter,
    PlanStats.countOf_collect]
  apply List.countP_congr
  intro place hplace
  have hname : kindName place.2 = "ExprVarRef" ↔ place.2.kind = .exprVarRef :=
    ⟨fun h => Named.name_injective h, fun h => congrArg Named.name h⟩
  simp only [Bool.and_eq_true, decide_eq_true_eq, hname]
  constructor
  · exact fun hcounted => hcounted.2.1
  · intro hkind
    refine ⟨?_, hkind, h.exposed rfl (fun _ h => absurd h List.not_mem_nil) hplace hkind⟩
    have hnode := mem_located_iff.mp hplace
    generalize place.2 = node at hkind hnode
    cases node with
    | exprVarRef target =>
        obtain ⟨first, others, rfl⟩ := h place.1 target hnode
        rw [referenceName?_chain]
        rfl
    | _ => cases hkind

/-- The names collected from a query are those of its variable references, in pre-order and with all
repetitions: of each reference to a chain of identifiers that has no reference above it, the symbols
at the links of the chain, with dots between. If all references hold chains of plain identifiers, no
reference is left out. -/
theorem identifiers_name_references :
    (∀ query : QueryNode, query.identifiers =
      ((located query).filter fun place =>
        place.2.kind = .exprVarRef ∧ Exposed referenceKind query place.1).filterMap
          fun place => place.2.referenceName?) ∧
    ∀ query : QueryNode, query.HoldsPlainChains →
      query.identifiers.length = (PlanStats.collect query).countOf "ExprVarRef" :=
  ⟨identifiers_eq, fun _ => HoldsPlainChains.length_identifiers⟩

/-- A call of `f` on a qualified name and on a negated plain one. -/
def callOnNames : QueryNode :=
  .exprCall (chain ("f", false) [])
    [.exprVarRef (chain ("o", false) [("total", true)]), .exprNot (named "x")]

/-- The name of the function is no reference; the two references are found in order. -/
theorem identifiers_name_references_callOnNames :
    callOnNames.identifiers = ["o.total", "x"] ∧ callOnNames.HoldsPlainChains ∧
      callOnNames.identifiers.length = (PlanStats.collect callOnNames).countOf "ExprVarRef" := by
  have hreferences : ((located callOnNames).filter fun place => place.2.kind = .exprVarRef) =
      [(⟨[1]⟩, .exprVarRef (chain ("o", false) [("total", true)])), (⟨[2, 0]⟩, named "x")] := by
    with_unfolding_all rfl
  have hplain : callOnNames.HoldsPlainChains := by
    intro path target hnode
    have hmember : (path, exprVarRef target) ∈
        (located callOnNames).filter fun place => place.2.kind = .exprVarRef :=
      List.mem_filter.mpr ⟨mem_located_iff.mpr hnode, rfl⟩
    rw [hreferences] at hmember
    rcases List.mem_pair.mp hmember with h | h
    · exact ⟨("o", false), [("total", true)], exprVarRef.inj (Prod.mk.inj h).2⟩
    · exact ⟨("x", false), [], exprVarRef.inj (Prod.mk.inj h).2⟩
  refine ⟨by with_unfolding_all rfl, hplain, ?_⟩
  exact identifiers_name_references.2 callOnNames hplain

end PlanLowering.QueryNode
