import Mathlib.Data.List.Forall2
import PlanLowering.Plan.Operator
import PlanLowering.Proofs.Pattern.Positions
import PlanLowering.Proofs.Text.Runs
import PlanLowering.Query.Node

/-!
The text of a pattern shows its shape. Names of kinds are made of letters only, so that a name ends
where a question mark, a bracket or a comma stands, however long the names are that start in the same
way; and what is open is closed before the next child pattern begins.
-/

namespace PlanLowering.Pattern

variable {N : Type} [SizeOf N] [TreeNode N]

/-- The same kind, a condition on both or on neither, and child patterns of the same shape one by
one. What the conditions are does not count. -/
inductive SameShape : Pattern N → Pattern N → Prop where
  | intro {p q : Pattern N} (hkind : p.kind = q.kind) (hpredicate : p.hasPredicate = q.hasPredicate)
      (hchildren : List.Forall₂ SameShape p.children q.children) : SameShape p q

/-- No name of a kind has a character that stands between the parts of a pattern. -/
def PlainNames (N : Type) [SizeOf N] [TreeNode N] : Prop :=
  ∀ kind : TreeNode.Kind N, ∀ c ∈ (Named.name kind).toList, c.isAlpha = true

/-- Behind a pattern there is nothing, or the next one, or the end of the list that it stands in. -/
def Ends (rest : List Char) : Prop :=
  ∀ c ∈ rest.head?, c = ',' ∨ c = ']'

theorem ends_nil : Ends [] := by
  rintro c ⟨⟩

theorem ends_bracket (rest : List Char) : Ends (']' :: rest) := by
  rintro c ⟨⟩
  exact Or.inr rfl

/-! ### The characters of a pattern -/

/-- The question mark of a condition. -/
def markChars (conditional : Bool) : List Char :=
  if conditional then ['?'] else []

/-- The patterns of the children between brackets. -/
def childrenChars : List (Pattern N) → List Char
  | [] => []
  | child :: others =>
    '[' :: (child.display.toList ++ ((displayOthers others).toList ++ [']']))

theorem toList_display (pattern : Pattern N) :
    pattern.display.toList = (Named.name pattern.kind).toList ++
      (markChars pattern.hasPredicate ++ childrenChars pattern.children) := by
  obtain ⟨kind, predicate, children⟩ := pattern
  cases predicate <;> cases children <;>
    simp [display, markChars, childrenChars, Pattern.kind, hasPredicate, Pattern.predicate,
      Pattern.children]

theorem toList_displayOthers_cons (pattern : Pattern N) (patterns : List (Pattern N)) :
    (displayOthers (pattern :: patterns)).toList =
      ',' :: ' ' :: (pattern.display.toList ++ (displayOthers patterns).toList) := by
  simp [displayOthers]

theorem ends_displayOthers (patterns : List (Pattern N)) (rest : List Char) :
    Ends ((displayOthers patterns).toList ++ ']' :: rest) := by
  cases patterns with
  | nil => simpa [displayOthers] using ends_bracket rest
  | cons pattern patterns =>
      rw [toList_displayOthers_cons]
      rintro c ⟨⟩
      exact Or.inl rfl

/-! ### Reading the parts back -/

/-- Two names end at the same place if only marks of a pattern can follow them. -/
theorem name_eq_of_append {name name' more more' : List Char}
    (hname : ∀ c ∈ name, c.isAlpha = true) (hname' : ∀ c ∈ name', c.isAlpha = true)
    (hmore : ∀ c ∈ more.head?, c.isAlpha = false) (hmore' : ∀ c ∈ more'.head?, c.isAlpha = false)
    (h : name ++ more = name' ++ more') : name = name' ∧ more = more' := by
  have htake := congrArg (List.takeWhile Char.isAlpha) h
  have hdrop := congrArg (List.dropWhile Char.isAlpha) h
  rw [Text.takeWhile_run hname hmore, Text.takeWhile_run hname' hmore'] at htake
  rw [Text.dropWhile_run hname hmore, Text.dropWhile_run hname' hmore'] at hdrop
  exact ⟨htake, hdrop⟩

/-- What stands behind the name of a kind begins with no letter. -/
theorem isAlpha_head?_marks (conditional : Bool) (children : List (Pattern N)) {rest : List Char}
    (hrest : Ends rest) :
    ∀ c ∈ (markChars conditional ++ (childrenChars children ++ rest)).head?, c.isAlpha = false := by
  cases conditional with
  | true =>
      rintro c ⟨⟩
      rfl
  | false =>
      cases children with
      | nil =>
          intro c hc
          rcases hrest c hc with rfl | rfl <;> rfl
      | cons child others =>
          rintro c ⟨⟩
          rfl

/-- What stands behind the name and the mark of a pattern is no question mark. -/
theorem head?_childrenChars_ne (children : List (Pattern N)) {rest : List Char}
    (hrest : Ends rest) (others : List Char) : childrenChars children ++ rest ≠ '?' :: others := by
  cases children with
  | nil =>
      rintro rfl
      rcases hrest '?' rfl with h | h <;> exact absurd h (by decide)
  | cons child children =>
      intro h
      exact absurd (List.cons.inj h).1 (by decide)

theorem mark_eq_of_append {conditional conditional' : Bool} {children children' : List (Pattern N)}
    {rest rest' : List Char} (hrest : Ends rest) (hrest' : Ends rest')
    (h : markChars conditional ++ (childrenChars children ++ rest) =
      markChars conditional' ++ (childrenChars children' ++ rest')) :
    conditional = conditional' ∧
      childrenChars children ++ rest = childrenChars children' ++ rest' := by
  cases conditional <;> cases conditional'
  · exact ⟨rfl, h⟩
  · exact absurd h (head?_childrenChars_ne children hrest _)
  · exact absurd h.symm (head?_childrenChars_ne children' hrest' _)
  · exact ⟨rfl, (List.cons.inj h).2⟩

/-- The text of the pattern, with something behind it that ends it, can be read in one way only. -/
def ReadsBack (p : Pattern N) : Prop :=
  ∀ (q : Pattern N) (rest rest' : List Char), Ends rest → Ends rest' →
    p.display.toList ++ rest = q.display.toList ++ rest' → SameShape p q ∧ rest = rest'

/-- Further patterns end with the bracket that closes their list. -/
theorem sameShapes_of_others {patterns patterns' : List (Pattern N)} {rest rest' : List Char}
    (hpatterns : ∀ pattern ∈ patterns, pattern.ReadsBack)
    (h : (displayOthers patterns).toList ++ ']' :: rest =
      (displayOthers patterns').toList ++ ']' :: rest') :
    List.Forall₂ SameShape patterns patterns' ∧ rest = rest' := by
  induction patterns generalizing patterns' with
  | nil =>
      cases patterns' with
      | nil =>
          simp only [displayOthers, String.toList_empty, List.nil_append, List.cons.injEq] at h
          exact ⟨.nil, h.2⟩
      | cons pattern' patterns' =>
          rw [toList_displayOthers_cons] at h
          exact absurd (List.cons.inj h).1 (by decide)
  | cons pattern patterns ih =>
      obtain ⟨hpattern, hothers⟩ := List.forall_mem_cons.mp hpatterns
      cases patterns' with
      | nil =>
          rw [toList_displayOthers_cons] at h
          exact absurd (List.cons.inj h).1 (by decide)
      | cons pattern' patterns' =>
          simp only [toList_displayOthers_cons, List.cons_append, List.append_assoc,
            List.cons.injEq, true_and] at h
          obtain ⟨hfirst, hmore⟩ := hpattern pattern' _ _ (ends_displayOthers patterns rest)
            (ends_displayOthers patterns' rest') h
          obtain ⟨hshapes, hrest⟩ := ih hothers hmore
          exact ⟨.cons hfirst hshapes, hrest⟩

theorem sameShapes_of_children {children children' : List (Pattern N)} {rest rest' : List Char}
    (hchildren : ∀ child ∈ children, child.ReadsBack) (hrest : Ends rest) (hrest' : Ends rest')
    (h : childrenChars children ++ rest = childrenChars children' ++ rest') :
    List.Forall₂ SameShape children children' ∧ rest = rest' := by
  have hbracket : ∀ {rest others : List Char}, Ends rest → rest ≠ '[' :: others := by
    rintro rest others hends rfl
    rcases hends '[' rfl with h | h <;> exact absurd h (by decide)
  cases children with
  | nil =>
      cases children' with
      | nil => exact ⟨.nil, h⟩
      | cons child' others' => exact absurd h (hbracket hrest)
  | cons child others =>
      obtain ⟨hchild, hothers⟩ := List.forall_mem_cons.mp hchildren
      cases children' with
      | nil => exact absurd h.symm (hbracket hrest')
      | cons child' others' =>
          simp only [childrenChars, List.cons_append, List.append_assoc, List.cons.injEq,
            true_and, List.nil_append] at h
          obtain ⟨hfirst, hmore⟩ := hchild child' _ _ (ends_displayOthers others rest)
            (ends_displayOthers others' rest') h
          obtain ⟨hshapes, hsame⟩ := sameShapes_of_others hothers hmore
          exact ⟨.cons hfirst hshapes, hsame⟩

theorem readsBack (hnames : PlainNames N) (p : Pattern N) : p.ReadsBack := by
  induction p using induction with
  | step p ih =>
      intro q rest rest' hrest hrest' h
      simp only [toList_display, List.append_assoc] at h
      have hmore := isAlpha_head?_marks p.hasPredicate p.children hrest
      have hmore' := isAlpha_head?_marks q.hasPredicate q.children hrest'
      obtain ⟨hname, hmarks⟩ := name_eq_of_append (hnames p.kind) (hnames q.kind) hmore hmore' h
      obtain ⟨hpredicate, hbrackets⟩ := mark_eq_of_append hrest hrest' hmarks
      obtain ⟨hchildren, hsame⟩ := sameShapes_of_children ih hrest hrest' hbrackets
      have hkind : p.kind = q.kind := Named.name_injective (String.toList_injective hname)
      exact ⟨.intro hkind hpredicate hchildren, hsame⟩

/-! ### Equal texts -/

theorem displayOthers_eq_of_forall₂ {patterns patterns' : List (Pattern N)}
    (h : List.Forall₂ (fun p q => p.display = q.display) patterns patterns') :
    displayOthers patterns = displayOthers patterns' := by
  induction h with
  | nil => rfl
  | cons hfirst _ ih => rw [displayOthers, displayOthers, hfirst, ih]

theorem childrenChars_eq_of_forall₂ {children children' : List (Pattern N)}
    (h : List.Forall₂ (fun p q => p.display = q.display) children children') :
    childrenChars children = childrenChars children' := by
  cases h with
  | nil => rfl
  | cons hfirst hothers =>
      rw [childrenChars, childrenChars, hfirst, displayOthers_eq_of_forall₂ hothers]

/-- Nothing but the shape is shown. -/
theorem display_eq_of_sameShape {p q : Pattern N} (h : SameShape p q) : p.display = q.display := by
  induction p using induction generalizing q with
  | step p ih =>
      obtain ⟨hkind, hpredicate, hchildren⟩ := h
      have hdisplays : List.Forall₂ (fun p q => p.display = q.display) p.children q.children := by
        rw [List.forall₂_iff_get] at hchildren ⊢
        refine ⟨hchildren.1, fun index hindex hindex' => ?_⟩
        exact ih _ (List.get_mem p.children ⟨index, hindex⟩) (hchildren.2 index hindex hindex')
      apply String.toList_injective
      rw [toList_display, toList_display, hkind, hpredicate,
        childrenChars_eq_of_forall₂ hdisplays]

theorem display_eq_iff (hnames : PlainNames N) {p q : Pattern N} :
    p.display = q.display ↔ SameShape p q := by
  constructor
  · intro h
    have htexts : p.display.toList ++ [] = q.display.toList ++ [] := by rw [h]
    exact (readsBack hnames p q [] [] ends_nil ends_nil htexts).1
  · exact display_eq_of_sameShape

theorem plainNames_operator : PlainNames Operator := by
  intro kind
  apply List.all_eq_true.mp
  cases kind <;> decide

theorem plainNames_queryNode : PlainNames QueryNode := by
  intro kind
  apply List.all_eq_true.mp
  cases kind <;> decide

/-- Two patterns for plans, or two for queries, have the same text exactly if they have the same
shape. -/
theorem displays_show_shapes :
    (∀ p q : Pattern Operator, p.display = q.display ↔ SameShape p q) ∧
      ∀ p q : Pattern QueryNode, p.display = q.display ↔ SameShape p q :=
  ⟨fun _ _ => display_eq_iff plainNames_operator, fun _ _ => display_eq_iff plainNames_queryNode⟩

example : (mk .limit none [ofKind .sort, mk .lit (some fun _ => true) []] : Pattern Operator).display
    = "Limit[Sort, Lit?]" := by decide

end PlanLowering.Pattern
