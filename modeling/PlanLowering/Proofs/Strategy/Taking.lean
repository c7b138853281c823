import PlanLowering.Proofs.Strategy.Conversion
import Mathlib.Data.List.Induction
import Mathlib.Data.List.Nodup
import Mathlib.Data.List.TakeWhile

/-!
Lowered children are handed out once. Whatever calls are made on a match, and in whatever order,
the match is the one they started with, short of the inputs at the indices that went; a ledger kept
beside the calls says which these are. Every question about a match after some calls is answered by
the ledger.
-/

namespace PlanLowering

namespace Match

variable {N E : Type}

/-- The match without its inputs at these indices. -/
def lacking (m : Match N E) (removed : List Nat) : Match N E :=
  { m with inputs := m.inputs.mapIdx fun index input => if index ∈ removed then none else input }

section Lacking

variable (m : Match N E) (removed : List Nat)

@[simp]
theorem lacking_nil : m.lacking [] = m := by
  have hall : m.inputs.mapIdx (fun _ input => input) = m.inputs := by
    apply List.ext_getElem?
    simp
  simp [lacking, hall]

@[simp]
theorem inputCount_lacking : (m.lacking removed).inputCount = m.inputCount :=
  List.length_mapIdx

theorem input?_lacking (index : Nat) :
    (m.lacking removed).input? index = if index ∈ removed then none else m.input? index := by
  rw [input?, lacking, List.getElem?_mapIdx]
  cases hinput : m.inputs[index]? <;> simp [input?, hinput]

theorem without_lacking (index : Nat) :
    (m.lacking removed).without index = m.lacking (removed ++ [index]) := by
  rw [without, lacking, lacking]
  congr 1
  apply List.ext_getElem?
  intro place
  rw [List.getElem?_set, List.getElem?_mapIdx, List.getElem?_mapIdx, List.length_mapIdx]
  by_cases hplace : index = place
  · subst hplace
    by_cases hlength : index < m.inputs.length <;> simp [hlength]
  · simp [hplace, eq_comm]

theorem remaining_eq : m.remaining = (List.range m.inputCount).filterMap m.input? := by
  have hall : ∀ inputs : List (Option E), inputs.filterMap id =
      (List.range inputs.length).filterMap fun index => inputs[index]?.join := by
    intro inputs
    induction inputs using List.reverseRecOn with
    | nil => rfl
    | append_singleton inputs input ih =>
        have hbefore : ∀ index ∈ List.range inputs.length,
            (inputs ++ [input])[index]?.join = inputs[index]?.join := by
          intro index hindex
          rw [List.getElem?_append_left (List.mem_range.mp hindex)]
        rw [List.filterMap_append, ih, List.length_append, List.length_singleton, List.range_succ,
          List.filterMap_append, List.filterMap_congr hbefore]
        cases input <;> simp
  exact hall m.inputs

end Lacking

end Match

namespace Conversion

variable {N E α β : Type} {conversion : Conversion N E α} {following : α → Conversion N E β}
  {m m' : Match N E}

theorem run_bind_of_yields {a : α} (h : conversion.Yields m a m') :
    (conversion >>= following).run.run m = (following a).run.run m' := by
  rw [ExceptT.run_bind, StateT.run_bind, h]
  rfl

/-- Nothing is taken after a failure. -/
theorem run_bind_of_error {failure : CompileError}
    (h : conversion.run.run m = (.error failure, m')) :
    (conversion >>= following).run.run m = (.error failure, m') := by
  rw [ExceptT.run_bind, StateT.run_bind, h]
  rfl

theorem run_take_of_missing [SizeOf N] [TreeNode N] {index : Nat} (h : m.input? index = none) :
    (take index : Conversion N E E).run.run m = (.error (m.failure (m.missingInput index)), m) := by
  unfold take
  rw [run_bind_of_yields (yields_get m), h]
  rfl

end Conversion

/-- A call that takes lowered children out of a match. -/
inductive Taking where
  | single (index : Nat)
  /-- The inputs with the indices from `first` up to `last` exclusive. -/
  | range (first last : Nat)
deriving DecidableEq, Repr

namespace Taking

/-- The indices that a call asks for, in order. -/
def indices : Taking → List Nat
  | single index => [index]
  | range first last => List.range' first (last - first)

theorem nodup_indices (call : Taking) : call.indices.Nodup := by
  cases call with
  | single index => exact List.nodup_singleton index
  | range first last => exact List.nodup_range' 1

variable {N E : Type} [SizeOf N] [TreeNode N]

/-- Makes the call. A single input is answered as a list of one. -/
def perform : Taking → Conversion N E (List E)
  | single index => return [← Conversion.take index]
  | range first last => Conversion.takeRange first last

theorem takeFrom_eq_mapM (first count : Nat) :
    (Conversion.takeFrom first count : Conversion N E (List E)) =
      (List.range' first count).mapM Conversion.take := by
  induction count generalizing first with
  | zero => rfl
  | succ count ih =>
      rw [Conversion.takeFrom, List.range'_succ, List.mapM_cons, ih]

/-- A call takes what it asks for one by one. -/
theorem perform_eq_mapM (call : Taking) :
    (call.perform : Conversion N E (List E)) = call.indices.mapM Conversion.take := by
  cases call with
  | single index => simp [perform, indices]
  | range first last => exact takeFrom_eq_mapM first (last - first)

section Lacking

variable {m : Match N E} {removed : List Nat}

theorem take_lacking_ok {index : Nat} {input : E} (hinput : m.input? index = some input)
    (hindex : index ∉ removed) :
    (Conversion.take index).run.run (m.lacking removed) =
      (.ok input, m.lacking (removed ++ [index])) := by
  have hthere : (m.lacking removed).input? index = some input := by
    rw [Match.input?_lacking, if_neg hindex, hinput]
  rw [← Match.without_lacking]
  exact Conversion.take_yields hthere

theorem take_lacking_error {index : Nat} (h : index ∈ removed ∨ m.input? index = none) :
    (Conversion.take index).run.run (m.lacking removed) =
      (.error (m.failure (m.missingInput index)), m.lacking removed) := by
  have hgone : (m.lacking removed).input? index = none := by
    rw [Match.input?_lacking]
    rcases h with hindex | hinput
    · rw [if_pos hindex]
    · rw [hinput, ite_self]
  have hfailure : (m.lacking removed).failure ((m.lacking removed).missingInput index) =
      m.failure (m.missingInput index) := by
    rw [Match.missingInput, Match.missingInput, Match.inputCount_lacking]
    rfl
  rw [← hfailure]
  exact Conversion.run_take_of_missing hgone

/-- Inputs that are all there are handed out in the order of the indices. -/
theorem mapM_take_ok {indices : List Nat} {inputs : List E} (hnodup : indices.Nodup)
    (hindices : ∀ index ∈ indices, index ∉ removed)
    (hinputs : indices.map m.input? = inputs.map some) :
    (indices.mapM Conversion.take).run.run (m.lacking removed) =
      (.ok inputs, m.lacking (removed ++ indices)) := by
  induction indices generalizing removed inputs with
  | nil =>
      obtain rfl := List.map_eq_nil_iff.mp hinputs.symm
      rw [List.append_nil]
      rfl
  | cons index indices ih =>
      obtain ⟨input, inputs, rfl, hinput, hothers⟩ := List.map_eq_cons_iff.mp hinputs.symm
      obtain ⟨hnotMem, hnodup⟩ := List.nodup_cons.mp hnodup
      obtain ⟨hindex, hindices⟩ := List.forall_mem_cons.mp hindices
      have htake := take_lacking_ok (m := m) hinput.symm hindex
      have hleft : ∀ other ∈ indices, other ∉ removed ++ [index] := by
        intro other hother hmem
        rcases List.mem_append.mp hmem with hold | hnew
        · exact hindices other hother hold
        · exact hnotMem (List.mem_singleton.mp hnew ▸ hother)
      have hrest := ih hnodup hleft hothers.symm
      rw [List.append_assoc, List.singleton_append] at hrest
      rw [List.mapM_cons]
      exact Conversion.Yields.bind htake
        (Conversion.Yields.bind hrest (Conversion.yields_pure _ (input :: inputs)))

/-- The first input that is not there ends the call; those before it are gone. -/
theorem mapM_take_error {found others : List Nat} {missing : Nat} {inputs : List E}
    (hnodup : found.Nodup) (hfound : ∀ index ∈ found, index ∉ removed)
    (hinputs : found.map m.input? = inputs.map some)
    (hmissing : missing ∈ removed ∨ m.input? missing = none) :
    ((found ++ missing :: others).mapM Conversion.take).run.run (m.lacking removed) =
      (.error (m.failure (m.missingInput missing)), m.lacking (removed ++ found)) := by
  have hbefore := mapM_take_ok hnodup hfound hinputs
  have hmissing : missing ∈ removed ++ found ∨ m.input? missing = none :=
    hmissing.imp_left (List.mem_append_left found)
  have hfails := take_lacking_error hmissing
  rw [List.mapM_append, List.mapM_cons, Conversion.run_bind_of_yields hbefore]
  exact Conversion.run_bind_of_error (Conversion.run_bind_of_error hfails)

end Lacking

/-- The answers to calls made one after the other, and the match they leave behind. A call that
fails does not end the row. -/
def answersFrom (start : Match N E) (calls : List Taking) :
    List (Except CompileError (List E)) × Match N E :=
  calls.foldl (fun (answers, m) call =>
    let (answer, left) := call.perform.run.run m
    (answers ++ [answer], left)) ([], start)

/-- The answers to a row of calls. -/
def answers (start : Match N E) (calls : List Taking) : List (Except CompileError (List E)) :=
  (answersFrom start calls).1

/-- The match after a row of calls. -/
def after (start : Match N E) (calls : List Taking) : Match N E :=
  (answersFrom start calls).2

/-- The inputs that were handed to the callers. -/
def handedOut (start : Match N E) (calls : List Taking) : List E :=
  (answers start calls).flatMap fun answer => answer.toOption.getD []

theorem answersFrom_concat (start : Match N E) (calls : List Taking) (call : Taking) :
    answersFrom start (calls ++ [call]) =
      (answers start calls ++ [(call.perform.run.run (after start calls)).1],
        (call.perform.run.run (after start calls)).2) := by
  rw [answersFrom, List.foldl_append]
  rfl

theorem after_concat (start : Match N E) (calls : List Taking) (call : Taking) :
    after start (calls ++ [call]) = (call.perform.run.run (after start calls)).2 :=
  congrArg Prod.snd (answersFrom_concat start calls call)

theorem handedOut_concat (start : Match N E) (calls : List Taking) (call : Taking) :
    handedOut start (calls ++ [call]) = handedOut start calls ++
      (call.perform.run.run (after start calls)).1.toOption.getD [] := by
  rw [handedOut, answers, answersFrom_concat, List.flatMap_append, List.flatMap_singleton]
  rfl

end Taking

/-- What is written down about the calls made on a match. -/
structure Ledger where
  /-- The indices that are gone, in the order in which they went. -/
  removed : List Nat
  /-- The indices whose inputs the callers were given. -/
  handed : List Nat
deriving DecidableEq, Repr

namespace Ledger

/-- The indices that a call finds, up to the first that is beyond the count or gone. -/
def found (count : Nat) (ledger : Ledger) (call : Taking) : List Nat :=
  call.indices.takeWhile fun index => index < count ∧ index ∉ ledger.removed

/-- A call removes what it finds, and hands it out if it finds all that it asks for. -/
def enter (count : Nat) (ledger : Ledger) (call : Taking) : Ledger where
  removed := ledger.removed ++ ledger.found count call
  handed :=
    if ledger.found count call = call.indices then ledger.handed ++ call.indices else ledger.handed

/-- The ledger after a row of calls. -/
def after (count : Nat) (calls : List Taking) : Ledger :=
  calls.foldl (enter count) ⟨[], []⟩

/-- The indices that are not gone, in order. -/
def left (count : Nat) (ledger : Ledger) : List Nat :=
  (List.range count).filter fun index => index ∉ ledger.removed

variable {count : Nat} {ledger : Ledger} {call : Taking}

theorem after_concat (count : Nat) (calls : List Taking) (call : Taking) :
    after count (calls ++ [call]) = (after count calls).enter count call := by
  rw [after, List.foldl_append]
  rfl

theorem mem_found {index : Nat} (h : index ∈ ledger.found count call) :
    index < count ∧ index ∉ ledger.removed := by
  simpa using List.mem_takeWhile_imp h

theorem nodup_found : (ledger.found count call).Nodup :=
  (List.takeWhile_sublist _).nodup call.nodup_indices

/-- A call finds the indices up to the first one that is not there. -/
theorem found_eq {found others : List Nat} (hindices : call.indices = found ++ others)
    (hfound : ∀ index ∈ found, index < count ∧ index ∉ ledger.removed)
    (hothers : ∀ index ∈ others.head?, count ≤ index ∨ index ∈ ledger.removed) :
    ledger.found count call = found := by
  rw [Ledger.found, hindices, List.takeWhile_append_of_pos (by simpa using hfound)]
  cases others with
  | nil => simp
  | cons missing others =>
      rcases hothers missing rfl with hbeyond | hgone
      · simp [Nat.not_lt_of_le hbeyond]
      · simp [hgone]

/-- Nothing goes twice, and only what has gone was handed out. -/
structure Consistent (ledger : Ledger) : Prop where
  nodup : ledger.removed.Nodup
  handed : ledger.handed.Sublist ledger.removed

theorem Consistent.enter (h : ledger.Consistent) (count : Nat) (call : Taking) :
    (ledger.enter count call).Consistent where
  nodup := by
    refine List.Nodup.append h.nodup nodup_found ?_
    exact fun index hremoved hfound => (mem_found hfound).2 hremoved
  handed := by
    rw [Ledger.enter]
    split
    · next hall =>
        rw [hall]
        exact h.handed.append (List.Sublist.refl _)
    · exact h.handed.trans (List.sublist_append_left _ _)

theorem consistent_after (count : Nat) (calls : List Taking) :
    (after count calls).Consistent := by
  induction calls using List.reverseRecOn with
  | nil => exact ⟨List.nodup_nil, List.Sublist.refl []⟩
  | append_singleton calls call ih =>
      rw [after_concat]
      exact ih.enter count call

/-- What was handed out and what is left are different inputs. -/
theorem Consistent.nodup_handed_append_left (h : ledger.Consistent) (count : Nat) :
    (ledger.handed ++ ledger.left count).Nodup := by
  refine List.Nodup.append (h.handed.nodup h.nodup) (List.nodup_range.filter _) ?_
  intro index hhanded hleft
  have hkept : index ∉ ledger.removed := by simpa using List.of_mem_filter hleft
  exact hkept (h.handed.subset hhanded)

/-- A call finds all that it asks for, or stops at the first index that is not there. -/
theorem found_cases (count : Nat) (ledger : Ledger) (call : Taking) :
    ledger.found count call = call.indices ∨
      ∃ missing others, call.indices = ledger.found count call ++ missing :: others ∧
        (count ≤ missing ∨ missing ∈ ledger.removed) := by
  rw [found]
  have hsplit := List.takeWhile_append_dropWhile
    (p := fun index => decide (index < count ∧ index ∉ ledger.removed)) (l := call.indices)
  have hhead := List.head?_dropWhile_not
    (fun index => decide (index < count ∧ index ∉ ledger.removed)) call.indices
  cases hrest : call.indices.dropWhile
      fun index => decide (index < count ∧ index ∉ ledger.removed) with
  | nil =>
      rw [hrest, List.append_nil] at hsplit
      exact Or.inl hsplit
  | cons missing others =>
      rw [hrest] at hsplit hhead
      have hmissing : ¬ (missing < count ∧ missing ∉ ledger.removed) := of_decide_eq_false hhead
      refine Or.inr ⟨missing, others, hsplit.symm, ?_⟩
      by_cases hgone : missing ∈ ledger.removed
      · exact Or.inr hgone
      · exact Or.inl (Nat.le_of_not_lt fun hlt => hmissing ⟨hlt, hgone⟩)

theorem removed_after_concat {count : Nat} {calls : List Taking} {call : Taking}
    {found others : List Nat} (hindices : call.indices = found ++ others)
    (hfound : ∀ index ∈ found, index < count ∧ index ∉ (after count calls).removed)
    (hothers : ∀ index ∈ others.head?, count ≤ index ∨ index ∈ (after count calls).removed) :
    (after count (calls ++ [call])).removed = (after count calls).removed ++ found := by
  rw [after_concat, enter, found_eq hindices hfound hothers]

end Ledger

namespace Match

variable {N E : Type}

/-- The match holds these inputs, none of which was taken. -/
def Holds (m : Match N E) (inputs : List E) : Prop :=
  m.inputs = inputs.map some

namespace Holds

variable {m : Match N E} {inputs : List E} (h : m.Holds inputs)

include h

theorem inputCount_eq : m.inputCount = inputs.length := by
  rw [inputCount, h, List.length_map]

theorem input?_eq (index : Nat) : m.input? index = inputs[index]? := by
  rw [input?, h, List.getElem?_map]
  cases inputs[index]? <;> rfl

theorem input?_eq_none {index : Nat} (hindex : inputs.length ≤ index) : m.input? index = none := by
  rw [h.input?_eq, List.getElem?_eq_none hindex]

theorem map_input? {found : List Nat} (hfound : ∀ index ∈ found, index < inputs.length) :
    found.map m.input? = (found.filterMap (inputs[·]?)).map some := by
  induction found with
  | nil => rfl
  | cons index found ih =>
      obtain ⟨hindex, hfound⟩ := List.forall_mem_cons.mp hfound
      rw [List.map_cons, List.filterMap_cons, h.input?_eq, List.getElem?_eq_getElem hindex,
        ih hfound]
      rfl

end Holds

end Match

namespace Taking

variable {N E : Type} [SizeOf N] [TreeNode N] {start : Match N E} {inputs : List E}
  (hholds : start.Holds inputs) {ledger : Ledger} {call : Taking}

include hholds

/-- A call that finds all that it asks for hands it out. -/
theorem perform_ok (hall : ledger.found inputs.length call = call.indices) :
    call.perform.run.run (start.lacking ledger.removed) =
      (.ok (call.indices.filterMap (inputs[·]?)),
        start.lacking (ledger.removed ++ call.indices)) := by
  have hfound : ∀ index ∈ call.indices, index < inputs.length ∧ index ∉ ledger.removed :=
    fun index hindex => Ledger.mem_found (hall ▸ hindex)
  rw [perform_eq_mapM]
  exact mapM_take_ok call.nodup_indices (fun index hindex => (hfound index hindex).2)
    (hholds.map_input? fun index hindex => (hfound index hindex).1)

/-- A call that does not find all of it fails at the first index that is not there, and what comes
before that is lost. -/
theorem perform_error {found others : List Nat} {missing : Nat}
    (hindices : call.indices = found ++ missing :: others)
    (hfound : ∀ index ∈ found, index < inputs.length ∧ index ∉ ledger.removed)
    (hmissing : inputs.length ≤ missing ∨ missing ∈ ledger.removed) :
    call.perform.run.run (start.lacking ledger.removed) =
      (.error (start.failure (start.missingInput missing)),
        start.lacking (ledger.removed ++ found)) := by
  have hnodup : found.Nodup := (List.nodup_append.mp (hindices ▸ call.nodup_indices)).1
  rw [perform_eq_mapM, hindices]
  exact mapM_take_error hnodup (fun index hindex => (hfound index hindex).2)
    (hholds.map_input? fun index hindex => (hfound index hindex).1)
    (hmissing.symm.imp_right hholds.input?_eq_none)

/-- A call changes the match as it changes the ledger, and hands out what the ledger says. -/
theorem perform_spec (ledger : Ledger) (call : Taking) :
    (call.perform.run.run (start.lacking ledger.removed)).2 =
        start.lacking (ledger.enter inputs.length call).removed ∧
      ledger.handed.filterMap (inputs[·]?) ++
          (call.perform.run.run (start.lacking ledger.removed)).1.toOption.getD [] =
        (ledger.enter inputs.length call).handed.filterMap (inputs[·]?) := by
  rcases Ledger.found_cases inputs.length ledger call with
    hall | ⟨missing, others, hindices, hmissing⟩
  · rw [perform_ok hholds hall, Ledger.enter, hall, if_pos rfl, List.filterMap_append]
    exact ⟨rfl, rfl⟩
  · have hpart : ledger.found inputs.length call ≠ call.indices := by
      intro hall
      rw [hall] at hindices
      simp at hindices
    rw [perform_error hholds hindices (fun _ => Ledger.mem_found) hmissing, Ledger.enter,
      if_neg hpart]
    exact ⟨rfl, List.append_nil _⟩

/-- After any row of calls the match and what was handed out are as the ledger says. -/
theorem after_eq_and_handedOut_eq (calls : List Taking) :
    after start calls = start.lacking (Ledger.after inputs.length calls).removed ∧
      handedOut start calls =
        (Ledger.after inputs.length calls).handed.filterMap (inputs[·]?) := by
  induction calls using List.reverseRecOn with
  | nil => exact ⟨start.lacking_nil.symm, rfl⟩
  | append_singleton calls call ih =>
      obtain ⟨hafter, hhanded⟩ := ih
      obtain ⟨hleft, hanswer⟩ := perform_spec hholds (Ledger.after inputs.length calls) call
      rw [Ledger.after_concat, ← hleft, ← hanswer, ← hafter, ← hhanded]
      exact ⟨after_concat start calls call, handedOut_concat start calls call⟩

theorem after_eq (calls : List Taking) :
    after start calls = start.lacking (Ledger.after inputs.length calls).removed :=
  (after_eq_and_handedOut_eq hholds calls).1

end Taking

/-- The members of a list from one place up to another. -/
theorem filterMap_getElem?_range' {α : Type} (members : List α) (first count : Nat) :
    (List.range' first count).filterMap (members[·]?) = (members.drop first).take count := by
  induction count generalizing first with
  | zero => simp
  | succ count ih =>
      rw [List.range'_succ, List.filterMap_cons, ih]
      by_cases hfirst : first < members.length
      · rw [List.getElem?_eq_getElem hfirst, List.drop_eq_getElem_cons hfirst, List.take_succ_cons]
      · have hbeyond : members.length ≤ first := Nat.le_of_not_lt hfirst
        rw [List.getElem?_eq_none hbeyond, List.drop_eq_nil_of_le hbeyond,
          List.drop_eq_nil_of_le (Nat.le_succ_of_le hbeyond), List.take_nil, List.take_nil]

section Accounts

open Conversion Taking

variable {N E : Type} [SizeOf N] [TreeNode N]

/-- How a match that was built with these inputs stands after a row of calls, told by the ledger of
the calls. -/
structure HandsOutOnce (inputs : List E) (start : Match N E) (calls : List Taking) (m : Match N E)
    (ledger : Ledger) : Prop where
  /-- No input is handed out twice, neither by the calls nor with those that are left in the end. -/
  nodup : (ledger.handed ++ ledger.left inputs.length).Nodup
  handedOut_eq : handedOut start calls = ledger.handed.filterMap (inputs[·]?)
  /-- What is left are the inputs that are not gone, in order. -/
  remaining_eq : m.remaining = (ledger.left inputs.length).filterMap (inputs[·]?)
  takeRemaining_eq : takeRemaining.on m = .ok m.remaining
  inputCount_eq : m.inputCount = inputs.length
  input?_eq : ∀ index, m.input? index = if index ∈ ledger.removed then none else inputs[index]?
  /-- A single input is there to be taken if it exists and is not gone, -/
  take_ok_iff : ∀ index, (∃ input, (take index).on m = .ok input) ↔
    index < inputs.length ∧ index ∉ ledger.removed
  take_ok : ∀ index input, inputs[index]? = some input → index ∉ ledger.removed →
    (take index).run.run m = (.ok input, after start (calls ++ [.single index])) ∧
      (Ledger.after inputs.length (calls ++ [.single index])).removed = ledger.removed ++ [index]
  /-- and otherwise nothing changes. -/
  take_error : ∀ index, inputs.length ≤ index ∨ index ∈ ledger.removed →
    (take index).run.run m = (.error (start.failure (start.missingInput index)), m) ∧
      after start (calls ++ [.single index]) = m
  /-- A range can be taken if all of it exists and nothing of it is gone, -/
  takeRange_ok_iff : ∀ first last, (∃ taken, (takeRange first last).on m = .ok taken) ↔
    ∀ index, first ≤ index → index < last → index < inputs.length ∧ index ∉ ledger.removed
  takeRange_ok : ∀ first last,
    (∀ index, first ≤ index → index < last → index < inputs.length ∧ index ∉ ledger.removed) →
    (takeRange first last).run.run m =
        (.ok ((inputs.drop first).take (last - first)),
          after start (calls ++ [.range first last])) ∧
      (Ledger.after inputs.length (calls ++ [.range first last])).removed =
        ledger.removed ++ List.range' first (last - first)
  /-- and otherwise what comes before the first index that is not there goes. -/
  takeRange_error : ∀ first last missing, first ≤ missing → missing < last →
    (∀ index, first ≤ index → index < missing → index < inputs.length ∧ index ∉ ledger.removed) →
    inputs.length ≤ missing ∨ missing ∈ ledger.removed →
    (takeRange first last).run.run m =
        (.error (start.failure (start.missingInput missing)),
          after start (calls ++ [.range first last])) ∧
      (Ledger.after inputs.length (calls ++ [.range first last])).removed =
        ledger.removed ++ List.range' first (missing - first)

section Calls

variable {start : Match N E} {inputs : List E} (hholds : start.Holds inputs) (calls : List Taking)

include hholds

theorem take_after_ok (index : Nat) (input : E) (hindex : inputs[index]? = some input)
    (hkept : index ∉ (Ledger.after inputs.length calls).removed) :
    (take index).run.run (after start calls) =
        (.ok input, after start (calls ++ [.single index])) ∧
      (Ledger.after inputs.length (calls ++ [.single index])).removed =
        (Ledger.after inputs.length calls).removed ++ [index] := by
  have hlt : index < inputs.length := (List.getElem?_eq_some_iff.mp hindex).1
  have hremoved : (Ledger.after inputs.length (calls ++ [.single index])).removed =
      (Ledger.after inputs.length calls).removed ++ [index] :=
    Ledger.removed_after_concat rfl (by simpa using ⟨hlt, hkept⟩) nofun
  rw [after_eq hholds, after_eq hholds, hremoved]
  exact ⟨take_lacking_ok ((hholds.input?_eq index).trans hindex) hkept, rfl⟩

theorem take_after_error (index : Nat)
    (h : inputs.length ≤ index ∨ index ∈ (Ledger.after inputs.length calls).removed) :
    (take index).run.run (after start calls) =
        (.error (start.failure (start.missingInput index)), after start calls) ∧
      after start (calls ++ [.single index]) = after start calls := by
  have hremoved : (Ledger.after inputs.length (calls ++ [.single index])).removed =
      (Ledger.after inputs.length calls).removed ++ [] :=
    Ledger.removed_after_concat rfl nofun (by simpa using h)
  rw [after_eq hholds, after_eq hholds, hremoved, List.append_nil]
  exact ⟨take_lacking_error (h.symm.imp_right hholds.input?_eq_none), rfl⟩

theorem take_after_ok_iff (index : Nat) :
    (∃ input, (take index).on (after start calls) = .ok input) ↔
      index < inputs.length ∧ index ∉ (Ledger.after inputs.length calls).removed := by
  constructor
  · rintro ⟨input, htake⟩
    by_contra hmissing
    have hgone : inputs.length ≤ index ∨
        index ∈ (Ledger.after inputs.length calls).removed := by
      by_cases hlt : index < inputs.length
      · exact Or.inr (by_contra fun hkept => hmissing ⟨hlt, hkept⟩)
      · exact Or.inl (Nat.le_of_not_lt hlt)
    have hfailed : (take index).on (after start calls) = .error _ :=
      congrArg Prod.fst (take_after_error hholds calls index hgone).1
    rw [hfailed] at htake
    cases htake
  · rintro ⟨hlt, hkept⟩
    have hindex := List.getElem?_eq_getElem hlt
    exact ⟨_, congrArg Prod.fst (take_after_ok hholds calls index _ hindex hkept).1⟩

theorem takeRange_after_ok (first last : Nat)
    (h : ∀ index, first ≤ index → index < last →
      index < inputs.length ∧ index ∉ (Ledger.after inputs.length calls).removed) :
    (takeRange first last).run.run (after start calls) =
        (.ok ((inputs.drop first).take (last - first)),
          after start (calls ++ [.range first last])) ∧
      (Ledger.after inputs.length (calls ++ [.range first last])).removed =
        (Ledger.after inputs.length calls).removed ++ List.range' first (last - first) := by
  have hindices : ∀ index ∈ (Taking.range first last).indices,
      index < inputs.length ∧ index ∉ (Ledger.after inputs.length calls).removed := by
    intro index hindex
    obtain ⟨hfirst, hlast⟩ := List.mem_range'_1.mp hindex
    exact h index hfirst (by omega)
  have hremoved : (Ledger.after inputs.length (calls ++ [.range first last])).removed =
      (Ledger.after inputs.length calls).removed ++ List.range' first (last - first) :=
    Ledger.removed_after_concat (List.append_nil _).symm hindices nofun
  have hperform := perform_ok hholds (Ledger.found_eq (List.append_nil _).symm hindices nofun)
  rw [indices, filterMap_getElem?_range'] at hperform
  rw [after_eq hholds, after_eq hholds, hremoved]
  exact ⟨hperform, rfl⟩

theorem takeRange_after_error (first last missing : Nat) (hfirst : first ≤ missing)
    (hlast : missing < last)
    (h : ∀ index, first ≤ index → index < missing →
      index < inputs.length ∧ index ∉ (Ledger.after inputs.length calls).removed)
    (hmissing : inputs.length ≤ missing ∨
      missing ∈ (Ledger.after inputs.length calls).removed) :
    (takeRange first last).run.run (after start calls) =
        (.error (start.failure (start.missingInput missing)),
          after start (calls ++ [.range first last])) ∧
      (Ledger.after inputs.length (calls ++ [.range first last])).removed =
        (Ledger.after inputs.length calls).removed ++ List.range' first (missing - first) := by
  have hindices : (Taking.range first last).indices = List.range' first (missing - first) ++
      missing :: List.range' (missing + 1) (last - missing - 1) := by
    rw [indices, ← List.range'_succ]
    have hjoin := List.range'_append_1 (s := first) (m := missing - first)
      (n := last - missing - 1 + 1)
    rw [show first + (missing - first) = missing by omega,
      show missing - first + (last - missing - 1 + 1) = last - first by omega] at hjoin
    exact hjoin.symm
  have hfound : ∀ index ∈ List.range' first (missing - first),
      index < inputs.length ∧ index ∉ (Ledger.after inputs.length calls).removed := by
    intro index hindex
    obtain ⟨hlow, hhigh⟩ := List.mem_range'_1.mp hindex
    exact h index hlow (by omega)
  have hremoved := Ledger.removed_after_concat hindices hfound (by simpa using hmissing)
  rw [after_eq hholds, after_eq hholds, hremoved]
  exact ⟨perform_error hholds hindices hfound hmissing, rfl⟩

theorem takeRange_after_ok_iff (first last : Nat) :
    (∃ taken, (takeRange first last).on (after start calls) = .ok taken) ↔
      ∀ index, first ≤ index → index < last →
        index < inputs.length ∧ index ∉ (Ledger.after inputs.length calls).removed := by
  constructor
  · rintro ⟨taken, htaken⟩ index hfirst hlast
    have hindex : index ∈ (Taking.range first last).indices :=
      List.mem_range'_1.mpr ⟨hfirst, by omega⟩
    rcases Ledger.found_cases inputs.length (Ledger.after inputs.length calls)
      (.range first last) with hall | ⟨missing, others, hindices, hmissing⟩
    · rw [← hall] at hindex
      exact Ledger.mem_found hindex
    · have hfails := perform_error hholds hindices (fun _ => Ledger.mem_found) hmissing
      rw [← after_eq hholds] at hfails
      have hfailed : (takeRange first last).on (after start calls) = .error _ :=
        congrArg Prod.fst hfails
      rw [hfailed] at htaken
      cases htaken
  · intro h
    exact ⟨_, congrArg Prod.fst (takeRange_after_ok hholds calls first last h).1⟩

end Calls

/-- Inputs are used linearly. Whatever calls take single inputs or ranges of them out of a match, in
whatever order, the answers and what is left are those of the ledger: no input is handed out twice,
and a call finds exactly the inputs that exist and are not gone. -/
theorem inputs_handed_out_once (node : N) (mode : Mode) (path : NodePath) (strategy : String)
    (inputs : List E) (calls : List Taking) :
    HandsOutOnce inputs (.ofInputs node mode path strategy inputs) calls
      (after (.ofInputs node mode path strategy inputs) calls)
      (Ledger.after inputs.length calls) := by
  have hholds : (Match.ofInputs node mode path strategy inputs).Holds inputs := rfl
  obtain ⟨hafter, hhanded⟩ := after_eq_and_handedOut_eq hholds calls
  have hremaining : (after (.ofInputs node mode path strategy inputs) calls).remaining =
      ((Ledger.after inputs.length calls).left inputs.length).filterMap (inputs[·]?) := by
    rw [hafter, Match.remaining_eq, Match.inputCount_lacking, hholds.inputCount_eq, Ledger.left,
      List.filterMap_filter]
    congr 1
    funext index
    rw [Match.input?_lacking, hholds.input?_eq]
    simp
  exact {
    nodup := (Ledger.consistent_after inputs.length calls).nodup_handed_append_left _
    handedOut_eq := hhanded
    remaining_eq := hremaining
    takeRemaining_eq := rfl
    inputCount_eq := by rw [hafter, Match.inputCount_lacking, hholds.inputCount_eq]
    input?_eq := fun index => by rw [hafter, Match.input?_lacking, hholds.input?_eq]
    take_ok_iff := take_after_ok_iff hholds calls
    take_ok := take_after_ok hholds calls
    take_error := take_after_error hholds calls
    takeRange_ok_iff := takeRange_after_ok_iff hholds calls
    takeRange_ok := takeRange_after_ok hholds calls
    takeRange_error := takeRange_after_error hholds calls }

/-- Of three inputs the last two are taken, and then a range that is one too long is asked for. -/
example : Ledger.after 3 [.range 1 3, .range 0 4, .single 0] = ⟨[1, 2, 0], [1, 2]⟩ := by
  decide

end Accounts

end PlanLowering
