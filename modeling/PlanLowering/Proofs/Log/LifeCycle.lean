import Mathlib.Data.List.Induction
import Mathlib.Tactic.Common
import PlanLowering.Log.File

/-!
The life of a log over any row of calls, whatever levels can be read. The slot alone says less than what
becomes of the next start: it is empty after a shutdown as it was before any start, but the process
remembers that it has started a log, and that decides. The first call that starts the log is the only
one, and behind it nothing but the first shutdown makes a difference.
-/

namespace PlanLowering

/-- What a process asks of its log. The disk is the one at the time of the call. -/
inductive LogCall where
  | start (disk : LogDisk) (log : LogConfig)
  | shutdown

namespace LogCall

variable (levels : String → Option LogFilter)

/-- The session after a call; a start that fails leaves it as it was. -/
def answer (session : LogSession) : LogCall → LogSession
  | start disk log =>
    match session.startAs levels disk log with
    | .ok started => started
    | .error _ => session
  | shutdown => session.shutdown

/-- The session after a row of calls of a process that had no log before. -/
def after (calls : List LogCall) : LogSession :=
  calls.foldl (answer levels) .fresh

/-- A call that comes behind others starts the log: it is a start that succeeds, and no log is running
before it. -/
def Begins (before : List LogCall) (call : LogCall) : Prop :=
  ∃ disk log started, call = start disk log ∧ (after levels before).isRunning = false ∧
    (after levels before).startAs levels disk log = .ok started

/-- The level of the log can be read, and there is room for its file. -/
def Valid (disk : LogDisk) (log : LogConfig) : Prop :=
  (levels log.level).isSome = true ∧ disk.hasRoomFor log = true

variable {levels}

/-! ### One call -/

section OneCall

variable {disk : LogDisk} {log : LogConfig} {session : LogSession}

theorem isRunning_send (session : LogSession) (record : LogRecord) :
    (session.send record).isRunning = session.isRunning := by
  rw [LogSession.send]
  split <;> rfl

theorem started_send (session : LogSession) (record : LogRecord) :
    (session.send record).started = session.started := by
  rw [LogSession.send]
  split <;> rfl

theorem startAs_of_isRunning (hrunning : session.isRunning = true) (disk : LogDisk)
    (log : LogConfig) : session.startAs levels disk log = .ok session :=
  if_pos hrunning

/-- The first valid start succeeds. -/
theorem startAs_of_valid (hidle : session.isRunning = false) (hstarted : session.started = false)
    (hvalid : Valid levels disk log) :
    ∃ started, session.startAs levels disk log = .ok started ∧ started.isRunning = true ∧
      started.started = true := by
  obtain ⟨hlevel, hroom⟩ := hvalid
  obtain ⟨filter, hfilter⟩ := Option.isSome_iff_exists.mp hlevel
  let begun : LogSession := ⟨some filter, true, some (log, [])⟩
  refine ⟨begun.send (LogSession.startRecord log), ?_, isRunning_send _ _, started_send _ _⟩
  simp [LogSession.startAs, hidle, hfilter, hroom, hstarted, begun]

/-- Where no log is running, any other start fails. -/
theorem startAs_of_refused (hidle : session.isRunning = false)
    (hrefused : ¬ (Valid levels disk log ∧ session.started = false)) :
    session.startAs levels disk log = .error .logger := by
  have hstart : ¬ session.isRunning = true := Bool.not_eq_true _ ▸ hidle
  rw [LogSession.startAs, if_neg hstart]
  cases hfilter : levels log.level with
  | none => rfl
  | some filter =>
      refine if_neg fun haccepted => hrefused ?_
      rw [Bool.and_eq_true, Bool.not_eq_true'] at haccepted
      exact ⟨⟨by rw [hfilter]; rfl, haccepted.1⟩, haccepted.2⟩

/-- A start that succeeds where no log is running is valid, and the first one. -/
theorem valid_of_startAs {started : LogSession} (hidle : session.isRunning = false)
    (hstart : session.startAs levels disk log = .ok started) :
    Valid levels disk log ∧ session.started = false := by
  by_contra hrefused
  rw [startAs_of_refused hidle hrefused] at hstart
  cases hstart

/-- A start that fails leaves the session as it was. -/
theorem answer_of_error {failure : ConfigError}
    (h : session.startAs levels disk log = .error failure) :
    answer levels session (start disk log) = session := by
  rw [answer, h]

theorem isRunning_of_error {failure : ConfigError}
    (h : session.startAs levels disk log = .error failure) : session.isRunning = false := by
  rw [Bool.eq_false_iff]
  intro hrunning
  rw [startAs_of_isRunning hrunning] at h
  cases h

theorem answer_start_of_started (hstarted : session.started = true) (disk : LogDisk)
    (log : LogConfig) : answer levels session (start disk log) = session := by
  by_cases hrunning : session.isRunning = true
  · rw [answer, startAs_of_isRunning hrunning]
  · refine answer_of_error (startAs_of_refused (Bool.not_eq_true _ ▸ hrunning) ?_)
    rintro ⟨-, hnever⟩
    rw [hstarted] at hnever
    cases hnever

theorem shutdown_shutdown (session : LogSession) : session.shutdown.shutdown = session.shutdown :=
  rfl

end OneCall

/-! ### A row of calls -/

section Rows

variable {calls : List LogCall} {session : LogSession}

theorem after_append (calls more : List LogCall) :
    after levels (calls ++ more) = more.foldl (answer levels) (after levels calls) :=
  List.foldl_append

/-- That a log was started is never forgotten. -/
theorem started_foldl (hstarted : session.started = true) (calls : List LogCall) :
    (calls.foldl (answer levels) session).started = true := by
  induction calls generalizing session with
  | nil => exact hstarted
  | cons call calls ih =>
      cases call with
      | start disk log =>
          rw [List.foldl_cons, answer_start_of_started hstarted]
          exact ih hstarted
      | shutdown => exact ih hstarted

/-- Once a log was started, only shutting it down makes a difference. -/
theorem isRunning_foldl (hstarted : session.started = true) (calls : List LogCall) :
    (calls.foldl (answer levels) session).isRunning = true ↔
      session.isRunning = true ∧ shutdown ∉ calls := by
  induction calls generalizing session with
  | nil => simp
  | cons call calls ih =>
      cases call with
      | start disk log =>
          rw [List.foldl_cons, answer_start_of_started hstarted, ih hstarted]
          simp
      | shutdown =>
          have hidle : session.shutdown.isRunning = false := rfl
          have hleft : session.shutdown.started = true := hstarted
          rw [List.foldl_cons, answer, ih hleft, hidle]
          simp

/-- A log that is running was started. -/
theorem started_of_isRunning (hrunning : (after levels calls).isRunning = true) :
    (after levels calls).started = true := by
  induction calls using List.reverseRecOn with
  | nil => cases hrunning
  | append_singleton calls call ih =>
      rw [after_append, List.foldl_cons, List.foldl_nil] at hrunning ⊢
      cases call with
      | shutdown => cases hrunning
      | start disk log =>
          by_cases hbefore : (after levels calls).isRunning = true
          · rw [answer_start_of_started (ih hbefore)]
            exact ih hbefore
          · have hidle := Bool.eq_false_iff.mpr hbefore
            cases hstart : (after levels calls).startAs levels disk log with
            | error failure =>
                rw [answer_of_error hstart] at hrunning
                exact absurd hrunning hbefore
            | ok started =>
                obtain ⟨hvalid, hnever⟩ := valid_of_startAs hidle hstart
                obtain ⟨first, hfirst, -, hstarted⟩ := startAs_of_valid hidle hnever hvalid
                rw [answer, hfirst]
                exact hstarted

end Rows

/-! ### The call that starts the log -/

section Begins

variable {before calls : List LogCall} {call : LogCall} {disk : LogDisk} {log : LogConfig}

/-- The log is started by valid settings, where the process never started one. -/
theorem begins_iff :
    Begins levels before call ↔ (after levels before).started = false ∧
      ∃ disk log, call = start disk log ∧ Valid levels disk log := by
  constructor
  · rintro ⟨disk, log, started, rfl, hidle, hstart⟩
    obtain ⟨hvalid, hnever⟩ := valid_of_startAs hidle hstart
    exact ⟨hnever, disk, log, rfl, hvalid⟩
  · rintro ⟨hnever, disk, log, rfl, hvalid⟩
    have hidle : (after levels before).isRunning = false := by
      rw [Bool.eq_false_iff]
      intro hrunning
      rw [started_of_isRunning hrunning] at hnever
      cases hnever
    obtain ⟨started, hstart, -, -⟩ := startAs_of_valid hidle hnever hvalid
    exact ⟨disk, log, started, rfl, hidle, hstart⟩

/-- The log is running behind the call that starts it. -/
theorem answer_of_begins (h : Begins levels before call) :
    (answer levels (after levels before) call).isRunning = true ∧
      (answer levels (after levels before) call).started = true := by
  obtain ⟨disk, log, _, rfl, hidle, hstart⟩ := h
  obtain ⟨hvalid, hnever⟩ := valid_of_startAs hidle hstart
  obtain ⟨first, hfirst, hrunning, hstarted⟩ := startAs_of_valid hidle hnever hvalid
  rw [answer, hfirst]
  exact ⟨hrunning, hstarted⟩

theorem started_of_begins (h : Begins levels before call) (rest : List LogCall) :
    (after levels (before ++ call :: rest)).started = true := by
  rw [after_append, List.foldl_cons]
  exact started_foldl (answer_of_begins h).2 rest

theorem isRunning_of_begins (h : Begins levels before call) (rest : List LogCall) :
    (after levels (before ++ call :: rest)).isRunning = true ↔ shutdown ∉ rest := by
  obtain ⟨hrunning, hstarted⟩ := answer_of_begins h
  rw [after_append, List.foldl_cons, isRunning_foldl hstarted]
  exact and_iff_right hrunning

/-- As long as no call starts the log, the process has none started. -/
theorem started_eq_false
    (hnone : ∀ before call rest, calls = before ++ call :: rest → ¬ Begins levels before call) :
    (after levels calls).started = false := by
  induction calls using List.reverseRecOn with
  | nil => rfl
  | append_singleton calls call ih =>
      have hcalls : (after levels calls).started = false := by
        refine ih fun before earlier rest hsplit => hnone before earlier (rest ++ [call]) ?_
        rw [hsplit, List.append_assoc, List.cons_append]
      have hcall : ¬ Begins levels calls call := hnone calls call [] rfl
      rw [after_append, List.foldl_cons, List.foldl_nil]
      cases call with
      | shutdown => exact hcalls
      | start disk log =>
          have hidle : (after levels calls).isRunning = false := by
            rw [Bool.eq_false_iff]
            intro hrunning
            rw [started_of_isRunning hrunning] at hcalls
            cases hcalls
          rw [answer_of_error (startAs_of_refused hidle fun hvalid =>
            hcall (begins_iff.mpr ⟨hcalls, disk, log, rfl, hvalid.1⟩))]
          exact hcalls

theorem isRunning_iff :
    (after levels calls).isRunning = true ↔
      ∃ before call rest,
        calls = before ++ call :: rest ∧ Begins levels before call ∧ shutdown ∉ rest := by
  constructor
  · intro hrunning
    have hsome : ∃ before call rest,
        calls = before ++ call :: rest ∧ Begins levels before call := by
      by_contra hnone
      have hnever := started_eq_false fun before call rest hsplit hbegins =>
        hnone ⟨before, call, rest, hsplit, hbegins⟩
      rw [started_of_isRunning hrunning] at hnever
      cases hnever
    obtain ⟨before, call, rest, rfl, hbegins⟩ := hsome
    exact ⟨before, call, rest, rfl, hbegins, (isRunning_of_begins hbegins rest).mp hrunning⟩
  · rintro ⟨before, call, rest, rfl, hbegins, hopen⟩
    exact (isRunning_of_begins hbegins rest).mpr hopen

/-- Of two calls that start the log, neither comes behind the other. -/
theorem not_begins_of_begins {middle : List LogCall} {other : LogCall}
    (h : Begins levels before call) : ¬ Begins levels (before ++ call :: middle) other := by
  intro hother
  have hnever := (begins_iff.mp hother).1
  rw [started_of_begins h] at hnever
  cases hnever

theorem begins_unique {before' rest rest' : List LogCall} {call' : LogCall}
    (hsplit : before ++ call :: rest = before' ++ call' :: rest') (h : Begins levels before call)
    (h' : Begins levels before' call') : before = before' ∧ call = call' ∧ rest = rest' := by
  rcases List.append_eq_append_iff.mp hsplit with ⟨middle, hbefore', hcall⟩ | ⟨middle, hbefore, hcall'⟩
  · cases middle with
    | nil =>
        rw [List.append_nil] at hbefore'
        exact ⟨hbefore'.symm, List.cons.inj hcall⟩
    | cons first middle =>
        obtain ⟨rfl, _⟩ := List.cons.inj hcall
        rw [hbefore'] at h'
        exact absurd h' (not_begins_of_begins h)
  · cases middle with
    | nil =>
        rw [List.append_nil] at hbefore
        obtain ⟨rfl, rfl⟩ := List.cons.inj hcall'
        exact ⟨hbefore, rfl, rfl⟩
    | cons first middle =>
        obtain ⟨rfl, _⟩ := List.cons.inj hcall'
        rw [hbefore] at h
        exact absurd h (not_begins_of_begins h')

/-- Behind a start and a shutdown every start is refused. -/
theorem startAs_after_shutdown {rest : List LogCall} (h : Begins levels before call)
    (hshutdown : shutdown ∈ rest) (disk : LogDisk) (log : LogConfig) :
    (after levels (before ++ call :: rest)).startAs levels disk log = .error .logger := by
  apply startAs_of_refused
  · rw [Bool.eq_false_iff, Ne, isRunning_of_begins h]
    exact not_not_intro hshutdown
  · rw [started_of_begins h]
    exact fun hvalid => Bool.noConfusion hvalid.2

end Begins

/-- The life of a log after any row of calls, in the order of the statements: when it is running; that
a start while it runs succeeds and changes nothing; that a start that fails leaves no log running and
the session as it was; that any valid start succeeds as long as none did before; that shutting down
twice is shutting down once; that at most one call starts the log; and that behind a start and a
shutdown every start is refused. -/
theorem log_life_cycle (levels : String → Option LogFilter) (calls : List LogCall) :
    ((after levels calls).isRunning = true ↔
      ∃ before call rest,
        calls = before ++ call :: rest ∧ Begins levels before call ∧ shutdown ∉ rest) ∧
    (∀ disk log, (after levels calls).isRunning = true →
      (after levels calls).startAs levels disk log = .ok (after levels calls) ∧
        after levels (calls ++ [start disk log]) = after levels calls) ∧
    (∀ disk log failure, (after levels calls).startAs levels disk log = .error failure →
      (after levels (calls ++ [start disk log])).isRunning = false ∧
        after levels (calls ++ [start disk log]) = after levels calls) ∧
    ((∀ before call rest, calls = before ++ call :: rest → ¬ Begins levels before call) →
      ∀ disk log, Valid levels disk log ↔ Begins levels calls (start disk log)) ∧
    after levels (calls ++ [shutdown, shutdown]) = after levels (calls ++ [shutdown]) ∧
    (∀ before call rest before' call' rest', calls = before ++ call :: rest →
      calls = before' ++ call' :: rest' → Begins levels before call → Begins levels before' call' →
        before = before' ∧ call = call' ∧ rest = rest') ∧
    ∀ before call rest, calls = before ++ call :: rest → Begins levels before call →
      shutdown ∈ rest → ∀ disk log,
        (after levels calls).startAs levels disk log = .error .logger := by
  refine ⟨isRunning_iff, ?_, ?_, ?_, ?_, ?_, ?_⟩
  · intro disk log hrunning
    have hstart : (after levels calls).startAs levels disk log = .ok (after levels calls) :=
      startAs_of_isRunning hrunning disk log
    refine ⟨hstart, ?_⟩
    rw [after_append, List.foldl_cons, List.foldl_nil, answer, hstart]
  · intro disk log failure hfails
    have hafter : after levels (calls ++ [start disk log]) = after levels calls := by
      rw [after_append]
      exact answer_of_error hfails
    refine ⟨?_, hafter⟩
    rw [hafter]
    exact isRunning_of_error hfails
  · intro hnone disk log
    rw [begins_iff]
    constructor
    · intro hvalid
      exact ⟨started_eq_false hnone, disk, log, rfl, hvalid⟩
    · rintro ⟨_, _, _, heq, hvalid⟩
      cases heq
      exact hvalid
  · rw [after_append, after_append]
    exact shutdown_shutdown (after levels calls)
  · intro before call rest before' call' rest' hsplit hsplit' hbegins hbegins'
    exact begins_unique (hsplit.symm.trans hsplit') hbegins hbegins'
  · rintro before call rest rfl hbegins hshutdown
    exact startAs_after_shutdown hbegins hshutdown

/-- A level that cannot be read, a start that succeeds, one that is not needed, and a shutdown. -/
def restarted : List LogCall :=
  [start .empty { level := "a=b=c" }, start .empty {}, start .empty { level := "=" }, shutdown]

theorem log_life_cycle_restarted :
    Begins LogFilter.ofText? [start .empty { level := "a=b=c" }] (start .empty {}) ∧
      (after LogFilter.ofText? restarted).isRunning = false ∧
        (after LogFilter.ofText? restarted).startAs LogFilter.ofText? .empty {} =
          .error .logger := by
  have hvalid : Valid LogFilter.ofText? .empty {} := by
    constructor
    · decide +kernel
    · decide +kernel
  have hbegins : Begins LogFilter.ofText? [start .empty { level := "a=b=c" }] (start .empty {}) :=
    begins_iff.mpr ⟨by rfl, _, _, rfl, hvalid⟩
  obtain ⟨_, _, hfails, _, _, _, hrefused⟩ := log_life_cycle LogFilter.ofText? restarted
  have hshutdown : shutdown ∈ [start .empty { level := "=" }, shutdown] := by simp
  have hstart := hrefused _ _ _ rfl hbegins hshutdown .empty {}
  refine ⟨hbegins, ?_, hstart⟩
  obtain ⟨hidle, hsame⟩ := hfails .empty {} .logger hstart
  rwa [hsame] at hidle

end LogCall

end PlanLowering
