import Arcxa.Engine.Lifecycle

/-!
# Pausing and resuming

A run that waits for an approval stops there, and when the approval is granted the rest of the route
is run in a context of its own. To see what the pauses change, the run is compared with one in which
every approval is granted when it is asked for (`grantedRun`). The two agree when nothing waits. When
something waits, they agree exactly when the first context can ask for the approval, there is only
one to ask for (the context in which a run is resumed has no approval store), no action fails, and
the first route of the workflow goes on as the paused one would have (`transparent_iff`).
-/

namespace Arcxa.Engine

open WorkflowExecution Handlers

variable {A V J : Type}

/-! ## Traces -/

/-- One action of a run: the data it was given, its result, and the data afterwards. -/
structure Ran (A J : Type) where
  action : Action A J
  before : J
  result : ActionResult J
  after : J
  deriving DecidableEq

def Ran.Pauses (ran : Ran A J) : Prop := ran.result.status = .Paused

def Ran.Fails (ran : Ran A J) : Prop := ran.result.status = .Failed

instance (ran : Ran A J) : Decidable ran.Pauses := inferInstanceAs (Decidable (_ = _))

instance (ran : Ran A J) : Decidable ran.Fails := inferInstanceAs (Decidable (_ = _))

def dataAfter (data : J) (trace : List (Ran A J)) : J :=
  (trace.getLast?.map (·.after)).getD data

namespace Handlers

variable (handlers : Handlers A V J) (context : ExecutionContext V J)

/-- What `execute_actions` runs. -/
def trace : List (Action A J) → J → List (Ran A J)
  | [], _ => []
  | action :: actions, data =>
    let (result, after) := handlers.executeAction context action data
    ⟨action, data, result, after⟩ ::
      if result.status = .Paused then [] else trace actions after

/-- An action, with the approval that it may wait for already granted: the request is made, whether
there is an approval store or not. -/
def grantedAction (action : Action A J) (data : J) : ActionResult J × J :=
  match action with
  | .waitForApproval wait =>
    match handlers.skipsOn context wait data with
    | some _ => handlers.executeAction context (.waitForApproval wait) data
    | none =>
      (⟨"WaitForApproval", .Paused, handlers.duration wait, none,
        some (handlers.requested wait)⟩, data)
  | .other action => handlers.run context action data

def grantedTrace : List (Action A J) → J → List (Ran A J)
  | [], _ => []
  | action :: actions, data =>
    let (result, after) := handlers.grantedAction context action data
    ⟨action, data, result, after⟩ :: grantedTrace actions after

end Handlers

/-! ## Runs -/

/-- The record of an execution, and what has been run for it. -/
structure Progress (A J : Type) where
  execution : WorkflowExecution J
  trace : List (Ran A J)

namespace Progress

variable (handlers : Handlers A V J) (services : V)

/-- The first part of a run: the route is run in some context, and the record is settled as
`execute_workflow_internal` does it. When actions have failed it stays as it is. -/
def begin (context : ExecutionContext V J) (route : Route A J) (execution : WorkflowExecution J)
    (data : J) (now : Time) : Progress A J :=
  let (results, after) := handlers.executeActions context route.actions data
  { execution := (execution.afterExecute results after route.actions.length now).getD execution
    trace := handlers.trace context route.actions data }

/-- `resume_execution`, with nothing else going on. -/
def resume (copy : ResumeCopy) (progress : Progress A J) (moment : ExecutionMoment A J) :
    Progress A J :=
  match progress.execution.planResume moment.workflow with
  | .error _ => progress
  | .ok plan =>
    if plan.route.actions.length ≤ plan.resumeFrom then
      { progress with execution := progress.execution.updateStatus .Completed moment.now }
    else
      let running := progress.execution.running moment.now
      let context := plan.context services running.executionId
      let (results, data) := handlers.executeActions context plan.remaining plan.data
      { execution :=
          (running.afterResume copy (some running) plan results data moment.now).getD running
        trace := progress.trace ++ handlers.trace context plan.remaining plan.data }

def pausedRun (context : ExecutionContext V J) (route : Route A J)
    (execution : WorkflowExecution J) (data : J) (now : Time)
    (approvals : List (ExecutionMoment A J)) : Progress A J :=
  approvals.foldl (resume handlers services .batch) (begin handlers context route execution data now)

def grantedRun (context : ExecutionContext V J) (route : Route A J)
    (execution : WorkflowExecution J) (data : J) (now : Time) : Progress A J :=
  let trace := handlers.grantedTrace context route.actions data
  let results := trace.map (·.result)
  { execution :=
      if (failedResults results).isEmpty then
        { execution.updateStatus .Completed now with actionResults := results }
      else execution
    trace }

/-- The same actions on the same data, the same status and the same results. -/
structure Agree (progress progress' : Progress A J) : Prop where
  trace : progress.trace = progress'.trace
  status : progress.execution.status = progress'.execution.status
  results : progress.execution.actionResults = progress'.execution.actionResults

end Progress

/-! ## What the traces have in common -/

def ExecutionContext.CanAsk (context : ExecutionContext V J) : Prop :=
  context.approvalStore = true ∧ context.executionId.isSome

section Traces

variable {handlers : Handlers A V J} {context context' : ExecutionContext V J}
  {actions actions' : List (Action A J)} {action : Action A J} {data : J}

theorem dataAfter_cons (data : J) (ran : Ran A J) (trace : List (Ran A J)) :
    dataAfter data (ran :: trace) = dataAfter ran.after trace := by
  unfold dataAfter
  rw [List.getLast?_cons]
  cases trace.getLast? <;> rfl

theorem executeActions_eq (handlers : Handlers A V J) (context : ExecutionContext V J)
    (actions : List (Action A J)) (data : J) :
    handlers.executeActions context actions data =
      ((handlers.trace context actions data).map (·.result),
        dataAfter data (handlers.trace context actions data)) := by
  induction actions generalizing data with
  | nil => rfl
  | cons action actions ih =>
    rw [executeActions, trace, dataAfter_cons, List.map_cons]
    dsimp only
    split_ifs
    · rfl
    · rw [ih]

theorem executeAction_of_canAsk (hcan : context.CanAsk) :
    handlers.executeAction context action data = handlers.grantedAction context action data := by
  cases action with
  | other action => rfl
  | waitForApproval wait =>
    obtain ⟨executionId, hid⟩ := Option.isSome_iff_exists.mp hcan.2
    rw [grantedAction]
    cases hskip : handlers.skipsOn context wait data with
    | some condition => rfl
    | none =>
      simp [executeAction, executeWaitForApproval, hskip, hcan.1, hid]

theorem executeAction_of_quiet
    (hquiet : (handlers.grantedAction context action data).1.status ≠ .Paused) :
    handlers.executeAction context action data = handlers.grantedAction context action data := by
  cases action with
  | other action => rfl
  | waitForApproval wait =>
    rw [grantedAction] at hquiet ⊢
    cases hskip : handlers.skipsOn context wait data with
    | some condition => rfl
    | none =>
      rw [hskip] at hquiet
      exact absurd rfl hquiet

theorem not_paused_of_cannot (hcannot : ¬ context.CanAsk) :
    (handlers.executeAction context action data).1.status ≠ .Paused := by
  cases action with
  | other action => exact handlers.run_ne_paused context action data
  | waitForApproval wait =>
    rw [executeAction, executeWaitForApproval]
    cases hskip : handlers.skipsOn context wait data with
    | some condition => exact nofun
    | none =>
      dsimp only
      cases hstore : context.approvalStore with
      | false => exact nofun
      | true =>
        cases hid : context.executionId with
        | none => exact nofun
        | some executionId => exact absurd ⟨hstore, hid ▸ rfl⟩ hcannot

def upToPause : List (Ran A J) → List (Ran A J)
  | [] => []
  | ran :: trace => ran :: if ran.Pauses then [] else upToPause trace

theorem upToPause_append {before rest : List (Ran A J)} {paused : Ran A J}
    (hbefore : ∀ ran ∈ before, ¬ ran.Pauses) (hpaused : paused.Pauses) :
    upToPause (before ++ paused :: rest) = before ++ [paused] := by
  induction before with
  | nil => rw [List.nil_append, upToPause, if_pos hpaused, List.nil_append]
  | cons ran before ih =>
    rw [List.forall_mem_cons] at hbefore
    rw [List.cons_append, upToPause, if_neg hbefore.1, ih hbefore.2, List.cons_append]

theorem trace_of_canAsk (hcan : context.CanAsk) (actions : List (Action A J)) (data : J) :
    handlers.trace context actions data =
      upToPause (handlers.grantedTrace context actions data) := by
  induction actions generalizing data with
  | nil => rfl
  | cons action actions ih =>
    rw [trace, grantedTrace, upToPause, executeAction_of_canAsk hcan, ← ih]
    rfl

theorem trace_of_quiet (hquiet : ∀ ran ∈ handlers.grantedTrace context actions data, ¬ ran.Pauses) :
    handlers.trace context actions data = handlers.grantedTrace context actions data := by
  induction actions generalizing data with
  | nil => rfl
  | cons action actions ih =>
    rw [grantedTrace, List.forall_mem_cons] at hquiet
    have hfirst : (handlers.grantedAction context action data).1.status ≠ .Paused := hquiet.1
    rw [trace, grantedTrace, executeAction_of_quiet hfirst]
    dsimp only
    rw [if_neg hfirst, ih hquiet.2]

theorem not_pauses_of_cannot (hcannot : ¬ context.CanAsk) (actions : List (Action A J)) (data : J) :
    ∀ ran ∈ handlers.trace context actions data, ¬ ran.Pauses := by
  induction actions generalizing data with
  | nil => exact nofun
  | cons action actions ih =>
    have hfirst : (handlers.executeAction context action data).1.status ≠ .Paused :=
      not_paused_of_cannot hcannot
    rw [trace, List.forall_mem_cons, if_neg hfirst]
    exact ⟨hfirst, ih _⟩

theorem grantedTrace_rest {before rest : List (Ran A J)} {paused : Ran A J}
    (h : handlers.grantedTrace context actions data = before ++ paused :: rest) :
    handlers.grantedTrace context (actions.drop (before.length + 1)) paused.after = rest := by
  induction before generalizing actions data with
  | nil =>
    cases actions with
    | nil => cases h
    | cons action actions =>
      obtain ⟨rfl, rfl⟩ := List.cons.inj h
      rfl
  | cons ran before ih =>
    cases actions with
    | nil => cases h
    | cons action actions => exact ih (List.cons.inj h).2

theorem trace_eq_grantedTrace_iff (hcannot : ¬ context'.CanAsk) :
    handlers.trace context' actions' data = handlers.grantedTrace context actions data ↔
      actions' = actions ∧ ∀ ran ∈ handlers.grantedTrace context actions data,
        handlers.executeAction context' ran.action ran.before = (ran.result, ran.after) := by
  induction actions generalizing actions' data with
  | nil =>
    cases actions' with
    | nil => exact iff_of_true rfl ⟨rfl, nofun⟩
    | cons action' actions' => exact iff_of_false nofun nofun
  | cons action actions ih =>
    cases actions' with
    | nil => exact iff_of_false nofun nofun
    | cons action' actions' =>
      have hgoes : (handlers.executeAction context' action' data).1.status ≠ .Paused :=
        not_paused_of_cannot hcannot
      rw [trace, grantedTrace, List.forall_mem_cons]
      dsimp only
      rw [if_neg hgoes, List.cons.injEq, Ran.mk.injEq, List.cons.injEq]
      constructor
      · rintro ⟨⟨rfl, -, hresult, hafter⟩, htrace⟩
        rw [hafter] at htrace
        obtain ⟨hactions, hrest⟩ := ih.mp htrace
        exact ⟨⟨rfl, hactions⟩, Prod.ext hresult hafter, hrest⟩
      · rintro ⟨⟨rfl, hactions⟩, hsame, hrest⟩
        rw [hsame]
        exact ⟨⟨rfl, rfl, rfl, rfl⟩, ih.mpr ⟨hactions, hrest⟩⟩

end Traces

section Results

variable {trace before : List (Ran A J)} {paused : Ran A J}

theorem pausedResult_of_quiet (h : ∀ ran ∈ trace, ¬ ran.Pauses) :
    pausedResult (trace.map (·.result)) = none := by
  rw [pausedResult, List.find?_eq_none]
  intro result hresult
  obtain ⟨ran, hran, rfl⟩ := List.mem_map.mp hresult
  rw [decide_eq_true_eq]
  exact h ran hran

theorem pausedResult_append (hbefore : ∀ ran ∈ before, ¬ ran.Pauses) (hpaused : paused.Pauses) :
    pausedResult ((before ++ [paused]).map (·.result)) = some paused.result := by
  have hnone := pausedResult_of_quiet hbefore
  rw [pausedResult] at hnone ⊢
  rw [List.map_append, List.find?_append, hnone, Option.none_or, List.map_singleton,
    List.find?_cons_of_pos]
  exact decide_eq_true hpaused

theorem failedResults_isEmpty :
    (failedResults (trace.map (·.result))).isEmpty ↔ ∀ ran ∈ trace, ¬ ran.Fails := by
  rw [failedResults, List.isEmpty_iff, List.filter_eq_nil_iff, List.forall_mem_map]
  simp only [decide_eq_true_eq]
  rfl

theorem dataAfter_append (data : J) : dataAfter data (before ++ [paused]) = paused.after := by
  rw [dataAfter, List.getLast?_concat]
  rfl

end Results

/-! ## The runs -/

/-- The run that is resumed at `moment`, after `paused`, goes on as the granted one does. -/
structure ResumesAs (handlers : Handlers A V J) (services : V) (executionId : String)
    (route : Route A J) (before : List (Ran A J)) (paused : Ran A J) (rest : List (Ran A J))
    (moment : ExecutionMoment A J) (workflow : Workflow A J) (goesOn : Route A J) : Prop where
  found : moment.workflow = some workflow
  first : workflow.routes.head? = some goesOn
  actions : goesOn.actions.drop (before.length + 1) = route.actions.drop (before.length + 1)
  same : ∀ ran ∈ rest, handlers.executeAction
    (ResumePlan.context ⟨workflow.id, goesOn, before.length + 1, paused.after⟩ services
      executionId) ran.action ran.before = (ran.result, ran.after)

/-- The run does not wait; or it waits once, fails nowhere, and goes on. -/
def GoesThrough (handlers : Handlers A V J) (services : V) (context : ExecutionContext V J)
    (route : Route A J) (executionId : String) (data : J)
    (approvals : List (ExecutionMoment A J)) : Prop :=
  (∀ ran ∈ handlers.grantedTrace context route.actions data, ¬ ran.Pauses) ∨
    context.CanAsk ∧
    (∀ ran ∈ handlers.grantedTrace context route.actions data, ¬ ran.Fails) ∧
    ∃ before paused rest moment workflow goesOn,
      handlers.grantedTrace context route.actions data = before ++ paused :: rest ∧
      paused.Pauses ∧ (∀ ran ∈ before ++ rest, ¬ ran.Pauses) ∧ approvals = [moment] ∧
      ResumesAs handlers services executionId route before paused rest moment workflow goesOn

theorem ResumePlan.context_cannot (plan : ResumePlan A J) (services : V) (executionId : String) :
    ¬ (plan.context services executionId).CanAsk :=
  fun hcan => Bool.false_ne_true hcan.1

theorem planResume_ok_iff {execution : WorkflowExecution J} {index : Nat} {data : J}
    {checkpoint : Checkpoint J} (hstatus : execution.status = .Paused)
    (hindex : execution.checkpointActionIndex = some index)
    (hcheckpoint : execution.checkpointData = some checkpoint)
    (hdata : checkpoint.intermediateData = some data) (workflow : Option (Workflow A J))
    (plan : ResumePlan A J) :
    execution.planResume workflow = .ok plan ↔ ∃ w route, workflow = some w ∧
      w.routes.head? = some route ∧ plan = ⟨w.id, route, index + 1, data⟩ := by
  simp only [planResume, hstatus, hindex, hcheckpoint, hdata, ne_eq,
    not_true_eq_false, if_false]
  cases workflow with
  | none => exact iff_of_false nofun fun ⟨_, _, hnone, _⟩ => (nomatch hnone)
  | some w =>
    cases hroute : w.routes.head? with
    | none =>
      refine iff_of_false (by simp [hroute]) ?_
      rintro ⟨w', route, hw, hroute', -⟩
      rw [← Option.some.inj hw, hroute] at hroute'
      cases hroute'
    | some route =>
      simp only [hroute, Except.ok.injEq]
      constructor
      · rintro rfl
        exact ⟨w, route, rfl, hroute, rfl⟩
      · rintro ⟨w', route', hw, hroute', rfl⟩
        cases hw
        rw [hroute] at hroute'
        cases hroute'
        rfl

namespace Progress

variable {handlers : Handlers A V J} {services : V} {context : ExecutionContext V J}
  {route : Route A J} {execution : WorkflowExecution J} {data : J} {now : Time}
  {before rest : List (Ran A J)} {paused : Ran A J}

theorem begin_of_quiet
    (hquiet : ∀ ran ∈ handlers.grantedTrace context route.actions data, ¬ ran.Pauses) :
    begin handlers context route execution data now =
      grantedRun handlers context route execution data now := by
  rw [begin, grantedRun, executeActions_eq, trace_of_quiet hquiet]
  dsimp only
  rw [afterExecute, pausedResult_of_quiet hquiet]
  dsimp only
  split_ifs <;> rfl

theorem begin_of_pauses (hcan : context.CanAsk)
    (hsplit : handlers.grantedTrace context route.actions data = before ++ paused :: rest)
    (hbefore : ∀ ran ∈ before, ¬ ran.Pauses) (hpaused : paused.Pauses) :
    begin handlers context route execution data now =
      { execution :=
          { execution.pauseAt paused.result ((before ++ [paused]).map (·.result)) paused.after 0
              route.actions.length now with
            actionResults := (before ++ [paused]).map (·.result) }
        trace := before ++ [paused] } := by
  rw [begin, executeActions_eq, trace_of_canAsk hcan, hsplit, upToPause_append hbefore hpaused,
    dataAfter_append]
  dsimp only
  rw [afterExecute, pausedResult_append hbefore hpaused]
  rfl

theorem resume_trace (handlers : Handlers A V J) (services : V) (copy : ResumeCopy)
    (progress : Progress A J) (moment : ExecutionMoment A J) :
    ∃ more, (progress.resume handlers services copy moment).trace = progress.trace ++ more ∧
      ∀ ran ∈ more, ¬ ran.Pauses := by
  rw [resume]
  split
  next => exact ⟨[], (List.append_nil _).symm, nofun⟩
  next plan _ =>
    split_ifs
    · exact ⟨[], (List.append_nil _).symm, nofun⟩
    · exact ⟨_, rfl, not_pauses_of_cannot (plan.context_cannot services _) _ _⟩

theorem foldl_resume_trace (handlers : Handlers A V J) (services : V) (copy : ResumeCopy)
    (progress : Progress A J) (approvals : List (ExecutionMoment A J)) :
    ∃ more, (approvals.foldl (resume handlers services copy) progress).trace =
      progress.trace ++ more ∧ ∀ ran ∈ more, ¬ ran.Pauses := by
  induction approvals generalizing progress with
  | nil => exact ⟨[], (List.append_nil _).symm, nofun⟩
  | cons moment approvals ih =>
    obtain ⟨first, hfirst, hquiet⟩ :=
      resume_trace handlers services copy progress moment
    obtain ⟨more, hmore, hquiet'⟩ := ih (progress.resume handlers services copy moment)
    refine ⟨first ++ more, ?_, ?_⟩
    · rw [List.foldl_cons, hmore, hfirst, List.append_assoc]
    · intro ran hran
      exact (List.mem_append.mp hran).elim (hquiet ran) (hquiet' ran)

theorem status_grantedRun : (grantedRun handlers context route execution data now).execution.status =
    if ∀ ran ∈ handlers.grantedTrace context route.actions data, ¬ ran.Fails then .Completed
    else execution.status := by
  rw [grantedRun]
  dsimp only
  simp only [failedResults_isEmpty]
  split_ifs
  · exact execution.status_updateStatus .Completed now
  · rfl

theorem actionResults_grantedRun
    (hfails : ∀ ran ∈ handlers.grantedTrace context route.actions data, ¬ ran.Fails) :
    (grantedRun handlers context route execution data now).execution.actionResults =
      (handlers.grantedTrace context route.actions data).map (·.result) := by
  rw [grantedRun]
  dsimp only
  rw [if_pos (failedResults_isEmpty.mpr hfails)]

theorem agree_grantedRun_iff {progress : Progress A J} (hnew : execution.status = .Pending)
    (hwaited : progress.execution.status ≠ .Pending) :
    Agree progress (grantedRun handlers context route execution data now) ↔
      progress.trace = handlers.grantedTrace context route.actions data ∧
        progress.execution.status = .Completed ∧
        (∀ ran ∈ handlers.grantedTrace context route.actions data, ¬ ran.Fails) ∧
        progress.execution.actionResults =
          (handlers.grantedTrace context route.actions data).map (·.result) := by
  constructor
  · intro h
    have hstatus := h.status
    rw [status_grantedRun] at hstatus
    split_ifs at hstatus with hfails
    · exact ⟨h.trace, hstatus, hfails, h.results.trans (actionResults_grantedRun hfails)⟩
    · exact absurd (hstatus.trans hnew) hwaited
  · rintro ⟨htrace, hstatus, hfails, hresults⟩
    refine ⟨htrace, ?_, hresults.trans (actionResults_grantedRun hfails).symm⟩
    rw [status_grantedRun, if_pos hfails, hstatus]

/-- A record that has paused with this trace behind it. -/
structure PausedAfter (execution : WorkflowExecution J) (trace : List (Ran A J)) (data : J) :
    Prop where
  status : execution.status = .Paused
  index : execution.checkpointActionIndex = some (trace.length - 1)
  checkpoint : ∃ checkpoint, execution.checkpointData = some checkpoint ∧
    checkpoint.intermediateData = some data
  results : execution.actionResults = trace.map (·.result)

theorem pausedAfter (execution : WorkflowExecution J) (ran : ActionResult J)
    (trace : List (Ran A J)) (data : J) (totalActions : Nat) (now : Time) :
    PausedAfter (A := A)
      { execution.pauseAt ran (trace.map (·.result)) data 0 totalActions now with
        actionResults := trace.map (·.result) } trace data where
  status := by
    simp [pauseAt, status_updateStatus]
  index := by
    simp [pauseAt, updateStatus, checkpoint,
      ExecutionStatus.isTerminal]
  checkpoint := ⟨_, rfl, rfl⟩
  results := rfl

@[simp] theorem actionResults_updateStatus (execution : WorkflowExecution J)
    (status : ExecutionStatus) (now : Time) :
    (execution.updateStatus status now).actionResults = execution.actionResults := by
  unfold updateStatus
  dsimp only
  split_ifs <;> rfl

theorem afterResume_of_quiet {trace : List (Ran A J)} (hquiet : ∀ ran ∈ trace, ¬ ran.Pauses)
    (held : WorkflowExecution J) (reread : Option (WorkflowExecution J)) (plan : ResumePlan A J)
    (data : J) (now : Time) :
    ∃ written, held.afterResume .batch reread plan (trace.map (·.result)) data now = some written ∧
      (written.status = .Completed ∧ (∀ ran ∈ trace, ¬ ran.Fails) ∧
          written.actionResults = held.actionResults ++ trace.map (·.result) ∨
        written.status = .Failed ∧ ¬ ∀ ran ∈ trace, ¬ ran.Fails) := by
  rw [afterResume, pausedResult_of_quiet hquiet]
  dsimp only
  split_ifs with hfails
  · refine ⟨_, rfl, .inl ⟨?_, failedResults_isEmpty.mp hfails, ?_⟩⟩
    · exact held.status_updateStatus .Completed now
    · exact congrArg (· ++ _) (actionResults_updateStatus held .Completed now)
  · exact ⟨_, rfl, .inr ⟨held.status_updateStatus .Failed now,
      fun hquiet => hfails (failedResults_isEmpty.mpr hquiet)⟩⟩

/-- A run that has waited once, as the approval is granted. -/
theorem agree_resume_iff {executionId : String} {moment : ExecutionMoment A J}
    {progress : Progress A J} (hnew : execution.status = .Pending)
    (hid : progress.execution.executionId = executionId)
    (hafter : PausedAfter progress.execution (before ++ [paused]) paused.after)
    (htrace : progress.trace = before ++ [paused])
    (hsplit : handlers.grantedTrace context route.actions data = before ++ paused :: rest) :
    Agree (progress.resume handlers services .batch moment)
        (grantedRun handlers context route execution data now) ↔
      (∀ ran ∈ before ++ paused :: rest, ¬ ran.Fails) ∧ ∃ workflow goesOn,
        ResumesAs handlers services executionId route before paused rest moment workflow goesOn := by
  have hrest := grantedTrace_rest hsplit
  obtain ⟨checkpoint, hcheckpoint, hdata⟩ := hafter.checkpoint
  have hindex : progress.execution.checkpointActionIndex = some before.length := by
    rw [hafter.index, List.length_append, List.length_singleton, Nat.add_sub_cancel]
  have hplan := planResume_ok_iff (A := A) hafter.status hindex hcheckpoint hdata moment.workflow
  rw [resume]
  split
  next e herror =>
    -- nothing is resumed, and the execution stays paused
    refine iff_of_false (fun h => ?_) ?_
    · rw [agree_grantedRun_iff hnew (by rw [hafter.status]; exact nofun)] at h
      rw [hafter.status] at h
      exact absurd h.2.1 nofun
    · rintro ⟨-, workflow, goesOn, hresumes⟩
      rw [(hplan _).mpr ⟨workflow, goesOn, hresumes.found, hresumes.first, rfl⟩] at herror
      cases herror
  next plan hok =>
    obtain ⟨workflow, goesOn, hfound, hfirst, rfl⟩ := (hplan plan).mp hok
    have hresumes : (∃ workflow goesOn, ResumesAs handlers services executionId route before paused
        rest moment workflow goesOn) ↔
        handlers.trace
          (ResumePlan.context ⟨workflow.id, goesOn, before.length + 1, paused.after⟩ services
            executionId) (goesOn.actions.drop (before.length + 1)) paused.after = rest := by
      rw [← hrest, trace_eq_grantedTrace_iff (ResumePlan.context_cannot _ services executionId), hrest]
      constructor
      · rintro ⟨workflow', goesOn', hresumes⟩
        cases hfound.symm.trans hresumes.found
        cases hfirst.symm.trans hresumes.first
        exact ⟨hresumes.actions, hresumes.same⟩
      · rintro ⟨hactions, hsame⟩
        exact ⟨workflow, goesOn, hfound, hfirst, hactions, hsame⟩
    rw [hresumes]
    split_ifs with hlast
    · -- the wait was the last action
      have hcompleted := progress.execution.status_updateStatus .Completed moment.now
      rw [agree_grantedRun_iff hnew (by rw [hcompleted]; exact nofun), hsplit]
      have hnone : goesOn.actions.drop (before.length + 1) = [] := List.drop_eq_nil_of_le hlast
      dsimp only
      rw [hnone, Handlers.trace, htrace, hcompleted, actionResults_updateStatus, hafter.results]
      constructor
      · rintro ⟨hsame, -, hfails, -⟩
        exact ⟨hfails, (List.cons.inj (List.append_cancel_left hsame)).2⟩
      · rintro ⟨hfails, rfl⟩
        exact ⟨rfl, rfl, hfails, rfl⟩
    · -- the remaining actions run, and none of them waits
      have hcannot := ResumePlan.context_cannot
        (⟨workflow.id, goesOn, before.length + 1, paused.after⟩ : ResumePlan A J) services
        executionId
      have hrunningId : (progress.execution.running moment.now).executionId = executionId :=
        (progress.execution.executionId_updateStatus .Running moment.now).trans hid
      dsimp only [ResumePlan.remaining]
      rw [hrunningId, executeActions_eq]
      dsimp only
      generalize hmore : handlers.trace _ (goesOn.actions.drop (before.length + 1)) paused.after =
        more
      have hquiet : ∀ ran ∈ more, ¬ ran.Pauses := by
        rw [← hmore]
        exact not_pauses_of_cannot hcannot _ _
      obtain ⟨written, hwritten, hend⟩ := afterResume_of_quiet hquiet
        (progress.execution.running moment.now) (some (progress.execution.running moment.now))
        ⟨workflow.id, goesOn, before.length + 1, paused.after⟩ (dataAfter paused.after more)
        moment.now
      rw [hwritten, Option.getD_some, agree_grantedRun_iff hnew, hsplit, htrace]
      · have hheld : (progress.execution.running moment.now).actionResults =
            (before ++ [paused]).map (·.result) := by
          rw [← hafter.results]
          exact actionResults_updateStatus progress.execution .Running moment.now
        have hcons : before ++ paused :: rest = (before ++ [paused]) ++ rest := by simp
        dsimp only
        rw [hcons, List.append_cancel_left_eq]
        constructor
        · rintro ⟨hsame, -, hfails, -⟩
          exact ⟨hfails, hsame⟩
        · rintro ⟨hfails, rfl⟩
          rcases hend with ⟨hstatus, -, hresults⟩ | ⟨-, hfailed⟩
          · exact ⟨rfl, hstatus, hfails, by rw [hresults, hheld, ← List.map_append]⟩
          · exact absurd (fun ran hran => hfails ran (List.mem_append_right _ hran)) hfailed
      · rcases hend with ⟨hstatus, -⟩ | ⟨hstatus, -⟩ <;> rw [hstatus] <;> exact nofun

theorem rest_quiet_of_agree {approvals : List (ExecutionMoment A J)}
    (hsplit : handlers.grantedTrace context route.actions data = before ++ paused :: rest)
    (hbefore : ∀ ran ∈ before, ¬ ran.Pauses) (hpaused : paused.Pauses)
    (hagree : Agree (pausedRun handlers services context route execution data now approvals)
      (grantedRun handlers context route execution data now)) :
    context.CanAsk ∧ ∀ ran ∈ rest, ¬ ran.Pauses := by
  obtain ⟨more, hmore, hquiet⟩ := foldl_resume_trace handlers services .batch
    (begin handlers context route execution data now) approvals
  have htrace : (begin handlers context route execution data now).trace ++ more =
      before ++ paused :: rest := by
    rw [← hmore, ← hsplit]
    exact hagree.trace
  by_cases hcan : context.CanAsk
  · rw [begin_of_pauses hcan hsplit hbefore hpaused, List.append_assoc, List.singleton_append]
      at htrace
    exact ⟨hcan, (List.cons.inj (List.append_cancel_left htrace)).2 ▸ hquiet⟩
  · have hmem : paused ∈ (begin handlers context route execution data now).trace ++ more := by
      rw [htrace]
      exact List.mem_append_right _ (List.mem_cons_self ..)
    rcases List.mem_append.mp hmem with hfirst | hmem
    · exact absurd hpaused (not_pauses_of_cannot hcan _ _ paused hfirst)
    · exact absurd hpaused (hquiet paused hmem)

theorem agree_of_waits_once {executionId workflowId workflowName : String} {input : J}
    {triggeredBy : Option String} {startedAt : Time} {moment : ExecutionMoment A J}
    (hcan : context.CanAsk)
    (hsplit : handlers.grantedTrace context route.actions data = before ++ paused :: rest)
    (hpaused : paused.Pauses) (hothers : ∀ ran ∈ before ++ rest, ¬ ran.Pauses) :
    Agree
        (pausedRun handlers services context route
          (.new executionId workflowId workflowName input triggeredBy startedAt) data now [moment])
        (grantedRun handlers context route
          (.new executionId workflowId workflowName input triggeredBy startedAt) data now) ↔
      (∀ ran ∈ before ++ paused :: rest, ¬ ran.Fails) ∧ ∃ workflow goesOn,
        ResumesAs handlers services executionId route before paused rest moment workflow goesOn := by
  have hbefore : ∀ ran ∈ before, ¬ ran.Pauses := fun ran hran =>
    hothers ran (List.mem_append_left _ hran)
  rw [pausedRun, List.foldl_cons, List.foldl_nil, begin_of_pauses hcan hsplit hbefore hpaused]
  refine agree_resume_iff rfl ?_ (pausedAfter ..) rfl hsplit
  exact executionId_updateStatus _ .Paused now

/-- Pausing at the approvals and resuming after each of them makes no difference exactly when the
run goes through. -/
theorem transparent_iff (handlers : Handlers A V J) (services : V) (context : ExecutionContext V J)
    (route : Route A J) (executionId workflowId workflowName : String) (input : J)
    (triggeredBy : Option String) (startedAt : Time) (data : J) (now : Time)
    (approvals : List (ExecutionMoment A J))
    (happrovals : approvals.length =
      ((handlers.grantedTrace context route.actions data).filter fun ran => ran.Pauses).length) :
    Agree
        (pausedRun handlers services context route
          (.new executionId workflowId workflowName input triggeredBy startedAt) data now approvals)
        (grantedRun handlers context route
          (.new executionId workflowId workflowName input triggeredBy startedAt) data now) ↔
      GoesThrough handlers services context route executionId data approvals := by
  by_cases hquiet : ∀ ran ∈ handlers.grantedTrace context route.actions data, ¬ ran.Pauses
  · have hnone : approvals = [] := by
      rw [List.filter_eq_nil_iff.mpr fun ran hran => by simpa using hquiet ran hran] at happrovals
      exact List.eq_nil_of_length_eq_zero happrovals
    refine iff_of_true ?_ (.inl hquiet)
    rw [pausedRun, hnone, List.foldl_nil, begin_of_quiet hquiet]
    exact ⟨rfl, rfl, rfl⟩
  · obtain ⟨before, paused, rest, hsplit, hpaused, hbefore⟩ :
        ∃ before paused rest, handlers.grantedTrace context route.actions data =
          before ++ paused :: rest ∧ paused.Pauses ∧ ∀ ran ∈ before, ¬ ran.Pauses := by
      push Not at hquiet
      obtain ⟨ran, hran, hpauses⟩ := hquiet
      obtain ⟨paused, hfind⟩ := Option.isSome_iff_exists.mp
        (List.find?_isSome (p := fun ran => ran.Pauses) |>.mpr ⟨ran, hran, by simpa using hpauses⟩)
      obtain ⟨hpaused, before, rest, hsplit, hbefore⟩ := List.find?_eq_some_iff_append.mp hfind
      exact ⟨before, paused, rest, hsplit, by simpa using hpaused, by simpa using hbefore⟩
    constructor
    · intro hagree
      obtain ⟨hcan, hrest⟩ := rest_quiet_of_agree hsplit hbefore hpaused hagree
      have hothers : ∀ ran ∈ before ++ rest, ¬ ran.Pauses := by
        intro ran hran
        exact (List.mem_append.mp hran).elim (hbefore ran) (hrest ran)
      have honce : approvals.length = 1 := by
        rw [happrovals, hsplit, List.filter_append, List.filter_cons,
          List.filter_eq_nil_iff.mpr fun ran hran => by simpa using hbefore ran hran,
          List.filter_eq_nil_iff.mpr fun ran hran => by simpa using hrest ran hran]
        simp [hpaused]
      obtain ⟨moment, rfl⟩ := List.length_eq_one_iff.mp honce
      obtain ⟨hfails, workflow, goesOn, hresumes⟩ :=
        (agree_of_waits_once hcan hsplit hpaused hothers).mp hagree
      exact .inr ⟨hcan, hsplit ▸ hfails, before, paused, rest, moment, workflow, goesOn, hsplit,
        hpaused, hothers, rfl, hresumes⟩
    · rintro (hnone | ⟨hcan, hfails, before, paused, rest, moment, workflow, goesOn, hsplit,
        hpaused, hothers, rfl, hresumes⟩)
      · exact absurd hnone hquiet
      · exact (agree_of_waits_once hcan hsplit hpaused hothers).mpr
          ⟨hsplit ▸ hfails, workflow, goesOn, hresumes⟩

/-! ## One approval and two -/

def sampleWait : Action Unit Unit := .waitForApproval ⟨"approval-1", "ddl_execution", (), 3600, none⟩

def oneWait : Route Unit Unit := ⟨"route-1", "route", [.other (), sampleWait, .other ()]⟩

def twoWaits : Route Unit Unit := ⟨"route-1", "route", [sampleWait, sampleWait]⟩

def askingContext : ExecutionContext Unit Unit := ⟨"wf-1", "route-1", (), (), some "exec-1", 0, true⟩

def grantedAt (route : Route Unit Unit) (now : Time) : ExecutionMoment Unit Unit :=
  ⟨now, some ⟨"wf-1", "workflow", [route]⟩⟩

def pausedSample (route : Route Unit Unit) (approvals : List (ExecutionMoment Unit Unit)) :
    Progress Unit Unit :=
  pausedRun Executions.idleHandlers () askingContext route
    (.new "exec-1" "wf-1" "workflow" () none 0) () 1 approvals

def grantedSample (route : Route Unit Unit) : Progress Unit Unit :=
  grantedRun Executions.idleHandlers askingContext route
    (.new "exec-1" "wf-1" "workflow" () none 0) () 1

theorem oneWait_transparent :
    Agree (pausedSample oneWait [grantedAt oneWait 2]) (grantedSample oneWait) := by
  have hthrough : GoesThrough Executions.idleHandlers () askingContext oneWait "exec-1" ()
      [grantedAt oneWait 2] := by
    refine .inr ⟨⟨rfl, rfl⟩, by decide, [⟨.other (), (), ⟨"Log", .Success, 0, none, none⟩, ()⟩],
      ⟨sampleWait, (), ⟨"WaitForApproval", .Paused, 0, none, some ()⟩, ()⟩,
      [⟨.other (), (), ⟨"Log", .Success, 0, none, none⟩, ()⟩], _, _, _, rfl, rfl, by decide, rfl,
      rfl, rfl, rfl, by decide⟩
  exact (transparent_iff Executions.idleHandlers () askingContext oneWait "exec-1" "wf-1" "workflow"
    () none 0 () 1 [grantedAt oneWait 2] (by decide)).mpr hthrough

/-- The second approval cannot be asked for, and the execution fails. -/
theorem second_approval_fails : ¬ ∀ (A V J : Type) (handlers : Handlers A V J) (services : V)
    (context : ExecutionContext V J) (route : Route A J)
    (executionId workflowId workflowName : String) (input : J) (triggeredBy : Option String)
    (startedAt : Time) (data : J) (now : Time) (approvals : List (ExecutionMoment A J)),
    approvals.length =
        ((handlers.grantedTrace context route.actions data).filter fun ran => ran.Pauses).length →
      Agree
        (pausedRun handlers services context route
          (.new executionId workflowId workflowName input triggeredBy startedAt) data now approvals)
        (grantedRun handlers context route
          (.new executionId workflowId workflowName input triggeredBy startedAt) data now) := by
  intro h
  have hagree := h Unit Unit Unit Executions.idleHandlers () askingContext twoWaits "exec-1" "wf-1"
    "workflow" () none 0 () 1 [grantedAt twoWaits 2, grantedAt twoWaits 3] (by decide)
  have hstatus : (pausedSample twoWaits
      [grantedAt twoWaits 2, grantedAt twoWaits 3]).execution.status = .Failed := by decide
  exact absurd (hstatus.symm.trans hagree.status) (by decide)

end Progress

end Arcxa.Engine
