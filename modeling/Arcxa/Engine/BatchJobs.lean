import Arcxa.Lib.DepthFirst
import Arcxa.Workflow.Deduplicator

/-!
# Batch jobs

`BatchJobExecutor` sorts the executions of a job into waves by their dependencies and runs wave
after wave. The waves are right for every job without cycles; `respects_iff` says for which outcomes
of the executions the run and the final status are.
-/

namespace Arcxa.Engine

open Relation
open Arcxa.Workflow (HashOrder)

inductive BatchJobStatus where
  | Pending
  | Validating
  | Running
  | Paused
  | Completed
  | PartiallyCompleted
  | Failed
  | Cancelled
  deriving DecidableEq

structure WorkflowExecutionRef where
  executionId : String
  dependencies : List String
  deriving DecidableEq

structure BatchJobConfig where
  maxParallel : Nat
  stopOnError : Bool

structure BatchJob where
  name : String
  workflowId : String
  status : BatchJobStatus
  config : BatchJobConfig
  workflowExecutions : List WorkflowExecutionRef

def executionIds (executions : List WorkflowExecutionRef) : List String :=
  executions.map WorkflowExecutionRef.executionId

def invalidDependency (executions : List WorkflowExecutionRef) : Option (String × String) :=
  executions.findSome? fun exec =>
    (exec.dependencies.find? (· ∉ executionIds executions)).map (exec.executionId, ·)

namespace BatchJob

variable (job : BatchJob)

def validate : Except String Unit :=
  if job.name = "" then .error "Batch job name cannot be empty"
  else if job.workflowId = "" then .error "Workflow ID cannot be empty"
  else if job.workflowExecutions = [] then
    .error "Batch job must have at least one workflow execution"
  else if job.config.maxParallel = 0 then .error "max_parallel must be at least 1"
  else
    match invalidDependency job.workflowExecutions with
    | some (id, dep) => .error ("Workflow " ++ id ++ " has invalid dependency: " ++ dep)
    | none => .ok ()

end BatchJob

/-! ## Waves -/

def execById (executions : List WorkflowExecutionRef) : BTreeMap String WorkflowExecutionRef :=
  .ofList (executions.map fun exec => (exec.executionId, exec))

def dependenciesOf (executions : List WorkflowExecutionRef) (id : String) : List String :=
  ((execById executions).get id).elim [] WorkflowExecutionRef.dependencies

def dependenciesSatisfied (completed : List String) (exec : WorkflowExecutionRef) : Bool :=
  exec.dependencies.all (· ∈ completed)

def buildWaves : Nat → List String → List WorkflowExecutionRef →
    Except String (List (List WorkflowExecutionRef))
  | _, _, [] => .ok []
  | 0, _, _ :: _ => .error "Circular dependency detected in batch job"
  | iterations + 1, completed, exec :: rest =>
    let currentWave := (exec :: rest).filter (dependenciesSatisfied completed)
    let stillWaiting := (exec :: rest).filter (!dependenciesSatisfied completed ·)
    if currentWave = [] then
      .error ("Deadlock detected: " ++ toString stillWaiting.length ++
        " workflows have unsatisfied dependencies")
    else
      (buildWaves iterations (completed ++ executionIds currentWave) stillWaiting).map
        (currentWave :: ·)

/-- `keys` is the order in which the map of executions gives its keys. -/
def resolveDependencies (keys : HashOrder String) (executions : List WorkflowExecutionRef) :
    Except String (List (List WorkflowExecutionRef)) :=
  match invalidDependency executions with
  | some (id, dep) =>
    .error ("Invalid dependency: " ++ id ++ " references non-existent execution " ++ dep)
  | none =>
    match (Search.detectCycle (dependenciesOf executions)
      (keys.order (execById executions).keys)).join with
    | some id => .error ("Circular dependency detected involving " ++ id)
    | none => buildWaves (executions.length + 1) [] executions

/-! ## Execution -/

/-- How an execution ends, after its retries. A paused one has returned; a task that panics returns
nothing. -/
inductive Outcome where
  | success
  | failure (error : String)
  | pause
  | panic
  deriving DecidableEq

def Outcome.result : Outcome → Option (Except String Unit)
  | .success | .pause => some (.ok ())
  | .failure error => some (.error error)
  | .panic => none

def Outcome.Fails (outcome : Outcome) : Prop := ∃ error, outcome = .failure error

/-- A run, with the waves that it has started. -/
structure BatchRun where
  started : List (List WorkflowExecutionRef)
  completedIds : List String
  failedIds : List String
  error : Option String

def BatchRun.new : BatchRun := ⟨[], [], [], none⟩

structure BatchExecutor where
  keys : HashOrder String
  results : HashOrder (String × Except String Unit)
  outcomes : String → Outcome

namespace BatchExecutor

variable (executor : BatchExecutor)

def executeWave (wave : List WorkflowExecutionRef) : List (String × Except String Unit) :=
  executor.results.order (wave.filterMap fun exec =>
    (executor.outcomes exec.executionId).result.map (exec.executionId, ·))

/-- One result; after an error that stops the job the others are not looked at. -/
def processResult (config : BatchJobConfig) (run : BatchRun)
    (result : String × Except String Unit) : BatchRun :=
  if run.error.isSome then run
  else
    match result with
    | (id, .ok _) => { run with completedIds := run.completedIds ++ [id] }
    | (id, .error error) =>
      { run with
        failedIds := run.failedIds ++ [id]
        error := if config.stopOnError then some ("Batch job stopped due to error: " ++ error)
          else none }

def executeWaves (config : BatchJobConfig) :
    List (List WorkflowExecutionRef) → BatchRun → BatchRun
  | [], run => run
  | wave :: waves, run =>
    let run := (executor.executeWave wave).foldl (processResult config)
      { run with started := run.started ++ [wave] }
    if run.error.isSome then run else executeWaves config waves run

end BatchExecutor

def BatchRun.finalStatus (run : BatchRun) : BatchJobStatus :=
  if run.error.isSome then .Failed
  else if run.failedIds = [] then .Completed
  else if run.completedIds = [] then .Failed
  else .PartiallyCompleted

/-- What `execute` returns, with the status that is stored at the end and the run. -/
structure BatchEnd where
  result : Except String Unit
  status : BatchJobStatus
  run : BatchRun

def BatchExecutor.execute (executor : BatchExecutor) (job : BatchJob) : BatchEnd :=
  match job.validate with
  | .error error => ⟨.error ("Batch job validation failed: " ++ error), job.status, .new⟩
  | .ok _ =>
    match resolveDependencies executor.keys job.workflowExecutions with
    | .error error => ⟨.error error, .Running, .new⟩
    | .ok waves =>
      let run := executor.executeWaves job.config waves .new
      ⟨run.error.elim (.ok ()) .error, run.finalStatus, run⟩

/-! ## The dependency relation -/

def DependsOn (executions : List WorkflowExecutionRef) (dep id : String) : Prop :=
  ∃ exec ∈ executions, exec.executionId = id ∧ dep ∈ exec.dependencies

def HasCycle (executions : List WorkflowExecutionRef) : Prop :=
  ∃ id, TransGen (DependsOn executions) id id

variable {executions : List WorkflowExecutionRef}

theorem mem_executionIds {id : String} :
    id ∈ executionIds executions ↔ ∃ exec ∈ executions, exec.executionId = id := List.mem_map

theorem get_execById (hdistinct : (executionIds executions).Nodup) {id : String}
    {exec : WorkflowExecutionRef} :
    (execById executions).get id = some exec ↔ exec ∈ executions ∧ exec.executionId = id := by
  have hkeys : ((executions.map fun exec => (exec.executionId, exec)).map (·.1)).Nodup := by
    rw [List.map_map]
    exact hdistinct
  rw [execById, BTreeMap.get_ofList_of_nodup hkeys, ← BTreeMap.mem_iff_lookupList hkeys,
    List.mem_map]
  constructor
  · rintro ⟨exec', hmem, heq⟩
    cases heq
    exact ⟨hmem, rfl⟩
  · rintro ⟨hmem, rfl⟩
    exact ⟨exec, hmem, rfl⟩

theorem edge_dependenciesOf (hdistinct : (executionIds executions).Nodup) :
    Search.Edge (dependenciesOf executions) = DependsOn executions := by
  funext dep id
  refine propext ?_
  rw [Search.Edge, dependenciesOf]
  constructor
  · intro h
    cases hget : (execById executions).get id with
    | none =>
      rw [hget] at h
      exact absurd h List.not_mem_nil
    | some exec =>
      rw [hget] at h
      obtain ⟨hmem, hid⟩ := (get_execById hdistinct).mp hget
      exact ⟨exec, hmem, hid, h⟩
  · rintro ⟨exec, hmem, hid, hdep⟩
    rw [(get_execById hdistinct).mpr ⟨hmem, hid⟩]
    exact hdep

theorem invalidDependency_eq_none (h : invalidDependency executions = none) :
    ∀ exec ∈ executions, ∀ dep ∈ exec.dependencies, dep ∈ executionIds executions := by
  intro exec hmem dep hdep
  have hexec := List.findSome?_eq_none_iff.mp h exec hmem
  rw [Option.map_eq_none_iff, List.find?_eq_none] at hexec
  simpa using hexec dep hdep

/-! ## The waves are right -/

def Layered : List String → List (List WorkflowExecutionRef) → Prop
  | _, [] => True
  | completed, wave :: waves =>
    (∀ exec ∈ wave, ∀ dep ∈ exec.dependencies, dep ∈ completed) ∧
      Layered (completed ++ executionIds wave) waves

theorem Layered.split {completed : List String} {before after : List (List WorkflowExecutionRef)}
    {wave : List WorkflowExecutionRef} (h : Layered completed (before ++ wave :: after)) :
    ∀ exec ∈ wave, ∀ dep ∈ exec.dependencies,
      dep ∈ completed ∨ dep ∈ executionIds before.flatten := by
  induction before generalizing completed with
  | nil => exact fun exec hexec dep hdep => .inl (h.1 exec hexec dep hdep)
  | cons first before ih =>
    intro exec hexec dep hdep
    obtain hmem | hmem := ih h.2 exec hexec dep hdep
    · refine (List.mem_append.mp hmem).imp_right fun hmem => ?_
      rw [executionIds, List.flatten_cons, List.map_append]
      exact List.mem_append_left _ hmem
    · refine .inr ?_
      rw [executionIds, List.flatten_cons, List.map_append]
      exact List.mem_append_right _ hmem

section

variable {remaining : List WorkflowExecutionRef} {completed : List String}

theorem dependenciesSatisfied_iff {exec : WorkflowExecutionRef} :
    dependenciesSatisfied completed exec = true ↔ ∀ dep ∈ exec.dependencies, dep ∈ completed := by
  simp only [dependenciesSatisfied, List.all_eq_true, decide_eq_true_eq]

theorem exists_satisfied (hsubset : remaining ⊆ executions)
    (hdeps : ∀ exec ∈ remaining, ∀ dep ∈ exec.dependencies,
      dep ∈ completed ∨ dep ∈ executionIds remaining)
    {id : String} (hacc : Acc (DependsOn executions) id) :
    ∀ exec ∈ remaining, exec.executionId = id →
      ∃ exec ∈ remaining, dependenciesSatisfied completed exec = true := by
  induction hacc with
  | intro id _ ih =>
    intro exec hmem hid
    by_cases hsatisfied : dependenciesSatisfied completed exec = true
    · exact ⟨exec, hmem, hsatisfied⟩
    · rw [dependenciesSatisfied_iff] at hsatisfied
      push Not at hsatisfied
      obtain ⟨dep, hdep, hnot⟩ := hsatisfied
      have hwaiting := (hdeps exec hmem dep hdep).resolve_left hnot
      obtain ⟨next, hnext, hnextId⟩ := mem_executionIds.mp hwaiting
      exact ih dep ⟨exec, hsubset hmem, hid, hdep⟩ next hnext hnextId

/-- **The loop places what remains**, wave after wave. -/
theorem buildWaves_spec {iterations : Nat} (hlength : remaining.length ≤ iterations)
    (hsubset : remaining ⊆ executions)
    (hdeps : ∀ exec ∈ remaining, ∀ dep ∈ exec.dependencies,
      dep ∈ completed ∨ dep ∈ executionIds remaining)
    (hacc : ∀ exec ∈ remaining, Acc (DependsOn executions) exec.executionId) :
    ∃ waves, buildWaves iterations completed remaining = .ok waves ∧
      waves.flatten.Perm remaining ∧ Layered completed waves ∧
      ∀ first later, waves = first :: later →
        first = remaining.filter (dependenciesSatisfied completed) := by
  induction iterations generalizing remaining completed with
  | zero =>
    rw [List.eq_nil_of_length_eq_zero (Nat.le_zero.mp hlength)]
    exact ⟨[], rfl, .nil, trivial, nofun⟩
  | succ iterations ih =>
    cases remaining with
    | nil => exact ⟨[], rfl, .nil, trivial, nofun⟩
    | cons first rest =>
      obtain ⟨next, hnext, hsatisfied⟩ := exists_satisfied hsubset hdeps
        (hacc first (List.mem_cons_self ..)) first (List.mem_cons_self ..) rfl
      have hperm : ((first :: rest).filter (dependenciesSatisfied completed) ++
          (first :: rest).filter (!dependenciesSatisfied completed ·)).Perm (first :: rest) :=
        List.filter_append_perm _ _
      have hwave : next ∈ (first :: rest).filter (dependenciesSatisfied completed) :=
        List.mem_filter.mpr ⟨hnext, hsatisfied⟩
      have hne : (first :: rest).filter (dependenciesSatisfied completed) ≠ [] :=
        List.ne_nil_of_mem hwave
      have hshorter : ((first :: rest).filter (!dependenciesSatisfied completed ·)).length ≤
          iterations := by
        have hcount := hperm.length_eq
        rw [List.length_append] at hcount
        have hpos := List.length_pos_iff.mpr hne
        omega
      have hwaiting : ∀ exec ∈ (first :: rest).filter (!dependenciesSatisfied completed ·),
          ∀ dep ∈ exec.dependencies,
            dep ∈ completed ++
                executionIds ((first :: rest).filter (dependenciesSatisfied completed)) ∨
              dep ∈ executionIds
                ((first :: rest).filter (!dependenciesSatisfied completed ·)) := by
        intro exec hmem dep hdep
        obtain hdone | hleft := hdeps exec (List.mem_filter.mp hmem).1 dep hdep
        · exact .inl (List.mem_append_left _ hdone)
        · obtain ⟨other, hother, rfl⟩ := mem_executionIds.mp hleft
          obtain hin | hin := List.mem_append.mp (hperm.mem_iff.mpr hother)
          · exact .inl (List.mem_append_right _ (mem_executionIds.mpr ⟨other, hin, rfl⟩))
          · exact .inr (mem_executionIds.mpr ⟨other, hin, rfl⟩)
      obtain ⟨waves, hwaves, hflat, hlayered, -⟩ := ih hshorter
        (fun exec hmem => hsubset (List.mem_filter.mp hmem).1) hwaiting
        (fun exec hmem => hacc exec (List.mem_filter.mp hmem).1)
      refine ⟨_ :: waves, ?_, (hflat.append_left _).trans hperm, ⟨fun exec hmem => ?_, hlayered⟩,
        fun _ _ heq => (List.cons.inj heq).1.symm⟩
      · rw [buildWaves, if_neg hne, hwaves]
        rfl
      · exact dependenciesSatisfied_iff.mp (List.mem_filter.mp hmem).2

end

/-- The waves hold every execution once, each after its dependencies. -/
structure Placed (executions : List WorkflowExecutionRef)
    (waves : List (List WorkflowExecutionRef)) : Prop where
  perm : waves.flatten.Perm executions
  after : ∀ before wave after, waves = before ++ wave :: after → ∀ exec ∈ wave,
    ∀ dep ∈ exec.dependencies, ∃ earlier ∈ before, dep ∈ executionIds earlier

theorem mem_executionIds_flatten {waves : List (List WorkflowExecutionRef)} {id : String} :
    id ∈ executionIds waves.flatten ↔ ∃ wave ∈ waves, id ∈ executionIds wave := by
  rw [executionIds, List.map_flatten, List.mem_flatten]
  simp only [List.mem_map, exists_exists_and_eq_and, executionIds]

/-- **The dependencies are resolved exactly when they have no cycle.** -/
theorem resolveDependencies_spec (keys : HashOrder String)
    (hdistinct : (executionIds executions).Nodup) (hvalid : invalidDependency executions = none) :
    (HasCycle executions ∧ ∃ error, resolveDependencies keys executions = .error error) ∨
      (¬ HasCycle executions ∧
        ∃ waves, resolveDependencies keys executions = .ok waves ∧ Placed executions waves ∧
          ∀ first later, waves = first :: later →
            first = executions.filter (dependenciesSatisfied [])) := by
  have hexists := invalidDependency_eq_none hvalid
  have hkeys : ∀ id, id ∈ keys.order (execById executions).keys ↔ id ∈ executionIds executions := by
    intro id
    rw [(keys.perm _).mem_iff, BTreeMap.mem_keys, mem_executionIds]
    simp only [get_execById hdistinct]
  have hnodes : ∀ id, ∀ dep ∈ dependenciesOf executions id,
      dep ∈ keys.order (execById executions).keys := by
    intro id dep hdep
    have hedge : Search.Edge (dependenciesOf executions) dep id := hdep
    rw [edge_dependenciesOf hdistinct] at hedge
    obtain ⟨exec, hmem, -, hdep⟩ := hedge
    exact (hkeys dep).mpr (hexists exec hmem dep hdep)
  obtain ⟨start, hdetect, hcycle, hacc⟩ := Search.detectCycle_spec hnodes
  rw [edge_dependenciesOf hdistinct] at hcycle hacc
  rw [resolveDependencies, hvalid]
  dsimp only
  rw [hdetect]
  cases start with
  | some id => exact .inl ⟨hcycle.mp rfl, _, rfl⟩
  | none =>
    refine .inr ⟨fun h => Bool.false_ne_true (hcycle.mpr h), ?_⟩
    have hdeps : ∀ exec ∈ executions, ∀ dep ∈ exec.dependencies,
        dep ∈ ([] : List String) ∨ dep ∈ executionIds executions :=
      fun exec hmem dep hdep => .inr (hexists exec hmem dep hdep)
    obtain ⟨waves, hwaves, hperm, hlayered, hfirst⟩ := buildWaves_spec
      (Nat.le_succ executions.length) (List.Subset.refl executions) hdeps
      (fun exec hmem => hacc rfl _ ((hkeys _).mpr (mem_executionIds.mpr ⟨exec, hmem, rfl⟩)))
    refine ⟨waves, hwaves, ⟨hperm, ?_⟩, hfirst⟩
    rintro before wave after rfl exec hexec dep hdep
    have hbefore := (hlayered.split exec hexec dep hdep).resolve_left List.not_mem_nil
    exact mem_executionIds_flatten.mp hbefore

/-! ## The waves are early -/

theorem buildWaves_le {schedule : String → Nat} {iterations n k : Nat} {completed : List String}
    {remaining wave : List WorkflowExecutionRef} {waves : List (List WorkflowExecutionRef)}
    (hexists : ∀ exec ∈ executions, ∀ dep ∈ exec.dependencies, dep ∈ executionIds executions)
    (hschedule : ∀ dep id, DependsOn executions dep id → schedule dep < schedule id)
    (hsubset : remaining ⊆ executions)
    (hplaced : ∀ exec ∈ executions, exec.executionId ∈ completed ∨ exec ∈ remaining)
    (hn : ∀ exec ∈ remaining, n ≤ schedule exec.executionId)
    (h : buildWaves iterations completed remaining = .ok waves) (hwave : waves[k]? = some wave) :
    ∀ exec ∈ wave, n + k ≤ schedule exec.executionId := by
  induction iterations generalizing remaining completed n waves k with
  | zero =>
    cases remaining <;> cases h
    cases hwave
  | succ iterations ih =>
    cases remaining with
    | nil =>
      cases h
      cases hwave
    | cons first rest =>
      rw [buildWaves] at h
      split_ifs at h
      cases hlater : buildWaves iterations
          (completed ++ executionIds ((first :: rest).filter (dependenciesSatisfied completed)))
          ((first :: rest).filter (!dependenciesSatisfied completed ·)) <;> rw [hlater] at h <;> cases h
      cases k with
      | zero =>
        cases hwave
        exact fun exec hexec => hn exec (List.mem_filter.mp hexec).1
      | succ k =>
        rw [← Nat.add_assoc, Nat.add_right_comm]
        refine ih (fun exec hexec => hsubset (List.mem_filter.mp hexec).1) (fun exec hexec => ?_)
          (fun exec hexec => ?_) hlater hwave
        · refine (hplaced exec hexec).elim (fun hdone => .inl (List.mem_append_left _ hdone)) ?_
          intro hleft
          cases hsatisfied : dependenciesSatisfied completed exec with
          | true => exact .inl (List.mem_append_right _ (mem_executionIds.mpr
              ⟨exec, List.mem_filter.mpr ⟨hleft, hsatisfied⟩, rfl⟩))
          | false => exact .inr (List.mem_filter.mpr ⟨hleft, by rw [hsatisfied]; rfl⟩)
        · -- it waits for one that is not placed, whose time is after this wave's
          obtain ⟨hexec, hwaits⟩ := List.mem_filter.mp hexec
          rw [Bool.not_eq_true', ← Bool.not_eq_true, dependenciesSatisfied_iff] at hwaits
          push Not at hwaits
          obtain ⟨dep, hdep, hnot⟩ := hwaits
          obtain ⟨other, hother, rfl⟩ := mem_executionIds.mp (hexists exec (hsubset hexec) dep hdep)
          exact (hn other ((hplaced other hother).resolve_left hnot)).trans_lt
            (hschedule _ _ ⟨exec, hsubset hexec, rfl, hdep⟩)

/-- **No schedule that keeps to the dependencies is faster**: it has no execution before its wave. -/
theorem resolveDependencies_earliest (keys : HashOrder String)
    (executions : List WorkflowExecutionRef) (schedule : String → Nat)
    (waves : List (List WorkflowExecutionRef)) (h : resolveDependencies keys executions = .ok waves)
    (hschedule : ∀ dep id, DependsOn executions dep id → schedule dep < schedule id) :
    ∀ k wave, waves[k]? = some wave → ∀ exec ∈ wave, k ≤ schedule exec.executionId := by
  intro k wave hwave
  rw [resolveDependencies] at h
  split at h
  · cases h
  · rename_i hvalid
    split at h
    · cases h
    · rw [← Nat.zero_add k]
      exact buildWaves_le (invalidDependency_eq_none hvalid) hschedule (List.Subset.refl _)
        (fun _ hmem => .inr hmem) (fun _ _ => Nat.zero_le _) h hwave

theorem report_earliest : ∃ waves,
    resolveDependencies ⟨id, fun _ => .refl _⟩ [⟨"report", ["extract"]⟩, ⟨"extract", []⟩] = .ok waves ∧
      ∀ k wave, waves[k]? = some wave → ∀ exec ∈ wave,
        k ≤ if exec.executionId = "report" then 1 else 0 := by
  have h : resolveDependencies ⟨id, fun _ => .refl _⟩ [⟨"report", ["extract"]⟩, ⟨"extract", []⟩] =
      .ok [[⟨"extract", []⟩], [⟨"report", ["extract"]⟩]] := by decide +kernel
  refine ⟨_, h, resolveDependencies_earliest _ _ (fun id => if id = "report" then 1 else 0) _ h ?_⟩
  rintro dep id ⟨exec, hmem, rfl, hdep⟩
  obtain rfl | rfl := List.mem_pair.mp hmem
  · obtain rfl := List.mem_singleton.mp hdep
    decide
  · exact absurd hdep List.not_mem_nil

/-! ## What a run does -/

namespace BatchExecutor

variable {executor : BatchExecutor} {config : BatchJobConfig} {run run' : BatchRun}

variable {wave : List WorkflowExecutionRef}

theorem mem_executeWave {id : String} {result : Except String Unit} :
    (id, result) ∈ executor.executeWave wave ↔
      ∃ exec ∈ wave, exec.executionId = id ∧ (executor.outcomes id).result = some result := by
  rw [executeWave, (executor.results.perm _).mem_iff, List.mem_filterMap]
  refine exists_congr fun exec => and_congr_right fun _ => ?_
  rw [Option.map_eq_some_iff]
  constructor
  · rintro ⟨result', hresult, heq⟩
    cases heq
    exact ⟨rfl, hresult⟩
  · rintro ⟨rfl, hresult⟩
    exact ⟨result, hresult, rfl⟩

theorem result_eq_ok {outcome : Outcome} :
    outcome.result = some (.ok ()) ↔ outcome = .success ∨ outcome = .pause := by
  cases outcome <;> simp [Outcome.result]

theorem result_eq_error {outcome : Outcome} {error : String} :
    outcome.result = some (.error error) ↔ outcome = .failure error := by
  cases outcome <;> simp [Outcome.result]

theorem foldl_processResult_of_error (results : List (String × Except String Unit))
    (h : run.error.isSome) : results.foldl (processResult config) run = run := by
  induction results with
  | nil => rfl
  | cons result results ih =>
    have hstep : processResult config run result = run := if_pos h
    rw [List.foldl_cons, hstep]
    exact ih

/-- All results are looked at. -/
structure Processed (results : List (String × Except String Unit)) (run run' : BatchRun) :
    Prop where
  error : run'.error = none
  started : run'.started = run.started
  completed : ∀ id, id ∈ run'.completedIds ↔ id ∈ run.completedIds ∨ (id, .ok ()) ∈ results
  failed : ∀ id, id ∈ run'.failedIds ↔
    id ∈ run.failedIds ∨ ∃ error, (id, .error error) ∈ results

theorem processed_foldl {results : List (String × Except String Unit)} (herror : run.error = none)
    (h : config.stopOnError = false ∨ ∀ id error, (id, .error error) ∉ results) :
    Processed results run (results.foldl (processResult config) run) := by
  induction results generalizing run with
  | nil => exact ⟨herror, rfl, by simp, by simp⟩
  | cons result results ih =>
    have hrest : config.stopOnError = false ∨ ∀ id error, (id, .error error) ∉ results :=
      h.imp_right fun h id error hmem => h id error (List.mem_cons_of_mem _ hmem)
    have hgo : ¬ run.error.isSome = true := by simp [herror]
    obtain ⟨id, outcome⟩ := result
    cases outcome with
    | ok =>
      rw [List.foldl_cons, processResult, if_neg hgo]
      obtain ⟨hnone, hstarted, hcompleted, hfailed⟩ := @ih
        { run with completedIds := run.completedIds ++ [id] } herror hrest
      refine ⟨hnone, hstarted, fun id' => (hcompleted id').trans ?_,
        fun id' => (hfailed id').trans ?_⟩
      · simp [or_assoc]
      · simp
    | error error =>
      have hstop : config.stopOnError = false :=
        h.resolve_right fun h => h id error (List.mem_cons_self ..)
      obtain ⟨hnone, hstarted, hcompleted, hfailed⟩ := @ih
        { run with failedIds := run.failedIds ++ [id], error := none } rfl hrest
      rw [List.foldl_cons, processResult, if_neg hgo, hstop]
      refine ⟨hnone, hstarted, fun id' => (hcompleted id').trans ?_,
        fun id' => (hfailed id').trans ?_⟩
      · simp
      · simp [or_assoc, exists_or]

theorem stopped_foldl {results : List (String × Except String Unit)} (herror : run.error = none)
    (hstop : config.stopOnError = true) {id error : String} (h : (id, .error error) ∈ results) :
    (results.foldl (processResult config) run).error.isSome ∧
      (results.foldl (processResult config) run).started = run.started := by
  induction results generalizing run with
  | nil => exact absurd h List.not_mem_nil
  | cons result results ih =>
    have hgo : ¬ run.error.isSome = true := by simp [herror]
    obtain ⟨id', outcome⟩ := result
    cases outcome with
    | ok =>
      rw [List.foldl_cons, processResult, if_neg hgo]
      have hrest := (List.mem_cons.mp h).resolve_left fun heq => by cases heq
      exact @ih { run with completedIds := run.completedIds ++ [id'] } herror hrest
    | error error' =>
      rw [List.foldl_cons, processResult, if_neg hgo, hstop, if_pos rfl,
        foldl_processResult_of_error _ rfl]
      exact ⟨rfl, rfl⟩

/-- All waves are started. -/
structure Ran (executor : BatchExecutor) (waves : List (List WorkflowExecutionRef))
    (run run' : BatchRun) : Prop where
  error : run'.error = none
  started : run'.started = run.started ++ waves
  completed : ∀ id, id ∈ run'.completedIds ↔ id ∈ run.completedIds ∨
    id ∈ executionIds waves.flatten ∧
      (executor.outcomes id = .success ∨ executor.outcomes id = .pause)
  failed : ∀ id, id ∈ run'.failedIds ↔ id ∈ run.failedIds ∨
    id ∈ executionIds waves.flatten ∧ (executor.outcomes id).Fails

theorem ok_mem_executeWave {id : String} :
    (id, .ok ()) ∈ executor.executeWave wave ↔ id ∈ executionIds wave ∧
      (executor.outcomes id = .success ∨ executor.outcomes id = .pause) := by
  rw [mem_executeWave, mem_executionIds, result_eq_ok]
  simp only [← exists_and_right, and_assoc]

theorem error_mem_executeWave {id : String} :
    (∃ error, (id, .error error) ∈ executor.executeWave wave) ↔
      id ∈ executionIds wave ∧ (executor.outcomes id).Fails := by
  simp only [mem_executeWave, mem_executionIds, result_eq_error, Outcome.Fails]
  constructor
  · rintro ⟨error, exec, hmem, hid, hfails⟩
    exact ⟨⟨exec, hmem, hid⟩, error, hfails⟩
  · rintro ⟨⟨exec, hmem, hid⟩, error, hfails⟩
    exact ⟨error, exec, hmem, hid, hfails⟩

/-- **Without a failure that stops the job** every wave is run. -/
theorem ran_executeWaves {waves : List (List WorkflowExecutionRef)} (herror : run.error = none)
    (h : config.stopOnError = false ∨
      ∀ id ∈ executionIds waves.flatten, ¬ (executor.outcomes id).Fails) :
    Ran executor waves run (executor.executeWaves config waves run) := by
  induction waves generalizing run with
  | nil =>
    have hnone : ∀ id, id ∉ executionIds ([] : List (List WorkflowExecutionRef)).flatten :=
      fun _ => List.not_mem_nil
    exact ⟨herror, (List.append_nil _).symm,
      fun id => (or_iff_left fun h => hnone id h.1).symm,
      fun id => (or_iff_left fun h => hnone id h.1).symm⟩
  | cons wave waves ih =>
    have hids : ∀ id, id ∈ executionIds (wave :: waves).flatten ↔
        id ∈ executionIds wave ∨ id ∈ executionIds waves.flatten := by
      intro id
      rw [executionIds, List.flatten_cons, List.map_append, List.mem_append]
      rfl
    have hwave : config.stopOnError = false ∨
        ∀ id error, (id, .error error) ∉ executor.executeWave wave := by
      refine h.imp_right fun h id error hmem => ?_
      obtain ⟨hid, hfails⟩ := error_mem_executeWave.mp ⟨error, hmem⟩
      exact h id ((hids id).mpr (.inl hid)) hfails
    have hrest : config.stopOnError = false ∨
        ∀ id ∈ executionIds waves.flatten, ¬ (executor.outcomes id).Fails :=
      h.imp_right fun h id hid => h id ((hids id).mpr (.inr hid))
    have hprocessed : Processed (executor.executeWave wave)
        { run with started := run.started ++ [wave] } _ := processed_foldl herror hwave
    rw [executeWaves, if_neg (by rw [hprocessed.error]; exact Bool.false_ne_true)]
    obtain ⟨hnone, hstarted, hcompleted, hfailed⟩ := ih hprocessed.error hrest
    refine ⟨hnone, ?_, fun id => ?_, fun id => ?_⟩
    · rw [hstarted, hprocessed.started, List.append_assoc]
      rfl
    · rw [hcompleted, hprocessed.completed, ok_mem_executeWave, hids, or_assoc, or_and_right]
    · rw [hfailed, hprocessed.failed, error_mem_executeWave, hids, or_assoc, or_and_right]

/-- **The first wave with a failure** is the last one where failures stop the job. -/
theorem stopped_executeWaves {before after : List (List WorkflowExecutionRef)}
    {wave : List WorkflowExecutionRef} (herror : run.error = none)
    (hstop : config.stopOnError = true)
    (hbefore : ∀ id ∈ executionIds before.flatten, ¬ (executor.outcomes id).Fails)
    {id : String} (hid : id ∈ executionIds wave) (hfails : (executor.outcomes id).Fails) :
    (executor.executeWaves config (before ++ wave :: after) run).error.isSome ∧
      (executor.executeWaves config (before ++ wave :: after) run).started =
        run.started ++ before ++ [wave] := by
  induction before generalizing run with
  | nil =>
    obtain ⟨error, hmem⟩ := error_mem_executeWave.mpr ⟨hid, hfails⟩
    obtain ⟨hsome, hstarted⟩ :=
      @stopped_foldl config { run with started := run.started ++ [wave] } _ herror hstop _ _ hmem
    rw [List.nil_append, executeWaves, if_pos hsome, List.append_nil]
    exact ⟨hsome, hstarted⟩
  | cons first before ih =>
    have hids : ∀ id, id ∈ executionIds first ∨ id ∈ executionIds before.flatten →
        id ∈ executionIds (first :: before).flatten := by
      intro id hid
      rw [executionIds, List.flatten_cons, List.map_append, List.mem_append]
      exact hid
    have hfirst : ∀ id error, (id, .error error) ∉ executor.executeWave first := by
      intro id error hmem
      obtain ⟨hid, hfails⟩ := error_mem_executeWave.mp ⟨error, hmem⟩
      exact hbefore id (hids id (.inl hid)) hfails
    have hprocessed : Processed (executor.executeWave first)
        { run with started := run.started ++ [first] } _ :=
      @processed_foldl config _ _ herror (.inr hfirst)
    rw [List.cons_append, executeWaves, if_neg (by rw [hprocessed.error]; exact Bool.false_ne_true)]
    obtain ⟨hsome, hstarted⟩ := ih hprocessed.error fun id hid => hbefore id (hids id (.inr hid))
    refine ⟨hsome, hstarted.trans ?_⟩
    rw [hprocessed.started]
    simp

end BatchExecutor

/-! ## The property -/

/-- Dependencies are resolved, and a run keeps to them and reports what happened. -/
structure Respects (executor : BatchExecutor) (job : BatchJob) : Prop where
  cycle : (∃ error, resolveDependencies executor.keys job.workflowExecutions = .error error) ↔
    HasCycle job.workflowExecutions
  placed : ∀ waves, resolveDependencies executor.keys job.workflowExecutions = .ok waves →
    Placed job.workflowExecutions waves
  starts : ∀ before wave after, (executor.execute job).run.started = before ++ wave :: after →
    ∀ exec ∈ wave, ∀ dep ∈ exec.dependencies,
      executor.outcomes dep = .success ∧ ∃ earlier ∈ before, dep ∈ executionIds earlier
  completed : (executor.execute job).status = .Completed → ∀ exec ∈ job.workflowExecutions,
    exec ∈ (executor.execute job).run.started.flatten ∧
      executor.outcomes exec.executionId = .success
  failed : (executor.execute job).status = .Failed →
    ∀ exec ∈ (executor.execute job).run.started.flatten,
      executor.outcomes exec.executionId ≠ .success

/-- The condition on the outcomes. -/
def Settles (executor : BatchExecutor) (job : BatchJob) : Prop :=
  HasCycle job.workflowExecutions ∨
    (∀ exec ∈ job.workflowExecutions, executor.outcomes exec.executionId = .success) ∨
    if job.config.stopOnError then
      (∃ exec ∈ job.workflowExecutions, exec.dependencies = [] ∧
        (executor.outcomes exec.executionId).Fails) ∧
      ∀ exec ∈ job.workflowExecutions, exec.dependencies = [] →
        executor.outcomes exec.executionId ≠ .success
    else
      (∃ exec ∈ job.workflowExecutions, (executor.outcomes exec.executionId).Fails) ∧
      ∀ exec ∈ job.workflowExecutions, ∀ dep ∈ exec.dependencies,
        executor.outcomes dep = .success

section

variable {executor : BatchExecutor} {job : BatchJob}

theorem validate_ok (h : job.validate = .ok ()) :
    invalidDependency job.workflowExecutions = none := by
  rw [BatchJob.validate] at h
  split_ifs at h
  split at h
  · exact nomatch h
  · assumption

variable (hvalid : job.validate = .ok ())

include hvalid

theorem execute_of_waves {waves : List (List WorkflowExecutionRef)}
    (hwaves : resolveDependencies executor.keys job.workflowExecutions = .ok waves) :
    (executor.execute job).run = executor.executeWaves job.config waves .new ∧
      (executor.execute job).status =
        (executor.executeWaves job.config waves .new).finalStatus := by
  rw [BatchExecutor.execute, hvalid]
  dsimp only
  rw [hwaves]
  exact ⟨rfl, rfl⟩

theorem respects_of_cycle (hcycle : HasCycle job.workflowExecutions) {error : String}
    (herror : resolveDependencies executor.keys job.workflowExecutions = .error error) :
    Respects executor job := by
  have hexecute : executor.execute job = ⟨.error error, .Running, .new⟩ := by
    rw [BatchExecutor.execute, hvalid]
    dsimp only
    rw [herror]
  refine ⟨iff_of_true ⟨error, herror⟩ hcycle, fun waves hwaves => ?_, ?_, ?_, ?_⟩
  · rw [herror] at hwaves
    exact nomatch hwaves
  · intro before wave after hstarted
    rw [hexecute] at hstarted
    exact absurd hstarted.symm (by simp [BatchRun.new])
  · rw [hexecute]
    exact fun h => nomatch h
  · rw [hexecute]
    exact fun h => nomatch h

variable {waves : List (List WorkflowExecutionRef)}

/-- **A run that is not stopped** starts all waves. -/
theorem respects_of_ran (hcycle : ¬ HasCycle job.workflowExecutions)
    (hwaves : resolveDependencies executor.keys job.workflowExecutions = .ok waves)
    (hplaced : Placed job.workflowExecutions waves) (hgoes : job.config.stopOnError = false ∨
      ∀ exec ∈ job.workflowExecutions, ¬ (executor.outcomes exec.executionId).Fails) :
    Respects executor job ↔ Settles executor job := by
  have hmem : ∀ exec, exec ∈ waves.flatten ↔ exec ∈ job.workflowExecutions :=
    fun exec => hplaced.perm.mem_iff
  have hids : ∀ id, id ∈ executionIds waves.flatten ↔ id ∈ executionIds job.workflowExecutions :=
    fun id => (hplaced.perm.map _).mem_iff
  obtain ⟨hrun, hstatus⟩ := execute_of_waves hvalid hwaves
  have hran : BatchExecutor.Ran executor waves .new
      (executor.executeWaves job.config waves .new) := by
    refine BatchExecutor.ran_executeWaves rfl (hgoes.imp_right fun h id hid => ?_)
    obtain ⟨exec, hexec, rfl⟩ := mem_executionIds.mp ((hids id).mp hid)
    exact h exec hexec
  have hstarted : (executor.execute job).run.started = waves := by
    rw [hrun, hran.started]
    rfl
  have hfailed : (executor.executeWaves job.config waves .new).failedIds = [] ↔
      ∀ exec ∈ job.workflowExecutions, ¬ (executor.outcomes exec.executionId).Fails := by
    rw [List.eq_nil_iff_forall_not_mem]
    constructor
    · intro h exec hexec hfails
      exact h exec.executionId ((hran.failed _).mpr
        (.inr ⟨(hids _).mpr (mem_executionIds.mpr ⟨exec, hexec, rfl⟩), hfails⟩))
    · intro h id hid
      obtain ⟨hid, hfails⟩ := ((hran.failed id).mp hid).resolve_left List.not_mem_nil
      obtain ⟨exec, hexec, rfl⟩ := mem_executionIds.mp ((hids id).mp hid)
      exact h exec hexec hfails
  have hdeps : ∀ exec ∈ job.workflowExecutions, ∀ dep ∈ exec.dependencies,
      dep ∈ executionIds job.workflowExecutions := invalidDependency_eq_none (validate_ok hvalid)
  constructor
  · intro h
    by_cases hnone : ∀ exec ∈ job.workflowExecutions, ¬ (executor.outcomes exec.executionId).Fails
    · refine .inr (.inl fun exec hexec => (h.completed ?_ exec hexec).2)
      rw [hstatus, BatchRun.finalStatus, if_neg (by simp [hran.error]),
        if_pos (hfailed.mpr hnone)]
    · have hstop : job.config.stopOnError = false := hgoes.resolve_right hnone
      push Not at hnone
      refine .inr (.inr ?_)
      rw [if_neg (by simp [hstop])]
      refine ⟨hnone, fun exec hexec dep hdep => ?_⟩
      obtain ⟨wave, hwave, hin⟩ := List.mem_flatten.mp ((hmem exec).mpr hexec)
      obtain ⟨before, after, hsplit⟩ := List.append_of_mem hwave
      exact (h.starts before wave after (hstarted.trans hsplit) exec hin dep hdep).1
  · intro h
    -- dependencies succeed, and without a failure everything does
    obtain ⟨hdep, hall⟩ : (∀ exec ∈ job.workflowExecutions, ∀ dep ∈ exec.dependencies,
        executor.outcomes dep = .success) ∧
        ((∀ exec ∈ job.workflowExecutions, ¬ (executor.outcomes exec.executionId).Fails) →
          ∀ exec ∈ job.workflowExecutions,
            executor.outcomes exec.executionId = .success) := by
      obtain hcycle' | hall | hlast := h
      · exact absurd hcycle' hcycle
      · refine ⟨fun exec hexec dep hdep => ?_, fun _ => hall⟩
        obtain ⟨other, hother, rfl⟩ := mem_executionIds.mp (hdeps exec hexec dep hdep)
        exact hall other hother
      · split_ifs at hlast with hstop
        · obtain ⟨⟨exec, hexec, -, hfails⟩, -⟩ := hlast
          have hnone := hgoes.resolve_left (by simp [hstop])
          exact absurd hfails (hnone exec hexec)
        · obtain ⟨⟨exec, hexec, hfails⟩, hdep⟩ := hlast
          exact ⟨hdep, fun hnone => absurd hfails (hnone exec hexec)⟩
    refine ⟨iff_of_false ?_ hcycle, fun waves' hwaves' => ?_, ?_, ?_, ?_⟩
    · rintro ⟨error, herror⟩
      rw [hwaves] at herror
      exact nomatch herror
    · rw [hwaves] at hwaves'
      cases hwaves'
      exact hplaced
    · intro before wave after hsplit exec hexec dep hdep'
      rw [hstarted] at hsplit
      have hin : exec ∈ job.workflowExecutions := by
        rw [← hmem, hsplit]
        exact List.mem_flatten.mpr ⟨wave, List.mem_append_right _ (List.mem_cons_self ..), hexec⟩
      exact ⟨hdep exec hin dep hdep', hplaced.after before wave after hsplit exec hexec dep hdep'⟩
    · intro hcompleted exec hexec
      rw [hstarted, hmem]
      refine ⟨hexec, hall (hfailed.mp ?_) exec hexec⟩
      rw [hstatus, BatchRun.finalStatus,
        if_neg (by simp [hran.error])] at hcompleted
      split_ifs at hcompleted with hempty
      exact hempty
    · intro hfailedStatus exec hexec hsuccess
      rw [hstarted] at hexec
      rw [hstatus, BatchRun.finalStatus,
        if_neg (by simp [hran.error])] at hfailedStatus
      split_ifs at hfailedStatus with hempty hnone
      have hin : exec.executionId ∈ (executor.executeWaves job.config waves .new).completedIds :=
        (hran.completed _).mpr (.inr ⟨mem_executionIds.mpr ⟨exec, hexec, rfl⟩, .inl hsuccess⟩)
      rw [hnone] at hin
      exact List.not_mem_nil hin


omit hvalid

theorem exists_first_failure {id : String} (hid : id ∈ executionIds waves.flatten)
    (hfails : (executor.outcomes id).Fails) :
    ∃ before wave after, waves = before ++ wave :: after ∧
      (∀ id ∈ executionIds before.flatten, ¬ (executor.outcomes id).Fails) ∧
      ∃ id ∈ executionIds wave, (executor.outcomes id).Fails := by
  induction waves with
  | nil => exact absurd hid List.not_mem_nil
  | cons first waves ih =>
    by_cases hfirst : ∃ id ∈ executionIds first, (executor.outcomes id).Fails
    · exact ⟨[], first, waves, rfl, fun _ hmem => absurd hmem List.not_mem_nil, hfirst⟩
    · obtain ⟨wave, hwave, hin⟩ := mem_executionIds_flatten.mp hid
      have hlater : wave ∈ waves := by
        refine (List.mem_cons.mp hwave).resolve_left ?_
        rintro rfl
        exact hfirst ⟨id, hin, hfails⟩
      obtain ⟨before, last, after, rfl, hbefore, hlast⟩ :=
        ih (mem_executionIds_flatten.mpr ⟨wave, hlater, hin⟩)
      refine ⟨first :: before, last, after, rfl, fun id' hid' hfails' => ?_, hlast⟩
      obtain ⟨wave', hwave', hin'⟩ := mem_executionIds_flatten.mp hid'
      obtain rfl | hmem := List.mem_cons.mp hwave'
      · exact hfirst ⟨id', hin', hfails'⟩
      · exact hbefore id' (mem_executionIds_flatten.mpr ⟨wave', hmem, hin'⟩) hfails'

theorem mem_first {exec : WorkflowExecutionRef} :
    exec ∈ executions.filter (dependenciesSatisfied []) ↔
      exec ∈ executions ∧ exec.dependencies = [] := by
  rw [List.mem_filter, dependenciesSatisfied_iff, List.eq_nil_iff_forall_not_mem]
  simp only [List.not_mem_nil, imp_false]

/-- **A run that is stopped** keeps to the property if it stops in the first wave, without a
success there. -/
theorem respects_of_stopped (hvalid : job.validate = .ok ())
    (hcycle : ¬ HasCycle job.workflowExecutions)
    (hwaves : resolveDependencies executor.keys job.workflowExecutions = .ok waves)
    (hplaced : Placed job.workflowExecutions waves)
    (hfirst : ∀ first later, waves = first :: later →
      first = job.workflowExecutions.filter (dependenciesSatisfied []))
    (hstop : job.config.stopOnError = true) {failing : WorkflowExecutionRef}
    (hfailing : failing ∈ job.workflowExecutions)
    (hfails : (executor.outcomes failing.executionId).Fails) :
    Respects executor job ↔ Settles executor job := by
  have hmem : ∀ exec, exec ∈ waves.flatten ↔ exec ∈ job.workflowExecutions :=
    fun exec => hplaced.perm.mem_iff
  obtain ⟨before, wave, after, hsplit, hbefore, id, hid, hidFails⟩ :=
    exists_first_failure (mem_executionIds.mpr ⟨failing, (hmem failing).mpr hfailing, rfl⟩) hfails
  obtain ⟨hrun, hstatus⟩ := execute_of_waves hvalid hwaves
  obtain ⟨hsome, hstarted⟩ := @BatchExecutor.stopped_executeWaves executor job.config .new before
    after wave rfl hstop hbefore id hid hidFails
  rw [← hsplit] at hsome hstarted
  rw [← hrun] at hstarted
  have hfailed : (executor.execute job).status = .Failed := by
    rw [hstatus, BatchRun.finalStatus, if_pos hsome]
  -- all executions without dependencies are started, in the first wave
  have hhead : ∀ exec ∈ job.workflowExecutions, exec.dependencies = [] →
      exec ∈ (before ++ [wave]).flatten := by
    intro exec hexec hnone
    have hin : exec ∈ job.workflowExecutions.filter (dependenciesSatisfied []) :=
      mem_first.mpr ⟨hexec, hnone⟩
    cases before with
    | nil =>
      rw [← hfirst wave after hsplit] at hin
      exact List.mem_flatten.mpr ⟨wave, List.mem_cons_self .., hin⟩
    | cons first before =>
      rw [← hfirst first _ hsplit] at hin
      exact List.mem_flatten.mpr ⟨first, List.mem_cons_self .., hin⟩
  constructor
  · intro h
    have hnoSuccess : ∀ exec ∈ (before ++ [wave]).flatten,
        executor.outcomes exec.executionId ≠ .success := by
      intro exec hexec
      refine h.failed hfailed exec ?_
      rw [hstarted]
      exact hexec
    refine .inr (.inr ?_)
    rw [if_pos hstop]
    refine ⟨?_, fun exec hexec hnone => hnoSuccess exec (hhead exec hexec hnone)⟩
    obtain ⟨exec, hexec, rfl⟩ := mem_executionIds.mp hid
    have hjob : exec ∈ job.workflowExecutions := by
      rw [← hmem, hsplit]
      exact List.mem_flatten.mpr ⟨wave, List.mem_append_right _ (List.mem_cons_self ..), hexec⟩
    refine ⟨exec, hjob, ?_, hidFails⟩
    rw [List.eq_nil_iff_forall_not_mem]
    intro dep hdep
    -- a dependency has succeeded, in a wave that was started
    obtain ⟨hsuccess, earlier, hearlier, hin⟩ :=
      h.starts before wave [] hstarted exec hexec dep hdep
    obtain ⟨other, hother, rfl⟩ := mem_executionIds.mp hin
    exact hnoSuccess other
      (List.mem_flatten.mpr ⟨earlier, List.mem_append_left _ hearlier, hother⟩) hsuccess
  · intro h
    obtain hcycle' | hall | hlast := h
    · exact absurd hcycle' hcycle
    · obtain ⟨error, herror⟩ := hfails
      rw [hall failing hfailing] at herror
      exact nomatch herror
    rw [if_pos hstop] at hlast
    obtain ⟨⟨root, hroot, hnone, hrootFails⟩, hnoSuccess⟩ := hlast
    have hnil : before = [] := by
      cases before with
      | nil => rfl
      | cons first before =>
        have hin : root ∈ first := by
          rw [hfirst first _ hsplit]
          exact mem_first.mpr ⟨hroot, hnone⟩
        have hrootId : root.executionId ∈ executionIds (first :: before).flatten :=
          mem_executionIds_flatten.mpr
            ⟨first, List.mem_cons_self .., mem_executionIds.mpr ⟨root, hin, rfl⟩⟩
        exact absurd hrootFails (hbefore _ hrootId)
    subst hnil
    have honly : ∀ exec ∈ wave, exec ∈ job.workflowExecutions ∧ exec.dependencies = [] := by
      intro exec hexec
      rw [hfirst wave after hsplit] at hexec
      exact mem_first.mp hexec
    have hstarted' : (executor.execute job).run.started = [wave] := hstarted
    refine ⟨iff_of_false ?_ hcycle, fun waves' hwaves' => ?_, ?_, ?_, ?_⟩
    · rintro ⟨error, herror⟩
      rw [hwaves] at herror
      exact nomatch herror
    · rw [hwaves] at hwaves'
      cases hwaves'
      exact hplaced
    · intro before' wave' after' hsplit' exec hexec dep hdep
      have hin : wave' ∈ [wave] := by
        rw [← hstarted', hsplit']
        exact List.mem_append_right _ (List.mem_cons_self ..)
      rw [List.mem_singleton.mp hin] at hexec
      rw [(honly exec hexec).2] at hdep
      exact absurd hdep List.not_mem_nil
    · intro hcompleted
      rw [hfailed] at hcompleted
      exact nomatch hcompleted
    · intro _ exec hexec
      rw [hstarted', List.flatten_singleton] at hexec
      exact hnoSuccess exec (honly exec hexec).1 (honly exec hexec).2

/-- **When a batch job respects its dependencies and reports the truth.** -/
theorem respects_iff (hvalid : job.validate = .ok ())
    (hdistinct : (executionIds job.workflowExecutions).Nodup) :
    Respects executor job ↔ Settles executor job := by
  obtain ⟨hcycle, error, herror⟩ | ⟨hcycle, waves, hwaves, hplaced, hfirst⟩ :=
    resolveDependencies_spec executor.keys hdistinct (validate_ok hvalid)
  · exact iff_of_true (respects_of_cycle hvalid hcycle herror) (.inl hcycle)
  by_cases hgoes : job.config.stopOnError = false ∨
      ∀ exec ∈ job.workflowExecutions, ¬ (executor.outcomes exec.executionId).Fails
  · exact respects_of_ran hvalid hcycle hwaves hplaced hgoes
  · push Not at hgoes
    obtain ⟨hstop, failing, hfailing, hfails⟩ := hgoes
    exact respects_of_stopped hvalid hcycle hwaves hplaced hfirst
      (Bool.eq_true_of_not_eq_false hstop) hfailing hfails

end

def chainJob (stopOnError : Bool) : BatchJob where
  name := "nightly"
  workflowId := "load"
  status := .Pending
  config := ⟨4, stopOnError⟩
  workflowExecutions := [⟨"extract", []⟩, ⟨"report", ["extract"]⟩]

def firstEnds (outcome : Outcome) : BatchExecutor where
  keys := ⟨id, fun _ => .refl _⟩
  results := ⟨id, fun _ => .refl _⟩
  outcomes := fun id => if id = "extract" then outcome else .success

theorem chain_respects_iff :
    Respects (firstEnds .pause) (chainJob true) ↔ Settles (firstEnds .pause) (chainJob true) :=
  respects_iff rfl (by decide)

/-- A failed dependency does not keep the execution that needs it from its start. -/
theorem report_after_failure :
    ¬ Respects (firstEnds (.failure "no source")) (chainJob false) := by
  intro h
  have hstarted : ((firstEnds (.failure "no source")).execute (chainJob false)).run.started =
      [[⟨"extract", []⟩]] ++ [⟨"report", ["extract"]⟩] :: [] := by decide +kernel
  obtain ⟨hsuccess, -⟩ := h.starts _ _ _ hstarted ⟨"report", ["extract"]⟩ (by decide) "extract"
    (by decide)
  exact absurd hsuccess (by decide)

end Arcxa.Engine
