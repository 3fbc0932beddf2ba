import Arcxa.Lib.Transition

/-!
# The circuit breaker

`call` asks `should_allow_request`, runs the request and records how it ended. The three
calls are atomic, since each takes the write lock for its whole body, and any number of
requests are between their admission and their end.

A request does not remember when it was admitted, and a request that is dropped records
nothing. The system below remembers it for them: `inFlight`, `period`, `ownSuccesses` and
`closings` are ghost fields. The counter of half-open requests is exact as long as the
requests that end successfully in a half-open period were admitted in it and none of its
requests is dropped in it (`halfOpen_exact`).
-/

namespace Arcxa.Kafka

inductive CircuitState where
  | Closed
  | Open
  | HalfOpen
  deriving DecidableEq

/-- Times are in milliseconds. -/
structure CircuitBreakerConfig where
  failureThreshold : Nat
  successThreshold : Nat
  timeout : Nat
  halfOpenMaxRequests : Nat
  deriving DecidableEq

namespace CircuitBreakerConfig

def production : CircuitBreakerConfig where
  failureThreshold := 5
  successThreshold := 3
  timeout := 30000
  halfOpenMaxRequests := 3

end CircuitBreakerConfig

/-- The state behind the lock, and the metrics. -/
structure CircuitBreaker where
  state : CircuitState
  consecutiveFailures : Nat
  consecutiveSuccesses : Nat
  openedAt : Option Nat
  halfOpenRequests : Nat
  totalFailures : Nat
  totalSuccesses : Nat
  stateTransitions : Nat
  deriving DecidableEq

namespace CircuitBreaker

def new : CircuitBreaker where
  state := .Closed
  consecutiveFailures := 0
  consecutiveSuccesses := 0
  openedAt := none
  halfOpenRequests := 0
  totalFailures := 0
  totalSuccesses := 0
  stateTransitions := 0

variable (config : CircuitBreakerConfig) (now : Nat)

def timedOut (cb : CircuitBreaker) : Bool :=
  cb.state == .Open && cb.openedAt.any (fun openedAt => decide (config.timeout ≤ now - openedAt))

def checkTimeout (cb : CircuitBreaker) : CircuitBreaker :=
  if cb.timedOut config now then
    { cb with
      state := .HalfOpen
      consecutiveSuccesses := 0
      halfOpenRequests := 0
      stateTransitions := cb.stateTransitions + 1 }
  else cb

def shouldAllowRequest (cb : CircuitBreaker) : Bool × CircuitBreaker :=
  let cb := cb.checkTimeout config now
  match cb.state with
  | .Closed => (true, cb)
  | .Open => (false, cb)
  | .HalfOpen =>
    if cb.halfOpenRequests < config.halfOpenMaxRequests then
      (true, { cb with halfOpenRequests := cb.halfOpenRequests + 1 })
    else (false, cb)

def recordSuccess (cb : CircuitBreaker) : CircuitBreaker :=
  let cb := { cb with totalSuccesses := cb.totalSuccesses + 1 }
  match cb.state with
  | .Closed => { cb with consecutiveFailures := 0 }
  | .HalfOpen =>
    let cb :=
      { cb with
        consecutiveSuccesses := cb.consecutiveSuccesses + 1
        halfOpenRequests := cb.halfOpenRequests - 1 }
    if config.successThreshold ≤ cb.consecutiveSuccesses then
      { cb with
        state := .Closed
        consecutiveFailures := 0
        consecutiveSuccesses := 0
        openedAt := none
        stateTransitions := cb.stateTransitions + 1 }
    else cb
  | .Open => cb

def recordFailure (cb : CircuitBreaker) : CircuitBreaker :=
  let cb := { cb with totalFailures := cb.totalFailures + 1 }
  match cb.state with
  | .Closed =>
    let cb :=
      { cb with
        consecutiveFailures := cb.consecutiveFailures + 1
        consecutiveSuccesses := 0 }
    if config.failureThreshold ≤ cb.consecutiveFailures then
      { cb with
        state := .Open
        openedAt := some now
        stateTransitions := cb.stateTransitions + 1 }
    else cb
  | .HalfOpen =>
    { cb with
      halfOpenRequests := cb.halfOpenRequests - 1
      state := .Open
      consecutiveFailures := config.failureThreshold
      consecutiveSuccesses := 0
      openedAt := some now
      stateTransitions := cb.stateTransitions + 1 }
  | .Open => { cb with consecutiveFailures := cb.consecutiveFailures + 1 }

end CircuitBreaker

/-! ## Requests in flight -/

/-- When a request was admitted: with a closed circuit, or in the half-open period of the given
number. -/
inductive Admission where
  | closed
  | halfOpen (period : Nat)
  deriving DecidableEq

structure BreakerSystem where
  breaker : CircuitBreaker
  now : Nat
  /-- The number of half-open periods so far. -/
  period : Nat
  /-- The admitted requests that have not ended. -/
  inFlight : List Admission
  /-- The successes of the current period by requests admitted in it. -/
  ownSuccesses : Nat
  /-- The own successes at each transition from HALF-OPEN to CLOSED. -/
  closings : List Nat
  deriving DecidableEq

inductive BreakerAction where
  | tick (elapsed : Nat)
  | call
  | succeed (request : Admission)
  | fail (request : Admission)
  | drop (request : Admission)
  deriving DecidableEq

namespace BreakerSystem

def new : BreakerSystem where
  breaker := .new
  now := 0
  period := 0
  inFlight := []
  ownSuccesses := 0
  closings := []

variable (config : CircuitBreakerConfig)

def admission (s : BreakerSystem) : Admission :=
  if s.breaker.state = .HalfOpen then .halfOpen s.period else .closed

def enterPeriod (s : BreakerSystem) : BreakerSystem :=
  if s.breaker.timedOut config s.now then { s with period := s.period + 1, ownSuccesses := 0 }
  else s

/-- `should_allow_request` at the start of a `call`. -/
def call (s : BreakerSystem) : BreakerSystem :=
  let r := s.breaker.shouldAllowRequest config s.now
  let s' := { s.enterPeriod config with breaker := r.2 }
  if r.1 then { s' with inFlight := s'.admission :: s'.inFlight } else s'

def isOwn (s : BreakerSystem) (request : Admission) : Bool :=
  s.breaker.state == .HalfOpen && request == .halfOpen s.period

/-- `record_success` at the end of a `call`. -/
def succeed (s : BreakerSystem) (request : Admission) : BreakerSystem :=
  let own := if s.isOwn request then s.ownSuccesses + 1 else s.ownSuccesses
  let breaker := s.breaker.recordSuccess config
  { s with
    breaker
    inFlight := s.inFlight.erase request
    ownSuccesses := own
    closings := if s.breaker.state = .HalfOpen ∧ breaker.state = .Closed then own :: s.closings
      else s.closings }

def step (s : BreakerSystem) : BreakerAction → Option BreakerSystem
  | .tick elapsed => some { s with now := s.now + elapsed }
  | .call => some (s.call config)
  | .succeed request => if request ∈ s.inFlight then some (s.succeed config request) else none
  | .fail request =>
    if request ∈ s.inFlight then
      some
        { s with
          breaker := s.breaker.recordFailure config s.now
          inFlight := s.inFlight.erase request }
    else none
  | .drop request =>
    if request ∈ s.inFlight then some { s with inFlight := s.inFlight.erase request } else none

def ownInFlight (s : BreakerSystem) : Nat := s.inFlight.count (.halfOpen s.period)

/-- Half-open admission is exact. -/
structure Exact (s : BreakerSystem) : Prop where
  counter : s.breaker.state = .HalfOpen → s.breaker.halfOpenRequests = s.ownInFlight
  limit : s.breaker.state = .HalfOpen → s.ownInFlight ≤ config.halfOpenMaxRequests
  closings : ∀ n ∈ s.closings, config.successThreshold ≤ n

def EndsInPeriod (s : BreakerSystem) : BreakerAction → Prop
  | .succeed request => s.breaker.state = .HalfOpen → request = .halfOpen s.period
  | .drop request => s.breaker.state = .HalfOpen → request ≠ .halfOpen s.period
  | _ => True

instance (s : BreakerSystem) (action : BreakerAction) : Decidable (s.EndsInPeriod action) :=
  match action with
  | .succeed _ => inferInstanceAs (Decidable (_ = _ → _ = _))
  | .drop _ => inferInstanceAs (Decidable (_ = _ → _ ≠ _))
  | .tick _ => isTrue trivial
  | .call => isTrue trivial
  | .fail _ => isTrue trivial

/-! ## The invariant -/

/-- What makes `Exact` inductive: no request is from a period to come, and the breaker counts no
success that is not of the period. -/
structure Inv (s : BreakerSystem) : Prop where
  exact : s.Exact config
  past : ∀ p, .halfOpen p ∈ s.inFlight → p ≤ s.period
  successes : s.breaker.state = .HalfOpen → s.breaker.consecutiveSuccesses ≤ s.ownSuccesses

variable {config}

theorem inv_new : Inv config new where
  exact :=
    { counter := fun h => by cases h
      limit := fun h => by cases h
      closings := fun n hn => by cases hn }
  past p hp := by cases hp
  successes h := by cases h

variable {s : BreakerSystem}

theorem ownInFlight_erase_of_ne {request : Admission}
    (h : request ≠ .halfOpen s.period) :
    (s.inFlight.erase request).count (.halfOpen s.period) = s.ownInFlight :=
  List.count_erase_of_ne (Ne.symm h)

theorem past_erase (hpast : ∀ p, .halfOpen p ∈ s.inFlight → p ≤ s.period)
    (request : Admission) : ∀ p, .halfOpen p ∈ s.inFlight.erase request → p ≤ s.period :=
  fun p hp => hpast p (List.mem_of_mem_erase hp)

theorem count_next_period
    (hpast : ∀ p, .halfOpen p ∈ s.inFlight → p ≤ s.period) :
    s.inFlight.count (.halfOpen (s.period + 1)) = 0 := by
  apply List.count_eq_zero_of_not_mem
  intro hmem
  have hle := hpast _ hmem
  omega

open CircuitBreaker

theorem call_of_timedOut (h : s.breaker.timedOut config s.now = true) :
    (s.call config).breaker.state = .HalfOpen ∧
      (s.call config).breaker.consecutiveSuccesses = 0 ∧
      (s.call config).period = s.period + 1 ∧ (s.call config).closings = s.closings ∧
      ((0 < config.halfOpenMaxRequests ∧ (s.call config).breaker.halfOpenRequests = 1 ∧
          (s.call config).inFlight = .halfOpen (s.period + 1) :: s.inFlight) ∨
        ((s.call config).breaker.halfOpenRequests = 0 ∧ (s.call config).inFlight = s.inFlight)) := by
  by_cases hmax : 0 < config.halfOpenMaxRequests <;>
    simp [call, enterPeriod, shouldAllowRequest, checkTimeout, h,
      hmax, admission]

theorem call_of_not_timedOut (h : s.breaker.timedOut config s.now = false) :
    (s.call config).period = s.period ∧ (s.call config).closings = s.closings ∧
      (s.call config).ownSuccesses = s.ownSuccesses ∧
      (s.call config).breaker.state = s.breaker.state ∧
      (s.call config).breaker.consecutiveSuccesses = s.breaker.consecutiveSuccesses ∧
      ((s.breaker.state = .Closed ∧ (s.call config).inFlight = .closed :: s.inFlight) ∨
        (s.breaker.state = .HalfOpen ∧
          s.breaker.halfOpenRequests < config.halfOpenMaxRequests ∧
          (s.call config).breaker.halfOpenRequests = s.breaker.halfOpenRequests + 1 ∧
          (s.call config).inFlight = .halfOpen s.period :: s.inFlight) ∨
        (s.breaker.state ≠ .Closed ∧
          (s.call config).breaker.halfOpenRequests = s.breaker.halfOpenRequests ∧
          (s.call config).inFlight = s.inFlight)) := by
  cases hstate : s.breaker.state with
  | Closed =>
    simp [call, enterPeriod, shouldAllowRequest, checkTimeout, h,
      hstate, admission]
  | Open =>
    simp [call, enterPeriod, shouldAllowRequest, checkTimeout, h,
      hstate]
  | HalfOpen =>
    by_cases hmax : s.breaker.halfOpenRequests < config.halfOpenMaxRequests <;>
      simp [call, enterPeriod, shouldAllowRequest, checkTimeout, h,
        hstate, hmax, admission]

theorem inv_call (hinv : Inv config s) : Inv config (s.call config) := by
  cases htimeout : s.breaker.timedOut config s.now with
  | true =>
    obtain ⟨hstate, hsucc, hperiod, hclosings, hcase⟩ := call_of_timedOut htimeout
    have hzero := count_next_period hinv.past
    refine ⟨⟨fun _ => ?_, fun _ => ?_, hclosings ▸ hinv.exact.closings⟩, ?_, fun _ => by omega⟩
    · rcases hcase with ⟨-, hcount, hflight⟩ | ⟨hcount, hflight⟩
      · rw [hcount, ownInFlight, hperiod, hflight, List.count_cons_self, hzero]
      · rw [hcount, ownInFlight, hperiod, hflight, hzero]
    · rcases hcase with ⟨hmax, -, hflight⟩ | ⟨-, hflight⟩
      · rw [ownInFlight, hperiod, hflight, List.count_cons_self, hzero]
        exact hmax
      · rw [ownInFlight, hperiod, hflight, hzero]
        exact Nat.zero_le _
    · rw [hperiod]
      intro p hp
      rcases hcase with ⟨-, -, hflight⟩ | ⟨-, hflight⟩ <;> rw [hflight] at hp
      · rcases List.mem_cons.mp hp with heq | hp
        · cases heq
          exact le_refl _
        · exact Nat.le_succ_of_le (hinv.past p hp)
      · exact Nat.le_succ_of_le (hinv.past p hp)
  | false =>
    obtain ⟨hperiod, hclosings, hown, hstate, hsucc, hcase⟩ := call_of_not_timedOut htimeout
    refine ⟨⟨fun hhalf => ?_, fun hhalf => ?_, hclosings ▸ hinv.exact.closings⟩, ?_, ?_⟩
    · have hcounter := hinv.exact.counter (hstate ▸ hhalf)
      rw [ownInFlight, hperiod]
      rcases hcase with ⟨hclosed, -⟩ | ⟨-, -, hcount, hflight⟩ | ⟨-, hcount, hflight⟩
      · rw [hstate, hclosed] at hhalf
        cases hhalf
      · rw [hcount, hflight, List.count_cons_self, hcounter, ownInFlight]
      · rw [hcount, hflight, hcounter, ownInFlight]
    · have hcounter := hinv.exact.counter (hstate ▸ hhalf)
      have hlimit := hinv.exact.limit (hstate ▸ hhalf)
      rw [ownInFlight] at hcounter hlimit
      rw [ownInFlight, hperiod]
      rcases hcase with ⟨hclosed, -⟩ | ⟨-, hlt, -, hflight⟩ | ⟨-, -, hflight⟩
      · rw [hstate, hclosed] at hhalf
        cases hhalf
      · rw [hflight, List.count_cons_self]
        omega
      · rw [hflight]
        exact hlimit
    · rw [hperiod]
      intro p hp
      rcases hcase with ⟨-, hflight⟩ | ⟨-, -, -, hflight⟩ | ⟨-, -, hflight⟩ <;> rw [hflight] at hp
      · rcases List.mem_cons.mp hp with heq | hp
        · cases heq
        · exact hinv.past p hp
      · rcases List.mem_cons.mp hp with heq | hp
        · cases heq
          exact le_refl _
        · exact hinv.past p hp
      · exact hinv.past p hp
    · rw [hstate, hsucc, hown]
      exact hinv.successes

theorem recordSuccess_cases (config : CircuitBreakerConfig) (cb : CircuitBreaker) :
    (cb.state ≠ .HalfOpen ∧ (cb.recordSuccess config).state = cb.state) ∨
    (cb.state = .HalfOpen ∧ config.successThreshold ≤ cb.consecutiveSuccesses + 1 ∧
      (cb.recordSuccess config).state = .Closed) ∨
    (cb.state = .HalfOpen ∧ (cb.recordSuccess config).state = .HalfOpen ∧
      (cb.recordSuccess config).consecutiveSuccesses = cb.consecutiveSuccesses + 1 ∧
      (cb.recordSuccess config).halfOpenRequests = cb.halfOpenRequests - 1) := by
  cases hstate : cb.state with
  | Closed => simp [recordSuccess, hstate]
  | Open => simp [recordSuccess, hstate]
  | HalfOpen =>
    by_cases hclose : config.successThreshold ≤ cb.consecutiveSuccesses + 1 <;>
      simp [recordSuccess, hstate, hclose]

theorem inv_succeed (hinv : Inv config s) {request : Admission}
    (hok : s.breaker.state = .HalfOpen → request = .halfOpen s.period) :
    Inv config (s.succeed config request) := by
  have hpast := past_erase hinv.past request
  rcases recordSuccess_cases config s.breaker with
    ⟨hstate, hsame⟩ | ⟨hstate, hthreshold, hclosed⟩ | ⟨hstate, hhalf, hsucc, hcount⟩
  · -- not half-open before, so not half-open after
    have hnot : (s.succeed config request).breaker.state ≠ .HalfOpen := by
      show (s.breaker.recordSuccess config).state ≠ .HalfOpen
      rw [hsame]
      exact hstate
    refine ⟨⟨fun h => absurd h hnot, fun h => absurd h hnot, ?_⟩, hpast, fun h => absurd h hnot⟩
    show ∀ n ∈ (if s.breaker.state = .HalfOpen ∧ _ then _ else s.closings), _
    rw [if_neg (fun h => hstate h.1)]
    exact hinv.exact.closings
  · have hnot : (s.succeed config request).breaker.state ≠ .HalfOpen := by
      show (s.breaker.recordSuccess config).state ≠ .HalfOpen
      rw [hclosed]
      decide
    refine ⟨⟨fun h => absurd h hnot, fun h => absurd h hnot, ?_⟩, hpast, fun h => absurd h hnot⟩
    have hown : s.isOwn request = true := by simp [isOwn, hstate, hok hstate]
    have hsuccesses := hinv.successes hstate
    show ∀ n ∈ (if s.breaker.state = .HalfOpen ∧ _ then _ else s.closings), _
    rw [if_pos ⟨hstate, hclosed⟩, if_pos hown, List.forall_mem_cons]
    exact ⟨by omega, hinv.exact.closings⟩
  · have hown : s.isOwn request = true := by simp [isOwn, hstate, hok hstate]
    have hcounter := hinv.exact.counter hstate
    have hlimit := hinv.exact.limit hstate
    have hsuccesses := hinv.successes hstate
    have herase : (s.succeed config request).ownInFlight = s.ownInFlight - 1 := by
      show (s.inFlight.erase request).count (.halfOpen s.period) = _
      rw [hok hstate, List.count_erase_self, ownInFlight]
    refine ⟨⟨fun _ => ?_, fun _ => ?_, ?_⟩, hpast, fun _ => ?_⟩
    · rw [herase, ← hcounter]
      exact hcount
    · rw [herase]
      omega
    · show ∀ n ∈ (if _ ∧ (s.breaker.recordSuccess config).state = .Closed then _ else s.closings), _
      rw [if_neg (by rw [hhalf]; rintro ⟨-, h⟩; cases h)]
      exact hinv.exact.closings
    · show (s.breaker.recordSuccess config).consecutiveSuccesses ≤
        if s.isOwn request then s.ownSuccesses + 1 else s.ownSuccesses
      rw [if_pos hown, hsucc]
      omega

theorem recordFailure_state (config : CircuitBreakerConfig) (cb : CircuitBreaker) (now : Nat) :
    (cb.recordFailure config now).state ≠ .HalfOpen := by
  cases hstate : cb.state with
  | Closed =>
    by_cases hopen : config.failureThreshold ≤ cb.consecutiveFailures + 1 <;>
      simp [recordFailure, hstate, hopen]
  | Open => simp [recordFailure, hstate]
  | HalfOpen => simp [recordFailure, hstate]

theorem inv_step {s s' : BreakerSystem} {action : BreakerAction} (hinv : Inv config s)
    (hok : s.EndsInPeriod action) (hstep : s.step config action = some s') : Inv config s' := by
  cases action with
  | tick elapsed =>
    cases hstep
    exact ⟨⟨hinv.exact.counter, hinv.exact.limit, hinv.exact.closings⟩, hinv.past, hinv.successes⟩
  | call =>
    cases hstep
    exact inv_call hinv
  | succeed request =>
    simp only [step] at hstep
    split_ifs at hstep with hmem
    cases hstep
    exact inv_succeed hinv hok
  | fail request =>
    simp only [step] at hstep
    split_ifs at hstep with hmem
    cases hstep
    have hnot := recordFailure_state config s.breaker s.now
    exact ⟨⟨fun h => absurd h hnot, fun h => absurd h hnot, hinv.exact.closings⟩,
      past_erase hinv.past request, fun h => absurd h hnot⟩
  | drop request =>
    simp only [step] at hstep
    split_ifs at hstep with hmem
    cases hstep
    have hsame : s.breaker.state = .HalfOpen →
        (s.inFlight.erase request).count (.halfOpen s.period) = s.ownInFlight :=
      fun h => ownInFlight_erase_of_ne (hok h)
    refine ⟨⟨fun h => ?_, fun h => ?_, hinv.exact.closings⟩, past_erase hinv.past request,
      hinv.successes⟩
    · show s.breaker.halfOpenRequests = (s.inFlight.erase request).count (.halfOpen s.period)
      rw [hsame h]
      exact hinv.exact.counter h
    · show (s.inFlight.erase request).count (.halfOpen s.period) ≤ _
      rw [hsame h]
      exact hinv.exact.limit h

/-- **Half-open admission is exact** in every state of every run that meets the condition, for
every configuration. -/
theorem halfOpen_exact {s : BreakerSystem}
    (hreach : Reaches (step config) EndsInPeriod new s) : s.Exact config :=
  (hreach.invariant (P := Inv config) inv_new (fun _ _ _ hinv hok hstep =>
    inv_step hinv hok hstep)).exact

def halfOpened : List BreakerAction :=
  List.replicate 7 .call ++ List.replicate 5 (.fail .closed) ++ [.tick 30000, .call]

/-- A second request in the period, and one of the two succeeds: the counter is one. -/
theorem halfOpen_exact_sample : ∃ s,
    exec (step .production) new (halfOpened ++ [.call, .succeed (.halfOpen 1)]) = some s ∧
      s.breaker.state = .HalfOpen ∧ s.breaker.halfOpenRequests = 1 ∧
      s.breaker.halfOpenRequests = s.ownInFlight := by
  apply exists_exec (fun s => s.breaker.state = .HalfOpen ∧ s.breaker.halfOpenRequests = 1)
    (by decide +kernel)
  intro s hexec hq
  obtain ⟨hhalf, hone⟩ := hq
  have hreach : Reaches (step .production) EndsInPeriod new s :=
    Reaches.of_exec (by decide +kernel) hexec
  exact ⟨hhalf, hone, (halfOpen_exact hreach).counter hhalf⟩

/-- The counter is wrong in half-open states: a request of the period that is dropped stays
counted, and the success of a request admitted before uncounts one that is still running. Three
such successes close the circuit without any of its own. -/
theorem halfOpen_counter_wrong :
    (∃ s, exec (step .production) new (halfOpened ++ [.drop (.halfOpen 1)]) = some s ∧
      s.breaker.state = .HalfOpen ∧ s.breaker.halfOpenRequests = 1 ∧ s.ownInFlight = 0) ∧
    (∃ s, exec (step .production) new (halfOpened ++ [.succeed .closed]) = some s ∧
      s.breaker.state = .HalfOpen ∧ s.breaker.halfOpenRequests = 0 ∧ s.ownInFlight = 1) ∧
    (∃ s, exec (step .production) new
        (.call :: halfOpened ++ List.replicate 3 (.succeed .closed)) = some s ∧
      s.breaker.state = .Closed ∧ s.closings = [0]) := by
  refine ⟨⟨_, rfl, ?_⟩, ⟨_, rfl, ?_⟩, ⟨_, rfl, ?_⟩⟩
  · decide +kernel
  · decide +kernel
  · decide +kernel

end BreakerSystem

end Arcxa.Kafka
