import Arcxa.Lib.Calls
import Arcxa.Engine.Persistence

/-!
# Approval requests

A request waits until it is approved, rejected, cancelled or expires. Each of these decisions reads
the record, checks that it is pending, and writes the whole record back; the store does not look at
what it overwrites. Several decisions can therefore read the same pending record, and each of them
succeeds. A request is decided once exactly when every decision still finds it pending at its write
(`decided_once_iff`).
-/

namespace Arcxa.Engine

open BTreeMap

variable {J : Type}

/-! ## Requests -/

inductive ApprovalStatus where
  | Pending
  | Approved
  | Rejected
  | Expired
  | Cancelled
  deriving DecidableEq

namespace ApprovalStatus

/-- The status as `{:?}` and `Display` write it. -/
def text : ApprovalStatus → String
  | .Pending => "Pending"
  | .Approved => "Approved"
  | .Rejected => "Rejected"
  | .Expired => "Expired"
  | .Cancelled => "Cancelled"

def isTerminal : ApprovalStatus → Bool
  | .Approved | .Rejected | .Expired | .Cancelled => true
  | .Pending => false

theorem isTerminal_iff {status : ApprovalStatus} : status.isTerminal ↔ status ≠ .Pending := by
  cases status <;> decide

end ApprovalStatus

/-- An approval request; `J` is the type of JSON values. -/
structure ApprovalRequest (J : Type) where
  requestId : String
  approvalType : String
  executionId : String
  workflowId : String
  actionIndex : Nat
  payload : J
  status : ApprovalStatus
  createdAt : Time
  expiresAt : Time
  approvedBy : Option String
  approvedAt : Option Time
  rejectedBy : Option String
  rejectedAt : Option Time
  rejectionReason : Option String
  metadata : Option J

/-- What a call reads from the clock: to see whether the request is expired, and to date the
decision. -/
structure Clock where
  now : Time
  decidedAt : Time

namespace ApprovalRequest

variable (request : ApprovalRequest J)

def new (requestId approvalType executionId workflowId : String) (actionIndex : Nat) (payload : J)
    (createdAt expiresAt : Time) (metadata : Option J) : ApprovalRequest J where
  requestId
  approvalType
  executionId
  workflowId
  actionIndex
  payload
  status := .Pending
  createdAt
  expiresAt
  approvedBy := none
  approvedAt := none
  rejectedBy := none
  rejectedAt := none
  rejectionReason := none
  metadata

def isExpired (clock : Clock) : Bool := request.expiresAt < clock.now

def approve (clock : Clock) (approvedBy : String) : Except String (ApprovalRequest J) :=
  if request.status ≠ .Pending then
    .error ("Cannot approve request in status " ++ request.status.text ++ ", must be Pending")
  else if request.isExpired clock then
    .error "Cannot approve expired request"
  else
    .ok { request with
      status := .Approved
      approvedBy := some approvedBy
      approvedAt := some clock.decidedAt }

def reject (clock : Clock) (rejectedBy : String) (reason : Option String) :
    Except String (ApprovalRequest J) :=
  if request.status ≠ .Pending then
    .error ("Cannot reject request in status " ++ request.status.text ++ ", must be Pending")
  else
    .ok { request with
      status := .Rejected
      rejectedBy := some rejectedBy
      rejectedAt := some clock.decidedAt
      rejectionReason := reason }

def cancel : Except String (ApprovalRequest J) :=
  if request.status.isTerminal ∧ request.status ≠ .Pending then
    .error ("Cannot cancel request in terminal status " ++ request.status.text)
  else
    .ok { request with status := .Cancelled }

def expire : Except String (ApprovalRequest J) :=
  if request.status ≠ .Pending then
    .error ("Cannot expire request in status " ++ request.status.text ++ ", must be Pending")
  else
    .ok { request with status := .Expired }

end ApprovalRequest

inductive Decision where
  | approve (approvedBy : String)
  | reject (rejectedBy : String) (reason : Option String)
  | cancel
  | expire
  deriving DecidableEq

namespace Decision

def status : Decision → ApprovalStatus
  | approve _ => .Approved
  | reject _ _ => .Rejected
  | cancel => .Cancelled
  | expire => .Expired

def apply (clock : Clock) (request : ApprovalRequest J) :
    Decision → Except String (ApprovalRequest J)
  | approve approvedBy =>
    (request.approve clock approvedBy).mapError ("Failed to approve request: " ++ ·)
  | reject rejectedBy reason =>
    (request.reject clock rejectedBy reason).mapError ("Failed to reject request: " ++ ·)
  | cancel => request.cancel.mapError ("Failed to cancel request: " ++ ·)
  | expire => request.expire.mapError ("Failed to expire request: " ++ ·)

theorem status_ne (decision : Decision) : decision.status ≠ .Pending := by
  cases decision <;> exact nofun

theorem apply_ok {decision : Decision} {clock : Clock} {request decided : ApprovalRequest J}
    (h : decision.apply clock request = .ok decided) :
    request.status = .Pending ∧ decided.requestId = request.requestId ∧
      decided.status = decision.status ∧
      (request.approvedBy = none → request.rejectedBy = none →
        decided.approvedBy = none ∨ decided.rejectedBy = none) := by
  have hok : ∀ (prefix' : String) (result : Except String (ApprovalRequest J)),
      result.mapError (prefix' ++ ·) = .ok decided → result = .ok decided := by
    intro prefix' result hresult
    cases result with
    | error e => cases hresult
    | ok request => exact hresult
  cases decision with
  | approve approvedBy =>
    have happrove := hok _ _ h
    rw [ApprovalRequest.approve] at happrove
    split_ifs at happrove with hpending hexpired
    cases happrove
    exact ⟨not_not.mp hpending, rfl, rfl, fun _ hrejected => .inr hrejected⟩
  | reject rejectedBy reason =>
    have hreject := hok _ _ h
    rw [ApprovalRequest.reject] at hreject
    split_ifs at hreject with hpending
    cases hreject
    exact ⟨not_not.mp hpending, rfl, rfl, fun happroved _ => .inl happroved⟩
  | cancel =>
    have hcancel := hok _ _ h
    rw [ApprovalRequest.cancel] at hcancel
    split_ifs at hcancel with hterminal
    cases hcancel
    rw [ApprovalStatus.isTerminal_iff, and_self_iff, not_not] at hterminal
    exact ⟨hterminal, rfl, rfl, fun happroved _ => .inl happroved⟩
  | expire =>
    have hexpire := hok _ _ h
    rw [ApprovalRequest.expire] at hexpire
    split_ifs at hexpire with hpending
    cases hexpire
    exact ⟨not_not.mp hpending, rfl, rfl, fun happroved _ => .inl happroved⟩

end Decision

/-! ## The store -/

def approvals : Entity (ApprovalRequest J) := ⟨"ApprovalRequest", (·.requestId)⟩

abbrev ApprovalBackend (J : Type) := BTreeMap String (ApprovalRequest J)

/-- `get_required`. -/
def getRequiredApproval (backend : ApprovalBackend J) (requestId : String) :
    Except String (ApprovalRequest J) :=
  match backend.get requestId with
  | none => .error ("Approval request '" ++ requestId ++ "' not found")
  | some request => .ok request

/-- `list_by_status`, of the records in the order in which the map is walked. -/
def listApprovalsByStatus (walked : List (ApprovalRequest J)) (status : ApprovalStatus)
    (limit offset : Nat) : List (ApprovalRequest J) :=
  (((walked.filter fun request => request.status = status).mergeSort
    fun a b => b.createdAt ≤ a.createdAt).drop offset).take limit

/-! ## Calls in progress -/

/-- A call, at the next thing it does. `rest` are the requests that the timeout handler has still
to expire after this one; others have none. -/
inductive ApprovalCall (J : Type) where
  | save (request : ApprovalRequest J)
  | processExpiredApprovals
  | get (requestId : String) (decision : Decision) (rest : List String)
  | update (request : ApprovalRequest J) (decision : Decision) (rest : List String)

/-- What a step of a call meets: the clock, and the order in which the map is walked. -/
structure ApprovalMoment where
  clock : Clock
  walk : List String

/-- The store. For the statements only, the decisions that have returned `Ok`, in their order. -/
structure Approvals (J : Type) where
  backend : ApprovalBackend J
  decided : List (String × ApprovalStatus)

namespace Approvals

/-- The loop of `process_expired_approvals`: it goes on whatever became of the request before. -/
def expireNext : List String → Option (ApprovalCall J)
  | [] => none
  | requestId :: rest => some (.get requestId .expire rest)

/-- The requests that `process_expired_approvals` is going to expire. -/
def overdue (store : Approvals J) (moment : ApprovalMoment) : List String :=
  let pending :=
    listApprovalsByStatus (moment.walk.filterMap store.backend.get) .Pending 1000 0
  (pending.filter fun request => request.expiresAt ≤ moment.clock.now).map (·.requestId)

def advance (store : Approvals J) (call : ApprovalCall J) (moment : ApprovalMoment) :
    Option (Approvals J × Option (ApprovalCall J)) :=
  match call with
  | .save request =>
    match approvals.save store.backend request with
    | .error _ => some (store, none)
    | .ok backend => some ({ store with backend }, none)
  | .processExpiredApprovals =>
    if moment.walk.isPerm store.backend.keys then
      some (store, expireNext (store.overdue moment))
    else none
  | .get requestId decision rest =>
    match getRequiredApproval store.backend requestId with
    | .error _ => some (store, expireNext rest)
    | .ok request =>
      match decision.apply moment.clock request with
      | .error _ => some (store, expireNext rest)
      | .ok request => some (store, some (.update request decision rest))
  | .update request decision rest =>
    match approvals.update store.backend request with
    | .error _ => some (store, expireNext rest)
    | .ok backend =>
      some (⟨backend, store.decided ++ [(request.requestId, decision.status)]⟩, expireNext rest)

def mayStart (_ : Pool (Approvals J) (ApprovalCall J)) : ApprovalCall J → Bool
  | .save request =>
    request.status = .Pending ∧ request.approvedBy = none ∧ request.rejectedBy = none
  | .processExpiredApprovals => true
  | .get _ _ rest => rest.isEmpty
  | .update _ _ _ => false

abbrev Action (J : Type) := CallAction (ApprovalCall J) ApprovalMoment

def step : Pool (Approvals J) (ApprovalCall J) → Action J →
    Option (Pool (Approvals J) (ApprovalCall J)) :=
  Pool.step mayStart advance

def opened : Pool (Approvals J) (ApprovalCall J) := ⟨⟨.empty, []⟩, .empty⟩

/-! ## What is to hold -/

/-- The decisions on a request that have returned `Ok`. -/
def decidedOn (store : Approvals J) (requestId : String) : List (String × ApprovalStatus) :=
  store.decided.filter (·.1 = requestId)

structure DecidedOnce (store : Approvals J) : Prop where
  /-- At most one decision on a request has returned `Ok`. -/
  once : ∀ requestId, (store.decidedOn requestId).length ≤ 1
  /-- And it stands. -/
  stands : ∀ requestId status, (requestId, status) ∈ store.decided →
    ∃ request, store.backend.get requestId = some request ∧ request.status = status
  oneSided : ∀ requestId request, store.backend.get requestId = some request →
    request.approvedBy = none ∨ request.rejectedBy = none

def StillPending (p : Pool (Approvals J) (ApprovalCall J)) : Action J → Prop
  | .start _ _ => True
  | .advance c _ => ∀ request decision rest,
    p.calls.get c = some (.update request decision rest) →
      ∀ stored, p.shared.backend.get request.requestId = some stored → stored.status = .Pending

/-! ## The invariant -/

/-- A stored request that is pending has no decision, and one that is not has one, its status. -/
structure Sound (store : Approvals J) : Prop where
  keyed : approvals.Keyed store.backend
  oneSided : ∀ requestId request, store.backend.get requestId = some request →
    request.approvedBy = none ∨ request.rejectedBy = none
  undecided : ∀ requestId request, store.backend.get requestId = some request →
    request.status = .Pending →
      store.decidedOn requestId = [] ∧ request.approvedBy = none ∧ request.rejectedBy = none
  decided : ∀ requestId request, store.backend.get requestId = some request →
    request.status ≠ .Pending → store.decidedOn requestId = [(requestId, request.status)]
  unknown : ∀ requestId, store.backend.get requestId = none → store.decidedOn requestId = []

def InHand : ApprovalCall J → Prop
  | .save request =>
    request.status = .Pending ∧ request.approvedBy = none ∧ request.rejectedBy = none
  | .update request decision _ =>
    request.status = decision.status ∧ (request.approvedBy = none ∨ request.rejectedBy = none)
  | _ => True

structure PoolSound (p : Pool (Approvals J) (ApprovalCall J)) : Prop where
  store : p.shared.Sound
  calls : ∀ c call, p.calls.get c = some call → InHand call

section Steps

variable {store : Approvals J} {request : ApprovalRequest J} {decision : Decision}

theorem sound_empty : Sound (⟨.empty, []⟩ : Approvals J) where
  keyed := Entity.keyed_empty
  oneSided _ _ hget := nomatch hget
  undecided _ _ hget := nomatch hget
  decided _ _ hget := nomatch hget
  unknown _ _ := rfl

theorem sound_opened : PoolSound (opened : Pool (Approvals J) (ApprovalCall J)) where
  store := sound_empty
  calls _ _ hget := nomatch hget

theorem decidedOn_append (store : Approvals J) (backend : ApprovalBackend J)
    (requestId : String) (status : ApprovalStatus) (other : String) :
    decidedOn ⟨backend, store.decided ++ [(requestId, status)]⟩ other =
      store.decidedOn other ++ if requestId = other then [(requestId, status)] else [] := by
  rw [decidedOn, List.filter_append, decidedOn]
  congr 1
  split_ifs with hid <;> simp [hid]

theorem Sound.decidedOnce (h : store.Sound) : store.DecidedOnce where
  once requestId := by
    cases hget : store.backend.get requestId with
    | none =>
      rw [h.unknown requestId hget]
      exact Nat.zero_le _
    | some request =>
      by_cases hpending : request.status = .Pending
      · rw [(h.undecided requestId request hget hpending).1]
        exact Nat.zero_le _
      · rw [h.decided requestId request hget hpending]
        exact le_rfl
  stands requestId status hmem := by
    have hon : (requestId, status) ∈ store.decidedOn requestId :=
      List.mem_filter.mpr ⟨hmem, decide_eq_true rfl⟩
    cases hget : store.backend.get requestId with
    | none =>
      rw [h.unknown requestId hget] at hon
      cases hon
    | some request =>
      refine ⟨request, rfl, ?_⟩
      by_cases hpending : request.status = .Pending
      · rw [(h.undecided requestId request hget hpending).1] at hon
        cases hon
      · rw [h.decided requestId request hget hpending, List.mem_singleton] at hon
        exact (congrArg Prod.snd hon).symm
  oneSided := h.oneSided

theorem Sound.save (h : store.Sound) (hnew : store.backend.get request.requestId = none)
    (hrequest : InHand (.save request)) :
    Sound { store with backend := store.backend.insert request.requestId request } where
  keyed := h.keyed.insert request
  oneSided requestId stored hget := by
    dsimp only at hget
    rw [get_insert] at hget
    split_ifs at hget with hid
    · cases hget
      exact .inl hrequest.2.1
    · exact h.oneSided requestId stored hget
  undecided requestId stored hget hpending := by
    dsimp only at hget
    rw [get_insert] at hget
    split_ifs at hget with hid
    · cases hget
      exact ⟨h.unknown requestId (hid ▸ hnew), hrequest.2⟩
    · exact h.undecided requestId stored hget hpending
  decided requestId stored hget hpending := by
    dsimp only at hget
    rw [get_insert] at hget
    split_ifs at hget with hid
    · cases hget
      exact absurd hrequest.1 hpending
    · exact h.decided requestId stored hget hpending
  unknown requestId hget := by
    dsimp only at hget
    rw [get_insert] at hget
    split_ifs at hget with hid
    exact h.unknown requestId hget

def written (store : Approvals J) (request : ApprovalRequest J) (decision : Decision) :
    Approvals J :=
  ⟨store.backend.insert request.requestId request,
    store.decided ++ [(request.requestId, decision.status)]⟩

theorem Sound.written (h : store.Sound) {stored : ApprovalRequest J}
    (hstored : store.backend.get request.requestId = some stored)
    (hpending : stored.status = .Pending) {rest : List String}
    (hrequest : InHand (.update request decision rest)) :
    (store.written request decision).Sound := by
  have hfirst := (h.undecided _ stored hstored hpending).1
  constructor
  case keyed => exact h.keyed.insert request
  case oneSided =>
    intro requestId record hget
    rw [Approvals.written, get_insert] at hget
    split_ifs at hget with hid
    · cases hget
      exact hrequest.2
    · exact h.oneSided requestId record hget
  case undecided =>
    intro requestId record hget hrecord
    rw [Approvals.written, get_insert] at hget
    rw [Approvals.written, decidedOn_append]
    split_ifs at hget with hid
    · cases hget
      exact absurd (hrequest.1 ▸ hrecord) decision.status_ne
    · rw [if_neg (Ne.symm hid), List.append_nil]
      exact h.undecided requestId record hget hrecord
  case decided =>
    intro requestId record hget hrecord
    rw [Approvals.written, get_insert] at hget
    rw [Approvals.written, decidedOn_append]
    split_ifs at hget with hid
    · cases hget
      rw [if_pos hid.symm, hid, hfirst, hrequest.1]
      rfl
    · rw [if_neg (Ne.symm hid), List.append_nil]
      exact h.decided requestId record hget hrecord
  case unknown =>
    intro requestId hget
    rw [Approvals.written, get_insert] at hget
    rw [Approvals.written, decidedOn_append]
    split_ifs at hget with hid
    rw [if_neg (Ne.symm hid), List.append_nil]
    exact h.unknown requestId hget

theorem Sound.pending_of_written (h : store.Sound) {stored : ApprovalRequest J}
    (hstored : store.backend.get request.requestId = some stored)
    (hwritten : (store.written request decision).DecidedOnce) : stored.status = .Pending := by
  by_contra hdecided
  have honce := hwritten.once request.requestId
  rw [Approvals.written, decidedOn_append, if_pos rfl,
    h.decided _ stored hstored hdecided] at honce
  exact absurd honce (by simp)

theorem inHand_expireNext {requestIds : List String} {call : ApprovalCall J}
    (h : expireNext requestIds = some call) : InHand call := by
  cases requestIds with
  | nil => cases h
  | cons requestId rest =>
    cases h
    trivial

theorem advance_cases {call : ApprovalCall J} {moment : ApprovalMoment} {store' : Approvals J}
    {next : Option (ApprovalCall J)} (hcall : InHand call) (hstore : store.Sound)
    (h : store.advance call moment = some (store', next)) :
    (∀ call', next = some call' → InHand call') ∧
    ((store' = store ∧ ∀ request decision rest, call = .update request decision rest →
        store.backend.get request.requestId = none) ∨
      (∃ request, call = .save request ∧ store.backend.get request.requestId = none ∧
        store' = { store with backend := store.backend.insert request.requestId request }) ∨
      ∃ request decision rest stored, call = .update request decision rest ∧
        store.backend.get request.requestId = some stored ∧
        store' = store.written request decision) := by
  cases call with
  | save request =>
    rw [advance] at h
    cases hsave : approvals.save store.backend request with
    | error e =>
      rw [hsave] at h
      cases h
      exact ⟨fun _ hnext => (nomatch hnext), .inl ⟨rfl, fun _ _ _ hcall => (nomatch hcall)⟩⟩
    | ok backend =>
      rw [hsave] at h
      cases h
      obtain ⟨hnew, rfl⟩ := Entity.save_ok hsave
      exact ⟨fun _ hnext => (nomatch hnext), .inr (.inl ⟨request, rfl, hnew, rfl⟩)⟩
  | processExpiredApprovals =>
    rw [advance] at h
    split_ifs at h
    obtain ⟨hsame, hnext⟩ := Prod.mk.inj (Option.some.inj h)
    exact ⟨fun call' hcall' => inHand_expireNext (hnext.trans hcall'),
      .inl ⟨hsame.symm, fun _ _ _ hcall => (nomatch hcall)⟩⟩
  | get requestId decision rest =>
    rw [advance] at h
    cases hget : store.backend.get requestId with
    | none =>
      rw [getRequiredApproval, hget] at h
      cases h
      exact ⟨fun call' => inHand_expireNext, .inl ⟨rfl, fun _ _ _ hcall => (nomatch hcall)⟩⟩
    | some request =>
      rw [getRequiredApproval, hget] at h
      dsimp only at h
      cases hdecide : decision.apply moment.clock request with
      | error e =>
        rw [hdecide] at h
        cases h
        exact ⟨fun call' => inHand_expireNext, .inl ⟨rfl, fun _ _ _ hcall => (nomatch hcall)⟩⟩
      | ok decided =>
        rw [hdecide] at h
        cases h
        obtain ⟨hpending, -, hstatus, honeSided⟩ := Decision.apply_ok hdecide
        obtain ⟨-, happroved, hrejected⟩ := hstore.undecided requestId request hget hpending
        refine ⟨fun call' hcall' => ?_, .inl ⟨rfl, fun _ _ _ hcall => (nomatch hcall)⟩⟩
        cases hcall'
        exact ⟨hstatus, honeSided happroved hrejected⟩
  | update request decision rest =>
    rw [advance] at h
    cases hupdate : approvals.update store.backend request with
    | error e =>
      rw [hupdate] at h
      cases h
      refine ⟨fun call' => inHand_expireNext, .inl ⟨rfl, ?_⟩⟩
      intro request' decision' rest' hcall'
      cases hcall'
      by_contra hsome
      obtain ⟨stored, hstored⟩ := Option.ne_none_iff_exists'.mp hsome
      rw [Entity.update_of_some (E := approvals) hstored] at hupdate
      cases hupdate
    | ok backend =>
      rw [hupdate] at h
      cases h
      obtain ⟨⟨stored, hstored⟩, rfl⟩ := Entity.update_ok hupdate
      exact ⟨fun call' => inHand_expireNext,
        .inr (.inr ⟨request, decision, rest, stored, rfl, hstored, rfl⟩)⟩

theorem inHand_of_mayStart {p : Pool (Approvals J) (ApprovalCall J)} {call : ApprovalCall J}
    (h : mayStart p call = true) : InHand call := by
  cases call with
  | save request =>
    rw [mayStart, decide_eq_true_eq] at h
    exact h
  | processExpiredApprovals => trivial
  | get requestId decision rest => trivial
  | update request decision rest => cases h

theorem PoolSound.step {p p' : Pool (Approvals J) (ApprovalCall J)} {action : Action J}
    (h : PoolSound p) (hstep : Approvals.step p action = some p') :
    (p'.shared.DecidedOnce → StillPending p action) ∧
      (StillPending p action → PoolSound p') := by
  cases action with
  | start c call =>
    obtain ⟨-, hstart, rfl⟩ := Pool.step_start hstep
    refine ⟨fun _ => trivial, fun _ => ⟨h.store, ?_⟩⟩
    show ∀ c' call', (Pool.setCall p.calls c (some call)).get c' = some call' → InHand call'
    refine Pool.forall_setCall (fun call' heq => ?_) fun c' call' _ => h.calls c' call'
    exact Option.some.inj heq ▸ inHand_of_mayStart hstart
  | advance c moment =>
    obtain ⟨call, next, hcall, hadvance, hcalls⟩ := Pool.step_advance hstep
    have hinHand := h.calls c call hcall
    obtain ⟨hnext, hcases⟩ := advance_cases hinHand h.store hadvance
    have hkept : ∀ c' call', p'.calls.get c' = some call' → InHand call' :=
      hcalls ▸ Pool.forall_setCall hnext fun c' call' _ => h.calls c' call'
    rcases hcases with ⟨hsame, hunknown⟩ | ⟨request, rfl, hnew, hsaved⟩ |
      ⟨request, decision, rest, stored, rfl, hstored, hwritten⟩
    · refine ⟨fun _ request decision rest hupdate stored hstored => ?_,
        fun _ => ⟨hsame ▸ h.store, hkept⟩⟩
      rw [hunknown request decision rest (Option.some.inj (hcall.symm.trans hupdate))] at hstored
      cases hstored
    · refine ⟨fun _ request' decision rest hupdate => ?_,
        fun _ => ⟨hsaved ▸ h.store.save hnew hinHand, hkept⟩⟩
      rw [hcall] at hupdate
      cases hupdate
    · constructor
      · intro honce request' decision' rest' hupdate stored' hstored'
        rw [hcall] at hupdate
        cases hupdate
        rw [hstored] at hstored'
        cases hstored'
        exact h.store.pending_of_written hstored (hwritten ▸ honce)
      · intro hpending
        have hstill := hpending request decision rest hcall stored hstored
        exact ⟨hwritten ▸ h.store.written hstored hstill hinHand, hkept⟩

end Steps

/-- Every request is decided once, and its decision stands, exactly when every decision finds its
request still pending when it is written. -/
theorem decided_once_iff (actions : List (Action J)) (p : Pool (Approvals J) (ApprovalCall J))
    (hrun : exec step opened actions = some p) :
    (∀ pre, pre <+: actions → ∀ q, exec step opened pre = some q → q.shared.DecidedOnce) ↔
      OkAlong step StillPending opened actions :=
  safety_iff_okAlong (P := fun q : Pool (Approvals J) (ApprovalCall J) => q.shared.DecidedOnce)
    (fun _ h => h.store.decidedOnce) (fun _ _ _ h hstep => h.step hstep) sound_opened hrun

/-! ## Two reviewers -/

def sampleRequest : ApprovalRequest Unit :=
  .new "request-1" "ddl_execution" "exec-1" "wf-1" 0 () 0 3600 none

def atTime (now : Time) : ApprovalMoment := ⟨⟨now, now⟩, []⟩

def inTurn : List (Action Unit) :=
  [.start 0 (.save sampleRequest), .advance 0 (atTime 0),
    .start 1 (.get "request-1" (.approve "reviewer-1") []), .advance 1 (atTime 1),
    .advance 1 (atTime 1),
    .start 2 (.get "request-1" (.reject "reviewer-2" none) []), .advance 2 (atTime 2)]

theorem inTurn_decided_once :
    ∃ p, exec step opened inTurn = some p ∧ p.shared.DecidedOnce := by
  have hsome : (exec step opened inTurn).isSome := by decide
  obtain ⟨p, hrun⟩ := Option.isSome_iff_exists.mp hsome
  have hok : OkAlong step StillPending opened inTurn := by
    refine .cons trivial rfl <| .cons ?_ rfl <| .cons trivial rfl <| .cons ?_ rfl <|
      .cons ?_ rfl <| .cons trivial rfl <| .cons ?_ rfl trivial
    · intro request decision rest hcall
      cases hcall
    · intro request decision rest hcall
      cases hcall
    · intro request decision rest hcall stored hstored
      cases hcall
      cases hstored
      rfl
    · intro request decision rest hcall
      cases hcall
  exact ⟨p, hrun, (decided_once_iff inTurn p hrun).mpr hok _ List.prefix_rfl p hrun⟩

def atOnce : List (Action Unit) :=
  [.start 0 (.save sampleRequest), .advance 0 (atTime 0),
    .start 1 (.get "request-1" (.approve "reviewer-1") []), .advance 1 (atTime 1),
    .start 2 (.get "request-1" (.reject "reviewer-2" none) []), .advance 2 (atTime 1),
    .advance 1 (atTime 1), .advance 2 (atTime 2)]

/-- Both are told that their decision was taken. -/
theorem decided_twice : ¬ ∀ (J : Type) (actions : List (Action J))
    (p : Pool (Approvals J) (ApprovalCall J)), exec step opened actions = some p →
      p.shared.DecidedOnce := by
  intro h
  have hend : ∃ p, exec step opened atOnce = some p ∧
      1 < (p.shared.decidedOn "request-1").length :=
    exists_exec _ (by decide) fun p _ hp => hp
  obtain ⟨p, hrun, htwice⟩ := hend
  exact absurd ((h Unit atOnce p hrun).once "request-1") (by omega)

end Approvals

end Arcxa.Engine
