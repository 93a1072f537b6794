import ProjectMaya.Context
import ProjectMaya.Documents
import ProjectMaya.LocalApi

/-! # The Telegram intake

Threads and tasks call one `CandidateTelegramPollingIntake` with updates.  A call checks the
transport, takes the lock or gives up, checks the update and its message, looks up the owner, writes
an audit record, moves the mark `_last_update`, and awaits `consume` under the owner's identity.
The audit sink and the consumer may call the intake again (`reenter`), raise, or be cancelled. -/

namespace ProjectMaya.Telegram

open Logic
open LocalApi (Exn)

/-! ## What is supplied -/

structure User where
  /-- `id`, when it is an `int` -/
  id : Option Int
  /-- `is_bot`, when it is a `bool` -/
  isBot : Option Bool

structure Chat where
  /-- `id`, when it is an `int` -/
  id : Option Int
  /-- `type`, when it is a text -/
  type : Option String

structure Message where
  fromUser : Option User
  chat : Option Chat
  /-- `text`, when it is a text -/
  text : Option String
  /-- The names of the attributes that count as true. -/
  marks : List String := []

structure Update where
  /-- `update_id`, when it is an `int` -/
  updateId : Option Int
  message : Option Message
  /-- The names of the attributes that are not `None`. -/
  kinds : List String := []

/-- A `context`; objects are numbers. -/
structure Context where
  application : Option Nat
  bot : Option Nat

/-- What the transport's attributes give when they are read. -/
structure Transport where
  /-- `_webhook_mode` of the adapter, when it is a `bool` -/
  webhookMode : Option Bool := some false
  app : Option Nat := none
  bot : Option Nat := none
  applicationBot : Option Nat := none
  botId : Option Int := none
  baseUrl : Option String := none

/-! ## The intake -/

/-- `_positive_id` -/
def positiveId (value : Option Int) : Option Int := value.filter (0 < ·)

/-- The attributes of an intake.  `valid` is what its constructor has checked. -/
structure Intake where
  application : Option Nat
  bot : Option Nat
  botId : Int
  owners : List ((Int × Int) × RequestIdentity)
  valid : ∀ item ∈ owners, requestIdentity item.2.actorId item.2.dataClassification = .ok item.2

namespace Intake

/-- The checks of `_validate_transport`; no context at construction. -/
def Qualified (application bot : Option Nat) (botId : Int) (t : Transport) (context : Option Context) : Prop :=
  application ≠ none ∧ bot ≠ none ∧ t.webhookMode = some false ∧
    t.app = application ∧ t.bot = bot ∧ t.applicationBot = bot ∧ t.botId = some botId ∧
    (∃ url ∈ t.baseUrl, "https://api.telegram.org/bot".toList <+: url.toList) ∧
    ∀ c ∈ context, c.application = application ∧ c.bot = bot

instance (application bot : Option Nat) (botId : Int) (t : Transport) (context : Option Context) :
    Decidable (Qualified application bot botId t context) := by
  unfold Qualified
  infer_instance

/-- What a check of the governance module raises. -/
def checked {α : Type} (x : Except Raised α) : Except Exn α := x.mapError LocalApi.Exn.ofRaised

/-- The loop of the constructor over its owners. -/
def checkOwners : List ((Int × Int) × RequestIdentity) → Except Exn Unit
  | [] => .ok ()
  | ((user, chat), owner) :: owners => do
    ensure (0 < user ∧ 0 < chat) (.boundary "governance.telegram_intake_invalid")
    let _ ← checked (requestIdentity owner.actorId owner.dataClassification)
    checkOwners owners

theorem valid_of_checkOwners {owners : List ((Int × Int) × RequestIdentity)}
    (h : checkOwners owners = .ok ()) :
    ∀ item ∈ owners, requestIdentity item.2.actorId item.2.dataClassification = .ok item.2 := by
  induction owners with
  | nil => nofun
  | cons item owners ih =>
    obtain ⟨⟨user, chat⟩, owner⟩ := item
    simp only [checkOwners, bind_eq_ok, ensure_eq_ok] at h
    obtain ⟨-, -, identity, hidentity, hrest⟩ := h
    intro other hmem
    rcases List.mem_cons.1 hmem with rfl | hmem
    · show requestIdentity owner.actorId owner.dataClassification = .ok owner
      cases hid : requestIdentity owner.actorId owner.dataClassification with
      | error e =>
        rw [hid] at hidentity
        cases hidentity
      | ok bound =>
        unfold requestIdentity at hid
        simp only [bind_eq_ok, ensure_eq_ok, pure_eq_ok] at hid
        obtain ⟨-, -, -, -, rfl⟩ := hid
        rfl
    · exact ih hrest other hmem

/-- `__init__`; `installed` says that the acknowledgement, the audit sink and the consumer are what
they must be. -/
def make (installed : Bool) (application bot : Option Nat) (botId : Int)
    (owners : List ((Int × Int) × RequestIdentity)) (t : Transport) : Except Exn Intake :=
  if installed ∧ 0 < botId ∧ owners ≠ [] then
    match h : checkOwners owners with
    | .error e => .error e
    | .ok () =>
      if Qualified application bot botId t none then
        .ok { application, bot, botId, owners, valid := valid_of_checkOwners h }
      else .error (.boundary "governance.telegram_transport_unqualified")
  else .error (.boundary "governance.telegram_intake_invalid")

end Intake

/-! ## The checks of an update -/

def updateKinds : List String :=
  ["edited_message", "channel_post", "edited_channel_post", "callback_query", "business_message",
    "edited_business_message"]

def messageMarks : List String :=
  ["sender_chat", "forward_origin", "forward_from", "forward_from_chat", "reply_to_message", "external_reply",
    "message_thread_id", "is_topic_message", "photo", "video", "audio", "voice", "document", "sticker",
    "caption"]

/-- The first check under the lock, against the mark `last`. -/
def updateChecks (last : Int) (update : Update) : Except Exn (Int × Message) := do
  let unqualified : Exn := .boundary "governance.telegram_update_unqualified"
  let updateId ← fetch update.updateId unqualified
  ensure (0 ≤ updateId ∧ last < updateId) unqualified
  let message ← fetch update.message unqualified
  ensure (∀ name ∈ updateKinds, name ∉ update.kinds) unqualified
  return (updateId, message)

/-- `text.lstrip().startswith("/")` -/
def isCommand (text : String) : Bool := (text.toList.dropWhile Vector.isSpace).head? = some '/'

/-- The second check: the user, the chat and the text of the message. -/
def messageChecks (message : Message) : Except Exn (Int × Int × String) := do
  let unqualified : Exn := .boundary "governance.telegram_message_unqualified"
  let userId ← fetch (positiveId (message.fromUser.bind User.id)) unqualified
  let chatId ← fetch (positiveId (message.chat.bind Chat.id)) unqualified
  ensure (message.fromUser.bind User.isBot = some false ∧ message.chat.bind Chat.type = some "private")
    unqualified
  let text ← fetch message.text unqualified
  ensure (Vector.strip text.toList ≠ [] ∧ text.utf8ByteSize ≤ 65536 ∧ isCommand text = false)
    unqualified
  ensure (∀ name ∈ messageMarks, name ∉ message.marks) unqualified
  return (userId, chatId, text)

structure TelegramIntakeRequest where
  identity : RequestIdentity
  requestId : String
  text : String
  deriving DecidableEq, Repr

/-- `TELEGRAM_INTAKE_CONTRACT` -/
def intakeContract : String := "project-maya.telegram-polling-intake.v1"

/-- The record that admits an update. -/
def intakeRecord (botId : Int) (owner : RequestIdentity) (userId chatId updateId : Int) : AuditRecord where
  eventType := "authentication.telegram_intake"
  decision := "allow"
  reasonCode := "authentication.identity_bound"
  actorId := owner.actorId
  capability := "telegram.request"
  operation := "bind"
  target := hash (toString botId ++ ":" ++ toString userId ++ ":" ++ toString chatId)
  dataClassification := owner.dataClassification
  idempotencyKey := some (hash (toString botId ++ ":" ++ toString updateId))
  metadata := [("contract", intakeContract), ("qualification", "source_candidate_only")]

/-- `self._owners.get((user_id, chat_id))` -/
def Intake.owner (intake : Intake) (userId chatId : Int) : Option RequestIdentity :=
  (intake.owners.find? fun item => item.1 = (userId, chatId)).map Prod.snd

/-! ## A call of the intake -/

/-- How the environment answers at one action. -/
structure Choice where
  transport : Transport := {}
  requestId : Except Exn String := .ok ""
  /-- The calls of the intake that a callback makes before it ends. -/
  reenter : List (Update × Option Context) := []
  audit : Except Exn Unit := .ok ()
  consume : Except Exn Unit := .ok ()

instance : Inhabited Choice := ⟨{}⟩

/-- What `consume` is called with, and what the call had read before. -/
structure Entry where
  transport : Transport
  context : Context
  update : Update
  updateId : Int
  /-- the value of `_identity` -/
  identity : Option RequestIdentity
  request : TelegramIntakeRequest

inductive Event where
  /-- `audit_sink.write` returned. -/
  | wrote (record : AuditRecord)
  /-- `consume` was called. -/
  | consumed (entry : Entry)

/-- What the calls share.  That somebody holds the lock is all the code can see of `holder`;
`consuming`, who awaits `consume`, and `events`, oldest first, are history. -/
structure Shared where
  lastUpdate : Int := -1
  holder : Option Nat := none
  consuming : List Nat := []
  events : List Event := []

/-- A thread or task with the value of `_identity`.  Whether its call holds the lock, what it has
assigned to `_last_update`, and whether it has called `consume`, is history. -/
structure Task where
  id : Nat
  identity : Option RequestIdentity := none
  locked : Bool := false
  assigned : List Int := []
  consumed : Bool := false

abbrev Act (β : Type) := Action Choice Shared Task Exn β

abbrev Code (α : Type) := Prog Choice Shared Task Exn α

namespace Act

/-- A question to the environment. -/
def ask {β : Type} (answer : Choice → Except Exn β) : Act β where
  next c s t := (answer c, s, t)

/-- `self._lock.acquire(blocking=False)` -/
def acquire : Act Unit where
  next _ s t :=
    match s.holder with
    | none => (.ok (), { s with holder := some t.id }, { t with locked := true })
    | some _ => (.error (.boundary "governance.telegram_intake_busy"), s, t)

/-- `self._lock.release()` -/
def release : Act Unit where
  next _ s t := (.ok (), { s with holder := none }, { t with locked := false })

/-- `self._last_update` -/
def readMark : Act Int where
  next _ s t := (.ok s.lastUpdate, s, t)

/-- `self._last_update = update_id` -/
def assignMark (updateId : Int) : Act Unit where
  next _ s t := (.ok (), { s with lastUpdate := updateId }, { t with assigned := t.assigned ++ [updateId] })

/-- `self._audit.write(record)` returns or raises. -/
def write (record : AuditRecord) : Act Unit where
  next c s t :=
    match c.audit with
    | .ok () => (.ok (), { s with events := s.events ++ [.wrote record] }, t)
    | .error e => (.error e, s, t)

/-- `_identity.set(identity)`; the token has the value before. -/
def setIdentity (identity : RequestIdentity) : Act (Option RequestIdentity) where
  next _ s t := (.ok t.identity, s, { t with identity := some identity })

/-- `_identity.reset(token)` -/
def resetIdentity (token : Option RequestIdentity) : Act Unit where
  next _ s t := (.ok (), s, { t with identity := token })

/-- `consume` is called. -/
def enterConsume (entry : Option RequestIdentity → Entry) : Act Unit where
  next _ s t :=
    (.ok (), { s with consuming := t.id :: s.consuming, events := s.events ++ [.consumed (entry t.identity)] },
      { t with consumed := true })

/-- `consume` ends: it returns, raises or is cancelled. -/
def leaveConsume : Act Unit where
  next c s t := (c.consume, { s with consuming := s.consuming.erase t.id }, t)

end Act

def refuseIf (c : Prop) [Decidable c] (code : String) : Code Unit := .raiseIf c (.boundary code)

/-- `except Exception: raise GovernanceBoundaryError("governance.audit_unavailable")` -/
def auditError (e : Exn) : Exn := if e.isException then .boundary "governance.audit_unavailable" else e

/-- The `except` clauses around `consume`. -/
def dispatchError : Exn → Exn
  | .boundary code => .boundary code
  | e => if e.isException then .boundary "governance.telegram_dispatch_failed" else e

/-- `bind_request_identity` around a body. -/
def bindRequestIdentity (owner : RequestIdentity) (body : Code Unit) : Code Unit := do
  let identity ← .done (Intake.checked (requestIdentity owner.actorId owner.dataClassification))
  let token ← .perform (Act.setIdentity identity)
  Prog.ensuring body (.perform (Act.resetIdentity token))

section

-- What a call of the intake from a callback does.
variable (inner : Update → Option Context → Code Unit)

/-- The calls that a callback makes; it may catch what they raise. -/
def reenter : List (Update × Option Context) → Code Unit
  | [] => pure ()
  | (update, context) :: calls => (inner update context).andThen fun _ => reenter calls

/-- `self._audit.write(record)` -/
def auditWrite (record : AuditRecord) : Code Unit := do
  let calls ← .perform (Act.ask fun c => .ok c.reenter)
  reenter inner calls
  .perform (Act.write record)

/-- `await self._consume(request)` -/
def consume (entry : Option RequestIdentity → Entry) : Code Unit := do
  .perform (Act.enterConsume entry)
  let calls ← .perform (Act.ask fun c => .ok c.reenter)
  reenter inner calls
  .perform Act.leaveConsume

variable (intake : Intake)

/-- What follows the checks of an update. -/
def admitUpdate (transport : Transport) (context : Context) (update : Update) (updateId : Int)
    (owner : RequestIdentity) (userId chatId : Int) (text : String) : Code Unit := do
  let requestId ← .perform (Act.ask Choice.requestId)
  Prog.mapError (auditWrite inner (intakeRecord intake.botId owner userId chatId updateId))
    fun e => pure (auditError e)
  .perform (Act.assignMark updateId)
  bindRequestIdentity owner (Prog.mapError (consume inner fun identity =>
      { transport, context, update, updateId, identity, request := { identity := owner, requestId, text } })
    fun e => pure (dispatchError e))

/-- The body of the `try` statement of `__call__`. -/
def lockedCall (transport : Transport) (context : Context) (update : Update) : Code Unit := do
  let last ← .perform Act.readMark
  let (updateId, message) ← .done (updateChecks last update)
  let (userId, chatId, text) ← .done (messageChecks message)
  let owner ← .done (fetch (intake.owner userId chatId) (.boundary "governance.telegram_owner_unmapped"))
  admitUpdate inner intake transport context update updateId owner userId chatId text

/-- `__call__` -/
def handle (update : Update) (context : Option Context) : Code Unit := do
  let context ← .done (fetch context (.boundary "governance.telegram_transport_unqualified"))
  let transport ← .perform (Act.ask fun c => .ok c.transport)
  refuseIf (¬ Intake.Qualified intake.application intake.bot intake.botId transport (some context))
    "governance.telegram_transport_unqualified"
  .perform Act.acquire
  Prog.ensuring (lockedCall inner intake transport context update) (.perform Act.release)

end

/-- `__call__`, with calls inside of calls up to a depth. -/
def call (intake : Intake) : Nat → Update → Option Context → Code Unit
  | 0 => handle (fun _ _ => pure ()) intake
  | depth + 1 => handle (call intake depth) intake

/-- A call that the application makes. -/
structure Request where
  depth : Nat
  update : Update
  context : Option Context

/-- Any number of threads and tasks that call one intake.  One that is destroyed runs its `finally`
clauses. -/
def tasks (intake : Intake) : System Choice Shared Task Exn Request Unit where
  prog r := call intake r.depth r.update r.context
  enter t := { t with locked := false, assigned := [], consumed := false }
  die s t :=
    ({ s with
        holder := if s.holder = some t.id then none else s.holder
        consuming := s.consuming.erase t.id },
      { id := t.id })

end ProjectMaya.Telegram
