import HakoniwaCorePro.PointerMap
import HakoniwaCorePro.ServiceRegistration
import HakoniwaCorePro.ServiceServer

/-!
# The registry of servers

The map `service_servers` of a process, from service ids to servers, and the functions
`hako_asset_service_server_*` that look into it. What `initialize` finds for a new server is
outside.
-/

namespace HakoniwaCorePro
namespace Service

open Runs PointerMap

variable {Pdu : Type}

abbrev Registry (Pdu : Type) := PtrMap ℤ (ServerProtocol Pdu)

/-- What is outside during a call: whether the simulation is running, the generation of the run,
and the shared memory. -/
structure CallContext (Pdu : Type) where
  rpcAllowed : Bool
  runGeneration : ℕ
  view : ServerView Pdu

inductive Output (Pdu : Type)
  | nothing
  | channels (request response : ℤ)
  | status (code : ℤ)
  | packet (p : Pdu)

structure ApiAnswer (Pdu : Type) where
  code : ℤ
  output : Output Pdu

def ApiAnswer.failed : ApiAnswer Pdu := ⟨-1, .nothing⟩

/-- A function of one server, for an id that need not have one. -/
def access (allowed : Bool) (f : ServerProtocol Pdu → ServerProtocol Pdu × ApiAnswer Pdu) (id : ℤ)
    (r : Registry Pdu) : Registry Pdu × ApiAnswer Pdu :=
  if allowed then
    match r.get id with
    | none => (r.index id, .failed)
    | some s => ((r.index id).insert id (f s).1, (f s).2)
  else (r, .failed)

/-- `HAKO_SERVICE_SERVER_API_*` -/
def ServerEvent.apiCode : ServerEvent → ℤ
  | .none => 0
  | .requestIn => 1
  | .requestCancel => 2

def ServerState.code : ServerState → ℤ
  | .idle => 0
  | .doing => 1
  | .canceling => 2

def serviceServerPoll (conv : Convertors Pdu) (c : CallContext Pdu) :
    ℤ → Registry Pdu → Registry Pdu × ApiAnswer Pdu :=
  access c.rpcAllowed fun s =>
    let p := poll conv c.runGeneration c.view s
    (p.protocol, ⟨p.event.apiCode, .nothing⟩)

def serviceServerGetCurrentClientId : ℤ → Registry Pdu → Registry Pdu × ApiAnswer Pdu :=
  access true fun s => (s, ⟨s.currentClientId, .nothing⟩)

/-- `get_current_request_channel_id` and `get_current_response_channel_id` of the server -/
def currentChannelId (channel : ClientChannelMap → ℕ) (v : ServerView Pdu)
    (s : ServerProtocol Pdu) : ℤ :=
  if s.currentClientId < s.server.maxClients then channel (v.entry.clientChannelMap s.currentClientId)
  else -1

def serviceServerGetCurrentChannelId (c : CallContext Pdu) (nullArgument : Bool) :
    ℤ → Registry Pdu → Registry Pdu × ApiAnswer Pdu :=
  access true fun s =>
    if nullArgument then (s, .failed)
    else
      (s, ⟨0, .channels (currentChannelId ClientChannelMap.requestChannelId c.view s)
        (currentChannelId ClientChannelMap.responseChannelId c.view s)⟩)

def serviceServerStatus (nullArgument : Bool) : ℤ → Registry Pdu → Registry Pdu × ApiAnswer Pdu :=
  access true fun s =>
    if nullArgument then (s, .failed) else (s, ⟨0, .status s.currentState.code⟩)

def ApiAnswer.buffer : Option Pdu → ApiAnswer Pdu
  | none => .failed
  | some p => ⟨0, .packet p⟩

def serviceServerGetRequest : ℤ → Registry Pdu → Registry Pdu × ApiAnswer Pdu :=
  access true fun s => (s, .buffer (getRequest s))

def serviceServerGetResponseBuffer (conv : Convertors Pdu) (c : CallContext Pdu)
    (status : ServiceStatus) (code : ResultCode) :
    ℤ → Registry Pdu → Registry Pdu × ApiAnswer Pdu :=
  access true fun s => (s, .buffer (getResponseBuffer conv c.view status code s))

/-- `none` is a null packet, or one of length 0. -/
def serviceServerPutResponse (c : CallContext Pdu) (packet : Option Pdu) :
    ℤ → Registry Pdu → Registry Pdu × ApiAnswer Pdu :=
  access c.rpcAllowed fun s =>
    match packet with
    | none => (s, .failed)
    | some p =>
      let r := replyToCurrentRequest c.runGeneration c.view p s
      (r.protocol, ⟨if r.returned then 0 else -1, .nothing⟩)

def serviceServerIsCanceled : ℤ → Registry Pdu → Registry Pdu × ApiAnswer Pdu :=
  access true fun s => (s, ⟨if s.currentState = .canceling then -1 else 0, .nothing⟩)

def serviceServerSetProgress (percentage : ℤ) : ℤ → Registry Pdu → Registry Pdu × ApiAnswer Pdu :=
  access true fun s => (putProgress percentage s, ⟨0, .nothing⟩)

inductive Accessor (Pdu : Type)
  | poll
  | getCurrentClientId
  | getCurrentChannelId (nullArgument : Bool)
  | status (nullArgument : Bool)
  | getRequest
  | getResponseBuffer (status : ServiceStatus) (code : ResultCode)
  | putResponse (packet : Option Pdu)
  | isCanceled
  | setProgress (percentage : ℤ)

def Accessor.perform (conv : Convertors Pdu) (c : CallContext Pdu) :
    Accessor Pdu → ℤ → Registry Pdu → Registry Pdu × ApiAnswer Pdu
  | .poll => serviceServerPoll conv c
  | .getCurrentClientId => serviceServerGetCurrentClientId
  | .getCurrentChannelId nullArgument => serviceServerGetCurrentChannelId c nullArgument
  | .status nullArgument => serviceServerStatus nullArgument
  | .getRequest => serviceServerGetRequest
  | .getResponseBuffer st code => serviceServerGetResponseBuffer conv c st code
  | .putResponse packet => serviceServerPutResponse c packet
  | .isCanceled => serviceServerIsCanceled
  | .setProgress percentage => serviceServerSetProgress percentage

/-- A server that was initialized: the id that `create_service` gave, and what the service's entry
and the run were. -/
structure Initialized where
  serviceId : ℤ
  maxClients : ℕ
  runGeneration : ℕ

inductive CreateOutcome
  | returned (id : ℤ)
  | nullDereference
  deriving DecidableEq

def isNamed (name : Name) (s : ServerProtocol Pdu) : Bool := s.server.serviceName == name

/-- `init` is `none` where `initialize` fails. -/
def serviceServerCreate (order : Order ℤ) (name : Name) (init : Option Initialized)
    (r : Registry Pdu) : Registry Pdu × CreateOutcome :=
  match r.walk (isNamed name) (order.visit r.keys) with
  | .nullDereference => (r, .nullDereference)
  | .found id => (r, .returned id)
  | .exhausted =>
    match init with
    | none => (r, .returned (-1))
    | some i =>
      if i.serviceId < 0 then (r, .returned (-1))
      else
        (r.insert i.serviceId (.initial name i.maxClients i.runGeneration), .returned i.serviceId)

inductive RegistryCall (Pdu : Type)
  | create (order : Order ℤ) (name : Name) (init : Option Initialized)
  | access (a : Accessor Pdu) (c : CallContext Pdu) (id : ℤ)

def registryStep (conv : Convertors Pdu) (r : Registry Pdu) : RegistryCall Pdu → Registry Pdu
  | .create order name init => (serviceServerCreate order name init r).1
  | .access a c id => (a.perform conv c id r).1

def HasServer (r : Registry Pdu) (name : Name) (id : ℤ) : Prop :=
  ∃ s, r.get id = some s ∧ s.server.serviceName = name

/-- The ids that a creation of the name may return, with the registry that it leaves. -/
inductive CreateSound (r : Registry Pdu) (name : Name) (init : Option Initialized)
    (r' : Registry Pdu) (id : ℤ) : Prop
  | registered (h : HasServer r name id) (same : r' = r)
  | failed (minus : id = -1) (h : ∀ i ∈ init, i.serviceId < 0) (same : r' = r)
  | new (s : ServerProtocol Pdu) (h : ∀ id, ¬ HasServer r name id) (free : r.get id = none)
      (named : s.server.serviceName = name) (get : r'.get = Function.update r.get id (some s))

/-- A call for an id without a server returns -1 and leaves the servers as they are; a creation
follows no null pointer, and returns the server of the name or registers one more. -/
def Survives (conv : Convertors Pdu) (r : Registry Pdu) : RegistryCall Pdu → Prop
  | .create order name init => ∃ id, (serviceServerCreate order name init r).2 = .returned id ∧
      CreateSound r name init (serviceServerCreate order name init r).1 id
  | .access a c id => r.get id = none →
      (a.perform conv c id r).2.code = -1 ∧ (a.perform conv c id r).1.get = r.get

/-- No null entry comes before a server of the name, and the id of a new server is free. -/
def CreateClear (r : Registry Pdu) : RegistryCall Pdu → Prop
  | .create order name init => ¬ r.NullFirst (isNamed name) (order.visit r.keys) ∧
      ((∀ id, ¬ HasServer r name id) →
        ∀ i ∈ init, 0 ≤ i.serviceId → r.get i.serviceId = none)
  | .access _ _ _ => True

theorem access_unknown {r : Registry Pdu} {id : ℤ} (h : r.get id = none) (allowed : Bool)
    (f : ServerProtocol Pdu → ServerProtocol Pdu × ApiAnswer Pdu) :
    (access allowed f id r).2.code = -1 ∧ (access allowed f id r).1.get = r.get := by
  cases allowed with
  | false => exact ⟨rfl, rfl⟩
  | true => simp [access, h, ApiAnswer.failed]

theorem perform_unknown (conv : Convertors Pdu) (c : CallContext Pdu) (a : Accessor Pdu) {id : ℤ}
    {r : Registry Pdu} (h : r.get id = none) :
    (a.perform conv c id r).2.code = -1 ∧ (a.perform conv c id r).1.get = r.get := by
  cases a <;> exact access_unknown h _ _

theorem hasServer_iff {r : Registry Pdu} {name : Name} {id : ℤ} :
    HasServer r name id ↔ ∃ s, r.get id = some s ∧ isNamed name s = true := by
  simp [HasServer, isNamed]

theorem no_server_of_passed {r : Registry Pdu} {name : Name} {order : Order ℤ}
    (h : r.Passed (isNamed name) (order.visit r.keys)) (id : ℤ) : ¬ HasServer r name id := by
  rw [hasServer_iff]
  rintro ⟨s, hs, hnamed⟩
  rw [passed_visit h hs] at hnamed
  cases hnamed

theorem create_exhausted_iff {r : Registry Pdu} {name : Name} {order : Order ℤ}
    (h : r.walk (isNamed name) (order.visit r.keys) = .exhausted) (conv : Convertors Pdu)
    (init : Option Initialized) :
    Survives conv r (.create order name init) ↔
      ∀ i ∈ init, 0 ≤ i.serviceId → r.get i.serviceId = none := by
  have hnone := no_server_of_passed (walk_exhausted_iff.mp h)
  cases init with
  | none =>
    simp only [Survives, serviceServerCreate, h, Option.not_mem_none, false_implies, implies_true,
      iff_true]
    exact ⟨-1, rfl, .failed rfl nofun rfl⟩
  | some i =>
    simp only [Survives, serviceServerCreate, h, Option.mem_some_iff, forall_eq']
    by_cases hneg : i.serviceId < 0
    · simp only [hneg, if_true, Int.not_le.mpr hneg, false_implies, iff_true]
      refine ⟨-1, rfl, .failed rfl ?_ rfl⟩
      intro j hj
      obtain rfl := Option.some.inj hj
      exact hneg
    · simp only [hneg, if_false, Int.not_lt.mp hneg, true_implies]
      constructor
      · rintro ⟨id, hid, hsound⟩
        obtain rfl := CreateOutcome.returned.inj hid
        cases hsound with
        | registered hserver => exact absurd hserver (hnone _)
        | failed _ hfail => exact absurd (hfail i rfl) hneg
        | new s _ hfree => exact hfree
      · intro hfree
        exact ⟨i.serviceId, rfl, .new _ hnone hfree rfl rfl⟩

theorem survives_iff (conv : Convertors Pdu) (r : Registry Pdu) (a : RegistryCall Pdu) :
    Survives conv r a ↔ CreateClear r a := by
  cases a with
  | access a c id =>
    simp only [CreateClear, iff_true]
    exact perform_unknown conv c a
  | create order name init =>
    cases hwalk : r.walk (isNamed name) (order.visit r.keys) with
    | nullDereference =>
      have hnull := walk_null_iff.mp hwalk
      simp [Survives, CreateClear, serviceServerCreate, hwalk, hnull]
    | found id =>
      have hserver := hasServer_iff.mpr (walk_found hwalk)
      have hnull : ¬ r.NullFirst (isNamed name) (order.visit r.keys) := by
        rw [← walk_null_iff, hwalk]
        nofun
      constructor
      · intro _
        exact ⟨hnull, fun hnone => absurd hserver (hnone id)⟩
      · intro _
        refine ⟨id, ?_, ?_⟩
        · simp [serviceServerCreate, hwalk]
        · apply CreateSound.registered hserver
          simp [serviceServerCreate, hwalk]
    | exhausted =>
      have hnone := no_server_of_passed (walk_exhausted_iff.mp hwalk)
      have hnull : ¬ r.NullFirst (isNamed name) (order.visit r.keys) := by
        rw [← walk_null_iff, hwalk]
        nofun
      rw [create_exhausted_iff hwalk]
      constructor
      · intro hfree
        exact ⟨hnull, fun _ => hfree⟩
      · intro hclear
        exact hclear.2 hnone

/-- The calls of a process keep their promises throughout if and only if every creation is made
while no null entry stands in its way and the id it gets is free. -/
theorem registry_survives_iff (conv : Convertors Pdu) (calls : List (RegistryCall Pdu)) :
    Along (registryStep conv) (Survives conv) .empty calls ↔
      Along (registryStep conv) CreateClear .empty calls :=
  along_iff_of_invariant (I := fun _ => True) (fun _ _ _ _ => trivial)
    (fun r a _ => survives_iff conv r a) trivial

/-- The order in which the entries were made, the last one first. -/
def newestFirst : Order ℤ := ⟨id, fun l => List.Perm.refl l⟩

/-- Convertors that can do nothing, and a simulation in which nothing has arrived. -/
def deafConvertors : Convertors Unit := ⟨⟨fun _ => none, fun _ => none⟩, ⟨fun _ => none, fun _ => none⟩⟩

def quietContext : CallContext Unit := ⟨true, 0, ⟨0, zeroEntry, fun _ => none, fun _ => false⟩⟩

/-- After one question about an id 7 that was never registered, no server can be created. -/
theorem unknown_id_then_create :
    ¬ Along (registryStep deafConvertors) (Survives deafConvertors) .empty
      [.access .isCanceled quietContext 7, .create newestFirst [120] none] := by
  rintro ⟨-, ⟨id, hreturned, -⟩, -⟩
  exact CreateOutcome.noConfusion hreturned

end Service
end HakoniwaCorePro
