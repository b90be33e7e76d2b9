import HakoniwaCorePro.Fallible
import HakoniwaCorePro.ServiceProtocol

/-!
# Reading a service configuration

`initialize_service`: the JSON file is read, and for each item of its `services` the channels of
all clients are created and the service is appended to the list of the process. The core's
`create_lchannel` is a parameter.
-/

namespace HakoniwaCorePro
namespace Service

open Fallible

/-- A parsed JSON text. A number with a fraction or an exponent is kept as its integer part, which
is what a conversion to `int` takes of it; the members of an object have different keys. -/
inductive Json
  | null
  | boolean (b : Bool)
  | integer (n : ℤ)
  | decimal (integerPart : ℤ)
  | string (s : Name)
  | array (items : List Json)
  | object (members : List (String × Json))

/-- An access that gives no value: the library throws, or, where an object that is const has no
such member, there is no defined outcome. -/
inductive Fault
  | thrown | undefined
  deriving DecidableEq

abbrev Access := Except Fault

/-- `operator[]` on a const value -/
def Json.member (key : String) : Json → Access Json
  | .object members =>
    match members.find? fun m => m.1 == key with
    | some m => .ok m.2
    | none => .error .undefined
  | _ => .error .thrown

/-- `operator[]` on a value that is not const adds a missing member, as `null`. -/
def Json.memberOrNull (key : String) : Json → Access Json
  | .object members => .ok (((members.find? fun m => m.1 == key).map Prod.snd).getD .null)
  | .null => .ok .null
  | _ => .error .thrown

def Json.toName : Json → Access Name
  | .string s => .ok s
  | _ => .error .thrown

/-- The conversion to `int`: numbers are narrowed to 32 bits, booleans are 0 and 1. -/
def Json.toInt : Json → Access ℤ
  | .integer n | .decimal n => .ok (int32 n)
  | .boolean b => .ok (if b then 1 else 0)
  | _ => .error .thrown

def Json.items : Json → List Json
  | .null => []
  | .array items => items
  | .object members => members.map Prod.snd
  | v => [v]

/-- `Service`, what the process keeps of an item of `services`. -/
structure ConfiguredService where
  name : Name
  type : Name
  maxClients : ℤ
  pduSizeServerBase : ℤ
  pduSizeClientBase : ℤ
  pduSizeServerHeap : ℤ
  pduSizeClientHeap : ℤ
  serverTotalSize : ℕ
  clientTotalSize : ℕ

def sizeT (n : ℤ) : ℕ := (n % 2 ^ 64).toNat

/-- The sum is made as an `int`. -/
def totalSize (pduMetaDataSize base heap : ℤ) : ℕ :=
  sizeT (int32 (int32 (pduMetaDataSize + base) + heap))

def readService (pduMetaDataSize : ℤ) (item : Json) : Access ConfiguredService := do
  let name ← (← item.member "name").toName
  let type ← (← item.member "type").toName
  let maxClients ← (← item.member "maxClients").toInt
  let pduSize ← item.member "pduSize"
  let serverBase ← (← (← pduSize.member "server").member "baseSize").toInt
  let clientBase ← (← (← pduSize.member "client").member "baseSize").toInt
  let serverHeap ← (← (← pduSize.member "server").member "heapSize").toInt
  let clientHeap ← (← (← pduSize.member "client").member "heapSize").toInt
  return {
    name := name
    type := type
    maxClients := maxClients
    pduSizeServerBase := serverBase
    pduSizeClientBase := clientBase
    pduSizeServerHeap := serverHeap
    pduSizeClientHeap := clientHeap
    serverTotalSize := totalSize pduMetaDataSize serverBase serverHeap
    clientTotalSize := totalSize pduMetaDataSize clientBase clientHeap }

/-- `create_lchannel` on the channels `σ` of the core: the name, the channel id and the size. -/
structure Core (σ : Type) where
  createLchannel : Name → ℕ → ℕ → σ → Bool × σ

/-- `service_impl_.services` of the process, and the channels of the core. -/
structure Process (σ : Type) where
  services : List ConfiguredService
  channels : σ

/-- A call that returns, or that reached an access without a defined outcome. -/
inductive SetupResult
  | returned (accepted : Bool)
  | undefined
  deriving DecidableEq

inductive ConfigText
  | emptyPath | unopened | malformed
  | parsed (param : Json)

section

variable {σ : Type} (core : Core σ)

def createChannels (s : ConfiguredService) : List ℕ → σ → Bool × σ
  | [], w => (true, w)
  | i :: is, w =>
    match core.createLchannel s.name (serverChannelId i) s.serverTotalSize w with
    | (false, w) => (false, w)
    | (true, w) =>
      match core.createLchannel s.name (clientChannelId i) s.clientTotalSize w with
      | (false, w) => (false, w)
      | (true, w) => createChannels s is w

def ConfiguredService.createAll (s : ConfiguredService) (w : σ) : Bool × σ :=
  createChannels core s (List.range s.maxClients.toNat) w

def initializeItems (pduMetaDataSize : ℤ) : List Json → Process σ → Process σ × SetupResult
  | [], p => (p, .returned true)
  | item :: items, p =>
    match readService pduMetaDataSize item with
    | .error .thrown => (p, .returned false)
    | .error .undefined => (p, .undefined)
    | .ok s =>
      match s.createAll core p.channels with
      | (false, w) => ({ p with channels := w }, .returned false)
      | (true, w) => initializeItems pduMetaDataSize items ⟨p.services ++ [s], w⟩

/-- `pduMetaDataSize` and the items of `services`, which are looked up in this order. -/
def readConfig (param : Json) : Access (ℤ × List Json) := do
  let pduMetaDataSize ← (← param.memberOrNull "pduMetaDataSize").toInt
  let services ← param.memberOrNull "services"
  return (pduMetaDataSize, services.items)

def initializeService (text : ConfigText) (p : Process σ) : Process σ × SetupResult :=
  match text with
  | .emptyPath | .unopened | .malformed => (p, .returned false)
  | .parsed param =>
    match readConfig param with
    | .error .thrown => (p, .returned false)
    | .error .undefined => (p, .undefined)
    | .ok (pduMetaDataSize, items) => initializeItems core pduMetaDataSize items p

end

/-- What `set_service_data` reads of a service. A loop up to a negative `maxClients` is a loop up
to 0. -/
def ConfiguredService.toDef (s : ConfiguredService) : ServiceDef :=
  ⟨s.name, s.maxClients.toNat, s.serverTotalSize, s.clientTotalSize⟩

end Service
end HakoniwaCorePro
