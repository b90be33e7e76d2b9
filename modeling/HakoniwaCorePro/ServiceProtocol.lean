import HakoniwaCorePro.ServiceTable
import Mathlib.Algebra.Group.Int.Defs
import Mathlib.Algebra.Group.Nat.Defs

/-!
# The packets of the service protocol

The enumerations of `hako_service_protocol.hpp` and the two packet headers. How a header is
laid out in a packet is decided by the generated convertors, which are a parameter here.
-/

namespace HakoniwaCorePro
namespace Service

inductive OperationCode
  | request | cancel
  deriving DecidableEq

def OperationCode.code : OperationCode → ℕ
  | .request => 0
  | .cancel => 1

/-- `HAKO_SERVICE_OPERATION_NUM` -/
def operationNum : ℕ := 2

inductive ServiceStatus
  | none | doing | canceling | done | error
  deriving DecidableEq

def ServiceStatus.code : ServiceStatus → ℕ
  | .none => 0
  | .doing => 1
  | .canceling => 2
  | .done => 3
  | .error => 4

inductive ResultCode
  | ok | error | canceled | invalid | busy
  deriving DecidableEq

def ResultCode.code : ResultCode → ℤ
  | .ok => 0
  | .error => 1
  | .canceled => 2
  | .invalid => 3
  | .busy => 4

/-- `HAKO_SERVICE_RESULT_CODE_NUM` -/
def resultCodeNum : ℤ := 5

structure RequestHeader where
  requestId : ℕ
  serviceName : Name
  clientName : Name
  opcode : ℕ
  statusPollIntervalMsec : ℤ
  deriving DecidableEq

structure ResponseHeader where
  requestId : ℕ
  serviceName : Name
  clientName : Name
  status : ℕ
  processingPercentage : ℕ
  resultCode : ℤ
  deriving DecidableEq

/-- A header as it is before anything was assigned to it. -/
def RequestHeader.empty : RequestHeader := ⟨0, [], [], 0, 0⟩

def ResponseHeader.empty : ResponseHeader := ⟨0, [], [], 0, 0, 0⟩

/-- `PduConvertor`: `pdu2cpp` reads a header out of a packet, `cpp2pdu` makes the packet of a
header; either may fail. -/
structure Convertor (Header Pdu : Type) where
  pdu2cpp : Pdu → Option Header
  cpp2pdu : Header → Option Pdu

/-- The two convertors that a server and its clients have. -/
structure Convertors (Pdu : Type) where
  request : Convertor RequestHeader Pdu
  response : Convertor ResponseHeader Pdu

/-- A value kept in a 32-bit `int`. -/
def int32 (n : ℤ) : ℤ := n.bmod (2 ^ 32)

theorem int32_eq_iff (n : ℤ) : int32 n = n ↔ -2 ^ 31 ≤ n ∧ n < 2 ^ 31 := by
  unfold int32
  constructor
  · intro h
    have hlow := Int.le_bmod (x := n) (m := 2 ^ 32) (by decide)
    have hhigh := Int.bmod_lt (x := n) (m := 2 ^ 32) (by decide)
    omega
  · intro h
    rw [Int.bmod_eq_of_le] <;> omega

/-- An `int` assigned to a 32-bit unsigned field. -/
def uint32 (n : ℤ) : ℕ := (n % 2 ^ 32).toNat

/-- An `int` assigned to an 8-bit unsigned field. -/
def uint8 (n : ℤ) : ℕ := (n % 2 ^ 8).toNat

/-- `is_exist_client_on_service` -/
def ServiceEntry.isExistClient (client : Name) (e : ServiceEntry) : Bool :=
  (List.range e.maxClients).any fun k =>
    (e.clientChannelMap k).enabled && (e.clientChannelMap k).name == client

/-- `get_client_name` -/
def ServiceEntry.getClientName (e : ServiceEntry) (k : ℕ) : Name := (e.clientChannelMap k).name

end Service
end HakoniwaCorePro
