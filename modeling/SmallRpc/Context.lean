import SmallRpc.Buffer

/-! What both protocols share: the enumerations of protocol.proto and the data every
parser context carries. -/
namespace SmallRpc

inductive ConnType where
  | short
  | single
  | pool
  deriving DecidableEq, Repr

inductive RpcStatus where
  | ok
  | invalidPath
  deriving DecidableEq, Repr

inductive ParseProtocolStatus where
  | success
  | error
  | noEnoughData
  | tryAnotherProtocol
  | partSuccess
  deriving DecidableEq, Repr

/-- `ConnType_IsValid` together with the conversion it guards. -/
def ConnType.ofInt : Int → Option ConnType
  | 0 => some .short
  | 1 => some .single
  | 2 => some .pool
  | _ => none

def ConnType.toInt : ConnType → Int
  | .short => 0
  | .single => 1
  | .pool => 2

def RpcStatus.ofInt : Int → Option RpcStatus
  | 0 => some .ok
  | 1 => some .invalidPath
  | _ => none

def RpcStatus.toInt : RpcStatus → Int
  | .ok => 0
  | .invalidPath => 1

/-- Two calls in a row have returned. -/
theorem bind_ok {α β : Type} {x : Except Fault α} {f : α → Except Fault β} {r : β} :
    x >>= f = .ok r ↔ ∃ a, x = .ok a ∧ f a = .ok r := by
  cases x with
  | error e => exact ⟨nofun, fun ⟨_, h, _⟩ => nomatch h⟩
  | ok a => exact ⟨fun h => ⟨a, rfl, h⟩, fun ⟨_, h, k⟩ => by cases h; exact k⟩

/-- The base class. Its constructor leaves `_rpc_status` unset. -/
structure Context where
  connType : ConnType := .short
  rpcStatus : Option RpcStatus := none
  service : Bytes := []
  method : Bytes := []
  payloadView : BufferView := .null
  payload : Bytes := []
  deriving DecidableEq, Repr

/-- A range of storage a parser looked at, with the indices of the buffer at that
moment. -/
structure Access where
  lo : Nat
  hi : Nat
  rindex : Nat
  windex : Nat
  deriving DecidableEq, Repr

/-- Every byte of the range was received and not yet consumed. -/
def Access.Inside (a : Access) : Prop := a.lo < a.hi → a.rindex ≤ a.lo ∧ a.hi ≤ a.windex

instance (a : Access) : Decidable a.Inside := inferInstanceAs (Decidable (_ → _))

/-- One pass through a parser's loop: return to the caller, or go round again. -/
inductive Flow (σ : Type) where
  | ret (status : ParseProtocolStatus) (s : σ)
  | again (s : σ)
  deriving DecidableEq, Repr

/-- The loop of a parser, on the number of stages left; the pass after the last one
breaks out with `Success`. -/
def runStages {σ : Type} (stage : σ → Except Fault (Flow σ)) :
    Nat → σ → Except Fault (ParseProtocolStatus × σ)
  | 0, s => .ok (.success, s)
  | k + 1, s => do
    match ← stage s with
    | .ret status s => return (status, s)
    | .again s => runStages stage k s

section
variable {σ : Type} {stage : σ → Except Fault (Flow σ)} {s t : σ} {k : Nat}

theorem runStages_again (h : stage s = .ok (.again t)) :
    runStages stage (k + 1) s = runStages stage k t := by
  rw [runStages, h]
  rfl

theorem runStages_ret {status : ParseProtocolStatus} (h : stage s = .ok (.ret status t)) :
    runStages stage (k + 1) s = .ok (status, t) := by
  rw [runStages, h]
  rfl

theorem runStages_fault {f : Fault} (h : stage s = .error f) :
    runStages stage (k + 1) s = .error f := by
  rw [runStages, h]
  rfl

end

end SmallRpc
