import TxHarbor.Nonce.AdminRun
import TxHarbor.Nonce.Allocate
import TxHarbor.Nonce.Reconcile
import TxHarbor.Transition.Run

open Relational

namespace TxHarbor.Nonce

/-- A successful return of an `Allocate` call. -/
structure Grant where
  request : AllocationRequest
  binding : Binding
  outcome : Outcome

/-- The database together with what callers hold: the calls whose race classify is still to run
and the successful returns so far. -/
structure World where
  store : Store
  races : List AllocationRequest
  grants : List Grant

def World.start : World := ⟨Store.empty, [], []⟩

/-- One step of an arbitrary interleaving. Each action carries its own chain view, clock, minted
identities and fault, so every schedule of concurrent callers, crashes and retries is a list of
actions. A race classify runs at any later moment, on the store of that moment. -/
inductive Action where
  | allocate (gate : RebuildGate) (view : ChainView) (env : Environment) (mint : Mint)
      (fault : Fault TxError) (req : AllocationRequest)
  | converge (index : Nat) (attempted : Option Int) (fault : Fault TxError)
  | reconcile (view : ChainView) (now : Int) (mint : Mint) (fault : Fault TxError) (scope : Scope)
  | admin (view : ChainView) (env : Environment) (mint : Mint) (fault : Fault TxError) (req : AdminRequest)

/-- What a call's progress leaves in the callers' hands. -/
def World.record (w : World) (req : AllocationRequest) : AllocateProgress → World
  | .returned (.bound binding outcome) => { w with grants := w.grants ++ [⟨req, binding, outcome⟩] }
  | .returned _ => w
  | .raced => { w with races := w.races ++ [req] }
  | .crashed => w

def World.next (w : World) : Action → World
  | .allocate gate view env mint fault req =>
    let step := Nonce.allocate gate view env mint fault req w.store
    { w with store := step.2 }.record req step.1
  | .converge index attempted fault =>
    match w.races[index]? with
    | none => w
    | some req =>
      { w with races := w.races.eraseIdx index }.record req (convergeAfterRace fault req attempted w.store)
  | .reconcile view now mint fault scope =>
    { w with store := reconcileScope view now mint fault scope w.store }
  | .admin view env mint fault req =>
    { w with store := (adminRun view env mint fault req w.store).2 }

/-- A world some interleaving leads to. -/
abbrev World.Reachable (w : World) : Prop := Transition.Reachable World.next .start w

/-! A small deployment on which runs can be evaluated: one wallet, one authorization, clear gates
and a database clock that stands still. -/

namespace Sample

def scope : Scope := ⟨1, "0x00000000000000000000000000000000000000aa"⟩

def env : Environment where
  gates := ⟨false, false, false, "", ""⟩
  authorizations := [⟨"auth-1", 1, "ETH", "0xbb", "1", "active", none⟩]
  clock := 0
  now := 0
  sha256Hex := id
  rfc3339Nano := toString

/-- A successful read of the two counts, given as hexadecimal quantities. -/
def view (latest pending : String) : ChainView where
  latest := .ok latest
  pending := .ok pending
  head := .ok (some ⟨some "0x1", "0x00000000000000000000000000000000000000000000000000000000000000ff"⟩)

def mint (hex : String) : Mint := ⟨some hex, some hex, some hex⟩

def request (intentID : String) : AllocationRequest := ⟨scope, intentID, "auth-1"⟩

def allocate (intentID hex latest pending : String) : Action :=
  .allocate ⟨true, ""⟩ (view latest pending) env (mint hex) .none (request intentID)

def reconcile (hex latest pending : String) : Action := .reconcile (view latest pending) 0 (mint hex) .none scope

def adminRequest (action : AdminAction) (operationID subjectID observationID : String) : AdminRequest :=
  ⟨scope, action, operationID, subjectID, subjectID, observationID, "checked", "ops", "routine"⟩

def admin (action : AdminAction) (operationID subjectID observationID hex latest pending : String) : Action :=
  .admin (view latest pending) env (mint hex) .none (adminRequest action operationID subjectID observationID)

def register : Action := admin .registryRegister "op-0" "" "" "0" "0x0" "0x0"

/-- The world after the given actions. -/
def after (actions : List Action) : World := Transition.run World.next .start actions

theorem after_reachable (actions : List Action) : (after actions).Reachable := ⟨actions, rfl⟩

end Sample

end TxHarbor.Nonce
