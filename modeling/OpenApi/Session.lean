import OpenApi.Event
import OpenApi.Outcome
import OpenApi.Request
/-! # Sessions

A session sends requests with defaults of its own or with those of the process. Entering it opens
a connection that is kept for all requests until it is left; otherwise each request has a connection
of its own. What happens to a request on the way is a delivery.
-/
namespace OpenApi

structure Session where
  /-- The defaults of the session; without them those of the process count. -/
  own : Option Defaults
  /-- The connection that is kept. -/
  kept : Option Nat
  /-- The connections that are open, each by its number. -/
  live : List Nat
  /-- How many connections were opened. -/
  opened : Nat

inductive Delivery where
  | replied (status : Int) (contentType : Option String) (text : String)
  /-- The body of the reply could not be read to its end. -/
  | brokeOff (status : Int) (contentType : Option String) (reason : String)
  | undelivered (reason : String)

structure Exchange where
  request : Request
  reply : Except Fault Reply
  journal : Journal

def Exchange.ofDelivery (r : Request) : Delivery → Exchange
  | .replied status contentType text =>
    ⟨r, .ok ⟨status, contentType, some text⟩, [.answered r.method r.url status]⟩
  | .brokeOff status contentType reason =>
    ⟨r, .ok ⟨status, contentType, none⟩,
      [.unreadable r.method r.url reason, .answered r.method r.url status]⟩
  | .undelivered reason => ⟨r, .error (.undelivered r.url reason), []⟩

namespace Session

def start (own : Option Defaults) : Session := ⟨own, none, [], 0⟩

def defaults (s : Session) (process : Defaults) : Defaults := s.own.getD process

/-- Whether a connection is kept. -/
def isOpen (s : Session) : Bool := s.kept.isSome

def connect (s : Session) : Nat × Session :=
  (s.opened, { s with live := s.opened :: s.live, opened := s.opened + 1 })

def close (s : Session) (connection : Nat) : Session :=
  { s with live := s.live.erase connection }

def enter (s : Session) : Session :=
  let (connection, s) := s.connect
  { s with kept := some connection }

def exit (s : Session) : Session :=
  match s.kept with
  | some connection => { s.close connection with kept := none }
  | none => s

/-- The connection for a request: the one that is kept, or else a new one. -/
def acquire (s : Session) : Nat × Session :=
  match s.kept with
  | some connection => (connection, s)
  | none => s.connect

/-- Closes the connection of a request, unless it is the one that is kept. -/
def release (s : Session) (connection : Nat) : Session :=
  if s.kept = some connection then s else s.close connection

def fetch (s : Session) (process : Defaults) (url : String) (o : CallOptions) (accept : Value)
    (send : Request → Delivery) : Except Fault Exchange := do
  let r ← Request.build url o (s.defaults process) accept
  return .ofDelivery r (send r)

/-- Sends a request for a URL. Its connection is released whether it fails or not. -/
def exchange (s : Session) (process : Defaults) (url : String) (o : CallOptions) (accept : Value)
    (send : Request → Delivery) : Except Fault Exchange × Session :=
  let (connection, s) := s.acquire
  (s.fetch process url o accept send, s.release connection)

end Session

end OpenApi
