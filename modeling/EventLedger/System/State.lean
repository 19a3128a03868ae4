import EventLedger.Account.Main
import EventLedger.Gateway.Main

-- The two services and the messages between them.
namespace System

open Http

open Gateway (Client Operation Tag Sent TransportError)
open Account (TransactionRow)

structure Replied where
  tag : Tag
  response : Response

-- A request that the Account Service has handled, and whether this has inserted a row.
structure Delivery where
  sent : Sent
  order : RowOrder TransactionRow
  now : Civil
  inserted : Bool

-- The messages under way are delivered in any order, each at most once. What the Account Service
-- has handled is kept for the record.
structure State where
  gateway : Gateway.State
  account : Account.State
  requests : List Sent
  replies : List Replied
  deliveries : List Delivery

namespace State

def init : State where
  gateway := .init
  account := .init
  requests := []
  replies := []
  deliveries := []

def gatewayStep (s : State) (r : Gateway.State × Option Sent) : State :=
  { s with gateway := r.1, requests := s.requests ++ r.2.toList }

def deliver (s : State) (i : ℕ) (order : RowOrder TransactionRow) (now : Civil) : Option State :=
  s.requests[i]?.map fun sent =>
    let (response, account) := s.account.handle order now sent.request
    let inserted := account.transactions.rows.length ≠ s.account.transactions.rows.length
    { s with
      account
      requests := s.requests.eraseIdx i
      replies := s.replies ++ [{ tag := sent.tag, response }]
      deliveries := s.deliveries ++ [{ sent, order, now, inserted }] }

-- Whether the handler of an attempt still awaits it.
def awaits (s : State) (tag : Tag) : Bool :=
  match s.gateway.handlers tag.handler with
  | some ⟨_, attempt, .calling⟩ => attempt = tag.attempt
  | _                           => false

def receive (client : Client) (s : State) (i : ℕ) (now : Civil) : Option State :=
  s.replies[i]?.bind fun reply =>
    if s.awaits reply.tag then
      (s.gateway.settle client reply.tag.handler now (.response reply.response)).map fun gateway =>
        { s with gateway, replies := s.replies.eraseIdx i }
    else
      none

end State

inductive Action
  -- A client of the Gateway sends a request.
  | begin (operation : Operation)
  -- The Account Service handles a request that is under way.
  | deliver (i : ℕ) (order : RowOrder TransactionRow) (now : Civil)
  -- The Gateway receives a reply that is under way.
  | receive (i : ℕ) (now : Civil)
  -- An attempt ends without a reply: it is lost, late, or cut off.
  | fail (id : ℕ) (now : Civil) (e : TransportError)
  | wake (id : ℕ)
  | wait (duration : ℚ)
  | loseRequest (i : ℕ)
  | loseReply (i : ℕ)
  -- A process stops and starts again with its database.
  | restartGateway
  | restartAccount

def State.step (client : Client) (s : State) : Action → Option State
  | .begin operation     => (s.gateway.step client (.begin operation)).map s.gatewayStep
  | .deliver i order now => s.deliver i order now
  | .receive i now       => s.receive client i now
  | .fail id now e       => (s.gateway.step client (.settle id now (.error e))).map s.gatewayStep
  | .wake id             => (s.gateway.step client (.wake id)).map s.gatewayStep
  | .wait duration       => (s.gateway.step client (.wait duration)).map s.gatewayStep
  | .loseRequest i       => some { s with requests := s.requests.eraseIdx i }
  | .loseReply i         => some { s with replies := s.replies.eraseIdx i }
  | .restartGateway      => (s.gateway.step client .restart).map s.gatewayStep
  | .restartAccount      => some { s with account := { s.account with metrics := .empty } }

def machine (client : Client) : Machine State Action where
  init := .init
  step := State.step client

end System
