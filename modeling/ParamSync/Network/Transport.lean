import ParamSync.Network.Basic

/-!
# What a client asks of its connection

A client is written against these operations on some state, and not against the network itself:
what it does must be right for every connection, also one that fails at any moment. A client end
of the network is one instance; another accepts only so many messages.
-/

namespace ParamSync

/-- A connection whose state is a `σ`. -/
structure ClientTransport (σ : Type) where
  connect : Endpoint → σ → σ × Except TransportError Unit
  disconnect : σ → σ
  isConnected : σ → Bool
  send : Bytes → σ → σ × Except TransportError Unit
  /-- How many events wait to be taken. -/
  waiting : σ → Nat
  takeEvent? : σ → Option (LinkEvent × σ)

namespace ClientTransport

/-- A client end of the network. -/
def ofNetwork (c : ClientKey) : ClientTransport Network where
  connect endpoint n := n.connect c endpoint
  disconnect n := n.disconnect c
  isConnected n := n.isConnected c
  send data n := n.send c data
  waiting n := n.waitingEvents c
  takeEvent? n := n.takeEvent? c

variable {σ : Type}

/-- A connection that accepts only as many messages as its budget says; without a budget it
accepts all. -/
def limited (t : ClientTransport σ) : ClientTransport (σ × Option Nat) where
  connect endpoint s :=
    let (s', result) := t.connect endpoint s.1
    ((s', s.2), result)
  disconnect s := (t.disconnect s.1, s.2)
  isConnected s := t.isConnected s.1
  send data s :=
    match s.2 with
    | some 0 => (s, .error (.connectionClosed "send failed"))
    | budget =>
      let (s', result) := t.send data s.1
      ((s', budget.map (· - 1)), result)
  waiting s := t.waiting s.1
  takeEvent? s := (t.takeEvent? s.1).map fun (e, s') => (e, (s', s.2))

end ClientTransport
end ParamSync
