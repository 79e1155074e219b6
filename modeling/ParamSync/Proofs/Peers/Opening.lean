import ParamSync.Proofs.Peers.Ports

/-!
# Opening and closing

What connecting, disconnecting, binding and unbinding do is said by what is seen of the network
afterwards: what each server end has bound and takes messages of, the roster and the mailbox of each
listener, the link and the news of each client end. A connection gets a number that nobody has; an
end that is unbound closes every connection that it has and takes no more messages, so the listener
that it leaves behind has an empty roster.

Results:
* `connect_eq`, `Coherent.bind_eq`, `Coherent.unbind_eq`: the operations as what they close, then
  what they open.
* `Coherent.perform`: every operation of an end that is there keeps the tables together.
-/

namespace ParamSync
namespace Network

variable {n n' : Network} {c x : ClientKey} {s : ServerKey} {l : ListenerKey} {id : ConnectionId}

/-! ## Who is connected -/

/-- Whether a client end is connected is seen from its link and the rosters. -/
theorem isConnected_congr (hlink : n'.link? x = n.link? x)
    (hroster : ∀ l, n'.roster l = n.roster l) : n'.isConnected x = n.isConnected x := by
  rw [isConnected, isConnected, hlink]
  simp only [hroster]

theorem SamePorts.isConnected (h : SamePorts n n') (x : ClientKey) :
    n'.isConnected x = n.isConnected x :=
  isConnected_congr (h.link x) h.roster

theorem isConnected_of_link?_eq_none (h : n.link? c = none) : n.isConnected c = false := by
  rw [isConnected, h]
  rfl

/-! ## Closing and opening connections -/

theorem disconnect_of_none (h : n.link? c = none) : n.disconnect c = n := by
  rw [disconnect, h]

section Disconnect

variable {link : Link} (hlink : n.link? c = some link)
include hlink

theorem disconnect_eq : n.disconnect c =
    ((n.onRoster link.listener (·.erase link.connection)).onClient c fun d =>
      { d with link := none }).tell c .disconnected := by
  rw [disconnect, hlink]

theorem client?_disconnect (x : ClientKey) : (n.disconnect c).client? x =
    if x = c then (n.client? x).map fun d => ⟨none, d.events.push .disconnected⟩
    else n.client? x := by
  rw [disconnect_eq hlink, client?_tell, client?_onClient]
  split
  · rw [Option.map_map]; rfl
  · rfl

theorem servers_disconnect : (n.disconnect c).servers = n.servers := by
  rw [disconnect_eq hlink]
  rfl

theorem mailbox?_disconnect (l : ListenerKey) : (n.disconnect c).mailbox? l = n.mailbox? l := by
  rw [disconnect_eq hlink]
  exact n.mailbox?_onRoster link.listener l (·.erase link.connection)

theorem roster_disconnect (l : ListenerKey) : (n.disconnect c).roster l =
    if l = link.listener then (n.roster l).erase link.connection else n.roster l := by
  rw [disconnect_eq hlink]
  exact roster_onRoster (f := (·.erase link.connection)) (fun _ => Std.ExtTreeMap.erase_empty) l

theorem link?_disconnect (x : ClientKey) :
    (n.disconnect c).link? x = if x = c then none else n.link? x := by
  rw [link?, client?_disconnect hlink, link?]
  split
  · cases n.client? x <;> rfl
  · rfl

theorem news_disconnect (x : ClientKey) :
    (n.disconnect c).news x = if x = c then n.news x ++ [.disconnected] else n.news x := by
  rw [news, client?_disconnect hlink, news]
  split
  · next hx =>
    obtain ⟨d, hd, -⟩ := Option.bind_eq_some_iff.1 hlink
    simp [hx, hd]
  · rfl

theorem inbox_disconnect (s : ServerKey) : (n.disconnect c).inbox s = n.inbox s := by
  rw [inbox, inbox, receiver?_congr (servers_disconnect hlink),
    funext (mailbox?_disconnect hlink)]

theorem closes_disconnect (hn : Coherent n) : Closes n (n.disconnect c) := by
  refine ⟨by rw [disconnect_eq hlink]; rfl, servers_disconnect hlink, fun l => ?_, fun x => ?_,
    by rw [disconnect_eq hlink]; exact ⟨rfl, rfl, rfl⟩, ?_, ?_⟩
  · rw [mailbox?_disconnect hlink]
  · rw [client?_disconnect hlink]
    split
    · exact Option.map_eq_none_iff
    · rfl
  · intro l id x hid
    have hold : (n.roster l)[id]? = some x ∧ (l = link.listener → id ≠ link.connection) := by
      rw [roster_disconnect hlink] at hid
      split at hid
      · rw [Std.ExtTreeMap.getElem?_erase] at hid
        split at hid
        · cases hid
        · next hne => exact ⟨hid, fun _ heq => hne (by rw [heq]; exact Std.ReflCmp.compare_self)⟩
      · next hl => exact ⟨hid, fun heq => absurd heq hl⟩
    refine ⟨hold.1, ?_⟩
    rw [link?_disconnect hlink, if_neg]
    rintro rfl
    cases hlink.symm.trans (hn.entry hold.1).1
    exact hold.2 rfl rfl
  · intro x link' hx
    rw [link?_disconnect hlink] at hx
    split at hx
    · cases hx
    · exact hx

/-- The connections of other client ends stay open. -/
theorem isConnected_disconnect (hn : Coherent n) (hx : x ≠ c) :
    (n.disconnect c).isConnected x = n.isConnected x := by
  rw [isConnected, isConnected, link?_disconnect hlink, if_neg hx]
  cases hlink' : n.link? x with
  | none => rfl
  | some link' =>
    rw [Option.any_some, Option.any_some, roster_disconnect hlink]
    split
    · have hne : link.connection ≠ link'.connection := fun heq =>
        hx (hn.sole hlink' hlink heq.symm)
      rw [Std.ExtTreeMap.contains_erase]
      simp [hne]
    · rfl

end Disconnect

theorem Coherent.disconnect (h : Coherent n) (c : ClientKey) : Coherent (n.disconnect c) := by
  cases hlink : n.link? c with
  | none => rwa [disconnect_of_none hlink]
  | some link => exact h.closes (closes_disconnect hlink h)

/-- A client end that has disconnected is still there, without a link. -/
theorem gone_disconnect (h : Coherent n) (hc : n.client? c ≠ none) :
    (n.disconnect c).client? c ≠ none ∧ (n.disconnect c).link? c = none := by
  cases hlink : n.link? c with
  | none => exact ⟨by rwa [disconnect_of_none hlink], by rwa [disconnect_of_none hlink]⟩
  | some link =>
    exact ⟨mt ((closes_disconnect hlink h).client c).1 hc,
      by rw [link?_disconnect hlink, if_pos rfl]⟩

theorem connect_eq (n : Network) (c : ClientKey) (p : Endpoint) :
    n.connect c p =
      match (n.disconnect c).endpoints[p]? with
      | none => (n.disconnect c, .error (.connectionRefused p))
      | some l => ((n.disconnect c).opened c l, .ok ()) := rfl

/-- The number of the next connection is the number of none that there is. -/
theorem Coherent.connection_ne_next (h : Coherent n) {link : Link} (hx : n.link? x = some link) :
    link.connection ≠ ⟨n.connectionCount + 1⟩ := fun heq => by
  have hle := h.number hx
  rw [heq] at hle
  exact Nat.not_succ_le_self _ hle

theorem Coherent.opened (h : Coherent n) (hc : n.client? c ≠ none) (hlink : n.link? c = none)
    (hl : n.receiver? l.server = some l) : Coherent (n.opened c l) := by
  have hroster := roster_opened (h.mailbox hl) c
  refine ⟨h.server, fun x hx => h.client x fun hnone => hx ?_, h.endpoint, h.receiver,
    fun hreceiver => ?_, fun {m id x} hid => ?_, fun {x link} hx => ?_, fun hx hy heq => ?_⟩
  · rw [client?_opened, hnone, Option.map_none, ite_self]
  · rw [mailbox?_opened]
    exact h.mailbox hreceiver
  · have hold (hid : (n.roster m)[id]? = some x) :
        (n.opened c l).link? x = some ⟨id, m⟩ ∧ n.receiver? m.server = some m := by
      have hx : x ≠ c := fun heq => by
        rw [heq] at hid
        cases hlink.symm.trans (h.entry hid).1
      rw [link?_opened hc, if_neg hx]
      exact h.entry hid
    rw [hroster] at hid
    split at hid
    · next hm =>
      rw [Std.ExtTreeMap.getElem?_insert] at hid
      split at hid
      · next heq =>
        cases hid
        rw [link?_opened hc, if_pos rfl, ← Std.LawfulEqCmp.eq_of_compare heq, hm]
        exact ⟨rfl, hl⟩
      · exact hold hid
    · exact hold hid
  · show link.connection.val ≤ n.connectionCount + 1
    rw [link?_opened hc] at hx
    split at hx
    · cases hx
      exact Nat.le_refl _
    · exact Nat.le_succ_of_le (h.number hx)
  · rw [link?_opened hc] at hx hy
    split at hx <;> split at hy
    · next hxc hyc => rw [hxc, hyc]
    · cases hx
      exact absurd heq.symm (h.connection_ne_next hy)
    · cases hy
      exact absurd heq (h.connection_ne_next hx)
    · exact h.sole hx hy heq

/-- The connections of other client ends stay as they are. -/
theorem isConnected_opened (hn : Coherent n) (hc : n.client? c ≠ none)
    (hl : n.mailbox? l ≠ none) (hx : x ≠ c) :
    (n.opened c l).isConnected x = n.isConnected x := by
  rw [isConnected, isConnected, link?_opened hc, if_neg hx]
  cases hlink : n.link? x with
  | none => rfl
  | some link =>
    rw [Option.any_some, Option.any_some, roster_opened hl]
    split
    · rw [Std.ExtTreeMap.contains_insert]
      simp [(hn.connection_ne_next hlink).symm]
    · rfl

theorem Coherent.connect (h : Coherent n) (hc : n.client? c ≠ none) (p : Endpoint) :
    Coherent (n.connect c p).1 := by
  have hdisconnect := h.disconnect c
  rw [connect_eq]
  cases hp : (n.disconnect c).endpoints[p]? with
  | none => exact hdisconnect
  | some l =>
    obtain ⟨hthere, hlink⟩ := gone_disconnect h hc
    exact hdisconnect.opened hthere hlink (hdisconnect.receiver_of_endpoint hp)

/-! ## Taking no more messages -/

theorem hangUp_of_none (h : n.receiver? s = none) : n.hangUp s = n := by
  rw [hangUp, h]

theorem hangUp_of_some (h : n.receiver? s = some l) :
    n.hangUp s = (n.onServer s fun e => { e with inbound := none }).setMailbox l none := by
  rw [hangUp, h]

/-- Who is told something is told the same before and after. -/
theorem hangUp_tellAll (n : Network) (s : ServerKey) (cs : List ClientKey) (e : LinkEvent) :
    (n.tellAll cs e).hangUp s = (n.hangUp s).tellAll cs e := by
  have htell (n : Network) (c : ClientKey) : (n.tell c e).hangUp s = (n.hangUp s).tell c e := by
    have hreceiver : (n.tell c e).receiver? s = n.receiver? s := rfl
    rw [hangUp, hangUp, hreceiver]
    cases n.receiver? s <;> rfl
  induction cs generalizing n with
  | nil => rfl
  | cons c cs ih => rw [tellAll, List.foldl_cons, ← tellAll, ih, htell]; rfl

/-! ## Giving an endpoint back -/

theorem unbind_of_none (h : n.bound? s = none) : n.unbind s = n := by
  rw [unbind, h]

/-- The network once a server end has given its endpoint back and its connections are closed, while
it still takes messages. -/
def withdrawn (n : Network) (s : ServerKey) (p : Endpoint) (l : ListenerKey) : Network :=
  (({ n with endpoints := n.endpoints.erase p } : Network).onServer s fun e =>
    { e with bound := none }).onRoster l fun _ => ∅

/-- The network once a server end is unbound, before anybody is told. -/
def released (n : Network) (s : ServerKey) (p : Endpoint) (l : ListenerKey) : Network :=
  (n.withdrawn s p l).hangUp s

/-- A server end that is unbound tells whomever its connections lead to. -/
theorem unbind_eq {p : Endpoint} (hbound : n.bound? s = some (p, l)) :
    n.unbind s = (n.released s p l).tellAll (n.reached s none) .disconnected := by
  have hclosed : (n.roster l).foldl (fun m _ c => m.tell c .disconnected) (n.withdrawn s p l) =
      (n.withdrawn s p l).tellAll (n.reached s none) .disconnected := by
    rw [← listeners_eq_reached, listeners, connections_of_bound? hbound, tellAll, List.foldl_map]
    exact Std.ExtTreeMap.foldl_eq_foldl_toList
  rw [released, ← hangUp_tellAll, ← hclosed, unbind, hbound]
  rfl

/-- The server end has given the endpoint back and takes no more messages, and its listener is left
without connections and without messages. -/
structure Released (n : Network) (s : ServerKey) (p : Endpoint) (l : ListenerKey)
    (n' : Network) : Prop where
  endpoints : n'.endpoints = n.endpoints.erase p
  server : ∀ k, n'.server? k =
    if k = s then (n.server? k).map fun e => { e with bound := none, inbound := none }
    else n.server? k
  roster : ∀ m, n'.roster m = if m = l then ∅ else n.roster m
  mailbox : ∀ m, n'.mailbox? m = if m = l then none else n.mailbox? m
  clients : n'.clients = n.clients
  counts : n'.serverCount = n.serverCount ∧ n'.clientCount = n.clientCount ∧
    n'.connectionCount = n.connectionCount

theorem released_released (hreceiver : n.receiver? s = some l) (p : Endpoint) :
    Released n s p l (n.released s p l) := by
  have hreceiver' : (n.withdrawn s p l).receiver? s = some l := by
    rw [← hreceiver]
    show (n.onServer s fun e => { e with bound := none }).receiver? s = _
    rw [receiver?, server?_onServer, if_pos rfl, receiver?]
    cases n.server? s <;> rfl
  rw [released, hangUp_of_some hreceiver']
  refine ⟨rfl, fun k => ?_, fun m => ?_, fun m => ?_, rfl, rfl, rfl, rfl⟩
  · show ((n.onServer s fun e => { e with bound := none }).onServer s fun e =>
      { e with inbound := none }).server? k = _
    rw [server?_onServer, server?_onServer]
    split
    · rw [Option.map_map]
      rfl
    · rfl
  · rw [roster_setMailbox]
    exact roster_onRoster (f := fun _ => ∅) (fun _ => rfl) m
  · rw [mailbox?_setMailbox fun _ => rfl]
    split
    · rfl
    · exact mailbox?_onRoster _ l m fun _ => ∅

namespace Released

variable {p : Endpoint} (h : Released n s p l n')
include h

theorem bound? (k : ServerKey) : n'.bound? k = if k = s then none else n.bound? k := by
  rw [Network.bound?, h.server, Network.bound?]
  split
  · cases n.server? k <;> rfl
  · rfl

theorem receiver? (k : ServerKey) : n'.receiver? k = if k = s then none else n.receiver? k := by
  rw [Network.receiver?, h.server, Network.receiver?]
  split
  · cases n.server? k <;> rfl
  · rfl

theorem client? : n'.client? = n.client? := by
  funext c
  rw [Network.client?, Network.client?, h.clients]

theorem link? : n'.link? = n.link? := by
  funext c
  rw [Network.link?, Network.link?, h.client?]

theorem server?_eq_none_iff {k : ServerKey} : n'.server? k = none ↔ n.server? k = none := by
  rw [h.server]
  split
  · exact Option.map_eq_none_iff
  · rfl

variable (hl : l.server = s)
include hl

/-- Every listener but that one is of a server end that has it as before, or has had it before. -/
theorem connections (k : ServerKey) : n'.connections k = if k = s then ∅ else n.connections k := by
  rw [Network.connections, h.bound?, Network.connections]
  split
  · rfl
  · next hk =>
    cases hb : n.bound? k with
    | none => rfl
    | some bound =>
      obtain ⟨q, m⟩ := bound
      have hm : m ≠ l := fun heq => hk (by rw [← server_of_bound? hb, heq, hl])
      simp [h.roster, hm]

theorem inbox (k : ServerKey) : n'.inbox k = if k = s then [] else n.inbox k := by
  rw [Network.inbox, h.receiver?, Network.inbox]
  split
  · rfl
  · next hk =>
    cases hr : n.receiver? k with
    | none => rfl
    | some m =>
      have hm : m ≠ l := fun heq => hk (by rw [← server_of_receiver? hr, heq, hl])
      rw [Option.bind_some, h.mailbox, if_neg hm, Option.bind_some]

end Released

theorem Coherent.released_spec (h : Coherent n) {p : Endpoint} (hbound : n.bound? s = some (p, l)) :
    Released n s p l (n.released s p l) :=
  released_released (by rw [h.receiver, hbound]; rfl) p

/-- Only the endpoint of the server end led to its listener, and nobody else takes messages
there. -/
theorem Coherent.released (h : Coherent n) {p : Endpoint} (hbound : n.bound? s = some (p, l)) :
    Coherent (n.released s p l) := by
  have hr := h.released_spec hbound
  have hl : l.server = s := server_of_bound? hbound
  refine ⟨fun k hk => ?_, fun x hx => ?_, fun q m => ?_, fun k => ?_, fun {k m} hk => ?_,
    fun {m id x} hid => ?_, fun {x link} hx => ?_, fun hx hy => ?_⟩
  · rw [hr.counts.1]
    exact h.server k (mt hr.server?_eq_none_iff.2 hk)
  · rw [hr.counts.2.1]
    exact h.client x (by rwa [← hr.client?])
  · rw [hr.endpoints, hr.bound?, Std.ExtTreeMap.getElem?_erase]
    have hp : n.endpoints[p]? = some l := (h.endpoint p l).2 (by rw [hl, hbound])
    split <;> split
    · simp
    · next heq hm =>
      obtain rfl := Std.LawfulEqCmp.eq_of_compare heq
      refine iff_of_false (by simp) fun hq => hm ?_
      rw [Option.some.inj (((h.endpoint p m).2 hq).symm.trans hp), hl]
    · next hne hm =>
      refine iff_of_false (fun hq => hne ?_) (by simp)
      have hsame := (hm ▸ (h.endpoint q m).1 hq).symm.trans hbound
      rw [(Prod.mk.inj (Option.some.inj hsame)).1]
      exact Std.ReflCmp.compare_self
    · exact h.endpoint q m
  · rw [hr.receiver?, hr.bound?]
    split
    · rfl
    · exact h.receiver k
  · rw [hr.receiver?] at hk
    split at hk
    · cases hk
    · next hks =>
      have hm : m ≠ l := fun heq => hks (by rw [← server_of_receiver? hk, heq, hl])
      rw [hr.mailbox, if_neg hm]
      exact h.mailbox hk
  · rw [hr.roster] at hid
    split at hid
    · simp at hid
    · next hm =>
      obtain ⟨hlink, hreceiver⟩ := h.entry hid
      refine ⟨by rw [hr.link?, hlink], ?_⟩
      rw [hr.receiver?, if_neg, hreceiver]
      intro hms
      rw [hms, h.receiver, hbound] at hreceiver
      exact hm (Option.some.inj hreceiver).symm
  · rw [hr.link?] at hx
    rw [hr.counts.2.2]
    exact h.number hx
  · rw [hr.link?] at hx hy
    exact h.sole hx hy

theorem Coherent.unbind (h : Coherent n) (s : ServerKey) : Coherent (n.unbind s) := by
  cases hbound : n.bound? s with
  | none => rwa [unbind_of_none hbound]
  | some bound =>
    rw [unbind_eq hbound]
    exact (h.released hbound).queued (queued_tellAll _ _ _)

theorem queued_unbind {p : Endpoint} (hbound : n.bound? s = some (p, l)) :
    Queued (n.released s p l) (n.unbind s) fun x =>
      List.replicate ((n.reached s none).count x) .disconnected := by
  rw [unbind_eq hbound]
  exact queued_tellAll _ _ _

namespace Coherent

variable (h : Coherent n)
include h

theorem link?_unbind (s : ServerKey) (x : ClientKey) : (n.unbind s).link? x = n.link? x := by
  cases hbound : n.bound? s with
  | none => rw [unbind_of_none hbound]
  | some bound =>
    rw [(queued_unbind hbound).samePorts.link, (h.released_spec hbound).link?]

theorem connectionCount_unbind (s : ServerKey) :
    (n.unbind s).connectionCount = n.connectionCount := by
  cases hbound : n.bound? s with
  | none => rw [unbind_of_none hbound]
  | some bound =>
    exact (queued_unbind hbound).samePorts.counts.2.2.trans (h.released_spec hbound).counts.2.2

theorem bound?_unbind (s k : ServerKey) :
    (n.unbind s).bound? k = if k = s then none else n.bound? k := by
  cases hbound : n.bound? s with
  | none =>
    rw [unbind_of_none hbound]
    split
    · next hk => rw [hk, hbound]
    · rfl
  | some bound =>
    rw [bound?_congr (queued_unbind hbound).servers, (h.released_spec hbound).bound?]

theorem server?_unbind_eq_none_iff {k : ServerKey} :
    (n.unbind s).server? k = none ↔ n.server? k = none := by
  cases hbound : n.bound? s with
  | none => rw [unbind_of_none hbound]
  | some bound =>
    rw [server?, (queued_unbind hbound).servers]
    exact (h.released_spec hbound).server?_eq_none_iff

/-- A server end that is unbound has no connections. -/
theorem connections_unbind (s k : ServerKey) :
    (n.unbind s).connections k = if k = s then ∅ else n.connections k := by
  cases hbound : n.bound? s with
  | none =>
    rw [unbind_of_none hbound]
    split
    · next hk => rw [hk, connections_of_bound?_eq_none hbound]
    · rfl
  | some bound =>
    rw [(queued_unbind hbound).samePorts.sameWires.connections,
      (h.released_spec hbound).connections (server_of_bound? hbound)]

theorem inbox_unbind (s k : ServerKey) :
    (n.unbind s).inbox k = if k = s then [] else n.inbox k := by
  cases hbound : n.bound? s with
  | none =>
    rw [unbind_of_none hbound]
    split
    · next hk =>
      have hnone : n.receiver? s = none := by rw [h.receiver, hbound]; rfl
      rw [hk, inbox_of_receiver?_eq_none hnone]
    · rfl
  | some bound =>
    rw [(queued_unbind hbound).inbox, (h.released_spec hbound).inbox (server_of_bound? hbound)]

theorem wired_unbind_iff {k : ServerKey} :
    Wired (n.unbind s) c k id ↔ Wired n c k id ∧ k ≠ s := by
  rw [(h.unbind s).wired_iff, h.wired_iff, h.connections_unbind]
  split
  · next hk => simp [hk]
  · next hk => simp [hk]

/-- A client end whose connection is closed is told so. -/
theorem news_unbind (hwired : Wired n c s id) :
    (n.unbind s).news c = n.news c ++ [.disconnected] := by
  obtain ⟨p, l, hbound⟩ := hwired.exists_bound
  have hspec := h.released_spec hbound
  obtain ⟨d, hd⟩ := hwired.client
  have hthere : (n.released s p l).client? c ≠ none := by
    rw [hspec.client?, hd]
    exact Option.some_ne_none d
  rw [(queued_unbind hbound).news hthere, h.count_reached hwired, news, hspec.client?, ← news]
  rfl

/-- Nobody else is told anything. -/
theorem news_unbind_of_not (hnot : ∀ id, ¬ Wired n c s id) :
    (n.unbind s).news c = n.news c := by
  cases hbound : n.bound? s with
  | none => rw [unbind_of_none hbound]
  | some bound =>
    have hnil : List.replicate ((n.reached s none).count c) LinkEvent.disconnected = [] := by
      rw [h.count_reached_of_not hnot]
      rfl
    rw [(queued_unbind hbound).news_of_nil hnil, news, (h.released_spec hbound).client?, ← news]

end Coherent

/-! ## Binding -/

section Listen

variable {p : Endpoint}

theorem server?_listen (n : Network) (s : ServerKey) (p : Endpoint) (k : ServerKey) :
    (n.listen s p).server? k =
      if k = s then some
        { bound := some (p, n.nextListener s), inbound := some (n.nextListener s)
          listenerCount := n.nextListener s + 1 }
      else n.server? k :=
  n.server?_insert s _ k

theorem bound?_listen (n : Network) (s : ServerKey) (p : Endpoint) (k : ServerKey) :
    (n.listen s p).bound? k =
      if k = s then some (p, ⟨s, n.nextListener s⟩) else n.bound? k := by
  rw [bound?, server?_listen, bound?]
  split
  · next hk => rw [hk]; rfl
  · rfl

theorem receiver?_listen (n : Network) (s : ServerKey) (p : Endpoint) (k : ServerKey) :
    (n.listen s p).receiver? k =
      if k = s then some ⟨s, n.nextListener s⟩ else n.receiver? k := by
  rw [receiver?, server?_listen, receiver?]
  split
  · next hk => rw [hk]; rfl
  · rfl

theorem listener?_listen (n : Network) (s : ServerKey) (p : Endpoint) (m : ListenerKey) :
    (n.listen s p).listener? m =
      if m = ⟨s, n.nextListener s⟩ then some {} else n.listener? m := by
  show (n.listening.insert _ _)[m]? = _
  simp only [Std.ExtTreeMap.getElem?_insert, Std.compare_eq_iff_eq, @eq_comm _ m]
  rfl

/-- A listener of a server end that takes no messages has no connections. -/
theorem Coherent.roster_eq_empty (h : Coherent n) (hreceiver : n.receiver? l.server = none) :
    n.roster l = ∅ := by
  refine Std.ExtTreeMap.ext_getElem? fun id => ?_
  cases hid : (n.roster l)[id]? with
  | none => simp
  | some c => cases hreceiver.symm.trans (h.entry hid).2

/-- Where a new listener is, no connections were before, and no messages. -/
theorem Coherent.views_listen (h : Coherent n) (hnone : n.bound? s = none) :
    (n.listen s p).roster = n.roster ∧ (n.listen s p).inbox = n.inbox := by
  have hreceiver : n.receiver? s = none := by rw [h.receiver, hnone]; rfl
  refine ⟨funext fun m => ?_, funext fun k => ?_⟩
  · rw [roster, listener?_listen, roster]
    split
    · next hm =>
      rw [← roster, hm]
      exact (h.roster_eq_empty (l := ⟨s, n.nextListener s⟩) hreceiver).symm
    · rfl
  · rw [inbox, receiver?_listen]
    split
    · next hk =>
      rw [hk, inbox_of_receiver?_eq_none hreceiver, Option.bind_some, mailbox?, listener?_listen,
        if_pos rfl]
      rfl
    · next hk =>
      rw [inbox]
      cases hr : n.receiver? k with
      | none => rfl
      | some m =>
        have hm : m ≠ ⟨s, n.nextListener s⟩ := fun heq => hk (by
          rw [← server_of_receiver? hr, heq])
        rw [Option.bind_some, Option.bind_some, mailbox?, listener?_listen, if_neg hm, mailbox?]

theorem Coherent.listen (h : Coherent n) (hs : n.server? s ≠ none) (hnone : n.bound? s = none)
    (hfree : n.endpoints[p]? = none) : Coherent (n.listen s p) := by
  have hreceiver : n.receiver? s = none := by rw [h.receiver, hnone]; rfl
  refine ⟨fun k hk => h.server k fun hgone => hk ?_, h.client, fun q m => ?_, fun k => ?_,
    fun {k m} hk => ?_, fun {m id x} hid => ?_, h.number, h.sole⟩
  · have hne : k ≠ s := fun heq => hs (heq ▸ hgone)
    rw [server?_listen, if_neg hne, hgone]
  · rw [bound?_listen]
    show (n.endpoints.insert p _)[q]? = some m ↔ _
    rw [Std.ExtTreeMap.getElem?_insert]
    split
    · next heq =>
      obtain rfl := Std.LawfulEqCmp.eq_of_compare heq
      split
      · simp
      · next hm =>
        refine iff_of_false (fun hsome => hm ?_) fun hq => ?_
        · rw [← Option.some.inj hsome]
        · rw [(h.endpoint p m).2 hq] at hfree
          cases hfree
    · next hne =>
      split
      · next hm =>
        refine iff_of_false (fun hq => ?_) fun hq => hne ?_
        · rw [h.endpoint, hm, hnone] at hq
          cases hq
        · rw [(Prod.mk.inj (Option.some.inj hq)).1]
          exact Std.ReflCmp.compare_self
      · exact h.endpoint q m
  · rw [receiver?_listen, bound?_listen]
    split
    · rfl
    · exact h.receiver k
  · rw [receiver?_listen] at hk
    rw [mailbox?, listener?_listen]
    split at hk
    · cases hk
      rw [if_pos rfl]
      exact Option.some_ne_none _
    · split
      · exact Option.some_ne_none _
      · exact h.mailbox hk
  · rw [(h.views_listen hnone).1] at hid
    obtain ⟨hlink, hm⟩ := h.entry hid
    refine ⟨hlink, ?_⟩
    rw [receiver?_listen, if_neg, hm]
    intro heq
    rw [heq, hreceiver] at hm
    cases hm

end Listen

/-- A server end that binds an endpoint gives back the one that it had, and takes the messages of a
new listener. -/
theorem Coherent.bind_eq (h : Coherent n) (s : ServerKey) (p : Endpoint) :
    n.bind s p =
      if (n.unbind s).endpoints.contains p then (n.unbind s, .error (.bindFailed p))
      else ((n.unbind s).listen s p, .ok ()) := by
  have hreceiver : (n.unbind s).receiver? s = none := by
    rw [(h.unbind s).receiver, h.bound?_unbind, if_pos rfl]
    rfl
  rw [bind, hangUp_of_none hreceiver]

theorem Coherent.bind (h : Coherent n) (hs : n.server? s ≠ none) (p : Endpoint) :
    Coherent (n.bind s p).1 := by
  have hunbind := h.unbind s
  rw [h.bind_eq]
  split
  · exact hunbind
  · next hfree =>
    refine hunbind.listen (mt h.server?_unbind_eq_none_iff.1 hs) ?_ ?_
    · rw [h.bound?_unbind, if_pos rfl]
    · rw [Std.ExtTreeMap.contains_eq_isSome_getElem?] at hfree
      exact Option.not_isSome_iff_eq_none.1 hfree

/-! ## New ends -/

/-- A new server end has nothing, as it had before it was there. -/
theorem Coherent.views_addServer (h : Coherent n) :
    n.addServer.2.bound? = n.bound? ∧ n.addServer.2.receiver? = n.receiver? ∧
      n.addServer.2.inbox = n.inbox := by
  have hnew : n.server? ⟨n.serverCount⟩ = none := by
    by_contra hsome
    exact Nat.lt_irrefl _ (h.server _ hsome)
  have hserver : ∀ k, n.addServer.2.server? k =
      if k = ⟨n.serverCount⟩ then some {} else n.server? k := n.server?_insert _ {}
  have hreceiver : n.addServer.2.receiver? = n.receiver? := by
    funext k
    rw [receiver?, hserver, receiver?]
    split
    · next hk => rw [hk, hnew]; rfl
    · rfl
  refine ⟨funext fun k => ?_, hreceiver, funext fun k => ?_⟩
  · rw [bound?, hserver, bound?]
    split
    · next hk => rw [hk, hnew]; rfl
    · rfl
  · rw [inbox, hreceiver]
    rfl

theorem Coherent.addServer (h : Coherent n) : Coherent n.addServer.2 := by
  obtain ⟨hbound, hreceiver, -⟩ := h.views_addServer
  refine ⟨fun k hk => ?_, h.client, ?_, ?_, ?_, ?_, h.number, h.sole⟩
  · show k.val < n.serverCount + 1
    rw [show n.addServer.2.server? k = _ from n.server?_insert _ {} k] at hk
    split at hk
    · next heq => rw [heq]; exact Nat.lt_succ_self _
    · exact Nat.lt_succ_of_lt (h.server k hk)
  · rw [hbound]
    exact h.endpoint
  · rw [hreceiver, hbound]
    exact h.receiver
  · rw [hreceiver]
    exact h.mailbox
  · rw [hreceiver]
    exact h.entry

/-- A new client end has nothing, as it had before it was there. -/
theorem Coherent.views_addClient (h : Coherent n) :
    n.client? ⟨n.clientCount⟩ = none ∧ n.addClient.2.link? = n.link? ∧
      n.addClient.2.news = n.news := by
  have hnew : n.client? ⟨n.clientCount⟩ = none := by
    by_contra hsome
    exact Nat.lt_irrefl _ (h.client _ hsome)
  have hclient : ∀ x, n.addClient.2.client? x =
      if x = ⟨n.clientCount⟩ then some {} else n.client? x := n.client?_insert _ {}
  refine ⟨hnew, funext fun x => ?_, funext fun x => ?_⟩
  · rw [link?, hclient, link?]
    split
    · next hx => rw [hx, hnew]; rfl
    · rfl
  · rw [news, hclient, news]
    split
    · next hx => rw [hx, hnew]; rfl
    · rfl

theorem Coherent.addClient (h : Coherent n) : Coherent n.addClient.2 := by
  obtain ⟨-, hlink, -⟩ := h.views_addClient
  refine ⟨h.server, fun x hx => ?_, h.endpoint, h.receiver, h.mailbox, ?_, ?_, ?_⟩
  · show x.val < n.clientCount + 1
    rw [show n.addClient.2.client? x = _ from n.client?_insert _ {} x] at hx
    split at hx
    · next heq => rw [heq]; exact Nat.lt_succ_self _
    · exact Nat.lt_succ_of_lt (h.client x hx)
  · rw [hlink]
    exact h.entry
  · rw [hlink]
    exact h.number
  · rw [hlink]
    exact h.sole

/-! ## Operations -/

/-- What an end does, or that there is a new one. -/
inductive Op
  | addServer
  | addClient
  | bind (s : ServerKey) (endpoint : Endpoint)
  | unbind (s : ServerKey)
  | connect (c : ClientKey) (endpoint : Endpoint)
  | disconnect (c : ClientKey)
  | send (c : ClientKey) (data : Bytes)
  | sendToOne (s : ServerKey) (data : Bytes) (id : ConnectionId)
  | sendToAll (s : ServerKey) (data : Bytes) (exclude : Option ConnectionId)
  | takeMessage (s : ServerKey)
  | takeEvent (c : ClientKey)

/-- The end that does it is there. -/
def Op.Live (n : Network) : Op → Prop
  | addServer | addClient => True
  | bind s _ | unbind s | sendToOne s _ _ | sendToAll s _ _ | takeMessage s => n.server? s ≠ none
  | connect c _ | disconnect c | send c _ | takeEvent c => n.client? c ≠ none

/-- The network after an operation, whatever its result. -/
def perform (n : Network) : Op → Network
  | .addServer => n.addServer.2
  | .addClient => n.addClient.2
  | .bind s endpoint => (n.bind s endpoint).1
  | .unbind s => n.unbind s
  | .connect c endpoint => (n.connect c endpoint).1
  | .disconnect c => n.disconnect c
  | .send c data => (n.send c data).1
  | .sendToOne s data id => (n.sendToOne s data id).1
  | .sendToAll s data exclude => n.sendToAll s data exclude
  | .takeMessage s => ((n.takeMessage? s).map (·.2)).getD n
  | .takeEvent c => ((n.takeEvent? c).map (·.2)).getD n

/-- A message over one connection is told to whom it leads to, if there is one. -/
theorem Coherent.sendToOne_cases (h : Coherent n) (s : ServerKey) (data : Bytes)
    (id : ConnectionId) :
    (∃ c, Wired n c s id ∧ n.sendToOne s data id = (n.tell c (.received data), .ok ())) ∨
      (n.connections s).contains id = false ∧ (n.sendToOne s data id).1 = n := by
  by_cases hid : (n.connections s).contains id = true
  · rw [Std.ExtTreeMap.contains_eq_isSome_getElem?] at hid
    obtain ⟨c, hconnection⟩ := Option.isSome_iff_exists.1 hid
    have hwired := h.wired hconnection
    exact .inl ⟨c, hwired, hwired.sendToOne data⟩
  · refine .inr ⟨Bool.not_eq_true _ ▸ hid, ?_⟩
    unfold sendToOne
    split
    · rfl
    · next p l hbound =>
      have hnone : (n.roster l)[id]? = none := by
        rw [connections_of_bound? hbound, Std.ExtTreeMap.contains_eq_isSome_getElem?] at hid
        exact Option.not_isSome_iff_eq_none.1 hid
      rw [hnone]

theorem Coherent.perform (h : Coherent n) {op : Op} (hop : op.Live n) :
    Coherent (n.perform op) := by
  cases op with
  | addServer => exact h.addServer
  | addClient => exact h.addClient
  | bind s p => exact h.bind hop p
  | unbind s => exact h.unbind s
  | connect c p => exact h.connect hop p
  | disconnect c => exact h.disconnect c
  | send c data => exact h.send c data
  | sendToOne s data id =>
    show Coherent (n.sendToOne s data id).1
    rcases h.sendToOne_cases s data id with ⟨c, -, heq⟩ | ⟨-, heq⟩
    · rw [heq]
      exact h.queued (n.queued_tell c _)
    · rwa [heq]
  | sendToAll s data exclude =>
    show Coherent (n.sendToAll s data exclude)
    rw [sendToAll_reached]
    exact h.queued (n.queued_tellAll _ _)
  | takeMessage s =>
    show Coherent (((n.takeMessage? s).map (·.2)).getD n)
    cases ht : n.takeMessage? s with
    | none => exact h
    | some taken => exact h.takeMessage? ht
  | takeEvent c =>
    show Coherent (((n.takeEvent? c).map (·.2)).getD n)
    cases ht : n.takeEvent? c with
    | none => exact h
    | some taken => exact h.takeEvent? ht

end Network
end ParamSync

