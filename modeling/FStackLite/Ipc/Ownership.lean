import FStackLite.Ipc.Placement

/-!
# Who owns a message

As long as clients give up only on messages that the server has lost, and take only
their own messages from the output rings, the messages stay placed along every
interleaving of the clients with the server.
-/

namespace FStackLite
namespace Ipc

open Foundation

/-!
## Orderly runs
-/

/--
A client that gives up finds its message in no ring and not with the server, and a
poll that takes a message takes the client's own.
-/
def Orderly (s : Sys) : Action -> Prop
  | .giveUp c =>
      match s.clients c with
      | .receiving _ m _ _ _ => (forall ty, m ∉ s.rings ty) ∧ s.server.msg ≠ some m
      | _ => True
  | .dequeue c =>
      match s.clients c with
      | .receiving _ m _ ty _ => (s.rings ty).head? = some m
      | _ => True
  | _ => True

def OrderlyRun (build : Build) : List Action -> Sys -> Prop
  | [], _ => True
  | a :: rest, s =>
      Orderly s a ∧ forall s', step build s a = some s' -> OrderlyRun build rest s'

/-!
## Steps of a client
-/

namespace Placed

variable {s s' : Sys} {place : MsgRef -> Spot} {c : ClientId} {m : MsgRef} {call : Call}
    {ticket : Ticket}

theorem alloc (h : Placed s place) (hidle : s.clients c = .idle) (call : Call) (hm : m ∈ s.pool) :
    Placed ({ s with pool := s.pool.erase m }.setClient c (.holding call m))
      (Function.update place m (.client c)) := by
  have hpool : place m = .pool := Spot.eq_pool ((h.pool.mem_iff m).mp hm)
  constructor
  · exact h.pool.erase hm id
  · apply h.road.keep
    · rw [hpool]
      exact Spot.offRoad_pool
    · exact Spot.offRoad_client c
  · apply h.clients.move (fun x hx => Function.update_of_ne hx _ _) (fun _ _ => rfl)
    · right
      rw [hidle, hpool]
      exact And.intro rfl rfl
    · left
      simp [Sys.setClient, Client.msg, Spot.owner, Fits]
  · exact h.replies

theorem free (h : Placed s place) (hmsg : (s.clients c).msg = some m)
    (hheld : (s.clients c).held = some m) :
    Placed ((ffIpcMsgFree s m).setClient c .idle) (Function.update place m .pool) := by
  have hplace := h.held hheld
  constructor
  · apply h.pool.cons
    · rw [hplace]
      exact id
    · exact trivial
  · apply h.road.keep
    · rw [hplace]
      exact Spot.offRoad_client c
    · exact Spot.offRoad_pool
  · apply h.clients.move (fun x hx => Function.update_of_ne hx _ _) (fun _ _ => rfl)
    · exact Or.inl hmsg
    · right
      simp [Sys.setClient, Client.msg, Spot.owner]
  · exact h.replies

theorem advance (h : Placed s place) {client : Client} {memory : MsgRef -> Msg} {issued : Nat}
    {successes : List Success} (hbefore : (s.clients c).msg = some m)
    (hmemory : forall x, x ≠ m -> memory x = s.memory x) (hafter : client.msg = some m)
    (hfits : Fits c client (place m) (memory m))
    (hreplies : forall e, e ∈ successes -> e.read = .reply e.ticket) :
    Placed { s.setClient c client with
      memory := memory, issued := issued, successes := successes } place := by
  constructor
  · exact h.pool
  · exact h.road
  · rw [<- Function.update_eq_self m place]
    apply h.clients.move (fun x hx => Function.update_of_ne hx _ _) hmemory
    · exact Or.inl hbefore
    · left
      have howner := (h.clients.owner c m).mp hbefore
      simp [Sys.setClient, hafter, howner, hfits]
  · exact hreplies

theorem read (h : Placed s place) (hreceived : s.clients c = .received call m ticket) :
    Placed ((readReply s c call m ticket).setClient c (.closing m)) place := by
  have hmsg : (s.clients c).msg = some m := congrArg Client.msg hreceived
  have hfits := h.fits hreceived rfl
  have hspot : Fits c (.closing m) (place m) (s.memory m) := hfits.1
  unfold readReply
  split
  · apply h.advance hmsg (fun _ _ => rfl) rfl hspot
    intro e he
    cases List.mem_append.mp he with
    | inl hold => exact h.replies e hold
    | inr hnew =>
        rw [List.mem_singleton.mp hnew]
        exact hfits.2
  · exact h.advance hmsg (fun _ _ => rfl) rfl hspot h.replies

theorem send (h : Placed s place) (hready : s.clients c = .ready call m ticket) :
    Placed ((s.setRing .unknown (s.rings .unknown ++ [m])).setClient c (.waiting call m ticket))
      (Function.update place m (.ring c .unknown)) := by
  have hmsg : (s.clients c).msg = some m := congrArg Client.msg hready
  have hfits := h.fits hready rfl
  constructor
  · apply h.pool.keep
    rw [hfits.1]
    exact Iff.rfl
  · apply h.road.send
    rw [hfits.1]
    exact Spot.offRoad_client c
  · apply h.clients.move (fun x hx => Function.update_of_ne hx _ _) (fun _ _ => rfl)
    · exact Or.inl hmsg
    · left
      have hawaited : Awaited call ticket (.ring c .unknown) (s.memory m) :=
        ⟨hfits.2.1, Or.inl ⟨rfl, hfits.2.2⟩⟩
      simpa [Sys.setClient, Client.msg, Spot.owner, Fits] using hawaited
  · exact h.replies

theorem dequeue (h : Placed s place) {ty : MsgType} {attempts : Nat} {rest : List MsgRef}
    (hreceiving : s.clients c = .receiving call m ticket ty attempts)
    (hring : s.rings ty = m :: rest) :
    Placed ((s.setRing ty rest).setClient c (.received call m ticket))
      (Function.update place m (.client c)) := by
  have hmsg : (s.clients c).msg = some m := congrArg Client.msg hreceiving
  have hfits := h.fits hreceiving rfl
  rcases h.road.place_head hring with ⟨c', hplace⟩
  have hstage := hfits.2.stage
  rw [hplace, hfits.1] at hstage
  have hbody : (s.memory m).body = .reply ticket := by
    cases hstage with
    | inl hunknown => exact absurd hunknown.1 call.known
    | inr hreply => exact hreply.2
  constructor
  · apply h.pool.keep
    rw [hplace]
    exact Iff.rfl
  · exact h.road.receive hring (Spot.offRoad_client c)
  · apply h.clients.move (fun x hx => Function.update_of_ne hx _ _) (fun _ _ => rfl)
    · exact Or.inl hmsg
    · left
      simp [Sys.setClient, Sys.setRing, Client.msg, Spot.owner, Fits, hbody]
  · exact h.replies

theorem lost (h : Placed s place) {call : Call} {ticket : Ticket}
    (hawaited : Awaited call ticket (place m) (s.memory m))
    (hrings : forall ty, m ∉ s.rings ty) (hserver : s.server.msg ≠ some m) :
    exists c, place m = .lost c := by
  have hstage := hawaited.stage
  cases hplace : place m with
  | lost c => exact Exists.intro c rfl
  | ring c ty =>
      exact absurd (((h.road.rings ty).mem_iff m).mpr (by rw [hplace]; rfl)) (hrings ty)
  | taken c =>
      have hmem := (h.road.taken.mem_iff m).mpr (by rw [hplace]; exact trivial)
      cases hs : s.server <;> simp_all [Server.takenList, Server.msg]
  | handled c =>
      have hmem := (h.road.handled.mem_iff m).mpr (by rw [hplace]; exact trivial)
      cases hs : s.server <;> simp_all [Server.handledList, Server.msg]
  | _ =>
      rw [hplace] at hstage
      exact hstage.elim

theorem giveUp (h : Placed s place) {ty : MsgType} {attempts : Nat}
    (hreceiving : s.clients c = .receiving call m ticket ty attempts)
    (hrings : forall ty, m ∉ s.rings ty) (hserver : s.server.msg ≠ some m) :
    Placed (s.setClient c (.closing m)) (Function.update place m (.client c)) := by
  have hmsg : (s.clients c).msg = some m := congrArg Client.msg hreceiving
  have hfits := h.fits hreceiving rfl
  rcases h.lost hfits.2 hrings hserver with ⟨c', hplace⟩
  constructor
  · apply h.pool.keep
    rw [hplace]
    exact Iff.rfl
  · apply h.road.keep
    · rw [hplace]
      exact Spot.offRoad_lost c'
    · exact Spot.offRoad_client c
  · apply h.clients.move (fun x hx => Function.update_of_ne hx _ _) (fun _ _ => rfl)
    · exact Or.inl hmsg
    · left
      simp [Sys.setClient, Client.msg, Spot.owner, Fits]
  · exact h.replies

/-!
## Steps of the server
-/

theorem serve (h : Placed s place) {before after : Spot} (hplace : place m = before)
    (howner : before.owner = some c) (haway : before ≠ .client c)
    {memory : MsgRef -> Msg} {rings : MsgType -> List MsgRef} {server : Server}
    (hroad : Road rings server (Function.update place m after))
    (hmemory : forall x, x ≠ m -> memory x = s.memory x) (hnew : after.owner = some c)
    (hawaited : forall call ticket, Awaited call ticket before (s.memory m) ->
      Awaited call ticket after (memory m)) :
    Placed { s with memory := memory, rings := rings, server := server }
      (Function.update place m after) := by
  subst hplace
  have hmsg := (h.clients.owner c m).mpr howner
  rcases (h.clients.fits c m hmsg).awaited hmsg haway with ⟨call, ticket, hold, hfits⟩
  constructor
  · apply h.pool.keep
    constructor
    · intro hin
      rw [Spot.eq_pool hin] at hnew
      cases hnew
    · intro hin
      rw [Spot.eq_pool hin] at howner
      cases howner
  · exact hroad
  · apply h.clients.move (fun _ _ => rfl) hmemory
    · exact Or.inl hmsg
    · left
      exact And.intro hmsg (And.intro hnew (hfits _ _ (hawaited call ticket hold)))
  · exact h.replies

theorem serverTake (h : Placed s place) (hidle : s.server = .idle) {rest : List MsgRef}
    (hring : s.rings .unknown = m :: rest) :
    exists place', Placed { s.setRing .unknown rest with server := .taken m } place' := by
  rcases h.road.place_head hring with ⟨c, hplace⟩
  have hroad := h.road
  rw [hidle] at hroad
  exists Function.update place m (.taken c)
  apply h.serve hplace rfl Spot.noConfusion (hroad.take hring c) (fun _ _ => rfl) rfl
  intro call ticket hawaited
  constructor
  · exact hawaited.typed
  · cases hawaited.stage with
    | inl hrequest => exact hrequest.2
    | inr hreply => exact absurd hreply.1.symm call.known

theorem serverHandle (h : Placed s place) (htaken : s.server = .taken m) (build : Build)
    (err : Int) : exists place', Placed
      { s.setMsg m (handleMsg build err (s.memory m)) with server := .handled m } place' := by
  rcases h.road.place_taken htaken with ⟨c, hplace⟩
  have hroad := h.road
  rw [htaken] at hroad
  exists Function.update place m (.handled c)
  apply h.serve hplace rfl Spot.noConfusion (hroad.handle c)
    (fun x hx => Function.update_of_ne hx _ _) rfl
  intro call ticket hawaited
  have hbody : (s.memory m).body = .request ticket := hawaited.stage
  have hmsg : (s.setMsg m (handleMsg build err (s.memory m))).memory m =
      handleMsg build err (s.memory m) := Function.update_self m _ _
  rw [hmsg]
  constructor
  · exact hawaited.typed
  · simp [Stage, handleMsg, hbody, Body.answered]

theorem serverReply (h : Placed s place) (hhandled : s.server = .handled m) : exists place', Placed
      { s.setRing (s.memory m).msgType (s.rings (s.memory m).msgType ++ [m]) with
        server := .idle } place' := by
  rcases h.road.place_handled hhandled with ⟨c, hplace⟩
  have hroad := h.road
  rw [hhandled] at hroad
  exists Function.update place m (.ring c (s.memory m).msgType)
  apply h.serve hplace rfl Spot.noConfusion (hroad.reply c _) (fun _ _ => rfl) rfl
  intro call ticket hawaited
  exact ⟨hawaited.typed, Or.inr ⟨hawaited.typed, hawaited.stage⟩⟩

theorem serverLose (h : Placed s place) (hhandled : s.server = .handled m) :
    exists place', Placed { s with server := .idle } place' := by
  rcases h.road.place_handled hhandled with ⟨c, hplace⟩
  have hroad := h.road
  rw [hhandled] at hroad
  exists Function.update place m (.lost c)
  apply h.serve hplace rfl Spot.noConfusion (hroad.lose c) (fun _ _ => rfl) rfl
  intro call ticket hawaited
  exact ⟨hawaited.typed, trivial⟩

/-!
## Runs
-/

theorem step (h : Placed s place) {build : Build} {a : Action} (horderly : Orderly s a)
    (hstep : Step build s a s') : exists place', Placed s' place' := by
  cases hstep with
  | alloc client pooled => exact Exists.intro _ (h.alloc client _ pooled)
  | allocFails => exact Exists.intro place h
  | refuse client =>
      exact Exists.intro _ (h.free (congrArg Client.msg client) (congrArg Client.held client))
  | fill client =>
      exists place
      apply h.advance (congrArg Client.msg client) (fun x hx => Function.update_of_ne hx _ _) rfl _
        h.replies
      rw [h.fits client rfl]
      simp [Fits, Sys.setMsg, fillMsg]
  | send client => exact Exists.intro _ (h.send client)
  | sendFails client =>
      exact Exists.intro _ (h.free (congrArg Client.msg client) (congrArg Client.held client))
  | receive client =>
      have hfits := h.fits client rfl
      exact Exists.intro place (h.advance (congrArg Client.msg client) (fun _ _ => rfl) rfl
        (And.intro hfits.typed hfits) h.replies)
  | miss client =>
      have hfits := h.fits client rfl
      exact Exists.intro place (h.advance (congrArg Client.msg client) (fun _ _ => rfl) rfl
        hfits h.replies)
  | dequeueOwn client ring => exact Exists.intro _ (h.dequeue client ring)
  | dequeueForeign client ring other =>
      simp only [Orderly, client, ring, List.head?_cons, Option.some.injEq] at horderly
      exact absurd horderly.symm other
  | freeForeign client => exact (h.fits client rfl).elim
  | giveUp client =>
      simp only [Orderly, client] at horderly
      exact Exists.intro _ (h.giveUp client horderly.1 horderly.2)
  | read client => exact Exists.intro place (h.read client)
  | free client =>
      exact Exists.intro _ (h.free (congrArg Client.msg client) (congrArg Client.held client))
  | serverTake server ring => exact h.serverTake server ring
  | serverHandle server => exact h.serverHandle server build _
  | serverReply server => exact h.serverReply server
  | serverLose server => exact h.serverLose server

theorem run {build : Build} {actions : List Action} (h : Placed s place)
    (horderly : OrderlyRun build actions s) (hrun : run build actions s = some s') :
    exists place', Placed s' place' := by
  induction actions generalizing s place with
  | nil =>
      cases hrun
      exact Exists.intro place h
  | cons a rest ih =>
      rcases Option.bind_eq_some_iff.mp hrun with ⟨mid, hmid, hrest⟩
      rcases h.step horderly.1 (step_cases hmid) with ⟨place', hplaced⟩
      exact ih hplaced (horderly.2 mid hmid) hrest

end Placed

def initSpot (m : MsgRef) : Spot :=
  if m < msgRingSize * 2 * nbProcs then .pool else .absent

theorem initMsgRing_placed : Placed initMsgRing initSpot := by
  constructor
  · constructor
    · exact List.nodup_range
    · intro x
      show x ∈ List.range _ <-> _
      unfold initSpot
      rw [List.mem_range]
      split <;> simp_all [Spot.InPool]
  · apply Road.empty
    intro x
    unfold initSpot
    split
    · exact Spot.offRoad_pool
    · exact Spot.offRoad_absent
  · constructor
    · intro c x
      show none = some x <-> _
      unfold initSpot
      split <;> simp [Spot.owner]
    · intro c x hmsg
      cases hmsg
  · intro e he
    cases he

/--
In every interleaving of any number of clients with the server in which clients give
up only on lost messages and take only their own from the output rings, no message is
ever in two places or twice in the pool, and every call that returns success has read
the server's reply to its own request.
-/
theorem ipc_ownership (build : Build) (actions : List Action) (s : Sys)
    (hrun : run build actions initMsgRing = some s)
    (horderly : OrderlyRun build actions initMsgRing) : Lawful s := by
  rcases initMsgRing_placed.run horderly hrun with ⟨place, hplaced⟩
  exact hplaced.lawful

theorem OrderlyRun.cons {build : Build} {a : Action} {rest : List Action} {s s' : Sys}
    (horderly : Orderly s a) (hstep : step build s a = some s')
    (hrest : OrderlyRun build rest s') : OrderlyRun build (a :: rest) s := by
  constructor
  · exact horderly
  · intro s'' hstep'
    cases hstep.symm.trans hstep'
    exact hrest

def plainBuild : Build :=
  ⟨false, false, false, .ofCapacity (msgRingSize - 1)⟩

def twoRequests : List Action :=
  [.alloc 0 sysctl 0, .alloc 1 rtioctl 1, .fill 0, .fill 1, .send 0, .send 1,
    .serverTake, .serverHandle 0, .receive 0, .miss 0, .serverReply, .serverTake,
    .serverHandle 0, .serverReply, .receive 1, .dequeue 0, .dequeue 1, .read 0, .read 1,
    .free 0, .free 1]

theorem ipc_ownership_two_requests : exists s, run plainBuild twoRequests initMsgRing = some s ∧
      s.successes = [⟨0, 0, .reply 0⟩, ⟨1, 1, .reply 1⟩] ∧ Lawful s := by
  apply Exists.intro _
  constructor
  · rfl
  constructor
  · rfl
  · apply ipc_ownership plainBuild twoRequests _ rfl
    unfold twoRequests
    repeat apply OrderlyRun.cons (by first | exact trivial | rfl) rfl
    exact trivial

/--
A client gives up before the server has come to its message and frees it: the message
is in the pool and in the input ring.
-/
def earlyTimeout : List Action :=
  [.alloc 0 sysctl 0, .fill 0, .send 0, .receive 0, .giveUp 0, .free 0]

/--
A client gives up just before the reply is put into the output ring.  The next client
takes the old reply for its own before the server has seen its request.
-/
def staleReply : List Action :=
  [.alloc 0 sysctl 0, .fill 0, .send 0, .receive 0, .serverTake, .serverHandle 0, .giveUp 0,
    .serverReply, .free 0, .alloc 1 sysctl 0, .fill 1, .send 1, .receive 1, .dequeue 1, .read 1]

/--
Nobody gives up.  Client 1 takes the reply to client 0 from the ring and frees it;
the message goes to client 2, whose reply client 0 takes for its own.
-/
def foreignReply : List Action :=
  [.alloc 0 sysctl 0, .alloc 1 sysctl 1, .fill 0, .fill 1, .send 0, .send 1,
    .serverTake, .serverHandle 0, .serverReply, .serverTake, .serverHandle 0, .serverReply,
    .receive 1, .dequeue 1, .freeForeign 1, .alloc 2 sysctl 0, .fill 2, .send 2,
    .serverTake, .serverHandle 0, .serverReply, .receive 1, .dequeue 1, .receive 0,
    .dequeue 0, .read 0]

theorem ipc_ownership_lost : (exists s, run plainBuild earlyTimeout initMsgRing = some s ∧
      s.At (.pool 0) 0 ∧ s.At (.ring .unknown 0) 0) ∧
    (exists s, run plainBuild staleReply initMsgRing = some s ∧
      s.successes = [⟨1, 1, .request 1⟩]) ∧
    (exists s, run plainBuild foreignReply initMsgRing = some s ∧
      s.successes = [⟨0, 0, .reply 2⟩]) := by
  constructor
  · exact ⟨_, rfl, rfl, rfl⟩
  constructor
  · exact ⟨_, rfl, rfl⟩
  · exact ⟨_, rfl, rfl⟩

end Ipc
end FStackLite
