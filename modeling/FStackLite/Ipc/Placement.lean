import FStackLite.Foundation.Placement
import FStackLite.Ipc.Protocol

/-!
# The place of a message

Every message has one spot: the pool, the hands of the client that allocated it, or
a stage of the way to the server and back.  A message on its way belongs to the one
client that waits for it.  A state is placed if the pool, the rings, the server and
the clients agree with such an assignment of spots.
-/

namespace FStackLite
namespace Ipc

open Foundation

/-!
## The spot of a message
-/

inductive Spot where
  /-- Not a message of the pool. -/
  | absent
  | pool
  /-- With the client `c`. -/
  | client (c : ClientId)
  /-- In a ring, on behalf of `c`. -/
  | ring (c : ClientId) (ty : MsgType)
  /-- With the server, before and after the handler. -/
  | taken (c : ClientId)
  | handled (c : ClientId)
  /-- Lost by the server in front of a full ring. -/
  | lost (c : ClientId)

namespace Spot

def owner : Spot -> Option ClientId
  | absent => none
  | pool => none
  | client c => some c
  | ring c _ => some c
  | taken c => some c
  | handled c => some c
  | lost c => some c

def InPool : Spot -> Prop
  | pool => True
  | _ => False

def InRing (ty : MsgType) : Spot -> Prop
  | ring _ ty' => ty' = ty
  | _ => False

def IsTaken : Spot -> Prop
  | taken _ => True
  | _ => False

def IsHandled : Spot -> Prop
  | handled _ => True
  | _ => False

def OffRoad (spot : Spot) : Prop :=
  (forall ty, ¬ spot.InRing ty) ∧ ¬ spot.IsTaken ∧ ¬ spot.IsHandled

theorem offRoad_absent : OffRoad absent :=
  And.intro (fun _ => id) (And.intro id id)

theorem offRoad_pool : OffRoad pool :=
  And.intro (fun _ => id) (And.intro id id)

theorem offRoad_client (c : ClientId) : OffRoad (client c) :=
  And.intro (fun _ => id) (And.intro id id)

theorem offRoad_lost (c : ClientId) : OffRoad (lost c) :=
  And.intro (fun _ => id) (And.intro id id)

variable {spot : Spot}

theorem eq_pool (h : spot.InPool) : spot = pool := by
  cases spot with
  | pool => rfl
  | _ => exact h.elim

theorem exists_ring {ty : MsgType} (h : spot.InRing ty) : exists c, spot = ring c ty := by
  cases spot with
  | ring c ty' =>
      cases h
      exact Exists.intro c rfl
  | _ => exact h.elim

theorem exists_taken (h : spot.IsTaken) : exists c, spot = taken c := by
  cases spot with
  | taken c => exact Exists.intro c rfl
  | _ => exact h.elim

theorem exists_handled (h : spot.IsHandled) : exists c, spot = handled c := by
  cases spot with
  | handled c => exact Exists.intro c rfl
  | _ => exact h.elim

def area : Spot -> Option Location
  | absent => none
  | pool => some (.pool 0)
  | client c => some (.client c)
  | ring _ ty => some (.ring ty 0)
  | taken _ => some .server
  | handled _ => some .server
  | lost _ => none

end Spot

def Location.area : Location -> Location
  | .pool _ => .pool 0
  | .ring ty _ => .ring ty 0
  | .client c => .client c
  | .server => .server

def Server.takenList : Server -> List MsgRef
  | .taken m => [m]
  | _ => []

def Server.handledList : Server -> List MsgRef
  | .handled m => [m]
  | _ => []

/-- What stands in a message that is on its way, for the request `ticket`. -/
def Stage (call : Call) (ticket : Ticket) : Spot -> Body -> Prop
  | .ring _ ty, body =>
      (ty = .unknown ∧ body = .request ticket) ∨ (ty = call.msgType ∧ body = .reply ticket)
  | .taken _, body => body = .request ticket
  | .handled _, body => body = .reply ticket
  | .lost _, _ => True
  | _, _ => False

structure Awaited (call : Call) (ticket : Ticket) (spot : Spot) (msg : Msg) : Prop where
  typed : msg.msgType = call.msgType
  stage : Stage call ticket spot msg.body

def Fits (c : ClientId) : Client -> Spot -> Msg -> Prop
  | .idle, _, _ => True
  | .holding _ _, spot, _ => spot = .client c
  | .ready call _ ticket, spot, msg =>
      spot = .client c ∧ msg.msgType = call.msgType ∧ msg.body = .request ticket
  | .waiting call _ ticket, spot, msg => Awaited call ticket spot msg
  | .receiving call _ ticket ty _, spot, msg => ty = call.msgType ∧ Awaited call ticket spot msg
  | .foreign _ _ _ _, _, _ => False
  | .received _ _ ticket, spot, msg => spot = .client c ∧ msg.body = .reply ticket
  | .closing _, spot, _ => spot = .client c

/-- Clients and messages are matched: a message's owner is the client that names it. -/
structure Matched (clients : ClientId -> Client) (memory : MsgRef -> Msg)
    (place : MsgRef -> Spot) : Prop where
  owner : forall c m, (clients c).msg = some m <-> (place m).owner = some c
  fits : forall c m, (clients c).msg = some m -> Fits c (clients c) (place m) (memory m)

structure Road (rings : MsgType -> List MsgRef) (server : Server) (place : MsgRef -> Spot) :
    Prop where
  rings : forall ty, Tracks (rings ty) place (Spot.InRing ty)
  taken : Tracks server.takenList place Spot.IsTaken
  handled : Tracks server.handledList place Spot.IsHandled

structure Placed (s : Sys) (place : MsgRef -> Spot) : Prop where
  pool : Tracks s.pool place Spot.InPool
  road : Road s.rings s.server place
  clients : Matched s.clients s.memory place
  replies : forall e, e ∈ s.successes -> e.read = .reply e.ticket

/-!
## What a placement implies
-/

variable {c : ClientId} {client : Client} {m : MsgRef} {msg : Msg} {spot : Spot}

theorem Fits.held (h : Fits c client spot msg) (hheld : client.held = some m) :
    spot = .client c := by
  cases client with
  | holding => exact h
  | ready => exact h.1
  | foreign => exact h.elim
  | received => exact h.1
  | closing => exact h
  | _ => cases hheld

theorem Fits.msg_of_held {m' : MsgRef} (h : Fits c client spot msg) (hmsg : client.msg = some m')
    (hheld : client.held = some m) : client.msg = some m := by
  cases client with
  | foreign => exact h.elim
  | idle => cases hmsg
  | waiting => cases hheld
  | receiving => cases hheld
  | _ => exact hheld

theorem Fits.awaited (h : Fits c client spot msg) (hmsg : client.msg = some m)
    (hspot : spot ≠ .client c) : exists call ticket, Awaited call ticket spot msg ∧
      forall spot' msg', Awaited call ticket spot' msg' -> Fits c client spot' msg' := by
  cases client with
  | idle => cases hmsg
  | waiting call _ ticket =>
      exists call, ticket
      exact And.intro h (fun _ _ h' => h')
  | receiving call _ ticket =>
      exists call, ticket
      exact And.intro h.2 (fun _ _ h' => And.intro h.1 h')
  | foreign => exact h.elim
  | holding => contradiction
  | closing => contradiction
  | ready => exact absurd h.1 hspot
  | received => exact absurd h.1 hspot

theorem Road.place_taken {rings : MsgType -> List MsgRef} {server : Server}
    {place : MsgRef -> Spot} (h : Road rings server place) (hserver : server = .taken m) :
    exists c, place m = .taken c := by
  apply Spot.exists_taken
  apply (h.taken.mem_iff m).mp
  rw [hserver]
  exact List.mem_singleton_self m

theorem Road.place_handled {rings : MsgType -> List MsgRef} {server : Server}
    {place : MsgRef -> Spot} (h : Road rings server place) (hserver : server = .handled m) :
    exists c, place m = .handled c := by
  apply Spot.exists_handled
  apply (h.handled.mem_iff m).mp
  rw [hserver]
  exact List.mem_singleton_self m

namespace Placed

variable {s : Sys} {place : MsgRef -> Spot} {m : MsgRef}

theorem fits (h : Placed s place) {c : ClientId} {client : Client}
    (hclient : s.clients c = client) (hmsg : client.msg = some m) :
    Fits c client (place m) (s.memory m) := by
  subst hclient
  exact h.clients.fits c m hmsg

theorem held (h : Placed s place) {c : ClientId} (hheld : (s.clients c).held = some m) :
    place m = .client c := by
  cases hmsg : (s.clients c).msg with
  | none =>
      cases hclient : s.clients c <;> simp [hclient, Client.msg, Client.held] at hmsg hheld
  | some m' =>
      have hown := (h.clients.fits c m' hmsg).msg_of_held hmsg hheld
      exact (h.clients.fits c m hown).held hheld

theorem area_of_at (h : Placed s place) {p : Location} (hat : s.At p m) :
    (place m).area = some p.area := by
  cases p with
  | pool i =>
      rw [Spot.eq_pool ((h.pool.mem_iff m).mp (List.mem_of_getElem? hat))]
      rfl
  | ring ty i =>
      rcases Spot.exists_ring (((h.road.rings ty).mem_iff m).mp (List.mem_of_getElem? hat))
        with ⟨c, hc⟩
      rw [hc]
      rfl
  | client c =>
      rw [h.held hat]
      rfl
  | server =>
      cases hserver : s.server with
      | idle => simp [Sys.At, hserver, Server.msg] at hat
      | taken m' =>
          have heq : m' = m := by simpa [Sys.At, hserver, Server.msg] using hat
          subst heq
          rcases h.road.place_taken hserver with ⟨c, hc⟩
          rw [hc]
          rfl
      | handled m' =>
          have heq : m' = m := by simpa [Sys.At, hserver, Server.msg] using hat
          subst heq
          rcases h.road.place_handled hserver with ⟨c, hc⟩
          rw [hc]
          rfl

theorem exclusive (h : Placed s place) {p q : Location} (hp : s.At p m) (hq : s.At q m) :
    p = q := by
  have harea : p.area = q.area := by
    have hsome := (h.area_of_at hp).symm.trans (h.area_of_at hq)
    exact Option.some.inj hsome
  cases p with
  | pool i =>
      cases q with
      | pool j => rw [h.pool.index_unique hp hq]
      | _ => cases harea
  | ring ty i =>
      cases q with
      | ring ty' j =>
          cases harea
          rw [(h.road.rings ty).index_unique hp hq]
      | _ => cases harea
  | client c =>
      cases q with
      | client c' => exact harea
      | _ => cases harea
  | server =>
      cases q with
      | server => rfl
      | _ => cases harea

theorem lawful (h : Placed s place) : Lawful s where
  exclusive := fun _ _ _ hp hq => h.exclusive hp hq
  pooled_once := h.pool.nodup
  own_reply := h.replies

end Placed

/-!
## Moving one message

A step changes the state of at most one client and the spot and the content of at
most one message, which is the client's own or comes from the pool.
-/

namespace Matched

variable {clients clients' : ClientId -> Client} {memory memory' : MsgRef -> Msg}
  {place : MsgRef -> Spot} {c : ClientId} {m : MsgRef} {spot : Spot}

theorem unique (h : Matched clients memory place)
    (hmine : (clients c).msg = some m ∨ ((clients c).msg = none ∧ (place m).owner = none))
    {x : ClientId} {y : MsgRef} (hxy : x = c ∨ y = m) (hmsg : (clients x).msg = some y) :
    x = c ∧ y = m := by
  have howner := (h.owner x y).mp hmsg
  cases hmine with
  | inl hmine =>
      have hownerc := (h.owner c m).mp hmine
      cases hxy with
      | inl hx =>
          subst hx
          exact And.intro rfl (Option.some.inj (hmsg.symm.trans hmine))
      | inr hy =>
          subst hy
          exact And.intro (Option.some.inj (howner.symm.trans hownerc)) rfl
  | inr hnone =>
      cases hxy with
      | inl hx =>
          subst hx
          cases hnone.1.symm.trans hmsg
      | inr hy =>
          subst hy
          cases hnone.2.symm.trans howner

theorem owner_move (h : Matched clients memory place)
    (hclients : forall x, x ≠ c -> clients' x = clients x)
    (hmine : (clients c).msg = some m ∨ ((clients c).msg = none ∧ (place m).owner = none))
    (hnew : ((clients' c).msg = some m ∧ spot.owner = some c) ∨
      ((clients' c).msg = none ∧ spot.owner = none)) (x : ClientId) (y : MsgRef) :
    (clients' x).msg = some y <-> (Function.update place m spot y).owner = some x := by
  by_cases hx : x = c
  · subst hx
    by_cases hy : y = m
    · subst hy
      rw [Function.update_self]
      rcases hnew with hnew | hnew
      · simp [hnew.1, hnew.2]
      · simp [hnew.1, hnew.2]
    · rw [Function.update_of_ne hy]
      constructor
      · intro hmsg
        rcases hnew with hnew | hnew
        · exact absurd (Option.some.inj (hmsg.symm.trans hnew.1)) hy
        · cases hnew.1.symm.trans hmsg
      · intro howner
        exact absurd (h.unique hmine (Or.inl rfl) ((h.owner x y).mpr howner)).2 hy
  · rw [hclients x hx]
    by_cases hy : y = m
    · subst hy
      rw [Function.update_self]
      constructor
      · intro hmsg
        exact absurd (h.unique hmine (Or.inr rfl) hmsg).1 hx
      · intro howner
        rcases hnew with hnew | hnew
        · exact absurd (Option.some.inj (howner.symm.trans hnew.2)) hx
        · cases hnew.2.symm.trans howner
    · rw [Function.update_of_ne hy]
      exact h.owner x y

theorem move (h : Matched clients memory place)
    (hclients : forall x, x ≠ c -> clients' x = clients x)
    (hmemory : forall x, x ≠ m -> memory' x = memory x)
    (hmine : (clients c).msg = some m ∨ ((clients c).msg = none ∧ (place m).owner = none))
    (hnew : ((clients' c).msg = some m ∧ spot.owner = some c ∧
        Fits c (clients' c) spot (memory' m)) ∨ ((clients' c).msg = none ∧ spot.owner = none)) :
    Matched clients' memory' (Function.update place m spot) := by
  constructor
  · apply h.owner_move hclients hmine
    exact hnew.imp (fun hkept => And.intro hkept.1 hkept.2.1) id
  · intro x y hmsg
    by_cases hx : x = c
    · subst hx
      rcases hnew with hnew | hnew
      · have hy : y = m := Option.some.inj (hmsg.symm.trans hnew.1)
        subst hy
        rw [Function.update_self]
        exact hnew.2.2
      · cases hnew.1.symm.trans hmsg
    · rw [hclients x hx] at hmsg ⊢
      have hy : y ≠ m := fun hy => hx (h.unique hmine (Or.inr hy) hmsg).1
      rw [Function.update_of_ne hy, hmemory y hy]
      exact h.fits x y hmsg

end Matched

/-!
## The road
-/

namespace Road

variable {rings : MsgType -> List MsgRef} {server : Server} {place : MsgRef -> Spot}
  {m : MsgRef} {spot : Spot} {rest : List MsgRef} {ty : MsgType}

theorem empty (h : forall x, (place x).OffRoad) : Road (fun _ => []) .idle place where
  rings := fun ty => Tracks.nil (fun x => (h x).1 ty)
  taken := Tracks.nil (fun x => (h x).2.1)
  handled := Tracks.nil (fun x => (h x).2.2)

theorem keep (h : Road rings server place) (hold : (place m).OffRoad) (hnew : spot.OffRoad) :
    Road rings server (Function.update place m spot) where
  rings := fun ty => (h.rings ty).keep (iff_of_false (hnew.1 ty) (hold.1 ty))
  taken := h.taken.keep (iff_of_false hnew.2.1 hold.2.1)
  handled := h.handled.keep (iff_of_false hnew.2.2 hold.2.2)

theorem rings_enqueue (h : Road rings server place) (hout : forall ty, ¬ (place m).InRing ty)
    (c : ClientId) (ty ty' : MsgType) : Tracks (Function.update rings ty (rings ty ++ [m]) ty')
      (Function.update place m (.ring c ty)) (Spot.InRing ty') := by
  by_cases heq : ty' = ty
  · subst heq
    rw [Function.update_self]
    exact (h.rings ty').snoc (hout ty') rfl
  · rw [Function.update_of_ne heq]
    exact (h.rings ty').keep (iff_of_false (fun hin => heq hin.symm) (hout ty'))

theorem rings_dequeue (h : Road rings server place) (hring : rings ty = m :: rest)
    (hout : forall ty, ¬ spot.InRing ty) (ty' : MsgType) :
    Tracks (Function.update rings ty rest ty') (Function.update place m spot)
      (Spot.InRing ty') := by
  have htracks := h.rings ty
  rw [hring] at htracks
  by_cases heq : ty' = ty
  · subst heq
    rw [Function.update_self]
    exact htracks.uncons (hout ty')
  · rw [Function.update_of_ne heq]
    rcases Spot.exists_ring ((htracks.mem_iff m).mp List.mem_cons_self) with ⟨c, hc⟩
    apply (h.rings ty').keep
    apply iff_of_false (hout ty')
    rw [hc]
    exact fun hin => heq hin.symm

theorem place_head (h : Road rings server place) (hring : rings ty = m :: rest) :
    exists c, place m = .ring c ty := by
  apply Spot.exists_ring
  apply ((h.rings ty).mem_iff m).mp
  rw [hring]
  exact List.mem_cons_self

theorem send (h : Road rings server place) (hold : (place m).OffRoad) (c : ClientId) :
    Road (Function.update rings .unknown (rings .unknown ++ [m])) server
      (Function.update place m (.ring c .unknown)) where
  rings := h.rings_enqueue hold.1 c .unknown
  taken := h.taken.keep (iff_of_false id hold.2.1)
  handled := h.handled.keep (iff_of_false id hold.2.2)

theorem receive (h : Road rings server place) (hring : rings ty = m :: rest) (hnew : spot.OffRoad) :
    Road (Function.update rings ty rest) server (Function.update place m spot) := by
  rcases h.place_head hring with ⟨c, hc⟩
  constructor
  · exact h.rings_dequeue hring hnew.1
  · apply h.taken.keep
    rw [hc]
    exact iff_of_false hnew.2.1 id
  · apply h.handled.keep
    rw [hc]
    exact iff_of_false hnew.2.2 id

theorem take (h : Road rings .idle place) (hring : rings ty = m :: rest) (c : ClientId) :
    Road (Function.update rings ty rest) (.taken m) (Function.update place m (.taken c)) := by
  rcases h.place_head hring with ⟨c', hc⟩
  constructor
  · exact h.rings_dequeue hring (fun _ => id)
  · apply h.taken.cons
    · rw [hc]
      exact id
    · exact trivial
  · apply h.handled.keep
    rw [hc]
    exact Iff.rfl

theorem handle (h : Road rings (.taken m) place) (c : ClientId) :
    Road rings (.handled m) (Function.update place m (.handled c)) := by
  rcases h.place_taken rfl with ⟨c', hc⟩
  constructor
  · intro ty
    apply (h.rings ty).keep
    rw [hc]
    exact Iff.rfl
  · exact h.taken.uncons id
  · apply h.handled.cons
    · rw [hc]
      exact id
    · exact trivial

theorem reply (h : Road rings (.handled m) place) (c : ClientId) (ty : MsgType) :
    Road (Function.update rings ty (rings ty ++ [m])) .idle
      (Function.update place m (.ring c ty)) := by
  rcases h.place_handled rfl with ⟨c', hc⟩
  constructor
  · apply h.rings_enqueue
    rw [hc]
    exact fun _ => id
  · apply h.taken.keep
    rw [hc]
    exact Iff.rfl
  · exact h.handled.uncons id

theorem lose (h : Road rings (.handled m) place) (c : ClientId) :
    Road rings .idle (Function.update place m (.lost c)) := by
  rcases h.place_handled rfl with ⟨c', hc⟩
  constructor
  · intro ty
    apply (h.rings ty).keep
    rw [hc]
    exact Iff.rfl
  · apply h.taken.keep
    rw [hc]
    exact Iff.rfl
  · exact h.handled.uncons id

end Road

end Ipc
end FStackLite
