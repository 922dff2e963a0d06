import FStackLite.TxQueue.Table

/-!
# The ledger of a port

What a port has been done with, together with what waits in its table, only changes by what
a sender adds.  This holds for the packets and for the BSD mbufs alike, which are two columns
of one table.
-/

namespace FStackLite
namespace TxQueue

open Foundation

variable {Pkt Bsd γ : Type} {setup : Setup Pkt} {s s' : St Pkt Bsd} {port q : Port} {m : Pkt}
variable {accepted len : Nat}

/-!
## Ports
-/

namespace St

@[simp] theorem setPort_self (s : St Pkt Bsd) (port : Port) (p : TxPort Pkt Bsd) :
    (s.setPort port p).port port = p := by
  simp [setPort]

theorem setPort_other (h : q ≠ port) (p : TxPort Pkt Bsd) :
    (s.setPort port p).port q = s.port q := by
  simp [setPort, h]

@[simp] theorem setLen_self (s : St Pkt Bsd) (port : Port) (len : Nat) :
    (s.setLen port len).port port =
      { s.port port with table := { (s.port port).table with len := len } } :=
  setPort_self s port _

theorem setLen_other (h : q ≠ port) (len : Nat) : (s.setLen port len).port q = s.port q :=
  setPort_other h _

theorem sendBurst_self (s : St Pkt Bsd) (n : Nat) (port : Port) (accepted : Nat) :
    (s.sendBurst setup n port accepted).port port = { s.port port with
        log := (s.port port).log ++
          sentEvents setup
            (((s.port port).table.slots setup.pageArray n).take (min accepted n)) ++
          freedEvents
            (((s.port port).table.slots setup.pageArray n).drop (min accepted n)) } :=
  setPort_self s port _

theorem sendBurst_other (h : q ≠ port) (n accepted : Nat) :
    (s.sendBurst setup n port accepted).port q = s.port q :=
  setPort_other h _

theorem storeLen_other (h : q ≠ port) (len accepted : Nat) :
    (s.storeLen setup port len accepted).port q = s.port q := by
  unfold storeLen
  split
  · rw [setLen_other h, sendBurst_other h]
  · exact setLen_other h len

theorem sendSinglePacket_eq (h : (s.port port).table.len < maxPktBurst) :
    s.sendSinglePacket setup m port accepted = some ((s.setPort port { s.port port with
        table := { (s.port port).table with
          mTable := Function.update (s.port port).table.mTable ⟨_, h⟩ m } }).storeLen setup port
            ((s.port port).table.len + 1) accepted) :=
  dif_pos h

theorem ffDpdkIfSend_plain {b : Option Bsd} {head : Option Pkt} (hbuild : setup.pageArray = false) :
    s.ffDpdkIfSend setup port b head accepted =
      match head with
      | none => some (s.ffMbufFree port b)
      | some head => (s.ffMbufFree port b).sendSinglePacket setup head port accepted := by
  unfold ffDpdkIfSend
  rw [hbuild]
  rfl

theorem ffMbufFree_none (s : St Pkt Bsd) (port : Port) : s.ffMbufFree port none = s := by
  simp [ffMbufFree, setPort]

theorem ffDpdkIfSend_fails {b : Option Bsd} {head : Option Pkt} (hbuild : setup.pageArray = true)
    (h : b = none ∨ head = none) :
    s.ffDpdkIfSend setup port b head accepted = some ((s.ffMbufFree port b).setLen port 0) := by
  unfold ffDpdkIfSend
  rw [hbuild]
  rcases h with rfl | rfl
  · rw [ffMbufFree_none]
    rfl
  · cases b with
    | none =>
        rw [ffMbufFree_none]
        rfl
    | some b => rfl

theorem ffIfSendOnepkt_converted {b : Bsd} (h : (s.port port).table.len < maxPktBurst) :
    s.ffIfSendOnepkt port (some b) (some m) = some (s.setPort port { s.port port with
        table := { (s.port port).table with
          mTable := Function.update (s.port port).table.mTable ⟨_, h⟩ m
          bsdMTable := Function.update (s.port port).table.bsdMTable ⟨_, h⟩ (some b) } },
        (s.port port).table.len + 1) :=
  dif_pos h

theorem ffDpdkIfSend_converted {b : Bsd} (hbuild : setup.pageArray = true)
    (h : (s.port port).table.len < maxPktBurst) :
    s.ffDpdkIfSend setup port (some b) (some m) accepted = some ((s.setPort port { s.port port with
        table := { (s.port port).table with
          mTable := Function.update (s.port port).table.mTable ⟨_, h⟩ m
          bsdMTable := Function.update (s.port port).table.bsdMTable ⟨_, h⟩ (some b) } }).storeLen
            setup port ((s.port port).table.len + 1) accepted) := by
  unfold ffDpdkIfSend
  rw [hbuild, if_pos rfl, ffIfSendOnepkt_converted h]
  rfl

theorem drainPort_other (h : q ≠ port) (accepted : Nat) :
    (s.drainPort setup port accepted).port q = s.port q := by
  unfold drainPort
  split
  · rfl
  · rw [setLen_other h, sendBurst_other h]

end St

/-!
## Slots
-/

theorem update_below {α : Type} {n : Nat} (column : Fin maxPktBurst -> α) (h : n < maxPktBurst)
    (a : α) {i : Fin maxPktBurst} (hi : i.val < n) :
    Function.update column ⟨n, h⟩ a i = column i := by
  have hne : i ≠ ⟨n, h⟩ := by
    rintro rfl
    exact Nat.lt_irrefl n hi
  exact Function.update_of_ne hne a column

theorem slots_push (pageArray : Bool) {t t' : MbufTable Pkt Bsd} {n : Nat} (h : n < maxPktBurst)
    (hbelow : forall i : Fin maxPktBurst, i.val < n -> t'.slot pageArray i = t.slot pageArray i) :
    t'.slots pageArray (n + 1) = t.slots pageArray n ++ [t'.slot pageArray ⟨n, h⟩] :=
  firstSlots_push h hbelow

theorem slots_setPacket (pageArray : Bool) (t : MbufTable Pkt Bsd) (h : t.len < maxPktBurst)
    (m : Pkt) :
    ({ t with mTable := Function.update t.mTable ⟨t.len, h⟩ m } : MbufTable Pkt Bsd).slots
        pageArray (t.len + 1) =
      t.slots pageArray t.len ++ [(m, if pageArray then t.bsdMTable ⟨t.len, h⟩ else none)] := by
  refine (slots_push pageArray (t := t) h ?_).trans ?_
  · intro i hi
    simp only [MbufTable.slot, update_below t.mTable h m hi]
  · simp only [MbufTable.slot, Function.update_self]

theorem slots_setBoth (pageArray : Bool) (t : MbufTable Pkt Bsd) (h : t.len < maxPktBurst)
    (m : Pkt) (b : Bsd) : ({ t with
        mTable := Function.update t.mTable ⟨t.len, h⟩ m
        bsdMTable := Function.update t.bsdMTable ⟨t.len, h⟩ (some b) } :
        MbufTable Pkt Bsd).slots pageArray (t.len + 1) =
      t.slots pageArray t.len ++ [(m, if pageArray then some b else none)] := by
  refine (slots_push pageArray (t := t) h ?_).trans ?_
  · intro i hi
    simp only [MbufTable.slot, update_below t.mTable h m hi, update_below t.bsdMTable h (some b) hi]
  · simp only [MbufTable.slot, Function.update_self]

/-!
## Columns
-/

/-- `f` reads from the events of a burst what `g` reads from the slots. -/
structure Column (setup : Setup Pkt) (f : Event Pkt Bsd -> Option γ)
    (g : Pkt × Option Bsd -> Option γ) : Prop where
  sent : forall slots, (sentEvents setup slots).filterMap f = slots.filterMap g
  freed : forall slots, (freedEvents slots).filterMap f = slots.filterMap g

theorem filterMap_singleton {α β : Type} (f : α -> Option β) (a : α) :
    [a].filterMap f = (f a).toList := by
  cases h : f a with
  | none =>
      rw [List.filterMap_cons_none h]
      rfl
  | some b =>
      rw [List.filterMap_cons_some h]
      rfl

def TxPort.ledger (pageArray : Bool) (f : Event Pkt Bsd -> Option γ)
    (g : Pkt × Option Bsd -> Option γ) (p : TxPort Pkt Bsd) : List γ :=
  p.log.filterMap f ++ (p.table.slots pageArray p.table.len).filterMap g

section

variable {f : Event Pkt Bsd -> Option γ} {g : Pkt × Option Bsd -> Option γ}

theorem Column.burst (h : Column setup f g) (s : St Pkt Bsd) (n : Nat) (port : Port)
    (accepted : Nat) : ((s.sendBurst setup n port accepted).port port).log.filterMap f =
      (s.port port).log.filterMap f ++
        ((s.port port).table.slots setup.pageArray n).filterMap g := by
  rw [St.sendBurst_self]
  simp only [List.filterMap_append, h.sent, h.freed, List.append_assoc]
  rw [<- List.filterMap_append, List.take_append_drop]

theorem Column.flush (h : Column setup f g) (s : St Pkt Bsd) (n : Nat) (port : Port)
    (accepted : Nat) :
    (((s.sendBurst setup n port accepted).setLen port 0).port port).ledger setup.pageArray f g =
      (s.port port).log.filterMap f ++
        ((s.port port).table.slots setup.pageArray n).filterMap g := by
  rw [St.setLen_self, TxPort.ledger]
  simp only [MbufTable.slots, firstSlots_zero, List.filterMap_nil, List.append_nil]
  exact h.burst s n port accepted

theorem Column.storeLen (h : Column setup f g) (s : St Pkt Bsd) (port : Port) (len accepted : Nat) :
    ((s.storeLen setup port len accepted).port port).ledger setup.pageArray f g =
      (s.port port).log.filterMap f ++
        ((s.port port).table.slots setup.pageArray len).filterMap g := by
  unfold St.storeLen
  split
  · next hlen =>
      rw [h.flush, hlen]
  · rw [St.setLen_self]
    rfl

theorem Column.drainPort (h : Column setup f g) (s : St Pkt Bsd) (port : Port) (accepted : Nat)
    (q : Port) : ((s.drainPort setup port accepted).port q).ledger setup.pageArray f g =
      (s.port q).ledger setup.pageArray f g := by
  by_cases hq : q = port
  · subst hq
    unfold St.drainPort
    split
    · rfl
    · exact h.flush s _ q accepted
  · rw [St.drainPort_other hq]

theorem Column.drain (h : Column setup f g) (s : St Pkt Bsd) (txPorts : List (Port × Nat))
    (q : Port) : ((s.drain setup txPorts).port q).ledger setup.pageArray f g =
      (s.port q).ledger setup.pageArray f g := by
  unfold St.drain
  induction txPorts generalizing s with
  | nil => rfl
  | cons tx txPorts ih => rw [List.foldl_cons, ih, h.drainPort]

theorem Column.push (h : Column setup f g) {t : MbufTable Pkt Bsd} {slot : Pkt × Option Bsd}
    (hslots : t.slots setup.pageArray ((s.port port).table.len + 1) =
      (s.port port).table.slots setup.pageArray (s.port port).table.len ++ [slot])
    (accepted : Nat) (q : Port) :
    (((s.setPort port { s.port port with table := t }).storeLen setup port
        ((s.port port).table.len + 1) accepted).port q).ledger setup.pageArray f g =
      (s.port q).ledger setup.pageArray f g ++ if port = q then (g slot).toList else [] := by
  by_cases hq : q = port
  · subst hq
    rw [h.storeLen, St.setPort_self, hslots, List.filterMap_append, if_pos rfl, TxPort.ledger,
      List.append_assoc, filterMap_singleton]
  · rw [St.storeLen_other hq, St.setPort_other hq, if_neg (Ne.symm hq), List.append_nil]

theorem Column.sendSinglePacket (h : Column setup f g)
    (hlen : (s.port port).table.len < maxPktBurst)
    (hsend : s.sendSinglePacket setup m port accepted = some s') (q : Port) :
    (s'.port q).ledger setup.pageArray f g = (s.port q).ledger setup.pageArray f g ++
      if port = q then
        (g (m, if setup.pageArray then (s.port port).table.bsdMTable ⟨_, hlen⟩ else none)).toList
      else [] := by
  rw [St.sendSinglePacket_eq hlen] at hsend
  injection hsend with hsend
  rw [<- hsend]
  exact h.push (slots_setPacket setup.pageArray _ hlen m) accepted q

theorem Column.ffDpdkIfSend (h : Column setup f g) (hbuild : setup.pageArray = true) {b : Bsd}
    (hlen : (s.port port).table.len < maxPktBurst)
    (hsend : s.ffDpdkIfSend setup port (some b) (some m) accepted = some s') (q : Port) :
    (s'.port q).ledger setup.pageArray f g = (s.port q).ledger setup.pageArray f g ++
      if port = q then (g (m, some b)).toList else [] := by
  rw [St.ffDpdkIfSend_converted hbuild hlen] at hsend
  injection hsend with hsend
  have hslots := slots_setBoth setup.pageArray (s.port port).table hlen m b
  rw [if_pos hbuild] at hslots
  rw [<- hsend]
  exact h.push hslots accepted q

end

/-!
## Lengths
-/

def St.Roomy (s : St Pkt Bsd) : Prop :=
  forall port, (s.port port).table.len < maxPktBurst

theorem roomy_start (null : Pkt) : (start null : St Pkt Bsd).Roomy :=
  fun _ => Nat.succ_pos _

theorem storeLen_len (s : St Pkt Bsd) (port : Port) (h : len ≤ maxPktBurst) (accepted : Nat) :
    ((s.storeLen setup port len accepted).port port).table.len < maxPktBurst := by
  unfold St.storeLen
  split
  · rw [St.setLen_self]
    exact Nat.succ_pos _
  · next hlen =>
      rw [St.setLen_self]
      exact Nat.lt_of_le_of_ne h hlen

theorem St.Roomy.storeLen (hroomy : forall q, q ≠ port -> (s.port q).table.len < maxPktBurst)
    (h : len ≤ maxPktBurst) (accepted : Nat) : (s.storeLen setup port len accepted).Roomy := by
  intro q
  by_cases hq : q = port
  · subst hq
    exact storeLen_len s q h accepted
  · rw [St.storeLen_other hq]
    exact hroomy q hq

theorem St.Roomy.setLen (h : s.Roomy) (hlen : len < maxPktBurst) : (s.setLen port len).Roomy := by
  intro q
  by_cases hq : q = port
  · rw [hq, St.setLen_self]
    exact hlen
  · rw [St.setLen_other hq]
    exact h q

theorem drainPort_len (s : St Pkt Bsd) (port : Port) (accepted : Nat) :
    ((s.drainPort setup port accepted).port port).table.len = 0 := by
  unfold St.drainPort
  split
  · next hlen =>
      exact hlen
  · rw [St.setLen_self]

theorem drainPort_len_le (s : St Pkt Bsd) (port : Port) (accepted : Nat) (q : Port) :
    ((s.drainPort setup port accepted).port q).table.len ≤ (s.port q).table.len := by
  by_cases hq : q = port
  · subst hq
    rw [drainPort_len]
    exact Nat.zero_le _
  · rw [St.drainPort_other hq]

theorem drain_len_le (s : St Pkt Bsd) (txPorts : List (Port × Nat)) (q : Port) :
    ((s.drain setup txPorts).port q).table.len ≤ (s.port q).table.len := by
  unfold St.drain
  induction txPorts generalizing s with
  | nil => exact Nat.le_refl _
  | cons tx txPorts ih => exact Nat.le_trans (ih _) (drainPort_len_le s tx.1 tx.2 q)

theorem drain_len {txPorts : List (Port × Nat)} (h : q ∈ txPorts.map Prod.fst) (s : St Pkt Bsd) :
    ((s.drain setup txPorts).port q).table.len = 0 := by
  induction txPorts generalizing s with
  | nil => contradiction
  | cons tx txPorts ih =>
      rw [List.map_cons, List.mem_cons] at h
      rcases h with rfl | hrest
      · have hzero : ((s.drainPort setup tx.1 tx.2).port tx.1).table.len = 0 :=
          drainPort_len s tx.1 tx.2
        have hle : (((s.drainPort setup tx.1 tx.2).drain setup txPorts).port tx.1).table.len ≤
            ((s.drainPort setup tx.1 tx.2).port tx.1).table.len := drain_len_le _ txPorts tx.1
        rw [hzero] at hle
        exact Nat.le_zero.mp hle
      · exact ih hrest (s.drainPort setup tx.1 tx.2)

theorem St.Roomy.drain (h : s.Roomy) (txPorts : List (Port × Nat)) :
    (s.drain setup txPorts).Roomy := by
  intro q
  exact Nat.lt_of_le_of_lt (drain_len_le s txPorts q) (h q)

theorem St.ffMbufFree_table (s : St Pkt Bsd) (port : Port) (b : Option Bsd) (q : Port) :
    ((s.ffMbufFree port b).port q).table = (s.port q).table := by
  by_cases hq : q = port
  · rw [hq, St.ffMbufFree, St.setPort_self]
  · rw [St.ffMbufFree, St.setPort_other hq]

theorem St.Roomy.ffMbufFree (h : s.Roomy) (port : Port) (b : Option Bsd) :
    (s.ffMbufFree port b).Roomy := by
  intro q
  rw [St.ffMbufFree_table]
  exact h q

theorem St.Roomy.sendSinglePacket (h : s.Roomy) (m : Pkt) (port : Port) (accepted : Nat) :
    exists s', s.sendSinglePacket setup m port accepted = some s' ∧ s'.Roomy := by
  refine ⟨_, St.sendSinglePacket_eq (h port), St.Roomy.storeLen ?_ (h port) accepted⟩
  intro q hq
  rw [St.setPort_other hq]
  exact h q

theorem St.Roomy.step (h : s.Roomy) (a : Action Pkt Bsd) :
    exists s', TxQueue.step setup s a = some s' ∧ s'.Roomy := by
  cases a with
  | single port m accepted => exact h.sendSinglePacket m port accepted
  | send port b head accepted =>
      rw [TxQueue.step]
      cases hbuild : setup.pageArray with
      | false =>
          rw [St.ffDpdkIfSend_plain hbuild]
          cases head with
          | none => exact ⟨_, rfl, h.ffMbufFree port b⟩
          | some m => exact (h.ffMbufFree port b).sendSinglePacket m port accepted
      | true =>
          have hfails : b = none ∨ head = none -> exists s',
              s.ffDpdkIfSend setup port b head accepted = some s' ∧ s'.Roomy := fun hnone =>
            ⟨_, St.ffDpdkIfSend_fails hbuild hnone, (h.ffMbufFree port b).setLen (by decide)⟩
          cases b with
          | none => exact hfails (Or.inl rfl)
          | some b =>
              cases head with
              | none => exact hfails (Or.inr rfl)
              | some m =>
                  refine ⟨_, St.ffDpdkIfSend_converted hbuild (h port),
                    St.Roomy.storeLen ?_ (h port) accepted⟩
                  intro q hq
                  rw [St.setPort_other hq]
                  exact h q
  | drain txPorts => exact ⟨_, rfl, h.drain txPorts⟩

end TxQueue
end FStackLite
