import FStackLite.Packet.Convert

/-!
# Freeing mbufs

What `m_free` can do to the rest of the system, whatever storage the mbuf has,
and `m_freem` on a chain as the sequence of the `m_free` of its members.
-/

namespace FStackLite
namespace Packet

open Foundation

/-!
## The effect of one `m_free`
-/

def UpToCount (a b : Mbuf) : Prop :=
  b = { a with ext := { a.ext with extCount := b.ext.extCount } }

variable {a b : Mbuf} {env : Env} {m : MbufRef} {s s' : Sys} {ms : List MbufRef}
    {start : Option MbufRef}

theorem UpToCount.mNext (h : UpToCount a b) : b.mNext = a.mNext := by
  rw [h]

theorem UpToCount.extFree (h : UpToCount a b) : b.ext.extFree = a.ext.extFree := by
  rw [h]

theorem UpToCount.extArg1 (h : UpToCount a b) : b.ext.extArg1 = a.ext.extArg1 := by
  rw [h]

structure SameRte (s s' : Sys) : Prop where
  rtes : s'.rtes = s.rtes
  pool : s'.pool = s.pool
  rteFrees : s'.rteFrees = s.rteFrees

theorem SameRte.refl (s : Sys) : SameRte s s :=
  ⟨rfl, rfl, rfl⟩

/-- The packet pool is left alone, or the callback of `m` frees a packet. -/
def RteEffect (env : Env) (m : MbufRef) (s s' : Sys) : Prop :=
  SameRte s s' ∨
    ((s.mbufs m).ext.extFree = some ExtFree.dpdkFfFreef ∧
      SameRte (s.rtePktmbufFree env (s.mbufs m).ext.extArg1) s')

/-- What holds across one `m_free(m)`. -/
structure FreeEffect (env : Env) (m : MbufRef) (s s' : Sys) : Prop where
  mbufs : forall x, UpToCount (s.mbufs x) (s'.mbufs x)
  mem : s'.mem = s.mem
  mFrees : s'.mFrees = s.mFrees ++ [m]
  rte : RteEffect env m s s'

structure StorageEffect (env : Env) (m : MbufRef) (s s' : Sys) : Prop where
  mbufs : forall x, UpToCount (s.mbufs x) (s'.mbufs x)
  mem : s'.mem = s.mem
  mFrees : s'.mFrees = s.mFrees
  rte : RteEffect env m s s'

theorem storageEffect_same (hmbufs : s'.mbufs = s.mbufs) (hmem : s'.mem = s.mem)
    (hfrees : s'.mFrees = s.mFrees) (hrte : SameRte s s') : StorageEffect env m s s' := by
  constructor
  · intro x
    rw [hmbufs]
    rfl
  · exact hmem
  · exact hfrees
  · exact Or.inl hrte

theorem StorageEffect.umaZfreeMbuf (h : StorageEffect env m s s') (x : MbufRef) :
    StorageEffect env m s (s'.umaZfreeMbuf x) := by
  constructor
  · exact h.mbufs
  · exact h.mem
  · exact h.mFrees
  · rcases h.rte with hsame | ⟨hfree, hsame⟩
    · exact Or.inl ⟨hsame.rtes, hsame.pool, hsame.rteFrees⟩
    · exact Or.inr ⟨hfree, ⟨hsame.rtes, hsame.pool, hsame.rteFrees⟩⟩

theorem rtePktmbufFree_mbufs (env : Env) (r : Option RteRef) (s : Sys) :
    (s.rtePktmbufFree env r).mbufs = s.mbufs := by
  cases r <;> rfl

theorem rtePktmbufFree_mem (env : Env) (r : Option RteRef) (s : Sys) :
    (s.rtePktmbufFree env r).mem = s.mem := by
  cases r <;> rfl

theorem rtePktmbufFree_mFrees (env : Env) (r : Option RteRef) (s : Sys) :
    (s.rtePktmbufFree env r).mFrees = s.mFrees := by
  cases r <;> rfl

theorem rtePktmbufFree_zone (env : Env) (r : Option RteRef) (s : Sys) :
    (s.rtePktmbufFree env r).zone = s.zone := by
  cases r <;> rfl

theorem callExtFree_effect (h : callExtFree env m s = some s') : StorageEffect env m s s' := by
  unfold callExtFree at h
  cases hfree : (s.mbufs m).ext.extFree with
  | none =>
      rw [hfree] at h
      contradiction
  | some f =>
      rw [hfree] at h
      cases f with
      | dpdkFfFreef =>
          cases h
          unfold dpdkFfFreef
          constructor
          · intro x
            rw [rtePktmbufFree_mbufs]
            rfl
          · exact rtePktmbufFree_mem env _ s
          · exact rtePktmbufFree_mFrees env _ s
          · exact Or.inr ⟨hfree, SameRte.refl _⟩
      | other f =>
          cases h
          exact storageEffect_same rfl rfl rfl ⟨rfl, rfl, rfl⟩

theorem freeStorage_effect {mref : MbufRef} (h : freeStorage env m mref s = some s') :
    StorageEffect env m s s' := by
  unfold freeStorage at h
  split at h
  case h_8 | h_9 | h_10 =>
    rcases Option.map_eq_some_iff.mp h with ⟨s1, hcall, rfl⟩
    exact (callExtFree_effect hcall).umaZfreeMbuf mref
  case h_11 =>
    exact callExtFree_effect h
  all_goals
    cases h
    exact storageEffect_same rfl rfl rfl ⟨rfl, rfl, rfl⟩

theorem dropRef_effect (env : Env) (m mref : MbufRef) (s : Sys) :
    StorageEffect env m s (dropRef s mref) := by
  constructor
  · intro x
    unfold dropRef
    by_cases heq : x = mref
    · subst heq
      rw [Sys.setMbuf_mbufs_self]
      rfl
    · rw [Sys.setMbuf_mbufs_of_ne _ _ heq]
      rfl
  · rfl
  · rfl
  · exact Or.inl ⟨rfl, rfl, rfl⟩

theorem mbFreeExt_effect (h : mbFreeExt env m s = some s') : StorageEffect env m s s' := by
  unfold mbFreeExt at h
  cases hholder : refHolder s m with
  | none =>
      rw [hholder] at h
      contradiction
  | some mref =>
      rw [hholder] at h
      rcases Option.map_eq_some_iff.mp h with ⟨s1, hstored, rfl⟩
      have heffect : StorageEffect env m s s1 := by
        split at hstored
        · exact freeStorage_effect hstored
        · cases hstored
          exact dropRef_effect env m mref s
      split
      · exact heffect.umaZfreeMbuf m
      · exact heffect

/-- The call of `m_free` on these mbufs is recorded. -/
def Sys.logFrees (s : Sys) (ms : List MbufRef) : Sys :=
  { s with mFrees := s.mFrees ++ ms }

theorem StorageEffect.freeEffect (h : StorageEffect env m (s.logFrees [m]) s') :
    FreeEffect env m s s' := by
  constructor
  · exact h.mbufs
  · exact h.mem
  · exact h.mFrees
  · rcases h.rte with hsame | ⟨hfree, hsame⟩
    · exact Or.inl ⟨hsame.rtes, hsame.pool, hsame.rteFrees⟩
    · apply Or.inr
      change (s.mbufs m).ext.extFree = some ExtFree.dpdkFfFreef at hfree
      change SameRte (Sys.rtePktmbufFree env (s.mbufs m).ext.extArg1
        (s.logFrees [m])) s' at hsame
      cases harg : (s.mbufs m).ext.extArg1 with
      | none =>
          rw [harg] at hsame
          exact ⟨hfree, ⟨hsame.rtes, hsame.pool, hsame.rteFrees⟩⟩
      | some r =>
          rw [harg] at hsame
          exact ⟨hfree, ⟨hsame.rtes, hsame.pool, hsame.rteFrees⟩⟩

/-- `m_free` returns the next mbuf, whatever it does. -/
theorem mFree_effect {n : Option MbufRef} (h : mFree env m s = some (n, s')) :
    n = s.mNext m ∧ FreeEffect env m s s' := by
  unfold mFree at h
  split at h
  · rcases Option.map_eq_some_iff.mp h with ⟨s1, hfree, heq⟩
    cases heq
    exact ⟨rfl, (mbFreeExt_effect hfree).freeEffect⟩
  · split at h
    · cases h
      exact ⟨rfl, (storageEffect_same rfl rfl rfl ⟨rfl, rfl, rfl⟩ :
        StorageEffect env m (s.logFrees [m]) (s.logFrees [m])).freeEffect⟩
    · cases h
      exact ⟨rfl, (storageEffect_same rfl rfl rfl ⟨rfl, rfl, rfl⟩ :
        StorageEffect env m (s.logFrees [m]) ((s.logFrees [m]).umaZfreeMbuf m)).freeEffect⟩

/-!
## Freeing one after the other
-/

/-- `m_free` of these mbufs, in this order. -/
def freeAll (env : Env) : List MbufRef -> Sys -> Option Sys
  | [], s => some s
  | m :: ms, s => (mFree env m s).bind fun x => freeAll env ms x.2

theorem freeAll_append (env : Env) (ms ms' : List MbufRef) (s : Sys) :
    freeAll env (ms ++ ms') s = (freeAll env ms s).bind (freeAll env ms') := by
  induction ms generalizing s with
  | nil => rfl
  | cons m ms ih =>
      show (mFree env m s).bind _ = ((mFree env m s).bind _).bind _
      rw [Option.bind_assoc]
      congr 1
      funext x
      exact ih x.2

theorem FreeEffect.chain (h : FreeEffect env m s s') (hchain : Chain s.mNext start ms) :
    Chain s'.mNext start ms :=
  hchain.congr fun x _ => (h.mbufs x).mNext

/--
`m_freem` frees the members of the chain one after the other; it needs a pass
for each member and one for the end.
-/
theorem mFreem_of_chain (env : Env) (hchain : Chain s.mNext start ms) (n : Nat) :
    mFreem env n start s = if ms.length < n then freeAll env ms s else none := by
  change loopN (mFreemBody env) n (start, s) = _
  induction ms generalizing start s n with
  | nil =>
      cases hchain.nil_inv
      cases n with
      | zero => rfl
      | succ n => simp [loopN, mFreemBody, freeAll]
  | cons m ms ih =>
      rcases hchain.cons_inv with ⟨rfl, htail⟩
      cases n with
      | zero => rfl
      | succ n =>
          cases hfree : mFree env m s with
          | none => simp [loopN, mFreemBody, freeAll, hfree]
          | some x =>
              rcases x with ⟨next, s1⟩
              rcases mFree_effect hfree with ⟨rfl, heffect⟩
              have hnext : mFreemBody env (some m, s) =
                  some (LoopStep.next (s.mNext m, s1)) := by
                simp [mFreemBody, hfree]
              rw [loopN_succ_next hnext, ih (heffect.chain htail)]
              simp [freeAll, hfree]

theorem mFreem_converges (hchain : Chain s.mNext start ms) (hfree : freeAll env ms s = some s') :
    Converges (fun n => mFreem env n start s) s' := by
  refine ⟨ms.length + 1, ?_⟩
  intro n hn
  show mFreem env n start s = some s'
  rw [mFreem_of_chain env hchain, if_pos (Nat.lt_of_succ_le hn), hfree]

theorem freeAll_of_mFreem (hchain : Chain s.mNext start ms) {n : Nat}
    (h : mFreem env n start s = some s') : freeAll env ms s = some s' := by
  rw [mFreem_of_chain env hchain] at h
  split at h
  · exact h
  · contradiction

/-!
## Mbufs that can be freed
-/

/-- The kinds of storage that are released with `ext_free`. -/
def ExtType.calls : ExtType -> Bool
  | netDrv => true
  | modType => true
  | disposable => true
  | extref => true
  | _ => false

/-- `m_free` finds the reference count and the function to call, as it asserts. -/
structure Freeable (b : Mbuf) : Prop where
  counted : b.hasExt = true -> b.ext.embref = false -> b.ext.extCnt.isSome = true
  callable : b.hasExt = true -> b.ext.extType.calls = true -> b.ext.extFree.isSome = true

theorem Freeable.congr (h : Freeable a) (hsame : UpToCount a b) : Freeable b := by
  rw [hsame]
  exact ⟨h.counted, h.callable⟩

theorem callExtFree_total (env : Env) (h : (s.mbufs m).ext.extFree.isSome = true) :
    exists s', callExtFree env m s = some s' := by
  unfold callExtFree
  cases hfree : (s.mbufs m).ext.extFree with
  | none =>
      rw [hfree] at h
      contradiction
  | some f =>
      cases f with
      | dpdkFfFreef => exact ⟨_, rfl⟩
      | other f => exact ⟨_, rfl⟩

theorem freeStorage_total (env : Env) (mref : MbufRef)
    (h : (s.mbufs m).ext.extType.calls = true -> (s.mbufs m).ext.extFree.isSome = true) :
    exists s', freeStorage env m mref s = some s' := by
  unfold freeStorage
  cases htype : (s.mbufs m).ext.extType
  case netDrv | modType | disposable | extref =>
    rw [htype] at h
    rcases callExtFree_total env (h rfl) with ⟨s1, hcall⟩
    simp only [hcall]
    exact ⟨_, rfl⟩
  all_goals exact ⟨_, rfl⟩

theorem mFree_total (env : Env) (h : Freeable (s.mbufs m)) : exists x, mFree env m s = some x := by
  unfold mFree
  cases hext : (s.mbufs m).hasExt with
  | false =>
      simp only [Bool.false_eq_true, if_false]
      split
      · exact ⟨_, rfl⟩
      · exact ⟨_, rfl⟩
  | true =>
      have hholder : exists mref, refHolder (s.logFrees [m]) m = some mref := by
        unfold refHolder
        cases hemb : (s.mbufs m).ext.embref with
        | true => exact ⟨m, if_pos hemb⟩
        | false =>
            rcases Option.isSome_iff_exists.mp (h.counted hext hemb) with ⟨mref, hmref⟩
            refine ⟨mref, ?_⟩
            rw [← hmref]
            exact if_neg (by
              change ¬ (s.mbufs m).ext.embref = true
              rw [hemb]
              decide)
      rcases hholder with ⟨mref, hmref⟩
      rcases freeStorage_total env mref (s := s.logFrees [m]) (h.callable hext) with
        ⟨s1, hstored⟩
      have hstorage : exists s2,
          (if ((s.logFrees [m]).mbufs mref).ext.extCount = 1 then
            freeStorage env m mref (s.logFrees [m])
          else some (dropRef (s.logFrees [m]) mref)) = some s2 := by
        split
        · exact ⟨s1, hstored⟩
        · exact ⟨_, rfl⟩
      rcases hstorage with ⟨s2, hs2⟩
      have hfree : exists s', mbFreeExt env m (s.logFrees [m]) = some s' := by
        simp only [mbFreeExt, hmref, hs2, Option.map_some]
        exact ⟨_, rfl⟩
      rcases hfree with ⟨s', hs'⟩
      rw [if_pos rfl]
      change exists x, (mbFreeExt env m (s.logFrees [m])).map _ = some x
      rw [hs']
      exact ⟨_, rfl⟩

theorem freeAll_total (env : Env) (h : forall x, x ∈ ms -> Freeable (s.mbufs x)) :
    exists s', freeAll env ms s = some s' := by
  induction ms generalizing s with
  | nil => exact ⟨s, rfl⟩
  | cons m ms ih =>
      rcases mFree_total env (h m List.mem_cons_self) with ⟨⟨next, s1⟩, hfree⟩
      have heffect := (mFree_effect hfree).2
      rcases ih fun x hx => (h x (List.mem_cons_of_mem m hx)).congr (heffect.mbufs x) with
        ⟨s', hs'⟩
      refine ⟨s', ?_⟩
      unfold freeAll
      rw [hfree]
      exact hs'

end Packet
end FStackLite
