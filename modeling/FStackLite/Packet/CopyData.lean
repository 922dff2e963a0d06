import FStackLite.Packet.Convert

/-!
# Copying out of an mbuf chain

`m_copydata` stores the bytes `off, ..., off + len - 1` of the chain, however
they are spread over its mbufs, provided the chain has as many and the target
lies in none of the blocks it reads from.
-/

namespace FStackLite
namespace Packet

open Foundation

/-- The bytes of a chain, in the memory `mem`. -/
def dataIn (mem : Memory) (s : Sys) (ms : List MbufRef) : List UInt8 :=
  ms.flatMap fun m => mem.read (s.mbufs m).mData (s.mbufs m).mLen

theorem dataIn_cons (mem : Memory) (s : Sys) (m : MbufRef) (ms : List MbufRef) :
    dataIn mem s (m :: ms) = mem.read (s.mbufs m).mData (s.mbufs m).mLen ++ dataIn mem s ms := by
  unfold dataIn
  rw [List.flatMap_cons]

theorem totalLen_cons (s : Sys) (m : MbufRef) (ms : List MbufRef) :
    totalLen s (m :: ms) = (s.mbufs m).mLen + totalLen s ms := by
  unfold totalLen
  rw [List.map_cons, List.sum_cons]

theorem length_dataIn (mem : Memory) (s : Sys) (ms : List MbufRef) :
    (dataIn mem s ms).length = totalLen s ms := by
  induction ms with
  | nil => rfl
  | cons m ms ih =>
      rw [dataIn_cons, totalLen_cons, List.length_append, Memory.length_read, ih]

def Avoids (s : Sys) (ms : List MbufRef) (b : Block) : Prop :=
  forall m, m ∈ ms -> (s.mbufs m).mData.block ≠ b

variable {ms : List MbufRef} {s : Sys} {len off : Nat} {start : Option MbufRef}

theorem dataIn_write {p : Ptr} (h : Avoids s ms p.block) (mem : Memory) (bytes : List UInt8) :
    dataIn (mem.write p bytes) s ms = dataIn mem s ms := by
  induction ms with
  | nil => rfl
  | cons m ms ih =>
      rw [dataIn_cons, dataIn_cons, ih fun x hx => h x (List.mem_cons_of_mem m hx),
        Memory.read_write_of_ne mem (h m List.mem_cons_self)]

/-!
## The two loops
-/

theorem mCopydataSkip_converges (hchain : Chain s.mNext start ms)
    (hlen : off + len ≤ totalLen s ms) : exists start' off' ms',
      LoopConverges (fun _ => mCopydataSkip s) (start, off) (start', off') ∧
      Chain s.mNext start' ms' ∧ ms' ⊆ ms ∧ off' + len ≤ totalLen s ms' ∧
      (forall m rest, ms' = m :: rest -> off' ≤ (s.mbufs m).mLen) ∧
      forall mem, (dataIn mem s ms).drop off = (dataIn mem s ms').drop off' := by
  induction ms generalizing start off with
  | nil =>
      have hoff : off = 0 := by
        change off + len ≤ 0 at hlen
        omega
      subst hoff
      refine ⟨start, 0, [], ?_, hchain, List.Subset.refl _, hlen, ?_, fun _ => rfl⟩
      · exact LoopConverges.of_done (Converges.of_eq fun _ => rfl)
      · intro m rest heq
        contradiction
  | cons m ms ih =>
      rcases hchain.cons_inv with ⟨rfl, htail⟩
      by_cases hstop : off ≤ (s.mbufs m).mLen ∧ (off = 0 ∨ off < (s.mbufs m).mLen)
      · have hbody : mCopydataSkip s (some m, off) = some (LoopStep.done (some m, off)) := by
          unfold mCopydataSkip
          rcases hstop.2 with hzero | hlt
          · rw [if_pos hzero]
          · split
            · rfl
            · exact if_pos hlt
        refine ⟨some m, off, m :: ms, LoopConverges.of_done (Converges.of_eq fun _ => hbody),
          hchain, List.Subset.refl _, hlen, ?_, fun _ => rfl⟩
        intro x rest heq
        cases heq
        exact hstop.1
      · have hbody : mCopydataSkip s (some m, off) =
            some (LoopStep.next (s.mNext m, off - (s.mbufs m).mLen)) := by
          unfold mCopydataSkip
          rw [if_neg (show ¬ off = 0 by omega)]
          exact if_neg (show ¬ off < (s.mbufs m).mLen by omega)
        rw [totalLen_cons] at hlen
        rcases ih htail (show off - (s.mbufs m).mLen + len ≤ totalLen s ms by omega) with
          ⟨start', off', ms', hloop, hchain', hsub, hlen', hfirst, hdata⟩
        refine ⟨start', off', ms', LoopConverges.of_next (Converges.of_eq fun _ => hbody) hloop,
          hchain', fun x hx => List.mem_cons_of_mem m (hsub hx), hlen', hfirst, ?_⟩
        intro mem
        rw [← hdata mem, dataIn_cons, List.drop_append, Memory.length_read,
          List.drop_eq_nil_of_le (by rw [Memory.length_read]; omega), List.nil_append]

theorem take_drop_dataIn {mem : Memory} {m : MbufRef} (hoff : off ≤ (s.mbufs m).mLen) :
    ((dataIn mem s (m :: ms)).drop off).take len =
      mem.read ((s.mbufs m).mData.advance off) (min ((s.mbufs m).mLen - off) len) ++
        (dataIn mem s ms).take (len - min ((s.mbufs m).mLen - off) len) := by
  have hfirst : ((mem.read (s.mbufs m).mData (s.mbufs m).mLen).drop off).length =
      (s.mbufs m).mLen - off := by
    rw [List.length_drop, Memory.length_read]
  have hpart : ((mem.read (s.mbufs m).mData (s.mbufs m).mLen).drop off).take len =
      mem.read ((s.mbufs m).mData.advance off) (min ((s.mbufs m).mLen - off) len) := by
    rw [← Memory.read_drop_take mem (s.mbufs m).mData
      (show off + min ((s.mbufs m).mLen - off) len ≤ (s.mbufs m).mLen by omega),
      ← hfirst, Nat.min_comm, List.take_eq_take_min]
  rw [dataIn_cons, List.drop_append_of_le_length (by rw [Memory.length_read]; exact hoff),
    List.take_append, hpart, hfirst]
  congr 2
  omega

theorem mCopydataCopy_converges (hchain : Chain s.mNext start ms) {cp : Ptr} {mem : Memory}
    (hlen : off + len ≤ totalLen s ms)
    (hfirst : forall m rest, ms = m :: rest -> off ≤ (s.mbufs m).mLen)
    (havoid : Avoids s ms cp.block) : LoopConverges (fun _ => mCopydataCopy s)
      { m := start, off := off, len := len, cp := cp, mem := mem }
      (mem.write cp (((dataIn mem s ms).drop off).take len)) := by
  induction ms generalizing start off len cp mem with
  | nil =>
      have hzero : len = 0 := by
        change off + len ≤ 0 at hlen
        omega
      subst hzero
      rw [List.take_zero, Memory.write_nil]
      exact LoopConverges.of_done (Converges.of_eq fun _ => rfl)
  | cons m ms ih =>
      rcases hchain.cons_inv with ⟨rfl, htail⟩
      by_cases hzero : len = 0
      · subst hzero
        rw [List.take_zero, Memory.write_nil]
        exact LoopConverges.of_done (Converges.of_eq fun _ => rfl)
      · have hoff : off ≤ (s.mbufs m).mLen := hfirst m ms rfl
        rw [totalLen_cons] at hlen
        have hbody : mCopydataCopy s
            { m := some m, off := off, len := len, cp := cp, mem := mem } =
            some (LoopStep.next
              { m := s.mNext m
                off := 0
                len := len - min ((s.mbufs m).mLen - off) len
                cp := cp.advance (min ((s.mbufs m).mLen - off) len)
                mem := bcopy mem ((s.mbufs m).mData.advance off) cp
                  (min ((s.mbufs m).mLen - off) len) }) := by
          unfold mCopydataCopy
          exact if_neg hzero
        have hafter : Avoids s ms (cp.advance (min ((s.mbufs m).mLen - off) len)).block :=
          fun x hx => havoid x (List.mem_cons_of_mem m hx)
        have hrest : LoopConverges (fun _ => mCopydataCopy s)
            { m := s.mNext m
              off := 0
              len := len - min ((s.mbufs m).mLen - off) len
              cp := cp.advance (min ((s.mbufs m).mLen - off) len)
              mem := bcopy mem ((s.mbufs m).mData.advance off) cp
                (min ((s.mbufs m).mLen - off) len) } _ :=
          ih htail (by omega) (fun _ _ _ => Nat.zero_le _) hafter
        have hsame : dataIn (bcopy mem ((s.mbufs m).mData.advance off) cp
            (min ((s.mbufs m).mLen - off) len)) s ms = dataIn mem s ms :=
          dataIn_write (p := cp) hafter mem _
        rw [hsame, List.drop_zero] at hrest
        rw [take_drop_dataIn hoff, ← Memory.write_append, Memory.length_read]
        exact LoopConverges.of_next (Converges.of_eq fun _ => hbody) hrest

/-- `m_copydata` copies the bytes the caller asks for. -/
theorem mCopydata_converges (hchain : Chain s.mNext start ms) {cp : Ptr}
    (hlen : off + len ≤ totalLen s ms) (havoid : Avoids s ms cp.block) :
    Converges (fun n => mCopydata n start off len cp s)
      { s with mem := s.mem.write cp (((dataOf s ms).drop off).take len) } := by
  rcases mCopydataSkip_converges hchain hlen with
    ⟨start', off', ms', hskip, hchain', hsub, hlen', hfirst, hdata⟩
  have hcopy : LoopConverges (fun _ => mCopydataCopy s)
      { m := start', off := off', len := len, cp := cp, mem := s.mem } _ :=
    mCopydataCopy_converges hchain' hlen' hfirst fun x hx => havoid x (hsub hx)
  rw [← hdata s.mem] at hcopy
  rcases hskip.converges with ⟨n0, hskip⟩
  rcases hcopy.converges with ⟨n1, hcopy⟩
  refine ⟨max n0 n1, ?_⟩
  intro n hn
  have hskipped : loop (fun _ => mCopydataSkip s) n (start, off) = some (start', off') :=
    hskip n (by omega)
  have hcopied : loop (fun _ => mCopydataCopy s) n
      { m := start', off := off', len := len, cp := cp, mem := s.mem } = some _ :=
    hcopy n (by omega)
  simp only [mCopydata, hskipped, hcopied, Option.map_some]
  rfl

end Packet
end FStackLite
