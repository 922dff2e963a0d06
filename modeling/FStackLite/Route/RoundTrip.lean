import FStackLite.Route.Sizing

/-!
# Reading a routing message back

`rtsock_msg_buffer` writes the addresses that are present one behind the other, and
`rt_xaddrs` finds them again with the mask of the slots.  Both go on by the padded size of
each address, and both skip the slots that are absent.
-/

namespace FStackLite
namespace Route

open Foundation (Bytes Span)

/-- The addresses of a message, as they are before it is written. -/
def Scene.originals (sc : Scene) (info : Info) (mem : Bytes) : Nat -> Option Bytes :=
  fun i =>
    match info i with
    | .absent => none
    | slot => some (slot.bytes sc.freed mem)

/-- No address inside the block is where the addresses before it are written, from `c` on. -/
def Scene.Spares (sc : Scene) (info : Info) (slots : List Nat) (c : Nat) (mem : Bytes) : Prop :=
  forall before i after, slots = before ++ i :: after -> forall off, info i = .inside off ->
    sc.freed = none ∧ (off + saSize (mem off) ≤ c ∨ c + sc.sizes info before mem ≤ off)

def Plain (sel : Nat -> Option Bytes) : Prop :=
  forall i sa, i < rtaxMax -> sel i = some sa -> 1 ≤ (sa 0).toNat ∧ sa 1 ≠ afInet6

/-- `rti_info` as `rt_xaddrs` leaves it: it stores no null pointers. -/
def Xaddrs.onto (x : Xaddrs) (old : Info) : Info :=
  fun i =>
    match x.info i with
    | .absent => old i
    | slot => slot

/-- The addresses of these slots are one behind the other, from `c` on. -/
def Laid (sel : Nat -> Option Bytes) : List Nat -> Nat -> Bytes -> Prop
  | [], _, _ => True
  | i :: rest, c, mem =>
      match sel i with
      | none => Laid sel rest c mem
      | some sa =>
          (forall k, k < saSize (sa 0) -> mem (c + k) = sa k) ∧
            Laid sel rest (c + saSize (sa 0)) mem

def laidSize (sel : Nat -> Option Bytes) (slots : List Nat) : Nat :=
  (slots.map fun i => (sel i).elim 0 fun sa => saSize (sa 0)).sum

section

variable {sel : Nat -> Option Bytes} {i c : Nat} {mem : Bytes} {rest : List Nat}

theorem laidSize_none (h : sel i = none) (rest : List Nat) :
    laidSize sel (i :: rest) = laidSize sel rest := by
  simp only [laidSize, List.map_cons, List.sum_cons, h, Option.elim_none, Nat.zero_add]

theorem laidSize_some {sa : Bytes} (h : sel i = some sa) (rest : List Nat) :
    laidSize sel (i :: rest) = saSize (sa 0) + laidSize sel rest := by
  simp only [laidSize, List.map_cons, List.sum_cons, h, Option.elim_some]

theorem laid_none (h : sel i = none) : Laid sel (i :: rest) c mem <-> Laid sel rest c mem := by
  simp only [Laid, h]

theorem laid_some {sa : Bytes} (h : sel i = some sa) : Laid sel (i :: rest) c mem <->
      (forall k, k < saSize (sa 0) -> mem (c + k) = sa k) ∧
        Laid sel rest (c + saSize (sa 0)) mem := by
  simp only [Laid, h]

theorem laid_congr {slots : List Nat} {mem' : Bytes} (h : forall k, c ≤ k -> mem' k = mem k)
    (hlaid : Laid sel slots c mem) : Laid sel slots c mem' := by
  induction slots generalizing c with
  | nil => trivial
  | cons i rest ih =>
      cases hsel : sel i with
      | none =>
          rw [laid_none hsel] at hlaid ⊢
          exact ih h hlaid
      | some sa =>
          rw [laid_some hsel] at hlaid ⊢
          refine ⟨?_, ih (fun k hk => h k (by omega)) hlaid.2⟩
          intro k hk
          rw [h _ (Nat.le_add_right c k)]
          exact hlaid.1 k hk

/-!
## Writing
-/

variable (sc : Scene) {info : Info}

theorem originals_absent (h : info i = .absent) (mem : Bytes) : sc.originals info mem i = none := by
  simp only [Scene.originals, h]

theorem originals_present (h : info i ≠ .absent) (mem : Bytes) :
    sc.originals info mem i = some ((info i).bytes sc.freed mem) := by
  cases hslot : info i with
  | absent => contradiction
  | inside off => simp only [Scene.originals, hslot]
  | elsewhere sa => simp only [Scene.originals, hslot]

theorem sizes_eq_laidSize (info : Info) (slots : List Nat) (mem : Bytes) :
    sc.sizes info slots mem = laidSize (sc.originals info mem) slots := by
  unfold Scene.sizes laidSize
  congr 1
  apply List.map_congr_left
  intro i _
  cases eq_or_ne (info i) .absent with
  | inl habsent =>
      rw [originals_absent sc habsent, habsent]
      rfl
  | inr hpresent =>
      rw [originals_present sc hpresent, size_present hpresent]
      rfl

theorem source_plain {slot : Slot} (h : slot.bytes sc.freed mem 1 ≠ afInet6) :
    (sc.source slot mem).1 = slot.bytes sc.freed mem := by
  simp only [Scene.source, if_neg h]
  split
  · rfl
  · rfl

theorem Scene.Spares.cons {sc : Scene} {c' : Nat}
    (h : forall before j after, i :: rest = before ++ j :: after ->
      forall off, info j = .inside off ->
        sc.freed = none ∧ (off + saSize (mem off) ≤ c ∨ c' + sc.sizes info before mem ≤ off)) :
    forall before j after, rest = before ++ j :: after -> forall off, info j = .inside off ->
      sc.freed = none ∧ (off + saSize (mem off) ≤ c ∨
        c' + (info i).size sc.freed mem + sc.sizes info before mem ≤ off) := by
  intro before j after hrest off hoff
  have hfirst := h (i :: before) j after (by rw [hrest]; rfl) off hoff
  rwa [sizes_cons, <- Nat.add_assoc] at hfirst

/-- An address that is spared is still what it was when its turn comes. -/
theorem bytes_spared {c' : Nat} {mem' : Bytes} (hspared : forall off, info i = .inside off ->
      sc.freed = none ∧ (off + saSize (mem off) ≤ c ∨ c' ≤ off))
    (hkept : forall k, k < c ∨ c' ≤ k -> mem' k = mem k) {k : Nat}
    (hk : k < saSize ((info i).bytes sc.freed mem 0)) :
    (info i).bytes sc.freed mem' k = (info i).bytes sc.freed mem k := by
  cases hslot : info i with
  | absent => rfl
  | elsewhere sa => rfl
  | inside off =>
      rcases hspared off hslot with ⟨hlive, hplace⟩
      rw [hslot] at hk
      simp only [Slot.bytes, hlive, Option.getD_none, Bytes.drop, Nat.add_zero] at hk ⊢
      exact hkept _ (by omega)

-- what was written so far is from `first` to `c`, and all else is as it was
theorem putAddrs_laid {first : Nat} {orig : Bytes} {slots : List Nat}
    (hplain : forall i sa, i ∈ slots -> sc.originals info orig i = some sa -> sa 1 ≠ afInet6)
    {size : Nat} {b : MsgBuffer} (h : b.At c size mem)
    (hkept : forall k, k < first ∨ c ≤ k -> mem k = orig k)
    (hspares : forall before i after, slots = before ++ i :: after ->
      forall off, info i = .inside off ->
        sc.freed = none ∧ (off + saSize (orig off) ≤ first ∨ c + sc.sizes info before orig ≤ off))
    (hc : first ≤ c) (hroom : c + sc.sizes info slots orig ≤ size) :
    Laid (sc.originals info orig) slots c (sc.putAddrs info slots b).mem ∧
      (sc.putAddrs info slots b).len = c + sc.sizes info slots orig := by
  induction slots generalizing b c mem with
  | nil => exact ⟨trivial, h.len⟩
  | cons i rest ih =>
      have hrest : forall j sa, j ∈ rest -> sc.originals info orig j = some sa ->
          sa 1 ≠ afInet6 :=
        fun j sa hj => hplain j sa (List.mem_cons_of_mem _ hj)
      have hlater := Scene.Spares.cons hspares
      rw [sizes_cons] at hroom ⊢
      cases eq_or_ne (info i) .absent with
      | inl habsent =>
          rw [habsent, Slot.size, Nat.zero_add] at hroom ⊢
          rw [habsent] at hlater
          rw [laid_none (originals_absent sc habsent orig), putAddrs_absent sc _ habsent]
          exact ih hrest h hkept hlater hc hroom
      | inr hpresent =>
          have horiginal := originals_present sc hpresent orig
          have hbytes : forall k, k < saSize ((info i).bytes sc.freed orig 0) ->
              (info i).bytes sc.freed mem k = (info i).bytes sc.freed orig k :=
            fun k hk => bytes_spared sc (hspares [] i rest rfl) hkept hk
          have hpadded := saSize_bounds ((info i).bytes sc.freed orig 0)
          have hsize : (info i).size sc.freed mem = (info i).size sc.freed orig := by
            rw [size_present hpresent, size_present hpresent, hbytes 0 (by omega)]
          have hput := putAddr_at sc info h hpresent (by rw [hsize]; omega)
          rw [hsize] at hput
          have hsource : (sc.source (info i) mem).1 = (info i).bytes sc.freed mem := by
            apply source_plain
            rw [hbytes 1 (by omega)]
            exact hplain i _ List.mem_cons_self horiginal
          have hplaced : sc.placed (info i) c mem =
              mem.store c ((info i).size sc.freed orig) ((info i).bytes sc.freed mem) := by
            rw [Scene.placed, hsize, hsource]
          rw [hplaced] at hput
          rw [laid_some horiginal, putAddrs_present sc _ hpresent, <- size_present hpresent]
          have hnext := ih hrest hput
            (fun k hk => (Bytes.store_outside (by omega)).trans (hkept k (by omega))) hlater
            (by omega) (by omega)
          refine ⟨⟨?_, hnext.1⟩, by rw [hnext.2, Nat.add_assoc]⟩
          intro k hk
          have hstays : (sc.putAddrs info rest (sc.putAddr i (info i) b)).mem (c + k) =
              (sc.putAddr i (info i) b).mem (c + k) := by
            apply putAddrs_mem
            intro c' hc'
            rw [hput.cp] at hc'
            injection hc' with hc'
            omega
          rw [hstays, hput.mem, Bytes.store_inside hk]
          exact hbytes k (by rwa [<- size_present hpresent])

theorem putAddr_addrs (i : Nat) (slot : Slot) (b : MsgBuffer) :
    (sc.putAddr i slot b).addrs = b.addrs ||| 2 ^ i := by
  simp only [Scene.putAddr]
  split
  · rfl
  · split
    · rfl
    · rfl

theorem putAddrs_addrs (info : Info) (mem : Bytes) (slots : List Nat) (b : MsgBuffer) (i : Nat) :
    (sc.putAddrs info slots b).addrs.testBit i =
      (b.addrs.testBit i || (decide (i ∈ slots) && (sc.originals info mem i).isSome)) := by
  induction slots generalizing b with
  | nil => simp [Scene.putAddrs]
  | cons j rest ih =>
      cases eq_or_ne (info j) .absent with
      | inl habsent =>
          rw [putAddrs_absent sc _ habsent, ih]
          cases eq_or_ne i j with
          | inl heq => simp [heq, originals_absent sc habsent]
          | inr hne => simp [hne]
      | inr hpresent =>
          rw [putAddrs_present sc _ hpresent, ih, putAddr_addrs, Nat.testBit_or,
            Nat.testBit_two_pow]
          cases eq_or_ne i j with
          | inl heq => simp [heq, originals_present sc hpresent]
          | inr hne => simp [hne, hne.symm]

end

/-!
## Reading
-/

structure Recovered (sel : Nat -> Option Bytes) (slots : List Nat) (mem : Bytes) (x : Xaddrs) :
    Prop where
  accepted : x.accepted = true
  unchanged : x.mem = mem
  present : forall i sa, i ∈ slots -> sel i = some sa ->
    exists off, x.info i = .inside off ∧ forall k, k < (sa 0).toNat -> mem (off + k) = sa k
  absent : forall i, i ∉ slots ∨ sel i = none -> x.info i = .absent

section

variable (zones : Zones) {sel : Nat -> Option Bytes} {addrs cplim cp i : Nat}
    {slots rest : List Nat} {mem : Bytes}

theorem laidSize_zero (h : laidSize sel slots = 0) : forall i, i ∈ slots -> sel i = none := by
  induction slots with
  | nil =>
      intro i hi
      contradiction
  | cons j rest ih =>
      cases hsel : sel j with
      | none =>
          rw [laidSize_none hsel] at h
          exact List.forall_mem_cons.mpr ⟨hsel, ih h⟩
      | some sa =>
          have hsize := saSize_bounds (sa 0)
          rw [laidSize_some hsel] at h
          omega

theorem rtXaddrs_end (h : cplim ≤ cp) :
    rtXaddrs zones addrs cplim slots cp mem = ⟨true, mem, fun _ => .absent, [], []⟩ := by
  cases slots with
  | nil => rfl
  | cons i rest => rw [rtXaddrs, if_pos h]

theorem rtXaddrs_skip (h : ¬ cplim ≤ cp) (hbit : addrs.testBit i = false) :
    rtXaddrs zones addrs cplim (i :: rest) cp mem = rtXaddrs zones addrs cplim rest cp mem := by
  rw [rtXaddrs, if_neg h, if_neg (by simp [hbit])]

theorem rtXaddrs_take (rest : List Nat) (h : ¬ cplim ≤ cp) (hbit : addrs.testBit i = true)
    (hlim : cp + (mem cp).toNat ≤ cplim) (hlen : 1 ≤ (mem cp).toNat)
    (hfamily : mem (cp + 1) ≠ afInet6) : (rtXaddrs zones addrs cplim (i :: rest) cp mem).accepted =
        (rtXaddrs zones addrs cplim rest (cp + saSize (mem cp)) mem).accepted ∧
      (rtXaddrs zones addrs cplim (i :: rest) cp mem).mem =
        (rtXaddrs zones addrs cplim rest (cp + saSize (mem cp)) mem).mem ∧
      (rtXaddrs zones addrs cplim (i :: rest) cp mem).info =
        Function.update (rtXaddrs zones addrs cplim rest (cp + saSize (mem cp)) mem).info i
          (.inside cp) := by
  have hne : mem cp ≠ 0 := by
    intro hzero
    rw [hzero] at hlen
    contradiction
  rw [rtXaddrs, if_neg h, if_pos hbit, if_neg (Nat.not_lt.mpr hlim), if_neg hne, if_neg hfamily]
  exact ⟨rfl, rfl, rfl⟩

theorem Recovered.of_none (h : forall i, i ∈ slots -> sel i = none) :
    Recovered sel slots mem ⟨true, mem, fun _ => .absent, [], []⟩ := by
  refine ⟨rfl, rfl, ?_, fun i _ => rfl⟩
  intro i sa hi hsa
  rw [h i hi] at hsa
  contradiction

theorem Recovered.cons_none {x : Xaddrs} (h : Recovered sel rest mem x) (hsel : sel i = none) :
    Recovered sel (i :: rest) mem x := by
  refine ⟨h.accepted, h.unchanged, ?_, ?_⟩
  · intro j sa hj hsa
    rcases List.mem_cons.mp hj with heq | hj
    · rw [heq, hsel] at hsa
      contradiction
    · exact h.present j sa hj hsa
  · intro j hj
    apply h.absent j
    exact hj.imp_left fun hout hin => hout (List.mem_cons_of_mem _ hin)

theorem Recovered.cons_some {x x' : Xaddrs} {sa : Bytes} {off : Nat}
    (h : Recovered sel rest mem x) (hsel : sel i = some sa)
    (hbytes : forall k, k < (sa 0).toNat -> mem (off + k) = sa k)
    (haccepted : x'.accepted = x.accepted) (hmem : x'.mem = x.mem)
    (hinfo : x'.info = Function.update x.info i (.inside off)) :
    Recovered sel (i :: rest) mem x' := by
  refine ⟨haccepted.trans h.accepted, hmem.trans h.unchanged, ?_, ?_⟩
  · intro j sa' hj hsa'
    rw [hinfo]
    cases eq_or_ne j i with
    | inl heq =>
        rw [heq, hsel] at hsa'
        injection hsa' with hsa'
        rw [heq, Function.update_self, <- hsa']
        exact ⟨off, rfl, hbytes⟩
    | inr hne =>
        rw [Function.update_of_ne hne]
        exact h.present j sa' ((List.mem_cons.mp hj).resolve_left hne) hsa'
  · intro j hj
    have hne : j ≠ i := by
      intro heq
      rw [heq, hsel] at hj
      rcases hj with hout | hnone
      · exact hout List.mem_cons_self
      · contradiction
    rw [hinfo, Function.update_of_ne hne]
    apply h.absent j
    exact hj.imp_left fun hout hin => hout (List.mem_cons_of_mem _ hin)

theorem rtXaddrs_laid {slots : List Nat}
    (hplain : forall i sa, i ∈ slots -> sel i = some sa -> 1 ≤ (sa 0).toNat ∧ sa 1 ≠ afInet6)
    (hmask : forall i, i ∈ slots -> addrs.testBit i = (sel i).isSome) {cp : Nat} {mem : Bytes}
    (hlaid : Laid sel slots cp mem) (hlim : cp + laidSize sel slots ≤ cplim) :
    Recovered sel slots mem (rtXaddrs zones addrs cplim slots cp mem) := by
  induction slots generalizing cp with
  | nil => exact Recovered.of_none fun i hi => by contradiction
  | cons i rest ih =>
      have hrest : forall {cp' : Nat}, Laid sel rest cp' mem ->
          cp' + laidSize sel rest ≤ cplim ->
          Recovered sel rest mem (rtXaddrs zones addrs cplim rest cp' mem) := by
        apply ih
        · exact fun j sa hj => hplain j sa (List.mem_cons_of_mem _ hj)
        · exact fun j hj => hmask j (List.mem_cons_of_mem _ hj)
      have hbit := hmask i List.mem_cons_self
      by_cases hend : cplim ≤ cp
      · have hempty : laidSize sel (i :: rest) = 0 := by omega
        rw [rtXaddrs_end zones hend]
        exact Recovered.of_none (laidSize_zero hempty)
      · cases hsel : sel i with
        | none =>
            rw [hsel] at hbit
            rw [laid_none hsel] at hlaid
            rw [laidSize_none hsel] at hlim
            rw [rtXaddrs_skip zones hend hbit]
            exact (hrest hlaid hlim).cons_none hsel
        | some sa =>
            have hsize := saSize_bounds (sa 0)
            rcases hplain i sa List.mem_cons_self hsel with ⟨hlen, hfamily⟩
            rw [hsel] at hbit
            rw [laid_some hsel] at hlaid
            rw [laidSize_some hsel] at hlim
            rcases hlaid with ⟨hbytes, hlaid⟩
            have hfirst : mem cp = sa 0 := hbytes 0 (by omega)
            have hsecond : mem (cp + 1) = sa 1 := hbytes 1 (by omega)
            have hfits : cp + (sa 0).toNat ≤ cplim := by omega
            rw [<- hfirst] at hlen hfits
            rw [<- hsecond] at hfamily
            have htake := rtXaddrs_take zones rest hend hbit hfits hlen hfamily
            rw [hfirst] at htake
            rcases htake with ⟨haccepted, hmem, hinfo⟩
            have hlater := hrest hlaid (by omega)
            exact hlater.cons_some hsel (fun k hk => hbytes k (by omega)) haccepted hmem hinfo

end

/-!
## The round trip
-/

/-- `rt_xaddrs` over the body of the message that `rtsock_msg_buffer` wrote. -/
def reread (sc : Scene) (zones : Zones) (type : Nat) (info : Info) (w : Walkarg) (mem : Bytes) :
    Xaddrs :=
  let b := rtsockMsgBuffer sc type info (some w) mem
  rtXaddrs zones b.addrs b.len (List.range rtaxMax) (msgHeaderSize type w.iflistl) b.mem

theorem finish_mem {type : Nat} {b : MsgBuffer} {k : Nat} (hk : 4 ≤ k) :
    (b.finish type).mem k = b.mem k := by
  apply finish_untouched
  intro s hs hcovers
  unfold MsgBuffer.headerWrites at hs
  split at hs
  · contradiction
  · simp only [List.mem_cons, List.not_mem_nil, or_false] at hs
    rcases hcovers with ⟨_, hend⟩
    rcases hs with rfl | rfl | rfl
    · exact absurd hk (Nat.not_le.mpr (Nat.lt_succ_of_lt hend))
    · exact absurd hk (Nat.not_le.mpr hend)
    · exact absurd hk (Nat.not_le.mpr (Nat.lt_trans hend (by decide)))

theorem finish_addrs (type : Nat) (b : MsgBuffer) : (b.finish type).addrs = b.addrs := by
  simp only [MsgBuffer.finish]
  split
  · rfl
  · split
    · rfl
    · rfl

section

variable (sc : Scene) (zones : Zones) (type : Nat) (info : Info) (w : Walkarg) (mem : Bytes)

theorem reread_recovered (hplain : Plain (sc.originals info mem))
    (hspares : sc.Spares info (List.range rtaxMax) (msgHeaderSize type w.iflistl) mem)
    (hroom : ((align (msgHeaderSize type w.iflistl + sc.sizes info (List.range rtaxMax) mem) :
      Nat) : Int) ≤ w.tmemsize) : (rtsockMsgBuffer sc type info (some w) mem).cp ≠ none ∧
      Recovered (sc.originals info mem) (List.range rtaxMax)
        (rtsockMsgBuffer sc type info (some w) mem).mem (reread sc zones type info w mem) := by
  rcases w with ⟨tmemsize, iflistl⟩
  lift tmemsize to Nat using (by
    exact Int.le_trans (Int.natCast_nonneg _) hroom) with size
  have hsize := Int.ofNat_le.mp hroom
  have halign := le_align (msgHeaderSize type iflistl + sc.sizes info (List.range rtaxMax) mem)
  have hfamily : forall i sa, i ∈ List.range rtaxMax -> sc.originals info mem i = some sa ->
      sa 1 ≠ afInet6 :=
    fun i sa hi hsa => (hplain i sa (List.mem_range.mp hi) hsa).2
  have hlaid := putAddrs_laid sc hfamily
    (start_at mem (msgHeaderSize type iflistl) size iflistl) (fun _ _ => rfl) hspares
    (Nat.le_refl _) (Nat.le_trans halign hsize)
  have hfits := putAddrs_fits sc info (List.range rtaxMax)
    (start_fits size (msgHeaderSize type iflistl) iflistl mem)
  have hfinal : (rtsockMsgBuffer sc type info (some ⟨size, iflistl⟩) mem).len =
      align (msgHeaderSize type iflistl + sc.sizes info (List.range rtaxMax) mem) := by
    rw [rtsockMsgBuffer, finish_len_align]
    exact congrArg align hlaid.2
  refine ⟨(finish_complete_iff type hfits).mpr (hfinal.trans_le hsize), ?_⟩
  apply rtXaddrs_laid zones
  · intro i sa hi hsa
    exact hplain i sa (List.mem_range.mp hi) hsa
  · intro i hi
    rw [rtsockMsgBuffer, finish_addrs, putAddrs_addrs sc info mem, decide_eq_true hi, Bool.true_and]
    simp [MsgBuffer.start]
  · refine laid_congr ?_ hlaid.1
    intro k hk
    exact finish_mem (Nat.le_trans (Nat.le_trans (by decide) (msgHeaderSize_ge type iflistl)) hk)
  · rw [hfinal, <- sizes_eq_laidSize]
    exact halign

end

theorem before_eq_range {n i : Nat} {before after : List Nat}
    (h : List.range n = before ++ i :: after) : before = List.range i := by
  have hget := congrArg (fun l => l[before.length]?) h
  simp only [List.getElem?_append_right (Nat.le_refl _), Nat.sub_self,
    List.getElem?_cons_zero] at hget
  have hlength : before.length < n ∧ before.length = i := by
    rcases List.getElem?_eq_some_iff.mp hget with ⟨hlt, heq⟩
    rw [List.length_range] at hlt
    rw [List.getElem_range] at heq
    exact ⟨hlt, heq⟩
  have htake := congrArg (List.take before.length) h
  rw [List.take_left, List.take_range, hlength.2] at htake
  rw [<- htake, Nat.min_eq_left (by omega)]

/-- The answer to the same request, with no gateway: the author is next to the destination. -/
def apartInfo : Info :=
  fun i =>
    if i = rtaxDst then
      .elsewhere saZero
    else if i = rtaxAuthor then
      .inside 168
    else
      .absent

theorem plain_of_info {info : Info} (h : forall i, i < rtaxMax ->
    info i = .absent ∨ info i = .elsewhere saZero ∨ info i = .inside 168) :
    Plain (clobberScene.originals info clobberMem) := by
  intro i sa hi hsa
  rcases h i hi with habsent | hzero | hauthor
  · rw [originals_absent _ habsent] at hsa
    contradiction
  · simp only [Scene.originals, hzero, Option.some.injEq] at hsa
    rw [<- hsa]
    exact ⟨by decide, by decide⟩
  · simp only [Scene.originals, hauthor, Option.some.injEq] at hsa
    rw [<- hsa]
    exact ⟨by decide, by decide⟩

theorem apartInfo_spares :
    clobberScene.Spares apartInfo (List.range rtaxMax) headerSize clobberMem := by
  intro before i after hsplit off hoff
  rw [before_eq_range hsplit]
  unfold apartInfo at hoff
  split at hoff
  · contradiction
  · split at hoff
    · next hauthor =>
        injection hoff with hoff
        rw [hauthor, <- hoff]
        exact ⟨rfl, Or.inr (by decide +kernel)⟩
    · contradiction

end Route
end FStackLite
