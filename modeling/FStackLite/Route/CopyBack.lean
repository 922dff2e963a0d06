import FStackLite.Route.Named

/-!
# What a request for the routing table copies back

A request of the wrong length is refused, but it is copied back with the length it claims.
One of the right length is copied back with that length, or with the length of its answer.
-/

namespace FStackLite
namespace Route

open Foundation (Bytes Span)

/-!
## Requests whose addresses are tame
-/

def requestAddrs (plen : Nat) (data : Bytes) : List Named :=
  namedFrom (data.num 12 4) plen data (List.range rtaxMax) headerSize

/--
The addresses that the request names are tame.  One that is answered names neither an author nor a
broadcast address, which are all that an answer repeats.
-/
structure Tame (plen : Nat) (data : Bytes) : Prop where
  each : forall a, a ∈ requestAddrs plen data -> a.Tame data plen
  answered : (data 3).toNat = rtmDelete ∨ (data 3).toNat = rtmGet ->
    forall a, a ∈ requestAddrs plen data -> a.slot ≠ rtaxAuthor ∧ a.slot ≠ rtaxBrd

/-- What is known of a request whose addresses are found. -/
structure Examined.Finds (e : Examined) (data : Bytes) (named : List Named) : Prop where
  inet6 : forall off, off ∈ e.inet6 -> exists a, a ∈ named ∧ a.off = off ∧
    data (off + 1) = afInet6
  info : forall i off, e.verdict.info i = .inside off -> ⟨i, off⟩ ∈ named
  family : forall a, a ∈ named -> e.work.mem (a.off + 1) = data (a.off + 1)
  addrs : e.work.mem.num 12 4 = data.num 12 4
  report : forall entry info, e.verdict = .report entry info ->
    (data 3).toNat = rtmDelete ∨ (data 3).toNat = rtmGet

theorem dispatch_type {env : Env} {type flags : Nat} {family : UInt8} {info info' : Info}
    {entry : Entry} (h : dispatch env type flags info family = .report entry info') :
    type = rtmDelete ∨ type = rtmGet := by
  unfold dispatch at h
  split at h
  · split at h
    · contradiction
    · split at h
      · contradiction
      · split at h
        · contradiction
        · contradiction
  · split at h
    · next htype =>
        exact Or.inl htype
    · split at h
      · next htype =>
          exact Or.inr htype
      · contradiction

variable {data : Bytes} {w : Work} {plen : Nat}

theorem examineAddrs_finds (env : Env) {x : Xaddrs} {named : List Named} (hx : x.Finds data named)
    (hmem : w.mem = x.mem) (haddrs : w.mem.num 12 4 = data.num 12 4) (htype : w.mem 3 = data 3) :
    (examineAddrs env x w).Finds data named := by
  have hfamily : forall a, a ∈ named -> w.mem (a.off + 1) = data (a.off + 1) := by
    rw [hmem]
    exact hx.family
  simp only [examineAddrs]
  split
  · exact ⟨hx.inet6, hx.info, hfamily, haddrs, by simp⟩
  · split
    · exact ⟨hx.inet6, hx.info, by simpa using hfamily, by simpa using haddrs, by simp⟩
    · split
      · exact ⟨hx.inet6, hx.info, by simpa using hfamily, by simpa using haddrs, by simp⟩
      · refine ⟨hx.inet6, ?_, by simpa [Work.read] using hfamily,
          by simpa [Work.read] using haddrs, ?_⟩
        · exact fun i off hoff => hx.info i off (dispatch_sub env _ _ _ _ i off hoff)
        · intro entry info hreport
          rw [<- htype]
          exact dispatch_type hreport

/-- The working copy of a request of this version. -/
structure Work.Copies (w : Work) (plen : Nat) (data : Bytes) : Prop where
  header : headerSize ≤ plen
  bytes : forall k, k < plen -> w.mem k = data k
  version : w.mem 2 = UInt8.ofNat rtmVersion

theorem examine_finds (env : Env) (hw : w.Copies plen data) (htame : Tame plen data) :
    (examine env plen w).Finds data (requestAddrs plen data) := by
  have hkept : forall k, k < 16 ∨ 20 ≤ k -> k < plen ->
      (w.openRequest env).mem k = data k := by
    intro k hk hlt
    rw [<- hw.bytes k hlt]
    show w.mem.putNum 16 4 env.pid k = w.mem k
    exact Bytes.store_outside hk
  have hheader : 152 ≤ plen := hw.header
  have hopened : (w.openRequest env).mem.num 12 4 = data.num 12 4 := by
    apply Bytes.num_congr
    intro k _ hk
    exact hkept k (Or.inl hk) (by omega)
  have hx : (xaddrsOf env plen (w.openRequest env)).Finds data (requestAddrs plen data) := by
    rw [xaddrsOf, hopened]
    apply rtXaddrs_finds env.zones (by decide) _ htame.each
    intro k hk hlt
    exact hkept k (Or.inr (Nat.le_trans (by decide) hk)) hlt
  have hbefore : forall k, k < headerSize ->
      (xaddrsOf env plen (w.openRequest env)).mem k = (w.openRequest env).mem k :=
    fun k hk => rtXaddrs_mem _ _ hk
  have haddrs : (xaddrsOf env plen (w.openRequest env)).mem.num 12 4 = data.num 12 4 := by
    rw [<- hopened]
    apply Bytes.num_congr
    intro k _ hk
    exact hbefore k (Nat.lt_of_lt_of_le hk (by decide))
  have htype : (xaddrsOf env plen (w.openRequest env)).mem 3 = data 3 := by
    rw [hbefore 3 (by decide)]
    exact hkept 3 (Or.inl (by decide)) (by omega)
  simp only [examine, if_pos hw.version]
  split
  · exact examineAddrs_finds env hx rfl haddrs htype
  · exact ⟨hx.inet6, hx.info, hx.family, haddrs, by simp⟩

/-- A request whose addresses are tame keeps to the bound, whatever the routing table says. -/
theorem handleRequest_bound (env : Env) (old : Bytes) (hw : w.Copies plen data)
    (hholds : w.Holds plen) (hclean : w.Clean) (htame : Tame plen data) (maxlen : Nat) :
    CopyBackBound plen maxlen (flush env old (handleRequest env maxlen plen w)) := by
  have hmeets := examine_meets env hholds.header hholds.aligned hholds.fits
  have hfinds := examine_finds env hw htame
  have hinside : forall a, a ∈ requestAddrs plen data ->
      a.Inside data (data.num 12 4) plen headerSize :=
    fun a ha => mem_namedFrom (by decide) ha
  have hwhole : forall a, a ∈ requestAddrs plen data -> data (a.off + 1) = afInet6 ->
      a.off + in6Size ≤ w.size ∧ in6Size ≤ saSize (data a.off) :=
    fun a ha => (htame.each a ha).whole (hinside a ha) hholds.fits hholds.aligned
  have hexamined : (examine env plen w).work.Clean := by
    refine hmeets.clean.mpr ⟨hclean, ?_⟩
    intro off hoff
    rcases hfinds.inet6 off hoff with ⟨a, ha, heq, hsix⟩
    rw [<- heq] at hsix ⊢
    exact (hwhole a ha hsix).1
  have hanswered := htame.answered
  unfold handleRequest
  generalize examine env plen w = e at hmeets hfinds hexamined
  have hheld : e.work.Holds plen := by
    refine ⟨?_, ?_, hmeets.msglen.trans hholds.msglen, ?_⟩
    · rw [hmeets.size]
      exact hholds.header
    · rw [hmeets.size]
      exact hholds.aligned
    · rw [hmeets.size]
      exact hholds.fits
  have hinfo := hfinds.info
  have haligned := hmeets.aligned
  cases hverdict : e.verdict with
  | done error index deembed info =>
      rw [hverdict] at hinfo haligned
      rcases writeIndex_holds hheld index with ⟨hindexed, hcleaned⟩
      have hsize : (e.work.writeIndex index).size = w.size := by
        rw [writeIndex_size, hmeets.size]
      simp only [hverdict]
      rw [flush_bound_iff env old hindexed.header hindexed.aligned
        (fun _ => by rw [hsize]; exact haligned)]
      refine ⟨hcleaned.mpr hexamined, fun _ => ?_, ?_, ?_⟩
      · rw [hsize]
        refine recoverScopes_whole env hinfo hwhole
          (fun a b ha hb => namedFrom_apart (by decide) ha hb) ?_
        intro a ha
        have hbehind : 152 ≤ a.off := (hinside a ha).behind
        rw [writeIndex_mem _ _ (by omega)]
        exact hfinds.family a ha
      · rw [hindexed.msglen]
        exact hindexed.fits
      · rw [hindexed.msglen]
        exact Nat.le_max_left _ _
  | report entry info =>
      rw [hverdict] at hinfo
      have hno := hanswered (hfinds.report entry info hverdict)
      simp only [hverdict]
      refine report_bound env old (hmeets.route entry info hverdict) entry hheld hexamined ?_ maxlen
      intro info' index hreport
      apply reportInfo_outside _ _ _ hreport
      · intro i off hoff
        rw [hfinds.addrs]
        exact (hinside _ (hinfo i off hoff)).bit
      · exact fun off hoff => (hno _ (hinfo _ off hoff)).1 rfl
      · exact fun off hoff => (hno _ (hinfo _ off hoff)).2 rfl

theorem handleRequest_version (env : Env) (old : Bytes) (h : w.mem 2 ≠ UInt8.ofNat rtmVersion)
    (hholds : w.Holds plen) (hclean : w.Clean) (maxlen : Nat) :
    CopyBackBound plen maxlen (flush env old (handleRequest env maxlen plen w)) := by
  have hread : (w.read 2 1).Clean :=
    (clean_read_iff (Nat.le_trans (by decide) hholds.header)).mpr hclean
  have hheld : (w.read 2 1).Holds plen :=
    ⟨hholds.header, hholds.aligned, hholds.msglen, hholds.fits⟩
  simp only [handleRequest, examine, if_neg h]
  exact flush_request env old hheld hread _ _ _

/-!
## The block of the working copy
-/

/-- A length that is a positive `int`. -/
def IsInt (plen : Nat) : Prop :=
  0 < plen ∧ plen < 2 ^ 31

/-- `roundup2(plen, 1024)`, where nothing wraps around. -/
def blockSize (plen : Nat) : Nat :=
  (plen + 1023) / 1024 * 1024

theorem asInt_of_isInt (h : IsInt plen) : asInt plen = plen := by
  rcases h with ⟨_, hlt⟩
  unfold asInt
  rw [Int.bmod_eq_of_le] <;> omega

theorem isShort_iff (h : IsInt plen) : isShort plen <-> plen < headerSize := by
  rcases h with ⟨hpos, hlt⟩
  rw [isShort, asInt_of_isInt ⟨hpos, hlt⟩, asSize]
  omega

theorem read_size (w : Work) (off n : Nat) : (w.read off n).size = w.size :=
  rfl

/-- A block that can be had is large enough for the request, or has no bytes at all. -/
theorem copyIn_size_cases (env : Env) (data : Bytes) (hplen : plen < 2 ^ 32)
    (hlimit : (copyIn env data plen).size < 2 ^ 63) :
    (IsInt plen ∧ (copyIn env data plen).size = blockSize plen) ∨
      (¬ IsInt plen ∧ (copyIn env data plen).size = 0) := by
  have hlen : asInt plen = _ := Int.bmod_def plen (2 ^ 32)
  have hsum := Int.bmod_def (asInt plen + 1023) (2 ^ 32)
  simp only [copyIn, asSize, allocLen, IsInt, blockSize] at *
  split at hlen
  all_goals split at hsum
  all_goals omega

theorem Env.malloc_limit (env : Env) {size : Nat} (h : env.malloc size = true) : size < 2 ^ 63 := by
  cases Nat.lt_or_ge size (2 ^ 63) with
  | inl hlt => exact hlt
  | inr hge =>
      rw [env.malloc_bound _ hge] at h
      contradiction

theorem asInt_neg (hlarge : 2 ^ 31 ≤ plen) (hplen : plen < 2 ^ 32) : asInt plen < 0 := by
  have hlen : asInt plen = _ := Int.bmod_def plen (2 ^ 32)
  split at hlen
  all_goals omega

/-- A length that is not a positive `int` is refused. -/
theorem refused_of_not_isInt (hplen : plen < 2 ^ 32) (h : ¬ IsInt plen) (msglen : Nat) :
    isShort plen ∨ asInt plen ≠ msglen := by
  cases Nat.eq_zero_or_pos plen with
  | inl hzero =>
      rw [hzero]
      exact Or.inl (by decide +kernel)
  | inr hpos =>
      have hneg := asInt_neg (Nat.le_of_not_lt fun hlt => h ⟨hpos, hlt⟩) hplen
      exact Or.inr (fun heq => Int.not_lt.mpr (Int.natCast_nonneg msglen) (heq ▸ hneg))

theorem flush_empty (env : Env) (data : Bytes) (hsize : w.size = 0) (info : Info) (error : Int)
    (plen maxlen : Nat) : ¬ CopyBackBound plen maxlen (flush env data ⟨w, info, error, false⟩) := by
  intro h
  have hread : Read.Inside ⟨⟨0, 2⟩, (w.mark error).size⟩ :=
    h.inside _ (by simp [flush, recovered, Work.read])
  rw [inside_iff (by decide), mark_size, hsize] at hread
  omega

/-!
## The bound
-/

theorem refused_bound_iff (env : Env) (data : Bytes) (hsize : headerSize ≤ w.size)
    (haligned : w.size % 8 = 0) (hclean : w.Clean) (info : Info) (error : Int) (plen maxlen : Nat) :
    CopyBackBound plen maxlen (flush env data ⟨w, info, error, false⟩) <->
      w.mem.num 0 2 ≤ w.size ∧ w.mem.num 0 2 ≤ max plen maxlen := by
  rw [flush_bound_iff env data hsize haligned (fun h => by contradiction)]
  simp [hclean]

theorem blockSize_spec (h : 0 < plen) :
    headerSize ≤ blockSize plen ∧ blockSize plen % 8 = 0 ∧ plen ≤ blockSize plen := by
  simp only [blockSize, headerSize]
  omega

theorem ffRtioctl_empty (env : Env) (data : Bytes) {plen : UInt32} (maxlen : UInt32)
    (hplen : plen.toNat < 2 ^ 32) (hint : ¬ IsInt plen.toNat)
    (hmalloc : env.malloc (copyIn env data plen.toNat).size = true)
    (hsize : (copyIn env data plen.toNat).size = 0) :
    ¬ CopyBackBound plen.toNat maxlen.toNat (ffRtioctl env data plen maxlen) := by
  simp only [ffRtioctl, hmalloc, if_true]
  by_cases hshort : isShort plen.toNat
  · rw [if_pos hshort]
    exact flush_empty env data hsize _ _ _ _
  · rw [if_neg hshort, if_pos ((refused_of_not_isInt hplen hint _).resolve_left hshort)]
    exact flush_empty env data ((read_size _ _ _).trans hsize) _ _ _ _

theorem copyIn_mem (env : Env) (data : Bytes) {k : Nat} (hint : IsInt plen) (hk : k < plen) :
    (copyIn env data plen).mem k = data k := by
  rw [copyIn, asInt_of_isInt hint, Int.toNat_natCast]
  exact if_pos ⟨Nat.zero_le k, by omega⟩

theorem copyIn_msglen (env : Env) (data : Bytes) (hint : IsInt plen) (htwo : 2 ≤ plen) :
    (copyIn env data plen).mem.num 0 2 = data.num 0 2 := by
  apply Bytes.num_congr
  intro k _ hk
  exact copyIn_mem env data hint (by omega)

def HasLength (plen : Nat) (data : Bytes) : Prop :=
  headerSize ≤ plen ∧ plen = data.num 0 2

/--
The requests that keep to the bound, as far as the request tells.  One that is refused for its
length is copied back under the length it gives itself, which is then all there is to limit it.
-/
structure SafeRequest (plen maxlen : Nat) (data : Bytes) : Prop where
  int : 2 ≤ plen ∧ plen < 2 ^ 31
  refused : ¬ HasLength plen data ->
    data.num 0 2 ≤ blockSize plen ∧ data.num 0 2 ≤ max plen maxlen
  tame : HasLength plen data -> data 2 = UInt8.ofNat rtmVersion -> Tame plen data

section

variable (env : Env) (data : Bytes) {plen : UInt32} (maxlen : UInt32)
  (hmalloc : env.malloc (copyIn env data plen.toNat).size = true) (htwo : 2 ≤ plen.toNat)
  (hlt : plen.toNat < 2 ^ 31)

include hmalloc htwo hlt

/-- What the block of a request is, whose length is a positive `int`. -/
theorem copyIn_spec : (copyIn env data plen.toNat).size = blockSize plen.toNat ∧
      headerSize ≤ (copyIn env data plen.toNat).size ∧ (copyIn env data plen.toNat).size % 8 = 0 ∧
      plen.toNat ≤ (copyIn env data plen.toNat).size ∧ (copyIn env data plen.toNat).Clean := by
  have hint : IsInt plen.toNat := ⟨Nat.lt_of_lt_of_le (by decide) htwo, hlt⟩
  have hsize : (copyIn env data plen.toNat).size = blockSize plen.toNat := by
    rcases copyIn_size_cases env data plen.toNat_lt (env.malloc_limit hmalloc) with
      ⟨_, hsize⟩ | ⟨hno, _⟩
    · exact hsize
    · exact absurd hint hno
  rcases blockSize_spec hint.1 with ⟨hheader, haligned, hfits⟩
  rw [<- hsize] at hheader haligned hfits
  exact ⟨hsize, hheader, haligned, hfits, by simp [Work.Clean, copyIn]⟩

theorem ffRtioctl_refused_iff (hlength : ¬ HasLength plen.toNat data) :
    CopyBackBound plen.toNat maxlen.toNat (ffRtioctl env data plen maxlen) <->
      data.num 0 2 ≤ blockSize plen.toNat ∧ data.num 0 2 ≤ max plen.toNat maxlen.toNat := by
  have hint : IsInt plen.toNat := ⟨Nat.lt_of_lt_of_le (by decide) htwo, hlt⟩
  have hmsglen := copyIn_msglen env data hint htwo
  rcases copyIn_spec env data hmalloc htwo hlt with ⟨hsize, hheader, haligned, _, hclean⟩
  simp only [ffRtioctl, hmalloc, if_true, isShort_iff hint, asInt_of_isInt hint, ne_eq,
    Int.natCast_inj, Int.toNat_natCast]
  rw [<- hmsglen, <- hsize]
  unfold HasLength at hlength
  rw [<- hmsglen] at hlength
  generalize copyIn env data plen.toNat = w at *
  by_cases hshort : plen.toNat < headerSize
  · rw [if_pos hshort]
    exact refused_bound_iff env data hheader haligned hclean _ _ _ _
  · have hne : ¬ plen.toNat = w.mem.num 0 2 := fun heq => hlength ⟨Nat.not_lt.mp hshort, heq⟩
    have hclean' : (w.read 0 2).Clean :=
      (clean_read_iff (Nat.le_trans (by decide) hheader)).mpr hclean
    rw [if_neg hshort, if_pos hne]
    exact refused_bound_iff env data (w := w.read 0 2) hheader haligned hclean' _ _ _ _

theorem ffRtioctl_request (hlength : HasLength plen.toNat data)
    (htame : data 2 = UInt8.ofNat rtmVersion -> Tame plen.toNat data) :
    CopyBackBound plen.toNat maxlen.toNat (ffRtioctl env data plen maxlen) := by
  have hint : IsInt plen.toNat := ⟨Nat.lt_of_lt_of_le (by decide) htwo, hlt⟩
  have hmsglen := copyIn_msglen env data hint htwo
  rw [<- hlength.2] at hmsglen
  have hbytes : forall k, k < plen.toNat -> (copyIn env data plen.toNat).mem k = data k :=
    fun k hk => copyIn_mem env data hint hk
  have hversion := hbytes 2 (Nat.lt_of_lt_of_le (by decide) hlength.1)
  rcases copyIn_spec env data hmalloc htwo hlt with ⟨_, hheader, haligned, hfits, hclean⟩
  simp only [ffRtioctl, hmalloc, if_true, isShort_iff hint, asInt_of_isInt hint, ne_eq,
    Int.natCast_inj, Int.toNat_natCast]
  generalize copyIn env data plen.toNat = w at *
  rw [if_neg (Nat.not_lt.mpr hlength.1), if_neg (not_not_intro hmsglen.symm)]
  have hholds : (w.read 0 2).Holds plen.toNat := ⟨hheader, haligned, hmsglen, hfits⟩
  have hclean' : (w.read 0 2).Clean :=
    (clean_read_iff (Nat.le_trans (by decide) hheader)).mpr hclean
  by_cases hsame : data 2 = UInt8.ofNat rtmVersion
  · have hcopies : (w.read 0 2).Copies plen.toNat data :=
      ⟨hlength.1, hbytes, hversion.trans hsame⟩
    exact handleRequest_bound env data hcopies hholds hclean' (htame hsame) _
  · refine handleRequest_version env data ?_ hholds hclean' _
    show w.mem 2 ≠ _
    rwa [hversion]

end

def emptyTable : Env where
  zones := ⟨false, fun _ => 0, fun _ => false, 0, true⟩
  malloc size := decide (size < 2 ^ 63)
  malloc_bound size h := by simpa using h
  fresh _ := 0
  freshReply _ := 0
  stack _ := 0
  frame _ := 0
  pid := 0
  llaRtOutput := 0
  change := .error esrch
  delete := .error esrch
  replaced _ := none
  table := true
  found := none
  announced := none

def oneEntry : Env :=
  { emptyTable with found := some ⟨false, saZero, some saZero, none, none, 1, fun _ => 0⟩ }

/-- A request of 184 bytes for the route to an IPv6 address. -/
def getRequest : Bytes :=
  fun k =>
    if k = 0 then
      184
    else if k = 2 then
      UInt8.ofNat rtmVersion
    else if k = 3 then
      UInt8.ofNat rtmGet
    else if k = 12 then
      1
    else if k = 152 then
      28
    else if k = 153 then
      afInet6
    else
      0

end Route
end FStackLite
