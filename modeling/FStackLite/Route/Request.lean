import FStackLite.Route.Ioctl

/-!
# What is read of a request for the routing table

The reads of a request up to the point where it is answered or ends, and the bound on what
is copied back at the end: the message is copied back with the length that stands in it.
-/

namespace FStackLite
namespace Route

open Foundation (Bytes Span)

/-- Nothing is read outside the working copies, and no more than the bound is copied back. -/
structure CopyBackBound (plen maxlen : Nat) (o : Outcome) : Prop where
  inside : forall r, r ∈ o.reads -> r.Inside
  written : o.written ≤ max plen maxlen
  stored : o.plen ≤ max plen maxlen

def WholeIn6 (size : Nat) (offs : List Nat) : Prop :=
  forall off, off ∈ offs -> off + in6Size ≤ size

def Info.Aligned (info : Info) (size : Nat) : Prop :=
  forall i off, info i = .inside off -> headerSize ≤ off ∧ off % 8 = 0 ∧ off < size

/-- The addresses of `info` that are inside the message are the same in `whole`. -/
def Info.SubInside (info whole : Info) : Prop :=
  forall i off, info i = .inside off -> whole i = .inside off

theorem Info.Aligned.sub {info whole : Info} {size : Nat} (h : whole.Aligned size)
    (hsub : info.SubInside whole) : info.Aligned size :=
  fun i off hoff => h i off (hsub i off hoff)

theorem ofOption_ne_inside (sa : Option Bytes) (off : Nat) : Slot.ofOption sa ≠ .inside off := by
  cases sa with
  | none => simp [Slot.ofOption]
  | some sa => simp [Slot.ofOption]

variable {off : Nat} {w : Work}

theorem inside_iff {n size : Nat} (hn : 0 < n) :
    Read.Inside ⟨⟨off, n⟩, size⟩ <-> off + n ≤ size := by
  simp only [Read.Inside, Span.within_iff]
  omega

def Work.Clean (w : Work) : Prop :=
  forall r, r ∈ w.reads -> r.Inside

theorem clean_read_iff {n : Nat} (h : off + n ≤ w.size) : (w.read off n).Clean <-> w.Clean := by
  have hread : Read.Inside ⟨⟨off, n⟩, w.size⟩ := Span.within_of_le (Nat.zero_le _) (by simpa using h)
  simp only [Work.Clean, Work.read, List.forall_mem_append, List.forall_mem_singleton, hread, and_true]

/-!
## The end of a request
-/

theorem recoverAt_mem (env : Env) (mem : Bytes) {k : Nat} (h : k < off) :
    recoverAt env mem off k = mem k := by
  unfold recoverAt
  cases sa6Recoverscope env.zones (env.stack.store 0 in6Size (mem.drop off)) with
  | none => rfl
  | some sin6 => exact Bytes.store_outside (Or.inl h)

section

variable (env : Env) {size : Nat} {info : Info} (hinfo : info.Aligned size)

include hinfo

theorem recoverScopes_mem {slots : List Nat} {mem : Bytes} {k : Nat} (hk : k < headerSize) :
    (recoverScopes env size info slots mem).mem k = mem k := by
  induction slots generalizing mem with
  | nil => rfl
  | cons i rest ih =>
      unfold recoverScopes
      split
      · next off hoff =>
          have hbehind := (hinfo i off hoff).1
          split
          · exact ih.trans (recoverAt_mem env mem (by omega))
          · exact ih
      · exact ih

theorem recoverScopes_reads_iff (hsize : size % 8 = 0) {slots : List Nat} {mem : Bytes} :
    (forall r, r ∈ (recoverScopes env size info slots mem).reads -> r.Inside) <->
      WholeIn6 size (recoverScopes env size info slots mem).inet6 := by
  induction slots generalizing mem with
  | nil => simp [recoverScopes, WholeIn6]
  | cons i rest ih =>
      unfold recoverScopes
      split
      · next off hoff =>
          have hplace := hinfo i off hoff
          have hfamily : Read.Inside ⟨⟨off + 1, 1⟩, size⟩ := (inside_iff (by omega)).mpr (by omega)
          split
          · have hwhole : Read.Inside ⟨⟨off, in6Size⟩, size⟩ <-> off + in6Size ≤ size :=
              inside_iff (by decide)
            simp only [List.forall_mem_cons, WholeIn6, hfamily, hwhole, true_and]
            rw [ih]
            rfl
          · simp only [List.forall_mem_cons, hfamily, true_and]
            exact ih
      · exact ih

end

theorem mark_size (w : Work) (error : Int) : (w.mark error).size = w.size := by
  unfold Work.mark
  split
  · rfl
  · rfl

theorem mark_msglen (w : Work) (error : Int) : (w.mark error).mem.num 0 2 = w.mem.num 0 2 := by
  unfold Work.mark
  split
  · exact Bytes.num_putNum_outside (Or.inl (by decide))
  · exact Bytes.num_putNum_outside (Or.inl (by decide))

theorem clean_mark_iff (hheader : headerSize ≤ w.size) (error : Int) :
    (w.mark error).Clean <-> w.Clean := by
  unfold Work.mark
  split
  · rfl
  · exact clean_read_iff (Nat.le_trans (by decide) hheader)

/-- The bound at the end of a request, of which the length in the message is left to check. -/
theorem flush_bound_iff (env : Env) (data : Bytes) {f : Finish} (hheader : headerSize ≤ f.work.size)
    (hsize : f.work.size % 8 = 0) (hinfo : f.deembed = true -> f.info.Aligned f.work.size)
    (plen maxlen : Nat) : CopyBackBound plen maxlen (flush env data f) <-> f.work.Clean ∧
        (f.deembed = true -> WholeIn6 f.work.size
          (recoverScopes env f.work.size f.info (List.range rtaxMax) f.work.mem).inet6) ∧
        f.work.mem.num 0 2 ≤ f.work.size ∧ f.work.mem.num 0 2 ≤ max plen maxlen := by
  have hrecovered : (recovered env f).size = f.work.size ∧
      (recovered env f).mem.num 0 2 = f.work.mem.num 0 2 ∧
      ((recovered env f).Clean <-> f.work.Clean ∧ (f.deembed = true -> WholeIn6 f.work.size
        (recoverScopes env f.work.size f.info (List.range rtaxMax) f.work.mem).inet6)) := by
    unfold recovered
    cases hdeembed : f.deembed with
    | false => simp
    | true =>
        have haligned := hinfo hdeembed
        simp only [if_true, Work.Clean, List.forall_mem_append, true_implies]
        refine ⟨trivial, ?_, ?_⟩
        · apply Bytes.num_congr
          intro k _ hk
          exact recoverScopes_mem env haligned (Nat.lt_of_lt_of_le hk (by decide))
        · rw [recoverScopes_reads_iff env haligned hsize]
  rcases hrecovered with ⟨hsame, hmsglen, hreads⟩
  have hlarge : headerSize ≤ ((recovered env f).mark f.error).size := by
    rwa [mark_size, hsame]
  have hcopy : Read.Inside ⟨⟨0, f.work.mem.num 0 2⟩, f.work.size⟩ <->
      f.work.mem.num 0 2 ≤ f.work.size := by
    simp only [Read.Inside, Span.within_iff]
    omega
  have hall : (forall r, r ∈ (flush env data f).reads -> r.Inside) <->
      (((recovered env f).mark f.error).read 0 2).Clean ∧
        f.work.mem.num 0 2 ≤ f.work.size := by
    rw [<- hcopy]
    simp only [flush, Work.Clean, Work.read, List.forall_mem_append, List.forall_mem_singleton,
      mark_size, mark_msglen, hsame, hmsglen]
  rw [clean_read_iff (Nat.le_trans (by decide) hlarge), clean_mark_iff (by rwa [hsame]), hreads]
    at hall
  have hlength : (flush env data f).plen = f.work.mem.num 0 2 ∧
      (flush env data f).written = f.work.mem.num 0 2 := by
    simp only [flush, Work.read, mark_msglen, hmsglen, and_self]
  constructor
  · intro h
    rcases hall.mp h.inside with ⟨⟨hinside, hwhole⟩, hfits⟩
    exact ⟨hinside, hwhole, hfits, hlength.2 ▸ h.written⟩
  · rintro ⟨hinside, hwhole, hfits, hbound⟩
    exact ⟨hall.mpr ⟨⟨hinside, hwhole⟩, hfits⟩, hlength.2 ▸ hbound, hlength.1 ▸ hbound⟩

/-!
## The request
-/

def Verdict.info : Verdict -> Info
  | .done _ _ _ info => info
  | .report _ info => info

theorem rewrite_sub (env : Env) (info : Info) : (env.rewrite info).SubInside info := by
  intro i off hoff
  unfold Env.rewrite at hoff
  split at hoff
  · exact hoff
  · next sa hsa =>
      exact absurd hoff (ofOption_ne_inside sa off)

theorem dispatch_sub (env : Env) (type flags : Nat) (family : UInt8) (info : Info) :
    (dispatch env type flags info family).info.SubInside info := by
  have hsame : info.SubInside info := fun _ _ hoff => hoff
  have hrewrite := rewrite_sub env info
  unfold dispatch
  split
  · split
    · exact hsame
    · split
      · exact hsame
      · split
        · exact hrewrite
        · exact hrewrite
  · split
    · split
      · exact hsame
      · split
        · exact hrewrite
        · exact hrewrite
    · split
      · split
        · split
          · exact hsame
          · exact hsame
        · exact hsame
      · exact hsame

theorem dispatch_report {env : Env} {type flags : Nat} {family : UInt8} {info info' : Info}
    {entry : Entry} (h : dispatch env type flags info family = .report entry info') :
    IsRoute type := by
  unfold dispatch at h
  split at h
  · split at h
    · contradiction
    · split at h
      · contradiction
      · split at h
        · contradiction
        · contradiction
  · split at h
    · next htype =>
        rw [htype]
        intro iflistl
        rfl
    · split at h
      · next htype =>
          rw [htype]
          intro iflistl
          rfl
      · contradiction

theorem clean_readFamily_iff (hsize : w.size % 8 = 0) {slot : Slot}
    (hslot : forall off, slot = .inside off -> off % 8 = 0 ∧ off < w.size) :
    (w.readFamily slot).Clean <-> w.Clean := by
  cases slot with
  | absent => rfl
  | elsewhere sa => rfl
  | inside off =>
      rcases hslot off rfl with ⟨haligned, hoff⟩
      exact clean_read_iff (by omega)

@[simp] theorem readFamily_size (w : Work) (slot : Slot) : (w.readFamily slot).size = w.size := by
  cases slot with
  | absent => rfl
  | elsewhere sa => rfl
  | inside off => rfl

@[simp] theorem readFamily_mem (w : Work) (slot : Slot) : (w.readFamily slot).mem = w.mem := by
  cases slot with
  | absent => rfl
  | elsewhere sa => rfl
  | inside off => rfl

/-- What is left to check of a request when the answer, if any, is to be written. -/
structure Examined.Meets (w : Work) (e : Examined) : Prop where
  size : e.work.size = w.size
  msglen : e.work.mem.num 0 2 = w.mem.num 0 2
  clean : e.work.Clean <-> w.Clean ∧ WholeIn6 w.size e.inet6
  aligned : e.verdict.info.Aligned w.size
  route : forall entry info, e.verdict = .report entry info -> IsRoute (e.work.mem 3).toNat

theorem examineAddrs_meets (env : Env) {x : Xaddrs} {w' : Work} (hheader : headerSize ≤ w.size)
    (hsize : w.size % 8 = 0) (hinfo : x.info.Aligned w.size) (hsame : w'.size = w.size)
    (hmsglen : w'.mem.num 0 2 = w.mem.num 0 2)
    (hclean : w'.Clean <-> w.Clean ∧ WholeIn6 w.size x.inet6) :
    (examineAddrs env x w').Meets w := by
  have hslot : forall i off, x.info i = .inside off -> off % 8 = 0 ∧ off < w'.size := by
    intro i off hoff
    rw [hsame]
    exact (hinfo i off hoff).2
  have hdst : (w'.readFamily (x.info rtaxDst)).Clean <-> w'.Clean :=
    clean_readFamily_iff (by rwa [hsame]) (hslot rtaxDst)
  have hgateway : ((w'.readFamily (x.info rtaxDst)).readFamily (x.info rtaxGateway)).Clean <->
      w'.Clean := by
    rw [clean_readFamily_iff (by simpa [hsame] using hsize) (by simpa using hslot rtaxGateway), hdst]
  have htype : (((w'.readFamily (x.info rtaxDst)).readFamily (x.info rtaxGateway)).read 3 1).Clean <->
      w'.Clean := by
    rw [clean_read_iff (by simpa [hsame] using Nat.le_trans (by decide) hheader), hgateway]
  simp only [examineAddrs]
  split
  · exact ⟨hsame, hmsglen, hclean, hinfo, by simp⟩
  · split
    · exact ⟨by simpa using hsame, by simpa using hmsglen, hdst.trans hclean, hinfo, by simp⟩
    · split
      · exact ⟨by simpa using hsame, by simpa using hmsglen, hgateway.trans hclean, hinfo, by simp⟩
      · refine ⟨by simpa [Work.read] using hsame, by simpa [Work.read] using hmsglen,
          htype.trans hclean, hinfo.sub (dispatch_sub env _ _ _ _), ?_⟩
        intro entry info hreport
        simpa [Work.read] using dispatch_report hreport

theorem clean_openRequest_iff (env : Env) (hheader : headerSize ≤ w.size) :
    (w.openRequest env).Clean <-> w.Clean := by
  have hin : forall n, n ≤ headerSize -> n ≤ w.size := fun n hn => Nat.le_trans hn hheader
  unfold Work.openRequest
  refine (clean_read_iff ?_).trans ((clean_read_iff ?_).trans (clean_read_iff ?_))
  · exact hin _ (by decide)
  · exact hin _ (by decide)
  · exact hin _ (by decide)

theorem afterXaddrs_spec (env : Env) {len : Nat} (hsize : w.size % 8 = 0) (hlen : len ≤ w.size) :
    (w.afterXaddrs (xaddrsOf env len w)).mem.num 0 2 = w.mem.num 0 2 ∧
      ((w.afterXaddrs (xaddrsOf env len w)).Clean <->
        w.Clean ∧ WholeIn6 w.size (xaddrsOf env len w).inet6) ∧
      (xaddrsOf env len w).info.Aligned w.size := by
  refine ⟨?_, ?_, ?_⟩
  · apply Bytes.num_congr
    intro k _ hk
    exact rtXaddrs_mem _ _ (Nat.lt_of_lt_of_le hk (by decide))
  · have hreads : (forall s, s ∈ (xaddrsOf env len w).reads -> s.Within 0 w.size) <->
        WholeIn6 w.size (xaddrsOf env len w).inet6 :=
      rtXaddrs_reads_iff env.zones _ hsize hlen (by decide)
    simp only [Work.Clean, Work.afterXaddrs, List.forall_mem_append, List.forall_mem_map]
    exact and_congr_right fun _ => hreads
  · intro i off hoff
    rcases rtXaddrs_inside env.zones _ (by decide) hoff with ⟨hbehind, haligned, hbefore⟩
    exact ⟨hbehind, haligned, Nat.lt_of_lt_of_le hbefore hlen⟩

theorem examine_meets (env : Env) {len : Nat} (hheader : headerSize ≤ w.size)
    (hsize : w.size % 8 = 0) (hlen : len ≤ w.size) : (examine env len w).Meets w := by
  rcases afterXaddrs_spec env (w := w.openRequest env) hsize hlen with ⟨hmsglen, hclean, hinfo⟩
  have hopened : (w.openRequest env).mem.num 0 2 = w.mem.num 0 2 :=
    Bytes.num_putNum_outside (Or.inl (by decide))
  rw [hopened] at hmsglen
  rw [clean_openRequest_iff env hheader] at hclean
  simp only [examine]
  split
  · split
    · refine examineAddrs_meets env hheader hsize hinfo rfl ?_ ?_
      · exact hmsglen
      · refine (clean_read_iff ?_).trans hclean
        exact Nat.le_trans (by decide : 8 + 4 ≤ headerSize) hheader
    · exact ⟨rfl, hmsglen, hclean, hinfo, by simp⟩
  · refine ⟨rfl, rfl, ?_, by simp [Verdict.info, Info.Aligned], by simp⟩
    rw [clean_read_iff (Nat.le_trans (by decide) hheader)]
    simp [WholeIn6]

end Route
end FStackLite
