import FStackLite.Route.Request

/-!
# The answer to a request for the routing table

A request of the right length keeps it until an answer is written.  The answer may repeat
addresses of the request, which the answer itself overwrites while it is written.
-/

namespace FStackLite
namespace Route

open Foundation (Bytes Span)

structure Work.Holds (w : Work) (plen : Nat) : Prop where
  header : headerSize ≤ w.size
  aligned : w.size % 8 = 0
  msglen : w.mem.num 0 2 = plen
  fits : plen ≤ w.size

variable {plen i off : Nat} {w : Work} {info : Info} {entry : Entry} {env : Env}

theorem flush_request (env : Env) (data : Bytes) (hw : w.Holds plen) (hclean : w.Clean)
    (info : Info) (error : Int) (maxlen : Nat) :
    CopyBackBound plen maxlen (flush env data ⟨w, info, error, false⟩) := by
  rw [flush_bound_iff env data hw.header hw.aligned (fun h => by contradiction)]
  simp [hclean, hw.msglen, hw.fits]

@[simp] theorem writeIndex_size (w : Work) (index : Option Nat) :
    (w.writeIndex index).size = w.size := by
  cases index with
  | none => rfl
  | some n => rfl

theorem writeIndex_mem (w : Work) (index : Option Nat) {k : Nat} (hk : 6 ≤ k) :
    (w.writeIndex index).mem k = w.mem k := by
  cases index with
  | none => rfl
  | some n =>
      show w.mem.putNum 4 2 n k = w.mem k
      exact Bytes.store_outside (Or.inr hk)

theorem writeIndex_holds (hw : w.Holds plen) (index : Option Nat) :
    (w.writeIndex index).Holds plen ∧ ((w.writeIndex index).Clean <-> w.Clean) := by
  cases index with
  | none => exact ⟨hw, Iff.rfl⟩
  | some n =>
      refine ⟨⟨hw.header, hw.aligned, ?_, hw.fits⟩, Iff.rfl⟩
      exact (Bytes.num_putNum_outside (Or.inl (by decide))).trans hw.msglen

/-!
## The addresses of an answer
-/

theorem update_inside {j : Nat} {slot : Slot} (hslot : forall off, slot ≠ .inside off)
    (h : Function.update info i slot j = .inside off) : j ≠ i ∧ info j = .inside off := by
  by_cases heq : j = i
  · rw [heq, Function.update_self] at h
    exact absurd h (hslot off)
  · rw [Function.update_of_ne heq] at h
    exact ⟨heq, h⟩

theorem routeInfo_inside (h : routeInfo env entry info i = .inside off) : info i = .inside off ∧
      i ≠ rtaxDst ∧ i ≠ rtaxGateway ∧ i ≠ rtaxNetmask ∧ i ≠ rtaxGenmask := by
  rcases update_inside (by simp) h with ⟨hgenmask, h⟩
  rcases update_inside (ofOption_ne_inside _) h with ⟨hnetmask, h⟩
  rcases update_inside (ofOption_ne_inside _) h with ⟨hgateway, h⟩
  rcases update_inside (by simp) h with ⟨hdst, h⟩
  exact ⟨h, hdst, hgateway, hnetmask, hgenmask⟩

theorem interfaceInfo_inside {ifp : Interface} {ifa : Bytes}
    (h : interfaceInfo ifp ifa info i = .inside off) :
    info i = .inside off ∧ i ≠ rtaxIfp ∧ i ≠ rtaxIfa := by
  have hlocal : Function.update (Function.update info rtaxIfp (.elsewhere ifp.addr))
      rtaxIfa (.elsewhere ifa) i = .inside off := by
    simp only [interfaceInfo] at h
    split at h
    · exact (update_inside (ofOption_ne_inside _) h).2
    · exact h
  rcases update_inside (by simp) hlocal with ⟨hifa, h⟩
  rcases update_inside (by simp) h with ⟨hifp, h⟩
  exact ⟨h, hifp, hifa⟩

/-- The addresses of the entry and of its interface take the place of the request's. -/
theorem reportInfo_inside {addrs : Nat} {info' : Info} {index : Option Nat}
    (h : reportInfo env entry addrs info = .ok (info', index)) (hoff : info' i = .inside off) :
    routeInfo env entry info i = .inside off ∧
      (addrs.testBit i = true -> i ≠ rtaxIfp ∧ i ≠ rtaxIfa) := by
  simp only [reportInfo] at h
  split at h
  · split at h
    · injection h with h
      injection h with h
      rw [<- h] at hoff
      rcases update_inside (by simp) hoff with ⟨hifa, hoff⟩
      rcases update_inside (by simp) hoff with ⟨hifp, hoff⟩
      exact ⟨hoff, fun _ => ⟨hifp, hifa⟩⟩
    · split at h
      · contradiction
      · injection h with h
        injection h with h
        rw [<- h] at hoff
        rcases interfaceInfo_inside hoff with ⟨hoff, hlocal⟩
        exact ⟨hoff, fun _ => hlocal⟩
  · next hbits =>
      injection h with h
      injection h with h
      rw [<- h] at hoff
      refine ⟨hoff, fun hbit => ⟨?_, ?_⟩⟩
      · rintro rfl
        exact hbits (Or.inl hbit)
      · rintro rfl
        exact hbits (Or.inr hbit)

/-- All that an answer repeats of the request is the author and the broadcast address. -/
theorem reportInfo_outside {addrs : Nat} {info' : Info} {index : Option Nat}
    (hbits : forall i off, info i = .inside off -> addrs.testBit i = true)
    (hauthor : forall off, info rtaxAuthor ≠ .inside off)
    (hbrd : forall off, info rtaxBrd ≠ .inside off)
    (h : reportInfo env entry addrs info = .ok (info', index)) :
    info'.Outside (List.range rtaxMax) := by
  intro i hi off hoff
  rcases reportInfo_inside h hoff with ⟨hroute, hlocal⟩
  rcases routeInfo_inside hroute with ⟨hgiven, hroute⟩
  have hlocal := hlocal (hbits i off hgiven)
  have hlast : i ≠ rtaxAuthor ∧ i ≠ rtaxBrd := by
    constructor
    · rintro rfl
      exact hauthor off hgiven
    · rintro rfl
      exact hbrd off hgiven
  rw [List.mem_range] at hi
  simp only [rtaxMax, rtaxDst, rtaxGateway, rtaxNetmask, rtaxGenmask, rtaxIfp, rtaxIfa, rtaxAuthor,
    rtaxBrd] at *
  omega

/-!
## An answer that repeats no address of the request
-/

theorem fillReply_msglen (env : Env) (type : Nat) (entry : Entry) (info : Info)
    (freed : Option Bytes) (w : Work) : (fillReply env type entry info freed w).work.mem.num 0 2 =
      (rtsockMsgBuffer (env.scene freed w.size) type info (some ⟨w.size, false⟩) w.mem).mem.num
        0 2 := by
  simp only [fillReply]
  rw [Bytes.num_putNum_outside (Or.inl (by decide)), Bytes.num_store_outside (Or.inl (by decide)),
    Bytes.num_putNum_outside (Or.inl (by decide))]

section

variable (env : Env) (data : Bytes) {type : Nat} (htype : IsRoute type) (entry : Entry) {info : Info}
  (hout : info.Outside (List.range rtaxMax))

include htype hout

theorem sized_outside (w : Work) :
    (rtsockMsgBuffer (env.scene none w.size) type info none w.mem).len =
        headerSize + info.outerSize (List.range rtaxMax) ∧
      (rtsockMsgBuffer (env.scene none w.size) type info none w.mem).reads = [] := by
  rcases putAddrs_outside (env.scene none w.size) hout (.start headerSize none w.mem) with
    ⟨hlen, hreads, _⟩
  rw [rtsockMsgBuffer_eq _ info htype, finish_len type (routeAddrs_len _ _ _ _).2.2, finish_reads]
  exact ⟨hlen, hreads⟩

/-- An answer for which there is room is written with the length that it needs. -/
theorem fillReply_bound (freed : Option Bytes) {w : Work} (hsize : w.size % 8 = 0)
    (hclean : w.Clean) (hroom : headerSize + info.outerSize (List.range rtaxMax) ≤ w.size)
    (plen : Nat) {maxlen : Nat} (hmax : headerSize + info.outerSize (List.range rtaxMax) ≤ maxlen) :
    CopyBackBound plen maxlen (flush env data (fillReply env type entry info freed w)) := by
  have hheader : headerSize ≤ w.size := by omega
  rcases putAddrs_outside (env.scene freed w.size) hout
    (.start headerSize (some ⟨w.size, false⟩) w.mem) with ⟨hlength, hreads, hcp⟩
  have hlen := routeAddrs_len (env.scene freed w.size) info (some ⟨w.size, false⟩) w.mem
  have hplaced := routeAddrs_placed (env.scene freed w.size) info hheader w.mem
  have hthere : ((env.scene freed w.size).routeAddrs info (some ⟨w.size, false⟩) w.mem).cp ≠
      none := by
    apply hcp
    · simp [MsgBuffer.start]
    · show (info.outerSize (List.range rtaxMax) : Int) ≤ (w.size : Int) - headerSize
      omega
  rcases finish_complete type hlen.2.2 hplaced hlen.2.1 hthere with ⟨_, hmsglen, hfits⟩
  have hneeded : (fillReply env type entry info freed w).work.mem.num 0 2 =
      headerSize + info.outerSize (List.range rtaxMax) := by
    rw [fillReply_msglen, rtsockMsgBuffer_eq _ info htype, hmsglen]
    exact hlength
  rw [flush_bound_iff env data hheader hsize (fun h => by contradiction), hneeded]
  refine ⟨?_, fun h => by contradiction, hroom, Nat.le_trans hmax (Nat.le_max_right _ _)⟩
  have hnone : (rtsockMsgBuffer (env.scene freed w.size) type info (some ⟨w.size, false⟩)
      w.mem).reads = [] := by
    rw [rtsockMsgBuffer_eq _ info htype, finish_reads]
    exact hreads
  simpa [fillReply, Work.Clean, hnone] using hclean

theorem answer_bound {w : Work} {plen : Nat} (hw : w.Holds plen) (hclean : w.Clean) (maxlen : Nat) :
    CopyBackBound plen maxlen (flush env data (answer env maxlen type entry info w)) := by
  rcases sized_outside env htype hout w with ⟨hlen, hreads⟩
  have haligned := (routeAddrs_len (env.scene none w.size) info none w.mem).2.2
  rw [<- finish_len type haligned, <- rtsockMsgBuffer_eq _ info htype, hlen] at haligned
  simp only [answer, hlen, hreads, List.append_nil]
  split
  · exact flush_request env data hw hclean _ _ _
  · next hshort =>
      have hmax := Nat.not_lt.mp hshort
      split
      · split
        · refine fillReply_bound env data htype entry hout _ haligned ?_ (Nat.le_refl _) plen hmax
          have hcopied : ((w.read 0 2).read 0 (w.mem.num 0 2)).Clean := by
            rw [clean_read_iff, clean_read_iff]
            · exact hclean
            · exact Nat.le_trans (by decide) hw.header
            · rw [hw.msglen, Nat.zero_add]
              exact hw.fits
          exact hcopied
        · exact flush_request env data hw hclean _ _ _
      · next hroom =>
          exact fillReply_bound env data htype entry hout none hw.aligned hclean
            (Nat.not_lt.mp hroom) plen hmax

end

theorem report_bound (env : Env) (data : Bytes) {type : Nat} (htype : IsRoute type)
    (entry : Entry) (hw : w.Holds plen) (hclean : w.Clean)
    (hout : forall info' index, reportInfo env entry (w.mem.num 12 4) info = .ok (info', index) ->
      info'.Outside (List.range rtaxMax)) (maxlen : Nat) :
    CopyBackBound plen maxlen (flush env data (report env maxlen type entry info w)) := by
  have hread : (w.read 12 4).Clean :=
    (clean_read_iff (Nat.le_trans (by decide) hw.header)).mpr hclean
  have hw' : (w.read 12 4).Holds plen := ⟨hw.header, hw.aligned, hw.msglen, hw.fits⟩
  unfold report
  split
  · exact flush_request env data hw hclean _ _ _
  · split
    · exact flush_request env data hw' hread _ _ _
    · next info' index hreport =>
        rcases writeIndex_holds hw' index with ⟨hindexed, hcleaned⟩
        exact answer_bound env data htype entry (hout info' index hreport) hindexed
          (hcleaned.mpr hread) maxlen

end Route
end FStackLite
