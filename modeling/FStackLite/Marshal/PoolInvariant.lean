import FStackLite.Marshal.Request

/-!
# What the requests write, and what they leave in the pool

`sysctl` lays the parts of its request out one behind the other, but it decides with
another sum whether they fit the message.  `ioctl_va` and `rtioctl` advance `buf_addr`
past the data they wrote and never take it back.
-/

namespace FStackLite
namespace Marshal

open Foundation (Span layout layout_within_iff)

/-!
## The layout of a `sysctl` request
-/

namespace Sysctl

/-- The lengths of the parts of the request, in the order in which they are written. -/
def parts (args : Sysctl) : List Nat :=
  [args.namelen * 4] ++ (if args.new && args.newlen != 0 then [args.newlen] else []) ++
    match args.oldlenp with
    | none => []
    | some oldlen => [8] ++ if args.old then [oldlen] else []

def encodedLen (args : Sysctl) : Nat :=
  args.namelen * 4 + (if args.new then args.newlen else 0) +
    match args.oldlenp with
    | none => 0
    | some oldlen => 8 + if args.old then oldlen else 0

theorem sum_parts (args : Sysctl) : args.parts.sum = args.encodedLen := by
  rcases args with ⟨namelen, old, oldlenp, new, newlen⟩
  cases oldlenp <;> cases old <;> cases new <;> cases newlen <;>
    simp [parts, encodedLen] <;> omega

theorem build_spans (args : Sysctl) (msg : Msg) :
    (args.build msg).2 = layout msg.bufAddr args.parts := by
  have hname := (Cursor.start_holds msg.bufAddr).put (args.namelen * 4)
  have hnew : Cursor.Holds
      (if args.new && args.newlen != 0 then
        ((Cursor.start msg.bufAddr).put (args.namelen * 4)).put args.newlen
      else (Cursor.start msg.bufAddr).put (args.namelen * 4))
      msg.bufAddr
      ([args.namelen * 4] ++ if args.new && args.newlen != 0 then [args.newlen] else []) := by
    split
    · exact hname.put args.newlen
    · exact hname
  unfold build parts
  cases hold : args.oldlenp with
  | none => simpa using hnew.2
  | some oldlen =>
      cases args.old with
      | false => simpa using (hnew.put 8).2
      | true => simpa using ((hnew.put 8).put oldlen).2

@[simp] theorem build_bufAddr (args : Sysctl) (msg : Msg) :
    (args.build msg).1.bufAddr = msg.bufAddr := by
  unfold build
  cases args.oldlenp <;> rfl

@[simp] theorem build_bufLen (args : Sysctl) (msg : Msg) :
    (args.build msg).1.bufLen = msg.bufLen := by
  unfold build
  cases args.oldlenp <;> rfl

/-- The request fits the message, or the memory that is allocated in its place. -/
def Fits (args : Sysctl) : Prop :=
  args.encodedLen ≤ max (maxMsgBufSize - sizeofMsg) args.totalLen

instance (args : Sysctl) : Decidable args.Fits :=
  inferInstanceAs (Decidable (_ ≤ _))

def OutOfMemory (args : Sysctl) (env : Env) : Prop :=
  maxMsgBufSize - sizeofMsg < args.totalLen ∧ env.extra = none

theorem writes_inside_iff (args : Sysctl) (msg : Msg) {buffer : Span}
    (hstart : msg.bufAddr = buffer.start) :
    (forall w, w ∈ writesTo buffer (args.build msg).2 -> w.Inside) <->
      args.encodedLen ≤ buffer.len := by
  rw [writesTo_inside_iff, build_spans, hstart, layout_within_iff, sum_parts]

end Sysctl

theorem sysctl_writes_inside_iff (args : Sysctl) (env : Env) (pool : Pool) (ref : MsgRef)
    (haccepted : args.rejected = false) (halloc : env.alloc = some ref)
    (hinitial : (pool ref).Initial ref) :
    (forall w, w ∈ (sysctl args env pool).writes -> w.Inside) <->
      args.Fits ∨ args.OutOfMemory env := by
  have hroom : (pool ref).bufLen = maxMsgBufSize - sizeofMsg := hinitial.2
  unfold Sysctl.Fits Sysctl.OutOfMemory
  by_cases hlarge : maxMsgBufSize - sizeofMsg < args.totalLen
  · rw [Nat.max_eq_right (Nat.le_of_lt hlarge)]
    cases hextra : env.extra with
    | none => simp [sysctl, haccepted, halloc, hroom, hlarge, hextra, Effect.refuse]
    | some extra =>
        simp [sysctl, haccepted, halloc, hroom, hlarge, hextra, args.writes_inside_iff]
  · rw [Nat.max_eq_left (Nat.le_of_not_lt hlarge)]
    have hfits := args.writes_inside_iff (pool ref) hinitial.1
    rw [elementBuffer_len] at hfits
    simpa [sysctl, haccepted, halloc, hroom, hlarge] using hfits

/--
All bytes that `sysctl` writes while it builds a request lie in the buffer it selected
if and only if the request is no longer than that buffer: the message's, or one of
`namelen + oldlen + newlen` bytes if that is more.  Nothing is written if there is no
memory for the latter.
-/
theorem sysctl_marshalling_bound (args : Sysctl) (env : Env) (pool : Pool) (ref : MsgRef)
    (haccepted : args.rejected = false) (halloc : env.alloc = some ref)
    (hinitial : (pool ref).Initial ref)
    (hsizes : args.namelen + args.oldlen + args.newlen < sizeMod) :
    (forall w, w ∈ (sysctl args env pool).writes -> w.Inside) <-> args.encodedLen ≤
          max (maxMsgBufSize - sizeofMsg) (args.namelen + args.oldlen + args.newlen) ∨
        (maxMsgBufSize - sizeofMsg < args.namelen + args.oldlen + args.newlen ∧
          env.extra = none) := by
  rw [sysctl_writes_inside_iff args env pool ref haccepted halloc hinitial]
  unfold Sysctl.Fits Sysctl.OutOfMemory Sysctl.totalLen
  rw [Nat.mod_eq_of_lt hsizes]

/-- Reading a value of 4096 bytes: the request fits the message. -/
theorem sysctl_marshalling_bound_page : (⟨4, true, some 4096, false, 0⟩ : Sysctl).rejected = false ∧
      forall w, w ∈ (sysctl ⟨4, true, some 4096, false, 0⟩ ⟨some 0, none, .reply 0 0⟩
        fun ref => ⟨.unknown, 0, maxMsgBufSize - sizeofMsg, ref + sizeofMsg, .blank⟩).writes ->
          w.Inside :=
  ⟨rfl, (sysctl_marshalling_bound ⟨4, true, some 4096, false, 0⟩ ⟨some 0, none, .reply 0 0⟩ _ 0
    rfl rfl ⟨rfl, rfl⟩ (by decide)).mpr (Or.inl (by decide))⟩

/--
With an old value of 10108 bytes the decision counts 4 + 10108 bytes, which is the size
of the buffer, but the name takes 16 bytes and the old length another 8.
-/
theorem sysctl_marshalling_overrun :
    exists w, w ∈ (sysctl ⟨4, true, some 10108, false, 0⟩ ⟨some 0, none, .reply 0 0⟩
      fun ref => ⟨.unknown, 0, maxMsgBufSize - sizeofMsg, ref + sizeofMsg, .blank⟩).writes ∧
        ¬ w.Inside := by
  refine ⟨⟨elementBuffer 0, ⟨152, 10108⟩⟩, ?_, ?_⟩
  · decide
  · decide

/-!
## Sequences of requests
-/

inductive Request where
  | sysctl (args : Sysctl)
  | ioctlVa (args : Ioctl)
  | rtioctl (args : Rtioctl)

def perform (inet6 : Bool) (env : Env) (pool : Pool) : Request -> Effect
  | .sysctl args => sysctl args env pool
  | .ioctlVa args => ioctlVa inet6 args env pool
  | .rtioctl args => rtioctl args env pool

def performAll (inet6 : Bool) : List (Request × Env) -> Pool -> Pool × List Write
  | [], pool => (pool, [])
  | (request, env) :: rest, pool =>
      let effect := perform inet6 env pool request
      let after := performAll inet6 rest effect.pool
      (after.1, effect.writes ++ after.2)

/-- The pool that `rte_mempool_create` fills with `ff_msg_init`. -/
def initialPool (junk : Pool) : Pool :=
  fun ref => ffMsgInit maxMsgBufSize ref (junk ref)

theorem initialPool_initial (junk : Pool) : (initialPool junk).Initial :=
  fun ref => ffMsgInit_initial ref (junk ref)

/--
A request that does not move the buffer of a message of the initial pool: it is
refused before it copies anything, it copies nothing, or it is a `sysctl` whose
request fits.
-/
def Harmless (inet6 : Bool) (env : Env) : Request -> Prop
  | .sysctl args =>
      args.rejected = true ∨ env.alloc = none ∨ args.Fits ∨ args.OutOfMemory env
  | .ioctlVa args =>
      args.badArgc ∨ args.badCommand ∨ env.alloc = none ∨
        maxMsgBufSize - sizeofMsg < args.size ∨ args.msgType inet6 = none
  | .rtioctl args => env.alloc = none ∨ args.len = 0 ∨ maxMsgBufSize - sizeofMsg < args.len

/-!
## One request

The buffer of a message never moves back, and its length never changes.
-/

def Advanced (pool pool' : Pool) : Prop :=
  forall ref, (pool ref).bufAddr ≤ (pool' ref).bufAddr ∧ (pool' ref).bufLen = (pool ref).bufLen

theorem Advanced.refl (pool : Pool) : Advanced pool pool :=
  fun _ => ⟨Nat.le_refl _, rfl⟩

variable {pool pool' : Pool} {msg : Msg} {ref : MsgRef} {env : Env} {inet6 : Bool}

theorem Advanced.trans {pool'' : Pool} (h : Advanced pool pool') (h' : Advanced pool' pool'') :
    Advanced pool pool'' :=
  fun ref => ⟨Nat.le_trans (h ref).1 (h' ref).1, (h' ref).2.trans (h ref).2⟩

theorem Pool.forall_set (P : MsgRef -> Msg -> Prop) (hset : P ref msg)
    (hothers : forall ref', ref' ≠ ref -> P ref' (pool ref')) :
    forall ref', P ref' (pool.set ref msg ref') :=
  (Function.forall_update_iff pool P).mpr ⟨hset, hothers⟩

theorem Advanced.set (haddr : (pool ref).bufAddr ≤ msg.bufAddr)
    (hlen : msg.bufLen = (pool ref).bufLen) : Advanced pool (pool.set ref msg) :=
  Pool.forall_set (fun ref' m => (pool ref').bufAddr ≤ m.bufAddr ∧ m.bufLen = (pool ref').bufLen)
    ⟨haddr, hlen⟩ fun _ _ => ⟨Nat.le_refl _, rfl⟩

theorem Advanced.initial {mid final : Pool} (hinit : pool.Initial) (h : Advanced pool mid)
    (h' : Advanced mid final) (hfinal : final.Initial) : mid.Initial := by
  intro ref
  constructor
  · apply Nat.le_antisymm
    · exact Nat.le_trans (h' ref).1 (Nat.le_of_eq (hfinal ref).1)
    · exact Nat.le_trans (Nat.le_of_eq (hinit ref).1.symm) (h ref).1
  · exact (h ref).2.trans (hinit ref).2

theorem Pool.Initial.set_iff (hinit : pool.Initial) :
    (pool.set ref msg).Initial <-> msg.Initial ref := by
  constructor
  · intro h
    have hself := h ref
    rwa [Pool.set, Function.update_self] at hself
  · intro h
    exact Pool.forall_set (fun ref' m => m.Initial ref') h fun ref' _ => hinit ref'

def Pool.NonNull (pool : Pool) : Prop :=
  forall ref, (pool ref).bufAddr ≠ 0

theorem Pool.Initial.nonNull (h : pool.Initial) : pool.NonNull := by
  intro ref hzero
  have haddr : (pool ref).bufAddr = ref + 128 := (h ref).1
  omega

theorem Advanced.nonNull (h : Advanced pool pool') (hpos : pool.NonNull) : pool'.NonNull := by
  intro ref hzero
  have hle := (h ref).1
  rw [hzero] at hle
  exact hpos ref (Nat.le_zero.mp hle)

def SameBuffers (pool pool' : Pool) : Prop :=
  forall ref, (pool' ref).bufAddr = (pool ref).bufAddr ∧ (pool' ref).bufLen = (pool ref).bufLen

theorem SameBuffers.refl (pool : Pool) : SameBuffers pool pool :=
  fun _ => ⟨rfl, rfl⟩

theorem SameBuffers.set (haddr : msg.bufAddr = (pool ref).bufAddr)
    (hlen : msg.bufLen = (pool ref).bufLen) : SameBuffers pool (pool.set ref msg) :=
  Pool.forall_set (fun ref' m => m.bufAddr = (pool ref').bufAddr ∧ m.bufLen = (pool ref').bufLen)
    ⟨haddr, hlen⟩ fun _ _ => ⟨rfl, rfl⟩

theorem SameBuffers.advanced (h : SameBuffers pool pool') : Advanced pool pool' :=
  fun ref => ⟨Nat.le_of_eq (h ref).1.symm, (h ref).2⟩

theorem SameBuffers.initial (h : SameBuffers pool pool') (hinit : pool.Initial) : pool'.Initial :=
  fun ref => ⟨(h ref).1.trans (hinit ref).1, (h ref).2.trans (hinit ref).2⟩

theorem sysctl_sameBuffers {args : Sysctl} (hpos : pool.NonNull) :
    SameBuffers pool (sysctl args env pool).pool := by
  unfold sysctl
  split
  · exact SameBuffers.refl pool
  · split
    · exact SameBuffers.refl pool
    · rename_i ref _
      dsimp only
      split
      · split
        · exact SameBuffers.refl pool
        · apply SameBuffers.set
          · simp [restoreBuffer, hpos ref]
          · simp [restoreBuffer, hpos ref]
      · apply SameBuffers.set
        · simp
        · simp

theorem ioctlVa_advanced {args : Ioctl} : Advanced pool (ioctlVa inet6 args env pool).pool := by
  unfold ioctlVa
  split
  · exact Advanced.refl pool
  · split
    · exact Advanced.refl pool
    · split
      · exact Advanced.refl pool
      · dsimp only
        split
        · exact Advanced.refl pool
        · split
          · exact Advanced.refl pool
          · split
            · exact Advanced.set (Nat.le_add_right _ _) rfl
            · apply Advanced.set
              · simp
              · simp

theorem rtioctl_advanced {args : Rtioctl} : Advanced pool (rtioctl args env pool).pool := by
  unfold rtioctl
  split
  · exact Advanced.refl pool
  · dsimp only
    split
    · exact Advanced.refl pool
    · apply Advanced.set
      · simp
      · simp

theorem perform_advanced (request : Request) (hpos : pool.NonNull) :
    Advanced pool (perform inet6 env pool request).pool := by
  cases request with
  | sysctl args => exact (sysctl_sameBuffers hpos).advanced
  | ioctlVa args => exact ioctlVa_advanced
  | rtioctl args => exact rtioctl_advanced

theorem sysctl_harmless_iff {args : Sysctl} (hinit : pool.Initial) :
    ((sysctl args env pool).pool.Initial ∧ forall w, w ∈ (sysctl args env pool).writes -> w.Inside) <->
      Harmless inet6 env (.sysctl args) := by
  have hsame : SameBuffers pool (sysctl args env pool).pool := sysctl_sameBuffers hinit.nonNull
  rw [and_iff_right (hsame.initial hinit)]
  unfold Harmless
  cases hrejected : args.rejected with
  | true => simp [sysctl, hrejected, Effect.refuse]
  | false =>
      cases halloc : env.alloc with
      | none => simp [sysctl, hrejected, halloc, Effect.refuse]
      | some ref =>
          rw [sysctl_writes_inside_iff args env pool ref hrejected halloc (hinit ref)]
          simp [hrejected]

theorem ioctlVa_harmless_iff {args : Ioctl} (hinit : pool.Initial) :
    ((ioctlVa inet6 args env pool).pool.Initial ∧
        forall w, w ∈ (ioctlVa inet6 args env pool).writes -> w.Inside) <->
      Harmless inet6 env (.ioctlVa args) := by
  unfold Harmless
  cases Decidable.em args.badArgc with
  | inl hargc => simp [ioctlVa, hargc, hinit, Effect.refuse]
  | inr hargc =>
      cases Decidable.em args.badCommand with
      | inl hcommand => simp [ioctlVa, hargc, hcommand, hinit]
      | inr hcommand =>
          cases halloc : env.alloc with
          | none => simp [ioctlVa, hargc, hcommand, halloc, hinit, Effect.refuse]
          | some ref =>
              have hroom : (pool ref).bufLen = maxMsgBufSize - sizeofMsg := (hinit ref).2
              by_cases hsize : maxMsgBufSize - sizeofMsg < args.size
              · simp [ioctlVa, hargc, hcommand, halloc, hroom, hsize, hinit, Effect.refuse]
              · cases htype : args.msgType inet6 with
                | none =>
                    simp [ioctlVa, hargc, hcommand, halloc, hroom, hsize, htype, hinit,
                      Effect.refuse]
                | some msgType =>
                    -- The request is accepted, so the buffer moves by the size of the argument.
                    have hpos : args.size ≠ 0 := fun hzero => hcommand (Or.inr (Or.inr (Or.inl hzero)))
                    have hmoved : ¬ (ioctlVa inet6 args env pool).pool.Initial := by
                      intro h
                      have haddr := (h ref).1
                      have hstart := (hinit ref).1
                      simp only [ioctlVa, hargc, hcommand, halloc, hroom, hsize, htype, if_false] at haddr
                      split at haddr
                      · simp [Pool.set] at haddr
                        omega
                      · simp [Pool.set] at haddr
                        omega
                    simp [hargc, hcommand, hsize, hmoved, htype]

theorem rtioctl_harmless_iff {args : Rtioctl} (hinit : pool.Initial) :
    ((rtioctl args env pool).pool.Initial ∧ forall w, w ∈ (rtioctl args env pool).writes -> w.Inside) <->
      Harmless inet6 env (.rtioctl args) := by
  unfold Harmless
  cases halloc : env.alloc with
  | none => simp [rtioctl, halloc, hinit, Effect.refuse]
  | some ref =>
      rcases hinit ref with ⟨haddr, hroom⟩
      rw [elementBuffer_len] at hroom
      by_cases hlong : maxMsgBufSize - sizeofMsg < args.len
      · simp [rtioctl, halloc, hroom, hlong, hinit, Effect.refuse]
      · have hinside : (⟨elementBuffer ref, ⟨(elementBuffer ref).start, args.len⟩⟩ : Write).Inside :=
          Foundation.Span.within_of_le (Nat.le_refl _)
            (Nat.add_le_add_left (Nat.le_of_not_lt hlong) _)
        simp [rtioctl, halloc, hroom, hlong, hinit.set_iff, Msg.Initial, writesTo, hinside, haddr]

theorem perform_harmless_iff (request : Request) (hinit : pool.Initial) :
    ((perform inet6 env pool request).pool.Initial ∧
        forall w, w ∈ (perform inet6 env pool request).writes -> w.Inside) <->
      Harmless inet6 env request := by
  cases request with
  | sysctl args => exact sysctl_harmless_iff hinit
  | ioctlVa args => exact ioctlVa_harmless_iff hinit
  | rtioctl args => exact rtioctl_harmless_iff hinit

/-!
## Whole sequences
-/

theorem performAll_advanced (requests : List (Request × Env)) (hpos : pool.NonNull) :
    Advanced pool (performAll inet6 requests pool).1 := by
  induction requests generalizing pool with
  | nil => exact Advanced.refl pool
  | cons request rest ih =>
      have hfirst : Advanced pool (perform inet6 request.2 pool request.1).pool :=
        perform_advanced request.1 hpos
      exact hfirst.trans (ih (hfirst.nonNull hpos))

theorem performAll_harmless_iff (requests : List (Request × Env)) (hinit : pool.Initial) :
    ((performAll inet6 requests pool).1.Initial ∧
        forall w, w ∈ (performAll inet6 requests pool).2 -> w.Inside) <->
      forall r, r ∈ requests -> Harmless inet6 r.2 r.1 := by
  induction requests generalizing pool with
  | nil => simp [performAll, hinit]
  | cons request rest ih =>
      rcases request with ⟨request, env⟩
      have hone : Advanced pool (perform inet6 env pool request).pool :=
        perform_advanced request hinit.nonNull
      have hrest : Advanced (perform inet6 env pool request).pool
          (performAll inet6 rest (perform inet6 env pool request).pool).1 :=
        performAll_advanced rest (hone.nonNull hinit.nonNull)
      rw [List.forall_mem_cons, ← perform_harmless_iff request hinit]
      simp only [performAll, List.mem_append, or_imp, forall_and]
      constructor
      · rintro ⟨hfinal, hwrites, hlater⟩
        have hmid := Advanced.initial hinit hone hrest hfinal
        exact ⟨⟨hmid, hwrites⟩, (ih hmid).mp ⟨hfinal, hlater⟩⟩
      · rintro ⟨⟨hmid, hwrites⟩, hharmless⟩
        rcases (ih hmid).mpr hharmless with ⟨hfinal, hlater⟩
        exact ⟨hfinal, hwrites, hlater⟩

/--
After a sequence of completed requests every message of the pool has the buffer that
`ff_msg_init` gave it, and every request has written inside its buffer, if and only
if each request of the sequence is harmless.
-/
theorem message_pool_invariant (inet6 : Bool) (requests : List (Request × Env)) (junk : Pool) :
    ((performAll inet6 requests (initialPool junk)).1.Initial ∧
        forall w, w ∈ (performAll inet6 requests (initialPool junk)).2 -> w.Inside) <->
      forall r, r ∈ requests -> Harmless inet6 r.2 r.1 :=
  performAll_harmless_iff requests (initialPool_initial junk)

/-- One `ioctl_va` with an argument of 32 bytes (`SIOCGIFFLAGS`) leaves the buffer 32 bytes further. -/
theorem message_pool_invariant_fails_ioctl : ¬ (performAll true
        [(.ioctlVa ⟨0xc0206911, 0, 0, 0, 0⟩, ⟨some 0, none, .reply 0 0⟩)]
        (initialPool fun _ => ⟨.unknown, 0, 0, 0, .blank⟩)).1.Initial := by
  intro h
  have haddr := (h 0).1
  revert haddr
  decide

end Marshal
end FStackLite
