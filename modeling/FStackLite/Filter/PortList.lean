import FStackLite.Filter.Protocol
import FStackLite.Config.Text

/-!
# The ports of the kernel interface

`kni_set_bitmap` reads a list of ports and of ranges of ports into a bitmap, in which the
transport filters look up the destination ports of packets.  The bits are numbered by the
ports in the byte order of the network.
-/

namespace FStackLite
namespace Filter

open Foundation (Bytes Span Traced)
open Dispatch (FilterReturn)
open Config (Text isdigit isspace decimal atoi)

/-!
## The bitmap
-/

def htons (port : UInt16) : UInt16 :=
  UInt16.ofNat (port.toNat % 256 * 256 + port.toNat / 256)

def setBitmap (port : UInt16) (bitmap : Bytes) : Bytes :=
  fun k =>
    if k = (htons port).toNat / 8 then
      bitmap k ||| magicBits ((htons port).toNat % 8)
    else
      bitmap k

def strchr (c : Char) (s : Text) : Option Nat :=
  s.findIdx? (· == c)

/-- The numbers of a loop from `lo` to `hi`. -/
def loopTo (lo hi : Int) : List Int :=
  (List.range (hi + 1 - lo).toNat).map fun (k : Nat) => lo + k

theorem mem_loopTo {i first last : Int} : i ∈ loopTo first last <-> first ≤ i ∧ i ≤ last := by
  simp only [loopTo, List.mem_map, List.mem_range]
  constructor
  · rintro ⟨k, hk, rfl⟩
    omega
  · rintro ⟨hfirst, hlast⟩
    exact ⟨(i - first).toNat, by omega, by omega⟩

theorem strchr_lt {c : Char} {s : Text} {i : Nat} (h : strchr c s = some i) : i < s.length := by
  rcases List.findIdx?_eq_some_iff_getElem.mp h with ⟨hlt, _⟩
  exact hlt

/-!
## The numbers of a list
-/

/-- The place of the dash, if the item that `head` starts with is taken for a range. -/
def rangeDash (head : Text) : Option Nat :=
  match strchr '-' head with
  | none => none
  | some tailNum =>
      if (strchr ',' head).all fun comma => tailNum + 1 < comma then some tailNum else none

def libcAtoi (s : Text) : Int32 :=
  Int32.ofInt (Config.atoi s)

theorem libcAtoi_toInt (s : Text) : (libcAtoi s).toInt = Config.atoi s := by
  rw [libcAtoi, Int32.toInt_ofInt, Config.atoi, Config.toInt]
  exact Int.bmod_bmod

section

variable (atoi : Text -> Int32)

def rangeFirst (head : Text) : Int :=
  (atoi head).toInt

def rangeLast (head : Text) (tailNum : Nat) : Int :=
  (atoi (head.drop (tailNum + 1))).toInt

/-- The numbers of the item that `head` starts with. -/
def itemNumbers (head : Text) : List Int :=
  match rangeDash head with
  | some tailNum => loopTo (rangeFirst atoi head) (rangeLast atoi head tailNum)
  | none => [rangeFirst atoi head]

/-- The rest of the list from each of its items on. -/
def portHeads (head : Text) : List Text :=
  match _h : strchr ',' head with
  | none => [head]
  | some tail => head :: portHeads (head.drop (tail + 1))
termination_by head.length
decreasing_by
  have hlt := strchr_lt _h
  rw [List.length_drop]
  omega

/-- The numbers that `set_bitmap` is called with, in this order. -/
def listNumbers (head : Text) : List Int :=
  (portHeads head).flatMap (itemNumbers atoi)

variable {head : Text}

theorem portHeads_none (h : strchr ',' head = none) : portHeads head = [head] := by
  rw [portHeads]
  split
  · rfl
  · next tail htail =>
      rw [h] at htail
      contradiction

theorem portHeads_some {tail : Nat} (h : strchr ',' head = some tail) :
    portHeads head = head :: portHeads (head.drop (tail + 1)) := by
  rw [portHeads]
  split
  · next hnone =>
      rw [h] at hnone
      contradiction
  · next tail' htail =>
      rw [h] at htail
      injection htail with htail
      rw [htail]

theorem listNumbers_none (h : strchr ',' head = none) :
    listNumbers atoi head = itemNumbers atoi head := by
  rw [listNumbers, portHeads_none h, List.flatMap_singleton]

theorem listNumbers_some {tail : Nat} (h : strchr ',' head = some tail) :
    listNumbers atoi head = itemNumbers atoi head ++ listNumbers atoi (head.drop (tail + 1)) := by
  rw [listNumbers, portHeads_some h, List.flatMap_cons, listNumbers]

end

def kniSetBitmap (p : Option Text) (portBitmap : Bytes) : Bytes :=
  match p with
  | none => portBitmap
  | some head =>
      (listNumbers libcAtoi head).foldl (fun bitmap i => setBitmap (UInt16.ofInt i) bitmap)
        portBitmap

/-- The bitmaps that `ff_kni_init` makes of the two lists of ports. -/
def Setup.kniInit (setup : Setup) (tcpPorts udpPorts : Option Text) : Setup :=
  { setup with
    tcpPortBitmap := kniSetBitmap tcpPorts fun _ => 0
    udpPortBitmap := kniSetBitmap udpPorts fun _ => 0 }

/-!
## Bits
-/

theorem magicBits_and : forall i j : Fin 8, magicBits i.val &&& magicBits j.val = 0 <-> i ≠ j := by
  decide

theorem htons_toNat (port : UInt16) :
    (htons port).toNat = port.toNat % 256 * 256 + port.toNat / 256 := by
  have hlt : port.toNat < 65536 := port.toNat_lt
  rw [htons, UInt16.toNat_ofNat']
  exact Nat.mod_eq_of_lt (by omega)

theorem htons_inj {port q : UInt16} (h : htons port = htons q) : port = q := by
  have hbytes := congrArg UInt16.toNat h
  rw [htons_toNat, htons_toNat] at hbytes
  have hport : port.toNat < 65536 := port.toNat_lt
  have hq : q.toNat < 65536 := q.toNat_lt
  exact UInt16.toNat_inj.mp (by omega)

theorem getBitmap_setBitmap (port q : UInt16) (bitmap : Bytes) :
    getBitmap (htons q) (setBitmap port bitmap) = true <->
      q = port ∨ getBitmap (htons q) bitmap = true := by
  have hplace : q = port <-> (htons q).toNat / 8 = (htons port).toNat / 8 ∧
      (htons port).toNat % 8 = (htons q).toNat % 8 := by
    constructor
    · rintro rfl
      exact ⟨rfl, rfl⟩
    · rintro ⟨hbyte, hbit⟩
      exact htons_inj (UInt16.toNat_inj.mp (by omega))
  have hmask : magicBits ((htons port).toNat % 8) &&& magicBits ((htons q).toNat % 8) = 0 <->
      (htons port).toNat % 8 ≠ (htons q).toNat % 8 := by
    have hand := magicBits_and ⟨(htons port).toNat % 8, by omega⟩ ⟨(htons q).toNat % 8, by omega⟩
    rwa [ne_eq, Fin.mk.injEq] at hand
  have hor : forall a b c : UInt8, (a ||| b) &&& c = (a &&& c) ||| (b &&& c) := by
    intro a b c
    exact UInt8.toBitVec_inj.mp BitVec.and_or_distrib_right
  rw [hplace]
  simp only [getBitmap, setBitmap, bne_iff_ne]
  by_cases hbyte : (htons q).toNat / 8 = (htons port).toNat / 8
  · rw [if_pos hbyte, hor, ne_eq, UInt8.or_eq_zero_iff, hmask]
    simp only [hbyte, true_and, ne_eq, not_and, Decidable.not_not]
    exact Decidable.imp_iff_not_or.trans or_comm
  · simp [hbyte]

/-- The bits that are set, after a number of calls of `set_bitmap`. -/
theorem getBitmap_foldl (ports : List Int) (q : UInt16) (bitmap : Bytes) :
    getBitmap (htons q) (ports.foldl (fun bitmap i => setBitmap (UInt16.ofInt i) bitmap) bitmap) =
        true <->
      (exists i, i ∈ ports ∧ q = UInt16.ofInt i) ∨ getBitmap (htons q) bitmap = true := by
  induction ports generalizing bitmap with
  | nil => simp
  | cons i ports ih =>
      rw [List.foldl_cons, ih, getBitmap_setBitmap]
      simp only [List.mem_cons, exists_eq_or_imp, or_assoc]
      exact or_left_comm

theorem getBitmap_zero (port : UInt16) : getBitmap port (fun _ => 0) = false := by
  simp [getBitmap]

theorem dstPort_eq (data : Bytes) (off : Nat) : dstPort data off = htons (be16 data (off + 2)) := by
  have hfirst : (data (off + 2)).toNat < 256 := (data (off + 2)).toNat_lt
  have hsecond : (data (off + 2 + 1)).toNat < 256 := (data (off + 2 + 1)).toNat_lt
  have hnetwork : (be16 data (off + 2)).toNat =
      (data (off + 2)).toNat * 256 + (data (off + 2 + 1)).toNat := by
    rw [be16, UInt16.toNat_ofNat']
    exact Nat.mod_eq_of_lt (by omega)
  have hhost : (dstPort data off).toNat =
      (data (off + 2)).toNat + 256 * (data (off + 2 + 1)).toNat := by
    rw [dstPort, Bytes.num_two, UInt16.toNat_ofNat']
    exact Nat.mod_eq_of_lt (by omega)
  apply UInt16.toNat_inj.mp
  rw [htons_toNat, hnetwork, hhost]
  omega

/-!
## Lists of ports
-/

structure PortText where
  text : Text
  nonempty : text ≠ []
  digits : forall c, c ∈ text -> isdigit c = true
  small : decimal text ≤ 65535

def PortText.port (a : PortText) : Nat :=
  decimal a.text

inductive PortItem where
  | port (a : PortText)
  | range (a b : PortText)

def PortItem.text : PortItem -> Text
  | .port a => a.text
  | .range a b => a.text ++ '-' :: b.text

def PortItem.Lists (p : Nat) : PortItem -> Prop
  | .port a => p = a.port
  | .range a b => a.port ≤ p ∧ p ≤ b.port

def portListText (first : PortItem) : List PortItem -> Text
  | [] => first.text
  | item :: rest => first.text ++ ',' :: portListText item rest

section

variable {rest : Text} {c : Char}

theorem isdigit_first (h : isdigit c = true) : isspace c = false ∧ c ≠ '-' ∧ c ≠ '+' := by
  refine ⟨?_, ?_, ?_⟩
  · apply Bool.eq_false_iff.mpr
    intro hspace
    simp only [isspace, Bool.or_eq_true, beq_iff_eq] at hspace
    rcases hspace with ((((hc | hc) | hc) | hc) | hc) | hc
    all_goals
      rw [hc] at h
      contradiction
  · rintro rfl
    contradiction
  · rintro rfl
    contradiction

theorem sign_digit (h : isdigit c = true) (s : Text) : Config.sign (c :: s) = (1, c :: s) := by
  rcases isdigit_first h with ⟨_, hminus, hplus⟩
  unfold Config.sign
  split
  · next heq =>
      injection heq with hc _
      exact absurd hc hminus
  · next heq =>
      injection heq with hc _
      exact absurd hc hplus
  · rfl

/-- What `atoi` makes of digits, as far as they go. -/
theorem atoi_port (a : PortText) (hrest : forall c, rest.head? = some c -> isdigit c = false) :
    atoi (a.text ++ rest) = a.port := by
  have hsmall := a.small
  rcases List.exists_cons_of_ne_nil a.nonempty with ⟨c, cs, htext⟩
  have hc : isdigit c = true := a.digits c (by simp [htext])
  have hskip : (a.text ++ rest).dropWhile isspace = a.text ++ rest := by
    rw [htext, List.cons_append, List.dropWhile_cons_of_neg (by simp [(isdigit_first hc).1])]
  have hsign : Config.sign (a.text ++ rest) = (1, a.text ++ rest) := by
    rw [htext, List.cons_append]
    exact sign_digit hc _
  have hstop : rest.takeWhile isdigit = [] := by
    cases rest with
    | nil => rfl
    | cons c rest => rw [List.takeWhile_cons_of_neg (by simp [hrest c rfl])]
  have hdigits : (a.text ++ rest).takeWhile isdigit = a.text := by
    rw [List.takeWhile_append_of_pos a.digits, hstop, List.append_nil]
  have hnumber : Config.number (a.text ++ rest) =
      some ((decimal a.text : Int), (a.text ++ rest).dropWhile isdigit) := by
    simp only [Config.number, hskip, hsign, hdigits]
    split
    · next hnil =>
        exact absurd hnil a.nonempty
    · rw [one_mul, min_eq_right (by omega), max_eq_right (by omega)]
  rw [atoi, Config.strtol, hnumber]
  simp only [Option.getD_some, Config.toInt, PortText.port]
  exact Int.bmod_eq_of_le (by omega) (by omega)

theorem strchr_append {s : Text} (h : c ∉ s) :
    strchr c (s ++ rest) = (strchr c rest).map (· + s.length) := by
  have hnone : s.findIdx? (· == c) = none := by
    rw [List.findIdx?_eq_none_iff]
    intro x hx
    simp only [beq_eq_false_iff_ne]
    rintro rfl
    exact h hx
  rw [strchr, strchr, List.findIdx?_append, hnone]
  rfl

theorem PortText.not_mem (a : PortText) (h : isdigit c = false) : c ∉ a.text := by
  intro hmem
  rw [a.digits c hmem] at h
  contradiction

theorem PortItem.comma_not_mem (item : PortItem) : ',' ∉ item.text := by
  cases item with
  | port a => exact a.not_mem (by decide)
  | range a b =>
      simp only [PortItem.text, List.mem_append, List.mem_cons, not_or]
      exact ⟨a.not_mem (by decide), by decide, b.not_mem (by decide)⟩

end

def PortItem.ports : PortItem -> List Int
  | .port a => [(a.port : Int)]
  | .range a b => loopTo a.port b.port

theorem dash_not_digit {rest : Text} :
    forall c, ('-' :: rest).head? = some c -> isdigit c = false := by
  intro c hc
  injection hc with hc
  rw [<- hc]
  decide

/-- An item is read as it is written, in front of a comma or of the end of the list. -/
theorem itemNumbers_item (item : PortItem) {rest : Text}
    (hrest : forall c, rest.head? = some c -> c = ',') :
    itemNumbers libcAtoi (item.text ++ rest) = item.ports := by
  have hstop : forall c, rest.head? = some c -> isdigit c = false := by
    intro c hc
    rw [hrest c hc]
    decide
  have hcomma : rest = [] ∨ strchr ',' rest = some 0 := by
    cases rest with
    | nil => exact .inl rfl
    | cons c rest =>
        rw [hrest c rfl]
        exact .inr (by simp [strchr, List.findIdx?_cons])
  cases item with
  | port a =>
      have hdash : rangeDash (a.text ++ rest) = none := by
        rw [rangeDash, strchr_append (a.not_mem (by decide)), strchr_append (a.not_mem (by decide))]
        rcases hcomma with rfl | hcomma
        · rfl
        · rw [hcomma]
          cases strchr '-' rest with
          | none => rfl
          | some k =>
              simp
              omega
      simp only [itemNumbers, PortItem.text, hdash, rangeFirst, libcAtoi_toInt, atoi_port a hstop,
        PortItem.ports]
  | range a b =>
      have hfirst : strchr '-' (a.text ++ '-' :: (b.text ++ rest)) = some a.text.length := by
        rw [strchr_append (a.not_mem (by decide))]
        simp [strchr, List.findIdx?_cons]
      have hb := List.length_pos_iff.mpr b.nonempty
      have hdash : rangeDash (a.text ++ '-' :: (b.text ++ rest)) = some a.text.length := by
        have hitem := (PortItem.range a b).comma_not_mem
        have hwhole : a.text ++ '-' :: (b.text ++ rest) = (PortItem.range a b).text ++ rest := by
          simp [PortItem.text]
        rw [rangeDash, hfirst, hwhole, strchr_append hitem]
        rcases hcomma with rfl | hcomma
        · rfl
        · simp [hcomma, PortItem.text, hb]
      have hdrop : (a.text ++ '-' :: (b.text ++ rest)).drop (a.text.length + 1) = b.text ++ rest := by
        simp
      simp only [itemNumbers, PortItem.text, List.append_assoc, List.cons_append, hdash, rangeFirst,
        rangeLast, hdrop, libcAtoi_toInt, atoi_port a dash_not_digit, atoi_port b hstop,
        PortItem.ports]

theorem listNumbers_text (first : PortItem) (rest : List PortItem) :
    listNumbers libcAtoi (portListText first rest) = (first :: rest).flatMap PortItem.ports := by
  induction rest generalizing first with
  | nil =>
      have hcomma : strchr ',' first.text = none := by
        rw [<- List.append_nil first.text, strchr_append first.comma_not_mem]
        rfl
      have hitem := @itemNumbers_item first [] (by simp)
      rw [List.append_nil] at hitem
      rw [portListText, listNumbers_none _ hcomma, hitem, List.flatMap_singleton]
  | cons item rest ih =>
      have hcomma : strchr ',' (first.text ++ ',' :: portListText item rest) =
          some first.text.length := by
        rw [strchr_append first.comma_not_mem]
        simp [strchr, List.findIdx?_cons]
      have hdrop : (first.text ++ ',' :: portListText item rest).drop (first.text.length + 1) =
          portListText item rest := by
        simp
      have hitem := @itemNumbers_item first (',' :: portListText item rest) (by simp)
      rw [portListText, listNumbers_some _ hcomma, hdrop, hitem, ih]
      rfl

theorem PortItem.mem_ports (item : PortItem) (i : Int) :
    i ∈ item.ports <-> exists p : Nat, i = p ∧ item.Lists p := by
  cases item with
  | port a => simp [PortItem.ports, PortItem.Lists]
  | range a b =>
      simp only [PortItem.ports, PortItem.Lists, mem_loopTo]
      constructor
      · intro hi
        exact ⟨i.toNat, by omega, by omega, by omega⟩
      · rintro ⟨p, rfl, hlo, hhi⟩
        exact ⟨Int.ofNat_le.mpr hlo, Int.ofNat_le.mpr hhi⟩

/-- `set_bitmap` takes its port from an `int`. -/
theorem ofInt_port {p : Nat} (h : p ≤ 65535) : (UInt16.ofInt (p : Int)).toNat = p := by
  have hmod : ((p : Int) % 2 ^ 16).toNat = p := by omega
  rw [UInt16.ofInt, hmod, UInt16.toNat_ofNat']
  exact Nat.mod_eq_of_lt (by omega)

theorem PortItem.Lists.small {item : PortItem} {p : Nat} (h : item.Lists p) : p ≤ 65535 := by
  cases item with
  | port a => exact h ▸ a.small
  | range a b => exact Nat.le_trans h.2 b.small

theorem getBitmap_kniSetBitmap (first : PortItem) (rest : List PortItem) (q : UInt16) :
    getBitmap (htons q) (kniSetBitmap (some (portListText first rest)) fun _ => 0) = true <->
      exists item, item ∈ first :: rest ∧ item.Lists q.toNat := by
  rw [kniSetBitmap, getBitmap_foldl, listNumbers_text, getBitmap_zero]
  simp only [List.mem_flatMap, PortItem.mem_ports, Bool.false_eq_true, or_false]
  constructor
  · rintro ⟨i, ⟨item, hitem, p, rfl, hp⟩, rfl⟩
    refine ⟨item, hitem, ?_⟩
    rwa [ofInt_port hp.small]
  · rintro ⟨item, hitem, hp⟩
    refine ⟨(q.toNat : Int), ⟨item, hitem, q.toNat, rfl, hp⟩, ?_⟩
    exact UInt16.toNat_inj.mp (ofInt_port hp.small).symm

/-- A filter that takes the header takes its port for one of the kernel's as the list says. -/
theorem filterPorts_list (first : PortItem) (rest : List PortItem) {hdrSize : Nat} (data : Bytes)
    (off : Nat) {len : UInt16} (hlen : hdrSize ≤ len.toNat) :
    (filterPorts hdrSize (kniSetBitmap (some (portListText first rest)) fun _ => 0) data off
        len).result = .kni <->
      exists item, item ∈ first :: rest ∧ item.Lists (be16 data (off + 2)).toNat := by
  rw [<- getBitmap_kniSetBitmap, <- dstPort_eq, filterPorts, if_neg (Nat.not_lt.mpr hlen),
    protocolFilterL4]
  cases getBitmap (dstPort data off) _ with
  | true => simp
  | false => simp

section

variable (setup : Setup) (first : PortItem) (rest : List PortItem) (others : Option Text)
variable (data : Bytes) (off : Nat) (len port : UInt16)

theorem kni_port_list_exact (hport : be16 data (off + 2) = port) : (20 ≤ len.toNat ->
      ((protocolFilterTcp (setup.kniInit (some (portListText first rest)) others) data off
          len).result = .kni <-> exists item, item ∈ first :: rest ∧ item.Lists port.toNat)) ∧
    (8 ≤ len.toNat ->
      ((protocolFilterUdp (setup.kniInit others (some (portListText first rest))) data off
          len).result = .kni <-> exists item, item ∈ first :: rest ∧ item.Lists port.toNat)) := by
  rw [<- hport]
  exact ⟨filterPorts_list first rest data off, filterPorts_list first rest data off⟩

end

def dnsPort : PortItem :=
  .port ⟨['5', '3'], by simp, by simp [isdigit], by decide⟩

def webPorts : PortItem :=
  .range ⟨['8', '0'], by simp, by simp [isdigit], by decide⟩
    ⟨['4', '4', '3'], by simp, by simp [isdigit], by decide⟩

/-- The list `53,80-443`, and a header with the destination port 100. -/
theorem kni_port_list_exact_range : exists (setup : Setup) (data : Bytes),
      portListText dnsPort [webPorts] = "53,80-443".toList ∧ be16 data (0 + 2) = 100 ∧
      (protocolFilterTcp (setup.kniInit (some (portListText dnsPort [webPorts])) none) data 0
        20).result = .kni ∧
      (protocolFilterUdp (setup.kniInit none (some (portListText dnsPort [webPorts]))) data 0
        8).result = .kni := by
  have hlist : exists item, item ∈ [dnsPort, webPorts] ∧ item.Lists 100 :=
    ⟨webPorts, by simp, by decide, by decide⟩
  refine ⟨⟨true, true, true, fun _ => 0, fun _ => 0⟩, fun k => if k = 3 then 100 else 0,
    by decide, by decide, ?_, ?_⟩
  · exact ((kni_port_list_exact _ _ _ none _ 0 20 100 (by decide)).1 (by decide)).mpr hlist
  · exact ((kni_port_list_exact _ _ _ none _ 0 8 100 (by decide)).2 (by decide)).mpr hlist

end Filter
end FStackLite
