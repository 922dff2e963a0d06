import FStackLite.Foundation.Toeplitz

/-!
# The software hash

`toeplitz_hash` walks over the bytes of the data, most significant bit first, and keeps
the current window of the key in a word that it shifts along.
-/

namespace FStackLite
namespace Rss

open Foundation

/-- The bit that `1 << (7 - b)` selects. -/
def bitOf (x : UInt8) (b : Nat) : Bool :=
  x.toNat.testBit (7 - b)

structure HashState where
  hash : BitVec 32
  v : BitVec 32

/--
The body of the inner loop, for the byte `x` of the data at the place `i`.  The place in the
key is an unsigned number of 32 bits.
-/
def hashBit (key : List UInt8) (x : UInt8) (i b : Nat) (s : HashState) : HashState :=
  { hash := if bitOf x b then s.hash ^^^ s.v else s.hash
    v :=
      if (i + 4) % 2 ^ 32 < key.length && bitOf (key.getD ((i + 4) % 2 ^ 32) 0) b then
        s.v <<< 1 ||| 1#32
      else
        s.v <<< 1 }

/-- The inner loop, with `k` bits left. -/
def hashBits (key : List UInt8) (x : UInt8) (i : Nat) : Nat -> Nat -> HashState -> HashState
  | 0, _, s => s
  | k + 1, b, s => hashBits key x i k (b + 1) (hashBit key x i b s)

def hashBytes (key : List UInt8) : List UInt8 -> Nat -> HashState -> HashState
  | [], _, s => s
  | x :: data, i, s => hashBytes key data (i + 1) (hashBits key x i 8 0 s)

/-- `(key[0]<<24) + (key[1]<<16) + (key[2] <<8) + key[3]` -/
def firstWord (key : List UInt8) : BitVec 32 :=
  (BitVec.ofNat 32 (key.getD 0 0).toNat <<< 24) + (BitVec.ofNat 32 (key.getD 1 0).toNat <<< 16) +
    (BitVec.ofNat 32 (key.getD 2 0).toNat <<< 8) + BitVec.ofNat 32 (key.getD 3 0).toNat

def toeplitzHash (key data : List UInt8) : BitVec 32 :=
  (hashBytes key data 0 ⟨0#32, firstWord key⟩).hash

/-!
## It computes the Toeplitz hash
-/

/-- The bits of a key, most significant bit of each byte first, with zeros behind them. -/
def keyBit (key : List UInt8) (n : Nat) : Bool :=
  n / 8 < key.length && bitOf (key.getD (n / 8) 0) (n % 8)

/-- The bits of a byte from the bit `b` on. -/
def bitsFrom (x : UInt8) : Nat -> Nat -> List Bool
  | 0, _ => []
  | k + 1, b => bitOf x b :: bitsFrom x k (b + 1)

theorem length_bitsFrom (x : UInt8) (k b : Nat) : (bitsFrom x k b).length = k := by
  induction k generalizing b with
  | zero => rfl
  | succ k ih => rw [bitsFrom, List.length_cons, ih]

def dataBits (data : List UInt8) : List Bool :=
  data.flatMap fun x => bitsFrom x 8 0

def toeplitz (key data : List UInt8) : BitVec 32 :=
  Toeplitz.hash (keyBit key) 32 0 (dataBits data)

/-- The key bits that the code reads: after 2^35 bits it starts with the key again. -/
def wrappedBit (key : List UInt8) (n : Nat) : Bool :=
  keyBit key (n % 2 ^ 35)

theorem wrappedBit_of_lt {b : Nat} (key : List UInt8) (i : Nat) (hb : b < 8) :
    wrappedBit key (8 * i + b + 32) =
      (decide ((i + 4) % 2 ^ 32 < key.length) && bitOf (key.getD ((i + 4) % 2 ^ 32) 0) b) := by
  have hdiv : (8 * i + b + 32) % 2 ^ 35 / 8 = (i + 4) % 2 ^ 32 := by omega
  have hmod : (8 * i + b + 32) % 2 ^ 35 % 8 = b := by omega
  rw [wrappedBit, keyBit, hdiv, hmod]

theorem hashBit_window (key : List UInt8) (x : UInt8) (i : Nat) {b : Nat} (hb : b < 8)
    (h : BitVec 32) : hashBit key x i b ⟨h, Toeplitz.window (wrappedBit key) (8 * i + b) 32⟩ =
      ⟨h ^^^ (if bitOf x b then Toeplitz.window (wrappedBit key) (8 * i + b) 32 else 0#32),
        Toeplitz.window (wrappedBit key) (8 * i + b + 1) 32⟩ := by
  have hnext := Toeplitz.shiftIn_window (wrappedBit key) (8 * i + b) 32
  rw [wrappedBit_of_lt key i hb, Toeplitz.shiftIn] at hnext
  unfold hashBit
  rw [hnext]
  congr 1
  split
  · rfl
  · exact (BitVec.xor_zero).symm

theorem hashBits_window (key : List UInt8) (x : UInt8) (i k b : Nat) (hkb : k + b = 8)
    (h : BitVec 32) : hashBits key x i k b ⟨h, Toeplitz.window (wrappedBit key) (8 * i + b) 32⟩ =
      ⟨h ^^^ Toeplitz.hash (wrappedBit key) 32 (8 * i + b) (bitsFrom x k b),
        Toeplitz.window (wrappedBit key) (8 * i + 8) 32⟩ := by
  induction k generalizing b h with
  | zero =>
      rw [Nat.zero_add] at hkb
      simp [hashBits, bitsFrom, Toeplitz.hash, hkb]
  | succ k ih =>
      rw [hashBits, hashBit_window key x i (by omega), Nat.add_assoc (8 * i) b 1,
        ih (b + 1) (by omega), bitsFrom, Toeplitz.hash, BitVec.xor_assoc, Nat.add_assoc (8 * i) b 1]

theorem hashBytes_window (key data : List UInt8) (i : Nat) (h : BitVec 32) :
    (hashBytes key data i ⟨h, Toeplitz.window (wrappedBit key) (8 * i) 32⟩).hash =
      h ^^^ Toeplitz.hash (wrappedBit key) 32 (8 * i) (dataBits data) := by
  induction data generalizing i h with
  | nil => simp [hashBytes, dataBits, Toeplitz.hash]
  | cons x data ih =>
      have hbyte := hashBits_window key x i 8 0 rfl h
      rw [Nat.add_zero] at hbyte
      have hbits : dataBits (x :: data) = bitsFrom x 8 0 ++ dataBits data := rfl
      rw [hashBytes, hbyte, show 8 * i + 8 = 8 * (i + 1) by omega, ih, hbits,
        Toeplitz.hash_append, length_bitsFrom, BitVec.xor_assoc,
        show 8 * i + 8 = 8 * (i + 1) by omega]

/-!
## The first window
-/

theorem toNat_window_succ (key : Nat -> Bool) (n w : Nat) : (Toeplitz.window key n (w + 1)).toNat =
      2 * (Toeplitz.window key n w).toNat + (key (n + w)).toNat := by
  rw [Toeplitz.window, BitVec.toNat_concat]
  omega

theorem div_two_pow_eq (n k m : Nat) (hm : m = k + 1) :
    n / 2 ^ k = 2 * (n / 2 ^ m) + (n.testBit k).toNat := by
  have hhalf : n / 2 ^ m = n / 2 ^ k / 2 := by
    rw [hm, Nat.pow_succ, Nat.div_div_eq_div_mul]
  rw [hhalf, Nat.toNat_testBit]
  exact (Nat.div_add_mod _ 2).symm

theorem toNat_eq_bits (x : UInt8) :
    x.toNat = 2 * (2 * (2 * (2 * (2 * (2 * (2 * (bitOf x 0).toNat + (bitOf x 1).toNat) +
      (bitOf x 2).toNat) + (bitOf x 3).toNat) + (bitOf x 4).toNat) + (bitOf x 5).toNat) +
      (bitOf x 6).toNat) + (bitOf x 7).toNat := by
  have htop : x.toNat / 2 ^ 8 = 0 := Nat.div_eq_of_lt x.toNat_lt
  have hall : x.toNat / 2 ^ 0 = x.toNat := by
    rw [Nat.pow_zero, Nat.div_one]
  rw [<- hall, div_two_pow_eq _ 0 1 rfl, div_two_pow_eq _ 1 2 rfl, div_two_pow_eq _ 2 3 rfl,
    div_two_pow_eq _ 3 4 rfl, div_two_pow_eq _ 4 5 rfl, div_two_pow_eq _ 5 6 rfl,
    div_two_pow_eq _ 6 7 rfl, div_two_pow_eq _ 7 8 rfl, htop, Nat.mul_zero, Nat.zero_add]
  rfl

variable {key data : List UInt8}

theorem toNat_window_byte {k : Nat} (hk : k < key.length) (w : Nat) (hw : w = 8 * k) :
    (Toeplitz.window (keyBit key) 0 (w + 8)).toNat =
      256 * (Toeplitz.window (keyBit key) 0 w).toNat + (key.getD k 0).toNat := by
  have hbit : forall b, b < 8 -> keyBit key (0 + (w + b)) = bitOf (key.getD k 0) b := by
    intro b hb
    have hdiv : (0 + (w + b)) / 8 = k := by omega
    have hmod : (0 + (w + b)) % 8 = b := by omega
    rw [keyBit, hdiv, hmod, decide_eq_true hk, Bool.true_and]
  have hbyte := toNat_eq_bits (key.getD k 0)
  rw [toNat_window_succ, toNat_window_succ, toNat_window_succ, toNat_window_succ,
    toNat_window_succ, toNat_window_succ, toNat_window_succ, toNat_window_succ,
    hbit 7 (by omega), hbit 6 (by omega), hbit 5 (by omega), hbit 4 (by omega),
    hbit 3 (by omega), hbit 2 (by omega), hbit 1 (by omega)]
  have hfirst := hbit 0 (by omega)
  rw [Nat.add_zero] at hfirst
  rw [hfirst]
  omega

theorem firstWord_eq (hkey : 4 ≤ key.length) :
    firstWord key = Toeplitz.window (keyBit key) 0 32 := by
  have h0 := toNat_window_byte (show 0 < key.length by omega) 0 rfl
  have h1 := toNat_window_byte (show 1 < key.length by omega) 8 rfl
  have h2 := toNat_window_byte (show 2 < key.length by omega) 16 rfl
  have h3 := toNat_window_byte (show 3 < key.length by omega) 24 rfl
  have hempty : (Toeplitz.window (keyBit key) 0 0).toNat = 0 := rfl
  apply BitVec.eq_of_toNat_eq
  rw [h3, h2, h1, h0, hempty]
  have hlt0 := (key.getD 0 0).toNat_lt
  have hlt1 := (key.getD 1 0).toNat_lt
  have hlt2 := (key.getD 2 0).toNat_lt
  have hlt3 := (key.getD 3 0).toNat_lt
  simp only [firstWord, BitVec.toNat_add, BitVec.toNat_shiftLeft, BitVec.toNat_ofNat,
    Nat.shiftLeft_eq]
  omega

theorem toeplitzHash_wrapped (hkey : 4 ≤ key.length) (data : List UInt8) :
    toeplitzHash key data = Toeplitz.hash (wrappedBit key) 32 0 (dataBits data) := by
  have hrun := hashBytes_window key data 0 0#32
  have hfirst : firstWord key = Toeplitz.window (wrappedBit key) 0 32 := by
    rw [firstWord_eq hkey]
    apply Toeplitz.window_congr
    intro k _ hk
    rw [wrappedBit, Nat.mod_eq_of_lt (by omega)]
  rw [Nat.mul_zero, BitVec.zero_xor] at hrun
  rw [toeplitzHash, hfirst, hrun]

theorem length_dataBits (data : List UInt8) : (dataBits data).length = 8 * data.length := by
  induction data with
  | nil => rfl
  | cons x data ih =>
      rw [dataBits, List.flatMap_cons, List.length_append, length_bitsFrom, List.length_cons]
      rw [dataBits] at ih
      omega

/-- The code computes the Toeplitz hash of data whose windows end before the key starts again. -/
theorem toeplitzHash_eq (hkey : 4 ≤ key.length) (hdata : data.length ≤ 2 ^ 32 - 4) :
    toeplitzHash key data = toeplitz key data := by
  rw [toeplitzHash_wrapped hkey, toeplitz]
  apply Toeplitz.hash_congr
  intro k _ hk
  rw [length_dataBits] at hk
  rw [wrappedBit, Nat.mod_eq_of_lt (by omega)]

/-!
## Linearity
-/

theorem bitOf_xor (x y : UInt8) (b : Nat) : bitOf (x ^^^ y) b = (bitOf x b ^^ bitOf y b) := by
  rw [bitOf, UInt8.toNat_xor, Nat.testBit_xor]
  rfl

theorem bitsFrom_xor (x y : UInt8) (k b : Nat) :
    bitsFrom (x ^^^ y) k b = List.zipWith Bool.xor (bitsFrom x k b) (bitsFrom y k b) := by
  induction k generalizing b with
  | zero => rfl
  | succ k ih =>
      rw [bitsFrom, bitsFrom, bitsFrom, List.zipWith_cons_cons, bitOf_xor, ih]

theorem dataBits_zipWith {other : List UInt8} (h : data.length = other.length) :
    dataBits (List.zipWith (· ^^^ ·) data other) =
      List.zipWith Bool.xor (dataBits data) (dataBits other) := by
  induction data generalizing other with
  | nil => rfl
  | cons x data ih =>
      cases other with
      | nil => contradiction
      | cons y other =>
          have hrest := ih (Nat.succ.inj h)
          have hlength : (bitsFrom x 8 0).length = (bitsFrom y 8 0).length := by
            rw [length_bitsFrom, length_bitsFrom]
          simp only [dataBits, List.zipWith_cons_cons, List.flatMap_cons] at hrest ⊢
          rw [hrest, bitsFrom_xor, List.zipWith_append hlength]

theorem toeplitzHash_zipWith (hkey : 4 ≤ key.length) {other : List UInt8}
    (h : data.length = other.length) : toeplitzHash key (List.zipWith (· ^^^ ·) data other) =
      toeplitzHash key data ^^^ toeplitzHash key other := by
  have hbits : (dataBits data).length = (dataBits other).length := by
    rw [length_dataBits, length_dataBits, h]
  rw [toeplitzHash_wrapped hkey, toeplitzHash_wrapped hkey, toeplitzHash_wrapped hkey,
    dataBits_zipWith h, Toeplitz.hash_zipWith _ _ _ hbits]

/-!
The code computes the exclusive-or of the windows of the key at the one bits of the data, and so
the hash of an exclusive-or is the exclusive-or of the hashes.  Both callers pass 12 bytes.
-/
theorem toeplitz_hash_exact (key data : List UInt8) (hkey : 4 ≤ key.length)
    (hdata : data.length ≤ 2 ^ 32 - 4) : toeplitzHash key data = toeplitz key data ∧
    forall other : List UInt8, data.length = other.length ->
      toeplitzHash key (List.zipWith (· ^^^ ·) data other) =
        toeplitzHash key data ^^^ toeplitzHash key other :=
  ⟨toeplitzHash_eq hkey hdata, fun _ => toeplitzHash_zipWith hkey⟩

-- the 12 bytes of 192.168.0.1 and 192.168.0.2 with the ports 80 and 1024
theorem toeplitz_hash_exact_tuple :
    toeplitzHash [0x6d, 0x5a, 0x56, 0xda, 0x25] [192, 168, 0, 1, 192, 168, 0, 2, 0, 80, 4, 0] =
        toeplitz [0x6d, 0x5a, 0x56, 0xda, 0x25] [192, 168, 0, 1, 192, 168, 0, 2, 0, 80, 4, 0] ∧
      toeplitzHash [0x6d, 0x5a, 0x56, 0xda, 0x25] [192, 168, 0, 1, 192, 168, 0, 2, 0, 80, 4, 0] ≠
        0#32 :=
  ⟨(toeplitz_hash_exact [0x6d, 0x5a, 0x56, 0xda, 0x25]
    [192, 168, 0, 1, 192, 168, 0, 2, 0, 80, 4, 0] (by decide) (by decide)).1, by decide +kernel⟩

end Rss
end FStackLite
