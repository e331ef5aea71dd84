import Mathlib.Data.List.Induction
import Mathlib.Data.Nat.Log
import Mathlib.Tactic.Ring
import Mathlib.Tactic.Linarith

/-!
# Integers as bytes

Big-endian integers of a given width (`toBe`, `ofBe`), little-endian 16-bit integers and 32-bit integers in the byte
order of a host, with their round trips.
-/

namespace DecoyAuth

abbrev Bytes := List UInt8

namespace Bytes

/-! ## Big-endian integers -/

def ofBe (bs : Bytes) : ℕ := bs.foldl (fun n b => n * 256 + b.toNat) 0

def toBe : ℕ → ℕ → Bytes
  | 0, _ => []
  | len + 1, n => toBe len (n / 256) ++ [UInt8.ofNat (n % 256)]

@[simp] theorem length_toBe : ∀ len n, (toBe len n).length = len
  | 0, _ => rfl
  | len + 1, n => by simp [toBe, length_toBe len]

@[simp] theorem ofBe_nil : ofBe [] = 0 := rfl

theorem ofBe_append_singleton (bs : Bytes) (b : UInt8) : ofBe (bs ++ [b]) = ofBe bs * 256 + b.toNat := by
  simp [ofBe]

theorem ofBe_lt (bs : Bytes) : ofBe bs < 256 ^ bs.length := by
  induction bs using List.reverseRecOn with
  | nil => exact Nat.one_pos
  | append_singleton bs b ih =>
    have hb := b.toNat_lt
    rw [ofBe_append_singleton, List.length_append, List.length_singleton, pow_succ]
    omega

theorem ofBe_toBe : ∀ {len n : ℕ}, n < 256 ^ len → ofBe (toBe len n) = n
  | 0, n, h => by
    obtain rfl : n = 0 := by simpa using h
    rfl
  | len + 1, n, h => by
    have hdiv : n / 256 < 256 ^ len := by
      rw [pow_succ] at h
      exact Nat.div_lt_of_lt_mul (by linarith)
    rw [toBe, ofBe_append_singleton, ofBe_toBe hdiv, UInt8.toNat_ofNat']
    omega

theorem toBe_ofBe (bs : Bytes) : toBe bs.length (ofBe bs) = bs := by
  induction bs using List.reverseRecOn with
  | nil => rfl
  | append_singleton bs b ih =>
    have hb := b.toNat_lt
    rw [List.length_append, List.length_singleton, toBe, ofBe_append_singleton]
    have hdiv : (ofBe bs * 256 + b.toNat) / 256 = ofBe bs := by omega
    have hmod : (ofBe bs * 256 + b.toNat) % 256 = b.toNat := by omega
    rw [hdiv, hmod, ih, UInt8.ofNat_toNat]

theorem ofBe_inj {bs bs' : Bytes} (hlen : bs.length = bs'.length) (h : ofBe bs = ofBe bs') : bs = bs' := by
  rw [← toBe_ofBe bs, ← toBe_ofBe bs', hlen, h]

/-- The number of bytes of an integer. -/
def numBytes (n : ℕ) : ℕ := if n = 0 then 0 else n.log2 / 8 + 1

theorem lt_pow_numBytes (n : ℕ) : n < 256 ^ numBytes n := by
  unfold numBytes
  split
  · simp_all
  · rw [show (256 : ℕ) = 2 ^ 8 from rfl, ← pow_mul]
    refine Nat.lt_log2_self.trans_le (Nat.pow_le_pow_right (by norm_num) ?_)
    omega

theorem numBytes_pos {n : ℕ} (h : 0 < n) : 0 < numBytes n := by
  rw [numBytes, if_neg h.ne']
  exact Nat.succ_pos _

/-! ## Little-endian 16-bit integers -/

def le16 (n : ℕ) : Bytes := [UInt8.ofNat n, UInt8.ofNat (n / 256)]

/-- The 16-bit integer at the start of a byte string; missing bytes count as zero. -/
def getLe16 (bs : Bytes) : ℕ := (bs.getD 0 0).toNat + 256 * (bs.getD 1 0).toNat

@[simp] theorem length_le16 (n : ℕ) : (le16 n).length = 2 := rfl

theorem getLe16_le16_append {n : ℕ} (h : n < 2 ^ 16) (bs : Bytes) : getLe16 (le16 n ++ bs) = n := by
  simp only [le16, getLe16, List.cons_append, List.getD_cons_zero, List.getD_cons_succ, UInt8.toNat_ofNat']
  omega

/-! ## 32-bit integers of a host -/

inductive ByteOrder
  | little
  | big
deriving DecidableEq, Repr

/-- The bytes of a host in the order of their significance, and back. -/
def hostOrder : ByteOrder → Bytes → Bytes
  | .little, bs => bs.reverse
  | .big, bs => bs

@[simp] theorem length_hostOrder (e : ByteOrder) (bs : Bytes) : (hostOrder e bs).length = bs.length := by
  cases e <;> simp [hostOrder]

@[simp] theorem hostOrder_hostOrder (e : ByteOrder) (bs : Bytes) : hostOrder e (hostOrder e bs) = bs := by
  cases e <;> simp [hostOrder]

/-- The object representation of a 32-bit two's complement integer. -/
def ofInt32 (e : ByteOrder) (n : ℤ) : Bytes := hostOrder e (toBe 4 (n % 2 ^ 32).toNat)

/-- The value of a 32-bit pattern in two's complement. -/
def signed32 (n : ℕ) : ℤ := if n < 2 ^ 31 then n else n - 2 ^ 32

/-- The 32-bit two's complement integer with the object representation `bs`. -/
def toInt32 (e : ByteOrder) (bs : Bytes) : ℤ := signed32 (ofBe (hostOrder e bs))

@[simp] theorem length_ofInt32 (e : ByteOrder) (n : ℤ) : (ofInt32 e n).length = 4 := by simp [ofInt32]

theorem emod_toNat_lt (n : ℤ) : (n % 2 ^ 32).toNat < 256 ^ 4 := by
  rw [show (256 : ℕ) ^ 4 = 4294967296 by norm_num]
  omega

theorem signed32_emod {n : ℤ} (h : -2 ^ 31 ≤ n) (h' : n < 2 ^ 31) : signed32 (n % 2 ^ 32).toNat = n := by
  unfold signed32
  split <;> omega

theorem toInt32_lt (e : ByteOrder) {bs : Bytes} (h : bs.length ≤ 4) : toInt32 e bs < 2 ^ 31 := by
  have hlt := ofBe_lt (hostOrder e bs)
  have hpow : 256 ^ (hostOrder e bs).length ≤ 256 ^ 4 := Nat.pow_le_pow_right (by omega) (by rwa [length_hostOrder])
  rw [show (256 : ℕ) ^ 4 = 4294967296 by norm_num] at hpow
  unfold toInt32 signed32
  split <;> omega

theorem toInt32_ofInt32 (e : ByteOrder) {n : ℤ} (h : -2 ^ 31 ≤ n) (h' : n < 2 ^ 31) :
    toInt32 e (ofInt32 e n) = n := by
  rw [toInt32, ofInt32, hostOrder_hostOrder, ofBe_toBe (emod_toNat_lt n), signed32_emod h h']

/-- A host of the other byte order does not read a small positive integer as one. -/
theorem signed32_swapped {n : ℕ} (h0 : 0 < n) (h : n < 2 ^ 16) :
    signed32 (ofBe (toBe 4 n).reverse) < 1 ∨ 2 ^ 16 ≤ signed32 (ofBe (toBe 4 n).reverse) := by
  have hhigh : n / 256 / 256 = 0 := by omega
  have hbe : ofBe (toBe 4 n).reverse = n % 256 * 2 ^ 24 + n / 256 * 2 ^ 16 := by
    simp only [toBe, ofBe, hhigh, List.nil_append, List.cons_append, List.reverse_cons, List.reverse_nil,
      List.foldl_cons, List.foldl_nil, UInt8.toNat_ofNat']
    omega
  rw [hbe]
  unfold signed32
  split <;> omega

/-- What two hosts both read as a small positive integer they read alike. -/
theorem toInt32_ofInt32_of_lt {e e' : ByteOrder} {n : ℕ} (h0 : 0 < n) (h : n < 2 ^ 16)
    (h1 : 1 ≤ toInt32 e' (ofInt32 e n)) (h2 : toInt32 e' (ofInt32 e n) < 2 ^ 16) : toInt32 e' (ofInt32 e n) = n := by
  by_cases he : e' = e
  · subst he
    exact toInt32_ofInt32 e' (by omega) (by omega)
  · have hn : ((n : ℤ) % 2 ^ 32).toNat = n := by omega
    have hs := signed32_swapped h0 h
    cases e <;> cases e' <;> simp only [toInt32, ofInt32, hostOrder, hn, not_true_eq_false] at h1 h2 he
    all_goals omega

end Bytes

end DecoyAuth
