import DecoyAuth.Lib.Bytes

/-!
# Selection in constant time

The functions of `const_time.h`, on the machine integers of the source: an `unsigned int` is a `UInt32`, an `int` an
`Int32`, and an `u8` a `UInt8`. A mask has all bits set for true and none for false (`mask`, `mask8`). Each function is
an `if` on the condition that its mask stands for, and the comparison of two buffers orders them as big-endian integers
(`constTimeFillMsb_memcmp`).
-/

namespace DecoyAuth

/-! ## The functions -/

def constTimeFillMsb (val : UInt32) : UInt32 := (val >>> 31) * ~~~0

def constTimeIsZero (val : UInt32) : UInt32 := constTimeFillMsb (~~~val &&& (val - 1))

def constTimeEq (a b : UInt32) : UInt32 := constTimeIsZero (a ^^^ b)

def constTimeEqU8 (a b : UInt32) : UInt8 := (constTimeEq a b).toUInt8

def constTimeSelect (mask trueVal falseVal : UInt32) : UInt32 := (mask &&& trueVal) ||| (~~~mask &&& falseVal)

def constTimeSelectInt (mask : UInt32) (trueVal falseVal : Int32) : Int32 :=
  (constTimeSelect mask trueVal.toUInt32 falseVal.toUInt32).toInt32

def constTimeSelectU8 (mask trueVal falseVal : UInt8) : UInt8 :=
  (constTimeSelect mask.toUInt32 trueVal.toUInt32 falseVal.toUInt32).toUInt8

/-- `const_time_select_bin` with a destination that does not overlap the later bytes of its arguments. -/
def constTimeSelectBin (mask : UInt8) (trueVal falseVal : Bytes) : Bytes :=
  List.zipWith (constTimeSelectU8 mask) trueVal falseVal

/-- `const_time_select_bin` on one buffer: from the `i`-th byte on, `len` bytes to go, with the offsets of both values and
of the destination. -/
def constTimeSelectBinWithin (mask : UInt8) (trueAt falseAt dst : ℕ) : ℕ → ℕ → Bytes → Bytes
  | 0, _, buf => buf
  | len + 1, i, buf =>
    constTimeSelectBinWithin mask trueAt falseAt dst len (i + 1)
      (buf.set (dst + i) (constTimeSelectU8 mask (buf.getD (trueAt + i) 0) (buf.getD (falseAt + i) 0)))

/-- `diff` of `const_time_memcmp` at one index. -/
def constTimeDiff (a b : Bytes) (i : ℕ) : Int32 := Int32.ofInt ((a.getD i 0).toNat - (b.getD i 0).toNat)

/-- `res` of `const_time_memcmp` after the byte at one index. -/
def constTimeMemcmpStep (a b : Bytes) (i : ℕ) (res : Int32) : Int32 :=
  let diff := constTimeDiff a b i
  constTimeSelectInt (constTimeIsZero diff.toUInt32) res diff

/-- `const_time_memcmp`, from the last byte to the first. -/
def constTimeMemcmp (a b : Bytes) (len : ℕ) : Int32 := (List.range len).foldr (constTimeMemcmpStep a b) 0

/-- `crypto_bignum_is_zero` and `crypto_bignum_is_one` -/
def bnIs (n a : ℤ) : UInt32 := if a = n then 1 else 0

/-! ## Masks -/

/-- The mask of a condition. -/
def mask (c : Bool) : UInt32 := if c then ~~~0 else 0

/-- The mask of a condition in a byte. -/
def mask8 (c : Bool) : UInt8 := if c then ~~~0 else 0

@[simp] theorem toUInt8_mask (c : Bool) : (mask c).toUInt8 = mask8 c := by cases c <;> rfl

theorem constTimeFillMsb_eq (val : UInt32) : constTimeFillMsb val = mask (decide (2 ^ 31 ≤ val.toNat)) := by
  have hlt := val.toNat_lt
  have hshift : (val >>> 31).toNat = val.toNat / 2 ^ 31 := by
    rw [UInt32.toNat_shiftRight, Nat.shiftRight_eq_div_pow]
    rfl
  by_cases h : 2 ^ 31 ≤ val.toNat
  · have hone : val >>> 31 = 1 := UInt32.toNat_inj.1 (by rw [hshift]; simp; omega)
    rw [constTimeFillMsb, hone, decide_eq_true h]
    rfl
  · have hzero : val >>> 31 = 0 := UInt32.toNat_inj.1 (by rw [hshift]; simp; omega)
    rw [constTimeFillMsb, hzero, decide_eq_false h]
    rfl

/-- Only for zero do both the complement and the predecessor have the high bit. -/
@[simp] theorem constTimeIsZero_eq (val : UInt32) : constTimeIsZero val = mask (decide (val = 0)) := by
  by_cases h : val = 0
  · subst h
    rfl
  · have hlt := val.toNat_lt
    have hpos : 0 < val.toNat := Nat.pos_of_ne_zero fun h0 => h (UInt32.toNat_inj.1 h0)
    have hnot : (~~~val).toNat = 2 ^ 32 - 1 - val.toNat := by rw [UInt32.toNat_not]; rfl
    have hsub : (val - 1).toNat = val.toNat - 1 := by
      rw [UInt32.toNat_sub, show (1 : UInt32).toNat = 1 from rfl]
      omega
    have hand : (~~~val &&& (val - 1)).toNat < 2 ^ 31 := by
      rw [UInt32.toNat_and]
      rcases Nat.lt_or_ge val.toNat (2 ^ 31) with hlow | hhigh
      · exact lt_of_le_of_lt Nat.and_le_right (by omega)
      · exact lt_of_le_of_lt Nat.and_le_left (by omega)
    rw [constTimeIsZero, constTimeFillMsb_eq, decide_eq_false (Nat.not_le.2 hand), decide_eq_false h]

@[simp] theorem constTimeEq_eq (a b : UInt32) : constTimeEq a b = mask (decide (a = b)) := by
  rw [constTimeEq, constTimeIsZero_eq]
  congr 1
  rw [decide_eq_decide, UInt32.xor_eq_zero_iff]

@[simp] theorem constTimeEqU8_eq (a b : UInt32) : constTimeEqU8 a b = mask8 (decide (a = b)) := by
  rw [constTimeEqU8, constTimeEq_eq, toUInt8_mask]

/-! ## Selections -/

@[simp] theorem constTimeSelect_mask (c : Bool) (t f : UInt32) : constTimeSelect (mask c) t f = if c then t else f := by
  cases c <;> simp [constTimeSelect, mask]

@[simp] theorem constTimeSelectInt_mask (c : Bool) (t f : Int32) :
    constTimeSelectInt (mask c) t f = if c then t else f := by
  cases c <;> simp [constTimeSelectInt]

theorem constTimeSelectU8_eq (m t f : UInt8) : constTimeSelectU8 m t f = (m &&& t) ||| (~~~m &&& f) := by
  simp [constTimeSelectU8, constTimeSelect]

@[simp] theorem constTimeSelectU8_mask8 (c : Bool) (t f : UInt8) :
    constTimeSelectU8 (mask8 c) t f = if c then t else f := by
  rw [constTimeSelectU8_eq]
  cases c <;> simp [mask8]

@[simp] theorem constTimeSelectBin_mask8 (c : Bool) {t f : Bytes} (h : t.length = f.length) :
    constTimeSelectBin (mask8 c) t f = if c then t else f := by
  induction t generalizing f with
  | nil =>
    obtain rfl := List.length_eq_zero_iff.1 h.symm
    cases c <;> rfl
  | cons b t ih =>
    cases f with
    | nil => cases h
    | cons b' f =>
      have hlen : t.length = f.length := Nat.succ.inj h
      rw [constTimeSelectBin, List.zipWith_cons_cons, constTimeSelectU8_mask8]
      have := ih hlen
      rw [constTimeSelectBin] at this
      rw [this]
      cases c <;> rfl

@[simp] theorem length_constTimeSelectBinWithin (m : UInt8) (trueAt falseAt dst : ℕ) :
    ∀ (len i : ℕ) (buf : Bytes), (constTimeSelectBinWithin m trueAt falseAt dst len i buf).length = buf.length := by
  intro len
  induction len with
  | zero => intro i buf; rfl
  | succ len ih => intro i buf; rw [constTimeSelectBinWithin, ih, List.length_set]

section Within

variable {c : Bool} {trueAt falseAt dst : ℕ} {buf : Bytes}

/-- A value that ends before the destination or does not start before it is not overwritten before it is read. -/
def ReadsFirst (src dst len : ℕ) : Prop := src + len ≤ dst ∨ dst ≤ src

theorem getElem?_constTimeSelectBinWithin : ∀ {len i : ℕ} {buf : Bytes}, ReadsFirst trueAt dst (i + len) →
    ReadsFirst falseAt dst (i + len) → trueAt + (i + len) ≤ buf.length → falseAt + (i + len) ≤ buf.length →
    dst + (i + len) ≤ buf.length → ∀ j : ℕ,
      (constTimeSelectBinWithin (mask8 c) trueAt falseAt dst len i buf)[dst + j]? =
        if i ≤ j ∧ j < i + len then buf[(if c then trueAt else falseAt) + j]? else buf[dst + j]? := by
  intro len
  induction len with
  | zero =>
    intro i buf _ _ _ _ _ j
    rw [constTimeSelectBinWithin, if_neg (by omega)]
  | succ len ih =>
    intro i buf htrue hfalse hltrue hlfalse hldst j
    have hlen : ∀ (k : ℕ) (b : UInt8), (buf.set k b).length = buf.length := fun k b => List.length_set
    rw [constTimeSelectBinWithin, ih (by unfold ReadsFirst at *; omega) (by unfold ReadsFirst at *; omega)
      (by rw [hlen]; omega) (by rw [hlen]; omega) (by rw [hlen]; omega)]
    have hsel : constTimeSelectU8 (mask8 c) (buf.getD (trueAt + i) 0) (buf.getD (falseAt + i) 0) =
        buf.getD ((if c then trueAt else falseAt) + i) 0 := by
      rw [constTimeSelectU8_mask8]
      cases c <;> rfl
    have hsrc : ReadsFirst (if c then trueAt else falseAt) dst (i + (len + 1)) ∧
        (if c then trueAt else falseAt) + (i + (len + 1)) ≤ buf.length := by
      cases c
      · exact ⟨hfalse, hlfalse⟩
      · exact ⟨htrue, hltrue⟩
    rw [hsel]
    generalize (if c then trueAt else falseAt) = src at hsrc
    obtain ⟨hfirst, hread⟩ := hsrc
    by_cases hj : j = i
    · -- the byte of this round
      subst hj
      rw [if_neg (by omega), if_pos (by omega), List.getElem?_set_self (by omega), List.getD_eq_getElem?_getD,
        List.getElem?_eq_getElem (by omega), Option.getD_some]
    · -- the byte of another round, which this one has not changed
      by_cases hin : i ≤ j ∧ j < i + (len + 1)
      · rw [if_pos (by omega), if_pos hin, List.getElem?_set_ne (by unfold ReadsFirst at hfirst; omega)]
      · rw [if_neg (by omega), if_neg hin, List.getElem?_set_ne (by omega)]

theorem constTimeSelectBinWithin_slice (c : Bool) {len : ℕ} (htrue : ReadsFirst trueAt dst len) (hfalse : ReadsFirst falseAt dst len)
    (hltrue : trueAt + len ≤ buf.length) (hlfalse : falseAt + len ≤ buf.length) (hldst : dst + len ≤ buf.length) :
    ((constTimeSelectBinWithin (mask8 c) trueAt falseAt dst len 0 buf).drop dst).take len =
      (buf.drop (if c then trueAt else falseAt)).take len := by
  rw [← Nat.zero_add len] at htrue hfalse hltrue hlfalse hldst
  have hget := getElem?_constTimeSelectBinWithin (c := c) htrue hfalse hltrue hlfalse hldst
  apply List.ext_getElem?
  intro j
  rw [List.getElem?_take, List.getElem?_take]
  by_cases hj : j < len
  · rw [if_pos hj, if_pos hj, List.getElem?_drop, List.getElem?_drop, hget, if_pos (by omega)]
  · rw [if_neg hj, if_neg hj]

end Within

/-! ## Comparison of buffers -/

theorem toInt_toUInt32_neg (x : Int32) : 2 ^ 31 ≤ x.toUInt32.toNat ↔ x.toInt < 0 := by
  rw [Int32.toInt, BitVec.toInt_neg_iff]
  exact ⟨fun h => by have : x.toBitVec.toNat = x.toUInt32.toNat := rfl; omega,
    fun h => by have : x.toBitVec.toNat = x.toUInt32.toNat := rfl; omega⟩

theorem toUInt32_eq_zero (x : Int32) : x.toUInt32 = 0 ↔ x = 0 :=
  ⟨fun h => by rw [← Int32.toInt32_toUInt32 x, h]; rfl, fun h => by rw [h]; rfl⟩

/-- One round: a difference at this index decides, and otherwise what was found behind it. -/
theorem constTimeMemcmpStep_neg (a b : Bytes) (i : ℕ) (res : Int32) :
    (constTimeMemcmpStep a b i res).toInt < 0 ↔
      (a.getD i 0).toNat < (b.getD i 0).toNat ∨ ((a.getD i 0).toNat = (b.getD i 0).toNat ∧ res.toInt < 0) := by
  have ha := (a.getD i 0).toNat_lt
  have hb := (b.getD i 0).toNat_lt
  have hint : (constTimeDiff a b i).toInt = (a.getD i 0).toNat - (b.getD i 0).toNat :=
    Int32.toInt_ofInt_of_le (by omega) (by omega)
  rw [constTimeMemcmpStep, constTimeIsZero_eq, constTimeSelectInt_mask]
  by_cases hz : constTimeDiff a b i = 0
  · have h0 : (constTimeDiff a b i).toInt = 0 := by rw [hz, Int32.toInt_zero]
    rw [decide_eq_true ((toUInt32_eq_zero _).2 hz), if_pos rfl]
    omega
  · have h0 : (constTimeDiff a b i).toInt ≠ 0 := fun h => hz (Int32.toInt_inj.1 (h.trans Int32.toInt_zero.symm))
    rw [decide_eq_false (mt (toUInt32_eq_zero _).1 hz), if_neg Bool.false_ne_true]
    omega

theorem ofBe_take_succ {bs : Bytes} {len : ℕ} (h : len + 1 ≤ bs.length) :
    Bytes.ofBe (bs.take (len + 1)) = Bytes.ofBe (bs.take len) * 256 + (bs.getD len 0).toNat := by
  rw [List.take_add_one, List.getD_eq_getElem?_getD, List.getElem?_eq_getElem (by omega), Option.toList_some,
    Bytes.ofBe_append_singleton, Option.getD_some]

/-- The comparison so far decides between equal starts, and between different ones their first difference. -/
theorem foldr_constTimeMemcmpStep_neg {a b : Bytes} : ∀ {len : ℕ} (res : Int32), len ≤ a.length → len ≤ b.length →
    (((List.range len).foldr (constTimeMemcmpStep a b) res).toInt < 0 ↔
      Bytes.ofBe (a.take len) < Bytes.ofBe (b.take len) ∨
        (Bytes.ofBe (a.take len) = Bytes.ofBe (b.take len) ∧ res.toInt < 0)) := by
  intro len
  induction len with
  | zero =>
    intro res _ _
    simp
  | succ len ih =>
    intro res ha hb
    have hxa := (a.getD len 0).toNat_lt
    have hxb := (b.getD len 0).toNat_lt
    rw [List.range_succ, List.foldr_append, List.foldr_cons, List.foldr_nil, ih _ (by omega) (by omega),
      constTimeMemcmpStep_neg, ofBe_take_succ ha, ofBe_take_succ hb]
    omega

/-- **The sign of `const_time_memcmp` is the order of big-endian integers**, as a mask. -/
theorem constTimeFillMsb_memcmp {a b : Bytes} (h : a.length = b.length) :
    constTimeFillMsb (constTimeMemcmp a b a.length).toUInt32 = mask (decide (Bytes.ofBe a < Bytes.ofBe b)) := by
  rw [constTimeFillMsb_eq]
  congr 1
  rw [decide_eq_decide, toInt_toUInt32_neg, constTimeMemcmp, foldr_constTimeMemcmpStep_neg 0 le_rfl h.le, List.take_length, h,
    List.take_length]
  simp

end DecoyAuth
