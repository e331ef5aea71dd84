import DecoyAuth.Crypto.ConstTime
import DecoyAuth.Sae.Commit

/-!
# Hunting and pecking without branches

`sae_derive_pwe_ecc` and `sae_derive_pwe_ffc` do not branch on what depends on the password: a byte `found` of all ones or
all zeros selects the password, the candidate and the parity of the seed byte by byte. Here are the functions as they are
written, with their masks, buffers and counters of one byte, and what copying does to a buffer. `BranchFreeEcc.lean` and
`BranchFreeFfc.lean` compare them with the loops of `Pwe.lean`, which branch.
-/

namespace DecoyAuth.BranchFree

/-- `os_memcpy` into a buffer. -/
def memcpy (buf : Bytes) (dst : ℕ) (bs : Bytes) : Bytes := buf.take dst ++ bs ++ buf.drop (dst + bs.length)

/-! ## ECC groups -/

section Ecc

variable (H : HashFns) (ec : EcParams)

/-- `sae_test_pwd_seed_ecc` with the bytes of the prime. -/
def saeTestPwdSeedEcc (pwdSeed prime : Bytes) (qr qnr : ℤ) (draw : Option ℕ) : Option (Int32 × Bytes) := do
  let pwdValue := pwdValueEcc H ec pwdSeed
  let cmpPrime := constTimeMemcmp pwdValue prime (Bytes.numBytes ec.prime)
  let inRange := constTimeFillMsb cmpPrime.toUInt32
  let res ← dragonflyIsQuadraticResidueBlind ec.prime qr qnr (computeYSqr ec (Bytes.ofBe pwdValue)) draw
  return (constTimeSelectInt inRange (if res then 1 else 0) 0, pwdValue)

/-- The variables of the loop of `sae_derive_pwe_ecc`. -/
structure Search where
  found : UInt8
  xBin : Bytes
  pwdSeedOdd : UInt8

/-- One iteration of the loop of `sae_derive_pwe_ecc`. -/
def pweIteration (addrs password prime : Bytes) (qr qnr : ℤ) (draws : PweDraws) (counter : UInt8) (st : Search) :
    Option Search := do
  let tmpPassword := constTimeSelectBin st.found draws.stubPassword password
  let seed := H.hmac 32 addrs (tmpPassword ++ [counter])
  let (res, xCandBin) ← saeTestPwdSeedEcc H ec seed prime qr qnr (draws.blind counter.toNat)
  return {
    found := st.found ||| (res * 0xff).toUInt32.toUInt8
    xBin := constTimeSelectBin st.found st.xBin xCandBin
    pwdSeedOdd := constTimeSelectU8 st.found st.pwdSeedOdd (seed.getD 31 0 &&& 1) }

/-- The loop; the counter is a byte. -/
def pweLoop (k : UInt8) (addrs password prime : Bytes) (qr qnr : ℤ) (draws : PweDraws) :
    ℕ → UInt8 → Search → Option Search
  | 0, _, st => some st
  | fuel + 1, counter, st =>
    if counter ≤ k ∨ st.found = 0 then
      if counter > 200 then some st
      else do
        let st ← pweIteration H ec addrs password prime qr qnr draws counter st
        pweLoop k addrs password prime qr qnr draws fuel (counter + 1) st
    else some st

/-- The end of `sae_derive_pwe_ecc` in its buffer `x_y`, with what is on the stack there. Both ordinates are written to it,
one of them is copied behind the place of the abscissa, and then the abscissa over the first. -/
def pweFromSearch (xY : Bytes) (st : Search) : Option EcPoint := do
  if st.found = 0 then none
  else
    let primeLen := Bytes.numBytes ec.prime
    let y ← dragonflySqrt ec.prime (computeYSqr ec (Bytes.ofBe st.xBin))
    let xY := memcpy xY 0 (← bnToBin y primeLen)
    let xY := memcpy xY saeMaxEccPrimeLen (← bnToBin (ec.prime - y) primeLen)
    let isEq := constTimeEq st.pwdSeedOdd.toUInt32 (xY.getD (primeLen - 1) 0 &&& 1).toUInt32
    let xY := constTimeSelectBinWithin isEq.toUInt8 0 saeMaxEccPrimeLen primeLen primeLen 0 xY
    pointFromBin ec (memcpy xY 0 st.xBin)

/-- `sae_derive_pwe_ecc` -/
def saeDerivePweEcc (group : ℕ) (addr1 addr2 : MacAddr) (password : Bytes) (draws : PweDraws) (xY : Bytes) :
    Option EcPoint := do
  let (qr, qnr) ← dragonflyGetRandomQrQnr ec.prime draws.qrQnr none none
  let prime := Bytes.toBe (Bytes.numBytes ec.prime) ec.prime
  let st ← pweLoop H ec (UInt8.ofNat (dragonflyMinPweLoopIter group)) (saePwdSeedKey addr1 addr2) password prime qr qnr
    draws 201 1 ⟨0, List.replicate (Bytes.numBytes ec.prime) 0, 0⟩
  pweFromSearch ec xY st

end Ecc

/-! ## FFC groups -/

section Ffc

variable (H : HashFns) (dh : DhGroup)

/-- `sae_test_pwd_seed_ffc` -/
def saeTestPwdSeedFfc (pwdSeed : Bytes) : UInt8 × ℤ :=
  let prime := Bytes.ofBe dh.prime
  let pwdValue := H.prfBits 32 pwdSeed (ascii "SAE Hunting and Pecking") dh.prime (dh.prime.length * 8)
  let res := constTimeMemcmp pwdValue dh.prime dh.prime.length
  let pwdValueValid := (constTimeFillMsb res.toUInt32).toUInt8
  let pwdValue := pwdValue.set 0 (constTimeSelectU8 pwdValueValid (pwdValue.getD 0 0) 0)
  let exp := if dh.safePrime then 2 else (prime - 1) / Bytes.ofBe dh.order
  let pwe := bnModExp (Bytes.ofBe pwdValue) exp prime
  let res := constTimeSelectU8 pwdValueValid 1 0
  let res := constTimeSelectU8 (constTimeIsZero (bnIs 0 pwe)).toUInt8 res 0
  let res := constTimeSelectU8 (constTimeIsZero (bnIs 1 pwe)).toUInt8 res 0
  (res, pwe)

/-- The variables of the loop of `sae_derive_pwe_ffc`: the selected element is in the first half of `pwe_buf`, and the
candidate in the second. -/
structure SearchFfc where
  found : UInt8
  pweBuf : Bytes
  selCounter : UInt8

/-- One iteration of the loop of `sae_derive_pwe_ffc`, or `none` where it breaks off. -/
def pweIterationFfc (addrs password : Bytes) (counter : UInt8) (st : SearchFfc) : Option SearchFfc := do
  let primeLen := dh.prime.length
  let (res, pwe) := saeTestPwdSeedFfc H dh (H.hmac 32 addrs (password ++ [counter]))
  let pweBuf := memcpy st.pweBuf primeLen (← bnToBin pwe primeLen)
  let mask := constTimeEqU8 res.toUInt32 1
  return {
    found := constTimeSelectU8 st.found st.found mask
    pweBuf := constTimeSelectBinWithin st.found 0 primeLen 0 primeLen 0 pweBuf
    selCounter := constTimeSelectU8 st.found st.selCounter counter }

def pweLoopFfc (k : UInt8) (addrs password : Bytes) : ℕ → UInt8 → SearchFfc → SearchFfc
  | 0, _, st => st
  | fuel + 1, counter, st =>
    if counter ≤ k ∨ st.found = 0 then
      if counter > 200 then st
      else
        match pweIterationFfc H dh addrs password counter st with
        | none => st
        | some st => pweLoopFfc k addrs password fuel (counter + 1) st
    else st

/-- `sae_derive_pwe_ffc` -/
def saeDerivePweFfc (group : ℕ) (addr1 addr2 : MacAddr) (password : Bytes) : Option ℤ :=
  let primeLen := dh.prime.length
  let st := pweLoopFfc H dh (UInt8.ofNat (dragonflyMinPweLoopIter group)) (saePwdSeedKey addr1 addr2) password 201 1
    ⟨0, List.replicate (primeLen * 2) 0, 0⟩
  if st.found = 0 then none else some (Bytes.ofBe (st.pweBuf.take primeLen))

end Ffc

/-! ## Buffers and bytes -/

theorem mask8_eq_zero {c : Bool} : mask8 c = 0 ↔ c = false := by cases c <;> decide

theorem length_memcpy {buf bs : Bytes} {dst : ℕ} (h : dst + bs.length ≤ buf.length) :
    (memcpy buf dst bs).length = buf.length := by
  simp only [memcpy, List.length_append, List.length_take, List.length_drop]
  omega

/-- What was copied. -/
theorem memcpy_slice (buf bs : Bytes) {dst : ℕ} (h : dst ≤ buf.length) :
    ((memcpy buf dst bs).drop dst).take bs.length = bs := by
  have hlen : (buf.take dst).length = dst := List.length_take_of_le h
  rw [memcpy, List.append_assoc, List.drop_append_of_le_length hlen.ge, List.drop_of_length_le hlen.le, List.nil_append,
    List.take_append_of_le_length le_rfl, List.take_length]

/-- Bytes before the copy are not touched. -/
theorem memcpy_slice_before (buf bs : Bytes) {src dst len : ℕ} (h : src + len ≤ dst) (hdst : dst ≤ buf.length) :
    ((memcpy buf dst bs).drop src).take len = (buf.drop src).take len := by
  have hlen : (buf.take dst).length = dst := List.length_take_of_le hdst
  rw [memcpy, List.append_assoc, List.drop_append_of_le_length (by omega), List.take_append_of_le_length
    (by rw [List.length_drop]; omega), List.drop_take, List.take_take, Nat.min_eq_left (by omega)]

/-- Nor are those behind it. -/
theorem memcpy_drop (buf : Bytes) {bs : Bytes} {n : ℕ} (h : bs.length = n) : (memcpy buf 0 bs).drop n = buf.drop n := by
  rw [memcpy, List.take_zero, List.nil_append, Nat.zero_add, ← h, List.drop_left]

theorem bnToBin_of_lt {a : ℤ} {n : ℕ} (h : a < 256 ^ n) : bnToBin a n = some (Bytes.toBe n a.toNat) := if_pos h

theorem memcpy_zero_take (buf bs : Bytes) : (memcpy buf 0 bs).take bs.length = bs := by
  have h := memcpy_slice buf bs (Nat.zero_le _)
  rwa [List.drop_zero] at h

theorem memcpy_take_before (buf bs : Bytes) {dst len : ℕ} (h : len ≤ dst) (hdst : dst ≤ buf.length) :
    (memcpy buf dst bs).take len = buf.take len := by
  have hslice := memcpy_slice_before buf bs (show 0 + len ≤ dst by omega) hdst
  rwa [List.drop_zero, List.drop_zero] at hslice

/-- The last byte of a big-endian integer has its parity. -/
theorem toBe_last (len n : ℕ) : ((Bytes.toBe (len + 1) n).getD len 0 &&& 1).toUInt32 = UInt32.ofNat (n % 2) := by
  have hget : (Bytes.toBe (len + 1) n).getD len 0 = UInt8.ofNat (n % 256) := by
    rw [Bytes.toBe, List.getD_eq_getElem?_getD, List.getElem?_append_right (Bytes.length_toBe len _).le,
      Bytes.length_toBe, Nat.sub_self]
    rfl
  rw [hget]
  apply UInt32.toNat_inj.1
  rw [UInt8.toNat_toUInt32, UInt8.toNat_and, UInt8.toNat_ofNat', UInt8.toNat_one, Nat.and_one_is_mod,
    UInt32.toNat_ofNat']
  omega

theorem and_one_eq (b : UInt8) : b &&& 1 = if b.toNat % 2 = 1 then 1 else 0 := by
  apply UInt8.toNat_inj.1
  rw [UInt8.toNat_and, UInt8.toNat_one, Nat.and_one_is_mod]
  split
  · next h => rw [h, UInt8.toNat_one]
  · next h => rw [UInt8.toNat_zero]; omega

/-! The counter of a loop is a byte that does not wrap around. -/

theorem ofNat_le_iff {n k : ℕ} (hk : k < 256) (hn : n < 256) : UInt8.ofNat n ≤ UInt8.ofNat k ↔ n ≤ k := by
  rw [UInt8.le_iff_toNat_le, UInt8.toNat_ofNat', UInt8.toNat_ofNat']
  omega

theorem gt_200_iff {n : ℕ} (hn : n < 256) : UInt8.ofNat n > 200 ↔ 200 < n := by
  rw [gt_iff_lt, UInt8.lt_iff_toNat_lt, UInt8.toNat_ofNat']
  simp only [UInt8.reduceToNat]
  omega

theorem ofNat_succ (n : ℕ) : UInt8.ofNat n + 1 = UInt8.ofNat (n + 1) := by
  rw [UInt8.ofNat_add]
  rfl

theorem dragonflySqrt_range {p : ℕ} (hp : 0 < p) {v y : ℤ} (h : dragonflySqrt p v = some y) : 0 ≤ y ∧ y < p := by
  unfold dragonflySqrt at h
  split at h
  · cases h
    exact bnModExp_range (by omega) _ _
  · cases h

theorem dragonflyMinPweLoopIter_le (group : ℕ) : dragonflyMinPweLoopIter group ≤ 40 := by
  unfold dragonflyMinPweLoopIter
  split
  · exact le_rfl
  · split <;> omega

end DecoyAuth.BranchFree
