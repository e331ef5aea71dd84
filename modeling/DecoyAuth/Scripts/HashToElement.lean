import DecoyAuth.Sae.Pt

/-!
# The secret element of the Python scripts

`hash_to_element` of `scripts/decoyauth.py` derives the element of a key with HMAC-SHA256, and with one byte less for a
prime of an odd number of bytes than `sae_derive_pt_ecc` does. Both expand a seed to the same bytes (`hkdfExpand_eq`) and
map to the same points if the prime is 3 mod 4, so for such a prime of an even number of bytes, at most 32, the element is
the PT of hostap: **`hash_to_element_agrees`**. An exception of a script is `none`.
-/

namespace DecoyAuth.Scripts

/-! ## The functions -/

section

variable (H : HashFns)

/-- The loop of `hkdf_expand` from the block `i` on, with the blocks so far in `okm`. A block number that is not a byte
cannot be packed. -/
def expandBlocks (prk info : Bytes) : ℕ → ℕ → Bytes → Bytes → Option Bytes
  | 0, _, _, okm => some okm
  | n + 1, i, outputBlock, okm =>
    if i > 255 then none
    else
      let outputBlock := H.hmac 32 prk (outputBlock ++ info ++ [UInt8.ofNat i])
      expandBlocks prk info n (i + 1) outputBlock (okm ++ outputBlock)

/-- `hkdf_expand` with SHA-256. -/
def hkdfExpand (prk info : Bytes) (length : ℕ) : Option Bytes :=
  (expandBlocks H prk info ((length + 31) / 32) 1 [] []).map (List.take length)

/-- One of the two points of `hash_to_element`, which `EccPoint` refuses off the curve. -/
def elementPoint (ec : EcParams) (z : ℤ) (pwdSeed info : Bytes) : Option EcPoint := do
  let pwdValue ← hkdfExpand H pwdSeed info (Bytes.numBytes ec.prime * 3 / 2)
  let (x, y) ← (simplifiedSwu ((Bytes.ofBe pwdValue : ℤ) % ec.prime) ec.prime ec.a ec.b z).toOption
  ec.pointSetAffine x y

def hashToElement (ec : EcParams) (z : ℤ) (ssid key : Bytes) (identifier : Option Bytes) : Option EcPoint := do
  let pwdSeed := H.hmac 32 ssid (key ++ identifier.getD [])
  let P1 ← elementPoint H ec z pwdSeed (ascii "SAE Hash to Element u1 P1")
  let P2 ← elementPoint H ec z pwdSeed (ascii "SAE Hash to Element u2 P2")
  return ec.pointAdd P1 P2

end

/-! ## The expansions agree -/

variable {H : HashFns}

/-- The script keeps whole blocks and cuts them in the end; hostap copies what is left of each. -/
theorem expandBlocks_eq {prk info : Bytes} : ∀ {fuel i left : ℕ} {block okm : Bytes}, fuel + i = 256 → 0 < left →
    0 < fuel → block.length = 32 →
      (expandBlocks H prk info ((left - 1) / 32) (i + 1) block (okm ++ block)).map (List.take (okm.length + left)) =
        (H.kdfLoop 32 prk info fuel i block left).map (okm ++ ·) := by
  intro fuel
  induction fuel with
  | zero => intro i left block okm _ _ h _; exact absurd h (lt_irrefl 0)
  | succ fuel ih =>
    intro i left block okm hfuel hleft _ hblock
    unfold HashFns.kdfLoop
    by_cases h : left ≤ 32
    · rw [if_pos h, show (left - 1) / 32 = 0 by omega, expandBlocks, Option.map_some, Option.map_some,
        List.take_length_add_append]
    · obtain ⟨n, hn⟩ : ∃ n, (left - 1) / 32 = n + 1 := ⟨(left - 1) / 32 - 1, by omega⟩
      rw [if_neg h, hn, expandBlocks]
      by_cases hi : i = 255
      · rw [if_pos hi, if_pos (by omega), Option.map_none, Option.map_none]
      · rw [if_neg hi, if_neg (by omega)]
        have hrest := @ih (i + 1) (left - 32) _ (okm ++ block) (by omega) (by omega) (by omega)
          (H.length_hmac 32 prk (block ++ info ++ [UInt8.ofNat (i + 1)]))
        rw [show (left - 32 - 1) / 32 = n by omega, List.length_append, hblock, Nat.add_assoc,
          show 32 + (left - 32) = left by omega] at hrest
        dsimp only
        rw [hrest, Option.map_map]
        congr 1
        funext out
        exact List.append_assoc _ _ _

/-- `hkdf_expand` of the script is that of hostap with SHA-256, for every length. -/
theorem hkdfExpand_eq (prk info : Bytes) (length : ℕ) : hkdfExpand H prk info length = H.hkdfExpand 32 prk info length := by
  rw [HashFns.hkdfExpand, if_pos (.inl rfl), HashFns.kdf, hkdfExpand]
  rcases Nat.eq_zero_or_pos length with h | h
  · subst h
    rw [HashFns.kdfLoop, if_pos (Nat.zero_le _)]
    rfl
  · rw [show (length + 31) / 32 = (length - 1) / 32 + 1 by omega, expandBlocks, if_neg (by omega)]
    have hloop := @expandBlocks_eq H prk info 255 1 length _ [] rfl h (by omega) (H.length_hmac 32 prk (info ++ [1]))
    rw [List.length_nil, Nat.zero_add] at hloop
    dsimp only
    rw [List.nil_append]
    refine hloop.trans ?_
    cases H.kdfLoop 32 prk info 255 1 (H.hmac 32 prk (info ++ [1])) length <;> rfl

/-! ## The elements agree -/

/-- Both derive the same point, one from the bytes that the other expands. -/
theorem elementPoint_eq {ec : EcParams} {group : ℕ} {z : ℤ} (hz : sswuCurveParam group = some z)
    (hparams : SwuParams ec.prime (ec.a : ZMod ec.prime) ec.b z) (heven : Bytes.numBytes ec.prime % 2 = 0)
    (hlen : Bytes.numBytes ec.prime ≤ 32) (pwdSeed info : Bytes) :
    ∃ P, elementPoint H ec z pwdSeed info = some P ∧ ptPoint H ec group 32 pwdSeed info = some P := by
  have hsize : Bytes.numBytes ec.prime * 3 / 2 = Bytes.numBytes ec.prime + (Bytes.numBytes ec.prime + 1) / 2 := by omega
  obtain ⟨value, hvalue, -⟩ := H.hkdfExpand_some (.inl rfl)
    (show Bytes.numBytes ec.prime + (Bytes.numBytes ec.prime + 1) / 2 ≤ 255 * 32 by omega) pwdSeed info
  have hmod : bnMod (Bytes.ofBe value) ec.prime = (Bytes.ofBe value : ℤ) % ec.prime :=
    Int.tmod_eq_emod_of_nonneg (Int.natCast_nonneg _)
  have hu := bnMod_natCast_range (cast_pos (p := ec.prime)) (Bytes.ofBe value)
  rw [hmod] at hu
  obtain ⟨x, y, hpy, hc, hvalid, -⟩ := sswu_eq_simplifiedSwu hz hparams hu
  obtain ⟨hcurve, hx, hy⟩ := EcParams.valid_affine.1 hvalid
  refine ⟨.affine x y, ?_, ?_⟩
  · simp only [elementPoint, hkdfExpand_eq, hsize, hvalue, Option.bind_eq_bind, Option.bind_some, hpy, Except.toOption,
      pointSetAffine_of_lt hcurve hx hy]
  · simp only [ptPoint, hvalue, hmod, Option.bind_eq_bind, Option.bind_some, bnToBin_of_lt_prime ⟨hu.1, hu.2.le⟩, hc]

/-- **`hash_to_element` derives the PT of hostap**, on every curve with a valid parameter and a prime that is 3 mod 4 and has
an even number of bytes, at most 32: for these hostap takes SHA-256 too and expands to the same number of bytes. -/
theorem hash_to_element_agrees {ec : EcParams} {group : ℕ} {z : ℤ} (hz : sswuCurveParam group = some z)
    (hparams : SwuParams ec.prime (ec.a : ZMod ec.prime) ec.b z) (heven : Bytes.numBytes ec.prime % 2 = 0)
    (hlen : Bytes.numBytes ec.prime ≤ 32) (ssid key : Bytes) (identifier : Option Bytes) :
    ∃ P, hashToElement H ec z ssid key identifier = some P ∧ saeDerivePtEcc H ec group ssid key identifier = some P ∧
      ec.Valid P := by
  have hhash : saeEccPrimeLen2HashLen (Bytes.numBytes ec.prime) = 32 := if_pos hlen
  obtain ⟨P1, hpy1, hc1⟩ := @elementPoint_eq H ec group z hz hparams heven hlen (H.hmac 32 ssid (key ++ identifier.getD []))
    (ascii "SAE Hash to Element u1 P1")
  obtain ⟨P2, hpy2, hc2⟩ := @elementPoint_eq H ec group z hz hparams heven hlen (H.hmac 32 ssid (key ++ identifier.getD []))
    (ascii "SAE Hash to Element u2 P2")
  refine ⟨ec.pointAdd P1 P2, ?_, ?_, EcParams.valid_pointAdd _ _⟩
  · simp only [hashToElement, hpy1, hpy2, Option.bind_eq_bind, Option.bind_some, Option.pure_def]
  · have hmax : ¬Bytes.numBytes ec.prime > saeMaxEccPrimeLen := by
      unfold saeMaxEccPrimeLen
      omega
    simp only [saeDerivePtEcc]
    rw [if_neg hmax, hhash, saePwdSeed_some (.inl rfl)]
    simp only [Option.bind_eq_bind, Option.bind_some, hc1, hc2, Option.pure_def]

theorem prime_twoBytes : Nat.Prime 263 := by norm_num

/-- `y² = x³ + 2x + 4` over the field of 263 elements, whose prime has two bytes. -/
def twoBytes : EcParams where
  prime := 263
  a := 2
  b := 4
  prime_prime := prime_twoBytes
  prime_mod_four := rfl
  a_pos := by decide
  a_lt := by decide
  b_pos := by decide
  b_lt := by decide
  disc_ne_zero := by
    unfold CurveParams.Nonsingular
    decide

theorem swuParams_twoBytes : SwuParams twoBytes.prime (twoBytes.a : ZMod twoBytes.prime) twoBytes.b (-12 : ℤ) where
  a_ne_zero := twoBytes.cast_a_ne_zero
  no_root := by
    have h : ∀ x : ZMod 263, x ^ 3 + ((2 : ℕ) : ZMod 263) * x + ((4 : ℕ) : ZMod 263) ≠ 0 := by decide +kernel
    exact h
  not_isSquare := by
    have h : ¬∃ y : ZMod 263, ((-12 : ℤ) : ZMod 263) = y * y := by decide +kernel
    exact h
  isSquare_exceptional := by
    have h : ∃ y : ZMod 263, (((4 : ℕ) : ZMod 263) * (((-12 : ℤ) : ZMod 263) * ((2 : ℕ) : ZMod 263))⁻¹) ^ 3 +
        ((2 : ℕ) : ZMod 263) * (((4 : ℕ) : ZMod 263) * (((-12 : ℤ) : ZMod 263) * ((2 : ℕ) : ZMod 263))⁻¹) +
          ((4 : ℕ) : ZMod 263) = y * y := by
      decide +kernel
    exact h

theorem hash_to_element_agrees_twoBytes :
    ∃ P, hashToElement Small.hash twoBytes (-12) [1, 2, 3] [97, 98, 99] none = some P ∧
      saeDerivePtEcc Small.hash twoBytes 20 [1, 2, 3] [97, 98, 99] none = some P := by
  obtain ⟨P, hpy, hc, -⟩ := @hash_to_element_agrees Small.hash twoBytes 20 (-12) rfl swuParams_twoBytes (by decide)
    (by decide) [1, 2, 3] [97, 98, 99] none
  exact ⟨P, hpy, hc⟩

end DecoyAuth.Scripts
