import DecoyAuth.Lib.Bytes

/-!
# Hash functions and key derivation

SHA-256 and the HMACs are parameters with the lengths of their results (`HashFns`). Over them are the functions of
`sha256-prf.c` (and its SHA-384 and SHA-512 copies) and the hash agility of `sae.c`.
-/

namespace DecoyAuth

/-- `sha256_vector` on one buffer, and `hmac_sha256_vector`, `hmac_sha384_vector` and `hmac_sha512_vector`, by the length
of the digest and on the concatenated buffers. -/
structure HashFns where
  sha256 : Bytes → Bytes
  hmac : ℕ → Bytes → Bytes → Bytes
  length_sha256 : ∀ m, (sha256 m).length = 32
  length_hmac : ∀ len key m, (hmac len key m).length = len

namespace HashFns

variable (H : HashFns)

/-- The blocks of the output, `plen` bytes of it, from the block `counter` on. -/
def prfBlocks (hashLen : ℕ) (key label data : Bytes) (bits : ℕ) : ℕ → ℕ → ℕ → Bytes
  | 0, _, _ => []
  | fuel + 1, counter, plen =>
    let block := H.hmac hashLen key (Bytes.le16 counter ++ label ++ data ++ Bytes.le16 bits)
    if plen ≥ hashLen then block ++ prfBlocks hashLen key label data bits fuel (counter + 1) (plen - hashLen)
    else block.take plen

/-- Clear the bits of the last byte that were not asked for. -/
def maskLast (bits : ℕ) (buf : Bytes) : Bytes :=
  if bits % 8 = 0 then buf
  else buf.modify (buf.length - 1) fun b => b &&& UInt8.ofNat (255 * 2 ^ (8 - bits % 8))

/-- `sha256_prf_bits`, and `sha384_prf` and `sha512_prf` for whole bytes. -/
def prfBits (hashLen : ℕ) (key label data : Bytes) (bits : ℕ) : Bytes :=
  let bufLen := (bits + 7) / 8
  maskLast bits (prfBlocks H hashLen key label data bits (bufLen + 1) 1 bufLen)

/-- `hkdf_extract`: the three digest lengths with an HMAC. -/
def hkdfExtract (hashLen : ℕ) (salt data : Bytes) : Option Bytes :=
  if hashLen = 32 ∨ hashLen = 48 ∨ hashLen = 64 then some (H.hmac hashLen salt data) else none

/-- `sae_kdf_hash`; the key has the length of the digest. -/
def saeKdfHash (hashLen : ℕ) (k label context : Bytes) (outLen : ℕ) : Option Bytes :=
  if hashLen = 32 ∨ hashLen = 48 ∨ hashLen = 64 then some (H.prfBits hashLen k label context (8 * outLen)) else none

/-! ## Lengths -/

theorem length_prfBlocks {hashLen : ℕ} (h : 0 < hashLen) (key label data : Bytes) (bits : ℕ) :
    ∀ (fuel counter plen : ℕ), plen < fuel → (H.prfBlocks hashLen key label data bits fuel counter plen).length = plen
  | fuel + 1, counter, plen, hlt => by
    unfold prfBlocks
    simp only
    split
    · next hge =>
      rw [List.length_append, H.length_hmac, length_prfBlocks h key label data bits fuel _ _ (by omega)]
      omega
    · next hge => rw [List.length_take, H.length_hmac]; omega

@[simp] theorem length_maskLast (bits : ℕ) (buf : Bytes) : (maskLast bits buf).length = buf.length := by
  unfold maskLast
  split
  · rfl
  · exact List.length_modify ..

theorem length_prfBits {hashLen : ℕ} (h : 0 < hashLen) (key label data : Bytes) (bits : ℕ) :
    (H.prfBits hashLen key label data bits).length = (bits + 7) / 8 := by
  simp [prfBits, length_prfBlocks H h key label data bits _ _ _ (Nat.lt_succ_self _)]

end HashFns

end DecoyAuth
