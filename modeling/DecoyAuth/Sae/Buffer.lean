import DecoyAuth.Sae.RoundTrip
import DecoyAuth.Sae.Send

/-!
# The buffer of a commit

What `sae_ap_write_commit` does to a buffer of a given size depends only on the length of what it writes: it writes all
of it, or it runs over the end (`Filled.write_result`). `auth_build_sae_commit` allocates the size that an ordinary commit
needs at most, three numbers of the largest prime. The commit of the access point grows with the number of passwords, so
that it fits for small primes only (`commit_fits_iff`).
-/

namespace DecoyAuth

variable {host : Host} {sae : SaeData} {tmp : SaeTmp} {scalar : ℤ} {u v : List ℤ}

/-! ## The coefficients -/

theorem read_live_map {id : TableId} {cs : List ℤ} {i : ℕ} (hi : i < cs.length) :
    (Table.live (cs.map some)).read id i = .ok cs[i] := by
  simp [Table.read, Table.slot, List.getElem?_eq_getElem hi]

theorem wpabufPut_of_le {size len : ℕ} {buf : Bytes} (h : buf.length + len ≤ size) : wpabufPut size buf len = .ok () :=
  if_pos h

theorem wpabufPut_of_lt {size len : ℕ} {buf : Bytes} (h : size < buf.length + len) :
    wpabufPut size buf len = .error .bufferOverflow := if_neg (not_le.2 h)

theorem wpabufPut_result {size len n : ℕ} {buf : Bytes} (h : buf.length = n) :
    wpabufPut size buf len = if n + len ≤ size then .ok () else .error .bufferOverflow := by
  rw [wpabufPut, h]

/-- A loop of `sae_ap_write_commit`, from the index `i` on. -/
theorem writeCoefficients_drop {size primeLen : ℕ} {id : TableId} {cs : List ℤ} (hcs : ∀ c ∈ cs, c < 256 ^ primeLen) :
    ∀ {left i : ℕ} {buf : Bytes}, i + left = cs.length → buf.length ≤ size →
      writeCoefficients size primeLen id (.live (cs.map some)) left i buf =
        if buf.length + left * primeLen ≤ size then .ok (some (buf ++ coefficientBytes primeLen (cs.drop i)))
        else .error .bufferOverflow := by
  intro left
  induction left with
  | zero =>
    intro i buf hi hbuf
    rw [List.drop_eq_nil_of_le (by omega), if_pos (by omega)]
    simp [writeCoefficients, coefficientBytes]
  | succ left ih =>
    intro i buf hi hbuf
    have hlt : i < cs.length := by omega
    have hbin := bnToBin_of_lt (hcs _ (List.getElem_mem hlt))
    have hlen : (buf ++ Bytes.toBe primeLen cs[i].toNat).length = buf.length + primeLen := by
      rw [List.length_append, Bytes.length_toBe]
    rw [writeCoefficients, Nat.succ_mul]
    by_cases hput : buf.length + primeLen ≤ size
    · rw [wpabufPut_of_le hput, read_live_map hlt, List.drop_eq_getElem_cons hlt, coefficientBytes_cons]
      simp only [bind, Except.bind, hbin]
      rw [ih (by omega) (by omega), hlen, List.append_assoc, Nat.add_assoc, Nat.add_comm primeLen]
    · rw [wpabufPut_of_lt (by omega), if_neg (by omega)]
      rfl

/-- **The loop writes all coefficients, or runs over the end of the buffer.** -/
theorem writeCoefficients_result {size primeLen n : ℕ} (id : TableId) {cs : List ℤ} {buf : Bytes}
    (hcs : ∀ c ∈ cs, c < 256 ^ primeLen) (hn : n = cs.length) (hbuf : buf.length ≤ size) :
    writeCoefficients size primeLen id (.live (cs.map some)) n 0 buf =
      if buf.length + cs.length * primeLen ≤ size then .ok (some (buf ++ coefficientBytes primeLen cs))
      else .error .bufferOverflow := by
  rw [writeCoefficients_drop hcs (by omega) hbuf, List.drop_zero, hn]

/-! ## The commit -/

/-- An access point that has prepared a commit: a scalar and two lists of coefficients that have a binary form of the
length of the prime. -/
structure Filled (sae : SaeData) (tmp : SaeTmp) (scalar : ℤ) (u v : List ℤ) : Prop where
  tmp_eq : sae.tmp = some tmp
  scalar_eq : tmp.ownCommitScalar = some scalar
  count_eq : tmp.numPasswords = u.length
  length_eq : v.length = u.length
  u_eq : tmp.uCoefficients = .live (u.map some)
  v_eq : tmp.vCoefficients = .live (v.map some)
  scalar_lt : scalar < 256 ^ tmp.primeLen
  u_lt : ∀ c ∈ u, c < 256 ^ tmp.primeLen
  v_lt : ∀ c ∈ v, c < 256 ^ tmp.primeLen
  h2e : sae.h2e = false

/-- The bytes of a commit without elements. -/
def commitBytes (byteOrder : Bytes.ByteOrder) (primeLen group : ℕ) (scalar : ℤ) (u v : List ℤ) : Bytes :=
  Bytes.le16 group ++ (Bytes.toBe primeLen scalar.toNat ++ (Bytes.ofInt32 byteOrder u.length ++
    (coefficientBytes primeLen u ++ coefficientBytes primeLen v)))

theorem length_commitBytes (byteOrder : Bytes.ByteOrder) (primeLen group : ℕ) (scalar : ℤ) (hlen : v.length = u.length) :
    (commitBytes byteOrder primeLen group scalar u v).length = 2 + primeLen + 4 + 2 * (u.length * primeLen) := by
  simp only [commitBytes, List.length_append, Bytes.length_le16, Bytes.length_toBe, Bytes.length_ofInt32,
    length_coefficientBytes, hlen]
  omega

/-- **`sae_ap_write_commit` writes the commit, or runs over the end of the buffer.** -/
theorem Filled.write_result (h : Filled sae tmp scalar u v) (host : Host) (size : ℕ) (identifier : Option Bytes) :
    (saeApWriteCommit host size identifier sae).result =
      if (commitBytes host.byteOrder tmp.primeLen sae.group scalar u v ++ commitElements sae tmp none identifier).length ≤
        size then .ok
        ({ sae.noteAkmSuite with tmp := some { tmp with uCoefficients := .released, vCoefficients := .released } },
          some (commitBytes host.byteOrder tmp.primeLen sae.group scalar u v ++ commitElements sae tmp none identifier))
      else .error .bufferOverflow := by
  have hn : tmp.numPasswords.toNat = u.length := by rw [h.count_eq, Int.toNat_natCast]
  have hbin : bnToBin (tmp.ownCommitScalar.getD 0) tmp.primeLen = some (Bytes.toBe tmp.primeLen scalar.toNat) := by
    rw [h.scalar_eq]
    exact bnToBin_of_lt h.scalar_lt
  have hcount : Bytes.ofInt32 host.byteOrder tmp.numPasswords = Bytes.ofInt32 host.byteOrder u.length := by rw [h.count_eq]
  have helements : ∀ cu cv, commitElements sae { tmp with uCoefficients := cu, vCoefficients := cv } none identifier =
      commitElements sae tmp none identifier := fun _ _ => rfl
  have htotal : (commitBytes host.byteOrder tmp.primeLen sae.group scalar u v ++
      commitElements sae tmp none identifier).length = 2 + tmp.primeLen + 4 + 2 * (u.length * tmp.primeLen) +
        (commitElements sae tmp none identifier).length := by
    rw [List.length_append, length_commitBytes _ _ _ _ h.length_eq]
  -- what is in the buffer before the number of passwords, before each of the loops and before the elements
  have hhead : (Bytes.le16 sae.group ++ Bytes.toBe tmp.primeLen scalar.toNat).length = 2 + tmp.primeLen := by
    simp only [List.length_append, Bytes.length_le16, Bytes.length_toBe]
  have hbuf : (Bytes.le16 sae.group ++ Bytes.toBe tmp.primeLen scalar.toNat ++
      Bytes.ofInt32 host.byteOrder u.length).length = 2 + tmp.primeLen + 4 := by
    rw [List.length_append, hhead, Bytes.length_ofInt32]
  have hbufU : (Bytes.le16 sae.group ++ Bytes.toBe tmp.primeLen scalar.toNat ++ Bytes.ofInt32 host.byteOrder u.length ++
      coefficientBytes tmp.primeLen u).length = 2 + tmp.primeLen + 4 + u.length * tmp.primeLen := by
    rw [List.length_append, hbuf, length_coefficientBytes]
  have hbufV : (Bytes.le16 sae.group ++ Bytes.toBe tmp.primeLen scalar.toNat ++ Bytes.ofInt32 host.byteOrder u.length ++
      coefficientBytes tmp.primeLen u ++ coefficientBytes tmp.primeLen v).length =
        2 + tmp.primeLen + 4 + 2 * (u.length * tmp.primeLen) := by
    rw [List.length_append, hbufU, length_coefficientBytes, h.length_eq]
    omega
  unfold saeApWriteCommit
  simp only [h.tmp_eq, hbin, hn, h.u_eq, h.v_eq, helements, hcount, htotal]
  rw [Run.bind_of_ok (Run.emit_result _)]
  -- each write succeeds where the buffer holds what has been written so far
  refine Run.bind_result_ite (by omega) (wpabufPut_result hhead) fun hput => ?_
  refine Run.bind_result_ite (by omega) (writeCoefficients_result .uCoefficients h.u_lt rfl (hbuf.trans_le hput)) fun hu => ?_
  rw [hbuf, ← hbufU] at hu
  refine Run.bind_result_ite (by rw [h.length_eq]; omega)
    (writeCoefficients_result .vCoefficients h.v_lt h.length_eq.symm hu) fun _ => ?_
  refine Run.bind_result_ite (by omega) (wpabufPut_result hbufV) fun hall => ?_
  rw [if_pos hall]
  simp only [commitBytes, List.append_assoc]
  rfl

/-! ## The buffer that is allocated -/

/-- The size of the buffer of `auth_build_sae_commit`. -/
def commitBufferSize (identifier : Option Bytes) : ℕ := saeCommitMaxLen + (identifier.map (3 + ·.length)).getD 0

theorem length_extElement (ext : UInt8) (content : Bytes) : (extElement ext content).length = 3 + content.length := by
  rw [extElement, List.length_append]
  rfl

theorem length_commitElements (hh2e : sae.h2e = false) (identifier : Option Bytes) :
    (commitElements sae tmp none identifier).length =
      (identifier.map (3 + ·.length)).getD 0 + if sae.akmp.isSaeExtKey then 7 else 0 := by
  have hselector : (if sae.akmp.isSaeExtKey then extElement wlanEidExtAkmSuiteSelector (Bytes.toBe 4 sae.akmp.toSuite)
      else []).length = if sae.akmp.isSaeExtKey then 7 else 0 := by
    split
    · rw [length_extElement, Bytes.length_toBe]
    · rfl
  cases identifier with
  | none => simp [commitElements, hh2e, hselector]
  | some id => simp [commitElements, hh2e, hselector, length_extElement]

/-- The identifier has its own room in the buffer, so it does not matter. -/
theorem Filled.overflows_iff (h : Filled sae tmp scalar u v) (host : Host) (identifier : Option Bytes) :
    (saeApWriteCommit host (commitBufferSize identifier) identifier sae).result = .error .bufferOverflow ↔
      saeCommitMaxLen < 6 + (2 * u.length + 1) * tmp.primeLen + if sae.akmp.isSaeExtKey then 7 else 0 := by
  have hlen : (commitBytes host.byteOrder tmp.primeLen sae.group scalar u v ++
      commitElements sae tmp none identifier).length = 6 + (2 * u.length + 1) * tmp.primeLen +
        ((identifier.map (3 + ·.length)).getD 0 + if sae.akmp.isSaeExtKey then 7 else 0) := by
    rw [List.length_append, length_commitBytes _ _ _ _ h.length_eq, length_commitElements h.h2e]
    ring
  rw [h.write_result, hlen, commitBufferSize]
  by_cases hfits : 6 + (2 * u.length + 1) * tmp.primeLen + (if sae.akmp.isSaeExtKey then 7 else 0) ≤ saeCommitMaxLen
  · rw [if_pos (by omega)]
    exact iff_of_false nofun (not_lt.2 hfits)
  · rw [if_neg (by omega)]
    exact iff_of_true rfl (not_le.1 hfits)

/-- What `sae_set_group` stores for an ECC group that it accepts. -/
theorem saeSetGroup_tmp {sae₀ : SaeData} {group : ℕ} {ec : EcGroup} (hset : (saeSetGroup host sae₀ group).2 = true)
    (hec : host.ecInit group = some ec) : (saeSetGroup host sae₀ group).1.tmp = some (newTmp host ec) := by
  unfold saeSetGroup at hset ⊢
  by_cases hg : dragonflySuitableGroup group false
  · simp only [hg, hec]
    rfl
  · simp [hg] at hset

/-- **When the commit of the access point fits its buffer**: an instance that `sae_set_group` set up, up to what preparing
a commit changes, and that holds a commit. -/
theorem commit_fits_iff {host : Host} {sae₀ sae : SaeData} {group : ℕ} {ec : EcGroup} {tmp : SaeTmp} {scalar : ℤ}
    {u v : List ℤ} (hset : (saeSetGroup host sae₀ group).2 = true) (hec : host.ecInit group = some ec)
    (hsae : sae.forgetCommit = SaeData.forgetCommit { (saeSetGroup host sae₀ group).1 with akmp := sae.akmp })
    (hfilled : Filled sae tmp scalar u v) (identifier : Option Bytes) :
    (saeApWriteCommit host (commitBufferSize identifier) identifier sae).result ≠ .error .bufferOverflow ↔
      6 + (2 * host.passwords.length + 1) * Bytes.numBytes ec.prime + (if sae.akmp.isSaeExtKey then 7 else 0) ≤
        saeCommitMaxLen := by
  have htmp : tmp.forgetCommit = (newTmp host ec).forgetCommit := by
    have h := congrArg SaeData.tmp hsae
    simpa [SaeData.forgetCommit, hfilled.tmp_eq, saeSetGroup_tmp hset hec] using h
  have hprime : tmp.primeLen = Bytes.numBytes ec.prime := congrArg SaeTmp.primeLen htmp
  have hcount : tmp.numPasswords = host.passwords.length := congrArg SaeTmp.numPasswords htmp
  have hlen : u.length = host.passwords.length := by
    have h := hfilled.count_eq
    omega
  rw [Ne, hfilled.overflows_iff, hprime, hlen, not_lt]

/-- With sixteen passwords the primes of group 19, of 32 bytes, and of group 20, of 48 bytes, are small enough; the prime
of group 21, of 66 bytes, is not. -/
theorem sixteen_passwords_fit_iff (primeLen : ℕ) (extKey : Bool) :
    6 + (2 * hostapPasswords.length + 1) * primeLen + (if extKey then 7 else 0) ≤ saeCommitMaxLen ↔
      primeLen ≤ if extKey then 53 else 54 := by
  have hlen : hostapPasswords.length = 16 := by simp [hostapPasswords]
  have hmax : saeCommitMaxLen = 1793 := rfl
  rw [hlen, hmax]
  cases extKey <;> simp <;> omega

/-- An access point on the small host that holds a commit. -/
def Small.smallCommit : SaeTmp :=
  { newTmp Small.host Small.group with
    ownCommitScalar := some 8
    uCoefficients := .live ([9, 13].map some)
    vCoefficients := .live ([22, 3].map some) }

theorem commit_fits_small :
    (saeApWriteCommit Small.host (commitBufferSize (some (ascii "id"))) (some (ascii "id"))
      { group := 19, tmp := some Small.smallCommit }).result ≠ .error .bufferOverflow := by
  have hfilled : Filled { group := 19, tmp := some Small.smallCommit } Small.smallCommit 8 [9, 13] [22, 3] :=
    ⟨rfl, rfl, rfl, rfl, rfl, rfl, by decide, by decide, by decide, rfl⟩
  have hset : (saeSetGroup Small.host {} 19).2 = true := by decide
  exact (commit_fits_iff hset rfl (by rfl) hfilled _).2 (by decide)

/-- The fields that `sae_ap_write_commit` reads, for sixteen passwords and a prime of 66 bytes. -/
def Small.group21 : SaeTmp where
  numPasswords := 16
  primeLen := 66
  ownCommitScalar := some 2
  uCoefficients := .live ((List.replicate 16 0).map some)
  vCoefficients := .live ((List.replicate 16 0).map some)

/-- For group 21 the 2184 bytes of the commit run over the 1793 bytes of the buffer. -/
theorem commit_overflows : (saeApWriteCommit Small.host (commitBufferSize none) none
    { group := 21, tmp := some Small.group21 }).result = .error .bufferOverflow := by
  have hfilled : Filled { group := 21, tmp := some Small.group21 } Small.group21 2 (List.replicate 16 0)
      (List.replicate 16 0) :=
    ⟨rfl, rfl, rfl, rfl, rfl, rfl, by decide, by decide, by decide, rfl⟩
  exact (hfilled.overflows_iff Small.host none).2 (by decide)

end DecoyAuth
