import DecoyAuth.Sae.BranchFree
import DecoyAuth.Sae.Small

/-!
# Hunting and pecking without branches: FFC groups

The loop of `sae_derive_pwe_ffc` keeps the selected element in the first half of a buffer and writes the candidate to the
second. It runs in step with the loop with branches (`Tracks`, `pweLoopFfc_tracks`), so both derive the same password
element: **`derivePweFfc_eq`**.
-/

namespace DecoyAuth.BranchFree

section Ffc

variable {H : HashFns} {dh : DhGroup} {addrs password : Bytes}

/-- A valid candidate is left as it is, and of an invalid one the first byte is cleared. -/
theorem set_head_eq (bs : Bytes) (c : Bool) : bs.set 0 (if c then bs.getD 0 0 else 0) = if c then bs else bs.set 0 0 := by
  cases bs with
  | nil => cases c <;> rfl
  | cons b bs => cases c <;> rfl

theorem constTimeIsZero_bnIs (n a : ℤ) : (constTimeIsZero (bnIs n a)).toUInt8 = mask8 (decide (a ≠ n)) := by
  rw [constTimeIsZero_eq, toUInt8_mask]
  congr 1
  rw [decide_eq_decide]
  unfold bnIs
  by_cases h : a = n
  · rw [if_pos h]
    exact iff_of_false (by decide) (not_not.2 h)
  · rw [if_neg h]
    exact iff_of_true rfl h

/-- `res` stays 1 as long as no condition fails. -/
theorem select_all (c d e : Bool) :
    constTimeSelectU8 (mask8 e) (constTimeSelectU8 (mask8 d) (constTimeSelectU8 (mask8 c) 1 0) 0) 0 =
      if c && d && e then 1 else 0 := by
  cases c <;> cases d <;> cases e <;> rfl

theorem saeTestPwdSeedFfc_eq (seed : Bytes) : saeTestPwdSeedFfc H dh seed =
    (if (DecoyAuth.saeTestPwdSeedFfc H dh seed).1 then 1 else 0, (DecoyAuth.saeTestPwdSeedFfc H dh seed).2) := by
  unfold saeTestPwdSeedFfc DecoyAuth.saeTestPwdSeedFfc
  dsimp only
  set value := H.prfBits 32 seed (ascii "SAE Hunting and Pecking") dh.prime (dh.prime.length * 8)
  have hlen : value.length = dh.prime.length := by
    rw [HashFns.length_prfBits H (by norm_num)]
    omega
  have hmask := constTimeFillMsb_memcmp hlen
  rw [hlen] at hmask
  have hset : value.set 0 (constTimeSelectU8 (mask8 (decide (Bytes.ofBe value < Bytes.ofBe dh.prime))) (value.getD 0 0) 0) =
      if Bytes.ofBe value < Bytes.ofBe dh.prime then value else value.set 0 0 := by
    rw [constTimeSelectU8_mask8, set_head_eq]
    simp only [decide_eq_true_eq]
  rw [hmask, toUInt8_mask, hset, constTimeIsZero_bnIs, constTimeIsZero_bnIs, select_all]

/-- The state of the loop for the element that the loop with branches has found. -/
structure Tracks (dh : DhGroup) (st : SearchFfc) (found : Option ℤ) : Prop where
  found_eq : st.found = mask8 found.isSome
  length_eq : st.pweBuf.length = dh.prime.length * 2
  value : ∀ v, found = some v → (Bytes.ofBe (st.pweBuf.take dh.prime.length) : ℤ) = v

/-- What one iteration finds. -/
def foundAfter (H : HashFns) (dh : DhGroup) (addrs password : Bytes) (n : ℕ) (found : Option ℤ) : Option ℤ :=
  found.orElse fun _ =>
    let (res, pwe) := DecoyAuth.saeTestPwdSeedFfc H dh (pwdSeed H addrs password n)
    if res then some pwe else none

theorem saeTestPwdSeedFfc_range (hpos : 0 < Bytes.ofBe dh.prime) (seed : Bytes) :
    0 ≤ (DecoyAuth.saeTestPwdSeedFfc H dh seed).2 ∧ (DecoyAuth.saeTestPwdSeedFfc H dh seed).2 < Bytes.ofBe dh.prime :=
  bnModExp_range (by omega) _ _

theorem constTimeEqU8_one (c : Bool) : constTimeEqU8 (if c then (1 : UInt8) else 0).toUInt32 1 = mask8 c := by
  cases c <;> rfl

theorem pweIterationFfc_eq {n : ℕ} {st : SearchFfc} {test : Bool × ℤ} (hpos : 0 < Bytes.ofBe dh.prime)
    (htest : DecoyAuth.saeTestPwdSeedFfc H dh (pwdSeed H addrs password n) = test) :
    pweIterationFfc H dh addrs password (UInt8.ofNat n) st = some {
      found := constTimeSelectU8 st.found st.found (mask8 test.1)
      pweBuf := constTimeSelectBinWithin st.found 0 dh.prime.length 0 dh.prime.length 0
        (memcpy st.pweBuf dh.prime.length (Bytes.toBe dh.prime.length test.2.toNat))
      selCounter := constTimeSelectU8 st.found st.selCounter (UInt8.ofNat n) } := by
  have hrange := saeTestPwdSeedFfc_range (H := H) hpos (pwdSeed H addrs password n)
  have hfits : (DecoyAuth.saeTestPwdSeedFfc H dh (pwdSeed H addrs password n)).2 < 256 ^ dh.prime.length :=
    lt_trans hrange.2 (by exact_mod_cast Bytes.ofBe_lt dh.prime)
  unfold pweIterationFfc
  dsimp only
  rw [← pwdSeed, saeTestPwdSeedFfc_eq, bnToBin_of_lt hfits, htest, constTimeEqU8_one]
  rfl

/-- One iteration: the candidate is kept if none was found before. -/
theorem Tracks.step {n : ℕ} {st : SearchFfc} {found : Option ℤ} (h : Tracks dh st found) (hpos : 0 < Bytes.ofBe dh.prime) :
    ∃ st', pweIterationFfc H dh addrs password (UInt8.ofNat n) st = some st' ∧
      Tracks dh st' (foundAfter H dh addrs password n found) := by
  obtain ⟨hfound, hlength, hvalue⟩ := h
  have hrange := saeTestPwdSeedFfc_range (H := H) hpos (pwdSeed H addrs password n)
  unfold foundAfter
  cases htest : DecoyAuth.saeTestPwdSeedFfc H dh (pwdSeed H addrs password n) with
  | mk res pwe =>
  rw [htest] at hrange
  set bin := Bytes.toBe dh.prime.length pwe.toNat with hbin
  have hbinlen : bin.length = dh.prime.length := Bytes.length_toBe _ _
  have hlen : (memcpy st.pweBuf dh.prime.length bin).length = dh.prime.length * 2 :=
    (length_memcpy (by omega)).trans hlength
  have htrue : ReadsFirst 0 0 dh.prime.length := .inr le_rfl
  have hfalse : ReadsFirst dh.prime.length 0 dh.prime.length := .inr (Nat.zero_le _)
  have hslice := @constTimeSelectBinWithin_slice _ _ _ (memcpy st.pweBuf dh.prime.length bin) found.isSome _ htrue hfalse
    (by omega) (by omega) (by omega)
  rw [List.drop_zero] at hslice
  refine ⟨_, pweIterationFfc_eq hpos htest, ?_, ?_, ?_⟩
  · dsimp only
    rw [hfound, constTimeSelectU8_mask8]
    cases found with
    | some v => rfl
    | none => cases res <;> rfl
  · dsimp only
    rw [length_constTimeSelectBinWithin, hlen]
  · intro v hv
    dsimp only
    rw [hfound, hslice]
    cases found with
    | some w =>
      cases hv
      rw [Option.isSome_some, if_pos rfl, List.drop_zero, memcpy_take_before _ _ le_rfl (by omega), hvalue v rfl]
    | none =>
      have hcopy := memcpy_slice st.pweBuf bin (show dh.prime.length ≤ st.pweBuf.length by omega)
      rw [hbinlen] at hcopy
      have hfits : pwe.toNat < 256 ^ dh.prime.length := lt_trans (by omega) (Bytes.ofBe_lt dh.prime)
      have hpwe : pwe = v := by
        cases res with
        | false => cases hv
        | true => exact Option.some.inj hv
      rw [Option.isSome_none, if_neg Bool.false_ne_true, hcopy, hbin, Bytes.ofBe_toBe hfits, ← hpwe]
      omega

theorem pweLoopFfc_tracks {k : ℕ} (hk : k < 256) (hpos : 0 < Bytes.ofBe dh.prime) :
    ∀ {fuel n : ℕ} {st : SearchFfc} {found : Option ℤ}, n ≤ 201 → Tracks dh st found →
      Tracks dh (pweLoopFfc H dh (UInt8.ofNat k) addrs password fuel (UInt8.ofNat n) st)
        (DecoyAuth.pweLoopFfc H dh k addrs password fuel n found) := by
  intro fuel
  induction fuel with
  | zero => intro n st found _ h; exact h
  | succ fuel ih =>
    intro n st found hn h
    have hnone : st.found = 0 ↔ found.isNone = true := by
      rw [h.found_eq, mask8_eq_zero]
      cases found <;> simp
    unfold pweLoopFfc DecoyAuth.pweLoopFfc
    simp only [ofNat_le_iff hk (show n < 256 by omega), gt_200_iff (show n < 256 by omega), hnone]
    by_cases hgo : n ≤ k ∨ found.isNone = true
    · by_cases hlast : n ≤ 200
      · obtain ⟨st', hst', htracks⟩ := h.step hpos
        rw [if_pos hgo, if_neg (by omega), if_pos ⟨hgo, hlast⟩, hst']
        dsimp only
        rw [ofNat_succ]
        exact ih (by omega) htracks
      · rw [if_pos hgo, if_pos (by omega), if_neg (fun h => hlast h.2)]
        exact h
    · rw [if_neg hgo, if_neg (fun h => hgo h.1)]
      exact h

end Ffc

/-- **`sae_derive_pwe_ffc` without branches** derives the element that the loop with branches derives. -/
theorem derivePweFfc_eq {H : HashFns} {dh : DhGroup} (hpos : 0 < Bytes.ofBe dh.prime) (group : ℕ) (addr1 addr2 : MacAddr)
    (password : Bytes) :
    saeDerivePweFfc H dh group addr1 addr2 password = DecoyAuth.saeDerivePweFfc H dh group addr1 addr2 password := by
  have hk := dragonflyMinPweLoopIter_le group
  have hinit : Tracks dh ⟨0, List.replicate (dh.prime.length * 2) 0, 0⟩ none := ⟨rfl, List.length_replicate, nofun⟩
  have h : Tracks dh (pweLoopFfc H dh (UInt8.ofNat (dragonflyMinPweLoopIter group)) (saePwdSeedKey addr1 addr2) password
      201 1 ⟨0, List.replicate (dh.prime.length * 2) 0, 0⟩) _ :=
    pweLoopFfc_tracks (n := 1) (show dragonflyMinPweLoopIter group < 256 by omega) hpos (by omega) hinit
  unfold saeDerivePweFfc DecoyAuth.saeDerivePweFfc
  dsimp only
  cases hfound : DecoyAuth.pweLoopFfc H dh (dragonflyMinPweLoopIter group) (saePwdSeedKey addr1 addr2) password 201 1
      none with
  | none =>
    rw [hfound] at h
    exact if_pos h.found_eq
  | some v =>
    rw [hfound] at h
    have hne : mask8 (some v).isSome ≠ 0 := fun h0 => by
      rw [mask8_eq_zero] at h0
      cases h0
    rw [if_neg (h.found_eq ▸ hne), h.value v rfl]

/-- A derivation in the squares modulo 23. -/
theorem derivePweFfc_eq_small : saeDerivePweFfc Small.hash ⟨[23], [11], true⟩ 15 (Small.addr 1) (Small.addr 2) [97, 98, 99] =
    some 2 :=
  (derivePweFfc_eq (by decide) 15 (Small.addr 1) (Small.addr 2) [97, 98, 99]).trans (by decide +kernel)

end DecoyAuth.BranchFree
