import DecoyAuth.Sae.KeyTables
import DecoyAuth.Sae.Small
import DecoyAuth.Sae.Wire

/-!
# Confirms at the access point

`sae_ap_check_confirm` returns 0 exactly if the confirm matches an index of the tables, and the session then has the keys
and the points of the least such index (`checkConfirm_matches`). It loads an index before it verifies it, so a search that
fails leaves what was loaded last (`searchEntries_lastLoaded`), and the session is as before only where that makes no
difference (`rejected_session_iff`).
-/

namespace DecoyAuth

variable {host : Host} {data : Bytes} {sae sae' : SaeData} {tmp tmp' : SaeTmp} {ec : EcGroup}

/-! ## Live tables -/

/-- The tables of an ECC group have an entry for each index below `n`. -/
structure Live (ec : EcGroup) (tmp : SaeTmp) (n : ℕ) : Prop where
  ec_eq : tmp.ec = some ec
  key : ∀ i < n, ∃ key, tmp.keys.entry i = some key
  pwe : ∀ i < n, ∃ P, tmp.pweEccs.entry i = some P ∧ ec.Valid P
  element : ∀ i < n, ∃ P, tmp.ownCommitElementEccs.entry i = some P ∧ ec.Valid P

/-- The scalars of both sides and the element of the peer, which every verifier is computed over. -/
structure Exchanged (sae : SaeData) (tmp : SaeTmp) (peerScalar ownScalar : ℤ) (peerElement : EcPoint) : Prop where
  peerCommitScalar : sae.peerCommitScalar = some peerScalar
  ownCommitScalar : tmp.ownCommitScalar = some ownScalar
  peerCommitElementEcc : tmp.peerCommitElementEcc = some peerElement

/-- The confirm `data` matches the index `i`: it is long enough for the key, and the bytes after the counter are the
verifier under that key. -/
def Matches (host : Host) (ec : EcGroup) (tmp : SaeTmp) (peerScalar ownScalar : ℤ) (peerElement : EcPoint) (data : Bytes)
    (i : ℕ) : Prop :=
  ∃ key element, tmp.keys.entry i = some key ∧ tmp.ownCommitElementEccs.entry i = some element ∧
    2 + key.kck.length ≤ data.length ∧
    saeCnConfirmEcc host.hash ec.toEcParams tmp.primeLen key.kck (data.take 2) peerScalar peerElement ownScalar element =
      some ((data.drop 2).take key.kck.length)

section Search

variable {n : ℕ} {peerScalar ownScalar : ℤ} {peerElement : EcPoint}

/-- The verifier of a loaded index. -/
theorem apVerifier_loadEntry (hec : tmp.ec = some ec) (hex : Exchanged sae tmp peerScalar ownScalar peerElement)
    (key : KeyEntry) (pwe : Option EcPoint) {P : EcPoint} (hP : ec.Valid P) :
    apVerifier host (loadEntry sae tmp key pwe (some P)).1 (loadEntry sae tmp key pwe (some P)).2 data =
      saeCnConfirmEcc host.hash ec.toEcParams tmp.primeLen key.kck (data.take 2) peerScalar peerElement ownScalar P := by
  simp only [apVerifier, loadEntry, hec, hex.peerCommitScalar, hex.ownCommitScalar, hex.peerCommitElementEcc,
    Option.map_some, clonePoint_valid hP, Option.bind_eq_bind, Option.bind_some]

theorem verifies_iff (hlive : Live ec tmp n) (hex : Exchanged sae tmp peerScalar ownScalar peerElement) {i : ℕ}
    (hi : i < n) : (∃ key pwe element, Verifies host sae tmp data i key pwe element) ↔
      Matches host ec tmp peerScalar ownScalar peerElement data i := by
  obtain ⟨P, hpwe, -⟩ := hlive.pwe i hi
  obtain ⟨Q, helement, hQ⟩ := hlive.element i hi
  constructor
  · rintro ⟨key, pwe, element, hv⟩
    obtain rfl : element = some Q :=
      Except.ok.inj (hv.element_eq.symm.trans (Table.slot_of_entry .ownCommitElementEccs helement))
    refine ⟨key, Q, Table.read_ok hv.key_eq, helement, hv.length_le, ?_⟩
    rw [← hv.verifier, apVerifier_loadEntry hlive.ec_eq hex key pwe hQ]
  · rintro ⟨key, element, hkey, helement', hlen, hverifier⟩
    obtain rfl : element = Q := Option.some.inj (helement'.symm.trans helement)
    refine ⟨key, some P, some element, Table.read_of_entry .keys hkey, hlen, Table.slot_of_entry .pweEccs hpwe,
      Table.slot_of_entry .ownCommitElementEccs helement, ?_⟩
    rw [apVerifier_loadEntry hlive.ec_eq hex key (some P) hQ, hverifier]

/-- Live tables are searched without a fault. -/
theorem searchEntries_total (host : Host) (data : Bytes) : ∀ (left i : ℕ) (sae : SaeData) (tmp : SaeTmp),
    Live ec tmp (i + left) → ∃ r, searchEntries host data left i sae tmp = .ok r
  | 0, i, sae, tmp, _ => ⟨_, rfl⟩
  | left + 1, i, sae, tmp, hlive => by
    obtain ⟨key, hkey⟩ := hlive.key i (by omega)
    obtain ⟨P, hpwe, -⟩ := hlive.pwe i (by omega)
    obtain ⟨Q, helement, -⟩ := hlive.element i (by omega)
    have hlive' : Live ec tmp (i + 1 + left) := by rwa [show i + 1 + left = i + (left + 1) by omega]
    -- the tables of a loaded instance are those of the instance
    have hloaded : Live ec (loadEntry sae tmp key (some P) (some Q)).2 (i + 1 + left) :=
      ⟨hlive'.ec_eq, hlive'.key, hlive'.pwe, hlive'.element⟩
    rw [searchEntries, Table.read_of_entry .keys hkey]
    by_cases hlen : data.length < 2 + key.kck.length
    · obtain ⟨r, hr⟩ := searchEntries_total host data left (i + 1) sae tmp hlive'
      exact ⟨r, by rw [← hr]; exact if_pos hlen⟩
    · obtain ⟨r, hr⟩ := searchEntries_total host data left (i + 1) _ _ hloaded
      rw [Table.slot_of_entry .pweEccs hpwe, Table.slot_of_entry .ownCommitElementEccs helement]
      simp only [bind, Except.bind, if_neg hlen]
      split
      · split
        · exact ⟨_, rfl⟩
        · exact ⟨r, hr⟩
      · split
        · exact ⟨_, rfl⟩
        · exact ⟨r, hr⟩

end Search

/-! ## A confirm that is accepted -/

/-- The session has the keys and the points of an index. -/
structure HasEntry (sae : SaeData) (key : KeyEntry) (pwe element : EcPoint) : Prop where
  pmk : sae.pmk = key.pmk
  pmkid : sae.pmkid = key.pmkid
  tmp : ∃ tmp, sae.tmp = some tmp ∧ tmp.kck = key.kck ∧ tmp.pweEcc = some pwe ∧ tmp.ownCommitElementEcc = some element

/-- What `sae_ap_check_confirm` leaves when it accepts the confirm for the index `i`. -/
structure AcceptedAs (tmp : SaeTmp) (i : ℕ) (sae' : SaeData) (offset : ℕ) (key : KeyEntry) (pwe element : EcPoint) :
    Prop where
  key_eq : tmp.keys.entry i = some key
  pwe_eq : tmp.pweEccs.entry i = some pwe
  element_eq : tmp.ownCommitElementEccs.entry i = some element
  session : HasEntry sae' key pwe element
  offset_eq : offset = 2 + key.kck.length

theorem Finds.acceptedAs {n j : ℕ} {key : KeyEntry} {pwe element : Option EcPoint} (hlive : Live ec tmp n)
    (hf : Finds host data n 0 sae tmp sae' tmp' j key pwe element) :
    ∃ P Q, AcceptedAs tmp j { sae' with tmp := some tmp' } (2 + key.kck.length) key P Q := by
  have hj : j < n := by have := hf.lt; omega
  obtain ⟨P, hP, hPv⟩ := hlive.pwe j hj
  obtain ⟨Q, hQ, hQv⟩ := hlive.element j hj
  obtain rfl : pwe = some P := Except.ok.inj (hf.verifies.pwe_eq.symm.trans (Table.slot_of_entry .pweEccs hP))
  obtain rfl : element = some Q :=
    Except.ok.inj (hf.verifies.element_eq.symm.trans (Table.slot_of_entry .ownCommitElementEccs hQ))
  refine ⟨P, Q, Table.read_ok hf.verifies.key_eq, hP, hQ, ⟨?_, ?_, tmp', rfl, ?_, ?_, ?_⟩, rfl⟩
  · rw [hf.sae_eq]
    rfl
  · rw [hf.sae_eq]
    rfl
  · rw [hf.tmp_eq]
    rfl
  · rw [hf.tmp_eq]
    simp [releaseTables, loadEntry, hlive.ec_eq, clonePoint_valid hPv]
  · rw [hf.tmp_eq]
    simp [releaseTables, loadEntry, hlive.ec_eq, clonePoint_valid hQv]

section Search

variable {peerScalar ownScalar : ℤ} {peerElement : EcPoint}

theorem searchEntries_none_matches (hlive : Live ec tmp tmp.numPasswords.toNat)
    (hex : Exchanged sae tmp peerScalar ownScalar peerElement)
    (h : searchEntries host data tmp.numPasswords.toNat 0 sae tmp = .ok (sae', tmp', none)) :
    ∀ i < tmp.numPasswords.toNat, ¬Matches host ec tmp peerScalar ownScalar peerElement data i := by
  intro i hi hm
  obtain ⟨-, hnone⟩ := searchEntries_none h
  obtain ⟨key, pwe, element, hv⟩ := (verifies_iff hlive hex hi).2 hm
  exact (hnone (by rw [hlive.ec_eq]; rfl) i (Nat.zero_le i) (by omega)).2 key pwe element hv

theorem searchEntries_some_matches {o : ℕ} (hlive : Live ec tmp tmp.numPasswords.toNat)
    (hex : Exchanged sae tmp peerScalar ownScalar peerElement)
    (h : searchEntries host data tmp.numPasswords.toNat 0 sae tmp = .ok (sae', tmp', some o)) :
    ∃ i key pwe element, i < tmp.numPasswords.toNat ∧ Matches host ec tmp peerScalar ownScalar peerElement data i ∧
      (∀ j < i, ¬Matches host ec tmp peerScalar ownScalar peerElement data j) ∧
      AcceptedAs tmp i { sae' with tmp := some tmp' } o key pwe element := by
  obtain ⟨j, key, pwe, element, hf, rfl⟩ := searchEntries_some h
  have hj : j < tmp.numPasswords.toNat := by have := hf.lt; omega
  obtain ⟨P, Q, haccepted⟩ := hf.acceptedAs hlive
  refine ⟨j, key, P, Q, hj, (verifies_iff hlive hex hj).1 ⟨key, pwe, element, hf.verifies⟩, fun k hk hm => ?_, haccepted⟩
  obtain ⟨key', pwe', element', hv⟩ := (verifies_iff hlive hex (hk.trans hj)).2 hm
  exact hf.first k (Nat.zero_le k) hk key' pwe' element' hv

theorem saeApCheckConfirmIe_of_search {offset : Option ℕ} (ht : sae.tmp = some tmp)
    (h : searchEntries host data tmp.numPasswords.toNat 0 sae tmp = .ok (sae', tmp', offset)) :
    saeApCheckConfirmIe host data sae = .ok ({ sae' with tmp := some tmp' }, offset) := by
  rw [saeApCheckConfirmIe, ht]
  simp only [h, bind, Except.bind]
  rfl

/-- A confirm that matches an index is accepted, for this index if it matches none before it. -/
theorem saeApCheckConfirm_of_matches {i : ℕ} (ht : sae.tmp = some tmp) (hlive : Live ec tmp tmp.numPasswords.toNat)
    (hex : Exchanged sae tmp peerScalar ownScalar peerElement) (hi : i < tmp.numPasswords.toNat)
    (hm : Matches host ec tmp peerScalar ownScalar peerElement data i) :
    ∃ sae', (saeApCheckConfirm host data sae).result = .ok (sae', true) ∧
      ((∀ j < i, ¬Matches host ec tmp peerScalar ownScalar peerElement data j) →
        ∃ o key pwe element, AcceptedAs tmp i sae' o key pwe element) := by
  obtain ⟨⟨s, t, offset⟩, hr⟩ := searchEntries_total host data tmp.numPasswords.toNat 0 sae tmp (by simpa using hlive)
  cases offset with
  | none => exact absurd hm (searchEntries_none_matches hlive hex hr i hi)
  | some o =>
    obtain ⟨j, key, pwe, element, hj, hmj, hbefore, haccepted⟩ := searchEntries_some_matches hlive hex hr
    refine ⟨{ s with tmp := some t }, ?_, fun hfirst => ⟨o, key, pwe, element, ?_⟩⟩
    · rw [saeApCheckConfirm, saeApCheckConfirmIe_of_search ht hr]
      rfl
    · obtain rfl : j = i := by
        rcases Nat.lt_trichotomy j i with hlt | heq | hlt
        · exact absurd hmj (hfirst j hlt)
        · exact heq
        · exact absurd hm (hbefore i hlt)
      exact haccepted

end Search

/-- **Confirm matching.** On live tables `sae_ap_check_confirm` returns 0 if and only if the confirm matches an index, and
then the session and the offset are those of the least index that it matches. -/
theorem checkConfirm_matches {peerScalar ownScalar : ℤ} {peerElement : EcPoint} (ht : sae.tmp = some tmp)
    (hlive : Live ec tmp tmp.numPasswords.toNat) (hex : Exchanged sae tmp peerScalar ownScalar peerElement) :
    ∃ sae' offset, saeApCheckConfirmIe host data sae = .ok (sae', offset) ∧
      (offset.isSome ↔ ∃ i < tmp.numPasswords.toNat, Matches host ec tmp peerScalar ownScalar peerElement data i) ∧
      ∀ o, offset = some o → ∃ i key pwe element, i < tmp.numPasswords.toNat ∧
        Matches host ec tmp peerScalar ownScalar peerElement data i ∧
        (∀ j < i, ¬Matches host ec tmp peerScalar ownScalar peerElement data j) ∧
        AcceptedAs tmp i sae' o key pwe element := by
  obtain ⟨⟨s, t, offset⟩, hr⟩ := searchEntries_total host data tmp.numPasswords.toNat 0 sae tmp (by simpa using hlive)
  refine ⟨{ s with tmp := some t }, offset, saeApCheckConfirmIe_of_search ht hr, ?_, ?_⟩
  · cases offset with
    | none =>
      refine iff_of_false nofun ?_
      rintro ⟨i, hi, hm⟩
      exact searchEntries_none_matches hlive hex hr i hi hm
    | some o =>
      obtain ⟨i, -, -, -, hi, hm, -⟩ := searchEntries_some_matches hlive hex hr
      exact iff_of_true rfl ⟨i, hi, hm⟩
  · intro o ho
    rw [ho] at hr
    exact searchEntries_some_matches hlive hex hr

/-- An access point on the small host with keys for both passwords. -/
def Small.liveTmp : SaeTmp where
  numPasswords := 2
  keys := .live [some ⟨List.replicate 32 1, [11], [12]⟩, some ⟨List.replicate 32 2, [21], [22]⟩]
  pweEccs := .live [some (.affine 10 18), some (.affine 1 11)]
  ownCommitElementEccs := .live [some (.affine 8 8), some (.affine 18 9)]
  ownCommitScalar := some 8
  peerCommitElementEcc := some (.affine 0 2)
  ec := some Small.group
  primeLen := 1

def Small.liveSae : SaeData := { group := 19, peerCommitScalar := some 5, tmp := some Small.liveTmp }

theorem Small.live_liveTmp : Live Small.group Small.liveTmp 2 := by
  refine ⟨rfl, ?_, ?_, ?_⟩
  · rintro (_ | _ | i) hi
    · exact ⟨_, rfl⟩
    · exact ⟨_, rfl⟩
    · omega
  · rintro (_ | _ | i) hi
    · exact ⟨_, rfl, by decide +kernel⟩
    · exact ⟨_, rfl, by decide +kernel⟩
    · omega
  · rintro (_ | _ | i) hi
    · exact ⟨_, rfl, by decide +kernel⟩
    · exact ⟨_, rfl, by decide +kernel⟩
    · omega

/-- The confirm that matches the second index. -/
def Small.matching : Bytes := Bytes.le16 1 ++ Small.digest 32 2520

theorem checkConfirm_matches_small : ∃ sae' i key pwe element, saeApCheckConfirmIe Small.host Small.matching Small.liveSae =
    .ok (sae', some 34) ∧ i < 2 ∧ Matches Small.host Small.group Small.liveTmp 5 8 (.affine 0 2) Small.matching i ∧
      AcceptedAs Small.liveTmp i sae' 34 key pwe element := by
  obtain ⟨sae', offset, hr, -, haccepted⟩ := @checkConfirm_matches Small.host Small.matching Small.liveSae Small.liveTmp
    Small.group 5 8 (.affine 0 2) rfl Small.live_liveTmp ⟨rfl, rfl, rfl⟩
  have hoffset : (saeApCheckConfirmIe Small.host Small.matching Small.liveSae).toOption.bind Prod.snd = some 34 := by
    decide +kernel
  rw [hr] at hoffset
  obtain rfl : offset = some 34 := hoffset
  obtain ⟨i, key, pwe, element, hi, hm, -, ha⟩ := haccepted 34 rfl
  exact ⟨sae', i, key, pwe, element, hr, hi, hm, ha⟩

/-! ## A confirm that is rejected -/

/-- The key material of a session. -/
structure Session where
  pmk : Bytes
  pmkid : Bytes
  kck : Bytes
  pweEcc : Option EcPoint
  ownCommitElementEcc : Option EcPoint
deriving DecidableEq

def sessionOf (sae : SaeData) (tmp : SaeTmp) : Session :=
  ⟨sae.pmk, sae.pmkid, tmp.kck, tmp.pweEcc, tmp.ownCommitElementEcc⟩

/-- The instance with the last index that a search without a match loads, of `left` indexes from `i` on. -/
def lastLoaded (host : Host) (data : Bytes) (sae : SaeData) (tmp : SaeTmp) : ℕ → ℕ → Option (SaeData × SaeTmp)
  | 0, _ => none
  | left + 1, i =>
    match tmp.keys.entry i with
    | none => none
    | some key =>
      if data.length < 2 + key.kck.length then lastLoaded host data sae tmp left (i + 1)
      else
        let loaded := loadEntry sae tmp key (tmp.pweEccs.entry i) (tmp.ownCommitElementEccs.entry i)
        if givesUp host data loaded.1 loaded.2 then some loaded
        else (lastLoaded host data sae tmp left (i + 1)).or (some loaded)

theorem lastLoaded_loadEntry (key : KeyEntry) (pwe element : Option EcPoint) : ∀ left i,
    lastLoaded host data (loadEntry sae tmp key pwe element).1 (loadEntry sae tmp key pwe element).2 left i =
      lastLoaded host data sae tmp left i
  | 0, _ => rfl
  | left + 1, i => by
    unfold lastLoaded
    rw [lastLoaded_loadEntry key pwe element left (i + 1)]
    rfl

theorem Table.entry_of_slot {α : Type} {t : Table α} {id : TableId} {i : ℕ} {a : Option α} (h : t.slot id i = .ok a) :
    t.entry i = a := by
  cases t with
  | unset => cases h
  | released => cases h
  | live es =>
    simp only [slot] at h
    split at h
    · cases h
    · next he => cases h; simp [entry, he]

/-- **What a failed search leaves**: the index that it loaded last. -/
theorem searchEntries_lastLoaded : ∀ {left i : ℕ} {sae : SaeData} {tmp : SaeTmp},
    searchEntries host data left i sae tmp = .ok (sae', tmp', none) →
      (sae', tmp') = (lastLoaded host data sae tmp left i).getD (sae, tmp)
  | 0, _, _, _, h => by
    cases h
    rfl
  | left + 1, i, sae, tmp, h => by
    obtain ⟨key, hkey, ⟨_, _, -, h, -⟩ | ⟨-, hgoes⟩⟩ := searchEntries_succ h
    · cases h
    · unfold lastLoaded
      rw [Table.read_ok hkey]
      cases hgoes with
      | short hlen h =>
        simp only [if_pos hlen]
        exact searchEntries_lastLoaded h
      | loaded pwe element hlen hpwe helement hgoes h =>
        simp only [if_neg (not_lt.2 hlen), Table.entry_of_slot hpwe, Table.entry_of_slot helement, hgoes,
          Bool.false_eq_true, if_false]
        rw [searchEntries_lastLoaded h, lastLoaded_loadEntry]
        cases lastLoaded host data sae tmp left (i + 1) <;> rfl
      | gaveUp pwe element hlen hpwe helement hgives h =>
        cases h
        simp only [if_neg (not_lt.2 hlen), Table.entry_of_slot hpwe, Table.entry_of_slot helement, hgives, if_true]
        rfl

/-- **The session after a rejected confirm** is as before if and only if no index was loaded, or the one that was loaded
last has the key material that the session had. -/
theorem rejected_session_iff (ht : sae.tmp = some tmp)
    (h : (saeApCheckConfirm host data sae).result = .ok (sae', false)) :
    ∃ tmp', sae'.tmp = some tmp' ∧ (sessionOf sae' tmp' = sessionOf sae tmp ↔
      ∀ loaded, lastLoaded host data sae tmp tmp.numPasswords.toNat 0 = some loaded →
        sessionOf loaded.1 loaded.2 = sessionOf sae tmp) := by
  obtain ⟨_, s, t, offset, ht', hloop, heq, -⟩ := saeApCheckConfirm_ok h
  cases ht.symm.trans ht'
  cases offset with
  | some o => cases heq
  | none =>
    cases heq
    have hlast := searchEntries_lastLoaded hloop
    have hsession : sessionOf { s with tmp := some t } t = sessionOf s t := rfl
    refine ⟨t, rfl, ?_⟩
    rw [hsession]
    cases hl : lastLoaded host data sae tmp tmp.numPasswords.toNat 0 with
    | none =>
      rw [hl, Option.getD_none, Prod.mk.injEq] at hlast
      rw [hlast.1, hlast.2]
      simp
    | some loaded =>
      rw [hl, Option.getD_some] at hlast
      subst hlast
      simp

/-- What a confirm leaves on the small host. -/
def Small.checked (data : Bytes) : Option (Bool × Session) :=
  (saeApCheckConfirm Small.host data Small.liveSae).valueOf.bind fun r => r.1.tmp.map fun tmp => (r.2, sessionOf r.1 tmp)

theorem Small.exists_of_checked {data : Bytes} {ok : Bool} {session : Session}
    (h : Small.checked data = some (ok, session)) : ∃ sae tmp,
      (saeApCheckConfirm Small.host data Small.liveSae).result = .ok (sae, ok) ∧ sae.tmp = some tmp ∧
        sessionOf sae tmp = session := by
  obtain ⟨⟨sae, found⟩, hr, h⟩ := Option.bind_eq_some_iff.1 h
  obtain ⟨tmp, ht, h⟩ := Option.map_eq_some_iff.1 h
  cases h
  exact ⟨sae, tmp, Run.result_of_valueOf hr, ht, rfl⟩

/-- A confirm without a verifier is too short for every key. -/
theorem rejected_session_small : ∃ sae' tmp', (saeApCheckConfirm Small.host [1, 0] Small.liveSae).result =
    .ok (sae', false) ∧ sae'.tmp = some tmp' ∧ sessionOf sae' tmp' = sessionOf Small.liveSae Small.liveTmp := by
  obtain ⟨sae', tmp, hr, -, -⟩ := Small.exists_of_checked
    (show Small.checked [1, 0] = some (false, sessionOf Small.liveSae Small.liveTmp) by decide +kernel)
  obtain ⟨tmp', ht, hiff⟩ := rejected_session_iff rfl hr
  have hlast : (lastLoaded Small.host [1, 0] Small.liveSae Small.liveTmp Small.liveTmp.numPasswords.toNat 0).isNone := by
    decide +kernel
  rw [Option.isNone_iff_eq_none] at hlast
  exact ⟨sae', tmp', hr, ht, hiff.2 (by rw [hlast]; simp)⟩

/-- A confirm with a wrong verifier leaves the keys of the second password, where there were none. -/
theorem rejected_session_ne : ∃ sae' tmp', (saeApCheckConfirm Small.host (Bytes.le16 1 ++ Small.digest 32 0)
    Small.liveSae).result = .ok (sae', false) ∧ sae'.tmp = some tmp' ∧ Small.liveSae.pmk = [] ∧ sae'.pmk = [21] ∧
      sessionOf sae' tmp' ≠ sessionOf Small.liveSae Small.liveTmp := by
  obtain ⟨sae', tmp', hr, ht, hs⟩ := Small.exists_of_checked
    (show Small.checked (Bytes.le16 1 ++ Small.digest 32 0) = some (false,
      ⟨[21], [22], List.replicate 32 2, some (.affine 1 11), some (.affine 18 9)⟩) by decide +kernel)
  exact ⟨sae', tmp', hr, ht, rfl, congrArg Session.pmk hs, by rw [hs]; decide⟩

end DecoyAuth
