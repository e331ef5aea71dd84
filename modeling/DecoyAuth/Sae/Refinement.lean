import DecoyAuth.Sae.Confirm
import DecoyAuth.Sae.Prepared

/-!
# An instance with many passwords is many instances with one

`sae_ap_process_commit` is a loop around a copy of `sae_process_commit`. On an ECC group both derive the keys of a password
element by `entryKeys`: the loop succeeds exactly if `sae_process_commit` succeeds for the password element of every index,
and then its tables have the keys of `sae_process_commit` at each of them (`processCommit_refines`).
-/

namespace DecoyAuth

variable {host : Host} {sae sae' : SaeData} {tmp tmp' : SaeTmp} {ec : EcGroup}
variable {peerScalar ownScalar rand : ℤ} {peerElement pwe : EcPoint}

/-! ## The keys of a password element -/

/-- What the keys are derived from besides the password element. -/
structure ReadyForKeys (ec : EcGroup) (sae : SaeData) (tmp : SaeTmp) (peerScalar ownScalar rand : ℤ)
    (peerElement : EcPoint) : Prop extends Exchanged sae tmp peerScalar ownScalar peerElement where
  ec_eq : tmp.ec = some ec
  saeRand : tmp.saeRand = some rand

/-- The keys of a password element. -/
def entryKeys (host : Host) (ec : EcGroup) (sae : SaeData) (tmp : SaeTmp) (peerScalar ownScalar rand : ℤ)
    (peerElement pwe : EcPoint) : Option KeyEntry :=
  (deriveKEcc ec.toEcParams pwe peerScalar peerElement rand).bind (deriveKeys host.hash sae tmp ownScalar peerScalar)

/-- One index of `sae_ap_process_commit`. -/
theorem apDeriveKeys_entry {i : ℕ} (hr : ReadyForKeys ec sae tmp peerScalar ownScalar rand peerElement)
    (hpwe : tmp.pweEccs.entry i = some pwe) :
    apDeriveKeys host sae tmp i = .ok (entryKeys host ec sae tmp peerScalar ownScalar rand peerElement pwe) := by
  have hshared : apSharedSecret sae tmp i = .ok (deriveKEcc ec.toEcParams pwe peerScalar peerElement rand) := by
    simp only [apSharedSecret, saeApDeriveKEcc, hr.ec_eq, Table.slot_of_entry .pweEccs hpwe, hr.peerCommitScalar, hr.peerCommitElementEcc,
      hr.saeRand, need]
    rfl
  unfold apDeriveKeys entryKeys
  rw [hshared]
  cases deriveKEcc ec.toEcParams pwe peerScalar peerElement rand with
  | none => rfl
  | some k =>
    simp only [saeApDeriveKeys, hr.ownCommitScalar, hr.peerCommitScalar, need]
    rfl

/-- The instance with the keys of an entry. -/
def SaeData.withKeys (sae : SaeData) (key : KeyEntry) : SaeData :=
  { sae with pmk := key.pmk, pmkid := key.pmkid, tmp := sae.tmp.map fun tmp => { tmp with kck := key.kck } }

/-- `sae_process_commit` -/
theorem saeProcessCommit_entry (ht : sae.tmp = some tmp)
    (hr : ReadyForKeys ec sae tmp peerScalar ownScalar rand peerElement) (hpwe : tmp.pweEcc = some pwe) :
    saeProcessCommit host sae =
      (entryKeys host ec sae tmp peerScalar ownScalar rand peerElement pwe).map sae.withKeys := by
  unfold saeProcessCommit saeDeriveKEcc saeDeriveKeys entryKeys SaeData.withKeys
  simp only [ht, hr.ec_eq, hpwe, hr.peerCommitScalar, hr.peerCommitElementEcc, hr.saeRand, hr.ownCommitScalar,
    Option.bind_eq_bind, Option.bind_some, Option.map_some]
  cases deriveKEcc ec.toEcParams pwe peerScalar peerElement rand with
  | none => rfl
  | some k =>
    simp only [Option.bind_some]
    cases deriveKeys host.hash sae tmp ownScalar peerScalar k with
    | none => rfl
    | some key => rfl

/-! ## The loop -/

/-- The tables of keys are `NULL` or have an entry per password, as they do until `sae_ap_check_confirm` frees them together
with the password elements. -/
structure KeysUsable (tmp : SaeTmp) : Prop where
  held : tmp.keys ≠ .released
  ofSize : tmp.keys.OfSize tmp.numPasswords.toNat

theorem KeysUsable.write {i : ℕ} (h : KeysUsable tmp) (hi : i < tmp.numPasswords.toNat) (key : KeyEntry) :
    ∃ keys, (allocKeys tmp).write .keys i (some key) = .ok keys ∧ KeysUsable { tmp with keys := keys } := by
  have hlive : ∃ es, allocKeys tmp = .live es ∧ es.length = tmp.numPasswords.toNat := by
    unfold allocKeys
    split
    · exact ⟨_, rfl, by simp⟩
    · next hset =>
      cases hkeys : tmp.keys with
      | unset => exact absurd hkeys hset
      | released => exact absurd hkeys h.held
      | live es => exact ⟨es, rfl, h.ofSize es hkeys⟩
  obtain ⟨es, hes, hlen⟩ := hlive
  have hwrite : (allocKeys tmp).write .keys i (some key) = .ok (.live (es.set i (some key))) := by
    rw [hes, Table.write, if_pos (by omega)]
  obtain ⟨-, -, hheld, hsize⟩ := storeKey hwrite
  exact ⟨_, hwrite, hheld, hsize h.ofSize⟩

/-- The loop ends, and it succeeds exactly if every index has keys. -/
theorem processEntries_total (keysOf : ℕ → Option KeyEntry) : ∀ {left i : ℕ} {tmp : SaeTmp},
    (∀ j, i ≤ j → j < i + left → apDeriveKeys host sae tmp j = .ok (keysOf j)) → KeysUsable tmp →
      i + left ≤ tmp.numPasswords.toNat → ∃ tmp' ok, processEntries host sae left i tmp = .ok (tmp', ok) ∧
        (ok = true ↔ ∀ j, i ≤ j → j < i + left → (keysOf j).isSome) := by
  intro left
  induction left with
  | zero =>
    intro i tmp _ _ _
    exact ⟨tmp, true, rfl, by simp; omega⟩
  | succ left ih =>
    intro i tmp hder hkeys hn
    have hi := hder i le_rfl (by omega)
    rw [processEntries, hi]
    cases hk : keysOf i with
    | none =>
      refine ⟨tmp, false, rfl, nofun, fun h => ?_⟩
      have := h i le_rfl (by omega)
      rw [hk] at this
      cases this
    | some key =>
      obtain ⟨keys, hwrite, hkeys'⟩ := hkeys.write (show i < tmp.numPasswords.toNat by omega) key
      have hder' : ∀ j, i + 1 ≤ j → j < i + 1 + left →
          apDeriveKeys host sae { tmp with keys := keys } j = .ok (keysOf j) := by
        intro j hj hj'
        exact hder j (by omega) (by omega)
      obtain ⟨tmp', ok, hloop, hok⟩ := ih hder' hkeys' (show i + 1 + left ≤ tmp.numPasswords.toNat by omega)
      refine ⟨tmp', ok, ?_, hok.trans ⟨fun h j hj hj' => ?_, fun h j hj hj' => h j (by omega) (by omega)⟩⟩
      · simp only [bind, Except.bind, hwrite]
        exact hloop
      · rcases Nat.eq_or_lt_of_le hj with rfl | hj
        · rw [hk]; rfl
        · exact h j hj (by omega)

/-! ## The refinement -/

/-- What the exchange adds to a prepared instance: the peer's scalar and element, and what was negotiated. -/
structure Negotiated where
  peerScalar : ℤ
  peerElement : EcPoint
  h2e : Bool
  akmp : Akmp
  ownAddrHigher : Bool
  ownRejectedGroups : Option Bytes
  peerRejectedGroups : Option Bytes

def SaeTmp.negotiate (tmp : SaeTmp) (neg : Negotiated) : SaeTmp :=
  { tmp with
    peerCommitElementEcc := some neg.peerElement
    ownAddrHigher := neg.ownAddrHigher
    ownRejectedGroups := neg.ownRejectedGroups
    peerRejectedGroups := neg.peerRejectedGroups }

def SaeData.negotiate (sae : SaeData) (neg : Negotiated) : SaeData :=
  { sae with
    peerCommitScalar := some neg.peerScalar
    h2e := neg.h2e
    akmp := neg.akmp
    tmp := sae.tmp.map (·.negotiate neg) }

/-- The instance of `sae_process_commit` for one index: its password element is that of the index. -/
def SaeData.single (sae : SaeData) (i : ℕ) : SaeData :=
  { sae with tmp := sae.tmp.map fun tmp => { tmp with pweEcc := tmp.pweEccs.entry i } }

/-- The keys of an instance with one password. -/
def SaeData.keyEntry (sae : SaeData) : KeyEntry where
  kck := (sae.tmp.map SaeTmp.kck).getD []
  pmk := sae.pmk
  pmkid := sae.pmkid

/-- An instance with `n` passwords processes a commit as `n` instances with one: it succeeds with them, its tables then
have their keys, and an index touches no other. -/
structure Refines (host : Host) (n : ℕ) (sae : SaeData) : Prop where
  total : ∃ sae' ok, (saeApProcessCommit host sae).result = .ok (sae', ok)
  ok_iff : ∀ sae' ok, (saeApProcessCommit host sae).result = .ok (sae', ok) →
    (ok = true ↔ ∀ i < n, (saeProcessCommit host (sae.single i)).isSome)
  keys : ∀ sae', (saeApProcessCommit host sae).result = .ok (sae', true) → ∀ i < n, ∃ one tmp',
    saeProcessCommit host (sae.single i) = some one ∧ sae'.tmp = some tmp' ∧ tmp'.keys.entry i = some one.keyEntry
  others : ∀ i tmp tmp' ok, processEntries host sae 1 i tmp = .ok (tmp', ok) →
    ∀ j ≠ i, tmp'.keys.entry j = tmp.keys.entry j

/-- The instance of an index derives the keys of its password element. -/
theorem saeProcessCommit_single {i : ℕ} {pwe : EcPoint} (ht : sae.tmp = some tmp)
    (hr : ReadyForKeys ec sae tmp peerScalar ownScalar rand peerElement) (hpwe : tmp.pweEccs.entry i = some pwe) :
    saeProcessCommit host (sae.single i) =
      (entryKeys host ec sae tmp peerScalar ownScalar rand peerElement pwe).map (sae.single i).withKeys := by
  have ht' : (sae.single i).tmp = some { tmp with pweEcc := some pwe } := by
    simp only [SaeData.single, ht, Option.map_some, hpwe]
  have hr' : ReadyForKeys ec (sae.single i) { tmp with pweEcc := some pwe } peerScalar ownScalar rand peerElement :=
    ⟨⟨hr.peerCommitScalar, hr.ownCommitScalar, hr.peerCommitElementEcc⟩, hr.ec_eq, hr.saeRand⟩
  -- the keys do not depend on the single password element
  have hprocess : saeProcessCommit host (sae.single i) = (entryKeys host ec (sae.single i)
      { tmp with pweEcc := some pwe } peerScalar ownScalar rand peerElement pwe).map (sae.single i).withKeys :=
    saeProcessCommit_entry ht' hr' rfl
  exact hprocess

theorem saeApProcessCommit_of_processEntries {tmp' : SaeTmp} {ok : Bool} (ht : sae.tmp = some tmp)
    (hloop : processEntries host sae tmp.numPasswords.toNat 0 tmp = .ok (tmp', ok)) :
    (saeApProcessCommit host sae).result =
      .ok ({ sae with tmp := some tmp', processed := sae.processed || ok }, ok) := by
  unfold saeApProcessCommit
  rw [ht]
  change (Run.lift _ >>= _).result = _
  rw [Run.bind_of_ok hloop]
  rfl

/-- The instances of the indexes, from the keys of their password elements. -/
theorem refines_of_entries (ht : sae.tmp = some tmp)
    (hr : ReadyForKeys ec sae tmp peerScalar ownScalar rand peerElement) (hkeys : KeysUsable tmp)
    (hpwe : ∀ i < tmp.numPasswords.toNat, ∃ pwe, tmp.pweEccs.entry i = some pwe) :
    Refines host tmp.numPasswords.toNat sae := by
  -- the keys of an index
  let keysOf : ℕ → Option KeyEntry := fun i =>
    (tmp.pweEccs.entry i).bind (entryKeys host ec sae tmp peerScalar ownScalar rand peerElement)
  have hder : ∀ i < tmp.numPasswords.toNat, apDeriveKeys host sae tmp i = .ok (keysOf i) := by
    intro i hi
    obtain ⟨pwe, hpwe⟩ := hpwe i hi
    simp only [keysOf, hpwe, Option.bind_some]
    exact apDeriveKeys_entry hr hpwe
  have hsingle : ∀ i < tmp.numPasswords.toNat,
      saeProcessCommit host (sae.single i) = (keysOf i).map (sae.single i).withKeys := by
    intro i hi
    obtain ⟨pwe, hpwe⟩ := hpwe i hi
    simp only [keysOf, hpwe, Option.bind_some]
    exact saeProcessCommit_single ht hr hpwe
  obtain ⟨tmp', ok, hloop, hok⟩ := processEntries_total keysOf
    (fun j _ hj => hder j (by omega)) hkeys (show 0 + tmp.numPasswords.toNat ≤ _ by omega)
  have hresult := saeApProcessCommit_of_processEntries ht hloop
  refine ⟨⟨_, ok, hresult⟩, fun sae' ok' h => ?_, fun sae' h i hi => ?_, fun i t t' ok' h j hj => ?_⟩
  · cases hresult.symm.trans h
    constructor
    · intro h i hi
      rw [hsingle i hi, Option.isSome_map]
      exact hok.1 h i (Nat.zero_le i) (by omega)
    · intro h
      refine hok.2 fun i _ hi => ?_
      rw [← Option.isSome_map, ← hsingle i (by omega)]
      exact h i (by omega)
  · cases hresult.symm.trans h
    obtain ⟨key, hentry, hkey⟩ := (processEntries_stores hloop).stored rfl i (Nat.zero_le i) (by omega)
    have hk : keysOf i = some key := Except.ok.inj ((hder i hi).symm.trans hkey)
    refine ⟨(sae.single i).withKeys key, tmp', by rw [hsingle i hi, hk]; rfl, rfl, ?_⟩
    rw [hentry]
    simp only [SaeData.keyEntry, SaeData.withKeys, SaeData.single, ht, Option.map_some, Option.getD_some]
  · exact (processEntries_stores h).outside j (by omega)

/-- **An access point refines its passwords' instances.** A prepared instance of an ECC group processes the commit of any
peer as `sae_process_commit` does with the password element of each index, whatever was negotiated. -/
theorem processCommit_refines {addr1 addr2 : MacAddr} {draws : CommitDraws} (ht : sae.tmp = some tmp)
    (hec : tmp.ec = some ec) (hkeys : KeysUsable tmp)
    (hprepare : (saeApPrepareCommit host addr1 addr2 draws sae).result = .ok (sae', true)) (neg : Negotiated) :
    Refines host tmp.numPasswords.toNat (sae'.negotiate neg) := by
  obtain ⟨s, t, values, rfl, -, hentries, -⟩ := saeApPrepareCommit_loops ht hec hprepare
  have htec : t.ec = some ec := by rw [hentries.frame]; exact hec
  have hn : t.numPasswords = tmp.numPasswords := by rw [hentries.frame]
  have hkeys' : KeysUsable (t.negotiate neg) := by
    have hkeysEq : t.keys = tmp.keys := by rw [hentries.frame]
    constructor
    · exact fun h => hkeys.held (hkeysEq.symm.trans h)
    · intro es hes
      exact (hkeys.ofSize es (hkeysEq.symm.trans hes)).trans (congrArg Int.toNat hn.symm)
  have hpwe : ∀ i < t.numPasswords.toNat, ∃ pwe, t.pweEccs.entry i = some pwe := by
    intro i hi
    obtain ⟨pwe, hpwe⟩ := hentries.prepared i (Nat.zero_le i) (by rw [hn] at hi; omega)
    exact ⟨pwe, hpwe.pwe_eq⟩
  have hready : ReadyForKeys ec ({ s with tmp := some (storeCoefficients host tmp.numPasswords.toNat values t) }.negotiate
      neg) ((storeCoefficients host tmp.numPasswords.toNat values t).negotiate neg) neg.peerScalar
      (generateScalar tmp draws).1.scalar (generateScalar tmp draws).1.rand neg.peerElement := by
    rw [storeCoefficients_ecc htec]
    refine ⟨⟨rfl, ?_, rfl⟩, htec, ?_⟩
    · exact (congrArg SaeTmp.ownCommitScalar hentries.frame :)
    · exact (congrArg SaeTmp.saeRand hentries.frame :)
  rw [storeCoefficients_ecc htec, hn.symm] at hready ⊢
  have hrefines : Refines host _ _ := refines_of_entries rfl hready ⟨hkeys'.held, hkeys'.ofSize⟩ hpwe
  exact hrefines

theorem processCommit_refines_small : ∃ sae', (saeApPrepareCommit Small.host (Small.addr 1) (Small.addr 2) (Small.draws 1)
    Small.client).result = .ok (sae', true) ∧ ∀ neg, Refines Small.host 2 (sae'.negotiate neg) := by
  have hprepared : (saeApPrepareCommit Small.host (Small.addr 1) (Small.addr 2) (Small.draws 1)
      Small.client).valueOf.map Prod.snd = some true := by decide +kernel
  obtain ⟨⟨sae', ok⟩, hr, hok⟩ := Option.map_eq_some_iff.1 hprepared
  obtain rfl : ok = true := hok
  have hresult := Run.result_of_valueOf hr
  refine ⟨sae', hresult, fun neg => ?_⟩
  have hkeys : KeysUsable (newTmp Small.host Small.group) := ⟨nofun, nofun⟩
  exact processCommit_refines (show Small.client.tmp = some (newTmp Small.host Small.group) from rfl) rfl hkeys hresult neg

end DecoyAuth
