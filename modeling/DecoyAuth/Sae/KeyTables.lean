import DecoyAuth.Sae.Keys
import DecoyAuth.Sae.Send

/-!
# The tables of keys

What the loop of `sae_ap_process_commit` stores (`processEntries_stores`) and what the loop of `sae_ap_check_confirm` finds
(`searchEntries_some`, `searchEntries_none`). Both are inductions over the indexes that are left: the keys of an index are
a function of `keyInputs`, which neither loop changes.
-/

namespace DecoyAuth

variable {host : Host} {sae sae' : SaeData} {tmp tmp' : SaeTmp}

/-! ## The keys of one index -/

/-- Everything the keys of an index are derived from. -/
structure KeyInputs where
  h2e : Bool
  akmp : Akmp
  peerCommitScalar : Option ℤ
  peerCommitElementEcc : Option EcPoint
  peerCommitElementFfc : Option ℤ
  ownCommitScalar : Option ℤ
  saeRand : Option ℤ
  pweEccs : Table EcPoint
  pweFfc : Option ℤ
  ec : Option EcGroup
  dh : Option DhGroup
  primeLen : ℕ
  orderLen : ℕ
  prime : ℤ
  order : ℤ
  ownRejectedGroups : Option Bytes
  peerRejectedGroups : Option Bytes
  ownAddrHigher : Bool

def keyInputs (sae : SaeData) (tmp : SaeTmp) : KeyInputs where
  h2e := sae.h2e
  akmp := sae.akmp
  peerCommitScalar := sae.peerCommitScalar
  peerCommitElementEcc := tmp.peerCommitElementEcc
  peerCommitElementFfc := tmp.peerCommitElementFfc
  ownCommitScalar := tmp.ownCommitScalar
  saeRand := tmp.saeRand
  pweEccs := tmp.pweEccs
  pweFfc := tmp.pweFfc
  ec := tmp.ec
  dh := tmp.dh
  primeLen := tmp.primeLen
  orderLen := tmp.orderLen
  prime := tmp.prime
  order := tmp.order
  ownRejectedGroups := tmp.ownRejectedGroups
  peerRejectedGroups := tmp.peerRejectedGroups
  ownAddrHigher := tmp.ownAddrHigher

theorem apDeriveKeys_congr (h : keyInputs sae tmp = keyInputs sae' tmp') (i : ℕ) :
    apDeriveKeys host sae tmp i = apDeriveKeys host sae' tmp' i := by
  simp only [keyInputs, KeyInputs.mk.injEq] at h
  obtain ⟨h1, h2, h3, h4, h5, h6, h7, h8, h9, h10, h11, h12, h13, h14, h15, h16, h17, h18⟩ := h
  simp only [apDeriveKeys, apSharedSecret, saeApDeriveKEcc, saeDeriveKFfc, saeApDeriveKeys, deriveKeys, keySalt, keyHashLen,
    h1, h2, h3, h4, h5, h6, h7, h8, h9, h10, h11, h12, h13, h14, h15, h16, h17, h18]

theorem need_ok {α : Type} {a : Option α} {b : α} (h : need a = .ok b) : a = some b := by
  cases a with
  | some a => cases h; rfl
  | none => cases h

theorem need_error {α : Type} {a : Option α} {f : Fault} (h : need a = .error f) : f = .nullArgument := by
  cases a with
  | some a => cases h
  | none => cases h; rfl

theorem not_onReleased_nullArgument {α : Type} {a : Option α} {f : Fault} (h : need a = .error f) : ¬f.OnReleased := by
  rw [need_error h]
  simp [Fault.OnReleased]

theorem apSharedSecret_error {i : ℕ} {f : Fault} (hheld : tmp.pweEccs ≠ .released)
    (h : apSharedSecret sae tmp i = .error f) : ¬f.OnReleased := by
  unfold apSharedSecret at h
  split at h
  · unfold saeApDeriveKEcc at h
    rcases except_bind_error h with h | ⟨_, -, h⟩
    · exact not_onReleased_of_unset_or_outOfBounds (Table.slot_error h hheld)
    rcases except_bind_error h with h | ⟨_, -, h⟩
    · exact not_onReleased_nullArgument h
    rcases except_bind_error h with h | ⟨_, -, h⟩
    · exact not_onReleased_nullArgument h
    rcases except_bind_error h with h | ⟨_, -, h⟩
    · exact not_onReleased_nullArgument h
    rcases except_bind_error h with h | ⟨_, -, h⟩
    · exact not_onReleased_nullArgument h
    cases h
  · split at h
    · unfold saeDeriveKFfc at h
      rcases except_bind_error h with h | ⟨_, -, h⟩
      · exact not_onReleased_nullArgument h
      rcases except_bind_error h with h | ⟨_, -, h⟩
      · exact not_onReleased_nullArgument h
      rcases except_bind_error h with h | ⟨_, -, h⟩
      · exact not_onReleased_nullArgument h
      rcases except_bind_error h with h | ⟨_, -, h⟩
      · exact not_onReleased_nullArgument h
      cases h
    · cases h
      simp [Fault.OnReleased]

theorem apDeriveKeys_error {i : ℕ} {f : Fault} (hheld : tmp.pweEccs ≠ .released)
    (h : apDeriveKeys host sae tmp i = .error f) : ¬f.OnReleased := by
  unfold apDeriveKeys at h
  rcases except_bind_error h with h | ⟨k, -, h⟩
  · exact apSharedSecret_error hheld h
  · split at h
    · cases h
    · unfold saeApDeriveKeys at h
      rcases except_bind_error h with h | ⟨_, -, h⟩
      · exact not_onReleased_nullArgument h
      rcases except_bind_error h with h | ⟨_, -, h⟩
      · exact not_onReleased_nullArgument h
      cases h

/-! ## Storing keys -/

theorem Table.entry_lt {α : Type} {t : Table α} {es : List (Option α)} {j : ℕ} {a : α} (ht : t = .live es)
    (h : t.entry j = some a) : j < es.length := by
  subst ht
  simp only [Table.entry, Option.join_eq_some_iff] at h
  exact (List.getElem?_eq_some_iff.1 h).1

/-- A live table has `n` entries. -/
def Table.OfSize {α : Type} (n : ℕ) (t : Table α) : Prop := ∀ es, t = .live es → es.length = n

/-- One store into the tables of keys. -/
theorem storeKey {i : ℕ} {key : KeyEntry} {keys : Table KeyEntry}
    (h : (allocKeys tmp).write .keys i (some key) = .ok keys) :
    (∀ j, keys.entry j = if j = i then some key else tmp.keys.entry j) ∧ tmp.keys ≠ .released ∧ keys ≠ .released ∧
      (tmp.keys.OfSize tmp.numPasswords.toNat → keys.OfSize tmp.numPasswords.toNat) := by
  obtain ⟨es, hes, hi, rfl⟩ := Table.write_ok h
  unfold allocKeys at hes
  split at hes
  · next hunset =>
    cases hes
    refine ⟨fun j => ?_, by simp [hunset], by simp, fun _ es hes => ?_⟩
    · rw [Table.entry_set _ _ _ _ hi]
      by_cases hj : j = i
      · simp [hj]
      · simp only [hj, if_false, hunset, Table.entry, List.getElem?_replicate]
        split <;> rfl
    · cases hes
      simp
  · refine ⟨fun j => ?_, by simp [hes], by simp, fun hsize es' hes' => ?_⟩
    · rw [Table.entry_set _ _ _ _ hi, hes]
    · cases hes'
      simpa using hsize es hes

/-- What the loop of `sae_ap_process_commit` over `left` indexes from `i` on leaves in the tables. -/
structure Stores (host : Host) (sae : SaeData) (left i : ℕ) (tmp tmp' : SaeTmp) (ok : Bool) : Prop where
  frame : tmp' = { tmp with keys := tmp'.keys }
  source : ∀ j key, tmp'.keys.entry j = some key →
    tmp.keys.entry j = some key ∨ apDeriveKeys host sae tmp j = .ok (some key)
  stored : ok = true → ∀ j, i ≤ j → j < i + left →
    ∃ key, tmp'.keys.entry j = some key ∧ apDeriveKeys host sae tmp j = .ok (some key)
  failed : ok = false → ∃ j, i ≤ j ∧ j < i + left ∧ apDeriveKeys host sae tmp j = .ok none
  first : 0 < left → apDeriveKeys host sae tmp i = .ok none → ok = false ∧ tmp'.keys = tmp.keys
  outside : ∀ j, j < i ∨ i + left ≤ j → tmp'.keys.entry j = tmp.keys.entry j
  last : ok = false → tmp'.keys.entry (i + left - 1) = tmp.keys.entry (i + left - 1)
  released : tmp'.keys = .released ↔ tmp.keys = .released
  ofSize : tmp.keys.OfSize tmp.numPasswords.toNat → tmp'.keys.OfSize tmp.numPasswords.toNat

/-- **What `sae_ap_process_commit` stores.** A table entry is either an old one or derived from the instance, and after a
success every index is derived. -/
theorem processEntries_stores : ∀ {left i : ℕ} {tmp tmp' : SaeTmp} {ok : Bool},
    processEntries host sae left i tmp = .ok (tmp', ok) → Stores host sae left i tmp tmp' ok
  | 0, i, tmp, tmp', ok, h => by
    cases h
    exact ⟨rfl, fun _ _ h => .inl h, fun _ j h h' => by omega, nofun, fun h => absurd h (lt_irrefl 0), fun _ _ => rfl,
      fun _ => rfl, Iff.rfl, id⟩
  | left + 1, i, tmp, tmp', ok, h => by
    unfold processEntries at h
    obtain ⟨derived, hderived, h⟩ := except_bind_ok h
    cases derived with
    | none =>
      cases h
      exact ⟨rfl, fun _ _ h => .inl h, nofun, fun _ => ⟨i, le_rfl, by omega, hderived⟩, fun _ _ => ⟨rfl, rfl⟩,
        fun _ _ => rfl, fun _ => rfl, Iff.rfl, id⟩
    | some key =>
      obtain ⟨keys, hkeys, h⟩ := except_bind_ok h
      obtain ⟨hentry, hlive, hlive', hsize⟩ := storeKey hkeys
      have ih := processEntries_stores h
      have hder : ∀ j, apDeriveKeys host sae { tmp with keys := keys } j = apDeriveKeys host sae tmp j := fun _ => rfl
      refine ⟨ih.frame, fun j key' hj => ?_, fun hok j hj hj' => ?_, fun hok => ?_, fun _ hnone => ?_, fun j hj => ?_,
        fun hok => ?_, ?_, fun hs => ?_⟩
      · rcases ih.source j key' hj with hj | hj
        · by_cases hji : j = i
          · subst hji
            simp only [hentry, if_true, Option.some.injEq] at hj
            subst hj
            exact .inr hderived
          · simp only [hentry, hji, if_false] at hj
            exact .inl hj
        · exact .inr (hder j ▸ hj)
      · by_cases hji : j = i
        · subst hji
          refine ⟨key, ?_, hderived⟩
          rw [ih.outside j (.inl (by omega))]
          simp [hentry]
        · exact ih.stored hok j (by omega) (by omega)
      · obtain ⟨j, hj, hj', hnone⟩ := ih.failed hok
        exact ⟨j, by omega, by omega, hnone⟩
      · cases hnone.symm.trans hderived
      · rw [ih.outside j (by omega)]
        simp [hentry, show j ≠ i by omega]
      · cases left with
        | zero =>
          -- the last index was stored, so the rest of the loop cannot have failed
          cases h
          cases hok
        | succ left =>
          have hlast := ih.last hok
          rw [show i + 1 + (left + 1) - 1 = i + (left + 1 + 1) - 1 by omega] at hlast
          simpa [hentry, show i + (left + 1) ≠ i by omega] using hlast
      · exact ⟨fun h => absurd (ih.released.1 h) hlive', fun h => absurd h hlive⟩
      · exact ih.ofSize (hsize hs)

/-- What `sae_ap_process_commit` returns and reports. -/
theorem saeApProcessCommit_ok {r : SaeData × Bool} (h : (saeApProcessCommit host sae).result = .ok r) :
    ∃ tmp tmp', sae.tmp = some tmp ∧ Stores host sae tmp.numPasswords.toNat 0 tmp tmp' r.2 ∧
      r.1 = { sae with tmp := some tmp', processed := sae.processed || r.2 } ∧
      (saeApProcessCommit host sae).log = [.processCommit r.2] := by
  unfold saeApProcessCommit at h ⊢
  cases ht : sae.tmp with
  | none =>
    rw [ht] at h
    cases h
  | some tmp =>
    rw [ht] at h
    obtain ⟨⟨tmp', ok⟩, hloop, h⟩ := Run.bind_result_ok.1 h
    cases h
    refine ⟨tmp, tmp', rfl, processEntries_stores hloop, rfl, ?_⟩
    change (Run.lift _ >>= _).log = _
    rw [Run.bind_of_ok hloop]
    rfl

theorem processEntries_error {f : Fault} (hpwe : tmp.pweEccs ≠ .released) (hkeys : tmp.keys ≠ .released) :
    ∀ {left i : ℕ}, processEntries host sae left i tmp = .error f → ¬f.OnReleased := by
  intro left
  induction left generalizing tmp with
  | zero => intro i h; cases h
  | succ left ih =>
    intro i h
    unfold processEntries at h
    rcases except_bind_error h with h | ⟨derived, -, h⟩
    · exact apDeriveKeys_error hpwe h
    · split at h
      · cases h
      · rcases except_bind_error h with h | ⟨keys, hkeys', h⟩
        · refine not_onReleased_of_unset_or_outOfBounds (Table.write_error h ?_)
          unfold allocKeys
          split
          · nofun
          · exact hkeys
        · have hpwe' : ({ tmp with keys := keys } : SaeTmp).pweEccs ≠ .released := hpwe
          exact ih hpwe' (storeKey hkeys').2.2.1 h

/-! ## Searching for a key -/

/-- The confirm `data` verifies under the keys of the index `j`. -/
structure Verifies (host : Host) (sae : SaeData) (tmp : SaeTmp) (data : Bytes) (j : ℕ) (key : KeyEntry)
    (pwe element : Option EcPoint) : Prop where
  key_eq : tmp.keys.read .keys j = .ok key
  length_le : 2 + key.kck.length ≤ data.length
  pwe_eq : tmp.pweEccs.slot .pweEccs j = .ok pwe
  element_eq : tmp.ownCommitElementEccs.slot .ownCommitElementEccs j = .ok element
  verifier : apVerifier host (loadEntry sae tmp key pwe element).1 (loadEntry sae tmp key pwe element).2 data =
    some ((data.drop 2).take key.kck.length)

/-- What a confirm verifies under is what is stored for the index. -/
theorem Verifies.eq_stored {data : Bytes} {j : ℕ} {key key' : KeyEntry} {pwe pwe' element element' : Option EcPoint}
    (hv : Verifies host sae tmp data j key' pwe' element') (hkey : tmp.keys.read .keys j = .ok key)
    (hpwe : tmp.pweEccs.slot .pweEccs j = .ok pwe)
    (helement : tmp.ownCommitElementEccs.slot .ownCommitElementEccs j = .ok element) :
    key' = key ∧ pwe' = pwe ∧ element' = element :=
  ⟨Except.ok.inj (hv.key_eq.symm.trans hkey), Except.ok.inj (hv.pwe_eq.symm.trans hpwe),
    Except.ok.inj (hv.element_eq.symm.trans helement)⟩

/-- Loading the keys of an index hides what was loaded before. -/
theorem Verifies.of_loadEntry {data : Bytes} {j : ℕ} {key key' : KeyEntry} {pwe pwe' element element' : Option EcPoint}
    (h : Verifies host (loadEntry sae tmp key' pwe' element').1 (loadEntry sae tmp key' pwe' element').2 data j key pwe
      element) : Verifies host sae tmp data j key pwe element :=
  ⟨h.key_eq, h.length_le, h.pwe_eq, h.element_eq, h.verifier⟩

theorem Verifies.loadEntry {data : Bytes} {j : ℕ} {key key' : KeyEntry} {pwe pwe' element element' : Option EcPoint}
    (h : Verifies host sae tmp data j key pwe element) :
    Verifies host (loadEntry sae tmp key' pwe' element').1 (loadEntry sae tmp key' pwe' element').2 data j key pwe element :=
  ⟨h.key_eq, h.length_le, h.pwe_eq, h.element_eq, h.verifier⟩

/-- The search found the index `j` first. -/
structure Finds (host : Host) (data : Bytes) (left i : ℕ) (sae : SaeData) (tmp : SaeTmp) (sae' : SaeData) (tmp' : SaeTmp)
    (j : ℕ) (key : KeyEntry) (pwe element : Option EcPoint) : Prop where
  le : i ≤ j
  lt : j < i + left
  verifies : Verifies host sae tmp data j key pwe element
  first : ∀ k, i ≤ k → k < j → ∀ key pwe element, ¬Verifies host sae tmp data k key pwe element
  sae_eq : sae' = (loadEntry sae tmp key pwe element).1
  tmp_eq : tmp' = releaseTables (loadEntry sae tmp key pwe element).2

/-- A search that goes on at the next index, from the instance with the keys of this one. -/
theorem Finds.step {data : Bytes} {left i j : ℕ} {key key' : KeyEntry} {pwe pwe' element element' : Option EcPoint}
    (h : Finds host data left (i + 1) (DecoyAuth.loadEntry sae tmp key' pwe' element').1
      (DecoyAuth.loadEntry sae tmp key' pwe' element').2 sae' tmp' j key pwe element)
    (hi : ∀ key pwe element, ¬Verifies host sae tmp data i key pwe element) :
    Finds host data (left + 1) i sae tmp sae' tmp' j key pwe element where
  le := by have := h.le; omega
  lt := by have := h.lt; omega
  verifies := h.verifies.of_loadEntry
  first k hk hkj key pwe element hv := by
    rcases Nat.eq_or_lt_of_le hk with rfl | hk
    · exact hi key pwe element hv
    · exact h.first k hk hkj key pwe element hv.loadEntry
  sae_eq := h.sae_eq
  tmp_eq := h.tmp_eq

/-- The instance after a search that found nothing: only the fields that an index is loaded into have changed. -/
structure Searched (sae : SaeData) (tmp : SaeTmp) (sae' : SaeData) (tmp' : SaeTmp) : Prop where
  sae_eq : sae' = { sae with pmk := sae'.pmk, pmkid := sae'.pmkid }
  tmp_eq : tmp' = { tmp with
    kck := tmp'.kck
    pweEcc := tmp'.pweEcc
    ownCommitElementEcc := tmp'.ownCommitElementEcc }

/-- Without an ECC group, an instance into which an index was loaded gives up if no verifier can be computed. -/
def givesUp (host : Host) (data : Bytes) (sae : SaeData) (tmp : SaeTmp) : Bool :=
  tmp.ec.isNone && sae.peerCommitScalar.isSome && tmp.ownCommitScalar.isSome && (apVerifier host sae tmp data).isNone

/-- How an iteration at the index `i` that does not accept ends: the confirm is too short for the key, or the keys of the
index are loaded and the search goes on or gives up. -/
inductive GoesOn (host : Host) (data : Bytes) (left i : ℕ) (sae : SaeData) (tmp : SaeTmp) (key : KeyEntry)
    (r : SaeData × SaeTmp × Option ℕ) : Prop
  | short (hlen : data.length < 2 + key.kck.length) (h : searchEntries host data left (i + 1) sae tmp = .ok r)
  | loaded (pwe element : Option EcPoint) (hlen : 2 + key.kck.length ≤ data.length)
    (hpwe : tmp.pweEccs.slot .pweEccs i = .ok pwe)
    (helement : tmp.ownCommitElementEccs.slot .ownCommitElementEccs i = .ok element)
    (hgoes : givesUp host data (loadEntry sae tmp key pwe element).1 (loadEntry sae tmp key pwe element).2 = false)
    (h : searchEntries host data left (i + 1) (loadEntry sae tmp key pwe element).1
      (loadEntry sae tmp key pwe element).2 = .ok r)
  | gaveUp (pwe element : Option EcPoint) (hlen : 2 + key.kck.length ≤ data.length)
    (hpwe : tmp.pweEccs.slot .pweEccs i = .ok pwe)
    (helement : tmp.ownCommitElementEccs.slot .ownCommitElementEccs i = .ok element)
    (hgives : givesUp host data (loadEntry sae tmp key pwe element).1 (loadEntry sae tmp key pwe element).2 = true)
    (h : r = ((loadEntry sae tmp key pwe element).1, (loadEntry sae tmp key pwe element).2, none))

/-- **One iteration of `sae_ap_check_confirm`**: the confirm verifies and the search ends, or it does not. -/
theorem searchEntries_succ {data : Bytes} {left i : ℕ} {offset : Option ℕ}
    (h : searchEntries host data (left + 1) i sae tmp = .ok (sae', tmp', offset)) :
    ∃ key, tmp.keys.read .keys i = .ok key ∧
      ((∃ pwe element, Verifies host sae tmp data i key pwe element ∧ offset = some (2 + key.kck.length) ∧
          sae' = (loadEntry sae tmp key pwe element).1 ∧ tmp' = releaseTables (loadEntry sae tmp key pwe element).2) ∨
        (∀ key pwe element, ¬Verifies host sae tmp data i key pwe element) ∧
          GoesOn host data left i sae tmp key (sae', tmp', offset)) := by
  unfold searchEntries at h
  obtain ⟨key, hkey, h⟩ := except_bind_ok h
  refine ⟨key, hkey, ?_⟩
  split at h
  · next hlen =>
    refine .inr ⟨fun key' pwe element hv => ?_, .short hlen h⟩
    obtain rfl := Except.ok.inj (hv.key_eq.symm.trans hkey)
    exact absurd hv.length_le (by omega)
  · next hlen =>
    have hlen := not_lt.1 hlen
    obtain ⟨pwe, hpwe, h⟩ := except_bind_ok h
    obtain ⟨element, helement, h⟩ := except_bind_ok h
    have hunique : ∀ {key' pwe' element'}, Verifies host sae tmp data i key' pwe' element' →
        apVerifier host (loadEntry sae tmp key pwe element).1 (loadEntry sae tmp key pwe element).2 data =
          some ((data.drop 2).take key.kck.length) := by
      intro key' pwe' element' hv
      obtain ⟨rfl, rfl, rfl⟩ := hv.eq_stored hkey hpwe helement
      exact hv.verifier
    dsimp only at h
    split at h
    · next verifier hverifier =>
      split at h
      · next heq =>
        cases h
        exact .inl ⟨pwe, element, ⟨hkey, hlen, hpwe, helement, by rw [hverifier, heq]⟩, rfl, rfl, rfl⟩
      · next hne =>
        refine .inr ⟨fun _ _ _ hv => hne ?_, .loaded pwe element hlen hpwe helement (by simp [givesUp, hverifier]) h⟩
        exact Option.some.inj (hverifier.symm.trans (hunique hv))
    · next hverifier =>
      refine .inr ⟨fun _ _ _ hv => ?_, ?_⟩
      · have := hverifier.symm.trans (hunique hv)
        cases this
      · split at h
        · next hffc =>
          cases h
          refine .gaveUp pwe element hlen hpwe helement ?_ rfl
          simpa [givesUp, hverifier, and_assoc] using hffc
        · next hecc =>
          refine .loaded pwe element hlen hpwe helement ?_ h
          simpa [givesUp, hverifier] using hecc

/-- **What `sae_ap_check_confirm` accepts**: the first index under whose keys the confirm verifies. -/
theorem searchEntries_some {data : Bytes} {offset : ℕ} : ∀ {left i : ℕ} {sae : SaeData} {tmp : SaeTmp},
    searchEntries host data left i sae tmp = .ok (sae', tmp', some offset) →
      ∃ j key pwe element, Finds host data left i sae tmp sae' tmp' j key pwe element ∧ offset = 2 + key.kck.length
  | 0, _, _, _, h => by cases h
  | left + 1, i, sae, tmp, h => by
    obtain ⟨key, -, ⟨pwe, element, hv, ho, hs, ht⟩ | ⟨hnot, hgoes⟩⟩ := searchEntries_succ h
    · exact ⟨i, key, pwe, element, ⟨le_rfl, by omega, hv, fun k hk hk' => by omega, hs, ht⟩, Option.some.inj ho⟩
    · cases hgoes with
      | short _ h =>
        obtain ⟨j, key, pwe, element, hf, ho⟩ := searchEntries_some h
        refine ⟨j, key, pwe, element, ⟨by have := hf.le; omega, by have := hf.lt; omega, hf.verifies, ?_, hf.sae_eq,
          hf.tmp_eq⟩, ho⟩
        intro k hk hkj
        rcases Nat.eq_or_lt_of_le hk with rfl | hk
        · exact hnot
        · exact hf.first k hk hkj
      | loaded _ _ _ _ _ _ h =>
        obtain ⟨j, key', pwe', element', hf, ho⟩ := searchEntries_some h
        exact ⟨j, key', pwe', element', hf.step hnot, ho⟩
      | gaveUp _ _ _ _ _ _ h => cases h

/-- A search that fails has read every key of an ECC group, and none verifies. -/
theorem searchEntries_none {data : Bytes} : ∀ {left i : ℕ} {sae : SaeData} {tmp : SaeTmp},
    searchEntries host data left i sae tmp = .ok (sae', tmp', none) → Searched sae tmp sae' tmp' ∧
      (tmp.ec.isSome → ∀ j, i ≤ j → j < i + left → (∃ key, tmp.keys.read .keys j = .ok key) ∧
        ∀ key pwe element, ¬Verifies host sae tmp data j key pwe element)
  | 0, _, _, _, h => by
    cases h
    exact ⟨⟨rfl, rfl⟩, fun _ j hj hj' => by omega⟩
  | left + 1, i, sae, tmp, h => by
    obtain ⟨key, hkey, ⟨_, _, -, h, -⟩ | ⟨hnot, hgoes⟩⟩ := searchEntries_succ h
    · cases h
    · cases hgoes with
      | short _ h =>
        obtain ⟨hsearched, hread⟩ := searchEntries_none h
        refine ⟨hsearched, fun hec j hj hj' => ?_⟩
        rcases Nat.eq_or_lt_of_le hj with rfl | hj
        · exact ⟨⟨key, hkey⟩, hnot⟩
        · exact hread hec j hj (by omega)
      | loaded _ _ _ _ _ _ h =>
        obtain ⟨hsearched, hread⟩ := searchEntries_none h
        refine ⟨⟨hsearched.sae_eq, hsearched.tmp_eq⟩, fun hec j hj hj' => ?_⟩
        rcases Nat.eq_or_lt_of_le hj with rfl | hj
        · exact ⟨⟨key, hkey⟩, hnot⟩
        · obtain ⟨hkey', hnot'⟩ := hread hec j hj (by omega)
          exact ⟨hkey', fun key pwe element hv => hnot' key pwe element hv.loadEntry⟩
      | gaveUp _ _ _ _ _ hgives h =>
        cases h
        refine ⟨⟨rfl, rfl⟩, fun hec => ?_⟩
        simp [givesUp, loadEntry, Option.isSome_iff_ne_none.1 hec] at hgives

theorem searchEntries_error {data : Bytes} {f : Fault} : ∀ {left i : ℕ} {sae : SaeData} {tmp : SaeTmp}, tmp.Held →
    tmp.keys ≠ .released → searchEntries host data left i sae tmp = .error f → ¬f.OnReleased
  | 0, _, _, _, _, _, h => by cases h
  | left + 1, i, sae, tmp, hheld, hkeys, h => by
    unfold searchEntries at h
    rcases except_bind_error h with h | ⟨key, -, h⟩
    · exact not_onReleased_of_unset_or_outOfBounds (Table.read_error h hkeys)
    · split at h
      · exact searchEntries_error hheld hkeys h
      · rcases except_bind_error h with h | ⟨pwe, -, h⟩
        · exact not_onReleased_of_unset_or_outOfBounds (Table.slot_error h hheld.pweEccs)
        rcases except_bind_error h with h | ⟨element, -, h⟩
        · exact not_onReleased_of_unset_or_outOfBounds (Table.slot_error h hheld.ownCommitElementEccs)
        dsimp only at h
        have hheld' : (loadEntry sae tmp key pwe element).2.Held := ⟨hheld.pweEccs, hheld.ownCommitElementEccs⟩
        split at h
        · split at h
          · cases h
          · exact searchEntries_error hheld' hkeys h
        · split at h
          · cases h
          · exact searchEntries_error hheld' hkeys h

/-- What `sae_ap_check_confirm` returns and reports. -/
theorem saeApCheckConfirm_ok {data : Bytes} {r : SaeData × Bool} (h : (saeApCheckConfirm host data sae).result = .ok r) :
    ∃ tmp s t offset, sae.tmp = some tmp ∧
      searchEntries host data tmp.numPasswords.toNat 0 sae tmp = .ok (s, t, offset) ∧
      r = ({ s with tmp := some t }, offset.isSome) ∧
      (saeApCheckConfirm host data sae).log = [.checkConfirm offset.isSome] := by
  unfold saeApCheckConfirm at h ⊢
  obtain ⟨⟨s, offset⟩, hie, h⟩ := Run.bind_result_ok.1 h
  rw [Run.bind_of_ok hie]
  cases h
  rw [Run.lift_result] at hie
  unfold saeApCheckConfirmIe at hie
  split at hie
  · cases hie
  · next tmp ht =>
    obtain ⟨⟨s, t, offset⟩, hloop, h⟩ := except_bind_ok hie
    cases h
    exact ⟨tmp, s, t, offset, ht, hloop, rfl, rfl⟩

end DecoyAuth
