import DecoyAuth.Sae.Prepared
import DecoyAuth.Sae.Small

/-!
# Failures inside of a commit's preparation

`sae_ap_prepare_commit` once more, with every operation that it calls allowed to fail. It keeps the failures of
`dragonfly_generate_scalar` and of `sae_derive_commit_element_ecc` in a truth value that it then compares with numbers
below zero, it does not look at the results of `crypto_ec_point_clone` and `sha256_vector`, and it follows the pointer that
`crypto_point_to_values` did not get. Only a password element that cannot be derived makes it return -1
(`prepare_reports_iff`).
-/

namespace DecoyAuth

/-- The operations that have no draws: whether they fail for a password, and what a failure leaves behind. The commit
element and the 32 bytes of the hash are then what was in their place, and a copy of a point stays at infinity. -/
structure Failures where
  element : ℕ → Option (Option EcPoint) := fun _ => none
  clonePwe : ℕ → Bool := fun _ => false
  cloneElement : ℕ → Bool := fun _ => false
  sha256 : ℕ → Option Bytes := fun _ => none

/-- The result of `crypto_ec_point_clone`; `clonePoint` is what it leaves in the copy. -/
def clonePointOk (ec : EcParams) : Option EcPoint → Bool
  | none => false
  | some point => Bytes.numBytes ec.prime ≤ saeMaxEccPrimeLen &&
      ((pointToBin ec point).map fun (x, y) => (pointFromBin ec (x ++ y)).isSome).getD false

/-- `crypto_ec_point_clone` where it may also fail in the library. -/
def clonePointWith (fails : Bool) (ec : EcParams) (point : Option EcPoint) : EcPoint :=
  if fails then .infinity else clonePoint ec point

/-- A call of `sae_ap_prepare_commit`, but for the instance. -/
structure Attempt where
  host : Host
  addr1 : MacAddr
  addr2 : MacAddr
  draws : CommitDraws
  failures : Failures := {}

namespace Attempt

variable (A : Attempt)

/-- `sae_derive_pwe_ecc` for the password at `i`. -/
def pwe (ec : EcGroup) (group i : ℕ) : Option EcPoint :=
  saeDerivePweEcc A.host.hash ec.toEcParams group A.addr1 A.addr2 (A.host.passwords.getD i []) (A.draws.pwe i)

/-- What `sae_derive_commit_element_ecc` leaves in `own_commit_element_ecc`. -/
def element (ec : EcGroup) (mask : ℤ) (i : ℕ) (pwe : EcPoint) : Option EcPoint :=
  (A.failures.element i).getD (some (commitElementEcc ec.toEcParams pwe mask))

/-- The body of the first loop, for an ECC group. -/
def prepareEntryEcc (ec : EcGroup) (mask : ℤ) (i : ℕ) (sae : SaeData) (tmp : SaeTmp) : ApRun (SaeData × SaeTmp × Bool) :=
  match A.pwe ec sae.group i with
  | none => return (sae, tmp, false)
  | some pwe => do
    let sae := { sae with h2e := false, pk := false }
    let element := A.element ec mask i pwe
    let tmp := { tmp with pweEcc := some pwe, ownCommitElementEcc := element }
    -- a disjunction in C is 0 or 1
    let ret : ℤ := if (A.failures.element i).isSome then 1 else 0
    if ret < 0 then return (sae, tmp, false)
    else
      let pweEccs ← Run.lift
        (tmp.pweEccs.write .pweEccs i (some (clonePointWith (A.failures.clonePwe i) ec.toEcParams (some pwe))))
      let elements ← Run.lift (tmp.ownCommitElementEccs.write .ownCommitElementEccs i
        (some (clonePointWith (A.failures.cloneElement i) ec.toEcParams element)))
      return (sae, { tmp with pweEccs := pweEccs, ownCommitElementEccs := elements }, true)

def prepareEntry (mask : ℤ) (i : ℕ) (sae : SaeData) (tmp : SaeTmp) : ApRun (SaeData × SaeTmp × Bool) :=
  match tmp.ec with
  | some ec => A.prepareEntryEcc ec mask i sae tmp
  | none => prepareEntryFfc A.host A.addr1 A.addr2 mask i sae tmp

/-- The first loop, from the index `i` on. -/
def prepareEntries (mask : ℤ) : ℕ → ℕ → SaeData → SaeTmp → ApRun (SaeData × SaeTmp × Bool)
  | 0, _, sae, tmp => return (sae, tmp, true)
  | left + 1, i, sae, tmp => do
    let (sae, tmp, ok) ← A.prepareEntry mask i sae tmp
    if !ok then return (sae, tmp, false) else prepareEntries mask left (i + 1) sae tmp

def hashValues (n : ℕ) : List ℤ :=
  (List.range n).map fun i =>
    match A.failures.sha256 i with
    | none => passwordHash A.host.hash (A.host.passwords.getD i [])
    | some hash => Bytes.ofBe hash

def storeCoefficients (n : ℕ) (values : List (ℤ × ℤ)) (tmp : SaeTmp) : SaeTmp :=
  match tmp.ec with
  | none => tmp
  | some ec => { tmp with
      uCoefficients := cryptoWeave ec.toEcParams (A.hashValues n) (values.map Prod.fst)
      vCoefficients := cryptoWeave ec.toEcParams (A.hashValues n) (values.map Prod.snd) }

/-- `sae_ap_prepare_commit`; the result is `true` for 0 and `false` for -1. -/
def saeApPrepareCommit (sae : SaeData) : ApRun (SaeData × Bool) := do
  match sae.tmp with
  | none => Run.fault .nullTmp
  | some tmp =>
    let n := tmp.numPasswords.toNat
    let (out, _) := generateScalar tmp A.draws
    let tmp := { tmp with saeRand := some out.rand, ownCommitScalar := some out.scalar }
    let (sae, tmp, ok) ← A.prepareEntries out.mask n 0 sae tmp
    if !ok then return ({ sae with tmp := some tmp }, false)
    else
      let values ← Run.lift (encodeElements tmp.ec tmp.ownCommitElementEccs A.draws n 0)
      return ({ sae with tmp := some (A.storeCoefficients n values tmp) }, true)

/-! ## Without failures -/

section Regular

variable {A} (hA : A.failures = {})
include hA

theorem prepareEntry_of_regular (mask : ℤ) (i : ℕ) (sae : SaeData) (tmp : SaeTmp) :
    A.prepareEntry mask i sae tmp = DecoyAuth.prepareEntry A.host A.addr1 A.addr2 A.draws mask i sae tmp := by
  unfold prepareEntry DecoyAuth.prepareEntry
  cases tmp.ec with
  | none => rfl
  | some ec =>
    simp only [prepareEntryEcc, DecoyAuth.prepareEntryEcc, pwe, element, clonePointWith, hA]
    rfl

theorem prepareEntries_of_regular (mask : ℤ) : ∀ (left i : ℕ) (sae : SaeData) (tmp : SaeTmp),
    A.prepareEntries mask left i sae tmp = DecoyAuth.prepareEntries A.host A.addr1 A.addr2 A.draws mask left i sae tmp
  | 0, _, _, _ => rfl
  | left + 1, i, sae, tmp => by
    simp only [prepareEntries, DecoyAuth.prepareEntries, prepareEntry_of_regular hA, prepareEntries_of_regular mask left]

/-- **Without failures this is the model of the other modules.** -/
theorem saeApPrepareCommit_of_regular (sae : SaeData) :
    A.saeApPrepareCommit sae = DecoyAuth.saeApPrepareCommit A.host A.addr1 A.addr2 A.draws sae := by
  have hhash : ∀ n, A.hashValues n = DecoyAuth.hashValues A.host n := fun n => by
    simp [hashValues, DecoyAuth.hashValues, hA]
  have hstore : ∀ n values tmp, A.storeCoefficients n values tmp = DecoyAuth.storeCoefficients A.host n values tmp :=
    fun n values tmp => by
      unfold storeCoefficients DecoyAuth.storeCoefficients
      cases tmp.ec with
      | none => rfl
      | some ec => simp only [hhash]
  conv_lhs =>
    unfold saeApPrepareCommit
    simp only [prepareEntries_of_regular hA, hstore]
  rfl

end Regular

/-! ## The loop over the passwords -/

/-- The point that the loop stores in `own_commit_element_eccs[i]`. -/
def storedElement (ec : EcGroup) (mask : ℤ) (i : ℕ) (pwe : EcPoint) : EcPoint :=
  clonePointWith (A.failures.cloneElement i) ec.toEcParams (A.element ec mask i pwe)

/-- The arrays of points are allocated. -/
structure Arrays (n : ℕ) (ec : EcGroup) (tmp : SaeTmp) : Prop where
  ec_eq : tmp.ec = some ec
  pweEccs : ∃ entries, tmp.pweEccs = .live entries ∧ entries.length = n
  ownCommitElementEccs : ∃ entries, tmp.ownCommitElementEccs = .live entries ∧ entries.length = n

/-- The loop has gone through `left` indexes from `i` on. -/
structure Stored (n : ℕ) (ec : EcGroup) (group : ℕ) (mask : ℤ) (left i : ℕ) (tmp tmp' : SaeTmp) : Prop where
  arrays : Arrays n ec tmp'
  frame : tmp' = { tmp with
    pweEcc := tmp'.pweEcc
    ownCommitElementEcc := tmp'.ownCommitElementEcc
    pweEccs := tmp'.pweEccs
    ownCommitElementEccs := tmp'.ownCommitElementEccs }
  stored : ∀ k, i ≤ k → k < i + left → ∃ pwe, A.pwe ec group k = some pwe ∧
    tmp'.ownCommitElementEccs.entry k = some (A.storedElement ec mask k pwe)
  before : ∀ k < i, tmp'.ownCommitElementEccs.entry k = tmp.ownCommitElementEccs.entry k

section Loop

variable {A} {n : ℕ} {ec : EcGroup} {sae : SaeData} {tmp : SaeTmp} {mask : ℤ}

/-- A password without an element ends the loop. -/
theorem prepareEntry_of_none (harr : Arrays n ec tmp) {i : ℕ} (hpwe : A.pwe ec sae.group i = none) :
    A.prepareEntry mask i sae tmp = pure (sae, tmp, false) := by
  simp only [prepareEntry, harr.ec_eq, prepareEntryEcc, hpwe]

/-- A password with an element never does: the truth value is not below zero. -/
theorem prepareEntry_of_some (harr : Arrays n ec tmp) {i : ℕ} (hi : i < n) {pwe : EcPoint}
    (hpwe : A.pwe ec sae.group i = some pwe) :
    ∃ tmp', (A.prepareEntry mask i sae tmp).result = .ok ({ sae with h2e := false, pk := false }, tmp', true) ∧
      A.Stored n ec sae.group mask 1 i tmp tmp' := by
  obtain ⟨pwes, hpwes, hplen⟩ := harr.pweEccs
  obtain ⟨elements, helements, helen⟩ := harr.ownCommitElementEccs
  have hret : ¬(if (A.failures.element i).isSome then (1 : ℤ) else 0) < 0 := by
    split <;> decide
  have hwrite : ∀ {es : List (Option EcPoint)} (id : TableId) (a : Option EcPoint), es.length = n →
      (Table.live es).write id i a = .ok (.live (es.set i a)) := fun id a h => if_pos (h ▸ hi)
  refine ⟨{ tmp with
    pweEcc := some pwe
    ownCommitElementEcc := A.element ec mask i pwe
    pweEccs := .live (pwes.set i (some (clonePointWith (A.failures.clonePwe i) ec.toEcParams (some pwe))))
    ownCommitElementEccs := .live (elements.set i (some (A.storedElement ec mask i pwe))) }, ?_, ?_⟩
  · simp only [prepareEntry, harr.ec_eq, prepareEntryEcc, hpwe, hpwes, helements, if_neg hret]
    rw [Run.bind_of_ok (hwrite .pweEccs _ hplen), Run.bind_of_ok (hwrite .ownCommitElementEccs _ helen)]
    rfl
  · have hentry := fun k => Table.entry_set elements i k (some (A.storedElement ec mask i pwe)) (helen ▸ hi)
    refine ⟨⟨harr.ec_eq, ⟨_, rfl, by simpa using hplen⟩, ⟨_, rfl, by simpa using helen⟩⟩, rfl, fun k hk hk' => ?_,
      fun k hk => ?_⟩
    · obtain rfl : k = i := by omega
      exact ⟨pwe, hpwe, (hentry k).trans (if_pos rfl)⟩
    · exact (hentry k).trans ((if_neg (by omega)).trans (by rw [helements]))

/-- **The loop over the passwords** returns -1 for the first password without an element, and goes through all of them if
there is none. -/
theorem prepareEntries_cases : ∀ {left i : ℕ} {sae : SaeData} {tmp : SaeTmp}, Arrays n ec tmp → i + left ≤ n →
    (∃ k, (i ≤ k ∧ k < i + left) ∧ A.pwe ec sae.group k = none) ∧
      (∃ sae' tmp', (A.prepareEntries mask left i sae tmp).result = .ok (sae', tmp', false)) ∨
    ∃ sae' tmp', (A.prepareEntries mask left i sae tmp).result = .ok (sae', tmp', true) ∧
      A.Stored n ec sae.group mask left i tmp tmp'
  | 0, i, sae, tmp, harr, _ => .inr ⟨sae, tmp, rfl, harr, rfl, fun k hk hk' => by omega, fun _ _ => rfl⟩
  | left + 1, i, sae, tmp, harr, hn => by
    unfold prepareEntries
    cases hpwe : A.pwe ec sae.group i with
    | none =>
      refine .inl ⟨⟨i, ⟨le_rfl, by omega⟩, hpwe⟩, sae, tmp, ?_⟩
      rw [prepareEntry_of_none harr hpwe]
      rfl
    | some pwe =>
      obtain ⟨tmp₁, hentry, hone⟩ := @prepareEntry_of_some A n ec sae tmp mask harr i (by omega) pwe hpwe
      rw [Run.bind_of_ok hentry]
      rcases @prepareEntries_cases left (i + 1) { sae with h2e := false, pk := false } tmp₁ hone.arrays (by omega) with
        ⟨⟨k, hk, hnone⟩, sae', tmp', hloop⟩ | ⟨sae', tmp', hloop, hall⟩
      · exact .inl ⟨⟨k, ⟨by omega, by omega⟩, hnone⟩, sae', tmp', hloop⟩
      · refine .inr ⟨sae', tmp', hloop, hall.arrays, ?_, fun k hk hk' => ?_, fun k hk => ?_⟩
        · rw [hall.frame, hone.frame]
        · rcases Nat.eq_or_lt_of_le hk with rfl | hlt
          · obtain ⟨pwe', hpwe', hstored⟩ := hone.stored i le_rfl (by omega)
            exact ⟨pwe', hpwe', (hall.before i (by omega)).trans hstored⟩
          · exact hall.stored k hlt (by omega)
        · exact (hall.before k (by omega)).trans (hone.before k hk)

end Loop

/-! ## Success -/

/-- Every operation of one index succeeds. -/
structure EntrySucceeds (ec : EcGroup) (mask : ℤ) (i : ℕ) (pwe : EcPoint) : Prop where
  element : A.failures.element i = none
  clonePwe : A.failures.clonePwe i = false ∧ clonePointOk ec.toEcParams (some pwe) = true
  cloneElement : A.failures.cloneElement i = false ∧
    clonePointOk ec.toEcParams (some (commitElementEcc ec.toEcParams pwe mask)) = true
  sha256 : A.failures.sha256 i = none
  encode : ∃ values, Encode.pointToValues ec.toEcParams (commitElementEcc ec.toEcParams pwe mask) (A.draws.encode i) =
    some values

/-- Every operation succeeds. -/
structure Succeeds (ec : EcGroup) (sae : SaeData) (tmp : SaeTmp) : Prop where
  scalar : (generateScalar tmp A.draws).2 = true
  entry : ∀ i < tmp.numPasswords.toNat, ∃ pwe, A.pwe ec sae.group i = some pwe ∧
    A.EntrySucceeds ec (generateScalar tmp A.draws).1.mask i pwe

/-- A commit as it should be: the scalar is the sum of two random numbers, and each element is the negative of the
password element times the one mask. -/
structure Commit (ec : EcGroup) (group n : ℕ) (tmp : SaeTmp) (out : Scalars) : Prop where
  saeRand : tmp.saeRand = some out.rand
  ownCommitScalar : tmp.ownCommitScalar = some out.scalar
  scalar_eq : out.scalar = (out.rand + out.mask) % ec.order
  rand : IsScalar ec.order out.rand
  mask : IsScalar ec.order out.mask
  scalar : 1 < out.scalar
  element : ∀ i < n, ∃ pwe element, A.pwe ec group i = some pwe ∧ tmp.ownCommitElementEccs.entry i = some element ∧
    ec.toPoint element = -(out.mask • ec.toPoint pwe)

/-- An instance of an access point that has selected an ECC group. -/
structure Ready (ec : EcGroup) (sae : SaeData) (tmp : SaeTmp) : Prop where
  tmp_eq : sae.tmp = some tmp
  order_eq : tmp.order = ec.order
  arrays : Arrays tmp.numPasswords.toNat ec tmp

theorem clonePoint_of_ok {ec : EcParams} {P : EcPoint} (h : clonePointOk ec (some P) = true) :
    clonePoint ec (some P) = P := by
  unfold clonePointOk at h
  unfold clonePoint
  cases hbin : pointToBin ec P with
  | none => simp [hbin] at h
  | some xy =>
    obtain ⟨hlen, hfrom⟩ : Bytes.numBytes ec.prime ≤ saeMaxEccPrimeLen ∧ (pointFromBin ec (xy.1 ++ xy.2)).isSome = true := by
      simpa [hbin] using h
    simp only [if_neg (not_lt.2 hlen), hbin, hfrom, if_true]

section Success

variable {A} {ec : EcGroup} {sae : SaeData} {tmp : SaeTmp}

theorem EntrySucceeds.storedElement_eq {mask : ℤ} {i : ℕ} {pwe : EcPoint} (h : A.EntrySucceeds ec mask i pwe) :
    A.storedElement ec mask i pwe = commitElementEcc ec.toEcParams pwe mask := by
  simp only [storedElement, clonePointWith, Attempt.element, h.element, h.cloneElement.1, Option.getD_none]
  exact clonePoint_of_ok h.cloneElement.2

theorem encodeElements_of_some {elements : Table EcPoint} {draws : CommitDraws} : ∀ {left i : ℕ},
    (∀ k, i ≤ k → k < i + left → ∃ point values, elements.entry k = some point ∧
      Encode.pointToValues ec.toEcParams point (draws.encode k) = some values) →
    ∃ values, encodeElements (some ec) elements draws left i = .ok values
  | 0, _, _ => ⟨[], rfl⟩
  | left + 1, i, h => by
    obtain ⟨point, values, hpoint, hvalues⟩ := h i le_rfl (by omega)
    obtain ⟨rest, hrest⟩ := @encodeElements_of_some elements draws left (i + 1) fun k hk hk' => h k (by omega) (by omega)
    have hslot : elements.slot .ownCommitElementEccs i = .ok (some point) := Table.slot_of_entry _ hpoint
    refine ⟨values :: rest, ?_⟩
    simp only [encodeElements, hslot, bind, Except.bind, Option.bind, hvalues, hrest]
    rfl

/-- What the rest of the function does with the arrays that the loop has filled. -/
theorem saeApPrepareCommit_of_stored (hready : Ready ec sae tmp) {sae₁ : SaeData} {tmp₁ : SaeTmp}
    (hloop : (A.prepareEntries (generateScalar tmp A.draws).1.mask tmp.numPasswords.toNat 0 sae
      { tmp with
        saeRand := some (generateScalar tmp A.draws).1.rand
        ownCommitScalar := some (generateScalar tmp A.draws).1.scalar }).result = .ok (sae₁, tmp₁, true))
    (hec : tmp₁.ec = some ec) :
    (A.saeApPrepareCommit sae).result =
      (encodeElements (some ec) tmp₁.ownCommitElementEccs A.draws tmp.numPasswords.toNat 0).map fun values =>
        ({ sae₁ with tmp := some (A.storeCoefficients tmp.numPasswords.toNat values tmp₁) }, true) := by
  unfold saeApPrepareCommit
  rw [hready.tmp_eq]
  dsimp only
  rw [Run.bind_of_ok hloop]
  simp only [hec]
  cases encodeElements (some ec) tmp₁.ownCommitElementEccs A.draws tmp.numPasswords.toNat 0 with
  | error f => rfl
  | ok values => rfl

/-- If every operation succeeds, the commit is as it should be. -/
theorem Succeeds.commit (hs : A.Succeeds ec sae tmp) (hready : Ready ec sae tmp) {tmp₁ : SaeTmp}
    (hstored : A.Stored tmp.numPasswords.toNat ec sae.group (generateScalar tmp A.draws).1.mask tmp.numPasswords.toNat 0
      { tmp with
        saeRand := some (generateScalar tmp A.draws).1.rand
        ownCommitScalar := some (generateScalar tmp A.draws).1.scalar } tmp₁) (values : List (ℤ × ℤ)) :
    A.Commit ec sae.group tmp.numPasswords.toNat (A.storeCoefficients tmp.numPasswords.toNat values tmp₁)
      (generateScalar tmp A.draws).1 := by
  have hdrawn := generateScalar_ok hready.order_eq hs.scalar
  have hrange := generateScalar_range hready.order_eq hs.scalar
  simp only [storeCoefficients, hstored.arrays.ec_eq]
  refine ⟨?_, ?_, hdrawn.scalar_eq, hrange.1, hrange.2, hdrawn.isScalar.1, fun i hi => ?_⟩
  · exact congrArg SaeTmp.saeRand hstored.frame
  · exact congrArg SaeTmp.ownCommitScalar hstored.frame
  · obtain ⟨pwe, hpwe, hentry⟩ := hs.entry i hi
    obtain ⟨pwe', hpwe', helement⟩ := hstored.stored i (Nat.zero_le i) (by omega)
    cases hpwe.symm.trans hpwe'
    rw [hentry.storedElement_eq] at helement
    refine ⟨pwe, _, hpwe, helement, ?_⟩
    simp [commitElementEcc]

end Success

end Attempt

/-- **Which failures `sae_ap_prepare_commit` reports.** It returns 0 only if every operation succeeded, with the commit as
it should be, and -1 otherwise, if and only if some password has no element or every operation succeeds. -/
theorem prepare_reports_iff (A : Attempt) {ec : EcGroup} {sae : SaeData} {tmp : SaeTmp} (hready : Attempt.Ready ec sae tmp) :
    (∃ sae' ok, (A.saeApPrepareCommit sae).result = .ok (sae', ok) ∧ (ok = true → A.Succeeds ec sae tmp ∧
      ∃ tmp' out, sae'.tmp = some tmp' ∧ A.Commit ec sae.group tmp.numPasswords.toNat tmp' out)) ↔
      (∃ i < tmp.numPasswords.toNat, A.pwe ec sae.group i = none) ∨ A.Succeeds ec sae tmp := by
  have harr : Attempt.Arrays tmp.numPasswords.toNat ec { tmp with
      saeRand := some (generateScalar tmp A.draws).1.rand
      ownCommitScalar := some (generateScalar tmp A.draws).1.scalar } :=
    ⟨hready.arrays.ec_eq, hready.arrays.pweEccs, hready.arrays.ownCommitElementEccs⟩
  rcases @Attempt.prepareEntries_cases A _ ec (generateScalar tmp A.draws).1.mask _ 0 sae _ harr (Nat.zero_add _).le with
    ⟨⟨k, hk, hnone⟩, sae₁, tmp₁, hloop⟩ | ⟨sae₁, tmp₁, hloop, hstored⟩
  · refine iff_of_true ⟨{ sae₁ with tmp := some tmp₁ }, false, ?_, nofun⟩ (.inl ⟨k, by omega, hnone⟩)
    unfold Attempt.saeApPrepareCommit
    rw [hready.tmp_eq]
    dsimp only
    rw [Run.bind_of_ok hloop]
    rfl
  · have hresult := Attempt.saeApPrepareCommit_of_stored hready hloop hstored.arrays.ec_eq
    have hsome : ¬∃ i < tmp.numPasswords.toNat, A.pwe ec sae.group i = none := by
      rintro ⟨i, hi, hnone⟩
      obtain ⟨pwe, hpwe, -⟩ := hstored.stored i (Nat.zero_le i) (by omega)
      cases hnone.symm.trans hpwe
    rw [or_iff_right hsome, hresult]
    constructor
    · rintro ⟨sae', ok, hok, h⟩
      cases hvalues : encodeElements (some ec) tmp₁.ownCommitElementEccs A.draws tmp.numPasswords.toNat 0 with
      | error f => rw [hvalues] at hok; cases hok
      | ok values =>
        rw [hvalues] at hok
        cases hok
        exact (h rfl).1
    · intro hs
      -- every encoding succeeds on the element that the loop has stored
      obtain ⟨values, hvalues⟩ := @Attempt.encodeElements_of_some ec tmp₁.ownCommitElementEccs A.draws
        tmp.numPasswords.toNat 0 fun k hk hk' => by
          obtain ⟨pwe, hpwe, hentry⟩ := hs.entry k (by omega)
          obtain ⟨pwe', hpwe', helement⟩ := hstored.stored k hk hk'
          cases hpwe.symm.trans hpwe'
          rw [hentry.storedElement_eq] at helement
          obtain ⟨values, hvalues⟩ := hentry.encode
          exact ⟨_, values, helement, hvalues⟩
      rw [hvalues]
      exact ⟨_, true, rfl, fun _ => ⟨hs, _, _, rfl, hs.commit hready hstored values⟩⟩

/-- The small host where nothing fails. -/
def Small.attempt : Attempt where
  host := Small.host
  addr1 := Small.addr 1
  addr2 := Small.addr 2
  draws := Small.draws 1

theorem ready_client : Attempt.Ready Small.group Small.client (newTmp Small.host Small.group) :=
  ⟨rfl, rfl, rfl, ⟨_, rfl, rfl⟩, ⟨_, rfl, rfl⟩⟩

theorem prepare_reports_small : ∃ sae' ok, (Small.attempt.saeApPrepareCommit Small.client).result = .ok (sae', ok) ∧
    (ok = true → Small.attempt.Succeeds Small.group Small.client (newTmp Small.host Small.group) ∧
      ∃ tmp' out, sae'.tmp = some tmp' ∧ Small.attempt.Commit Small.group 19 2 tmp' out) := by
  have hpwe : Small.attempt.pwe Small.group 19 0 = some (.affine 18 9) ∧
      Small.attempt.pwe Small.group 19 1 = some (.affine 7 20) := by decide +kernel
  have hmask : (generateScalar (newTmp Small.host Small.group) Small.attempt.draws).1.mask = 3 := by decide +kernel
  refine (prepare_reports_iff Small.attempt ready_client).2 (.inr ⟨by decide +kernel, ?_⟩)
  rw [hmask]
  intro i hi
  obtain rfl | rfl : i = 0 ∨ i = 1 := by
    have h : i < 2 := hi
    omega
  · refine ⟨_, hpwe.1, rfl, ⟨rfl, by decide +kernel⟩, ⟨rfl, by decide +kernel⟩, rfl, ?_⟩
    exact Option.isSome_iff_exists.1 (by decide +kernel)
  · refine ⟨_, hpwe.2, rfl, ⟨rfl, by decide +kernel⟩, ⟨rfl, by decide +kernel⟩, rfl, ?_⟩
    exact Option.isSome_iff_exists.1 (by decide +kernel)

/-- The scalar and the elements of a prepared commit. -/
def Small.prepared (A : Attempt) : Option (Bool × Option ℤ × Option EcPoint × Option EcPoint) :=
  (A.saeApPrepareCommit Small.client).valueOf.map fun (sae, ok) =>
    (ok, sae.tmp.bind SaeTmp.ownCommitScalar, sae.tmp.bind (·.ownCommitElementEccs.entry 0),
      sae.tmp.bind (·.ownCommitElementEccs.entry 1))

/-- Three failures that are not reported. Without random numbers the commit has the scalar 0 and elements at infinity. A
commit element that cannot be computed is that of the password before. And if the encoding draws no number, the
function crashes. -/
theorem prepare_hides_failures :
    (Small.prepared { Small.attempt with draws := { Small.draws 1 with scalar := fun _ => (none, none) } } =
      some (true, some 0, some .infinity, some .infinity)) ∧
    (Small.prepared { Small.attempt with
        draws := { Small.draws 1 with encode := fun _ _ => ⟨some 6, some 0⟩ }
        failures := { element := fun i => if i = 1 then some (some (.affine 8 8)) else none } } =
      some (true, some 8, some (.affine 8 8), some (.affine 8 8))) ∧
    (Attempt.saeApPrepareCommit { Small.attempt with
        draws := { Small.draws 1 with encode := fun _ _ => ⟨none, none⟩ } } Small.client).faultOf =
      some .noEncoding := by
  decide +kernel

end DecoyAuth
