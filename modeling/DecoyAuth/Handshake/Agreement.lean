import DecoyAuth.Handshake.Decode
import DecoyAuth.Sae.Refinement

/-!
# The two parties agree

The client decodes the element of its index, so that both sides compute the shared secret of one exchange with one
password element (`Runs.secrets`), derive the same keys from it (`Runs.keys`), and the confirm of the client matches its
index (`Runs.matches_index`). `handshake_agreement` is what the parties have at the end.
-/

namespace DecoyAuth

variable {s : Setting} {t : Trace} {pwe element : EcPoint} {out out' : Scalars} {tmp : SaeTmp} {values : List (ℤ × ℤ)}

/-! ## Keys and confirms of two sides -/

/-- Without hash-to-element and extended keys the keys depend on the sum of the scalars and the order only. -/
theorem deriveKeys_swap (H : HashFns) {sae sae' : SaeData} {tmp tmp' : SaeTmp} (h : sae.h2e = false)
    (h' : sae'.h2e = false) (hakmp : sae.akmp.isSaeExtKey = false) (hakmp' : sae'.akmp.isSaeExtKey = false)
    (horder : tmp.order = tmp'.order) (hlen : tmp.orderLen = tmp'.orderLen) (scalar scalar' : ℤ) (k : Bytes) :
    deriveKeys H sae tmp scalar scalar' k = deriveKeys H sae' tmp' scalar' scalar k := by
  have hhash : keyHashLen sae tmp = 32 := by simp [keyHashLen, h]
  have hhash' : keyHashLen sae' tmp' = 32 := by simp [keyHashLen, h']
  have hsalt : keySalt sae tmp = List.replicate 32 0 := by simp [keySalt, h, hhash]
  have hsalt' : keySalt sae' tmp' = List.replicate 32 0 := by simp [keySalt, h', hhash']
  simp only [deriveKeys, hhash, hhash', hsalt, hsalt', hakmp, hakmp', horder, hlen, add_comm scalar scalar']

/-- **The keys of the two sides are equal**, if they have the same password element. -/
theorem entryKeys_swap {host host' : Host} {ec : EcGroup} {sae sae' : SaeData} {tmp tmp' : SaeTmp}
    (hhash : host.hash = host'.hash) (h : sae.h2e = false) (h' : sae'.h2e = false)
    (hakmp : sae.akmp.isSaeExtKey = false) (hakmp' : sae'.akmp.isSaeExtKey = false) (horder : tmp.order = tmp'.order)
    (hlen : tmp.orderLen = tmp'.orderLen) (hout : Drawn ec.order out) (hout' : Drawn ec.order out') (pwe : EcPoint) :
    entryKeys host ec sae tmp out'.scalar out.scalar out.rand (commitElementEcc ec.toEcParams pwe out'.mask) pwe =
      entryKeys host' ec sae' tmp' out.scalar out'.scalar out'.rand (commitElementEcc ec.toEcParams pwe out.mask) pwe := by
  simp only [entryKeys, deriveKEcc, sharedPoint_eq hout, sharedPoint_eq hout', hhash, mul_comm out.rand]
  congr 1
  funext k
  exact deriveKeys_swap host'.hash h h' hakmp hakmp' horder hlen _ _ k

/-- A verifier has the length of the key. -/
theorem length_saeCnConfirmEcc {H : HashFns} {ec : EcParams} {primeLen : ℕ} {kck sc verifier : Bytes}
    {scalar1 scalar2 : ℤ} {element1 element2 : EcPoint}
    (h : saeCnConfirmEcc H ec primeLen kck sc scalar1 element1 scalar2 element2 = some verifier) :
    verifier.length = kck.length := by
  unfold saeCnConfirmEcc at h
  obtain ⟨⟨x1, y1⟩, -, h⟩ := Option.bind_eq_some_iff.1 h
  obtain ⟨⟨x2, y2⟩, -, h⟩ := Option.bind_eq_some_iff.1 h
  unfold saeCnConfirm at h
  obtain ⟨b1, -, h⟩ := Option.bind_eq_some_iff.1 h
  obtain ⟨b2, -, h⟩ := Option.bind_eq_some_iff.1 h
  unfold HashFns.hkdfExtract at h
  split at h
  · cases h
    exact H.length_hmac _ _ _
  · cases h

/-- `K` of an instance, for a password element. -/
def SaeData.secret (ec : EcParams) (sae : SaeData) (pwe : EcPoint) : Option EcPoint := do
  let tmp ← sae.tmp
  return sharedPoint ec pwe (← sae.peerCommitScalar) (← tmp.peerCommitElementEcc) (← tmp.saeRand)

theorem ReadyForKeys.secret_eq {ec : EcGroup} {sae : SaeData} {tmp : SaeTmp} {pwe : EcPoint} {ownScalar rand : ℤ}
    (h : ReadyForKeys ec sae tmp out.scalar ownScalar rand (commitElementEcc ec.toEcParams pwe out.mask))
    (ht : sae.tmp = some tmp) (hout : Drawn ec.order out) :
    sae.secret ec.toEcParams pwe = some (ec.ofPoint ((rand * out.rand) • ec.toPoint pwe)) := by
  rw [← sharedPoint_eq hout]
  simp [SaeData.secret, ht, h.peerCommitScalar, h.peerCommitElementEcc, h.saeRand]

/-! ## The access point -/

/-- The instance of the access point after it has processed the commit of the client, whose element is `element`. -/
structure ApProcessed (s : Setting) (element : EcPoint) (out out' : Scalars) (sae : SaeData) (tmp : SaeTmp) : Prop where
  tmp_eq : sae.tmp = some tmp
  ready : ReadyForKeys s.ec sae tmp out.scalar out'.scalar out'.rand element
  numPasswords : tmp.numPasswords = s.ap.passwords.length
  primeLen : tmp.primeLen = Bytes.numBytes s.ec.prime
  order : tmp.order = s.ec.order
  orderLen : tmp.orderLen = Bytes.numBytes s.ec.order
  h2e : sae.h2e = false
  akmp : sae.akmp = s.apAkmp
  prepared : ∀ i < s.ap.passwords.length, ∃ pwe key,
    EntryPrepared s.ap s.ec s.group s.apAddr s.clientAddr s.apDraws out'.mask tmp i pwe ∧
    tmp.keys.entry i = some key ∧
    entryKeys s.ap s.ec sae tmp out.scalar out'.scalar out'.rand element pwe = some key

theorem Runs.apProcessed (h : Runs s t) (hc : ClientCommit s t pwe out)
    (ha : ApCommit s t (commitElementEcc s.ec.toEcParams pwe out.mask) tmp out' values) :
    ∃ tmp', ApProcessed s (commitElementEcc s.ec.toEcParams pwe out.mask) out out' t.apProcessed tmp' := by
  have hn : tmp.numPasswords = s.ap.passwords.length := (congrArg SaeTmp.numPasswords ha.prepared.frame :)
  obtain ⟨tmp₁, tmp', ht₁, hstores, hresult, -⟩ := saeApProcessCommit_ok h.apProcesses
  have hprocessed : t.apProcessed = { t.apSent with tmp := some tmp', processed := t.apSent.processed || true } := hresult
  have hsent := ha.sent
  rw [hc.received] at hsent
  obtain rfl : { tmp with uCoefficients := .released, vCoefficients := .released } = tmp₁ := by
    rw [hsent] at ht₁
    exact Option.some.inj ht₁
  have hready : ReadyForKeys s.ec t.apSent { tmp with uCoefficients := .released, vCoefficients := .released } out.scalar
      out'.scalar out'.rand (commitElementEcc s.ec.toEcParams pwe out.mask) := by
    rw [hsent]
    exact ⟨⟨rfl, ha.prepared.ownCommitScalar, (congrArg SaeTmp.peerCommitElementEcc ha.prepared.frame :)⟩,
      (congrArg SaeTmp.ec ha.prepared.frame :), ha.prepared.saeRand⟩
  have hframe := hstores.frame
  refine ⟨tmp', by rw [hprocessed], ?_, ?_, ?_, ?_, ?_, ?_, ?_, ?_⟩
  · rw [hprocessed, hframe]
    exact ⟨⟨hready.peerCommitScalar, hready.ownCommitScalar, hready.peerCommitElementEcc⟩, hready.ec_eq, hready.saeRand⟩
  · rw [hframe]
    exact hn
  · rw [hframe]
    exact (congrArg SaeTmp.primeLen ha.prepared.frame :)
  · rw [hframe]
    exact (congrArg SaeTmp.order ha.prepared.frame :)
  · rw [hframe]
    exact (congrArg SaeTmp.orderLen ha.prepared.frame :)
  · rw [hprocessed, hsent]
  · rw [hprocessed, hsent]
  · intro i hi
    obtain ⟨pwe', hentry⟩ := ha.prepared.prepared i hi
    obtain ⟨key, hkey, hderived⟩ := hstores.stored rfl i (Nat.zero_le i) (by
      change i < 0 + tmp.numPasswords.toNat
      rw [hn]
      omega)
    rw [apDeriveKeys_entry hready hentry.pwe_eq] at hderived
    refine ⟨pwe', key, ⟨hentry.derived, ?_, ?_⟩, hkey, ?_⟩
    · rw [hframe]
      exact hentry.pwe_eq
    · rw [hframe]
      exact hentry.element_eq
    · rw [hprocessed, hframe]
      exact Except.ok.inj hderived

/-! ## The client -/

/-- The instance of the client after it has processed the commit of the access point. -/
structure ClientProcessed (s : Setting) (pwe : EcPoint) (out out' : Scalars) (key : KeyEntry) (sae : SaeData)
    (tmp : SaeTmp) : Prop where
  tmp_eq : sae.tmp = some tmp
  ready : ReadyForKeys s.ec sae tmp out'.scalar out.scalar out.rand (commitElementEcc s.ec.toEcParams pwe out'.mask)
  pwe_eq : tmp.pweEcc = some pwe
  element_eq : tmp.ownCommitElementEcc = some (commitElementEcc s.ec.toEcParams pwe out.mask)
  primeLen : tmp.primeLen = Bytes.numBytes s.ec.prime
  order : tmp.order = s.ec.order
  orderLen : tmp.orderLen = Bytes.numBytes s.ec.order
  h2e : sae.h2e = false
  akmp : sae.akmp = s.clientAkmp
  sendConfirm : sae.sendConfirm = 0
  key_eq : sae.keyEntry = key
  derived : entryKeys s.client s.ec sae tmp out'.scalar out.scalar out.rand
    (commitElementEcc s.ec.toEcParams pwe out'.mask) pwe = some key

theorem Runs.clientProcessed (h : Runs s t)
    (hreceived : t.clientReceived = s.received pwe out out' values (commitElementEcc s.ec.toEcParams pwe out'.mask)) :
    ∃ tmp key, ClientProcessed s pwe out out' key t.clientProcessed tmp := by
  have hprocesses := h.clientProcesses
  rw [hreceived, saeProcessCommit_entry rfl ⟨⟨rfl, rfl, rfl⟩, rfl, rfl⟩ rfl] at hprocesses
  obtain ⟨key, hkey, hprocessed⟩ := Option.map_eq_some_iff.1 hprocesses
  rw [← hprocessed]
  exact ⟨_, key, rfl, ⟨⟨rfl, rfl, rfl⟩, rfl, rfl⟩, rfl, rfl, rfl, rfl, rfl, rfl, rfl, rfl, rfl, hkey⟩

/-! ## The confirm -/

section Confirm

variable {apSae clientSae : SaeData} {apTmp clientTmp : SaeTmp} {key : KeyEntry}

theorem ApProcessed.live (h : ApProcessed s element out out' apSae apTmp) :
    Live s.ec apTmp apTmp.numPasswords.toNat := by
  rw [h.numPasswords, Int.toNat_natCast]
  refine ⟨h.ready.ec_eq, fun i hi => ?_, fun i hi => ?_, fun i hi => ?_⟩
  · obtain ⟨_, key, -, hkey, -⟩ := h.prepared i hi
    exact ⟨key, hkey⟩
  · obtain ⟨pwe, _, hentry, -⟩ := h.prepared i hi
    exact ⟨pwe, hentry.pwe_eq, saeDerivePweEcc_valid hentry.derived⟩
  · obtain ⟨pwe, _, hentry, -⟩ := h.prepared i hi
    exact ⟨_, hentry.element_eq, valid_commitElementEcc _ _ _⟩

theorem ClientProcessed.kck_eq (h : ClientProcessed s pwe out out' key clientSae clientTmp) :
    clientTmp.kck = key.kck := by
  rw [← h.key_eq, SaeData.keyEntry, h.tmp_eq]
  rfl

/-- The confirm of the client is its counter and its verifier. -/
theorem ClientProcessed.confirm_eq {sae' : SaeData} {confirm : Bytes}
    (h : ClientProcessed s pwe out out' key clientSae clientTmp)
    (hwrite : saeWriteConfirm s.client clientSae = .ok (sae', some confirm)) :
    ∃ verifier, saeCnConfirmEcc s.client.hash s.ec.toEcParams (Bytes.numBytes s.ec.prime) key.kck (Bytes.le16 1)
      out.scalar (commitElementEcc s.ec.toEcParams pwe out.mask) out'.scalar
      (commitElementEcc s.ec.toEcParams pwe out'.mask) = some verifier ∧ confirm = Bytes.le16 1 ++ verifier := by
  unfold saeWriteConfirm at hwrite
  rw [h.tmp_eq] at hwrite
  simp only [h.sendConfirm, ownConfirm, h.ready.ec_eq, h.ready.ownCommitScalar, h.ready.peerCommitScalar,
    h.ready.peerCommitElementEcc, h.element_eq, need, h.kck_eq, h.primeLen, bind, Except.bind, pure, Except.pure,
    Except.ok.injEq, Prod.mk.injEq] at hwrite
  obtain ⟨verifier, hverifier, rfl⟩ := Option.map_eq_some_iff.1 hwrite.2
  exact ⟨verifier, hverifier, rfl⟩

/-- **The confirm of the client matches its index.** -/
theorem ClientProcessed.matches_index {sae' : SaeData} {confirm : Bytes}
    (h : ClientProcessed s pwe out out' key clientSae clientTmp)
    (hap : ApProcessed s (commitElementEcc s.ec.toEcParams pwe out.mask) out out' apSae apTmp)
    (hentry : EntryPrepared s.ap s.ec s.group s.apAddr s.clientAddr s.apDraws out'.mask apTmp s.index pwe)
    (hkey : apTmp.keys.entry s.index = some key)
    (hwrite : saeWriteConfirm s.client clientSae = .ok (sae', some confirm)) :
    Matches s.ap s.ec apTmp out.scalar out'.scalar (commitElementEcc s.ec.toEcParams pwe out.mask) confirm s.index := by
  obtain ⟨verifier, hverifier, rfl⟩ := h.confirm_eq hwrite
  have hlen := length_saeCnConfirmEcc hverifier
  have h2 : (Bytes.le16 1).length = 2 := Bytes.length_le16 1
  refine ⟨key, _, hkey, hentry.element_eq, ?_, ?_⟩
  · rw [List.length_append, h2]
    omega
  · rw [List.take_left' h2, List.drop_left' h2, List.take_of_length_le hlen.le, hap.primeLen, ← s.hash_eq, hverifier]

end Confirm

/-! ## Agreement -/

/-- What the parties have after a handshake: the element that the client decoded is that of its index, `K` and the keys
are the same on both sides, and the access point accepts the confirm, for this index unless the confirm matches one before
it. -/
structure Agreement (s : Setting) (t : Trace) (apTmp clientTmp : SaeTmp) (pwe element : EcPoint) (key : KeyEntry) :
    Prop where
  ap_tmp : t.apProcessed.tmp = some apTmp
  client_tmp : t.clientProcessed.tmp = some clientTmp
  element_eq : apTmp.ownCommitElementEccs.entry s.index = some element
  decoded : t.clientReceived.tmp.bind SaeTmp.peerCommitElementEcc = some element
  pwe_eq : apTmp.pweEccs.entry s.index = some pwe
  client_pwe : clientTmp.pweEcc = some pwe
  secret : ∃ rand rand', clientTmp.saeRand = some rand ∧ apTmp.saeRand = some rand' ∧
    t.clientProcessed.secret s.ec.toEcParams pwe = some (s.ec.ofPoint ((rand * rand') • s.ec.toPoint pwe)) ∧
    t.apProcessed.secret s.ec.toEcParams pwe = some (s.ec.ofPoint ((rand * rand') • s.ec.toPoint pwe))
  key_eq : apTmp.keys.entry s.index = some key
  client_key : t.clientProcessed.keyEntry = key
  accepted : ∃ sae', (saeApCheckConfirm s.ap t.confirm t.apProcessed).result = .ok (sae', true) ∧
    ∀ peerScalar ownScalar peerElement, Exchanged t.apProcessed apTmp peerScalar ownScalar peerElement →
      (∀ j < s.index, ¬Matches s.ap s.ec apTmp peerScalar ownScalar peerElement t.confirm j) → HasEntry sae' key pwe element

/-- **The parties agree.** -/
theorem handshake_agreement (h : Runs s t) (hreg : Encode.EveryPointRegular s.ec.toEcParams)
    (hdist : Weaver.DistinctMod s.ec.prime (hashValues s.ap s.ap.passwords.length)) :
    ∃ apTmp clientTmp pwe element key, Agreement s t apTmp clientTmp pwe element key := by
  obtain ⟨pwe, out, hc⟩ := h.clientCommit
  obtain ⟨tmp, out', values, ha⟩ := h.apCommit hc
  obtain ⟨pwe', hprepared, hreceived⟩ := h.clientReceives hdist hc ha hreg
  have hderived := hc.derived
  rw [s.hash_eq] at hderived
  obtain rfl := saeDerivePweEcc_agree hderived hprepared.derived
  obtain ⟨clientTmp, key, hclient⟩ := h.clientProcessed hreceived
  obtain ⟨apTmp, hap⟩ := h.apProcessed hc ha
  obtain ⟨pwe', key', hentry, hkey, hkeys⟩ := hap.prepared s.index s.index_lt
  obtain rfl := saeDerivePweEcc_agree hderived hentry.derived
  obtain rfl : key = key' := by
    have hswap := entryKeys_swap s.hash_eq hclient.h2e hap.h2e (by rw [hclient.akmp]; exact s.clientAkmp_plain)
      (by rw [hap.akmp]; exact s.apAkmp_plain) (hclient.order.trans hap.order.symm)
      (hclient.orderLen.trans hap.orderLen.symm) hc.drawn ha.prepared.drawn pwe
    rw [hclient.derived, hkeys] at hswap
    exact Option.some.inj hswap
  have hm := hclient.matches_index hap hentry hkey h.clientConfirms
  refine ⟨apTmp, clientTmp, pwe, _, key, hap.tmp_eq, hclient.tmp_eq, hentry.element_eq, by rw [hreceived]; rfl, hentry.pwe_eq,
    hclient.pwe_eq, ⟨out.rand, out'.rand, hclient.ready.saeRand, hap.ready.saeRand,
      hclient.ready.secret_eq hclient.tmp_eq ha.prepared.drawn, ?_⟩, hkey, hclient.key_eq, ?_⟩
  · rw [hap.ready.secret_eq hap.tmp_eq hc.drawn, mul_comm]
  · obtain ⟨sae', hchecked, hfirst⟩ := saeApCheckConfirm_of_matches hap.tmp_eq hap.live hap.ready.toExchanged
      (by rw [hap.numPasswords]; exact s.index_lt) hm
    refine ⟨sae', hchecked, fun peerScalar ownScalar peerElement hex hbefore => ?_⟩
    obtain rfl := Option.some.inj (hex.peerCommitScalar.symm.trans hap.ready.peerCommitScalar)
    obtain rfl := Option.some.inj (hex.ownCommitScalar.symm.trans hap.ready.ownCommitScalar)
    obtain rfl := Option.some.inj (hex.peerCommitElementEcc.symm.trans hap.ready.peerCommitElementEcc)
    obtain ⟨o, key', P, Q, haccepted⟩ := hfirst hbefore
    obtain rfl := Option.some.inj (haccepted.key_eq.symm.trans hkey)
    obtain rfl := Option.some.inj (haccepted.pwe_eq.symm.trans hentry.pwe_eq)
    obtain rfl := Option.some.inj (haccepted.element_eq.symm.trans hentry.element_eq)
    exact haccepted.session

/-- A handshake on the small host, where the client has the second password. -/
def Small.setting : Setting where
  ap := Small.host
  client := Small.host
  ec := Small.group
  group := 19
  apAddr := Small.addr 1
  clientAddr := Small.addr 2
  apAkmp := .unset
  clientAkmp := .sae
  apAllowed := none
  clientAllowed := none
  apDraws := Small.draws 1
  clientDraws := Small.draws 2
  env := ⟨[], true, true⟩
  index := 1
  hash_eq := rfl
  ap_ec := rfl
  client_ec := rfl
  suitable := rfl
  apAkmp_plain := rfl
  clientAkmp_plain := rfl
  ap_allows := rfl
  client_allows := rfl
  index_lt := by decide

theorem handshake_agreement_small : ∃ t, Runs Small.setting t ∧
    ∃ apTmp clientTmp pwe element key, Agreement Small.setting t apTmp clientTmp pwe element key := by
  have hrun : Small.setting.run.isSome := by decide +kernel
  obtain ⟨t, ht⟩ := Option.isSome_iff_exists.1 hrun
  have hruns := runs_of_run ht
  have hreg : Encode.EveryPointRegular Small.params := by
    intro x y hc
    exact Encode.regular_iff.2 (Small.ne_neg_b_div_a x y hc)
  have hdist : Weaver.DistinctMod 23 (hashValues Small.host 2) := by
    unfold Weaver.DistinctMod
    decide +kernel
  exact ⟨t, hruns, handshake_agreement hruns hreg hdist⟩

end DecoyAuth
