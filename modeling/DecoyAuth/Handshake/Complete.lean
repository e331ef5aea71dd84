import DecoyAuth.Ap.Small
import DecoyAuth.Handshake.Client

/-!
# A handshake through both state machines

`handshake_agreement` follows the calls of `sae.c` up to the confirm of the client. Here the state machines make these
calls: the access point accepts the client and sends its own confirm (`Serves.confirm_yields`), the client's turns are
`Joins.connect_yields`, `Joins.commit_yields` and `Joins.confirm_yields`, and in `handshake_completes` both parties end in
Accepted with one PMK.
-/

namespace DecoyAuth

/-! ## The confirm of the access point -/

section Confirm

variable {host : Host} {data : Bytes} {sae : SaeData} {tmp : SaeTmp} {ec : EcGroup} {peerScalar ownScalar : ℤ}
  {peerElement : EcPoint}

/-- The search stops at the first index that matches, with its keys and points in the instance. -/
theorem searchEntries_first {i : ℕ} (hlive : Live ec tmp tmp.numPasswords.toNat)
    (hex : Exchanged sae tmp peerScalar ownScalar peerElement) (hi : i < tmp.numPasswords.toNat)
    (hm : Matches host ec tmp peerScalar ownScalar peerElement data i)
    (hfirst : ∀ j < i, ¬Matches host ec tmp peerScalar ownScalar peerElement data j) :
    ∃ key P Q, tmp.keys.entry i = some key ∧ tmp.pweEccs.entry i = some P ∧
      tmp.ownCommitElementEccs.entry i = some Q ∧
      searchEntries host data tmp.numPasswords.toNat 0 sae tmp = .ok ((loadEntry sae tmp key (some P) (some Q)).1,
        releaseTables (loadEntry sae tmp key (some P) (some Q)).2, some (2 + key.kck.length)) := by
  obtain ⟨⟨s, t, offset⟩, hr⟩ := searchEntries_total host data tmp.numPasswords.toNat 0 sae tmp (by simpa using hlive)
  cases offset with
  | none => exact absurd hm (searchEntries_none_matches hlive hex hr i hi)
  | some o =>
    obtain ⟨j, key, pwe, element, hf, rfl⟩ := searchEntries_some hr
    have hj : j < tmp.numPasswords.toNat := by have := hf.lt; omega
    have hmj := (verifies_iff hlive hex hj).1 ⟨key, pwe, element, hf.verifies⟩
    obtain rfl : j = i := by
      rcases Nat.lt_trichotomy j i with hlt | heq | hlt
      · exact absurd hmj (hfirst j hlt)
      · exact heq
      · obtain ⟨key', pwe', element', hv⟩ := (verifies_iff hlive hex hi).2 hm
        exact absurd hv (hf.first i (Nat.zero_le i) hlt key' pwe' element')
    obtain ⟨P, hP, -⟩ := hlive.pwe j hj
    obtain ⟨Q, hQ, -⟩ := hlive.element j hj
    obtain rfl : pwe = some P := Except.ok.inj (hf.verifies.pwe_eq.symm.trans (Table.slot_of_entry .pweEccs hP))
    obtain rfl : element = some Q :=
      Except.ok.inj (hf.verifies.element_eq.symm.trans (Table.slot_of_entry .ownCommitElementEccs hQ))
    refine ⟨key, P, Q, Table.read_ok hf.verifies.key_eq, hP, hQ, ?_⟩
    rw [hr, hf.sae_eq, hf.tmp_eq]

/-- If one side can compute its verifier, the other side can compute one too: they hash the same values. -/
theorem saeCnConfirmEcc_swap {H : HashFns} {G : EcParams} {primeLen : ℕ} {kck sc verifier : Bytes}
    {scalar1 scalar2 : ℤ} {element1 element2 : EcPoint}
    (h : saeCnConfirmEcc H G primeLen kck sc scalar1 element1 scalar2 element2 = some verifier) (sc' : Bytes) :
    ∃ verifier', saeCnConfirmEcc H G primeLen kck sc' scalar2 element2 scalar1 element1 = some verifier' := by
  unfold saeCnConfirmEcc at h ⊢
  obtain ⟨⟨x1, y1⟩, h1, h⟩ := Option.bind_eq_some_iff.1 h
  obtain ⟨⟨x2, y2⟩, h2, h⟩ := Option.bind_eq_some_iff.1 h
  unfold saeCnConfirm at h
  obtain ⟨b1, hb1, h⟩ := Option.bind_eq_some_iff.1 h
  obtain ⟨b2, hb2, h⟩ := Option.bind_eq_some_iff.1 h
  unfold HashFns.hkdfExtract at h
  split at h
  · next hlen => exact ⟨_, by simp [saeCnConfirm, HashFns.hkdfExtract, h1, h2, hb1, hb2, hlen]; rfl⟩
  · cases h

/-- `sae_write_confirm` for an ECC group, where the verifier can be computed. -/
theorem saeWriteConfirm_ecc {element : EcPoint} (ht : sae.tmp = some tmp) (hec : tmp.ec = some ec)
    (hex : Exchanged sae tmp peerScalar ownScalar peerElement) (hown : tmp.ownCommitElementEcc = some element)
    (hv : ∀ sc, ∃ verifier, saeCnConfirmEcc host.hash ec.toEcParams tmp.primeLen tmp.kck sc ownScalar element peerScalar
      peerElement = some verifier) :
    ∃ n verifier, saeCnConfirmEcc host.hash ec.toEcParams tmp.primeLen tmp.kck (Bytes.le16 n) ownScalar element peerScalar
        peerElement = some verifier ∧
      saeWriteConfirm host sae = .ok ({ sae with sendConfirm := n }, some (Bytes.le16 n ++ verifier)) := by
  obtain ⟨verifier, hverifier⟩ :=
    hv (Bytes.le16 (if sae.sendConfirm < 0xffff then sae.sendConfirm + 1 else sae.sendConfirm))
  refine ⟨_, verifier, hverifier, ?_⟩
  unfold saeWriteConfirm
  rw [ht]
  simp only [ownConfirm, hec, hex.ownCommitScalar, hex.peerCommitScalar, hex.peerCommitElementEcc, hown, need, hverifier,
    bind, Except.bind, pure, Except.pure, Option.map_some]

end Confirm

/-! ## The second turn of the access point -/

section ApTurn

variable {s : Setting} {t : Trace} {ap : Ap} {commit confirm : Input} {pwe element : EcPoint} {out out' : Scalars}
  {tmp : SaeTmp}

/-- What the access point sends and keeps when it accepts the client for the index of the client: its confirm verifies
under the key of this index. -/
structure Accepts (s : Setting) (element : EcPoint) (out out' : Scalars) (tmp : SaeTmp) (station : SaeData)
    (body : Bytes) (key : KeyEntry) : Prop where
  key_eq : tmp.keys.entry s.index = some key
  body_eq : ∃ n verifier own, tmp.ownCommitElementEccs.entry s.index = some own ∧ body = Bytes.le16 n ++ verifier ∧
    saeCnConfirmEcc s.ap.hash s.ec.toEcParams (Bytes.numBytes s.ec.prime) key.kck (Bytes.le16 n) out'.scalar own
      out.scalar element = some verifier
  state : station.state = .accepted
  pmk : station.pmk = key.pmk
  pmkid : station.pmkid = key.pmkid

/-- The instance once the station is accepted. -/
def SaeData.accept (sae : SaeData) : SaeData :=
  { sae with
    sendConfirm := 0xffff
    state := .accepted
    peerCommitScalarAccepted := sae.peerCommitScalar
    peerCommitScalar := none }

/-- A confirm in the state Committed is answered, and the station is accepted. -/
theorem confirmInCommitted_yields {inp : Input} {sae sae' : SaeData} {body : Bytes} (hsent : inp.confirmSent = true)
    (hvlan : inp.vlanOk = true) (h : saeWriteConfirm ap.host sae = .ok (sae', some body)) :
    (confirmInCommitted ap inp sae).Yields Event.output (sae'.accept, .success)
      [.frame ⟨2, .success, body⟩, .pmksa sae'.pmk sae'.pmkid] := by
  have hsend : (authSaeSendConfirm ap inp sae).Yields Event.output (sae', .success) [.frame ⟨2, .success, body⟩] := by
    refine (Run.Yields.lift h).bind ?_
    dsimp only
    rw [hsent]
    exact (Run.Yields.emit _).bind (Run.Yields.pure _)
  have hadvance : (confirmAndAdvance ap inp sae).Yields Event.output ({ sae' with state := .confirmed }, .success)
      [.frame ⟨2, .success, body⟩] := hsend.bind_silent (Run.Yields.pure _)
  refine hadvance.bind ?_
  refine Run.Yields.bind_silent ?_ (Run.Yields.pure _)
  unfold saeAcceptSta
  rw [if_neg (by simp [hvlan])]
  exact (Run.Yields.emit _).bind (Run.Yields.pure _)

/-- A confirm that `sae_ap_check_confirm` accepts, in the state Committed. -/
theorem handleConfirm_yields {inp : Input} {sae loaded sae' : SaeData} {body : Bytes}
    (hreach : confirmReachesCheck inp sae = true)
    (hcheck : (saeApCheckConfirm ap.host inp.body sae).Yields Event.output (loaded, true) [])
    (hstate : loaded.state = .committed) (hsent : inp.confirmSent = true) (hvlan : inp.vlanOk = true)
    (hwrite : saeWriteConfirm ap.host { loaded with rc := Bytes.getLe16 inp.body } = .ok (sae', some body)) :
    (handleConfirm ap inp sae).Yields Event.output sae'.accept
      [.frame ⟨2, .success, body⟩, .pmksa sae'.pmk sae'.pmkid] := by
  have hstep : smStepConfirm ap inp { loaded with rc := Bytes.getLe16 inp.body } =
      confirmInCommitted ap inp { loaded with rc := Bytes.getLe16 inp.body } := by
    simp only [smStepConfirm, hstate]
  unfold handleConfirm
  rw [if_pos hreach]
  refine hcheck.bind ?_
  dsimp only
  rw [if_neg (by simp), hstep]
  refine (confirmInCommitted_yields hsent hvlan hwrite).bind_silent ?_
  exact (Run.Yields.pure ()).bind (Run.Yields.pure _)

theorem saeApCheckConfirm_yields {host : Host} {data : Bytes} {sae sae' : SaeData} {tmp tmp' : SaeTmp} {o : ℕ}
    (ht : sae.tmp = some tmp) (h : searchEntries host data tmp.numPasswords.toNat 0 sae tmp = .ok (sae', tmp', some o)) :
    (saeApCheckConfirm host data sae).Yields Event.output ({ sae' with tmp := some tmp' }, true) [] := by
  unfold saeApCheckConfirm
  rw [saeApCheckConfirmIe_of_search ht h]
  exact (Run.Yields.lift rfl).bind ((Run.Yields.emit _).bind (Run.Yields.pure _))

/-- The instance with the keys and the points of one index, and the temporary data in it. -/
def SaeData.loadedTmp (sae : SaeData) (tmp : SaeTmp) (key : KeyEntry) (P Q : EcPoint) : SaeTmp :=
  releaseTables (loadEntry sae tmp key (some P) (some Q)).2

def SaeData.loaded (sae : SaeData) (tmp : SaeTmp) (key : KeyEntry) (P Q : EcPoint) : SaeData :=
  { (loadEntry sae tmp key (some P) (some Q)).1 with tmp := some (sae.loadedTmp tmp key P Q) }

/-- **The access point accepts the confirm of the client** and answers it with its own. -/
theorem Serves.confirm_yields (hs : Serves s ap commit confirm) (hap : ApProcessed s element out out' t.apProcessed tmp)
    (noPwId : Bool) (hm : Matches s.ap s.ec tmp out.scalar out'.scalar element t.confirm s.index)
    (hfirst : ∀ j < s.index, ¬Matches s.ap s.ec tmp out.scalar out'.scalar element t.confirm j)
    (hlen : 2 ≤ t.confirm.length) (hv : ∀ key own sc, tmp.keys.entry s.index = some key →
      tmp.ownCommitElementEccs.entry s.index = some own → ∃ verifier, saeCnConfirmEcc s.ap.hash s.ec.toEcParams
        (Bytes.numBytes s.ec.prime) key.kck sc out'.scalar own out.scalar element = some verifier) :
    ∃ station body key, (handleAuthSae ap (some (t.answered noPwId)) (confirm.deliver 2 t.confirm)).Yields Event.output
        (some station) [.frame ⟨2, .success, body⟩, .pmksa key.pmk key.pmkid] ∧
      Accepts s element out out' tmp station body key := by
  have hindex : s.index < tmp.numPasswords.toNat := by
    rw [hap.numPasswords]
    exact s.index_lt
  have hex : Exchanged (t.answered noPwId) tmp out.scalar out'.scalar element :=
    ⟨hap.ready.peerCommitScalar, hap.ready.ownCommitScalar, hap.ready.peerCommitElementEcc⟩
  obtain ⟨key, P, Q, hkey, hP, hQ, hsearch⟩ := searchEntries_first hap.live hex hindex hm hfirst
  have hcheck : (saeApCheckConfirm s.ap t.confirm (t.answered noPwId)).Yields Event.output
      ((t.answered noPwId).loaded tmp key P Q, true) [] := saeApCheckConfirm_yields hap.tmp_eq hsearch
  have hown : ((t.answered noPwId).loadedTmp tmp key P Q).ownCommitElementEcc = some Q := by
    obtain ⟨Q', hQ', hvalid⟩ := hap.live.element s.index hindex
    obtain rfl := Option.some.inj (hQ'.symm.trans hQ)
    simp [SaeData.loadedTmp, releaseTables, loadEntry, hap.ready.ec_eq, clonePoint_valid hvalid]
  have hprime : ((t.answered noPwId).loadedTmp tmp key P Q).primeLen = Bytes.numBytes s.ec.prime := hap.primeLen
  have hverifiers : ∀ sc, ∃ verifier, saeCnConfirmEcc s.ap.hash s.ec.toEcParams
      ((t.answered noPwId).loadedTmp tmp key P Q).primeLen ((t.answered noPwId).loadedTmp tmp key P Q).kck sc
        out'.scalar Q out.scalar element = some verifier := by
    intro sc
    rw [hprime]
    exact hv key Q sc hkey hQ
  obtain ⟨n, verifier, hverifier, hwrite⟩ := saeWriteConfirm_ecc
    (show ({ (t.answered noPwId).loaded tmp key P Q with rc := Bytes.getLe16 t.confirm } : SaeData).tmp = _ from rfl)
    hap.ready.ec_eq ⟨hex.1, hex.2, hex.3⟩ hown hverifiers
  rw [hprime] at hverifier
  rw [← hs.host] at hcheck hwrite
  have hreach : confirmReachesCheck (confirm.deliver 2 t.confirm) (t.answered noPwId) = true := by
    simp [confirmReachesCheck, Input.deliver, hlen, Trace.answered, SaeData.label]
  have hyields := handleConfirm_yields hreach hcheck rfl hs.confirmSent hs.vlanOk hwrite
  exact ⟨_, _, key, hyields.bind_silent (Run.Yields.pure _), hkey, ⟨n, verifier, Q, hQ, rfl, hverifier⟩, rfl, rfl, rfl⟩

end ApTurn

/-! ## The whole handshake -/

section Handshake

variable {s : Setting} {t : Trace}

/-- The two parties before the confirms: they have the keys of the index of the client in common. -/
theorem Runs.parties (h : Runs s t) (hreg : Encode.EveryPointRegular s.ec.toEcParams)
    (hdist : Weaver.DistinctMod s.ec.prime (hashValues s.ap s.ap.passwords.length)) :
    ∃ pwe out out' clientTmp apTmp key, ClientProcessed s pwe out out' key t.clientProcessed clientTmp ∧
      ApProcessed s (commitElementEcc s.ec.toEcParams pwe out.mask) out out' t.apProcessed apTmp ∧
      EntryPrepared s.ap s.ec s.group s.apAddr s.clientAddr s.apDraws out'.mask apTmp s.index pwe ∧
      apTmp.keys.entry s.index = some key := by
  obtain ⟨pwe, out, hc⟩ := h.clientCommit
  obtain ⟨tmp, out', values, ha⟩ := h.apCommit hc
  obtain ⟨pwe', hprepared, hreceived⟩ := h.clientReceives hdist hc ha hreg
  have hderived := hc.derived
  rw [s.hash_eq] at hderived
  obtain rfl := saeDerivePweEcc_agree hderived hprepared.derived
  obtain ⟨clientTmp, key, hclient⟩ := h.clientProcessed hreceived
  obtain ⟨apTmp, hap⟩ := h.apProcessed hc ha
  obtain ⟨pwe', key', hentry, hkey, hkeys⟩ := hap.prepared s.index s.index_lt
  obtain rfl := saeDerivePweEcc_agree hderived hentry.derived
  have hswap := entryKeys_swap s.hash_eq hclient.h2e hap.h2e (by rw [hclient.akmp]; exact s.clientAkmp_plain)
    (by rw [hap.akmp]; exact s.apAkmp_plain) (hclient.order.trans hap.order.symm)
    (hclient.orderLen.trans hap.orderLen.symm) hc.drawn ha.prepared.drawn pwe
  rw [hclient.derived, hkeys] at hswap
  obtain rfl := Option.some.inj hswap
  exact ⟨pwe, out, out', clientTmp, apTmp, key, hclient, hap, hentry, hkey⟩

/-- Both parties are in Accepted with the PMK of one key entry, which is also that of the only PMKSA, and no frame is on
its way. -/
structure World.Established (w : World) (key : KeyEntry) : Prop where
  station : ∃ station, w.station = some station ∧ station.state = .accepted ∧ station.pmk = key.pmk ∧
    station.pmkid = key.pmkid
  client_state : w.client.sae.state = .accepted
  client_pmk : w.client.sae.pmk = key.pmk
  client_pmkid : w.client.sae.pmkid = key.pmkid
  pmksas : w.pmksas = [(key.pmk, key.pmkid)]
  toAp : w.toAp = []
  toClient : w.toClient = []

variable {ap : Ap} {cl : Sme.Client} {c : Sme.State} {connect commit confirm : Sme.Env} {inp inp' : Input}

/-- The five turns of a handshake in which the access point accepts the client and the client accepts the answer. -/
theorem World.run_handshake {station : SaeData} {body : Bytes} {key : KeyEntry} (h : Runs s t) (hs : Serves s ap inp inp')
    (hj : Joins s cl connect commit confirm) (hidle : Idle c)
    (haccepts : (handleAuthSae ap (some (t.answered (ap.conf.saePwIdInUse = 0))) (inp'.deliver 2 t.confirm)).Yields
      Event.output (some station) [.frame ⟨2, .success, body⟩, .pmksa key.pmk key.pmkid])
    (hcheck : Sme.saeCheckConfirm s.client body t.clientConfirmed = true) :
    World.run ap cl { client := c } [.connect connect, .ap inp, .client commit, .ap inp', .client confirm] =
      some ⟨station, t.joined s c confirm, [], [], [(key.pmk, key.pmkid)]⟩ := by
  -- each turn starts from the world that the one before it leaves
  have hconnect : World.turn ap cl { client := c } (.connect connect) =
      some ⟨none, t.connecting s c, [⟨1, .success, t.clientCommit⟩], [], []⟩ := by
    simp only [World.turn, hs.ownAddr]
    exact World.clientStep_of_yields (hj.connect_yields h hidle)
  have hcommit : World.turn ap cl ⟨none, t.connecting s c, [⟨1, .success, t.clientCommit⟩], [], []⟩ (.ap inp) =
      some ⟨t.answered (ap.conf.saePwIdInUse = 0), t.connecting s c, [], [⟨1, .success, t.apCommit⟩], []⟩ :=
    World.turn_ap rfl (hs.commit_yields h) rfl rfl
  have hanswer : World.turn ap cl
      ⟨t.answered (ap.conf.saePwIdInUse = 0), t.connecting s c, [], [⟨1, .success, t.apCommit⟩], []⟩ (.client commit) =
        some ⟨t.answered (ap.conf.saePwIdInUse = 0), t.confirming s c, [⟨2, .success, t.confirm⟩], [], []⟩ := by
    simp only [World.turn, hs.ownAddr]
    exact World.clientStep_of_yields (hj.commit_yields h hidle)
  have haccept : World.turn ap cl
      ⟨t.answered (ap.conf.saePwIdInUse = 0), t.confirming s c, [⟨2, .success, t.confirm⟩], [], []⟩ (.ap inp') =
        some ⟨station, t.confirming s c, [], [⟨2, .success, body⟩], [(key.pmk, key.pmkid)]⟩ :=
    World.turn_ap rfl haccepts rfl rfl
  have hjoin : World.turn ap cl ⟨station, t.confirming s c, [], [⟨2, .success, body⟩], [(key.pmk, key.pmkid)]⟩
      (.client confirm) = some ⟨station, t.joined s c confirm, [], [], [(key.pmk, key.pmkid)]⟩ := by
    simp only [World.turn, hs.ownAddr]
    exact World.clientStep_of_yields (hj.confirm_yields hcheck)
  simp only [World.run, List.foldlM_cons, List.foldlM_nil, hconnect, hcommit, hanswer, haccept, hjoin, bind,
    Option.bind_some, pure]

end Handshake

/-- The setting of the small access point and the small client, where the client has the second password. -/
def Small.airSetting : Setting :=
  { Small.setting with
    apAllowed := some Small.ap.conf.groups
    clientAllowed := some [19, 0]
    ap_allows := by decide
    client_allows := by decide }

def Small.airClient : Sme.Client :=
  { Sme.smallClient with network := { Sme.smallClient.network with password := some Small.airSetting.password } }

def Small.airEnv : Sme.Env := { Sme.smallEnv with draws := Small.draws 2 }

end DecoyAuth
