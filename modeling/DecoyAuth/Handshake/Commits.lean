import DecoyAuth.Handshake.Defs
import DecoyAuth.Sae.KeyTables
import DecoyAuth.Sae.Prepared

/-!
# The commits of a handshake

What the two instances hold after the exchange of the commits. `Runs.clientCommit` follows the commit of the client to the
access point's parser, and `Runs.apCommit` that of the access point to its bytes.
-/

namespace DecoyAuth

variable {host : Host} {sae sae' : SaeData} {tmp : SaeTmp} {ec : EcGroup} {allowed : Option (List ℤ)}

/-! ## An ordinary commit -/

/-- `sae_write_commit` for an ECC group, without extended keys. -/
theorem saeWriteCommit_ecc {scalar : ℤ} {P : EcPoint} {frame : Bytes} (ht : sae.tmp = some tmp) (hec : tmp.ec = some ec)
    (hs : tmp.ownCommitScalar = some scalar) (hP : tmp.ownCommitElementEcc = some P) (hvalid : ec.Valid P)
    (hh2e : sae.h2e = false) (hakmp : sae.akmp.isSaeExtKey = false)
    (h : saeWriteCommit sae none none = some (sae', frame)) :
    sae' = sae ∧ ∃ x y, P = .affine x y ∧ scalar < 256 ^ tmp.primeLen ∧
      frame = Bytes.le16 sae.group ++ (Bytes.toBe tmp.primeLen scalar.toNat ++
        ((pointBytes ec.toEcParams x y).1 ++ (pointBytes ec.toEcParams x y).2)) := by
  unfold saeWriteCommit at h
  simp only [ht, hs, hec, hP, Option.bind_eq_bind, Option.bind_some] at h
  obtain ⟨bin, hbin, h⟩ := Option.bind_eq_some_iff.1 h
  obtain ⟨hlt, rfl⟩ := bnToBin_some hbin
  obtain ⟨element, helem, h⟩ := Option.bind_eq_some_iff.1 h
  obtain ⟨xy, hxy, rfl⟩ := Option.map_eq_some_iff.1 helem
  cases P with
  | infinity => cases hxy
  | affine x y =>
    rw [pointToBin_valid hvalid] at hxy
    cases hxy
    simp only [SaeData.noteAkmSuite, hakmp, commitElements, hh2e, Option.map_none, Option.getD_none, Bool.false_eq_true,
      if_false, List.append_nil, Option.pure_def, Option.some.injEq, Prod.mk.injEq] at h
    obtain ⟨rfl, rfl⟩ := h
    exact ⟨rfl, x, y, rfl, hlt, by simp only [List.append_assoc]⟩

theorem length_pointBytes (ec : EcGroup) (x y : ℤ) : (pointBytes ec.toEcParams x y).1.length = Bytes.numBytes ec.prime ∧
    (pointBytes ec.toEcParams x y).2.length = Bytes.numBytes ec.prime :=
  ⟨Bytes.length_toBe _ _, Bytes.length_toBe _ _⟩

/-- `sae_parse_commit_element_ecc` on the bytes of a point. -/
theorem saeParseCommitElement_written {x y : ℤ} (hec : tmp.ec = some ec) (hdh : tmp.dh = none)
    (hlen : tmp.primeLen = Bytes.numBytes ec.prime) (hP : ec.Valid (.affine x y)) :
    saeParseCommitElement sae tmp ((pointBytes ec.toEcParams x y).1 ++ (pointBytes ec.toEcParams x y).2) =
      ⟨sae, { tmp with peerCommitElementEcc := some (.affine x y) }, .success, []⟩ := by
  obtain ⟨h1, h2⟩ := length_pointBytes ec x y
  obtain ⟨-, hx, hy⟩ := EcParams.valid_affine.1 hP
  have hpx : Bytes.ofBe (pointBytes ec.toEcParams x y).1 < ec.prime := by
    have := ofBe_toBe_toNat hx.1 (lt_pow_numBytes_of_lt hx.2)
    simp only [pointBytes]
    omega
  have hpy : Bytes.ofBe (pointBytes ec.toEcParams x y).2 < ec.prime := by
    have := ofBe_toBe_toNat hy.1 (lt_pow_numBytes_of_lt hy.2)
    simp only [pointBytes]
    omega
  have hfrom := pointFromBin_pointBytes hP []
  rw [List.append_nil] at hfrom
  unfold saeParseCommitElement
  rw [if_neg (by simp [hdh])]
  split
  · next ec' hec' =>
    obtain rfl : ec' = ec := Option.some.inj (hec'.symm.trans hec)
    rw [← hlen] at h1 h2
    unfold saeParseCommitElementEcc
    rw [if_neg (by rw [List.length_append, h1, h2]; omega), List.take_left' h1, List.drop_left' h1,
      List.take_of_length_le h2.le, if_neg (by omega)]
    simp only [hfrom, Option.isNone_some, Bool.false_eq_true, if_false, Parsed.mk.injEq, true_and]
    exact List.drop_eq_nil_of_le (by rw [List.length_append, h1, h2]; omega)
  · next hnone => rw [hec] at hnone; cases hnone

theorem noteAkmp_eq (h : sae.peerAkmSuiteSelector = 0) : sae.noteAkmp = sae := by
  unfold SaeData.noteAkmp
  rw [h]
  split
  · rfl
  · rw [if_neg (by decide), if_neg (by decide)]

/-- Both parsers at the end of a commit without elements. -/
theorem parseElements_nil (sae : SaeData) (tmp : SaeTmp) (hpwId : tmp.pwId = none) (hown : sae.ownAkmSuiteSelector = 0)
    (hpeer : sae.peerAkmSuiteSelector = 0) :
    parseElements false sae tmp [] = ⟨sae, { tmp with parsedPwId := none, peerRejectedGroups := none },
      if isReflection sae tmp then .saeSilentlyDiscard else .success, []⟩ := by
  have hid : saeParsePasswordIdentifier false sae tmp [] = ⟨sae, { tmp with parsedPwId := none }, .success, []⟩ := by
    simp [saeParsePasswordIdentifier, saeIsPasswordIdElem, isElem, hpwId]
  simp only [parseElements, hid, Parsed.andThen, if_true, Bool.false_eq_true, if_false, finishCommit]
  rw [if_neg (fun h => h.1 hown), noteAkmp_eq hpeer]
  rfl

/-- `sae_parse_commit` on an ordinary commit, by an instance that has not sent one. -/
theorem saeParseCommit_written (host : Host) {scalar x y : ℤ} (hsel : Selected ec sae tmp)
    (hallowed : (allowed.map (groupListed sae.group)).getD true = true) (hs : IsScalar ec.order scalar)
    (hlt : scalar < 256 ^ tmp.primeLen) (hP : ec.Valid (.affine x y)) (hpwId : tmp.pwId = none)
    (hown : tmp.ownCommitScalar = none) (hselOwn : sae.ownAkmSuiteSelector = 0) (hselPeer : sae.peerAkmSuiteSelector = 0) :
    saeParseCommit host sae (Bytes.le16 sae.group ++ (Bytes.toBe tmp.primeLen scalar.toNat ++
        ((pointBytes ec.toEcParams x y).1 ++ (pointBytes ec.toEcParams x y).2))) allowed false =
      ⟨{ sae with
        peerCommitScalar := some scalar
        tmp := some { tmp with
          peerCommitElementEcc := some (.affine x y)
          parsedPwId := none
          peerRejectedGroups := none } }, .success, none⟩ := by
  obtain ⟨h1, h2⟩ := length_pointBytes ec x y
  have htoken : saeParseCommitToken tmp false (Bytes.toBe tmp.primeLen scalar.toNat ++
      ((pointBytes ec.toEcParams x y).1 ++ (pointBytes ec.toEcParams x y).2)) = (none, Bytes.toBe tmp.primeLen scalar.toNat ++
      ((pointBytes ec.toEcParams x y).1 ++ (pointBytes ec.toEcParams x y).2)) := by
    unfold saeParseCommitToken
    refine if_pos (.inr (.inl ?_))
    rw [hsel.ec_eq, List.length_append, List.length_append, Bytes.length_toBe, h1, h2, hsel.primeLen_eq]
    simp only [Option.isSome_some, if_true]
    omega
  have hfields : (saeParseCommitScalar sae tmp (Bytes.toBe tmp.primeLen scalar.toNat ++
      ((pointBytes ec.toEcParams x y).1 ++ (pointBytes ec.toEcParams x y).2))).andThen saeParseCommitElement =
        ⟨{ sae with peerCommitScalar := some scalar }, { tmp with peerCommitElementEcc := some (.affine x y) }, .success,
          []⟩ := by
    rw [saeParseCommitScalar_written _ hsel hs hlt, Parsed.andThen, if_pos rfl]
    exact saeParseCommitElement_written hsel.ec_eq hsel.dh_eq hsel.primeLen_eq hP
  unfold saeParseCommit
  rw [if_neg (by simp; omega), Bytes.getLe16_le16_append hsel.group_lt, saeGroupAllowed_same hsel hallowed,
    List.drop_left' (Bytes.length_le16 _)]
  dsimp only
  split
  · next t ht =>
    cases hsel.tmp_eq.symm.trans ht
    rw [htoken]
    dsimp only
    rw [hfields]
    dsimp only
    rw [if_neg (fun h => h rfl), parseElements_nil { sae with peerCommitScalar := some scalar }
      { tmp with peerCommitElementEcc := some (.affine x y) } hpwId hselOwn hselPeer]
    simp [isReflection, hown]
  · next h => exact absurd hsel.tmp_eq (h tmp rfl)

/-! ## The commit of the client -/

theorem newInstance_eq {group : ℕ} (hg : dragonflySuitableGroup group false = true) (hec : host.ecInit group = some ec)
    (akmp : Akmp) : newInstance host group akmp = { group := group, akmp := akmp, tmp := some (newTmp host ec) } := by
  rw [newInstance, saeSetGroup_ecc hg hec]

section Runs

variable {s : Setting} {t : Trace}

/-- The client's data after it has sent its commit. -/
def Setting.clientTmp (s : Setting) (pwe : EcPoint) (out : Scalars) : SaeTmp :=
  { newTmp s.client s.ec with
    pweEcc := some pwe
    saeRand := some out.rand
    ownCommitScalar := some out.scalar
    ownCommitElementEcc := some (commitElementEcc s.ec.toEcParams pwe out.mask) }

/-- The access point's data after it has received the client's element. -/
def Setting.apTmp (s : Setting) (element : EcPoint) : SaeTmp :=
  { newTmp s.ap s.ec with peerCommitElementEcc := some element }

/-- The commit of the client: its password element and scalars, and what both parties have after it. -/
structure ClientCommit (s : Setting) (t : Trace) (pwe : EcPoint) (out : Scalars) : Prop where
  derived : saeDerivePweEcc s.client.hash s.ec.toEcParams s.group s.clientAddr s.apAddr s.password (s.clientDraws.pwe 0) =
    some pwe
  drawn : Drawn s.ec.order out
  sent : t.clientSent = { group := s.group, akmp := s.clientAkmp, tmp := some (s.clientTmp pwe out) }
  received : t.apReceived = {
    group := s.group
    akmp := s.apAkmp
    peerCommitScalar := some out.scalar
    tmp := some (s.apTmp (commitElementEcc s.ec.toEcParams pwe out.mask)) }

theorem Runs.clientCommit (h : Runs s t) : ∃ pwe out, ClientCommit s t pwe out := by
  have hprepares := h.clientPrepares
  have hparses := h.apParses
  rw [newInstance_eq s.suitable s.client_ec] at hprepares
  rw [newInstance_eq s.suitable s.ap_ec] at hparses
  obtain ⟨pwe, out, hpwe, hdrawn, hprepared⟩ :=
    saePrepareCommit_ecc (selected_newTmp s.suitable s.client s.ec s.clientAkmp) hprepares
  have htmp : t.clientPrepared.tmp = some (s.clientTmp pwe out) := by
    rw [hprepared]
    rfl
  have hec : (s.clientTmp pwe out).ec = some s.ec := rfl
  obtain ⟨hsent, x, y, hxy, hlt, hframe⟩ := saeWriteCommit_ecc htmp hec rfl rfl (valid_commitElementEcc _ _ _)
    (by rw [hprepared]) (by rw [hprepared]; exact s.clientAkmp_plain) h.clientWrites
  have hvalid := valid_commitElementEcc s.ec.toEcParams pwe out.mask
  have hgroup : t.clientPrepared.group = s.group := by rw [hprepared]
  rw [hxy] at hvalid
  rw [hframe, hgroup] at hparses
  have hwritten := saeParseCommit_written s.ap (selected_newTmp s.suitable s.ap s.ec s.apAkmp) s.ap_allows
    hdrawn.isScalar hlt hvalid rfl rfl rfl rfl
  refine ⟨pwe, out, hpwe, hdrawn, hsent.trans hprepared, ?_⟩
  rw [hxy]
  exact (congrArg CommitParse.sae (hparses.symm.trans hwritten) :)

/-! ## The commit of the access point -/

/-- The values that the access point weaves. -/
def ApCommitBytes.Of (s : Setting) (tmp : SaeTmp) (out : Scalars) (values : List (ℤ × ℤ)) (frame : Bytes) : Prop :=
  ApCommitBytes s.ap.byteOrder tmp.primeLen s.group out.scalar tmp.numPasswords
    (wovenCoefficients s.ec.toEcParams (hashValues s.ap s.ap.passwords.length) (values.map Prod.fst))
    (wovenCoefficients s.ec.toEcParams (hashValues s.ap s.ap.passwords.length) (values.map Prod.snd)) [] frame

/-- The commit of the access point, from its preparation to its bytes. -/
structure ApCommit (s : Setting) (t : Trace) (element : EcPoint) (tmp : SaeTmp) (out : Scalars)
    (values : List (ℤ × ℤ)) : Prop where
  prepared : ApPrepared s.ap s.ec s.group s.apAddr s.clientAddr s.apDraws (s.apTmp element) tmp out values
  bytes : ApCommitBytes.Of s tmp out values t.apCommit
  length_le : t.apCommit.length ≤ saeCommitMaxLen
  sent : t.apSent = { t.apReceived with
    tmp := some { tmp with uCoefficients := .released, vCoefficients := .released } }

@[simp] theorem length_hashValues (host : Host) (n : ℕ) : (hashValues host n).length = n := by simp [hashValues]

theorem Runs.apCommit (h : Runs s t) {pwe : EcPoint} {out : Scalars} (hc : ClientCommit s t pwe out) :
    ∃ tmp out' values, ApCommit s t (commitElementEcc s.ec.toEcParams pwe out.mask) tmp out' values := by
  have hsel := selected_newTmp s.suitable s.ap s.ec s.apAkmp
  have hselR : Selected s.ec t.apReceived (s.apTmp (commitElementEcc s.ec.toEcParams pwe out.mask)) := by
    rw [hc.received]
    exact ⟨rfl, rfl, rfl, rfl, rfl, rfl, hsel.group_lt, nofun⟩
  have hgroup : t.apReceived.group = s.group := by rw [hc.received]
  have hakmp : t.apReceived.akmp.isSaeExtKey = false := by
    rw [hc.received]
    exact s.apAkmp_plain
  have hh2e : t.apReceived.h2e = false := by rw [hc.received]
  obtain ⟨tmp, out', values, hprepared, hprep⟩ := saeApPrepareCommit_ecc hselR hh2e (by rw [hc.received]) rfl
    (h.apDraws _ hselR.tmp_eq) h.apPrepares
  have hready : ReadyCommit s.ec.toEcParams out'.scalar (hashValues s.ap s.ap.passwords.length) (values.map Prod.fst)
      (values.map Prod.snd) t.apPrepared tmp := by
    refine ⟨by rw [hprepared], (congrArg SaeTmp.primeLen hprep.frame :), hprep.ownCommitScalar, ?_, hprep.u_eq, hprep.v_eq⟩
    rw [length_hashValues]
    exact (congrArg SaeTmp.numPasswords hprep.frame :)
  obtain ⟨hbytes, hlen, hsent⟩ := hready.written h.apWrites
  rw [hgroup] at hprep
  refine ⟨tmp, out', values, hprep, ?_, hlen, ?_⟩
  · rw [hprepared] at hbytes
    simpa only [ApCommitBytes.Of, commitElements, hgroup, hh2e, hakmp, Option.map_none, Option.getD_none,
      Bool.false_eq_true, if_false, List.append_nil] using hbytes
  · rw [hsent, hprepared]
    simp only [SaeData.noteAkmSuite, hakmp, Bool.false_eq_true, if_false]

end Runs

end DecoyAuth
