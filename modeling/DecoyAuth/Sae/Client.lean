import DecoyAuth.Encode.Correct
import DecoyAuth.Sae.Small
import DecoyAuth.Sae.Wire

/-!
# The client's parser

`sae_ap_parse_commit` takes the commit of an access point apart (`saeApParseCommit_success`) and decodes the element that
belongs to the client's password. The element is a point of the curve other than infinity exactly if the images of the two
decoded values do not cancel (`parsed_element_valid_iff`); the copy that follows the decoding does not report a failure.
-/

namespace DecoyAuth

variable {host : Host} {env : Surroundings} {password data : Bytes} {sae sae' : SaeData} {tmp : SaeTmp}
  {allowed : Option (List ℤ)} {h2e : Bool}

/-! ## The fields of a frame -/

/-- The frame from its count on, for a group whose elements have `primeLen` bytes. -/
def countField (primeLen : ℕ) (data : Bytes) : Bytes := data.drop (2 + primeLen)

/-- The count of a frame. -/
def frameCount (host : Host) (env : Surroundings) (primeLen : ℕ) (data : Bytes) : ℤ :=
  parseCount host env (countField primeLen data)

/-- The fields of a frame for the coefficients of the first polynomial. -/
def frameU (host : Host) (env : Surroundings) (primeLen : ℕ) (data : Bytes) : List ℤ :=
  coefficientFields primeLen (frameCount host env primeLen data).toNat ((countField primeLen data).drop 4)

/-- The fields of a frame for the coefficients of the second polynomial. -/
def frameV (host : Host) (env : Surroundings) (primeLen : ℕ) (data : Bytes) : List ℤ :=
  coefficientFields primeLen (frameCount host env primeLen data).toNat
    (((countField primeLen data).drop 4).drop ((frameCount host env primeLen data).toNat * primeLen))

/-! ## Up to the count -/

theorem saeGroupAllowed_success {g : ℕ} {s : SaeData} (h : saeGroupAllowed host sae allowed g = (s, .success)) :
    ∃ tmp, s.tmp = some tmp := by
  unfold saeGroupAllowed at h
  split at h
  · cases h
  · split at h
    · cases h
    · generalize (if g ≠ sae.group then saeSetGroup host sae g else (sae, true)) = r at h
      dsimp only at h
      split at h
      · cases h
      · split at h
        · cases h
        · next ht =>
          split at h
          · cases h
          · cases h
            exact ⟨_, ht⟩

theorem parseApCommitHead_error {r : SaeData × Status} (h : parseApCommitHead host sae data allowed = .error r) :
    r.2 ≠ .success := by
  unfold parseApCommitHead at h
  split at h
  · cases h
    exact nofun
  · rcases hg : saeGroupAllowed host sae allowed (Bytes.getLe16 data) with ⟨s, status⟩
    rw [hg] at h
    dsimp only at h
    split at h
    · split at h
      · next hp => cases h; exact hp
      · cases h
    · next hmatch =>
      cases h
      intro hs
      cases hs
      obtain ⟨tmp, ht⟩ := saeGroupAllowed_success hg
      exact hmatch tmp rfl ht

theorem saeParseCommitScalar_ok {rest : Bytes} (h : (saeParseCommitScalar sae tmp rest).status = .success) :
    (saeParseCommitScalar sae tmp rest).tmp = tmp ∧
      (saeParseCommitScalar sae tmp rest).rest = rest.drop tmp.primeLen := by
  unfold saeParseCommitScalar at h ⊢
  split
  · next hlen => rw [if_pos hlen] at h; cases h
  · next hlen =>
    rw [if_neg hlen] at h
    dsimp only at h ⊢
    split
    · next hseen => rw [if_pos hseen] at h; cases h
    · next hseen =>
      rw [if_neg hseen] at h
      split
      · next hrange => rw [if_pos hrange] at h; cases h
      · exact ⟨rfl, rfl⟩

/-- Where the head is accepted, the data is what the selection of the group has left, and the count follows the scalar. -/
theorem parseApCommitHead_ok {s : SaeData} {rest : Bytes}
    (h : parseApCommitHead host sae data allowed = .ok (s, tmp, rest)) :
    (saeGroupAllowed host sae allowed (Bytes.getLe16 data)).1.tmp = some tmp ∧ rest = countField tmp.primeLen data := by
  unfold parseApCommitHead at h
  split at h
  · cases h
  · dsimp only at h
    split at h
    · next t _ ht =>
      split at h
      · cases h
      · next hp =>
        obtain ⟨htmp, hrest⟩ := saeParseCommitScalar_ok (not_not.1 hp)
        cases h
        rw [hrest, htmp, List.drop_drop]
        exact ⟨ht, rfl⟩
    · cases h

theorem length_countField_le (primeLen : ℕ) (data : Bytes) : (countField primeLen data).length ≤ data.length := by
  rw [countField, List.length_drop]
  exact Nat.sub_le _ _

theorem saeApParseCommit_of_head (env : Surroundings) (password : Bytes) (h2e : Bool) {s : SaeData} {rest : Bytes}
    (h : parseApCommitHead host sae data allowed = .ok (s, tmp, rest)) :
    (saeApParseCommit host env password sae data allowed h2e).result =
      (parseApCommitBody host env password data h2e s tmp rest).result := by
  simp only [saeApParseCommit, h]
  rfl

/-! ## The elements after the coefficients -/

/-- The temporary data without what the elements at the end of a commit can change. -/
def SaeTmp.forgetElements (tmp : SaeTmp) : SaeTmp := { tmp with parsedPwId := none, peerRejectedGroups := none }

/-- What the elements leave as it was: the peer's scalar and the rest of the temporary data. -/
def keptByElements (sae : SaeData) (tmp : SaeTmp) : Option ℤ × SaeTmp := (sae.peerCommitScalar, tmp.forgetElements)

theorem Parsed.andThen_kept {p : Parsed} {next : SaeData → SaeTmp → Bytes → Parsed}
    (hp : keptByElements p.sae p.tmp = keptByElements sae tmp)
    (hnext : ∀ sae tmp rest, keptByElements (next sae tmp rest).sae (next sae tmp rest).tmp = keptByElements sae tmp) :
    keptByElements (p.andThen next).sae (p.andThen next).tmp = keptByElements sae tmp := by
  unfold Parsed.andThen
  split
  · exact (hnext _ _ _).trans hp
  · exact hp

theorem noteAkmp_kept : keptByElements sae.noteAkmp tmp = keptByElements sae tmp := by
  unfold SaeData.noteAkmp
  split
  · rfl
  · split
    · rfl
    · split <;> rfl

theorem parseElements_kept (rest : Bytes) :
    keptByElements (parseElements h2e sae tmp rest).sae (parseElements h2e sae tmp rest).tmp = keptByElements sae tmp := by
  unfold parseElements
  refine Parsed.andThen_kept (Parsed.andThen_kept (Parsed.andThen_kept ?_ ?_) ?_) ?_
  · unfold saeParsePasswordIdentifier
    split <;> split <;> rfl
  · intro sae tmp rest
    split
    · unfold saeParseRejectedGroups
      split
      · rfl
      · split <;> rfl
    · rfl
  · intro sae tmp rest
    split
    · unfold saeParseAkmSuiteSelector
      split <;> rfl
    · rfl
  · intro sae tmp rest
    unfold finishCommit
    split
    · rfl
    · exact noteAkmp_kept

theorem parseElements_peerCommitScalar (rest : Bytes) :
    (parseElements h2e sae tmp rest).sae.peerCommitScalar = sae.peerCommitScalar := congrArg Prod.fst (parseElements_kept rest)

theorem parseElements_forgetElements (rest : Bytes) :
    (parseElements h2e sae tmp rest).tmp.forgetElements = tmp.forgetElements := congrArg Prod.snd (parseElements_kept rest)

/-! ## The element -/

/-- The ordinate that the client evaluates from one list of coefficients. -/
def decodedValue (host : Host) (password : Bytes) (ec : EcParams) (cs : List ℤ) (count : ℤ) : ℤ :=
  Weaver.Hostap.evaluate cs (passwordHash host.hash password) count.toNat ec.prime

theorem passwordHash_nonneg (H : HashFns) (password : Bytes) : 0 ≤ passwordHash H password := Int.natCast_nonneg _

/-- The point that the client decodes. -/
noncomputable def decodedPoint (host : Host) (password : Bytes) (ec : EcParams) (u v : List ℤ) (count : ℤ) :
    ec.curve.Point :=
  Encode.swu ec (decodedValue host password ec u count) + Encode.swu ec (decodedValue host password ec v count)

section Decode

variable {ec : EcParams} {u v : List ℤ} {count : ℤ}

theorem cryptoEvaluate_of_pos (hcount : 1 ≤ count) (cs : List ℤ) (x : ℤ) :
    (cryptoEvaluate ec cs x count).result = .ok (Weaver.Hostap.evaluate cs x count.toNat ec.prime) := by
  rw [cryptoEvaluate, if_neg (not_lt.2 hcount), Run.bind_of_ok (Run.emit_result _)]
  rfl

theorem decodeElement_of_pos (hcount : 1 ≤ count) : (decodeElement host password ec u v count).result =
    .ok (clonePoint ec (Encode.valuesToPoint ec (decodedValue host password ec u count)
      (decodedValue host password ec v count))) := by
  rw [decodeElement, Run.bind_of_ok (cryptoEvaluate_of_pos hcount u _), Run.bind_of_ok (cryptoEvaluate_of_pos hcount v _)]
  rfl

theorem decodeElement_of_lt (hcount : count < 1) :
    (decodeElement host password ec u v count).result = .error .negativeIndex := by
  have heval : (cryptoEvaluate ec u (passwordHash host.hash password) count).result = .error .negativeIndex := by
    rw [cryptoEvaluate, if_pos hcount, Run.bind_of_ok (Run.emit_result _)]
    rfl
  rw [decodeElement, Run.bind_of_error heval]

theorem decodeElement_ok {ec : EcGroup} (hu : ∀ c ∈ u, 0 ≤ c) (hv : ∀ c ∈ v, 0 ≤ c) (hcount : 1 ≤ count) :
    (decodeElement host password ec.toEcParams u v count).result =
      .ok (ec.ofPoint (decodedPoint host password ec.toEcParams u v count)) := by
  have hx := passwordHash_nonneg host.hash password
  have hp : (0 : ℤ) < ec.prime := cast_pos
  have hdecode := Encode.valuesToPoint_eq (G := ec.toEcParams) (Weaver.hostap_evaluate_range hp hu hx count.toNat)
    (Weaver.hostap_evaluate_range hp hv hx count.toNat)
  rw [decodeElement_of_pos hcount, decodedValue, decodedValue, hdecode, clonePoint_valid (EcParams.valid_ofPoint _)]
  rfl

end Decode

/-- The client's data with the decoded element. -/
noncomputable def withDecoded (host : Host) (password : Bytes) (ec : EcParams) (u v : List ℤ) (tmp : SaeTmp) : SaeTmp :=
  { tmp with peerCommitElementEcc := some (ec.ofPoint (decodedPoint host password ec u v tmp.numPasswords)) }

theorem IsScalar.nonneg {order c : ℤ} (h : IsScalar order c) : 0 ≤ c := by
  unfold IsScalar at h
  omega

/-- The data of the client after both loops have ended with success. -/
structure Coefficients (tmp : SaeTmp) (u v : List ℤ) : Prop where
  uCoefficients : tmp.uCoefficients = .live (u.map some)
  vCoefficients : tmp.vCoefficients = .live (v.map some)
  u_length : u.length = tmp.numPasswords.toNat
  v_length : v.length = tmp.numPasswords.toNat
  u_isScalar : ∀ c ∈ u, IsScalar tmp.order c
  v_isScalar : ∀ c ∈ v, IsScalar tmp.order c

theorem Coefficients.of_forgetElements {tmp' : SaeTmp} {u v : List ℤ}
    (hf : tmp'.forgetElements = tmp.forgetElements) (h : Coefficients tmp u v) : Coefficients tmp' u v := by
  have hn : tmp'.numPasswords = tmp.numPasswords := (congrArg SaeTmp.numPasswords hf :)
  have ho : tmp'.order = tmp.order := (congrArg SaeTmp.order hf :)
  exact ⟨(congrArg SaeTmp.uCoefficients hf :).trans h.uCoefficients,
    (congrArg SaeTmp.vCoefficients hf :).trans h.vCoefficients, hn ▸ h.u_length, hn ▸ h.v_length, ho ▸ h.u_isScalar,
    ho ▸ h.v_isScalar⟩

/-- The client's data with the element as the code computes it. -/
def withElement (host : Host) (password : Bytes) (ec : EcParams) (u v : List ℤ) (tmp : SaeTmp) : SaeTmp :=
  { tmp with peerCommitElementEcc := some (clonePoint ec (Encode.valuesToPoint ec
      (decodedValue host password ec u tmp.numPasswords) (decodedValue host password ec v tmp.numPasswords))) }

theorem withElement_eq {ec : EcGroup} {u v : List ℤ} (hc : Coefficients tmp u v) (hpos : 1 ≤ tmp.numPasswords) :
    withElement host password ec.toEcParams u v tmp = withDecoded host password ec.toEcParams u v tmp := by
  have hok : (decodeElement host password ec.toEcParams u v tmp.numPasswords).result = _ :=
    decodeElement_ok (fun c hu => (hc.u_isScalar c hu).nonneg) (fun c hv => (hc.v_isScalar c hv).nonneg) hpos
  rw [decodeElement_of_pos hpos] at hok
  rw [withElement, withDecoded, Except.ok.inj hok]

/-- What `sae_ap_parse_commit` does from the decoding on: it needs a group and a positive count. -/
theorem decodeApCommit_ok_iff {u v : List ℤ} {rest : Bytes} {r : SaeData × Status} :
    (decodeApCommit host password data h2e sae tmp u v rest).result = .ok r ↔
      ∃ ec, tmp.ec = some ec ∧ 1 ≤ tmp.numPasswords ∧
        ∃ p, p = parseElements h2e sae (withElement host password ec.toEcParams u v tmp) rest ∧
          r = ({ p.sae with tmp := some p.tmp }, p.status) := by
  unfold decodeApCommit
  split
  · next hec => exact iff_of_false nofun fun ⟨ec, hec', _⟩ => by cases hec.symm.trans hec'
  · next ec hec =>
    by_cases hpos : 1 ≤ tmp.numPasswords
    · rw [Run.bind_of_ok (decodeElement_of_pos hpos)]
      constructor
      · intro h
        exact ⟨ec, hec, hpos, _, rfl, (Except.ok.inj h).symm⟩
      · rintro ⟨ec', hec', -, p, rfl, rfl⟩
        cases hec.symm.trans hec'
        rfl
    · rw [Run.bind_of_error (decodeElement_of_lt (not_le.1 hpos))]
      exact iff_of_false nofun fun ⟨_, _, h, _⟩ => hpos h

/-! ## From the count on -/

/-- What `sae_ap_parse_commit` has read from the count on when both loops have ended with success: the coefficients in
their fields and the elements `rest'`. -/
structure BodyRead (host : Host) (env : Surroundings) (tmp : SaeTmp) (rest : Bytes) (u v : List ℤ) (rest' : Bytes) :
    Prop where
  mallocU : env.mallocU = true
  mallocV : env.mallocV = true
  length_le : 2 * ((parseCount host env rest).toNat * tmp.primeLen) ≤ (rest.drop 4).length
  u_eq : u = coefficientFields tmp.primeLen (parseCount host env rest).toNat (rest.drop 4)
  v_eq : v = coefficientFields tmp.primeLen (parseCount host env rest).toNat
    ((rest.drop 4).drop ((parseCount host env rest).toNat * tmp.primeLen))
  rest_eq : rest' = ((rest.drop 4).drop ((parseCount host env rest).toNat * tmp.primeLen)).drop
    ((parseCount host env rest).toNat * tmp.primeLen)
  u_isScalar : ∀ c ∈ u, IsScalar tmp.order c
  v_isScalar : ∀ c ∈ v, IsScalar tmp.order c

theorem BodyRead.coefficients {rest rest' : Bytes} {u v : List ℤ} (h : BodyRead host env tmp rest u v rest') :
    Coefficients (withCoefficients (parseCount host env rest) u v tmp) u v :=
  ⟨rfl, rfl, by rw [h.u_eq]; exact length_coefficientFields .., by rw [h.v_eq]; exact length_coefficientFields ..,
    h.u_isScalar, h.v_isScalar⟩

/-- **How the parser ends from the count on**: in a coefficient, or after the decoding. -/
theorem parseApCommitBody_cases {rest : Bytes} {status : Status}
    (h : (parseApCommitBody host env password data h2e sae tmp rest).result = .ok (sae', status)) :
    (status = .unspecifiedFailure ∧
        ∃ u v, sae' = { sae with tmp := some (withCoefficients (parseCount host env rest) u v tmp) }) ∨
      ∃ ec u v rest', tmp.ec = some ec ∧ 1 ≤ parseCount host env rest ∧ BodyRead host env tmp rest u v rest' ∧
        ∃ p, p = parseElements h2e sae (withElement host password ec.toEcParams u v
            (withCoefficients (parseCount host env rest) u v tmp)) rest' ∧
          sae' = { p.sae with tmp := some p.tmp } ∧ status = p.status := by
  unfold parseApCommitBody at h
  obtain ⟨_, -, h⟩ := Run.bind_result_ok.1 h
  obtain ⟨⟨u, statusU, restU⟩, hu, h⟩ := Run.bind_result_ok.1 h
  rcases parseCoefficients_status hu with rfl | rfl
  · simp only [ne_eq, not_true_eq_false, if_false] at h
    obtain ⟨⟨v, statusV, restV⟩, hv, h⟩ := Run.bind_result_ok.1 h
    rcases parseCoefficients_status hv with rfl | rfl
    · simp only [not_true_eq_false, if_false] at h
      obtain ⟨rfl, rfl, hlenU, hus, hmallocU⟩ := parseCoefficients_success_iff.1 hu
      obtain ⟨rfl, rfl, hlenV, hvs, hmallocV⟩ := parseCoefficients_success_iff.1 hv
      obtain ⟨ec, hec, hpos, p, hp, hr⟩ := decodeApCommit_ok_iff.1 h
      have hpos : 1 ≤ parseCount host env rest := hpos
      rw [List.length_drop] at hlenV
      rw [Prod.mk.injEq] at hr
      exact .inr ⟨ec, _, _, _, hec, hpos, ⟨hmallocU (by omega), hmallocV (by omega), by omega, rfl, rfl, rfl, hus, hvs⟩,
        p, hp, hr⟩
    · cases h
      exact .inl ⟨rfl, u, v, rfl⟩
  · cases h
    exact .inl ⟨rfl, u, [], rfl⟩

/-- Where both loops can read their fields, the element is decoded. -/
theorem BodyRead.result {ec : EcGroup} {rest rest' : Bytes} {u v : List ℤ} (h : BodyRead host env tmp rest u v rest')
    (hec : tmp.ec = some ec) (hpos : 1 ≤ parseCount host env rest) (password data : Bytes) (h2e : Bool) (sae : SaeData) :
    ∃ p, p = parseElements h2e sae (withElement host password ec.toEcParams u v
        (withCoefficients (parseCount host env rest) u v tmp)) rest' ∧
      (parseApCommitBody host env password data h2e sae tmp rest).result =
        .ok ({ p.sae with tmp := some p.tmp }, p.status) := by
  have hlen := h.length_le
  have hloopU : (parseCoefficients data tmp.primeLen tmp.order (parseCount host env rest).toNat env.mallocU
      (parseCount host env rest).toNat (rest.drop 4) []).result = .ok (u, .success, _) :=
    parseCoefficients_success_iff.2 ⟨h.u_eq, rfl, by omega, h.u_eq ▸ h.u_isScalar, fun _ => h.mallocU⟩
  have hloopV : (parseCoefficients data tmp.primeLen tmp.order (parseCount host env rest).toNat env.mallocV
      (parseCount host env rest).toNat ((rest.drop 4).drop ((parseCount host env rest).toNat * tmp.primeLen))
      []).result = .ok (v, .success, rest') :=
    parseCoefficients_success_iff.2
      ⟨h.v_eq, h.rest_eq, by rw [List.length_drop]; omega, h.v_eq ▸ h.v_isScalar, fun _ => h.mallocV⟩
  refine ⟨_, rfl, ?_⟩
  unfold parseApCommitBody
  rw [Run.bind_of_ok (Run.emit_result _), Run.bind_of_ok hloopU]
  simp only [ne_eq, not_true_eq_false, if_false]
  rw [Run.bind_of_ok hloopV]
  exact decodeApCommit_ok_iff.2 ⟨ec, hec, hpos, _, rfl, rfl⟩

/-- What `sae_ap_parse_commit` has read from the count on when it returns success: `count` coefficients for each
polynomial and the elements `rest'`. -/
structure BodyParsed (host : Host) (env : Surroundings) (password : Bytes) (h2e : Bool) (sae : SaeData) (tmp : SaeTmp)
    (rest : Bytes) (sae' : SaeData) (ec : EcGroup) (u v : List ℤ) (rest' : Bytes) : Prop where
  ec_eq : tmp.ec = some ec
  count_pos : 1 ≤ parseCount host env rest
  coefficients : Coefficients (withCoefficients (parseCount host env rest) u v tmp) u v
  length_eq : (rest.drop 4).length = 2 * ((parseCount host env rest).toNat * tmp.primeLen) + rest'.length
  mallocU : env.mallocU = true
  mallocV : env.mallocV = true
  parsed : ∃ p, p = parseElements h2e sae (withDecoded host password ec.toEcParams u v
      (withCoefficients (parseCount host env rest) u v tmp)) rest' ∧ p.status = .success ∧
    sae' = { p.sae with tmp := some p.tmp }

theorem parseApCommitBody_success {rest : Bytes}
    (h : (parseApCommitBody host env password data h2e sae tmp rest).result = .ok (sae', .success)) :
    ∃ ec u v rest', BodyParsed host env password h2e sae tmp rest sae' ec u v rest' := by
  rcases parseApCommitBody_cases h with ⟨hs, -⟩ | ⟨ec, u, v, rest', hec, hpos, hread, p, hp, hsae, hs⟩
  · cases hs
  · have hlen := hread.length_le
    have hlen' : (rest.drop 4).length = 2 * ((parseCount host env rest).toNat * tmp.primeLen) + rest'.length := by
      rw [List.length_drop] at hlen
      rw [hread.rest_eq]
      simp only [List.length_drop]
      omega
    rw [withElement_eq hread.coefficients hpos] at hp
    exact ⟨ec, u, v, rest', hec, hpos, hread.coefficients, hlen', hread.mallocU, hread.mallocV, p, hp, hs.symm, hsae⟩

/-- What a successful `sae_ap_parse_commit` leaves in the temporary data: the fields of the frame, for the group that the
frame has selected. -/
theorem saeApParseCommit_success
    (h : (saeApParseCommit host env password sae data allowed h2e).result = .ok (sae', .success)) :
    ∃ group tmp ec, (saeGroupAllowed host sae allowed (Bytes.getLe16 data)).1.tmp = some group ∧ group.ec = some ec ∧
      sae'.tmp = some tmp ∧ tmp.ec = some ec ∧ tmp.numPasswords = frameCount host env group.primeLen data ∧
      Coefficients tmp (frameU host env group.primeLen data) (frameV host env group.primeLen data) ∧
      tmp.peerCommitElementEcc = some (ec.ofPoint (decodedPoint host password ec.toEcParams
        (frameU host env group.primeLen data) (frameV host env group.primeLen data) tmp.numPasswords)) := by
  unfold saeApParseCommit at h
  obtain ⟨_, -, h⟩ := Run.bind_result_ok.1 h
  cases hhead : parseApCommitHead host sae data allowed with
  | error r =>
    rw [hhead] at h
    cases h
    exact absurd rfl (parseApCommitHead_error hhead)
  | ok r =>
    obtain ⟨s, group, rest⟩ := r
    obtain ⟨hgroup, rfl⟩ := parseApCommitHead_ok hhead
    simp only [hhead] at h
    rcases parseApCommitBody_cases h with ⟨hs, -⟩ | ⟨ec, u, v, rest', hec, hpos, hread, p, hp, rfl, -⟩
    · cases hs
    rw [withElement_eq hread.coefficients hpos] at hp
    have hf : p.tmp.forgetElements = (withDecoded host password ec.toEcParams u v
        (withCoefficients (frameCount host env group.primeLen data) u v group)).forgetElements := by
      rw [hp]
      exact parseElements_forgetElements rest'
    have hc := hread.coefficients
    have hcount : p.tmp.numPasswords = frameCount host env group.primeLen data := (congrArg SaeTmp.numPasswords hf :)
    obtain rfl : u = frameU host env group.primeLen data := hread.u_eq
    obtain rfl : v = frameV host env group.primeLen data := hread.v_eq
    refine ⟨group, p.tmp, ec, hgroup, hec, rfl, (congrArg SaeTmp.ec hf :).trans hec, hcount, ?_, ?_⟩
    · exact Coefficients.of_forgetElements hf ⟨rfl, rfl, hc.u_length, hc.v_length, hc.u_isScalar, hc.v_isScalar⟩
    · rw [hcount]
      exact (congrArg SaeTmp.peerCommitElementEcc hf :)

theorem exists_affine_iff {G : EcParams} {P : G.curve.Point} :
    (∃ x y, some (G.ofPoint P) = some (EcPoint.affine x y) ∧ G.OnCurve x y) ↔ P ≠ 0 := by
  have hvalid := EcParams.valid_ofPoint P
  constructor
  · rintro ⟨x, y, h, -⟩ rfl
    cases h
  · intro hP
    cases hQ : G.ofPoint P with
    | infinity => exact absurd (EcParams.ofPoint_eq_infinity.1 hQ) hP
    | affine x y =>
      rw [hQ] at hvalid
      exact ⟨x, y, rfl, (EcParams.valid_affine.1 hvalid).1⟩

/-- **The element of a parsed commit** is an affine point of the curve exactly if the images of the values do not cancel
that the fields of the frame give at the hash of the password. -/
theorem parsed_element_valid_iff
    (h : (saeApParseCommit host env password sae data allowed h2e).result = .ok (sae', .success)) :
    ∃ group tmp ec, (saeGroupAllowed host sae allowed (Bytes.getLe16 data)).1.tmp = some group ∧ group.ec = some ec ∧
      sae'.tmp = some tmp ∧ tmp.ec = some ec ∧ tmp.numPasswords = frameCount host env group.primeLen data ∧
      tmp.uCoefficients = .live ((frameU host env group.primeLen data).map some) ∧
      tmp.vCoefficients = .live ((frameV host env group.primeLen data).map some) ∧
      ((∃ x y, tmp.peerCommitElementEcc = some (.affine x y) ∧ ec.OnCurve x y) ↔
        ¬Encode.Cancel (G := ec.toEcParams)
          (decodedValue host password ec.toEcParams (frameU host env group.primeLen data)
            (frameCount host env group.primeLen data))
          (decodedValue host password ec.toEcParams (frameV host env group.primeLen data)
            (frameCount host env group.primeLen data))) := by
  obtain ⟨group, tmp, ec, hgroup, hgec, ht, hec, hcount, hc, helem⟩ := saeApParseCommit_success h
  refine ⟨group, tmp, ec, hgroup, hgec, ht, hec, hcount, hc.uCoefficients, hc.vCoefficients, ?_⟩
  rw [helem, exists_affine_iff, hcount, ← Encode.swu_add_eq_zero_iff]
  rfl

theorem parsed_element_valid_small : ∃ sae group tmp ec,
    (Small.parse [19, 0, 8, 2, 0, 0, 0, 9, 13, 22, 3]).result = .ok (sae, .success) ∧
      (saeGroupAllowed Small.host Small.client none 19).1.tmp = some group ∧ group.ec = some ec ∧
      sae.tmp = some tmp ∧ tmp.ec = some ec ∧
      tmp.numPasswords = frameCount Small.host ⟨[], true, true⟩ group.primeLen [19, 0, 8, 2, 0, 0, 0, 9, 13, 22, 3] ∧
      tmp.uCoefficients = .live ((frameU Small.host ⟨[], true, true⟩ group.primeLen
        [19, 0, 8, 2, 0, 0, 0, 9, 13, 22, 3]).map some) ∧
      tmp.vCoefficients = .live ((frameV Small.host ⟨[], true, true⟩ group.primeLen
        [19, 0, 8, 2, 0, 0, 0, 9, 13, 22, 3]).map some) ∧
      ((∃ x y, tmp.peerCommitElementEcc = some (.affine x y) ∧ ec.OnCurve x y) ↔
        ¬Encode.Cancel (G := ec.toEcParams)
          (decodedValue Small.host (ascii "PASSWORD_0") ec.toEcParams
            (frameU Small.host ⟨[], true, true⟩ group.primeLen [19, 0, 8, 2, 0, 0, 0, 9, 13, 22, 3])
            (frameCount Small.host ⟨[], true, true⟩ group.primeLen [19, 0, 8, 2, 0, 0, 0, 9, 13, 22, 3]))
          (decodedValue Small.host (ascii "PASSWORD_0") ec.toEcParams
            (frameV Small.host ⟨[], true, true⟩ group.primeLen [19, 0, 8, 2, 0, 0, 0, 9, 13, 22, 3])
            (frameCount Small.host ⟨[], true, true⟩ group.primeLen [19, 0, 8, 2, 0, 0, 0, 9, 13, 22, 3]))) := by
  obtain ⟨sae, hr, -⟩ := Small.exists_of_parsedElement
    (show Small.parsedElement [19, 0, 8, 2, 0, 0, 0, 9, 13, 22, 3] = some (.success, some (.affine 8 8)) by
      decide +kernel)
  obtain ⟨group, tmp, ec, h⟩ := parsed_element_valid_iff hr
  exact ⟨sae, group, tmp, ec, hr, h⟩

/-- One coefficient for each polynomial, 3 and 8, whose images are inverse to each other: the parser returns success and
leaves the client with the point at infinity. -/
theorem cancelling_commit_infinity : ∃ sae tmp, (Small.parse [19, 0, 8, 1, 0, 0, 0, 3, 8]).result = .ok (sae, .success) ∧
    sae.tmp = some tmp ∧ tmp.peerCommitElementEcc = some .infinity := by
  obtain ⟨sae, hr, helem⟩ := Small.exists_of_parsedElement
    (show Small.parsedElement [19, 0, 8, 1, 0, 0, 0, 3, 8] = some (.success, some .infinity) by decide +kernel)
  obtain ⟨tmp, ht, helem⟩ := Option.bind_eq_some_iff.1 helem
  exact ⟨sae, tmp, hr, ht, helem⟩

end DecoyAuth
