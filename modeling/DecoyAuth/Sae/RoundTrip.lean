import DecoyAuth.Sae.Client

/-!
# The commit of an access point at the client

`sae_ap_parse_commit` on what `sae_ap_write_commit` wrote. The client recovers the count and the coefficients exactly when
both hosts read the count alike and every coefficient is a scalar (`recovers_written_iff`); the coefficients of
`crypto_weave` are field elements, so neither is guaranteed. Where it does, `parseApCommit_written` gives the instance in
which it leaves the client.
-/

namespace DecoyAuth

variable {host : Host} {env : Surroundings} {password data rest : Bytes} {sae sae' : SaeData} {tmp : SaeTmp}
  {allowed : Option (List ℤ)} {h2e : Bool} {ec : EcGroup}

/-! ## Up to the count -/

/-- An instance that has selected an ECC group and has not accepted. -/
structure Selected (ec : EcGroup) (sae : SaeData) (tmp : SaeTmp) : Prop where
  tmp_eq : sae.tmp = some tmp
  ec_eq : tmp.ec = some ec
  dh_eq : tmp.dh = none
  primeLen_eq : tmp.primeLen = Bytes.numBytes ec.prime
  orderLen_eq : tmp.orderLen = Bytes.numBytes ec.order
  order_eq : tmp.order = ec.order
  group_lt : sae.group < 2 ^ 16
  not_accepted : sae.state ≠ .accepted

/-- The temporary data that `sae_set_group` leaves for an ECC group. -/
def newTmp (host : Host) (ec : EcGroup) : SaeTmp where
  numPasswords := host.passwords.length
  pweEccs := .alloc host.passwords.length
  ownCommitElementEccs := .alloc host.passwords.length
  ec := some ec
  primeLen := Bytes.numBytes ec.prime
  prime := ec.prime
  orderLen := Bytes.numBytes ec.order
  order := ec.order

section NewTmp

variable {group : ℕ} (hg : dragonflySuitableGroup group false = true)
include hg

theorem saeSetGroup_ecc (hec : host.ecInit group = some ec) :
    (saeSetGroup host {} group).1 = { group := group, tmp := some (newTmp host ec) } := by
  unfold saeSetGroup
  rw [if_neg (by simp [hg])]
  dsimp only
  rw [hec]
  rfl

theorem selected_newTmp (host : Host) (ec : EcGroup) (akmp : Akmp) :
    Selected ec { group := group, akmp := akmp, tmp := some (newTmp host ec) } (newTmp host ec) := by
  have hlt : group < 2 ^ 16 := by
    simp only [dragonflySuitableGroup, Bool.or_eq_true, Bool.and_eq_true, decide_eq_true_eq] at hg
    omega
  exact ⟨rfl, rfl, rfl, rfl, rfl, rfl, hlt, nofun⟩

end NewTmp

theorem saeGroupAllowed_same (hsel : Selected ec sae tmp)
    (hallowed : (allowed.map (groupListed sae.group)).getD true = true) :
    saeGroupAllowed host sae allowed sae.group = (sae, .success) := by
  unfold saeGroupAllowed
  rw [if_neg (by simp [hallowed]), if_neg (by simp)]
  simp [hsel.tmp_eq, hsel.dh_eq]

/-- `sae_parse_commit_scalar` on the bytes of a scalar. -/
theorem saeParseCommitScalar_written {s : ℤ} (tail : Bytes) (hsel : Selected ec sae tmp) (hs : IsScalar ec.order s)
    (hlt : s < 256 ^ tmp.primeLen) : saeParseCommitScalar sae tmp (Bytes.toBe tmp.primeLen s.toNat ++ tail) =
      ⟨{ sae with peerCommitScalar := some s }, tmp, .success, tail⟩ := by
  have hlen : (Bytes.toBe tmp.primeLen s.toNat).length = tmp.primeLen := Bytes.length_toBe _ _
  have hs' := hs
  unfold IsScalar at hs'
  unfold saeParseCommitScalar
  rw [if_neg (by simp), List.take_left' hlen, List.drop_left' hlen]
  simp only [ofBe_toBe_toNat hs.nonneg hlt]
  rw [if_neg (fun h => hsel.not_accepted h.1), if_neg (by rw [hsel.order_eq]; omega)]

/-- The scalar at the head of a frame for the group that the client has selected. -/
theorem parseApCommitHead_written (host : Host) {s : ℤ} (tail : Bytes) (hsel : Selected ec sae tmp)
    (hallowed : (allowed.map (groupListed sae.group)).getD true = true) (hs : IsScalar ec.order s)
    (hlt : s < 256 ^ tmp.primeLen) :
    parseApCommitHead host sae (Bytes.le16 sae.group ++ (Bytes.toBe tmp.primeLen s.toNat ++ tail)) allowed =
      .ok ({ sae with peerCommitScalar := some s }, tmp, tail) := by
  unfold parseApCommitHead
  rw [if_neg (by simp; omega), Bytes.getLe16_le16_append hsel.group_lt, saeGroupAllowed_same hsel hallowed,
    List.drop_left' (Bytes.length_le16 _)]
  dsimp only
  split
  · next ht =>
    cases hsel.tmp_eq.symm.trans ht
    rw [saeParseCommitScalar_written tail hsel hs hlt]
    rfl
  · next h => exact absurd hsel.tmp_eq (h tmp rfl)

/-! ## From the count on -/

theorem parseCount_written (e : Bytes.ByteOrder) (n : ℤ) (tail : Bytes) :
    parseCount host env (Bytes.ofInt32 e n ++ tail) = Bytes.toInt32 host.byteOrder (Bytes.ofInt32 e n) := by
  rw [parseCount, List.append_assoc, List.take_left' (Bytes.length_ofInt32 e n)]

/-- The count that the client has read is in the instance, whatever comes after it. -/
theorem parseApCommitBody_count {status : Status}
    (h : (parseApCommitBody host env password data h2e sae tmp rest).result = .ok (sae', status)) :
    ∃ tmp', sae'.tmp = some tmp' ∧ tmp'.numPasswords = parseCount host env rest := by
  rcases parseApCommitBody_cases h with ⟨-, u, v, rfl⟩ | ⟨ec, u, v, rest', -, -, -, p, hp, rfl, -⟩
  · exact ⟨_, rfl, rfl⟩
  · have hf : p.tmp.forgetElements = _ := hp ▸ parseElements_forgetElements rest'
    exact ⟨p.tmp, rfl, (congrArg SaeTmp.numPasswords hf :)⟩

/-- The two lists of coefficients that a frame carries, and what the client has read before them. -/
structure Carried (host : Host) (env : Surroundings) (rest : Bytes) (tmp : SaeTmp) (u v : List ℤ) (elements : Bytes) :
    Prop where
  mallocU : env.mallocU = true
  mallocV : env.mallocV = true
  count_pos : 1 ≤ parseCount host env rest
  u_length : u.length = (parseCount host env rest).toNat
  v_length : v.length = (parseCount host env rest).toNat
  u_range : ∀ c ∈ u, 0 ≤ c ∧ c < 256 ^ tmp.primeLen
  v_range : ∀ c ∈ v, 0 ≤ c ∧ c < 256 ^ tmp.primeLen
  eq : rest.drop 4 = coefficientBytes tmp.primeLen u ++ (coefficientBytes tmp.primeLen v ++ elements)

section Body

variable (password data : Bytes) (h2e : Bool) (sae : SaeData) {u v : List ℤ} {elements : Bytes}
  (hcar : Carried host env rest tmp u v elements)
include hcar

theorem Carried.bodyRead (hu : ∀ c ∈ u, IsScalar tmp.order c) (hv : ∀ c ∈ v, IsScalar tmp.order c) :
    BodyRead host env tmp rest u v elements := by
  have hlenU : (coefficientBytes tmp.primeLen u).length = (parseCount host env rest).toNat * tmp.primeLen := by
    rw [length_coefficientBytes, hcar.u_length]
  have hlenV : (coefficientBytes tmp.primeLen v).length = (parseCount host env rest).toNat * tmp.primeLen := by
    rw [length_coefficientBytes, hcar.v_length]
  have hdrop : (rest.drop 4).drop ((parseCount host env rest).toNat * tmp.primeLen) =
      coefficientBytes tmp.primeLen v ++ elements := by
    rw [hcar.eq, List.drop_left' hlenU]
  refine ⟨hcar.mallocU, hcar.mallocV, ?_, ?_, ?_, ?_, hu, hv⟩
  · rw [hcar.eq, List.length_append, List.length_append, hlenU, hlenV]
    omega
  · rw [hcar.eq, ← hcar.u_length, coefficientFields_bytes _ hcar.u_range]
  · rw [hdrop, ← hcar.v_length, coefficientFields_bytes _ hcar.v_range]
  · rw [hdrop, List.drop_left' hlenV]

/-- Both loops accept scalars, and the element is decoded. -/
theorem parseApCommitBody_written (hec : tmp.ec = some ec) (hu : ∀ c ∈ u, IsScalar tmp.order c)
    (hv : ∀ c ∈ v, IsScalar tmp.order c) :
    ∃ p, p = parseElements h2e sae (withDecoded host password ec.toEcParams u v
        (withCoefficients (parseCount host env rest) u v tmp)) elements ∧
      (parseApCommitBody host env password data h2e sae tmp rest).result =
        .ok ({ p.sae with tmp := some p.tmp }, p.status) := by
  have hread := hcar.bodyRead hu hv
  rw [← withElement_eq hread.coefficients hcar.count_pos]
  exact hread.result hec hcar.count_pos password data h2e sae

/-- A coefficient that is not a scalar ends its loop, and the coefficients from it on are lost. -/
theorem parseApCommitBody_not_scalar (h : ¬((∀ c ∈ u, IsScalar tmp.order c) ∧ ∀ c ∈ v, IsScalar tmp.order c)) :
    ∃ (sae' : SaeData) (tmp' : SaeTmp) (u' v' : List ℤ), (parseApCommitBody host env password data h2e sae tmp rest).result =
        .ok (sae', .unspecifiedFailure) ∧ sae'.tmp = some tmp' ∧ tmp'.uCoefficients = .live (u'.map some) ∧
        tmp'.vCoefficients = .live (v'.map some) ∧ (u'.length < u.length ∨ v'.length < v.length) := by
  obtain ⟨hokU, hfailU⟩ := parseCoefficients_bytes data tmp.order (parseCount host env rest).toNat
    (coefficientBytes tmp.primeLen v ++ elements) u [] hcar.u_range
  rw [hcar.u_length, ← hcar.eq, ← hcar.mallocU] at hokU hfailU
  unfold parseApCommitBody
  rw [Run.bind_of_ok (Run.emit_result _)]
  by_cases hu : ∀ c ∈ u, IsScalar tmp.order c
  · obtain ⟨init, rest', hlt, hloopV⟩ := (parseCoefficients_bytes data tmp.order (parseCount host env rest).toNat
      elements v [] hcar.v_range).2 fun hv => h ⟨hu, hv⟩
    rw [hcar.v_length, ← hcar.mallocV] at hloopV
    rw [Run.bind_of_ok (hokU hu)]
    simp only [List.nil_append, ne_eq, not_true_eq_false, if_false]
    rw [Run.bind_of_ok hloopV]
    exact ⟨_, _, u, init, rfl, rfl, rfl, rfl, .inr hlt⟩
  · obtain ⟨init, rest', hlt, hloopU⟩ := hfailU hu
    rw [Run.bind_of_ok hloopU]
    exact ⟨_, _, init, [], rfl, rfl, rfl, rfl, .inl (hcar.u_length ▸ hlt)⟩

end Body

/-! ## What the client recovers -/

/-- The count and the coefficients that a parser left. -/
def recovered (r : ParserRun (SaeData × Status)) : Option (ℤ × Table ℤ × Table ℤ) :=
  r.valueOf.bind fun (sae, _) => sae.tmp.map fun tmp => (tmp.numPasswords, tmp.uCoefficients, tmp.vCoefficients)

/-- The parser got through the count and the coefficients and left these. -/
def Recovers (r : ParserRun (SaeData × Status)) (n : ℤ) (u v : List ℤ) : Prop :=
  recovered r = some (n, .live (u.map some), .live (v.map some))

instance (r : ParserRun (SaeData × Status)) (n : ℤ) (u v : List ℤ) : Decidable (Recovers r n u v) :=
  inferInstanceAs (Decidable (_ = _))

theorem recovered_of_ok {r : ParserRun (SaeData × Status)} {status : Status} (h : r.result = .ok (sae, status))
    (ht : sae.tmp = some tmp) : recovered r = some (tmp.numPasswords, tmp.uCoefficients, tmp.vCoefficients) := by
  simp [recovered, Run.valueOf_of_result h, ht]

theorem exists_of_recovered {r : ParserRun (SaeData × Status)} {x : ℤ × Table ℤ × Table ℤ} (h : recovered r = some x) :
    ∃ sae status tmp, r.result = .ok (sae, status) ∧ sae.tmp = some tmp ∧
      (tmp.numPasswords, tmp.uCoefficients, tmp.vCoefficients) = x := by
  obtain ⟨⟨sae, status⟩, hr, h⟩ := Option.bind_eq_some_iff.1 h
  obtain ⟨tmp, ht, h⟩ := Option.map_eq_some_iff.1 h
  exact ⟨sae, status, tmp, Run.result_of_valueOf hr, ht, h⟩

theorem recovered_congr {r r' : ParserRun (SaeData × Status)} (h : r.result = r'.result) : recovered r = recovered r' := by
  simp only [recovered, Run.valueOf, h]

theorem recovers_body_iff (password data : Bytes) (h2e : Bool) (sae : SaeData) {u v : List ℤ} {elements : Bytes}
    (hcar : Carried host env rest tmp u v elements) (hec : tmp.ec = some ec) :
    Recovers (parseApCommitBody host env password data h2e sae tmp rest) (parseCount host env rest) u v ↔
      (∀ c ∈ u, IsScalar tmp.order c) ∧ ∀ c ∈ v, IsScalar tmp.order c := by
  constructor
  · intro hr
    by_contra h
    obtain ⟨sae', tmp', u', v', hres, ht, hu, hv, hlt⟩ := parseApCommitBody_not_scalar password data h2e
      sae hcar h
    rw [Recovers, recovered_of_ok hres ht, hu, hv] at hr
    simp only [Option.some.injEq, Prod.mk.injEq, Table.live.injEq] at hr
    have hul := congrArg List.length hr.2.1
    have hvl := congrArg List.length hr.2.2
    simp only [List.length_map] at hul hvl
    omega
  · rintro ⟨hu, hv⟩
    obtain ⟨p, hp, hres⟩ := parseApCommitBody_written password data h2e sae hcar hec hu hv
    have hf : p.tmp.forgetElements = _ := hp ▸ parseElements_forgetElements elements
    have hn : p.tmp.numPasswords = parseCount host env rest := (congrArg SaeTmp.numPasswords hf :)
    have hu : p.tmp.uCoefficients = .live (u.map some) := (congrArg SaeTmp.uCoefficients hf :)
    have hv : p.tmp.vCoefficients = .live (v.map some) := (congrArg SaeTmp.vCoefficients hf :)
    rw [Recovers, recovered_of_ok hres rfl, hn, hu, hv]

/-- `crypto_weave` as a list. -/
def wovenCoefficients (ec : EcParams) (hashes ys : List ℤ) : List ℤ :=
  Weaver.Hostap.weave ys (Weaver.Hostap.precompute hashes hashes.length ec.prime) hashes.length ec.prime

theorem length_wovenCoefficients (ec : EcParams) (hashes ys : List ℤ) :
    (wovenCoefficients ec hashes ys).length = hashes.length := by
  simp [wovenCoefficients, Weaver.Hostap.weave, Weaver.weave]

theorem wovenCoefficients_range {ec : EcParams} {hashes ys : List ℤ} {c : ℤ} (h : c ∈ wovenCoefficients ec hashes ys) :
    0 ≤ c ∧ c < ec.prime := Weaver.mem_weave_range cast_pos h

/-- An access point that has woven the values `us` and `vs` over the hashes and is about to write its commit. -/
structure ReadyCommit (ec : EcParams) (scalar : ℤ) (hashes us vs : List ℤ) (sae : SaeData) (tmp : SaeTmp) : Prop where
  tmp_eq : sae.tmp = some tmp
  primeLen_eq : tmp.primeLen = Bytes.numBytes ec.prime
  scalar_eq : tmp.ownCommitScalar = some scalar
  count_eq : tmp.numPasswords = hashes.length
  u_eq : tmp.uCoefficients = cryptoWeave ec hashes us
  v_eq : tmp.vCoefficients = cryptoWeave ec hashes vs

/-- Writing a commit that is ready. -/
theorem ReadyCommit.written {ap : Host} {size : ℕ} {identifier : Option Bytes} {scalar : ℤ} {hashes us vs : List ℤ}
    {frame : Bytes} (h : ReadyCommit ec.toEcParams scalar hashes us vs sae tmp)
    (hw : (saeApWriteCommit ap size identifier sae).result = .ok (sae', some frame)) :
    ApCommitBytes ap.byteOrder tmp.primeLen sae.group scalar tmp.numPasswords (wovenCoefficients ec.toEcParams hashes us)
        (wovenCoefficients ec.toEcParams hashes vs) (commitElements sae tmp none identifier) frame ∧ frame.length ≤ size ∧
      sae' = { sae.noteAkmSuite with
        tmp := some { tmp with uCoefficients := .released, vCoefficients := .released } } := by
  have hlen : ∀ ys, (wovenCoefficients ec.toEcParams hashes ys).length = tmp.numPasswords.toNat := by
    intro ys
    rw [length_wovenCoefficients, h.count_eq, Int.toNat_natCast]
  exact saeApWriteCommit_bytes h.tmp_eq h.scalar_eq h.u_eq h.v_eq (hlen us) (hlen vs) hw

/-- **What a client recovers from the commit of an access point.** A fresh client of the same group recovers the count and
the coefficients exactly if its host reads the count as the access point's host wrote it, and every coefficient is above
one and below the group order. -/
theorem recovers_written_iff {ap client : Host} {size : ℕ} {identifier : Option Bytes} {scalar : ℤ}
    {hashes us vs : List ℤ} {frame : Bytes} (hready : ReadyCommit ec.toEcParams scalar hashes us vs sae tmp)
    (hn : 2 ≤ hashes.length) (hscalar : IsScalar ec.order scalar)
    (hw : (saeApWriteCommit ap size identifier sae).result = .ok (sae', some frame))
    (hsuit : dragonflySuitableGroup sae.group false = true) (hec : client.ecInit sae.group = some ec)
    (hallowed : (allowed.map (groupListed sae.group)).getD true = true)
    (hmem : env.mallocU = true ∧ env.mallocV = true) :
    Recovers (saeApParseCommit client env password (saeSetGroup client {} sae.group).1 frame allowed false)
        hashes.length (wovenCoefficients ec.toEcParams hashes us) (wovenCoefficients ec.toEcParams hashes vs) ↔
      Bytes.toInt32 client.byteOrder (Bytes.ofInt32 ap.byteOrder hashes.length) = hashes.length ∧
        ∀ c ∈ wovenCoefficients ec.toEcParams hashes us ++ wovenCoefficients ec.toEcParams hashes vs,
          IsScalar ec.order c := by
  obtain ⟨hbytes, -⟩ := hready.written hw
  rw [saeSetGroup_ecc hsuit hec]
  have hsel := selected_newTmp hsuit client ec .unset
  set ctmp := newTmp client ec
  set c : SaeData := { group := sae.group, tmp := some ctmp }
  set u := wovenCoefficients ec.toEcParams hashes us
  set v := wovenCoefficients ec.toEcParams hashes vs
  have hlen : tmp.primeLen = ctmp.primeLen := hready.primeLen_eq.trans hsel.primeLen_eq.symm
  obtain ⟨hslt, hult, hvlt, heq⟩ := hbytes
  rw [hready.count_eq, hlen] at heq
  rw [hlen] at hslt hult hvlt
  -- the head is accepted, so that the body decides
  set rest := Bytes.ofInt32 ap.byteOrder hashes.length ++ (coefficientBytes ctmp.primeLen u ++
    (coefficientBytes ctmp.primeLen v ++ commitElements sae tmp none identifier)) with hrest
  have hhead := parseApCommitHead_written client rest hsel hallowed hscalar hslt
  rw [← heq] at hhead
  have hcount : parseCount client env rest = Bytes.toInt32 client.byteOrder (Bytes.ofInt32 ap.byteOrder hashes.length) :=
    parseCount_written _ _ _
  rw [Recovers, recovered_congr (saeApParseCommit_of_head env password false hhead)]
  by_cases horder : Bytes.toInt32 client.byteOrder (Bytes.ofInt32 ap.byteOrder hashes.length) = hashes.length
  · have hcar : Carried client env rest ctmp u v (commitElements sae tmp none identifier) := by
      rw [horder] at hcount
      refine ⟨hmem.1, hmem.2, by omega, ?_, ?_, fun c hc => ⟨(wovenCoefficients_range hc).1, hult c hc⟩,
        fun c hc => ⟨(wovenCoefficients_range hc).1, hvlt c hc⟩, List.drop_left' (Bytes.length_ofInt32 _ _)⟩
      · rw [hcount, length_wovenCoefficients, Int.toNat_natCast]
      · rw [hcount, length_wovenCoefficients, Int.toNat_natCast]
    have hbody := recovers_body_iff password frame false { c with peerCommitScalar := some scalar } hcar hsel.ec_eq
    rw [hcount, horder, hsel.order_eq, Recovers] at hbody
    rw [hbody, List.forall_mem_append]
    exact (and_iff_right horder).symm
  · refine iff_of_false (fun h => horder ?_) fun h => horder h.1
    obtain ⟨s, status, t, hres, ht, heq⟩ := exists_of_recovered h
    obtain ⟨t', ht', hcount'⟩ := parseApCommitBody_count hres
    cases ht.symm.trans ht'
    rw [← hcount, ← hcount']
    exact congrArg Prod.fst heq

theorem recovers_written_small : ∃ sae, (saeApWriteCommit Small.host 64 none (Small.ready [7, 10] [4, 9])).result =
      .ok (sae, some [19, 0, 8, 2, 0, 0, 0, 14, 13, 8, 14]) ∧
    Recovers (Small.parse [19, 0, 8, 2, 0, 0, 0, 14, 13, 8, 14]) ([3, 5] : List ℤ).length
      (wovenCoefficients Small.params [3, 5] [7, 10]) (wovenCoefficients Small.params [3, 5] [4, 9]) := by
  obtain ⟨sae, hw⟩ := Small.exists_of_written
    (show Small.written [7, 10] [4, 9] = some [19, 0, 8, 2, 0, 0, 0, 14, 13, 8, 14] by decide +kernel)
  have hready : ReadyCommit Small.group.toEcParams 8 [3, 5] [7, 10] [4, 9] (Small.ready [7, 10] [4, 9])
      (Small.readyTmp [7, 10] [4, 9]) := ⟨rfl, by decide, rfl, rfl, rfl, rfl⟩
  exact ⟨sae, hw, (recovers_written_iff hready (by decide) (by decide) hw (by decide) rfl rfl ⟨rfl, rfl⟩).2
    (by decide +kernel)⟩

/-- A client of the other byte order. -/
def Small.bigHost : Host := { Small.host with byteOrder := .big }

/-- Equal values give the coefficient zero, at which the client stops; and a client of the other byte order reads the
count 2 as 33554432. -/
theorem written_not_recovered :
    (Small.written [7, 7] [4, 9] = some [19, 0, 8, 2, 0, 0, 0, 7, 0, 8, 14] ∧
      ¬Recovers (Small.parse [19, 0, 8, 2, 0, 0, 0, 7, 0, 8, 14]) 2 (wovenCoefficients Small.params [3, 5] [7, 7])
        (wovenCoefficients Small.params [3, 5] [4, 9])) ∧
    Small.written [7, 10] [4, 9] = some [19, 0, 8, 2, 0, 0, 0, 14, 13, 8, 14] ∧
      ¬Recovers (saeApParseCommit Small.bigHost ⟨[], true, true⟩ (ascii "PASSWORD_0")
          (saeSetGroup Small.bigHost {} 19).1 [19, 0, 8, 2, 0, 0, 0, 14, 13, 8, 14] none false) 2
        (wovenCoefficients Small.params [3, 5] [7, 10]) (wovenCoefficients Small.params [3, 5] [4, 9]) := by
  decide +kernel

end DecoyAuth
