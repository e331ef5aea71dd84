import DecoyAuth.Sae.Buffer

/-!
# Scalars are transferred

On the coefficients that the parser accepts, `sae_ap_parse_commit` is the inverse of `sae_ap_write_commit`: a commit whose
scalar and coefficients are scalars has the length of its fields, and a client of the same byte order gets the scalar, the
count and both lists back, whatever follows the commit (`commit_transferred`).
-/

namespace DecoyAuth

variable {host : Host} {env : Surroundings} {password rest : Bytes} {sae sae' : SaeData} {tmp : SaeTmp} {ec : EcGroup}
  {scalar : ℤ} {u v : List ℤ}

/-- An access point that is about to write a commit with the given scalar and coefficients, without elements after them. -/
structure Sends (sae : SaeData) (tmp : SaeTmp) (scalar : ℤ) (u v : List ℤ) : Prop where
  tmp_eq : sae.tmp = some tmp
  scalar_eq : tmp.ownCommitScalar = some scalar
  count_eq : tmp.numPasswords = u.length
  length_eq : v.length = u.length
  u_eq : tmp.uCoefficients = .live (u.map some)
  v_eq : tmp.vCoefficients = .live (v.map some)
  h2e : sae.h2e = false
  akmp : sae.akmp.isSaeExtKey = false

/-- **`sae_ap_write_commit` on a buffer that is large enough.** -/
theorem Sends.written {size : ℕ} (h : Sends sae tmp scalar u v) (host : Host) (hscalar : scalar < 256 ^ tmp.primeLen)
    (hu : ∀ c ∈ u, c < 256 ^ tmp.primeLen) (hv : ∀ c ∈ v, c < 256 ^ tmp.primeLen)
    (hsize : 2 + tmp.primeLen + 4 + 2 * (u.length * tmp.primeLen) ≤ size) :
    (saeApWriteCommit host size none sae).result = .ok
      ({ sae.noteAkmSuite with tmp := some { tmp with uCoefficients := .released, vCoefficients := .released } },
        some (commitBytes host.byteOrder tmp.primeLen sae.group scalar u v)) := by
  have hfilled : Filled sae tmp scalar u v :=
    ⟨h.tmp_eq, h.scalar_eq, h.count_eq, h.length_eq, h.u_eq, h.v_eq, hscalar, hu, hv, h.h2e⟩
  have helements : commitElements sae tmp none none = [] := by simp [commitElements, h.h2e, h.akmp]
  rw [hfilled.write_result, helements, List.append_nil, if_pos (by rwa [length_commitBytes _ _ _ _ h.length_eq])]

/-! ## Parsing -/

/-- What `sae_ap_parse_commit` returns when it starts on the elements of the commit at the cursor `rest`. -/
def fromElements (sae : SaeData) (tmp : SaeTmp) (rest : Bytes) : SaeData × Status :=
  let p := parseElements false sae tmp rest
  ({ p.sae with tmp := some p.tmp }, p.status)

/-- The scalar, the count and the coefficients that a client has received. -/
structure Received (sae : SaeData) (scalar : ℤ) (u v : List ℤ) : Prop where
  scalar_eq : sae.peerCommitScalar = some scalar
  tmp_eq : ∃ tmp, sae.tmp = some tmp ∧ tmp.numPasswords = u.length ∧ tmp.uCoefficients = .live (u.map some) ∧
    tmp.vCoefficients = .live (v.map some)

/-- The elements do not change what was received before them. -/
theorem received_fromElements (hscalar : sae.peerCommitScalar = some scalar) (hn : tmp.numPasswords = u.length)
    (hu : tmp.uCoefficients = .live (u.map some)) (hv : tmp.vCoefficients = .live (v.map some)) (rest : Bytes) :
    Received (fromElements sae tmp rest).1 scalar u v := by
  have hs : (parseElements false sae tmp rest).sae.peerCommitScalar = sae.peerCommitScalar :=
    parseElements_peerCommitScalar rest
  have hf : (parseElements false sae tmp rest).tmp.forgetElements = tmp.forgetElements := parseElements_forgetElements rest
  unfold fromElements
  generalize parseElements false sae tmp rest = p at hs hf ⊢
  refine ⟨hs.trans hscalar, p.tmp, rfl, ?_, ?_, ?_⟩
  · exact (congrArg SaeTmp.numPasswords hf :).trans hn
  · exact (congrArg SaeTmp.uCoefficients hf :).trans hu
  · exact (congrArg SaeTmp.vCoefficients hf :).trans hv

/-- **A commit of scalars is transferred.** The access point writes a frame of the length of its fields, and a client of
the group and of the same byte order that parses it, alone or with anything after it, receives the scalar and the
coefficients and starts on the elements at the end of the frame. -/
theorem commit_transferred {ap client : Host} {size : ℕ} {csae : SaeData} {ctmp : SaeTmp} {allowed : Option (List ℤ)}
    (hsends : Sends sae tmp scalar u v) (hlen : tmp.primeLen = Bytes.numBytes ec.prime)
    (horder : (ec.order : ℤ) < 256 ^ tmp.primeLen) (hn : 1 ≤ u.length) (hint : u.length < 2 ^ 31)
    (hscalar : IsScalar ec.order scalar) (hu : ∀ c ∈ u, IsScalar ec.order c) (hv : ∀ c ∈ v, IsScalar ec.order c)
    (hsize : 2 + tmp.primeLen + 4 + 2 * (u.length * tmp.primeLen) ≤ size) (hbytes : client.byteOrder = ap.byteOrder)
    (hsel : Selected ec csae ctmp) (hgroup : csae.group = sae.group)
    (hallowed : (allowed.map (groupListed csae.group)).getD true = true)
    (hmem : env.mallocU = true ∧ env.mallocV = true) :
    ∃ sae' frame, (saeApWriteCommit ap size none sae).result = .ok (sae', some frame) ∧
      frame.length = 2 + tmp.primeLen + 4 + 2 * (u.length * tmp.primeLen) ∧
      ∀ tail, ∃ csae' status element, (saeApParseCommit client env password csae (frame ++ tail) allowed false).result =
          .ok (csae', status) ∧ Received csae' scalar u v ∧
        (csae', status) = fromElements { csae with peerCommitScalar := some scalar }
          { withCoefficients u.length u v ctmp with peerCommitElementEcc := some element } tail := by
  have hrange : ∀ c, IsScalar ec.order c → c < 256 ^ tmp.primeLen := fun c hc => hc.2.trans horder
  refine ⟨_, _, hsends.written ap (hrange _ hscalar) (fun c hc => hrange c (hu c hc)) (fun c hc => hrange c (hv c hc)) hsize,
    length_commitBytes _ _ _ _ hsends.length_eq, fun tail => ?_⟩
  have hplen : ctmp.primeLen = tmp.primeLen := hsel.primeLen_eq.trans hlen.symm
  set rest := Bytes.ofInt32 ap.byteOrder u.length ++ (coefficientBytes tmp.primeLen u ++
    (coefficientBytes tmp.primeLen v ++ tail)) with hrest
  have hframe : commitBytes ap.byteOrder tmp.primeLen sae.group scalar u v ++ tail =
      Bytes.le16 csae.group ++ (Bytes.toBe ctmp.primeLen scalar.toNat ++ rest) := by
    simp only [commitBytes, hgroup, hplen, hrest, List.append_assoc]
  have hhead := parseApCommitHead_written client rest hsel hallowed hscalar (by rw [hplen]; exact hrange _ hscalar)
  have hcount : parseCount client env rest = u.length := by
    rw [hrest, parseCount_written, hbytes, Bytes.toInt32_ofInt32 _ (by omega) (by omega)]
  have hcar : Carried client env rest ctmp u v tail := by
    refine ⟨hmem.1, hmem.2, by omega, by rw [hcount]; rfl, by rw [hcount, hsends.length_eq]; rfl, fun c hc => ?_,
      fun c hc => ?_, ?_⟩
    · rw [hplen]
      exact ⟨(hu c hc).nonneg, hrange c (hu c hc)⟩
    · rw [hplen]
      exact ⟨(hv c hc).nonneg, hrange c (hv c hc)⟩
    · rw [hplen]
      exact List.drop_left' (Bytes.length_ofInt32 _ _)
  obtain ⟨p, hp, hbody⟩ := parseApCommitBody_written password (commitBytes ap.byteOrder tmp.primeLen sae.group scalar u v ++ tail)
    false { csae with peerCommitScalar := some scalar } hcar hsel.ec_eq (by rwa [hsel.order_eq]) (by rwa [hsel.order_eq])
  rw [hcount] at hp
  rw [← hframe] at hhead
  rw [saeApParseCommit_of_head env password false hhead, hbody]
  refine ⟨_, _, _, rfl, ?_, by rw [hp]; rfl⟩
  rw [hp]
  exact received_fromElements rfl rfl rfl rfl tail

/-- An access point on the small host with the scalar 8 and two coefficients for each polynomial. -/
def Small.sending : SaeTmp where
  numPasswords := 2
  primeLen := 1
  ownCommitScalar := some 8
  uCoefficients := .live [some 9, some 13]
  vCoefficients := .live [some 22, some 3]

theorem commit_transferred_small : ∃ sae' frame,
    (saeApWriteCommit Small.host 64 none { group := 19, tmp := some Small.sending }).result = .ok (sae', some frame) ∧
      frame.length = 11 ∧
      ∀ tail, ∃ csae' status element, (saeApParseCommit Small.host ⟨[], true, true⟩ (ascii "PASSWORD_0") Small.client
          (frame ++ tail) none false).result = .ok (csae', status) ∧ Received csae' 8 [9, 13] [22, 3] ∧
        (csae', status) = fromElements { Small.client with peerCommitScalar := some 8 }
          { withCoefficients 2 [9, 13] [22, 3] (newTmp Small.host Small.group) with
            peerCommitElementEcc := some element } tail := by
  have hsends : Sends { group := 19, tmp := some Small.sending } Small.sending 8 [9, 13] [22, 3] :=
    ⟨rfl, rfl, rfl, rfl, rfl, rfl, rfl, rfl⟩
  have hsel : Selected Small.group Small.client (newTmp Small.host Small.group) :=
    selected_newTmp rfl Small.host Small.group .unset
  exact commit_transferred hsends (by decide) (by decide) (by decide) (by decide) (by decide) (by decide) (by decide)
    (by decide) rfl hsel rfl rfl ⟨rfl, rfl⟩

end DecoyAuth
