import DecoyAuth.Handshake.Commits

/-!
# The client decodes its element

The client's parser succeeds on the commit of the access point only if it reads the count as it was written
(`Runs.count_eq`), and then it evaluates both polynomials at the hash of its password. The values there are those that
encode the element of its index, so that it decodes this element (`Runs.clientReceives`).
-/

namespace DecoyAuth

variable {s : Setting} {t : Trace} {pwe element : EcPoint} {out out' : Scalars} {tmp : SaeTmp} {values : List (ℤ × ℤ)}

/-- The coefficients of the two polynomials that the access point sends. -/
def Setting.uWoven (s : Setting) (values : List (ℤ × ℤ)) : List ℤ :=
  wovenCoefficients s.ec.toEcParams (hashValues s.ap s.ap.passwords.length) (values.map Prod.fst)

def Setting.vWoven (s : Setting) (values : List (ℤ × ℤ)) : List ℤ :=
  wovenCoefficients s.ec.toEcParams (hashValues s.ap s.ap.passwords.length) (values.map Prod.snd)

/-- The bytes of the commit after the scalar. -/
def Setting.afterScalar (s : Setting) (values : List (ℤ × ℤ)) : Bytes :=
  Bytes.ofInt32 s.ap.byteOrder s.ap.passwords.length ++ (coefficientBytes (Bytes.numBytes s.ec.prime) (s.uWoven values) ++
    (coefficientBytes (Bytes.numBytes s.ec.prime) (s.vWoven values) ++ []))

/-- The client's data after it has parsed the commit of the access point, with the element that it decoded. -/
def Setting.received (s : Setting) (pwe : EcPoint) (out out' : Scalars) (values : List (ℤ × ℤ)) (element : EcPoint) :
    SaeData where
  group := s.group
  akmp := s.clientAkmp
  peerCommitScalar := some out'.scalar
  tmp := some { s.clientTmp pwe out with
    numPasswords := s.ap.passwords.length
    uCoefficients := .live ((s.uWoven values).map some)
    vCoefficients := .live ((s.vWoven values).map some)
    peerCommitElementEcc := some element }

theorem length_afterScalar (s : Setting) (values : List (ℤ × ℤ)) :
    (s.afterScalar values).length = 4 + 2 * (s.ap.passwords.length * Bytes.numBytes s.ec.prime) := by
  simp only [Setting.afterScalar, List.length_append, Bytes.length_ofInt32, length_coefficientBytes, Setting.uWoven,
    Setting.vWoven, length_wovenCoefficients, length_hashValues, List.length_nil]
  omega

section Parse

variable (h : Runs s t) (hc : ClientCommit s t pwe out) (ha : ApCommit s t element tmp out' values)
include h hc ha

omit h hc in
/-- The commit of the access point. -/
theorem ApCommit.frame_eq : out'.scalar < 256 ^ Bytes.numBytes s.ec.prime ∧ t.apCommit = Bytes.le16 s.group ++
    (Bytes.toBe (Bytes.numBytes s.ec.prime) out'.scalar.toNat ++ s.afterScalar values) := by
  have hlen : tmp.primeLen = Bytes.numBytes s.ec.prime := (congrArg SaeTmp.primeLen ha.prepared.frame :)
  have hn : tmp.numPasswords = s.ap.passwords.length := (congrArg SaeTmp.numPasswords ha.prepared.frame :)
  obtain ⟨hlt, -, -, heq⟩ := ha.bytes
  rw [hlen] at hlt heq
  rw [hn] at heq
  exact ⟨hlt, heq⟩

/-- The client gets to the count. -/
theorem Runs.clientBody : (parseApCommitBody s.client s.env s.password t.apCommit false
    { t.clientSent with peerCommitScalar := some out'.scalar } (s.clientTmp pwe out) (s.afterScalar values)).result =
      .ok (t.clientReceived, .success) := by
  have hnew := selected_newTmp s.suitable s.client s.ec s.clientAkmp
  have hsel : Selected s.ec t.clientSent (s.clientTmp pwe out) := by
    rw [hc.sent]
    exact ⟨rfl, rfl, rfl, rfl, rfl, rfl, hnew.group_lt, nofun⟩
  have hgroup : t.clientSent.group = s.group := by rw [hc.sent]
  obtain ⟨hlt, hframe⟩ := ha.frame_eq
  have hframe : t.apCommit = Bytes.le16 t.clientSent.group ++
      (Bytes.toBe (s.clientTmp pwe out).primeLen out'.scalar.toNat ++ s.afterScalar values) := by
    rw [hgroup]
    exact hframe
  have hhead := parseApCommitHead_written s.client (s.afterScalar values) hsel (by rw [hgroup]; exact s.client_allows)
    ha.prepared.drawn.isScalar hlt
  rw [← hframe] at hhead
  rw [← saeApParseCommit_of_head s.env s.password false hhead]
  exact h.clientParses

/-- The client reads the count that the access point wrote: no other small count fits the length of the frame. -/
theorem Runs.count_eq : parseCount s.client s.env (s.afterScalar values) = s.ap.passwords.length := by
  obtain ⟨ec, u, v, rest, hbody⟩ := parseApCommitBody_success (h.clientBody hc ha)
  have hpos := hbody.count_pos
  have hread := hbody.length_eq
  have hprime : 0 < Bytes.numBytes s.ec.prime := Bytes.numBytes_pos s.ec.prime_prime.pos
  have hn := s.ap.two_le_passwords
  -- the frame holds the coefficients, and it fits the buffer
  have hfit : s.ap.passwords.length * Bytes.numBytes s.ec.prime < 2 ^ 16 := by
    have hlen := ha.length_le
    rw [ha.frame_eq.2, List.length_append, List.length_append, length_afterScalar] at hlen
    have hmax : saeCommitMaxLen = 1793 := rfl
    omega
  rw [List.length_drop, length_afterScalar, show (s.clientTmp pwe out).primeLen = Bytes.numBytes s.ec.prime from rfl]
    at hread
  have hle : (parseCount s.client s.env (s.afterScalar values)).toNat ≤ s.ap.passwords.length :=
    Nat.le_of_mul_le_mul_right (by omega) hprime
  have hsmall : s.ap.passwords.length < 2 ^ 16 := (Nat.le_mul_of_pos_right _ hprime).trans_lt hfit
  have hcount : parseCount s.client s.env (s.afterScalar values) =
      Bytes.toInt32 s.client.byteOrder (Bytes.ofInt32 s.ap.byteOrder s.ap.passwords.length) := parseCount_written _ _ _
  rw [hcount] at hpos hle ⊢
  exact Bytes.toInt32_ofInt32_of_lt (by omega) hsmall hpos (by omega)

/-- The client's data after it has parsed the commit of the access point, as the parser leaves it. -/
theorem Runs.clientReceived_eq : ∃ P, P = decodedPoint s.client s.password s.ec.toEcParams (s.uWoven values)
      (s.vWoven values) s.ap.passwords.length ∧
    t.clientReceived = s.received pwe out out' values (s.ec.ofPoint P) := by
  have hres := h.clientBody hc ha
  have hcount := h.count_eq hc ha
  obtain ⟨ec, u, v, rest, hbody⟩ := parseApCommitBody_success hres
  have hlen : ∀ ys, (wovenCoefficients s.ec.toEcParams (hashValues s.ap s.ap.passwords.length) ys).length =
      (parseCount s.client s.env (s.afterScalar values)).toNat := by
    intro ys
    rw [length_wovenCoefficients, length_hashValues, hcount, Int.toNat_natCast]
  have hrange : ∀ {ys c}, c ∈ wovenCoefficients s.ec.toEcParams (hashValues s.ap s.ap.passwords.length) ys →
      0 ≤ c ∧ c < 256 ^ (s.clientTmp pwe out).primeLen := fun hmem =>
    ⟨(wovenCoefficients_range hmem).1, lt_pow_numBytes_of_lt (wovenCoefficients_range hmem).2⟩
  have hcar : Carried s.client s.env (s.afterScalar values) (s.clientTmp pwe out) (s.uWoven values) (s.vWoven values) [] :=
    ⟨hbody.mallocU, hbody.mallocV, hbody.count_pos, hlen _, hlen _, fun _ => hrange, fun _ => hrange,
      List.drop_left' (Bytes.length_ofInt32 _ _)⟩
  by_cases hs : (∀ c ∈ s.uWoven values, IsScalar (s.clientTmp pwe out).order c) ∧
      ∀ c ∈ s.vWoven values, IsScalar (s.clientTmp pwe out).order c
  · have hec : (s.clientTmp pwe out).ec = some s.ec := rfl
    obtain ⟨p, hp, hwritten⟩ := parseApCommitBody_written s.password t.apCommit false
      { t.clientSent with peerCommitScalar := some out'.scalar } hcar hec hs.1 hs.2
    rw [hcount] at hp
    rw [parseElements_nil _ _ rfl (by rw [hc.sent]) (by rw [hc.sent])] at hp
    have hreceived : t.clientReceived = { p.sae with tmp := some p.tmp } :=
      congrArg Prod.fst (Except.ok.inj (hres.symm.trans hwritten))
    refine ⟨_, rfl, ?_⟩
    rw [hreceived, hp, hc.sent]
    rfl
  · obtain ⟨_, _, _, _, hfail, -⟩ := parseApCommitBody_not_scalar s.password t.apCommit false
      { t.clientSent with peerCommitScalar := some out'.scalar } hcar hs
    have := congrArg Prod.snd (Except.ok.inj (hres.symm.trans hfail))
    cases this

end Parse

/-! ## The element -/

section Element

variable (hdist : Weaver.DistinctMod s.ec.prime (hashValues s.ap s.ap.passwords.length))
include hdist

/-- Evaluating a polynomial at the hash of the client's password gives the value of its index. -/
theorem decodedValue_woven (ys : List ℤ) (hys : ∀ y ∈ ys, 0 ≤ y ∧ y < (s.ec.prime : ℤ)) :
    decodedValue s.client s.password s.ec.toEcParams
      (wovenCoefficients s.ec.toEcParams (hashValues s.ap s.ap.passwords.length) ys) s.ap.passwords.length =
        ys.getD s.index 0 := by
  have hx : (hashValues s.ap s.ap.passwords.length).getD s.index 0 = passwordHash s.client.hash s.password := by
    rw [s.hash_eq]
    simp [hashValues, List.getElem?_range s.index_lt, Setting.password]
  have hnonneg : ∀ x ∈ hashValues s.ap s.ap.passwords.length, 0 ≤ x := by
    intro x hx
    obtain ⟨i, -, rfl⟩ := List.mem_map.1 hx
    exact passwordHash_nonneg _ _
  have hi : s.index < (hashValues s.ap s.ap.passwords.length).length := by
    rw [length_hashValues]
    exact s.index_lt
  have hround := Weaver.hostap_round_trip hnonneg (by rw [length_hashValues]; exact s.ap.two_le_passwords) hdist hys hi
  rw [hx, length_hashValues] at hround
  rw [decodedValue, wovenCoefficients, length_hashValues, Int.toNat_natCast, hround]

/-- **The client decodes the element of its index.** -/
theorem Runs.clientReceives (h : Runs s t) (hc : ClientCommit s t pwe out) (ha : ApCommit s t element tmp out' values)
    (hreg : Encode.EveryPointRegular s.ec.toEcParams) : ∃ pwe', EntryPrepared s.ap s.ec s.group s.apAddr s.clientAddr
      s.apDraws out'.mask tmp s.index pwe' ∧
    t.clientReceived = s.received pwe out out' values (commitElementEcc s.ec.toEcParams pwe' out'.mask) := by
  have hi : s.index < values.length := by
    rw [ha.prepared.values_length]
    exact s.index_lt
  -- every pair of values is in range, since it encodes a point
  have hrange : ∀ y ∈ values, (0 ≤ y.1 ∧ y.1 < (s.ec.prime : ℤ)) ∧ 0 ≤ y.2 ∧ y.2 < (s.ec.prime : ℤ) := by
    intro y hy
    obtain ⟨j, hj, rfl⟩ := List.getElem_of_mem hy
    obtain ⟨_, -, hencoded⟩ := ha.prepared.encoded j hj
    obtain ⟨hu, hv, -⟩ := Encode.pointToValues_some hreg hencoded
    exact ⟨hu, hv⟩
  obtain ⟨pwe', hprepared, hencoded⟩ := ha.prepared.encoded s.index hi
  obtain ⟨-, -, hsum⟩ := Encode.pointToValues_some hreg hencoded
  obtain ⟨P, hP, hreceived⟩ := h.clientReceived_eq hc ha
  have hu := decodedValue_woven hdist (values.map Prod.fst) (by simpa using fun x y hxy => (hrange (x, y) hxy).1)
  have hv := decodedValue_woven hdist (values.map Prod.snd) (by simpa using fun y x hxy => (hrange (x, y) hxy).2)
  have hPe : P = s.ec.toPoint (commitElementEcc s.ec.toEcParams pwe' out'.mask) := by
    rw [hP, decodedPoint, Setting.uWoven, Setting.vWoven, hu, hv, ← hsum]
    simp [hi]
  refine ⟨pwe', hprepared, ?_⟩
  rw [hreceived, hPe, valid_commitElementEcc]

end Element

end DecoyAuth
