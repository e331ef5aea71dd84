import DecoyAuth.Sae.Client
import DecoyAuth.Sae.Frames

/-!
# The client's own commit

`sae_ap_parse_commit` discards a commit that carries the client's own scalar and element. `Reflects` says so of the bytes
of a frame: the numbers stand in fields at fixed offsets, the two polynomials evaluate and decode to the own element, and
nothing else in the frame makes the parser fail. **`saeApParseCommit_discard_iff`**: the parser discards exactly these.
-/

namespace DecoyAuth

/-! ## The fields of a frame -/

/-- The numbers of a commit and the elements after them. -/
structure CommitFields where
  scalar : ℤ
  count : ℤ
  u : List ℤ
  v : List ℤ
  elements : Bytes

/-- The fields at their offsets, for a prime of `primeLen` bytes. -/
def commitFields (host : Host) (env : Surroundings) (primeLen : ℕ) (data : Bytes) : CommitFields :=
  let body := data.drop (2 + primeLen)
  let count := parseCount host env body
  let len := count.toNat * primeLen
  { scalar := Bytes.ofBe ((data.drop 2).take primeLen)
    count := count
    u := coefficientFields primeLen count.toNat (body.drop 4)
    v := coefficientFields primeLen count.toNat ((body.drop 4).drop len)
    elements := ((body.drop 4).drop len).drop len }

/-- The point that the coefficients carry for a password. -/
def CommitFields.element (f : CommitFields) (host : Host) (password : Bytes) (ec : EcParams) : EcPoint :=
  clonePoint ec (Encode.valuesToPoint ec (decodedValue host password ec f.u f.count)
    (decodedValue host password ec f.v f.count))

/-! ## The elements after the coefficients -/

/-- The bytes after an optional element. -/
def afterOptional (test : Bytes → Bool) (rest : Bytes) : Bytes := if test rest then afterElem rest else rest

def identifierAccepted (h2e : Bool) (sae : SaeData) (tmp : SaeTmp) (rest : Bytes) : Bool :=
  if saeIsPasswordIdElem rest then
    h2e && !sae.noPwId && (tmp.pwId.map fun id => decide (elemContent rest = cString id)).getD true
  else tmp.pwId.isNone

def groupsAccepted (h2e : Bool) (rest : Bytes) : Bool :=
  !h2e || !saeIsRejectedGroupsElem rest || (elemContent rest).length % 2 = 0

/-- The selector of the peer after the elements: the one in the frame, or the one that was there. -/
def selectorAfter (h2e : Bool) (sae : SaeData) (rest : Bytes) : ℕ :=
  if h2e && saeIsAkmSuiteSelectorElem rest then Bytes.ofBe ((elemContent rest).take 4) else sae.peerAkmSuiteSelector

/-- The elements are the expected ones and the selectors agree. -/
def elementsAccepted (h2e : Bool) (sae : SaeData) (tmp : SaeTmp) (rest : Bytes) : Bool :=
  let groups := afterOptional saeIsPasswordIdElem rest
  let selector := if h2e then afterOptional saeIsRejectedGroupsElem groups else groups
  identifierAccepted h2e sae tmp rest && groupsAccepted h2e groups &&
    (sae.ownAkmSuiteSelector = 0 || sae.ownAkmSuiteSelector = selectorAfter h2e sae selector)

section Elements

variable {h2e : Bool} {sae : SaeData} {tmp : SaeTmp} {rest : Bytes}

theorem Parsed.andThen_of_success {p : Parsed} (next : SaeData → SaeTmp → Bytes → Parsed) (h : p.status = .success) :
    p.andThen next = next p.sae p.tmp p.rest := if_pos h

theorem Parsed.andThen_of_failure {p : Parsed} (next : SaeData → SaeTmp → Bytes → Parsed) (h : p.status ≠ .success) :
    p.andThen next = p := if_neg h

theorem finishCommit_discard_iff : (finishCommit sae tmp rest).status = .saeSilentlyDiscard ↔
    (sae.ownAkmSuiteSelector = 0 ∨ sae.ownAkmSuiteSelector = sae.peerAkmSuiteSelector) ∧ isReflection sae tmp := by
  unfold finishCommit
  by_cases h : sae.ownAkmSuiteSelector ≠ 0 ∧ sae.ownAkmSuiteSelector ≠ sae.peerAkmSuiteSelector
  · rw [if_pos h]
    exact iff_of_false nofun fun h' => h'.1.elim h.1 h.2
  · rw [if_neg h]
    have h' : sae.ownAkmSuiteSelector = 0 ∨ sae.ownAkmSuiteSelector = sae.peerAkmSuiteSelector := by tauto
    cases hr : isReflection sae tmp with
    | true => simp [h']
    | false => simp [Status.success, Status.saeSilentlyDiscard]

/-- What the elements change in the temporary data is not what the reflection check looks at. -/
def SameValues (tmp tmp' : SaeTmp) : Prop := ∀ sae, isReflection sae tmp' = isReflection sae tmp

theorem saeParsePasswordIdentifier_accepted (h : identifierAccepted h2e sae tmp rest = true) :
    ∃ tmp', SameValues tmp tmp' ∧ saeParsePasswordIdentifier h2e sae tmp rest =
      ⟨sae, tmp', .success, afterOptional saeIsPasswordIdElem rest⟩ := by
  unfold identifierAccepted at h
  unfold saeParsePasswordIdentifier afterOptional
  by_cases hid : saeIsPasswordIdElem rest
  · simp only [hid, if_true, Bool.and_eq_true] at h
    obtain ⟨⟨rfl, hno⟩, hpw⟩ := h
    refine ⟨{ tmp with parsedPwId := some (elemContent rest) }, fun _ => rfl, ?_⟩
    cases hp : tmp.pwId <;> simp_all
  · simp only [hid, Bool.false_eq_true, if_false, Option.isNone_iff_eq_none] at h
    exact ⟨{ tmp with parsedPwId := none }, fun _ => rfl, by simp [hid, h]⟩

theorem saeParsePasswordIdentifier_rejected (h : identifierAccepted h2e sae tmp rest = false) :
    (saeParsePasswordIdentifier h2e sae tmp rest).status = .unknownPasswordIdentifier := by
  unfold identifierAccepted at h
  unfold saeParsePasswordIdentifier
  by_cases hid : saeIsPasswordIdElem rest
  · rw [if_pos hid] at h
    rw [if_neg (by simp [hid]), if_pos]
    cases hp : tmp.pwId with
    | none => cases h2e <;> simp_all
    | some id => cases h2e <;> cases hno : sae.noPwId <;> simp_all
  · cases hp : tmp.pwId <;> simp_all

/-- The rejected groups, which only a commit that was built from a PT carries. -/
def parseGroups (h2e : Bool) (sae : SaeData) (tmp : SaeTmp) (rest : Bytes) : Parsed :=
  if h2e then saeParseRejectedGroups sae tmp rest else ⟨sae, { tmp with peerRejectedGroups := none }, .success, rest⟩

theorem parseGroups_accepted (sae : SaeData) (tmp : SaeTmp) (h : groupsAccepted h2e rest = true) :
    ∃ tmp', SameValues tmp tmp' ∧ parseGroups h2e sae tmp rest =
      ⟨sae, tmp', .success, if h2e then afterOptional saeIsRejectedGroupsElem rest else rest⟩ := by
  unfold groupsAccepted at h
  unfold parseGroups saeParseRejectedGroups afterOptional
  cases h2e with
  | false => exact ⟨{ tmp with peerRejectedGroups := none }, fun _ => rfl, rfl⟩
  | true =>
    by_cases hg : saeIsRejectedGroupsElem rest
    · have heven : (elemContent rest).length % 2 = 0 := by simpa [hg] using h
      exact ⟨{ tmp with peerRejectedGroups := some (elemContent rest) }, fun _ => rfl, by simp [hg, heven]⟩
    · exact ⟨{ tmp with peerRejectedGroups := none }, fun _ => rfl, by simp [hg]⟩

theorem parseGroups_rejected (h : groupsAccepted h2e rest = false) :
    (parseGroups h2e sae tmp rest).status = .unspecifiedFailure := by
  simp only [groupsAccepted, Bool.or_eq_false_iff, Bool.not_eq_false', decide_eq_false_iff_not] at h
  obtain ⟨⟨rfl, hg⟩, hodd⟩ := h
  simp [parseGroups, saeParseRejectedGroups, hg, show (elemContent rest).length % 2 = 1 by omega]

/-- The AKM suite selector. -/
def parseSelector (h2e : Bool) (sae : SaeData) (tmp : SaeTmp) (rest : Bytes) : Parsed :=
  if h2e then saeParseAkmSuiteSelector sae tmp rest else ⟨sae, tmp, .success, rest⟩

theorem parseSelector_eq (h2e : Bool) (sae : SaeData) (tmp : SaeTmp) (rest : Bytes) : ∃ rest', parseSelector h2e sae tmp rest =
    ⟨{ sae with peerAkmSuiteSelector := selectorAfter h2e sae rest }, tmp, .success, rest'⟩ := by
  unfold parseSelector selectorAfter saeParseAkmSuiteSelector
  cases h2e with
  | false => exact ⟨rest, rfl⟩
  | true => by_cases ha : saeIsAkmSuiteSelectorElem rest <;> simp [ha]

/-- **The elements lead to a discarded commit** exactly if they are accepted and the values are the own ones. -/
theorem parseElements_discard_iff : (parseElements h2e sae tmp rest).status = .saeSilentlyDiscard ↔
    elementsAccepted h2e sae tmp rest ∧ isReflection sae tmp := by
  change ((((saeParsePasswordIdentifier h2e sae tmp rest).andThen (parseGroups h2e)).andThen (parseSelector h2e)).andThen
    finishCommit).status = _ ↔ _
  unfold elementsAccepted
  dsimp only
  cases hid : identifierAccepted h2e sae tmp rest with
  | false =>
    have hs := saeParsePasswordIdentifier_rejected hid
    have hne : (saeParsePasswordIdentifier h2e sae tmp rest).status ≠ .success := hs ▸ nofun
    rw [Parsed.andThen_of_failure (parseGroups h2e) hne, Parsed.andThen_of_failure (parseSelector h2e) hne,
      Parsed.andThen_of_failure _ hne, hs]
    simp [Status.unknownPasswordIdentifier, Status.saeSilentlyDiscard]
  | true =>
    obtain ⟨tmp₁, hv₁, hp⟩ := saeParsePasswordIdentifier_accepted hid
    rw [hp, Parsed.andThen_of_success (parseGroups h2e) rfl]
    generalize afterOptional saeIsPasswordIdElem rest = rest
    cases hg : groupsAccepted h2e rest with
    | false =>
      have hs : (parseGroups h2e sae tmp₁ rest).status = _ := parseGroups_rejected hg
      have hne : (parseGroups h2e sae tmp₁ rest).status ≠ .success := hs ▸ nofun
      rw [Parsed.andThen_of_failure (parseSelector h2e) hne, Parsed.andThen_of_failure _ hne, hs]
      simp [Status.unspecifiedFailure, Status.saeSilentlyDiscard]
    | true =>
      obtain ⟨tmp₂, hv₂, hp⟩ := parseGroups_accepted sae tmp₁ hg
      rw [hp, Parsed.andThen_of_success (parseSelector h2e) rfl]
      generalize (if h2e then afterOptional saeIsRejectedGroupsElem rest else rest) = rest
      obtain ⟨rest', hp⟩ := parseSelector_eq h2e sae tmp₂ rest
      rw [hp, Parsed.andThen_of_success finishCommit rfl, finishCommit_discard_iff, hv₂, hv₁]
      have hsame : isReflection { sae with peerAkmSuiteSelector := selectorAfter h2e sae rest } tmp = isReflection sae tmp := rfl
      rw [hsame]
      simp

end Elements

/-! ## The parser -/

/-- A frame that the parser takes apart and in which it finds the own scalar and the own element. -/
@[mk_iff] structure ReflectedIn (host : Host) (env : Surroundings) (password : Bytes) (allowed : Option (List ℤ)) (h2e : Bool)
    (sae : SaeData) (tmp : SaeTmp) (ec : EcGroup) (data : Bytes) (f : CommitFields) : Prop where
  group : (saeGroupAllowed host sae allowed (Bytes.getLe16 data)).2 = .success
  scalar_complete : 2 + tmp.primeLen ≤ data.length
  complete : 2 * (f.count.toNat * tmp.primeLen) ≤ data.length - (2 + tmp.primeLen + 4)
  count_pos : 1 ≤ f.count
  arrays : env.mallocU = true ∧ env.mallocV = true
  scalar_isScalar : IsScalar tmp.order f.scalar
  u_isScalar : ∀ c ∈ f.u, IsScalar tmp.order c
  v_isScalar : ∀ c ∈ f.v, IsScalar tmp.order c
  elements : elementsAccepted h2e sae tmp f.elements
  own : isReflection { sae with peerCommitScalar := some f.scalar }
    { tmp with peerCommitElementEcc := some (f.element host password ec.toEcParams) }

instance (host : Host) (env : Surroundings) (password : Bytes) (allowed : Option (List ℤ)) (h2e : Bool) (sae : SaeData)
    (tmp : SaeTmp) (ec : EcGroup) (data : Bytes) (f : CommitFields) :
    Decidable (ReflectedIn host env password allowed h2e sae tmp ec data f) :=
  decidable_of_iff' _ (reflectedIn_iff ..)

/-- The frame carries the commit that the client itself has sent. -/
def Reflects (host : Host) (env : Surroundings) (password : Bytes) (allowed : Option (List ℤ)) (h2e : Bool) (sae : SaeData)
    (data : Bytes) : Prop :=
  ∃ tmp ∈ sae.tmp, ∃ ec ∈ tmp.ec,
    ReflectedIn host env password allowed h2e sae tmp ec data (commitFields host env tmp.primeLen data)

instance (host : Host) (env : Surroundings) (password : Bytes) (allowed : Option (List ℤ)) (h2e : Bool) (sae : SaeData)
    (data : Bytes) : Decidable (Reflects host env password allowed h2e sae data) := by
  unfold Reflects
  infer_instance

section Parser

variable {host : Host} {env : Surroundings} {password data rest : Bytes} {allowed : Option (List ℤ)} {h2e : Bool}
  {sae : SaeData} {tmp : SaeTmp}

theorem saeGroupAllowed_committed (host : Host) (allowed : Option (List ℤ)) (hs : sae.state = .committed) (g : ℕ) :
    (saeGroupAllowed host sae allowed g).1 = sae := by
  unfold saeGroupAllowed
  by_cases hg : g = sae.group
  · simp only [hg, hs, ne_eq, not_true_eq_false, and_false, if_false, Bool.not_true, Bool.false_eq_true]
    split
    · rfl
    · split
      · rfl
      · split <;> rfl
  · simp only [hs, ne_eq, hg, not_false_eq_true, and_self, if_true]
    split <;> rfl

theorem saeGroupAllowed_status (host : Host) (sae : SaeData) (allowed : Option (List ℤ)) (g : ℕ) :
    (saeGroupAllowed host sae allowed g).2 ≠ .saeSilentlyDiscard := by
  unfold saeGroupAllowed
  split
  · exact nofun
  · split
    · exact nofun
    · generalize (if g ≠ sae.group then saeSetGroup host sae g else (sae, true)) = r
      dsimp only
      split
      · exact nofun
      · split
        · exact nofun
        · split <;> exact nofun

/-- `sae_parse_commit_scalar` of a client that waits for a commit. -/
theorem saeParseCommitScalar_eq (hs : sae.state = .committed) : saeParseCommitScalar sae tmp rest =
    if tmp.primeLen ≤ rest.length ∧ IsScalar tmp.order (Bytes.ofBe (rest.take tmp.primeLen)) then
      ⟨{ sae with peerCommitScalar := some (Bytes.ofBe (rest.take tmp.primeLen) : ℤ) }, tmp, .success, rest.drop tmp.primeLen⟩
    else ⟨sae, tmp, .unspecifiedFailure, rest⟩ := by
  unfold saeParseCommitScalar IsScalar
  by_cases hlen : tmp.primeLen > rest.length
  · rw [if_pos hlen, if_neg (by omega)]
  · rw [if_neg hlen, if_neg (by simp [hs])]
    split
    · rw [if_neg (by omega)]
    · rw [if_pos (by omega)]

/-- A failure in the head of the parser. -/
theorem parseApCommitHead_failed {r : SaeData × Status} (hs : sae.state = .committed)
    (h : parseApCommitHead host sae data allowed = .error r) : r.1.state = .committed ∧ r.2 ≠ .saeSilentlyDiscard := by
  unfold parseApCommitHead at h
  split at h
  · cases h
    exact ⟨hs, nofun⟩
  · have hg := saeGroupAllowed_committed host allowed hs (Bytes.getLe16 data)
    have hd := saeGroupAllowed_status host sae allowed (Bytes.getLe16 data)
    generalize saeGroupAllowed host sae allowed (Bytes.getLe16 data) = r' at h hg hd
    obtain ⟨s, status⟩ := r'
    obtain rfl : s = sae := hg
    dsimp only at h
    split at h
    · rw [saeParseCommitScalar_eq hs] at h
      split at h
      · cases h
      · cases h
        exact ⟨hs, nofun⟩
    · cases h
      exact ⟨hs, hd⟩

/-- What the head of the parser needs and what it leaves. -/
theorem parseApCommitHead_ok_iff {r : SaeData × SaeTmp × Bytes} (hs : sae.state = .committed) :
    parseApCommitHead host sae data allowed = .ok r ↔
      ∃ tmp ∈ sae.tmp, (saeGroupAllowed host sae allowed (Bytes.getLe16 data)).2 = .success ∧
        2 + tmp.primeLen ≤ data.length ∧ IsScalar tmp.order (Bytes.ofBe ((data.drop 2).take tmp.primeLen)) ∧
        r = ({ sae with peerCommitScalar := some (Bytes.ofBe ((data.drop 2).take tmp.primeLen) : ℤ) }, tmp,
          data.drop (2 + tmp.primeLen)) := by
  unfold parseApCommitHead
  by_cases hlen : data.length < 2
  · rw [if_pos hlen]
    exact iff_of_false nofun fun ⟨_, _, _, h, _⟩ => by omega
  rw [if_neg hlen]
  have hg := saeGroupAllowed_committed host allowed hs (Bytes.getLe16 data)
  generalize saeGroupAllowed host sae allowed (Bytes.getLe16 data) = r' at hg ⊢
  obtain ⟨s, status⟩ := r'
  obtain rfl : s = sae := hg
  dsimp only
  split
  · next tmp ht =>
    have hdrop : tmp.primeLen ≤ (data.drop 2).length ↔ 2 + tmp.primeLen ≤ data.length := by
      rw [List.length_drop]
      omega
    by_cases h : tmp.primeLen ≤ (data.drop 2).length ∧ IsScalar tmp.order (Bytes.ofBe ((data.drop 2).take tmp.primeLen))
    · rw [saeParseCommitScalar_eq hs, if_pos h, List.drop_drop]
      constructor
      · intro h'
        exact ⟨tmp, ht, rfl, hdrop.1 h.1, h.2, (Except.ok.inj h').symm⟩
      · rintro ⟨tmp', ht', -, -, -, rfl⟩
        cases ht.symm.trans ht'
        rfl
    · rw [saeParseCommitScalar_eq hs, if_neg h]
      refine iff_of_false nofun fun ⟨tmp', ht', _, hlen', hscalar, _⟩ => ?_
      cases ht.symm.trans ht'
      exact h ⟨hdrop.2 hlen', hscalar⟩
  · next hmatch => exact iff_of_false nofun fun ⟨tmp, ht, hstatus, _⟩ => hmatch tmp hstatus ht

theorem length_body (data : Bytes) (tmp : SaeTmp) :
    ((data.drop (2 + tmp.primeLen)).drop 4).length = data.length - (2 + tmp.primeLen + 4) := by
  rw [List.length_drop, List.length_drop, Nat.sub_sub]

/-- `sae_ap_parse_commit` discards a commit after its scalar: both loops succeed and the elements are accepted. -/
theorem parseApCommitBody_discard_iff {f : CommitFields} (hf : f = commitFields host env tmp.primeLen data)
    (hrest : rest = data.drop (2 + tmp.primeLen)) :
    (∃ sae', (parseApCommitBody host env password data h2e sae tmp rest).result = .ok (sae', .saeSilentlyDiscard)) ↔
      ∃ ec ∈ tmp.ec, 1 ≤ f.count ∧ BodyRead host env tmp rest f.u f.v f.elements ∧ elementsAccepted h2e sae tmp f.elements ∧
        isReflection sae { tmp with peerCommitElementEcc := some (f.element host password ec.toEcParams) } := by
  subst hf hrest
  constructor
  · rintro ⟨sae', h⟩
    rcases parseApCommitBody_cases h with ⟨hs, -⟩ | ⟨ec, u, v, rest', hec, hpos, hread, p, rfl, -, hs⟩
    · cases hs
    · obtain ⟨rfl, rfl, rfl⟩ := And.intro hread.u_eq (And.intro hread.v_eq hread.rest_eq)
      obtain ⟨helements, hown⟩ := parseElements_discard_iff.1 hs.symm
      exact ⟨ec, hec, hpos, hread, helements, hown⟩
  · rintro ⟨ec, hec, hpos, hread, helements, hown⟩
    obtain ⟨p, rfl, hr⟩ := hread.result hec hpos password data h2e sae
    exact ⟨_, hr.trans (congrArg Except.ok (congrArg (Prod.mk _) (parseElements_discard_iff.2 ⟨helements, hown⟩)))⟩

theorem parseApCommitBody_state {sae' : SaeData} {status : Status}
    (h : (parseApCommitBody host env password data h2e sae tmp rest).result = .ok (sae', status)) : sae'.state = sae.state := by
  rcases parseApCommitBody_cases h with ⟨-, u, v, rfl⟩ | ⟨ec, u, v, rest', -, -, -, p, rfl, rfl, -⟩
  · rfl
  · exact (congrArg SaeData.state (parseElements_from h2e rest').sae :)

/-- The parser leaves a client that waits for a commit in its state. -/
theorem saeApParseCommit_state {sae' : SaeData} {status : Status} (hs : sae.state = .committed)
    (h : (saeApParseCommit host env password sae data allowed h2e).result = .ok (sae', status)) :
    sae'.state = .committed := by
  unfold saeApParseCommit at h
  obtain ⟨_, -, h⟩ := Run.bind_result_ok.1 h
  cases hhead : parseApCommitHead host sae data allowed with
  | error r =>
    rw [hhead] at h
    cases h
    exact (parseApCommitHead_failed hs hhead).1
  | ok r =>
    obtain ⟨tmp, -, -, -, -, rfl⟩ := (parseApCommitHead_ok_iff hs).1 hhead
    simp only [hhead] at h
    exact (parseApCommitBody_state h).trans hs

/-- **The parser discards exactly the client's own commit**. -/
theorem saeApParseCommit_discard_iff (hs : sae.state = .committed) :
    (∃ sae', (saeApParseCommit host env password sae data allowed h2e).result = .ok (sae', .saeSilentlyDiscard)) ↔
      Reflects host env password allowed h2e sae data := by
  constructor
  · rintro ⟨sae', h⟩
    unfold saeApParseCommit at h
    obtain ⟨_, -, h⟩ := Run.bind_result_ok.1 h
    cases hhead : parseApCommitHead host sae data allowed with
    | error r =>
      rw [hhead] at h
      cases h
      exact absurd rfl (parseApCommitHead_failed hs hhead).2
    | ok r =>
      obtain ⟨tmp, ht, hgroup, hlen, hscalar, rfl⟩ := (parseApCommitHead_ok_iff hs).1 hhead
      simp only [hhead] at h
      obtain ⟨ec, hec, hpos, hread, helements, hown⟩ := (parseApCommitBody_discard_iff rfl rfl).1 ⟨sae', h⟩
      exact ⟨tmp, ht, ec, hec, hgroup, hlen, (length_body data tmp).symm ▸ hread.length_le, hpos,
        ⟨hread.mallocU, hread.mallocV⟩, hscalar, hread.u_isScalar, hread.v_isScalar, helements, hown⟩
  · rintro ⟨tmp, ht, ec, hec, hgroup, hlen, hsize, hpos, ⟨hmallocU, hmallocV⟩, hscalar, hu, hv, helements, hown⟩
    rw [saeApParseCommit_of_head env password h2e ((parseApCommitHead_ok_iff hs).2 ⟨tmp, ht, hgroup, hlen, hscalar, rfl⟩)]
    exact (parseApCommitBody_discard_iff rfl rfl).2 ⟨ec, hec, hpos,
      ⟨hmallocU, hmallocV, length_body data tmp ▸ hsize, rfl, rfl, rfl, hu, hv⟩, helements, hown⟩

end Parser

end DecoyAuth
