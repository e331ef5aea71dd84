import DecoyAuth.Sae.Elements

/-!
# Ordinary commits

What `sae_parse_commit` makes of a commit that `sae_write_commit` wrote, for ECC and FFC groups, hunting and pecking and
hash-to-element. The receiver recovers every field of the commit (**`commit_round_trip`**). Of the AKM suite selector it
sees nothing where the commit also has a token, because `sae_parse_token_container` leaves the cursor in front of it.
-/

namespace DecoyAuth

variable {host : Host} {sae sae' peer : SaeData} {tmp peerTmp : SaeTmp} {allowed : Option (List ℤ)}
  {token identifier : Option Bytes}

/-! ## Groups -/

/-- A group that `sae_set_group` finds in the crypto library. -/
inductive SaeGroup
  | ecc (ec : EcGroup)
  | ffc (dh : DhGroup)

namespace SaeGroup

def ec : SaeGroup → Option EcGroup
  | .ecc ec => some ec
  | .ffc _ => none

def dh : SaeGroup → Option DhGroup
  | .ecc _ => none
  | .ffc dh => some dh

def prime : SaeGroup → ℕ
  | .ecc ec => ec.prime
  | .ffc dh => Bytes.ofBe dh.prime

def order : SaeGroup → ℕ
  | .ecc ec => ec.order
  | .ffc dh => Bytes.ofBe dh.order

def primeLen : SaeGroup → ℕ
  | .ecc ec => Bytes.numBytes ec.prime
  | .ffc dh => dh.prime.length

def orderLen : SaeGroup → ℕ
  | .ecc ec => Bytes.numBytes ec.order
  | .ffc dh => dh.order.length

end SaeGroup

variable {G : SaeGroup}

/-- The temporary data is for the group. -/
structure InGroup (G : SaeGroup) (tmp : SaeTmp) : Prop where
  ec_eq : tmp.ec = G.ec
  dh_eq : tmp.dh = G.dh
  prime_eq : tmp.prime = G.prime
  order_eq : tmp.order = G.order
  primeLen_eq : tmp.primeLen = G.primeLen
  orderLen_eq : tmp.orderLen = G.orderLen

/-- An element that the parser of the group accepts. -/
def SaeTmp.HasElement (tmp : SaeTmp) : SaeGroup → Prop
  | .ecc ec => ∃ x y, tmp.ownCommitElementEcc = some (.affine x y) ∧ ec.Valid (.affine x y)
  | .ffc dh => ∃ e : ℤ, tmp.ownCommitElementFfc = some e ∧ 1 < e ∧ e < Bytes.ofBe dh.prime - 1 ∧
      bnModExp e (Bytes.ofBe dh.order) (Bytes.ofBe dh.prime) = 1

/-- An instance with a commit to send. -/
structure Prepared (G : SaeGroup) (sae : SaeData) (tmp : SaeTmp) : Prop where
  tmp_eq : sae.tmp = some tmp
  inGroup : InGroup G tmp
  scalar : ∃ s, tmp.ownCommitScalar = some s ∧ IsScalar G.order s
  element : tmp.HasElement G

/-- An instance that takes a commit for the group. -/
structure Awaits (G : SaeGroup) (allowed : Option (List ℤ)) (group : ℕ) (peer : SaeData) (peerTmp : SaeTmp) : Prop where
  tmp_eq : peer.tmp = some peerTmp
  inGroup : InGroup G peerTmp
  group_eq : peer.group = group
  group_lt : group < 2 ^ 16
  not_accepted : peer.state ≠ .accepted
  listed : (allowed.map (groupListed group)).getD true = true
  ffc_listed : G.dh.isSome → allowed.isSome

/-- The elements of the commit can be told apart: with hash-to-element their lengths fit, and without it there are none, and
a token is as long as the parser wants it. -/
def Readable (sae : SaeData) (tmp : SaeTmp) (token identifier : Option Bytes) : Prop :=
  if sae.h2e then Sized tmp token identifier
  else identifier = none ∧ sae.akmp.isSaeExtKey = false ∧ ∀ t, token = some t → 32 ≤ t.length

/-! ## The fields of a commit -/

/-- What a commit says. -/
structure OrdinaryCommit where
  group : ℕ
  scalar : Option ℤ
  elementEcc : Option EcPoint
  elementFfc : Option ℤ
  identifier : Option Bytes
  rejectedGroups : Option Bytes
  token : Option Bytes
deriving DecidableEq

/-- What `sae_write_commit` writes. -/
def SaeData.ordinaryCommit (sae : SaeData) (tmp : SaeTmp) (token identifier : Option Bytes) : OrdinaryCommit where
  group := sae.group
  scalar := tmp.ownCommitScalar
  elementEcc := tmp.ec.bind fun _ => tmp.ownCommitElementEcc
  elementFfc := tmp.dh.bind fun _ => tmp.ownCommitElementFfc
  identifier := identifier
  rejectedGroups := if sae.h2e then tmp.ownRejectedGroups else none
  token := token

/-- What `sae_parse_commit` has read. -/
def CommitParse.ordinaryCommit (p : CommitParse) (tmp : SaeTmp) : OrdinaryCommit where
  group := p.sae.group
  scalar := p.sae.peerCommitScalar
  elementEcc := tmp.ec.bind fun _ => tmp.peerCommitElementEcc
  elementFfc := tmp.dh.bind fun _ => tmp.peerCommitElementFfc
  identifier := tmp.parsedPwId
  rejectedGroups := tmp.peerRejectedGroups
  token := p.token

/-! ## Writing -/

/-- The bytes of the commit element. -/
def SaeTmp.elementBytes (tmp : SaeTmp) : SaeGroup → Bytes
  | .ecc ec =>
    match tmp.ownCommitElementEcc with
    | some (.affine x y) => (pointBytes ec.toEcParams x y).1 ++ (pointBytes ec.toEcParams x y).2
    | _ => []
  | .ffc _ => Bytes.toBe tmp.primeLen (tmp.ownCommitElementFfc.getD 0).toNat

/-- **The bytes of an ordinary commit.** -/
theorem saeWriteCommit_bytes {frame : Bytes} (hp : Prepared G sae tmp)
    (h : saeWriteCommit sae token identifier = some (sae', frame)) : ∃ s, tmp.ownCommitScalar = some s ∧
      s < 256 ^ tmp.primeLen ∧ frame = Bytes.le16 sae.group ++ ((if sae.h2e then [] else token.getD []) ++
        (Bytes.toBe tmp.primeLen s.toNat ++ (tmp.elementBytes G ++ commitElements sae tmp token identifier))) := by
  obtain ⟨s, hs, -⟩ := hp.scalar
  have hec := hp.inGroup.ec_eq
  have hhas := hp.element
  unfold saeWriteCommit at h
  simp only [hp.tmp_eq, hs, Option.bind_eq_bind, Option.bind_some] at h
  obtain ⟨bin, hbin, h⟩ := Option.bind_eq_some_iff.1 h
  obtain ⟨hlt, rfl⟩ := bnToBin_some hbin
  refine ⟨s, hs, hlt, ?_⟩
  cases G with
  | ecc ec =>
    obtain ⟨x, y, hxy, hvalid⟩ := hhas
    simp only [hec, SaeGroup.ec, hxy, Option.bind_some, pointToBin_valid hvalid, Option.map_some] at h
    cases h
    simp only [SaeTmp.elementBytes, hxy, List.append_assoc]
  | ffc dh =>
    obtain ⟨e, he, -⟩ := hhas
    simp only [hec, SaeGroup.ec, he, Option.bind_some] at h
    obtain ⟨element, helem, h⟩ := Option.bind_eq_some_iff.1 h
    obtain ⟨-, rfl⟩ := bnToBin_some helem
    cases h
    simp only [SaeTmp.elementBytes, he, Option.getD_some, List.append_assoc]

/-- A prepared commit is written if its scalar fits. -/
theorem saeWriteCommit_of_lt {s : ℤ} (hp : Prepared G sae tmp) (hs : tmp.ownCommitScalar = some s)
    (hlt : s < 256 ^ tmp.primeLen) (token identifier : Option Bytes) :
    ∃ frame, saeWriteCommit sae token identifier = some (sae.noteAkmSuite, frame) := by
  have hec := hp.inGroup.ec_eq
  have hlen := hp.inGroup.primeLen_eq
  have hhas := hp.element
  unfold saeWriteCommit
  simp only [hp.tmp_eq, hs, Option.bind_eq_bind, Option.bind_some, bnToBin_of_lt hlt]
  cases G with
  | ecc ec =>
    obtain ⟨x, y, hxy, hvalid⟩ := hhas
    simp only [hec, SaeGroup.ec, hxy, Option.bind_some, pointToBin_valid hvalid, Option.map_some]
    exact ⟨_, rfl⟩
  | ffc dh =>
    obtain ⟨e, he, -, hlt', -⟩ := hhas
    have hbound : e < 256 ^ tmp.primeLen := by
      have hprime : ((Bytes.ofBe dh.prime : ℕ) : ℤ) < 256 ^ dh.prime.length := by exact_mod_cast Bytes.ofBe_lt dh.prime
      rw [hlen, SaeGroup.primeLen]
      omega
    simp only [hec, SaeGroup.ec, he, Option.bind_some, bnToBin_of_lt hbound]
    exact ⟨_, rfl⟩

/-! ## Reading -/

/-- The receiver's data with the commit element. -/
def SaeTmp.receiveElement (peerTmp tmp : SaeTmp) : SaeGroup → SaeTmp
  | .ecc _ => { peerTmp with peerCommitElementEcc := tmp.ownCommitElementEcc }
  | .ffc _ => { peerTmp with peerCommitElementFfc := tmp.ownCommitElementFfc }

theorem length_elementBytes (hp : Prepared G sae tmp) :
    (tmp.elementBytes G).length = (if G.ec.isSome then 2 else 1) * tmp.primeLen := by
  have hlen := hp.inGroup.primeLen_eq
  have hhas := hp.element
  cases G with
  | ecc ec =>
    obtain ⟨x, y, hxy, -⟩ := hhas
    obtain ⟨h1, h2⟩ := length_pointBytes ec x y
    simp only [SaeTmp.elementBytes, hxy, List.length_append, h1, h2, hlen, SaeGroup.primeLen, SaeGroup.ec,
      Option.isSome_some, if_true]
    omega
  | ffc dh => simp [SaeTmp.elementBytes, SaeGroup.ec]

/-- `sae_parse_commit_element_ecc` and `sae_parse_commit_element_ffc` on the bytes of an element. -/
theorem saeParseCommitElement_bytes (hp : Prepared G sae tmp) (hpeer : InGroup G peerTmp) (tail : Bytes) :
    saeParseCommitElement peer peerTmp (tmp.elementBytes G ++ tail) =
      ⟨peer, peerTmp.receiveElement tmp G, .success, tail⟩ := by
  have hlen' : tmp.primeLen = peerTmp.primeLen := hp.inGroup.primeLen_eq.trans hpeer.primeLen_eq.symm
  have hhas := hp.element
  cases G with
  | ecc ec =>
    obtain ⟨x, y, hxy, hvalid⟩ := hhas
    obtain ⟨-, hx, hy⟩ := EcParams.valid_affine.1 hvalid
    obtain ⟨h1, h2⟩ := length_pointBytes ec x y
    have hprimeLen : peerTmp.primeLen = Bytes.numBytes ec.prime := hpeer.primeLen_eq
    have hfrom := pointFromBin_pointBytes hvalid tail
    have hpx : Bytes.ofBe (pointBytes ec.toEcParams x y).1 < ec.prime := by
      have := ofBe_toBe_toNat hx.1 (lt_pow_numBytes_of_lt hx.2)
      simp only [pointBytes]
      omega
    have hpy : Bytes.ofBe (pointBytes ec.toEcParams x y).2 < ec.prime := by
      have := ofBe_toBe_toNat hy.1 (lt_pow_numBytes_of_lt hy.2)
      simp only [pointBytes]
      omega
    rw [← hprimeLen] at h1 h2
    unfold saeParseCommitElement
    rw [if_neg (by simp [hpeer.dh_eq, SaeGroup.dh])]
    simp only [SaeTmp.elementBytes, hxy, SaeTmp.receiveElement, List.append_assoc]
    split
    · next ec' hec' =>
      obtain rfl : ec' = ec := Option.some.inj (hec'.symm.trans hpeer.ec_eq)
      unfold saeParseCommitElementEcc
      rw [if_neg (by rw [List.length_append, List.length_append, h1, h2]; omega), List.take_left' h1, List.drop_left' h1,
        List.take_left' h2, if_neg (by omega), hfrom]
      simp only [Option.isNone_some, Bool.false_eq_true, if_false, Parsed.mk.injEq, true_and]
      rw [Nat.two_mul, ← List.drop_drop, List.drop_left' h1, List.drop_left' h2]
    · next hnone =>
      rw [hpeer.ec_eq] at hnone
      cases hnone
  | ffc dh =>
    obtain ⟨e, he, h1, hlt, hpow⟩ := hhas
    have hprime : peerTmp.prime = (Bytes.ofBe dh.prime : ℕ) := hpeer.prime_eq
    have horder : peerTmp.order = (Bytes.ofBe dh.order : ℕ) := hpeer.order_eq
    have hbound : e < 256 ^ peerTmp.primeLen := by
      have hprimeLen : peerTmp.primeLen = dh.prime.length := hpeer.primeLen_eq
      have hlt' : ((Bytes.ofBe dh.prime : ℕ) : ℤ) < 256 ^ dh.prime.length := by exact_mod_cast Bytes.ofBe_lt dh.prime
      rw [hprimeLen]
      omega
    have hval := ofBe_toBe_toNat (by omega : 0 ≤ e) hbound
    have hbytes : (Bytes.toBe peerTmp.primeLen e.toNat).length = peerTmp.primeLen := Bytes.length_toBe _ _
    unfold saeParseCommitElement
    rw [if_pos (by simp [hpeer.dh_eq, SaeGroup.dh])]
    simp only [SaeTmp.elementBytes, he, Option.getD_some, hlen', SaeTmp.receiveElement]
    unfold saeParseCommitElementFfc
    rw [if_neg (by simp), List.take_left' hbytes]
    dsimp only
    rw [hval, if_neg, List.drop_left' hbytes]
    rw [hprime, horder]
    simp only [Int.toNat_natCast, hpow, ne_eq, not_true_eq_false, or_false, not_or]
    omega

theorem saeParseCommitScalar_bytes {s : ℤ} (hgroup : InGroup G peerTmp) (hstate : peer.state ≠ .accepted)
    (hs : IsScalar G.order s) (hlt : s < 256 ^ peerTmp.primeLen) (tail : Bytes) :
    saeParseCommitScalar peer peerTmp (Bytes.toBe peerTmp.primeLen s.toNat ++ tail) =
      ⟨{ peer with peerCommitScalar := some s }, peerTmp, .success, tail⟩ := by
  have hlen : (Bytes.toBe peerTmp.primeLen s.toNat).length = peerTmp.primeLen := Bytes.length_toBe _ _
  obtain ⟨h1, h2⟩ := hs
  unfold saeParseCommitScalar
  rw [if_neg (by simp), List.take_left' hlen, List.drop_left' hlen]
  simp only [ofBe_toBe_toNat (by omega : 0 ≤ s) hlt]
  rw [if_neg (fun h => hstate h.1), if_neg (by rw [hgroup.order_eq]; omega)]

theorem saeGroupAllowed_awaits {group : ℕ} (h : Awaits G allowed group peer peerTmp) :
    saeGroupAllowed host peer allowed group = (peer, .success) := by
  have hffc : ¬(peerTmp.dh.isSome = true ∧ allowed.isNone = true) := by
    rintro ⟨hdh, hnone⟩
    have hsome := h.ffc_listed (h.inGroup.dh_eq ▸ hdh)
    rw [Option.isNone_iff_eq_none.1 hnone] at hsome
    cases hsome
  unfold saeGroupAllowed
  rw [if_neg (by simp [h.listed]), if_neg (by simp [h.group_eq]), if_neg (fun hne => hne h.group_eq.symm)]
  simp only [h.tmp_eq, Bool.not_true, Bool.false_eq_true, if_false, if_neg hffc]

/-- The elements of a commit without hash-to-element. -/
theorem commitElements_of_readable (hh2e : sae.h2e = false) (h : Readable sae tmp token identifier) :
    commitElements sae tmp token identifier = [] := by
  obtain ⟨hid, hakmp, -⟩ : identifier = none ∧ sae.akmp.isSaeExtKey = false ∧ _ := by simpa [Readable, hh2e] using h
  simp [commitElements, hh2e, hid, hakmp]

/-- `sae_parse_commit_token` on a commit. -/
theorem saeParseCommitToken_bytes {s : ℤ} (hp : Prepared G sae tmp) (hpeer : InGroup G peerTmp)
    (hread : Readable sae tmp token identifier) :
    saeParseCommitToken peerTmp sae.h2e ((if sae.h2e then [] else token.getD []) ++
        (Bytes.toBe tmp.primeLen s.toNat ++ (tmp.elementBytes G ++ commitElements sae tmp token identifier))) =
      (if sae.h2e then none else token,
        Bytes.toBe tmp.primeLen s.toNat ++ (tmp.elementBytes G ++ commitElements sae tmp token identifier)) := by
  have hlen : tmp.primeLen = peerTmp.primeLen := hp.inGroup.primeLen_eq.trans hpeer.primeLen_eq.symm
  have helem := length_elementBytes hp
  cases hh2e : sae.h2e with
  | true => simp [saeParseCommitToken]
  | false =>
    obtain ⟨-, -, htoken⟩ : identifier = none ∧ sae.akmp.isSaeExtKey = false ∧ ∀ t, token = some t → 32 ≤ t.length := by
      simpa [Readable, hh2e] using hread
    have hbody : (Bytes.toBe tmp.primeLen s.toNat ++ (tmp.elementBytes G ++ [])).length =
        (if G.ec.isSome then 3 else 2) * peerTmp.primeLen := by
      rw [List.length_append, Bytes.length_toBe, List.append_nil, helem, hlen]
      split <;> omega
    rw [commitElements_of_readable hh2e hread]
    generalize Bytes.toBe tmp.primeLen s.toNat ++ (tmp.elementBytes G ++ []) = body at hbody
    unfold saeParseCommitToken
    rw [hpeer.ec_eq, ← hbody]
    cases token with
    | none => simp
    | some t =>
      have ht := htoken t rfl
      have htlen : (t ++ body).length - body.length = t.length := by rw [List.length_append, Nat.add_sub_cancel]
      simp only [Option.getD_some, Bool.false_eq_true, if_false, htlen, false_or]
      rw [if_neg (by rw [List.length_append]; omega), List.take_left' rfl, List.drop_left' rfl]

/-- Both parsers at the end of a commit without elements. -/
theorem parseElements_none (hpwId : peerTmp.pwId = none)
    (hselector : peer.ownAkmSuiteSelector = 0 ∨ peer.ownAkmSuiteSelector = peer.peerAkmSuiteSelector) :
    parseElements false peer peerTmp [] = ⟨peer.noteAkmp, { peerTmp with parsedPwId := none, peerRejectedGroups := none },
      if isReflection peer peerTmp then .saeSilentlyDiscard else .success, []⟩ := by
  have hid : saeParsePasswordIdentifier false peer peerTmp [] =
      ⟨peer, { peerTmp with parsedPwId := none }, .success, []⟩ := by
    simp [saeParsePasswordIdentifier, saeIsPasswordIdElem, isElem_nil, hpwId]
  simp only [parseElements, hid, Parsed.andThen, if_true, Bool.false_eq_true, if_false, finishCommit]
  rw [if_neg]
  · rfl
  · rintro ⟨h0, hne⟩
    exact hselector.elim h0 hne

/-- The receiver takes the commit: its identifier, and the AKM suite selector that it sees, if it has sent one itself. -/
structure Takes (sae peer : SaeData) (peerTmp : SaeTmp) (token identifier : Option Bytes) : Prop where
  identifier : TakesIdentifier peer peerTmp identifier
  selector : peer.ownAkmSuiteSelector = 0 ∨ peer.ownAkmSuiteSelector = sae.seenSelector peer token

/-- The receiver's data after the commit. -/
def SaeTmp.receive (peerTmp : SaeTmp) (G : SaeGroup) (sae : SaeData) (tmp : SaeTmp) (identifier : Option Bytes) : SaeTmp :=
  { peerTmp.receiveElement tmp G with
    parsedPwId := identifier
    peerRejectedGroups := if sae.h2e then tmp.ownRejectedGroups else none }

/-- The receiver after the commit. -/
def SaeData.receive (peer : SaeData) (sae : SaeData) (tmp : SaeTmp) (token : Option Bytes) : SaeData :=
  SaeData.noteAkmp { peer with
    peerCommitScalar := tmp.ownCommitScalar
    peerAkmSuiteSelector := sae.seenSelector peer token }

/-- The elements of the commit, which follow its scalar and its element. -/
theorem parseElements_readable (hread : Readable sae tmp token identifier)
    (htakes : Takes sae peer peerTmp token identifier) : ∃ rest,
    parseElements sae.h2e peer peerTmp (commitElements sae tmp token identifier) =
      ⟨SaeData.noteAkmp { peer with peerAkmSuiteSelector := sae.seenSelector peer token },
        { peerTmp with
          parsedPwId := identifier
          peerRejectedGroups := if sae.h2e then tmp.ownRejectedGroups else none },
        if isReflection peer peerTmp then .saeSilentlyDiscard else .success, rest⟩ := by
  cases hh2e : sae.h2e with
  | true =>
    have hsized : Sized tmp token identifier := by simpa [Readable, hh2e] using hread
    exact parseElements_written hsized htakes.identifier hh2e htakes.selector
  | false =>
    have helems := commitElements_of_readable hh2e hread
    obtain ⟨rfl, hakmp, -⟩ : identifier = none ∧ sae.akmp.isSaeExtKey = false ∧ _ := by simpa [Readable, hh2e] using hread
    have hseen : sae.seenSelector peer token = peer.peerAkmSuiteSelector := by simp [SaeData.seenSelector, hakmp]
    have hpwId : peerTmp.pwId = none := by
      cases hpw : peerTmp.pwId with
      | none => rfl
      | some id => exact absurd (htakes.identifier.bound id hpw) (by simp)
    refine ⟨[], ?_⟩
    rw [helems, hseen]
    exact parseElements_none hpwId (hseen ▸ htakes.selector)

theorem takes_receiveElement (s : Option ℤ) (h : Takes sae peer peerTmp token identifier) :
    Takes sae { peer with peerCommitScalar := s } (peerTmp.receiveElement tmp G) token identifier := by
  refine ⟨⟨h.identifier.allowed, fun id hid => h.identifier.bound id ?_⟩, h.selector⟩
  cases G <;> exact hid

/-- **`sae_parse_commit` on an ordinary commit.** -/
theorem saeParseCommit_bytes {frame : Bytes} (hp : Prepared G sae tmp) (hpeer : Awaits G allowed sae.group peer peerTmp)
    (hread : Readable sae tmp token identifier) (htakes : Takes sae peer peerTmp token identifier)
    (h : saeWriteCommit sae token identifier = some (sae', frame)) :
    saeParseCommit host peer frame allowed sae.h2e =
      ⟨{ peer.receive sae tmp token with tmp := some (peerTmp.receive G sae tmp identifier) },
        if isReflection { peer with peerCommitScalar := tmp.ownCommitScalar } (peerTmp.receiveElement tmp G) then
          .saeSilentlyDiscard else .success, token⟩ := by
  obtain ⟨s, hs, hlt, rfl⟩ := saeWriteCommit_bytes hp h
  obtain ⟨s', hs', hscalar⟩ := hp.scalar
  obtain rfl : s' = s := Option.some.inj (hs'.symm.trans hs)
  have hlen : tmp.primeLen = peerTmp.primeLen := hp.inGroup.primeLen_eq.trans hpeer.inGroup.primeLen_eq.symm
  have hfields : (saeParseCommitScalar peer peerTmp (Bytes.toBe tmp.primeLen s'.toNat ++ (tmp.elementBytes G ++
      commitElements sae tmp token identifier))).andThen saeParseCommitElement =
        ⟨{ peer with peerCommitScalar := some s' }, peerTmp.receiveElement tmp G, .success,
          commitElements sae tmp token identifier⟩ := by
    rw [hlen] at hlt ⊢
    rw [saeParseCommitScalar_bytes hpeer.inGroup hpeer.not_accepted hscalar hlt, Parsed.andThen_of_success _ rfl]
    exact saeParseCommitElement_bytes hp hpeer.inGroup _
  have htakes' : Takes sae { peer with peerCommitScalar := some s' } (peerTmp.receiveElement tmp G) token identifier :=
    takes_receiveElement _ htakes
  obtain ⟨rest, helems⟩ := parseElements_readable hread htakes'
  have htoken : (if sae.h2e = true then (tokenContainerAt { peer with peerCommitScalar := some s' }
      (peerTmp.receiveElement tmp G) (commitElements sae tmp token identifier)).elim
        (if sae.h2e = true then none else token) (saeParseTokenContainer · (if sae.h2e = true then none else token))
      else if sae.h2e = true then none else token) = token := by
    cases hh2e : sae.h2e with
    | false => rfl
    | true =>
      have hsized : Sized tmp token identifier := by simpa [Readable, hh2e] using hread
      exact tokenContainerAt_written hsized htakes'.identifier hh2e
  unfold saeParseCommit
  rw [if_neg (by simp; omega), Bytes.getLe16_le16_append hpeer.group_lt, saeGroupAllowed_awaits hpeer,
    List.drop_left' (Bytes.length_le16 _)]
  dsimp only
  split
  · next t ht =>
    cases hpeer.tmp_eq.symm.trans ht
    rw [saeParseCommitToken_bytes hp hpeer.inGroup hread]
    dsimp only
    rw [hfields]
    dsimp only
    rw [if_neg (fun h => h rfl), helems, htoken, SaeData.receive, hs]
    rfl
  · next h => exact absurd hpeer.tmp_eq (h peerTmp rfl)

theorem noteAkmp_frame (sae : SaeData) : sae.noteAkmp.group = sae.group ∧ sae.noteAkmp.peerCommitScalar = sae.peerCommitScalar ∧
    sae.noteAkmp.peerAkmSuiteSelector = sae.peerAkmSuiteSelector := by
  unfold SaeData.noteAkmp
  split
  · exact ⟨rfl, rfl, rfl⟩
  · split
    · exact ⟨rfl, rfl, rfl⟩
    · split <;> exact ⟨rfl, rfl, rfl⟩

/-- **A commit is read as it was written**, in every group, with hash-to-element or without it: the receiver has the scalar,
the element, the identifier, the rejected groups and the token of the sender. It has the AKM suite selector only if there is
no token. It accepts the commit unless it is its own. -/
theorem commit_round_trip {frame : Bytes} (hp : Prepared G sae tmp) (hpeer : Awaits G allowed sae.group peer peerTmp)
    (hread : Readable sae tmp token identifier) (htakes : Takes sae peer peerTmp token identifier)
    (h : saeWriteCommit sae token identifier = some (sae', frame)) :
    ∃ tmp', (saeParseCommit host peer frame allowed sae.h2e).sae.tmp = some tmp' ∧
      (saeParseCommit host peer frame allowed sae.h2e).ordinaryCommit tmp' = sae.ordinaryCommit tmp token identifier ∧
      (saeParseCommit host peer frame allowed sae.h2e).sae.peerAkmSuiteSelector =
        (if token = none ∧ sae.akmp.isSaeExtKey then sae.akmp.toSuite else peer.peerAkmSuiteSelector) ∧
      ((saeParseCommit host peer frame allowed sae.h2e).status = .success ↔
        isReflection (saeParseCommit host peer frame allowed sae.h2e).sae tmp' = false) := by
  rw [saeParseCommit_bytes hp hpeer hread htakes h]
  obtain ⟨hgroup, hscalar, hselector⟩ := noteAkmp_frame { peer with
    peerCommitScalar := tmp.ownCommitScalar
    peerAkmSuiteSelector := sae.seenSelector peer token }
  refine ⟨_, rfl, ?_, hselector, ?_⟩
  · have hec := hp.inGroup.ec_eq
    have hdh := hp.inGroup.dh_eq
    have hec' := hpeer.inGroup.ec_eq
    have hdh' := hpeer.inGroup.dh_eq
    have hg : (peer.receive sae tmp token).group = sae.group := hgroup.trans hpeer.group_eq
    have hs : (peer.receive sae tmp token).peerCommitScalar = tmp.ownCommitScalar := hscalar
    cases G <;> simp only [CommitParse.ordinaryCommit, SaeData.ordinaryCommit, SaeTmp.receive, SaeTmp.receiveElement, hg, hs,
      hec, hdh, hec', hdh', SaeGroup.ec, SaeGroup.dh, Option.bind_some, Option.bind_none]
  · have hrefl : isReflection { peer.receive sae tmp token with tmp := some (peerTmp.receive G sae tmp identifier) }
        (peerTmp.receive G sae tmp identifier) =
          isReflection { peer with peerCommitScalar := tmp.ownCommitScalar } (peerTmp.receiveElement tmp G) := by
      have hs : (peer.receive sae tmp token).peerCommitScalar = tmp.ownCommitScalar := hscalar
      simp only [isReflection, hs]
      rfl
    rw [hrefl]
    split
    · next hr => simp [hr]; decide
    · next hr => simp [hr]

/-! ## A small exchange -/

namespace Small

/-- An instance with a commit to send, and a rejected group. -/
def senderTmp : SaeTmp :=
  { newTmp Small.host Small.group with
    ownCommitScalar := some 5
    ownCommitElementEcc := some (.affine 0 2)
    ownRejectedGroups := some [20, 0] }

def sender (h2e : Bool) (akmp : Akmp) : SaeData := { group := 19, h2e := h2e, akmp := akmp, tmp := some senderTmp }

/-- An instance that has selected the group. -/
def receiver : SaeData := { group := 19, tmp := some (newTmp Small.host Small.group) }

theorem inGroup_newTmp : InGroup (.ecc Small.group) (newTmp Small.host Small.group) := ⟨rfl, rfl, rfl, rfl, rfl, rfl⟩

theorem prepared_sender (h2e : Bool) (akmp : Akmp) : Prepared (.ecc Small.group) (sender h2e akmp) senderTmp where
  tmp_eq := rfl
  inGroup := ⟨rfl, rfl, rfl, rfl, rfl, rfl⟩
  scalar := ⟨5, rfl, by decide, by decide⟩
  element := ⟨0, 2, rfl, EcParams.valid_affine.2 ⟨by decide, by decide, by decide⟩⟩

theorem awaits_receiver : Awaits (.ecc Small.group) (some [19, 0]) 19 receiver (newTmp Small.host Small.group) :=
  ⟨rfl, inGroup_newTmp, rfl, by decide, nofun, by decide, nofun⟩

end Small

/-- A commit with an identifier, rejected groups, a token and a selector. -/
theorem commit_round_trip_small : ∃ sae' frame tmp',
    saeWriteCommit (Small.sender true .saeExtKey) (some (List.replicate 32 7)) (some (ascii "id")) = some (sae', frame) ∧
      (saeParseCommit Small.host Small.receiver frame (some [19, 0]) true).sae.tmp = some tmp' ∧
      (saeParseCommit Small.host Small.receiver frame (some [19, 0]) true).ordinaryCommit tmp' =
        ⟨19, some 5, some (.affine 0 2), none, some (ascii "id"), some [20, 0], some (List.replicate 32 7)⟩ := by
  obtain ⟨frame, hwrite⟩ := saeWriteCommit_of_lt (Small.prepared_sender true .saeExtKey) rfl (by decide)
    (some (List.replicate 32 7)) (some (ascii "id"))
  have hread : Readable (Small.sender true .saeExtKey) Small.senderTmp (some (List.replicate 32 7)) (some (ascii "id")) :=
    ⟨by simp [ascii], by simp [Small.senderTmp], by simp⟩
  have htakes : Takes (Small.sender true .saeExtKey) Small.receiver (newTmp Small.host Small.group)
      (some (List.replicate 32 7)) (some (ascii "id")) := ⟨⟨fun _ => rfl, nofun⟩, .inl rfl⟩
  obtain ⟨tmp', htmp, hfields, -, -⟩ :=
    commit_round_trip (Small.prepared_sender true .saeExtKey) Small.awaits_receiver hread htakes hwrite
  exact ⟨_, frame, tmp', hwrite, htmp, hfields⟩

end DecoyAuth
