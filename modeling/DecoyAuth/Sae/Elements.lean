import DecoyAuth.Handshake.Commits
import DecoyAuth.Sae.Buffer
import DecoyAuth.Sae.Reflection

/-!
# The elements of a commit

`sae_parse_commit` on what `sae_write_commit` wrote, for both kinds of groups, with and without hash-to-element, and with
the elements behind the commit element. The parser recovers the scalar, the element, the password identifier, the rejected
groups and the token (`commit_round_trip`). `sae_parse_token_container` does not move the cursor, so the AKM suite selector
is recovered from a commit without a token only.
-/

namespace DecoyAuth

variable {host : Host} {sae sae' peer : SaeData} {tmp peerTmp : SaeTmp} {allowed : Option (List ℤ)}
  {token identifier : Option Bytes}

/-! ## One element -/

section Element

variable {ext ext' : UInt8} {content tail : Bytes} {n minLen : ℕ}

theorem elementLength (h : content.length ≤ 254) : (UInt8.ofNat (1 + content.length)).toNat = 1 + content.length := by
  rw [UInt8.toNat_ofNat', Nat.mod_eq_of_lt]
  omega

theorem isElem_extElement (h : content.length ≤ 254) : isElem n minLen ext (extElement ext' content ++ tail) = true ↔
    n ≤ 3 + content.length + tail.length ∧ minLen ≤ 1 + content.length ∧ ext' = ext := by
  have hlen : (extElement ext' content ++ tail).length = 3 + content.length + tail.length := by
    rw [List.length_append, length_extElement]
  have h0 : (extElement ext' content ++ tail).getD 0 0 = wlanEidExtension := rfl
  have h1 : ((extElement ext' content ++ tail).getD 1 0).toNat = 1 + content.length := elementLength h
  have h2 : (extElement ext' content ++ tail).getD 2 0 = ext' := rfl
  have hfit : 1 + content.length ≤ 3 + content.length + tail.length - 2 := by omega
  unfold isElem
  rw [hlen, h0, h1, h2]
  simp only [Bool.and_eq_true, decide_eq_true_eq, hfit, and_true, and_assoc]

theorem isElem_nil (h : 0 < n) : isElem n minLen ext [] = false := by
  simp [isElem, Nat.ne_of_gt h]

theorem elemContent_extElement (h : content.length ≤ 254) : elemContent (extElement ext content ++ tail) = content := by
  have h1 : ((extElement ext content ++ tail).getD 1 0).toNat = 1 + content.length := elementLength h
  rw [elemContent, h1, Nat.add_sub_cancel_left]
  exact List.take_left' rfl

theorem afterElem_extElement (h : content.length ≤ 254) : afterElem (extElement ext content ++ tail) = tail := by
  have h1 : ((extElement ext content ++ tail).getD 1 0).toNat = 1 + content.length := elementLength h
  rw [afterElem, h1]
  exact List.drop_left' (by rw [length_extElement]; omega)

/-- An optional element of another kind is passed over. -/
theorem isElem_optional {content : Option Bytes} (h : ∀ c, content = some c → c.length ≤ 254) (hext : ext' ≠ ext)
    (htail : isElem n minLen ext tail = false) :
    isElem n minLen ext ((content.map (extElement ext')).getD [] ++ tail) = false := by
  cases content with
  | none => exact htail
  | some c =>
    rw [Bool.eq_false_iff, Ne, Option.map_some, Option.getD_some, isElem_extElement (h c rfl)]
    exact fun hc => hext hc.2.2

end Element

/-! ## The elements in their order -/

/-- The element with the AKM suite selector. -/
def selectorElement (akmp : Akmp) : Bytes :=
  if akmp.isSaeExtKey then extElement wlanEidExtAkmSuiteSelector (Bytes.toBe 4 akmp.toSuite) else []

theorem commitElements_h2e (h : sae.h2e = true) : commitElements sae tmp token identifier =
    (identifier.map (extElement wlanEidExtPasswordIdentifier)).getD [] ++
      ((tmp.ownRejectedGroups.map (extElement wlanEidExtRejectedGroups)).getD [] ++
        ((token.map (extElement wlanEidExtAntiCloggingToken)).getD [] ++ selectorElement sae.akmp)) := by
  simp only [commitElements, h, if_true, List.append_assoc]
  rfl

theorem isElem_selectorElement {n minLen : ℕ} {ext : UInt8} {akmp : Akmp} (hn : 0 < n)
    (hext : wlanEidExtAkmSuiteSelector ≠ ext) : isElem n minLen ext (selectorElement akmp) = false := by
  unfold selectorElement
  split
  · rw [← List.append_nil (extElement _ _), Bool.eq_false_iff, Ne, isElem_extElement (by simp)]
    exact fun hc => hext hc.2.2
  · exact isElem_nil hn

/-- The elements are of a size that their length fields can hold, and the groups are a list that the parser takes. -/
structure Sized (tmp : SaeTmp) (token identifier : Option Bytes) : Prop where
  identifier : ∀ id, identifier = some id → id.length ≤ 254
  groups : ∀ groups, tmp.ownRejectedGroups = some groups → groups ≠ [] ∧ groups.length ≤ 254 ∧ groups.length % 2 = 0
  token : ∀ t, token = some t → t.length ≤ 254

/-- The receiver takes the identifier: it allows identifiers, and the one that it is bound to is the same. -/
structure TakesIdentifier (peer : SaeData) (peerTmp : SaeTmp) (identifier : Option Bytes) : Prop where
  allowed : identifier.isSome → peer.noPwId = false
  bound : ∀ id, peerTmp.pwId = some id → identifier = some (cString id)

section Written

variable {tail : Bytes}

theorem saeParsePasswordIdentifier_written (hid : ∀ id, identifier = some id → id.length ≤ 254)
    (htakes : TakesIdentifier peer peerTmp identifier) (htail : saeIsPasswordIdElem tail = false) :
    saeParsePasswordIdentifier true peer peerTmp
        ((identifier.map (extElement wlanEidExtPasswordIdentifier)).getD [] ++ tail) =
      ⟨peer, { peerTmp with parsedPwId := identifier }, .success, tail⟩ := by
  unfold saeParsePasswordIdentifier
  cases identifier with
  | none =>
    have hbound : peerTmp.pwId = none := by
      cases hpw : peerTmp.pwId with
      | none => rfl
      | some id => exact absurd (htakes.bound id hpw) nofun
    simp [htail, hbound]
  | some id =>
    have hlen := hid id rfl
    have helem : saeIsPasswordIdElem (extElement wlanEidExtPasswordIdentifier id ++ tail) = true :=
      (isElem_extElement hlen).2 ⟨by omega, by omega, rfl⟩
    have hallowed : peer.noPwId = false := htakes.allowed rfl
    have hbound : (peerTmp.pwId.map fun i => decide (id ≠ cString i)).getD false = false := by
      cases hpw : peerTmp.pwId with
      | none => rfl
      | some i => simpa using Option.some.inj (htakes.bound i hpw)
    simp only [Option.map_some, Option.getD_some, helem, elemContent_extElement hlen, afterElem_extElement hlen, hallowed,
      hbound, Bool.not_true, Bool.or_self, Bool.false_eq_true, if_false]

theorem saeParseRejectedGroups_written {groups : Option Bytes}
    (hgroups : ∀ g, groups = some g → g ≠ [] ∧ g.length ≤ 254 ∧ g.length % 2 = 0)
    (htail : saeIsRejectedGroupsElem tail = false) :
    saeParseRejectedGroups peer peerTmp ((groups.map (extElement wlanEidExtRejectedGroups)).getD [] ++ tail) =
      ⟨peer, { peerTmp with peerRejectedGroups := groups }, .success, tail⟩ := by
  unfold saeParseRejectedGroups
  cases groups with
  | none => simp [htail]
  | some g =>
    obtain ⟨hne, hlen, heven⟩ := hgroups g rfl
    have hpos := List.length_pos_of_ne_nil hne
    have helem : saeIsRejectedGroupsElem (extElement wlanEidExtRejectedGroups g ++ tail) = true :=
      (isElem_extElement hlen).2 ⟨by omega, by omega, rfl⟩
    simp only [Option.map_some, Option.getD_some, helem, elemContent_extElement hlen, afterElem_extElement hlen, heven,
      Bool.not_true, Bool.false_eq_true, if_false, Nat.zero_ne_one]

theorem saeParseTokenContainer_written (htoken : ∀ t, token = some t → t.length ≤ 254)
    (htail : saeIsTokenContainerElem tail = false) :
    saeParseTokenContainer ((token.map (extElement wlanEidExtAntiCloggingToken)).getD [] ++ tail) none = token := by
  unfold saeParseTokenContainer
  cases token with
  | none => simp [htail]
  | some t =>
    have hlen := htoken t rfl
    have helem : saeIsTokenContainerElem (extElement wlanEidExtAntiCloggingToken t ++ tail) = true :=
      (isElem_extElement hlen).2 ⟨by omega, by omega, rfl⟩
    simp only [Option.map_some, Option.getD_some, helem, elemContent_extElement hlen, if_true]

end Written

/-- The AKM suite selector that the receiver has after the elements. -/
def SaeData.seenSelector (sae peer : SaeData) (token : Option Bytes) : ℕ :=
  if token = none ∧ sae.akmp.isSaeExtKey then sae.akmp.toSuite else peer.peerAkmSuiteSelector

theorem toSuite_lt (akmp : Akmp) : akmp.toSuite < 256 ^ 4 := by cases akmp <;> decide

/-- The selector behind a token is not seen: the cursor still stands before the token. -/
theorem saeParseAkmSuiteSelector_written (sae peer : SaeData) (peerTmp : SaeTmp)
    (htoken : ∀ t, token = some t → t.length ≤ 254) : ∃ rest,
    saeParseAkmSuiteSelector peer peerTmp
        ((token.map (extElement wlanEidExtAntiCloggingToken)).getD [] ++ selectorElement sae.akmp) =
      ⟨{ peer with peerAkmSuiteSelector := sae.seenSelector peer token }, peerTmp, .success, rest⟩ := by
  unfold saeParseAkmSuiteSelector SaeData.seenSelector
  cases token with
  | some t =>
    have helem : saeIsAkmSuiteSelectorElem (extElement wlanEidExtAntiCloggingToken t ++ selectorElement sae.akmp) = false := by
      rw [Bool.eq_false_iff, Ne, saeIsAkmSuiteSelectorElem, isElem_extElement (htoken t rfl)]
      exact fun hc => absurd hc.2.2 (by decide)
    exact ⟨_, by simp [helem]; rfl⟩
  | none =>
    unfold selectorElement
    cases hext : sae.akmp.isSaeExtKey with
    | false => exact ⟨_, by simp [saeIsAkmSuiteSelectorElem, isElem_nil]; rfl⟩
    | true =>
      have hlen : (Bytes.toBe 4 sae.akmp.toSuite).length ≤ 254 := by simp
      have helem : saeIsAkmSuiteSelectorElem (extElement wlanEidExtAkmSuiteSelector (Bytes.toBe 4 sae.akmp.toSuite) ++ []) =
          true := (isElem_extElement hlen).2 ⟨by simp, by simp, rfl⟩
      have hcontent : elemContent (extElement wlanEidExtAkmSuiteSelector (Bytes.toBe 4 sae.akmp.toSuite) ++ []) = _ :=
        elemContent_extElement hlen
      rw [List.append_nil] at helem hcontent
      refine ⟨afterElem (extElement wlanEidExtAkmSuiteSelector (Bytes.toBe 4 sae.akmp.toSuite)), ?_⟩
      simp only [Option.map_none, Option.getD_none, List.nil_append, if_true, helem, hcontent, Bool.not_true,
        Bool.false_eq_true, if_false, and_self]
      rw [List.take_of_length_le (by simp), Bytes.ofBe_toBe (toSuite_lt _)]

section Parse

variable (hsized : Sized tmp token identifier) (htakes : TakesIdentifier peer peerTmp identifier)
include hsized htakes

/-- The identifier and the rejected groups, and the cursor after them. -/
theorem parseGroups_written (hh2e : sae.h2e = true) :
    (saeParsePasswordIdentifier true peer peerTmp (commitElements sae tmp token identifier)).andThen
        saeParseRejectedGroups =
      ⟨peer, { peerTmp with parsedPwId := identifier, peerRejectedGroups := tmp.ownRejectedGroups }, .success,
        (token.map (extElement wlanEidExtAntiCloggingToken)).getD [] ++ selectorElement sae.akmp⟩ := by
  have hnotId : saeIsPasswordIdElem ((tmp.ownRejectedGroups.map (extElement wlanEidExtRejectedGroups)).getD [] ++
      ((token.map (extElement wlanEidExtAntiCloggingToken)).getD [] ++ selectorElement sae.akmp)) = false :=
    isElem_optional (fun g hg => (hsized.groups g hg).2.1) (by decide)
      (isElem_optional hsized.token (by decide) (isElem_selectorElement (by decide) (by decide)))
  have hnotGroups : saeIsRejectedGroupsElem
      ((token.map (extElement wlanEidExtAntiCloggingToken)).getD [] ++ selectorElement sae.akmp) = false :=
    isElem_optional hsized.token (by decide) (isElem_selectorElement (by decide) (by decide))
  rw [commitElements_h2e hh2e, saeParsePasswordIdentifier_written hsized.identifier htakes hnotId, Parsed.andThen,
    if_pos rfl]
  exact saeParseRejectedGroups_written hsized.groups hnotGroups

theorem tokenContainerAt_written (hh2e : sae.h2e = true) :
    (tokenContainerAt peer peerTmp (commitElements sae tmp token identifier)).elim none (saeParseTokenContainer · none) =
      token := by
  unfold tokenContainerAt
  rw [parseGroups_written hsized htakes hh2e]
  exact saeParseTokenContainer_written hsized.token (isElem_selectorElement (by decide) (by decide))

/-- Both parsers on the elements of a commit with hash-to-element. -/
theorem parseElements_written (hh2e : sae.h2e = true)
    (hselector : peer.ownAkmSuiteSelector = 0 ∨ peer.ownAkmSuiteSelector = sae.seenSelector peer token) : ∃ rest,
    parseElements true peer peerTmp (commitElements sae tmp token identifier) =
      ⟨SaeData.noteAkmp { peer with peerAkmSuiteSelector := sae.seenSelector peer token },
        { peerTmp with parsedPwId := identifier, peerRejectedGroups := tmp.ownRejectedGroups },
        if isReflection peer peerTmp then .saeSilentlyDiscard else .success, rest⟩ := by
  obtain ⟨rest, hakm⟩ := saeParseAkmSuiteSelector_written sae peer
    { peerTmp with parsedPwId := identifier, peerRejectedGroups := tmp.ownRejectedGroups } hsized.token
  have hgroups := parseGroups_written hsized htakes hh2e
  refine ⟨rest, ?_⟩
  simp only [parseElements, if_true]
  rw [hgroups, Parsed.andThen_of_success saeParseAkmSuiteSelector rfl, hakm, Parsed.andThen_of_success finishCommit rfl,
    finishCommit, if_neg]
  · rfl
  · rintro ⟨h0, hne⟩
    exact hselector.elim h0 hne

end Parse

end DecoyAuth
