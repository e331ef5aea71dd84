import DecoyAuth.Handshake.Decode

/-!
# What the handshake does not look at

The functions of `sae.c` that prepare, write and process commits and write confirms neither read the state of the instance
nor whether identifiers are in use: they do the same on an instance with other such labels, and leave the labels as they
are (`saeApPrepareCommit_label`, `saeApWriteCommit_label`, `saeApProcessCommit_label`, `saeProcessCommit_label`,
`saeWriteConfirm_label`). The client's parser reads the state only where it selects the group (`parseApCommitBody_label`).
-/

namespace DecoyAuth

/-- The instance in another state. -/
def SaeData.label (state : SaeState) (noPwId : Bool) (sae : SaeData) : SaeData :=
  { sae with state := state, noPwId := noPwId }

theorem SaeData.label_tmp (state : SaeState) (noPwId : Bool) (sae : SaeData) :
    (sae.label state noPwId).tmp = sae.tmp := rfl

variable (state : SaeState) (noPwId : Bool) (host : Host)

/-! ## The commit of the access point -/

section Prepare

variable (addr1 addr2 : MacAddr) (draws : CommitDraws) (mask : ℤ)

theorem prepareEntry_label (i : ℕ) (sae : SaeData) (tmp : SaeTmp) :
    prepareEntry host addr1 addr2 draws mask i (sae.label state noPwId) tmp =
      (prepareEntry host addr1 addr2 draws mask i sae tmp).mapValue (Prod.map (·.label state noPwId) id) := by
  unfold prepareEntry
  split
  · unfold prepareEntryEcc
    simp only [SaeData.label]
    split
    · rfl
    · simp only [Run.mapValue_bind]
      rfl
  · unfold prepareEntryFfc
    by_cases h : (tmp.dh.map fun dh => saeDerivePweFfc host.hash dh sae.group addr1 addr2 (host.passwords.getD i [])) =
        some none
    · have h' : (tmp.dh.map fun dh => saeDerivePweFfc host.hash dh (sae.label state noPwId).group addr1 addr2
          (host.passwords.getD i [])) = some none := h
      dsimp only
      rw [if_pos h, if_pos h']
      rfl
    · have h' : ¬(tmp.dh.map fun dh => saeDerivePweFfc host.hash dh (sae.label state noPwId).group addr1 addr2
          (host.passwords.getD i [])) = some none := h
      dsimp only
      rw [if_neg h, if_neg h']
      simp only [Run.mapValue_bind]
      rfl

theorem prepareEntries_label : ∀ (left i : ℕ) (sae : SaeData) (tmp : SaeTmp),
    prepareEntries host addr1 addr2 draws mask left i (sae.label state noPwId) tmp =
      (prepareEntries host addr1 addr2 draws mask left i sae tmp).mapValue (Prod.map (·.label state noPwId) id)
  | 0, _, _, _ => rfl
  | left + 1, i, sae, tmp => by
    simp only [prepareEntries, prepareEntry_label, Run.bind_mapValue, Run.mapValue_bind]
    refine Run.bind_congr fun ⟨s, t, ok⟩ => ?_
    cases ok with
    | false => rfl
    | true => exact prepareEntries_label left (i + 1) s t

theorem saeApPrepareCommit_label (sae : SaeData) :
    saeApPrepareCommit host addr1 addr2 draws (sae.label state noPwId) =
      (saeApPrepareCommit host addr1 addr2 draws sae).mapValue (Prod.map (·.label state noPwId) id) := by
  unfold saeApPrepareCommit
  rw [SaeData.label_tmp]
  cases sae.tmp with
  | none => rfl
  | some tmp =>
    simp only [prepareEntries_label, Run.bind_mapValue, Run.mapValue_bind]
    refine Run.bind_congr fun ⟨s, t, ok⟩ => ?_
    cases ok with
    | false => rfl
    | true =>
      simp only [Prod.map, Bool.not_true, Bool.false_eq_true, if_false, Run.mapValue_bind]
      rfl

end Prepare

theorem noteAkmSuite_label (sae : SaeData) :
    (sae.label state noPwId).noteAkmSuite = sae.noteAkmSuite.label state noPwId := by
  unfold SaeData.noteAkmSuite
  split_ifs <;> first | rfl | contradiction

theorem saeApWriteCommit_label (size : ℕ) (identifier : Option Bytes) (sae : SaeData) :
    saeApWriteCommit host size identifier (sae.label state noPwId) =
      (saeApWriteCommit host size identifier sae).mapValue (Prod.map (·.label state noPwId) id) := by
  unfold saeApWriteCommit
  rw [noteAkmSuite_label, SaeData.label_tmp]
  cases sae.tmp with
  | none => rfl
  | some tmp =>
    simp only [Run.mapValue_bind]
    refine Run.bind_congr fun _ => ?_
    cases bnToBin (tmp.ownCommitScalar.getD 0) tmp.primeLen with
    | none => rfl
    | some scalar =>
      simp only [Run.mapValue_bind]
      refine Run.bind_congr fun _ => Run.bind_congr fun buf => ?_
      -- the two loops, each of which can give up
      cases buf with
      | none => rfl
      | some buf =>
        simp only [Run.mapValue_bind]
        refine Run.bind_congr fun buf => ?_
        cases buf with
        | none => rfl
        | some buf =>
          simp only [Run.mapValue_bind]
          rfl

/-! ## Keys and confirms -/

theorem processEntries_label (sae : SaeData) : ∀ (left i : ℕ) (tmp : SaeTmp),
    processEntries host (sae.label state noPwId) left i tmp = processEntries host sae left i tmp
  | 0, _, _ => rfl
  | left + 1, i, tmp => by
    unfold processEntries
    simp only [processEntries_label]
    rfl

theorem saeApProcessCommit_label (sae : SaeData) : saeApProcessCommit host (sae.label state noPwId) =
    (saeApProcessCommit host sae).mapValue (Prod.map (·.label state noPwId) id) := by
  unfold saeApProcessCommit
  rw [SaeData.label_tmp]
  cases sae.tmp with
  | none => rfl
  | some tmp =>
    simp only [processEntries_label, Run.mapValue_bind]
    rfl

theorem saeDeriveKeys_label (sae : SaeData) (tmp : SaeTmp) (k : Bytes) :
    saeDeriveKeys host (sae.label state noPwId) tmp k = (saeDeriveKeys host sae tmp k).map (·.label state noPwId) := by
  unfold saeDeriveKeys
  simp only [Option.bind_eq_bind, Option.map_bind, Function.comp_def]
  rfl

theorem saeProcessCommit_label (sae : SaeData) :
    saeProcessCommit host (sae.label state noPwId) = (saeProcessCommit host sae).map (·.label state noPwId) := by
  unfold saeProcessCommit
  simp only [Option.bind_eq_bind, Option.map_bind, Function.comp_def]
  refine Option.bind_congr fun tmp _ => ?_
  split
  all_goals
    simp only [Option.map_bind, Function.comp_def, saeDeriveKeys_label]
    rfl

theorem saeWriteConfirm_label (sae : SaeData) : saeWriteConfirm host (sae.label state noPwId) =
    (saeWriteConfirm host sae).map (Prod.map (·.label state noPwId) id) := by
  unfold saeWriteConfirm
  rw [SaeData.label_tmp]
  cases sae.tmp with
  | none => rfl
  | some tmp =>
    dsimp only
    rw [except_map_bind]
    rfl

/-! ## Parsers -/

def Parsed.label (p : Parsed) : Parsed := { p with sae := p.sae.label state noPwId }

theorem Parsed.andThen_label (p : Parsed) {next : SaeData → SaeTmp → Bytes → Parsed}
    (h : ∀ sae tmp rest, next (sae.label state noPwId) tmp rest = (next sae tmp rest).label state noPwId) :
    (p.label state noPwId).andThen next = (p.andThen next).label state noPwId := by
  unfold Parsed.andThen
  by_cases hp : p.status = .success
  · rw [if_pos hp, if_pos (show (p.label state noPwId).status = .success from hp)]
    exact h _ _ _
  · rw [if_neg hp, if_neg (show (p.label state noPwId).status ≠ .success from hp)]

/-- Without hash-to-element an identifier is an error, whether or not identifiers are in use. -/
theorem saeParsePasswordIdentifier_label (sae : SaeData) (tmp : SaeTmp) (rest : Bytes) :
    saeParsePasswordIdentifier false (sae.label state noPwId) tmp rest =
      (saeParsePasswordIdentifier false sae tmp rest).label state noPwId := by
  unfold saeParsePasswordIdentifier
  split_ifs <;> first | rfl | contradiction

theorem finishCommit_label (sae : SaeData) (tmp : SaeTmp) (rest : Bytes) :
    finishCommit (sae.label state noPwId) tmp rest = (finishCommit sae tmp rest).label state noPwId := by
  have hnote : (sae.label state noPwId).noteAkmp = sae.noteAkmp.label state noPwId := by
    unfold SaeData.noteAkmp
    split_ifs <;> first | rfl | contradiction
  unfold finishCommit
  rw [hnote]
  split_ifs <;> first | rfl | contradiction

theorem parseElements_label (sae : SaeData) (tmp : SaeTmp) (rest : Bytes) :
    parseElements false (sae.label state noPwId) tmp rest = (parseElements false sae tmp rest).label state noPwId := by
  unfold parseElements
  rw [saeParsePasswordIdentifier_label, Parsed.andThen_label, Parsed.andThen_label, Parsed.andThen_label]
  · exact finishCommit_label state noPwId
  · intros
    rfl
  · intros
    rfl

theorem saeParseCommitScalar_label (sae : SaeData) (tmp : SaeTmp) (rest : Bytes) :
    saeParseCommitScalar (sae.label sae.state noPwId) tmp rest =
      (saeParseCommitScalar sae tmp rest).label sae.state noPwId := by
  unfold saeParseCommitScalar
  dsimp only
  split_ifs <;> first | rfl | contradiction

theorem saeParseCommitElement_label (sae : SaeData) (tmp : SaeTmp) (rest : Bytes) :
    saeParseCommitElement (sae.label state noPwId) tmp rest =
      (saeParseCommitElement sae tmp rest).label state noPwId := by
  unfold saeParseCommitElement
  split_ifs
  · unfold saeParseCommitElementFfc
    dsimp only
    split_ifs <;> rfl
  · split
    · unfold saeParseCommitElementEcc
      dsimp only
      split_ifs <;> rfl
    · rfl

/-- The access point's parser without hash-to-element, from the token on. -/
def parseFields (sae : SaeData) (tmp : SaeTmp) (token : Option Bytes) (rest : Bytes) : CommitParse :=
  let p := (saeParseCommitScalar sae tmp rest).andThen saeParseCommitElement
  if p.status ≠ .success then ⟨{ p.sae with tmp := some p.tmp }, p.status, token⟩
  else
    let p := parseElements false p.sae p.tmp p.rest
    ⟨{ p.sae with tmp := some p.tmp }, p.status, token⟩

theorem saeParseCommit_eq_parseFields {sae sae' : SaeData} {tmp : SaeTmp} {data : Bytes} {allowed : Option (List ℤ)}
    (hlen : 2 ≤ data.length) (h : saeGroupAllowed host sae allowed (Bytes.getLe16 data) = (sae', .success))
    (ht : sae'.tmp = some tmp) : saeParseCommit host sae data allowed false =
      parseFields sae' tmp (saeParseCommitToken tmp false (data.drop 2)).1
        (saeParseCommitToken tmp false (data.drop 2)).2 := by
  unfold saeParseCommit
  rw [if_neg (by omega), h]
  dsimp only
  split
  · next tmp' ht' =>
    cases ht.symm.trans ht'
    rfl
  · next hnot => exact absurd ht (hnot tmp rfl)

theorem parseFields_label (sae : SaeData) (tmp : SaeTmp) (token : Option Bytes) (rest : Bytes) :
    parseFields (sae.label sae.state noPwId) tmp token rest =
      { parseFields sae tmp token rest with sae := (parseFields sae tmp token rest).sae.label sae.state noPwId } := by
  unfold parseFields
  rw [saeParseCommitScalar_label, Parsed.andThen_label _ _ _ (saeParseCommitElement_label _ _)]
  generalize (saeParseCommitScalar sae tmp rest).andThen saeParseCommitElement = p
  have hp : parseElements false (p.label sae.state noPwId).sae (p.label sae.state noPwId).tmp
      (p.label sae.state noPwId).rest = (parseElements false p.sae p.tmp p.rest).label sae.state noPwId :=
    parseElements_label _ _ _ _ _
  dsimp only
  rw [hp]
  by_cases h : p.status = .success
  · rw [if_neg (not_not.2 h), if_neg (not_not.2 (show (p.label sae.state noPwId).status = .success from h))]
    rfl
  · rw [if_pos h, if_pos (show (p.label sae.state noPwId).status ≠ .success from h)]
    rfl

theorem decodeApCommit_label (password data : Bytes) (sae : SaeData) (tmp : SaeTmp) (u v : List ℤ) (rest : Bytes) :
    decodeApCommit host password data false (sae.label state noPwId) tmp u v rest =
      (decodeApCommit host password data false sae tmp u v rest).mapValue (Prod.map (·.label state noPwId) id) := by
  unfold decodeApCommit
  cases tmp.ec with
  | none => rfl
  | some ec =>
    simp only [Run.mapValue_bind, parseElements_label]
    rfl

theorem parseApCommitBody_label (env : Surroundings) (password data : Bytes) (sae : SaeData) (tmp : SaeTmp)
    (rest : Bytes) : parseApCommitBody host env password data false (sae.label state noPwId) tmp rest =
      (parseApCommitBody host env password data false sae tmp rest).mapValue (Prod.map (·.label state noPwId) id) := by
  unfold parseApCommitBody
  simp only [Run.mapValue_bind]
  refine Run.bind_congr fun _ => Run.bind_congr fun ⟨u, status, rest⟩ => ?_
  by_cases h : status = .success
  · simp only [h, ne_eq, not_true_eq_false, if_false, Run.mapValue_bind]
    refine Run.bind_congr fun ⟨v, status, rest⟩ => ?_
    by_cases h : status = .success
    · simp only [h, not_true_eq_false, if_false, decodeApCommit_label]
    · simp only [h, not_false_eq_true, if_true]
      rfl
  · simp only [h, ne_eq, not_false_eq_true, if_true]
    rfl

end DecoyAuth
