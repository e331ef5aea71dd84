import DecoyAuth.Ap.Machine
import DecoyAuth.Sae.Small

/-!
# A small access point

The access point on the small host and the frames that a station can send it. -/

namespace DecoyAuth.Small

def ap : Ap where
  host := host
  conf := { wpaPassphrase := some [] }
  ownAddr := addr 1
  staAddr := addr 2
  staHasPassphrase := false

/-- A received frame, where nothing around the instance fails. -/
def input (transaction : ℕ) (body : Bytes) (seed : ℕ) : Input where
  transaction := transaction
  status := .success
  body := body
  draws := draws seed
  now := 0
  tokenOk := true
  antiClogging := false
  tokenRequest := []
  commitSent := true
  confirmSent := true
  vlanOk := true

/-- A commit with the given scalar and element. -/
def commit (scalar x y : UInt8) (seed : ℕ) : Input := input 1 (Bytes.le16 19 ++ [scalar, x, y]) seed

/-- A confirm with the given counter and the digest of a checksum. -/
def confirm (counter h : ℕ) : Input := input 2 (Bytes.le16 counter ++ digest 32 h) 0

/-- The state in which a run leaves the station. -/
def stateAfter (inputs : List Input) : Option SaeState :=
  (runStation ap inputs).valueOf.bind fun sta => sta.map SaeData.state

theorem exists_of_stateAfter {inputs : List Input} {state : SaeState} (h : stateAfter inputs = some state) :
    ∃ sae, (runStation ap inputs).result = .ok (some sae) ∧ sae.state = state := by
  obtain ⟨sta, hsta, h⟩ := Option.bind_eq_some_iff.1 h
  obtain ⟨sae, rfl, hs⟩ := Option.map_eq_some_iff.1 h
  exact ⟨sae, Run.result_of_valueOf hsta, hs⟩

/-- The last frame of a run that takes the station from one state to another. -/
theorem exists_step_of_stateAfter {inputs : List Input} {inp : Input} {before after : SaeState}
    (hb : stateAfter inputs = some before) (ha : stateAfter (inputs ++ [inp]) = some after) :
    ∃ sae sae', (runStation ap inputs).result = .ok (some sae) ∧ sae.state = before ∧
      (handleAuthSae ap (some sae) inp).result = .ok (some sae') ∧ sae'.state = after := by
  obtain ⟨sae, hsae, hs⟩ := exists_of_stateAfter hb
  obtain ⟨sae', hsae', hs'⟩ := exists_of_stateAfter ha
  obtain ⟨sta, hsta, hstep⟩ := Run.steps_concat_ok hsae'
  have : sta = some sae := Except.ok.inj (hsta.symm.trans hsae)
  subst this
  exact ⟨sae, sae', hsae, hs, hstep, hs'⟩

end DecoyAuth.Small
