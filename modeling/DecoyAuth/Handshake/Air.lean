import DecoyAuth.Ap.Commits
import DecoyAuth.Handshake.Agreement
import DecoyAuth.Handshake.Labels
import DecoyAuth.Sme.Machine

/-!
# The access point and the client on the air

The state machines of the two parties, with the frames that are on their way between them. A turn starts an attempt of the
client to connect, or lets one of the parties handle the frame that has waited longest.

`Serves` is an access point that offers what a setting says, and `Serves.commit_yields` is its first turn in a handshake
whose calls succeed.
-/

namespace DecoyAuth

/-! ## Turns -/

/-- What leaves the access point: a frame, or a PMKSA for the rest of hostapd. -/
inductive ApOutput
  | frame (frame : Frame)
  | pmksa (pmk pmkid : Bytes)

def Event.output : Event → Option ApOutput
  | .reply transaction status body => some (.frame ⟨transaction, status, body⟩)
  | .pmksaAdd pmk pmkid => some (.pmksa pmk pmkid)
  | _ => none

def ApOutput.frame? : ApOutput → Option Frame
  | .frame f => some f
  | .pmksa _ _ => none

def ApOutput.pmksa? : ApOutput → Option (Bytes × Bytes)
  | .frame _ => none
  | .pmksa pmk pmkid => some (pmk, pmkid)

/-- The frame that the driver makes of the data given to it: the transaction, the status and the body. -/
def Sme.Event.output : Sme.Event → Option Frame
  | .authenticate (some data) => some ⟨Bytes.getLe16 data, Bytes.getLe16 (data.drop 2), data.drop 4⟩
  | _ => none

/-- The station at the access point, the client, the frames on their way, and the PMKSAs that were added. -/
structure World where
  station : Option SaeData := none
  client : Sme.State := {}
  toAp : List Frame := []
  toClient : List Frame := []
  pmksas : List (Bytes × Bytes) := []

/-- One turn. The frame that the access point handles takes the place of that of the input. -/
inductive Turn
  | connect (env : Sme.Env)
  | ap (inp : Input)
  | client (env : Sme.Env)

section Turns

variable (ap : Ap) (cl : Sme.Client)

/-- A step of the client. -/
def World.clientStep (w : World) (inp : Sme.Input) : Option World := do
  let run := Sme.step cl w.client inp
  return { w with client := ← run.valueOf, toAp := w.toAp ++ run.log.filterMap Sme.Event.output }

def World.turn (w : World) : Turn → Option World
  | .connect env => w.clientStep cl (.connect ap.ownAddr env)
  | .ap inp =>
    match w.toAp with
    | [] => some w
    | frame :: rest => do
      let run := handleAuthSae ap w.station { inp with toFrame := frame }
      let outputs := run.log.filterMap Event.output
      return { w with
        station := ← run.valueOf
        toAp := rest
        toClient := w.toClient ++ outputs.filterMap ApOutput.frame?
        pmksas := w.pmksas ++ outputs.filterMap ApOutput.pmksa? }
  | .client env =>
    match w.toClient with
    | [] => some w
    | frame :: rest =>
      { w with toClient := rest }.clientStep cl
        (.auth ⟨ap.ownAddr, Sme.wlanAuthSae, frame.transaction, frame.status, frame.body⟩ env)

/-- The turns one after the other, unless one ends in a fault. -/
def World.run (w : World) (turns : List Turn) : Option World := turns.foldlM (World.turn ap cl) w

variable {ap cl} {w : World}

theorem World.clientStep_of_yields {inp : Sme.Input} {s : Sme.State} {frames : List Frame}
    (h : (Sme.step cl w.client inp).Yields Sme.Event.output s frames) :
    w.clientStep cl inp = some { w with client := s, toAp := w.toAp ++ frames } := by
  simp only [World.clientStep, Run.valueOf_of_result h.result, h.seen]
  rfl

theorem World.turn_ap {inp : Input} {frame : Frame} {rest frames : List Frame} {sta : Option SaeData}
    {outputs : List ApOutput} {added : List (Bytes × Bytes)} (hframe : w.toAp = frame :: rest)
    (h : (handleAuthSae ap w.station { inp with toFrame := frame }).Yields Event.output sta outputs)
    (hframes : outputs.filterMap ApOutput.frame? = frames) (hadded : outputs.filterMap ApOutput.pmksa? = added) :
    w.turn ap cl (.ap inp) = some { w with
      station := sta, toAp := rest, toClient := w.toClient ++ frames, pmksas := w.pmksas ++ added } := by
  simp only [World.turn, hframe, Run.valueOf_of_result h.result, h.seen, hframes, hadded]
  rfl

end Turns

/-! ## The turns of the access point -/

/-- The access point offers what the setting says: SAE without hash-to-element, the groups, and a password without a
VLAN, and it confirms after the client. Nothing fails while it handles the two frames of the client, with the inputs
`commit` and `confirm`. -/
structure Serves (s : Setting) (ap : Ap) (commit confirm : Input) : Prop where
  host : ap.host = s.ap
  ownAddr : ap.ownAddr = s.apAddr
  staAddr : ap.staAddr = s.clientAddr
  groups : s.apAllowed = some ap.conf.groups
  akmp : s.apAkmp = .unset
  status : saeStatusSuccess ap.conf .success = true
  password : ∃ pts, saeGetPassword ap none = some (0, pts)
  waits : ap.conf.saeConfirmImmediate = false
  draws : commit.draws = s.apDraws
  antiClogging : commit.antiClogging = false
  commitSent : commit.commitSent = true
  confirmSent : confirm.confirmSent = true
  vlanOk : confirm.vlanOk = true

/-! ### The first frame of a station -/

/-- A commit starts with its group. -/
theorem saeWriteCommit_group {sae sae' : SaeData} {token identifier : Option Bytes} {frame : Bytes}
    (h : saeWriteCommit sae token identifier = some (sae', frame)) : ∃ rest, frame = Bytes.le16 sae.group ++ rest := by
  unfold saeWriteCommit at h
  obtain ⟨tmp, -, h⟩ := Option.bind_eq_some_iff.1 h
  obtain ⟨own, -, h⟩ := Option.bind_eq_some_iff.1 h
  obtain ⟨scalar, -, h⟩ := Option.bind_eq_some_iff.1 h
  dsimp only at h
  split at h
  all_goals
    obtain ⟨element, -, h⟩ := Option.bind_eq_some_iff.1 h
    cases h
    exact ⟨_, by simp only [List.append_assoc]; rfl⟩

theorem suitable_ne_zero {group : ℕ} (h : dragonflySuitableGroup group false = true) : group ≠ 0 := by
  rintro rfl
  exact absurd h (by decide)

theorem saeSetGroup_newTmp {host : Host} {ec : EcGroup} {group : ℕ} {sae : SaeData}
    (hg : dragonflySuitableGroup group false = true) (hec : host.ecInit group = some ec) :
    saeSetGroup host sae group = ({ group := group, noPwId := sae.noPwId, tmp := some (newTmp host ec) }, true) := by
  unfold saeSetGroup
  rw [if_neg (by simp [hg])]
  dsimp only
  rw [hec]
  rfl

section First

variable {host : Host} {ec : EcGroup} {group : ℕ} {allowed : Option (List ℤ)} {noPwId : Bool}
  (hg : dragonflySuitableGroup group false = true) (hec : host.ecInit group = some ec)
  (hallowed : (allowed.map (groupListed group)).getD true = true)
include hg hec hallowed

/-- The first commit of a station selects the group. -/
theorem saeGroupAllowed_first : saeGroupAllowed host { noPwId := noPwId } allowed group =
    ((newInstance host group .unset).label .nothing noPwId, .success) := by
  unfold saeGroupAllowed
  rw [if_neg (by simp [hallowed]), if_neg (by simp), if_pos (suitable_ne_zero hg), saeSetGroup_newTmp hg hec,
    newInstance_eq hg hec]
  rfl

/-- The first commit of a station is parsed as by an instance that has selected the group. -/
theorem saeParseCommit_first {rest : Bytes} {received : SaeData} {status : Status} {token : Option Bytes}
    (h : saeParseCommit host (newInstance host group .unset) (Bytes.le16 group ++ rest) allowed false =
      ⟨received, status, token⟩) :
    saeParseCommit host { noPwId := noPwId } (Bytes.le16 group ++ rest) allowed false =
      ⟨received.label .nothing noPwId, status, token⟩ := by
  have hsel := selected_newTmp hg host ec .unset
  have hgroup := Bytes.getLe16_le16_append hsel.group_lt rest
  have hsame : saeGroupAllowed host (newInstance host group .unset) allowed (Bytes.getLe16 (Bytes.le16 group ++ rest)) =
      (newInstance host group .unset, .success) := by
    rw [hgroup, newInstance_eq hg hec]
    exact saeGroupAllowed_same hsel hallowed
  have hfirst : saeGroupAllowed host { noPwId := noPwId } allowed (Bytes.getLe16 (Bytes.le16 group ++ rest)) =
      ((newInstance host group .unset).label .nothing noPwId, .success) := by
    rw [hgroup]
    exact saeGroupAllowed_first hg hec hallowed
  have htmp : (newInstance host group .unset).tmp = some (newTmp host ec) := by rw [newInstance_eq hg hec]
  have hstate : (newInstance host group .unset).state = .nothing := by rw [newInstance_eq hg hec]
  rw [saeParseCommit_eq_parseFields host (by simp) hsame htmp] at h
  rw [saeParseCommit_eq_parseFields host (by simp) hfirst htmp, ← hstate, parseFields_label, h]

end First

/-! ### The commit -/

/-- The input with a frame of the client in it. -/
def Input.deliver (inp : Input) (transaction : ℕ) (body : Bytes) : Input :=
  { inp with toFrame := ⟨transaction, .success, body⟩ }

/-- The instance that has sent the commit has no flags of hash-to-element set, and no identifier to bind. -/
theorem Runs.apSent_plain {s : Setting} {t : Trace} (h : Runs s t) : t.apSent.h2e = false ∧ t.apSent.pk = false ∧
    ∃ tmp, t.apSent.tmp = some tmp ∧ tmp.parsedPwId = none := by
  obtain ⟨pwe, out, hc⟩ := h.clientCommit
  obtain ⟨tmp, out', values, ha⟩ := h.apCommit hc
  rw [ha.sent, hc.received]
  exact ⟨rfl, rfl, _, rfl, (congrArg SaeTmp.parsedPwId ha.prepared.frame :)⟩

section Commit

variable {s : Setting} {t : Trace} {ap : Ap} {commit confirm : Input} (hs : Serves s ap commit confirm) (h : Runs s t)
include hs h

/-- The commit of the client reaches the state machine. -/
theorem Serves.commitGate_eq (noPwId : Bool) : commitGate ap (commit.deliver 1 t.clientCommit) { noPwId := noPwId } =
    .step (t.apReceived.label .nothing noPwId) false := by
  obtain ⟨pwe, out, hc⟩ := h.clientCommit
  obtain ⟨rest, hrest⟩ := saeWriteCommit_group h.clientWrites
  have hgroup : t.clientPrepared.group = s.group := by
    have hprepares := h.clientPrepares
    rw [newInstance_eq s.suitable s.client_ec] at hprepares
    obtain ⟨_, _, -, -, hprepared⟩ :=
      saePrepareCommit_ecc (selected_newTmp s.suitable s.client s.ec s.clientAkmp) hprepares
    rw [hprepared]
  have hparse := h.apParses
  rw [hrest, hgroup, hs.akmp] at hparse
  have hfirst : saeParseCommit s.ap { noPwId := noPwId } _ _ false = _ :=
    saeParseCommit_first s.suitable s.ap_ec s.ap_allows hparse
  rw [← hgroup, ← hrest, hs.groups, ← hs.host] at hfirst
  have hrejected : checkSaeRejectedGroups ap.conf (t.apReceived.label .nothing noPwId) = false := by
    rw [hc.received]
    rfl
  have hgate : gateParsed ap (commit.deliver 1 t.clientCommit) false
      ⟨t.apReceived.label .nothing noPwId, .success, none⟩ = .step (t.apReceived.label .nothing noPwId) false := by
    simp [gateParsed, hrejected, Input.deliver, hs.antiClogging, show Status.success ≠ .saeSilentlyDiscard by decide,
      show Status.success ≠ .unknownPasswordIdentifier by decide]
  unfold commitGate
  rw [if_neg (by simp [Input.deliver, hs.status]), if_neg (by simp [saeProtoInstanceDisabled])]
  rw [← hgate, ← hfirst]
  rfl

/-- The access point prepares and writes its commit. -/
theorem Serves.authBuildSaeCommit_yields (noPwId : Bool) :
    (authBuildSaeCommit ap true .success commit.draws (t.apReceived.label .nothing noPwId)).Yields Event.output
      (t.apSent.label .nothing noPwId, some t.apCommit) [] := by
  obtain ⟨pwe, out, hc⟩ := h.clientCommit
  obtain ⟨pts, hpts⟩ := hs.password
  have hrx : rxPwId (t.apReceived.label .nothing noPwId) = none := by
    rw [hc.received]
    rfl
  have hpt : usePt ap.conf (t.apReceived.label .nothing noPwId) .success = false := by simp [usePt, hrx]
  have hprepare : (prepareForSend ap true .success pts commit.draws (t.apReceived.label .nothing noPwId)).result =
      .ok (t.apPrepared.label .nothing noPwId, true) := by
    rw [prepareForSend, if_neg (by simp), if_neg (by simp [hpt]), hs.host, hs.ownAddr, hs.staAddr, hs.draws,
      saeApPrepareCommit_label]
    exact Run.mapValue_ok _ h.apPrepares
  have hwrite : (saeApWriteCommit ap.host saeCommitMaxLen none (t.apPrepared.label .nothing noPwId)).result =
      .ok (t.apSent.label .nothing noPwId, some t.apCommit) := by
    rw [hs.host, saeApWriteCommit_label]
    exact Run.mapValue_ok _ h.apWrites
  refine Run.Yields.silent ?_ fun e he => ?_
  · unfold authBuildSaeCommit
    simp only [hrx, Option.map_none, hpts, hpt, Bool.false_eq_true, false_and, if_false]
    refine Run.bind_result_ok.2 ⟨_, hprepare, ?_⟩
    simpa [noteVlan] using hwrite
  · obtain ⟨⟨group, u, v, elements, rfl⟩, -⟩ := (authBuildSaeCommit_sat true .success commit.draws).event e he
    rfl

theorem Serves.authSaeSendCommit_yields (noPwId : Bool) :
    (authSaeSendCommit ap (commit.deliver 1 t.clientCommit) true (t.apReceived.label .nothing noPwId)).Yields Event.output
      (t.apSent.label .nothing noPwId, .success) [.frame ⟨1, .success, t.apCommit⟩] := by
  obtain ⟨hh2e, hpk, -⟩ := h.apSent_plain
  have hstatus : commitStatus (t.apSent.label .nothing noPwId) = .success := by
    simp [commitStatus, SaeData.label, hh2e, hpk]
  refine (hs.authBuildSaeCommit_yields h noPwId).bind ?_
  dsimp only
  rw [hstatus, show (commit.deliver 1 t.clientCommit).commitSent = true from hs.commitSent]
  exact (Run.Yields.emit _).bind (Run.Yields.pure _)

/-- The station's instance after the access point has answered the commit. -/
def Trace.answered (t : Trace) (noPwId : Bool) : SaeData := { t.apProcessed.label .committed noPwId with sync := 0 }

theorem Serves.commitInNothing_yields (noPwId : Bool) :
    (commitInNothing ap (commit.deliver 1 t.clientCommit) false (t.apReceived.label .nothing noPwId)).Yields Event.output
      (t.answered noPwId, .success) [.frame ⟨1, .success, t.apCommit⟩] := by
  obtain ⟨pwe, out, hc⟩ := h.clientCommit
  obtain ⟨-, -, tmp, htmp, hid⟩ := h.apSent_plain
  have hflags : (if (t.apReceived.label .nothing noPwId).tmp.isSome then { t.apReceived.label .nothing noPwId with
      h2e := isH2e (commit.deliver 1 t.clientCommit).status
      pk := (commit.deliver 1 t.clientCommit).status = .saePk } else t.apReceived.label .nothing noPwId) =
      t.apReceived.label .nothing noPwId := by
    rw [hc.received]
    rfl
  have hbind : { bindPwId (t.apSent.label .nothing noPwId) with state := .committed } =
      t.apSent.label .committed noPwId := by
    simp only [bindPwId, SaeData.label, htmp, Option.map_some, hid, Option.isSome_none, Bool.false_eq_true, false_and,
      if_false]
  have hprocess : (saeApProcessCommit ap.host (t.apSent.label .committed noPwId)).Yields Event.output
      (t.apProcessed.label .committed noPwId, true) [] := by
    refine Run.Yields.silent ?_ fun e he => ?_
    · rw [hs.host, saeApProcessCommit_label]
      exact Run.mapValue_ok _ h.apProcesses
    · obtain ⟨ok, rfl⟩ := saeApProcessCommit_sat.event e he
      rfl
  unfold commitInNothing
  rw [hflags]
  refine (hs.authSaeSendCommit_yields h noPwId).bind_silent ?_
  dsimp only
  rw [if_neg (by simp), hbind]
  refine hprocess.bind_silent ?_
  simp only [Bool.not_true, Bool.false_eq_true, if_false, hs.waits]
  exact Run.Yields.pure _

/-- **The access point answers the commit of the client** with its own. -/
theorem Serves.commit_yields : (handleAuthSae ap none (commit.deliver 1 t.clientCommit)).Yields Event.output
    (some (t.answered (ap.conf.saePwIdInUse = 0))) [.frame ⟨1, .success, t.apCommit⟩] := by
  have hopen : openInstance ap none (commit.deliver 1 t.clientCommit) =
      some { noPwId := ap.conf.saePwIdInUse = 0 } := if_pos ⟨rfl, hs.status⟩
  have hstep : smStepCommit ap (commit.deliver 1 t.clientCommit) false
      (t.apReceived.label .nothing (ap.conf.saePwIdInUse = 0)) =
        commitInNothing ap (commit.deliver 1 t.clientCommit) false
          (t.apReceived.label .nothing (ap.conf.saePwIdInUse = 0)) := by
    obtain ⟨pwe, out, hc⟩ := h.clientCommit
    rw [hc.received]
    rfl
  unfold handleAuthSae
  rw [hopen]
  dsimp only
  rw [if_pos (show (commit.deliver 1 t.clientCommit).transaction = 1 from rfl), handleCommit, hs.commitGate_eq h]
  dsimp only
  rw [hstep]
  refine ((hs.commitInNothing_yields h _).bind_silent ?_).bind_silent (Run.Yields.pure _)
  exact (Run.Yields.pure ()).bind (Run.Yields.pure _)

end Commit

end DecoyAuth
