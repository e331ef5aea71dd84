import DecoyAuth.Sae.Keys
import DecoyAuth.Sae.Parse

/-!
# A handshake between an access point and an honest client

The exchange of `sae.c` from two new instances to the confirm of the client, in the order in which `ieee802_11.c` and
`sme.c` call its functions. `Setting` is what the two parties are given, `Trace` the instances and frames on the way, and
`Runs` says that the trace is a run of the setting in which every call succeeds.
-/

namespace DecoyAuth

/-- An instance that has selected a group, for a peer that negotiated an AKM. -/
def newInstance (host : Host) (group : ℕ) (akmp : Akmp) : SaeData :=
  { (saeSetGroup host {} group).1 with akmp := akmp }

/-- What the parties are given: the hosts, which share the crypto library, an ECC group that both allow, the addresses, the
AKMs, none of which has extended keys, and the draws. The client has the password `index` of the access point. -/
structure Setting where
  ap : Host
  client : Host
  ec : EcGroup
  group : ℕ
  apAddr : MacAddr
  clientAddr : MacAddr
  apAkmp : Akmp
  clientAkmp : Akmp
  apAllowed : Option (List ℤ)
  clientAllowed : Option (List ℤ)
  apDraws : CommitDraws
  clientDraws : CommitDraws
  env : Surroundings
  index : ℕ
  hash_eq : client.hash = ap.hash
  ap_ec : ap.ecInit group = some ec
  client_ec : client.ecInit group = some ec
  suitable : dragonflySuitableGroup group false = true
  apAkmp_plain : apAkmp.isSaeExtKey = false
  clientAkmp_plain : clientAkmp.isSaeExtKey = false
  ap_allows : (apAllowed.map (groupListed group)).getD true = true
  client_allows : (clientAllowed.map (groupListed group)).getD true = true
  index_lt : index < ap.passwords.length

/-- The client's password. -/
def Setting.password (s : Setting) : Bytes := s.ap.passwords.getD s.index []

/-- The instances after each call, and the frames. -/
structure Trace where
  clientPrepared : SaeData
  clientSent : SaeData
  clientCommit : Bytes
  apReceived : SaeData
  apPrepared : SaeData
  apSent : SaeData
  apCommit : Bytes
  apProcessed : SaeData
  clientReceived : SaeData
  clientProcessed : SaeData
  clientConfirmed : SaeData
  confirm : Bytes

/-- Every call succeeds. That of `dragonfly_generate_scalar` is listed because `sae_ap_prepare_commit` goes on without
it. -/
structure Runs (s : Setting) (t : Trace) : Prop where
  clientPrepares : saePrepareCommit s.client s.clientAddr s.apAddr s.password s.clientDraws
    (newInstance s.client s.group s.clientAkmp) = (t.clientPrepared, true)
  clientWrites : saeWriteCommit t.clientPrepared none none = some (t.clientSent, t.clientCommit)
  apParses : saeParseCommit s.ap (newInstance s.ap s.group s.apAkmp) t.clientCommit s.apAllowed false =
    ⟨t.apReceived, .success, none⟩
  apDraws : ∀ tmp, t.apReceived.tmp = some tmp → (generateScalar tmp s.apDraws).2 = true
  apPrepares : (saeApPrepareCommit s.ap s.apAddr s.clientAddr s.apDraws t.apReceived).result = .ok (t.apPrepared, true)
  apWrites : (saeApWriteCommit s.ap saeCommitMaxLen none t.apPrepared).result = .ok (t.apSent, some t.apCommit)
  apProcesses : (saeApProcessCommit s.ap t.apSent).result = .ok (t.apProcessed, true)
  clientParses : (saeApParseCommit s.client s.env s.password t.clientSent t.apCommit s.clientAllowed false).result =
    .ok (t.clientReceived, .success)
  clientProcesses : saeProcessCommit s.client t.clientReceived = some t.clientProcessed
  clientConfirms : saeWriteConfirm s.client t.clientProcessed = .ok (t.clientConfirmed, some t.confirm)

/-- The run of a setting, unless a call fails. -/
def Setting.run (s : Setting) : Option Trace := do
  let (clientPrepared, prepared) := saePrepareCommit s.client s.clientAddr s.apAddr s.password s.clientDraws
    (newInstance s.client s.group s.clientAkmp)
  guard prepared
  let (clientSent, clientCommit) ← saeWriteCommit clientPrepared none none
  let parsed := saeParseCommit s.ap (newInstance s.ap s.group s.apAkmp) clientCommit s.apAllowed false
  guard (parsed.status = .success ∧ parsed.token = none)
  let apTmp ← parsed.sae.tmp
  guard (generateScalar apTmp s.apDraws).2
  let (apPrepared, prepared) ← (saeApPrepareCommit s.ap s.apAddr s.clientAddr s.apDraws parsed.sae).valueOf
  guard prepared
  let (apSent, apCommit) ← (saeApWriteCommit s.ap saeCommitMaxLen none apPrepared).valueOf
  let apCommit ← apCommit
  let (apProcessed, processed) ← (saeApProcessCommit s.ap apSent).valueOf
  guard processed
  let (clientReceived, status) ←
    (saeApParseCommit s.client s.env s.password clientSent apCommit s.clientAllowed false).valueOf
  guard (status = .success)
  let clientProcessed ← saeProcessCommit s.client clientReceived
  let (clientConfirmed, confirm) ← (saeWriteConfirm s.client clientProcessed).toOption
  let confirm ← confirm
  return ⟨clientPrepared, clientSent, clientCommit, parsed.sae, apPrepared, apSent, apCommit, apProcessed, clientReceived,
    clientProcessed, clientConfirmed, confirm⟩

theorem runs_of_run {s : Setting} {t : Trace} (h : s.run = some t) : Runs s t := by
  unfold Setting.run at h
  obtain ⟨_, hprepared, h⟩ := Option.bind_eq_some_iff.1 h
  obtain ⟨⟨clientSent, clientCommit⟩, hsent, h⟩ := Option.bind_eq_some_iff.1 h
  obtain ⟨_, hparsed, h⟩ := Option.bind_eq_some_iff.1 h
  obtain ⟨apTmp, hapTmp, h⟩ := Option.bind_eq_some_iff.1 h
  obtain ⟨_, hdraws, h⟩ := Option.bind_eq_some_iff.1 h
  obtain ⟨⟨apPrepared, prepared⟩, hapPrepared, h⟩ := Option.bind_eq_some_iff.1 h
  obtain ⟨_, hok, h⟩ := Option.bind_eq_some_iff.1 h
  obtain ⟨⟨apSent, apCommit'⟩, hapSent, h⟩ := Option.bind_eq_some_iff.1 h
  obtain ⟨apCommit, hapCommit, h⟩ := Option.bind_eq_some_iff.1 h
  obtain ⟨⟨apProcessed, processed⟩, hapProcessed, h⟩ := Option.bind_eq_some_iff.1 h
  obtain ⟨_, hok', h⟩ := Option.bind_eq_some_iff.1 h
  obtain ⟨⟨clientReceived, status⟩, hreceived, h⟩ := Option.bind_eq_some_iff.1 h
  obtain ⟨_, hstatus, h⟩ := Option.bind_eq_some_iff.1 h
  obtain ⟨clientProcessed, hprocessed, h⟩ := Option.bind_eq_some_iff.1 h
  obtain ⟨⟨clientConfirmed, confirm'⟩, hconfirmed, h⟩ := Option.bind_eq_some_iff.1 h
  obtain ⟨confirm, hconfirm, h⟩ := Option.bind_eq_some_iff.1 h
  cases h
  simp only [Option.guard_eq_some'] at hprepared hparsed hdraws hok hok' hstatus
  subst hok hok' hstatus hapCommit hconfirm
  have hconfirms : saeWriteConfirm s.client clientProcessed = .ok (clientConfirmed, some confirm) := by
    cases hw : saeWriteConfirm s.client clientProcessed with
    | error f => rw [hw] at hconfirmed; cases hconfirmed
    | ok r => rw [hw] at hconfirmed; cases hconfirmed; rfl
  refine ⟨Prod.ext rfl hprepared, hsent, ?_, fun tmp ht => ?_, Run.result_of_valueOf hapPrepared,
    Run.result_of_valueOf hapSent, Run.result_of_valueOf hapProcessed, Run.result_of_valueOf hreceived, hprocessed,
    hconfirms⟩
  · obtain ⟨hstatus, htoken⟩ := hparsed
    rw [← hstatus, ← htoken]
  · rw [hapTmp] at ht
    cases ht
    exact hdraws

end DecoyAuth
