import DecoyAuth.Crypto.Ec
import DecoyAuth.Crypto.Hash
import DecoyAuth.Lib.Run

/-!
# The data of one SAE instance

`struct sae_data` and `struct sae_temporary_data` of `sae.h` with the functions that select a group and clear the data.
The arrays with one entry per password are `Table`s: a pointer that was never set, an allocated array whose entries may
not be set yet, or a dangling pointer to memory that was freed. Reading what is not there is a `Fault`.

Left out: the SAE-PK fields, which are not compiled in, and the anti-clogging token to be sent, which only a mesh
instance has. Allocations of fixed size succeed.
-/

namespace DecoyAuth

/-- The bytes of an ASCII string constant. -/
def ascii (s : String) : Bytes := s.toList.map fun c => UInt8.ofNat c.toNat

/-! ## Status codes -/

abbrev Status := ℕ

namespace Status

def success : Status := 0
def unspecifiedFailure : Status := 1
def unknownAuthTransaction : Status := 14
def challengeFail : Status := 15
def antiCloggingTokenReq : Status := 76
def finiteCyclicGroupNotSupported : Status := 77
def unknownPasswordIdentifier : Status := 123
def saeHashToElement : Status := 126
def saePk : Status := 127
def saeSilentlyDiscard : Status := 65535

end Status

/-! ## Tables -/

inductive TableId
  | keys
  | pweEccs
  | ownCommitElementEccs
  | uCoefficients
  | vCoefficients
deriving DecidableEq, Repr

/-- What the code does outside its data: it follows a pointer that is `NULL`, was never set or was freed, runs off an
array, uses the result of `point_to_values` when there is none, or overflows a `wpabuf` (which aborts). -/
inductive Fault
  | nullTmp
  | nullEc
  | nullArgument
  | unset (t : TableId)
  | released (t : TableId)
  | outOfBounds (t : TableId)
  | noEncoding
  | bufferOverflow
deriving DecidableEq, Repr

inductive Table (α : Type)
  | unset
  | live (entries : List (Option α))
  | released
deriving DecidableEq, Repr

namespace Table

variable {α : Type}

/-- A fresh array of `n` entries. -/
def alloc (n : ℕ) : Table α := .live (List.replicate n none)

/-- The pointer in an entry, which may be `NULL`. -/
def slot (id : TableId) (i : ℕ) : Table α → Except Fault (Option α)
  | .unset => .error (.unset id)
  | .released => .error (.released id)
  | .live entries =>
    match entries[i]? with
    | none => .error (.outOfBounds id)
    | some entry => .ok entry

/-- The value in an entry, which must have been set. -/
def read (id : TableId) (i : ℕ) (t : Table α) : Except Fault α :=
  match t.slot id i with
  | .error f => .error f
  | .ok none => .error (.unset id)
  | .ok (some a) => .ok a

/-- Store a pointer, which may be `NULL`. -/
def write (id : TableId) (i : ℕ) (a : Option α) : Table α → Except Fault (Table α)
  | .unset => .error (.unset id)
  | .released => .error (.released id)
  | .live entries => if i < entries.length then .ok (.live (entries.set i a)) else .error (.outOfBounds id)

end Table

/-- An argument that must not be `NULL`. -/
def need {α : Type} : Option α → Except Fault α
  | some a => .ok a
  | none => .error .nullArgument

/-- What a run of the access point's instance reports: a call of `sae_ap_write_commit` with the group of the instance and
the arrays it was called on, the results of `sae_ap_process_commit` and `sae_ap_check_confirm`, a call of
`wpa_auth_pmksa_add_sae`, and a frame given to the driver. -/
inductive Event
  | writeCommit (ec : Option EcGroup) (uCoefficients vCoefficients : Table ℤ) (ownCommitElementEccs : Table EcPoint)
  | processCommit (ok : Bool)
  | checkConfirm (ok : Bool)
  | pmksaAdd (pmk pmkid : Bytes)
  | reply (transaction : ℕ) (status : Status) (body : Bytes)
deriving DecidableEq, Repr

abbrev ApRun := Run Event Fault

/-! ## Instances -/

/-- An entry of `dh_groups.c`. -/
structure DhGroup where
  prime : Bytes
  order : Bytes
  safePrime : Bool

/-- One index of `kcks`, `pmks`, `pmkids`, `kck_lens` and `pmk_lens`, which are allocated, filled and freed together. -/
structure KeyEntry where
  kck : Bytes
  pmk : Bytes
  pmkid : Bytes
deriving DecidableEq, Repr

inductive Akmp
  | unset
  | sae
  | ftSae
  | saeExtKey
  | ftSaeExtKey
deriving DecidableEq, Repr

/-- `wpa_key_mgmt_sae_ext_key` -/
def Akmp.isSaeExtKey (a : Akmp) : Bool := a = .saeExtKey || a = .ftSaeExtKey

def rsnAuthKeyMgmtSaeExtKey : ℕ := 0x000fac18
def rsnAuthKeyMgmtFtSaeExtKey : ℕ := 0x000fac19

/-- `wpa_akm_to_suite`, for the two values that `sae.c` asks for. -/
def Akmp.toSuite : Akmp → ℕ
  | .saeExtKey => rsnAuthKeyMgmtSaeExtKey
  | .ftSaeExtKey => rsnAuthKeyMgmtFtSaeExtKey
  | _ => 0

structure SaeTmp where
  kck : Bytes := []
  keys : Table KeyEntry := .unset
  numPasswords : ℤ := 0
  uCoefficients : Table ℤ := .unset
  vCoefficients : Table ℤ := .unset
  ownCommitScalar : Option ℤ := none
  ownCommitElementFfc : Option ℤ := none
  ownCommitElementEcc : Option EcPoint := none
  ownCommitElementEccs : Table EcPoint := .unset
  peerCommitElementFfc : Option ℤ := none
  peerCommitElementEcc : Option EcPoint := none
  pweEcc : Option EcPoint := none
  pweEccs : Table EcPoint := .unset
  pweFfc : Option ℤ := none
  saeRand : Option ℤ := none
  ec : Option EcGroup := none
  dh : Option DhGroup := none
  primeLen : ℕ := 0
  orderLen : ℕ := 0
  prime : ℤ := 0
  order : ℤ := 0
  pwId : Option Bytes := none
  parsedPwId : Option Bytes := none
  vlanId : ℕ := 0
  ownRejectedGroups : Option Bytes := none
  peerRejectedGroups : Option Bytes := none
  ownAddrHigher : Bool := false
  disabledUntil : Option ℕ := none

inductive SaeState
  | nothing
  | committed
  | confirmed
  | accepted
deriving DecidableEq, Repr

/-- `processed` is a history variable that the code does not have: a commit has been processed since the data was created
or cleared. -/
structure SaeData where
  state : SaeState := .nothing
  sendConfirm : ℕ := 0
  pmk : Bytes := []
  akmp : Akmp := .unset
  ownAkmSuiteSelector : ℕ := 0
  peerAkmSuiteSelector : ℕ := 0
  pmkid : Bytes := []
  peerCommitScalar : Option ℤ := none
  peerCommitScalarAccepted : Option ℤ := none
  group : ℕ := 0
  sync : ℕ := 0
  rc : ℕ := 0
  h2e : Bool := false
  pk : Bool := false
  noPwId : Bool := false
  tmp : Option SaeTmp := none
  processed : Bool := false

/-- What an instance takes from its host: the crypto library, the byte order, and the list of passwords. hostap has the
sixteen passwords of `hostapPasswords`. -/
structure Host where
  hash : HashFns
  ecInit : ℕ → Option EcGroup
  dhGet : ℕ → Option DhGroup
  byteOrder : Bytes.ByteOrder
  passwords : List Bytes
  two_le_passwords : 2 ≤ passwords.length

/-- `"PASSWORD_%d"` for the indexes below `num_passwords`. -/
def hostapPasswords : List Bytes :=
  (List.range 16).map fun i => ascii "PASSWORD_" ++ (Nat.toDigits 10 i).map fun c => UInt8.ofNat c.toNat

/-! ## Selecting a group -/

def dragonflySuitableGroup (group : ℕ) (eccOnly : Bool) : Bool :=
  group = 19 || group = 20 || group = 21 || (!eccOnly && (group = 15 || group = 16 || group = 17 || group = 18))

/-- `sae_clear_temp_data` -/
def SaeData.clearTempData (sae : SaeData) : SaeData :=
  match sae.tmp with
  | none => sae
  | some _ => { sae with tmp := none, processed := false }

/-- `sae_clear_data` -/
def SaeData.clearData (sae : SaeData) : SaeData := { noPwId := sae.noPwId }

def saeMaxPrimeLen : ℕ := 512

/-- `sae_set_group`. A group that the crypto library does not have leaves fresh temporary data behind. -/
def saeSetGroup (host : Host) (sae : SaeData) (group : ℕ) : SaeData × Bool :=
  if !dragonflySuitableGroup group false then (sae, false)
  else
    let sae := sae.clearData
    let n := host.passwords.length
    let tmp : SaeTmp := { numPasswords := n, pweEccs := .alloc n, ownCommitElementEccs := .alloc n }
    match host.ecInit group with
    | some ec =>
      let tmp := { tmp with
        ec := some ec
        primeLen := Bytes.numBytes ec.prime
        prime := ec.prime
        orderLen := Bytes.numBytes ec.order
        order := ec.order }
      ({ sae with group := group, tmp := some tmp }, true)
    | none =>
      match host.dhGet group with
      | some dh =>
        if dh.prime.length > saeMaxPrimeLen then (sae, false)
        else
          let tmp := { tmp with
            dh := some dh
            primeLen := dh.prime.length
            prime := Bytes.ofBe dh.prime
            orderLen := dh.order.length
            order := Bytes.ofBe dh.order }
          ({ sae with group := group, tmp := some tmp }, true)
      | none => ({ sae with tmp := some tmp }, false)

/-- The search of `sae_group_allowed` through an array that ends with a value that is not positive. -/
def groupListed (group : ℕ) : List ℤ → Bool
  | [] => false
  | g :: gs => if g > 0 ∧ g ≠ group then groupListed group gs else g = group

/-- `sae_group_allowed` -/
def saeGroupAllowed (host : Host) (sae : SaeData) (allowedGroups : Option (List ℤ)) (group : ℕ) : SaeData × Status :=
  if (allowedGroups.map (groupListed group)).getD true = false then (sae, .finiteCyclicGroupNotSupported)
  else if sae.state = .committed ∧ group ≠ sae.group then (sae, .finiteCyclicGroupNotSupported)
  else
    let (sae, ok) := if group ≠ sae.group then saeSetGroup host sae group else (sae, true)
    if !ok then (sae, .finiteCyclicGroupNotSupported)
    else
      match sae.tmp with
      | none => (sae, .unspecifiedFailure)
      | some tmp =>
        if tmp.dh.isSome ∧ allowedGroups.isNone then (sae, .finiteCyclicGroupNotSupported) else (sae, .success)

end DecoyAuth
