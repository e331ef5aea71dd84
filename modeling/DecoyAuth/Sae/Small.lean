import DecoyAuth.Crypto.Small
import DecoyAuth.Sae.Parse

/-!
# A small host

The parameters of an instance are satisfiable: the small curve, a checksum in place of the hash functions, and two
passwords. Concrete runs of the model are runs on this host, because the kernel can evaluate them.
-/

namespace DecoyAuth.Small

/-- A checksum of a message. -/
def checksum (bs : Bytes) : ℕ := bs.foldl (fun acc b => (acc * 263 + b.toNat + 17) % 65521) 1

/-- A digest of the given length from a checksum. -/
def digest (len h : ℕ) : Bytes := (List.range len).map fun i => UInt8.ofNat (h * (2 * i + 3) / 7 + i * 29 + h / 5)

def hash : HashFns where
  sha256 m := digest 32 (checksum m)
  hmac len key m := digest len (checksum (key ++ m))
  length_sha256 m := by simp [digest]
  length_hmac len key m := by simp [digest]

/-- The curve is group 19. -/
def host : Host where
  hash := hash
  ecInit g := if g = 19 then some group else none
  dhGet _ := none
  byteOrder := .little
  passwords := hostapPasswords.take 2
  two_le_passwords := by decide

def addr (n : UInt8) : MacAddr := ⟨[2, 0, 0, 0, 0, n], rfl⟩

/-- The draws of a commit: the scalar comes from `seed`, and the encodings from values that succeed at once. -/
def draws (seed : ℕ) : CommitDraws where
  scalar _ := (some (seed + 4), some 3)
  pwe _ := ⟨[2, 5], [1, 2, 3], fun _ => some 0⟩
  encode i _ := if i = 0 then ⟨some 6, some 0⟩ else ⟨some 2, some 2⟩

/-- An access point that has woven two pairs of values over the hashes 3 and 5. -/
def readyTmp (us vs : List ℤ) : SaeTmp where
  numPasswords := 2
  primeLen := 1
  ownCommitScalar := some 8
  uCoefficients := cryptoWeave params [3, 5] us
  vCoefficients := cryptoWeave params [3, 5] vs

def ready (us vs : List ℤ) : SaeData := { group := 19, tmp := some (readyTmp us vs) }

/-- The commit that it writes. -/
def written (us vs : List ℤ) : Option Bytes := (saeApWriteCommit host 64 none (ready us vs)).valueOf.bind Prod.snd

theorem exists_of_written {us vs : List ℤ} {frame : Bytes} (h : written us vs = some frame) :
    ∃ sae, (saeApWriteCommit host 64 none (ready us vs)).result = .ok (sae, some frame) := by
  obtain ⟨⟨sae, out⟩, hr, rfl⟩ := Option.bind_eq_some_iff.1 h
  exact ⟨sae, Run.result_of_valueOf hr⟩

/-- A client that has selected the small group. -/
def client : SaeData := (saeSetGroup host {} 19).1

/-- The client's parser on a frame, with one of the passwords and where no allocation fails. -/
def parse (frame : Bytes) : ParserRun (SaeData × Status) :=
  saeApParseCommit host ⟨[], true, true⟩ (ascii "PASSWORD_0") client frame none false

/-- The status and the element after the client's parser. -/
def parsedElement (frame : Bytes) : Option (Status × Option EcPoint) :=
  (parse frame).valueOf.map fun r => (r.2, r.1.tmp.bind SaeTmp.peerCommitElementEcc)

theorem exists_of_parsedElement {frame : Bytes} {status : Status} {element : Option EcPoint}
    (h : parsedElement frame = some (status, element)) :
    ∃ sae, (parse frame).result = .ok (sae, status) ∧ sae.tmp.bind SaeTmp.peerCommitElementEcc = element := by
  obtain ⟨⟨sae, st⟩, hr, heq⟩ := Option.map_eq_some_iff.1 h
  cases heq
  exact ⟨sae, Run.result_of_valueOf hr, rfl⟩

end DecoyAuth.Small
