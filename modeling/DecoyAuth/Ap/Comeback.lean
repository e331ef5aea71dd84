import DecoyAuth.Sae.Small
import Mathlib.Data.Finset.Insert

/-!
# Anti-clogging tokens

`comeback_token.c`: a station that is asked for a token has to send it back before the access point does any expensive
work for it. The token is keyed with a random key that lives for a minute, and the access point remembers an index for each
of 256 hash values of addresses.

`auth_build_token_req` gets the last index by value, so that the caller's copy never changes and every index is 1. The
indices say no more than a set of hash values: `Outstanding` is the mechanism without them, and **`comeback_refines`** says
that every run of the code answers as it does. So all tokens of an address under one key are equal, and a token that was
used is accepted again (`used_token_accepted_again`).
-/

namespace DecoyAuth

/-- The fields of `struct hostapd_data`. The time is in seconds, and zero if there was no update; the array has an entry
for each value of a byte. -/
structure Comeback where
  key : Bytes := List.replicate 8 0
  lastUpdate : ℕ := 0
  idx : ℕ := 0
  pending : UInt8 → ℕ := fun _ => 0

section Code

variable (H : HashFns)

/-- `comeback_token_hash` -/
def comebackTokenHash (key : Bytes) (addr : MacAddr) : UInt8 := (H.hmac 32 key addr.1).headD 0

/-- `check_comeback_token` -/
def checkComebackToken (c : Comeback) (addr : MacAddr) (token : Bytes) : Comeback × Bool :=
  if token.length ≠ 32 then (c, false)
  else
    let idx := comebackTokenHash H c.key addr
    let tokenIdx := c.pending idx
    if tokenIdx = 0 ∨ tokenIdx ≠ Bytes.ofBe (token.take 2) then (c, false)
    else
      let mac := H.hmac 32 c.key (addr.1 ++ token.take 2)
      if token.drop 2 ≠ mac.drop 2 then (c, false)
      else ({ c with pending := Function.update c.pending idx 0 }, true)

/-- The key is new, older than a minute, or used up. -/
def Comeback.expired (c : Comeback) (now : ℕ) : Bool := c.lastUpdate = 0 || now - c.lastUpdate > 60 || c.idx = 0xffff

/-- The first part of `auth_build_token_req`: a new key if it is time for one. The result has the value of the parameter
`comeback_idx`, which is a copy of the caller's. -/
def renewKey (c : Comeback) (now : ℕ) (freshKey : Option Bytes) : Option (Comeback × ℕ) :=
  if c.expired now then
    freshKey.map fun key => ({ c with key := key, lastUpdate := now, pending := fun _ => 0 }, 0)
  else some (c, c.idx)

/-- The token of an address: the index, and what the index leaves of the digest. -/
def tokenFor (key : Bytes) (addr : MacAddr) (tokenIdx : ℕ) : Bytes :=
  Bytes.toBe 2 tokenIdx ++ (H.hmac 32 key (addr.1 ++ Bytes.toBe 2 tokenIdx)).drop 2

/-- The group, and the token, in a container for hash-to-element. -/
def tokenRequestBody (group : ℕ) (h2e : Bool) (token : Bytes) : Bytes :=
  (if group ≠ 0 then Bytes.le16 group else []) ++
    if h2e then extElement wlanEidExtAntiCloggingToken token else token

/-- `auth_build_token_req`; `none` if there is no new key. -/
def authBuildTokenReq (c : Comeback) (now : ℕ) (freshKey : Option Bytes) (group : ℕ) (addr : MacAddr) (h2e : Bool) :
    Comeback × Option Bytes :=
  match renewKey c now freshKey with
  | none => (c, none)
  | some (c, comebackIdx) =>
    let pIdx := comebackTokenHash H c.key addr
    let tokenIdx := if c.pending pIdx = 0 then comebackIdx + 1 else c.pending pIdx
    ({ c with pending := Function.update c.pending pIdx tokenIdx },
      some (tokenRequestBody group h2e (tokenFor H c.key addr tokenIdx)))

end Code

/-! ## The mechanism without indices -/

/-- A call of one of the two functions. -/
inductive ComebackCall
  | request (now : ℕ) (freshKey : Option Bytes) (group : ℕ) (addr : MacAddr) (h2e : Bool)
  | check (addr : MacAddr) (token : Bytes)

/-- What a call returns. -/
inductive ComebackAnswer
  | request (body : Option Bytes)
  | check (ok : Bool)
deriving DecidableEq, Repr

/-- The key, the time since when it is in use, and the hash values of the addresses with an outstanding token. -/
structure Outstanding where
  key : Bytes := List.replicate 8 0
  since : ℕ := 0
  hashes : Finset UInt8 := ∅

section Runs

variable (H : HashFns)

def Comeback.call (c : Comeback) : ComebackCall → Comeback × ComebackAnswer
  | .request now freshKey group addr h2e =>
    let (c, body) := authBuildTokenReq H c now freshKey group addr h2e
    (c, .request body)
  | .check addr token =>
    let (c, ok) := checkComebackToken H c addr token
    (c, .check ok)

/-- The one token of an address under the key. -/
def Outstanding.token (o : Outstanding) (addr : MacAddr) : Bytes := tokenFor H o.key addr 1

/-- A new key after a minute. -/
def Outstanding.renew (o : Outstanding) (now : ℕ) (freshKey : Option Bytes) : Option Outstanding :=
  if o.since = 0 ∨ now - o.since > 60 then freshKey.map fun key => ⟨key, now, ∅⟩ else some o

def Outstanding.request (o : Outstanding) (group : ℕ) (addr : MacAddr) (h2e : Bool) : Outstanding × Option Bytes :=
  ({ o with hashes := insert (comebackTokenHash H o.key addr) o.hashes },
    some (tokenRequestBody group h2e (o.token H addr)))

def Outstanding.call (o : Outstanding) : ComebackCall → Outstanding × ComebackAnswer
  | .request now freshKey group addr h2e =>
    match o.renew now freshKey with
    | none => (o, .request none)
    | some o =>
      let (o, body) := o.request H group addr h2e
      (o, .request body)
  | .check addr token =>
    let hash := comebackTokenHash H o.key addr
    if hash ∈ o.hashes ∧ token = o.token H addr then ({ o with hashes := o.hashes.erase hash }, .check true)
    else (o, .check false)

/-- The answers to a list of calls, and the state after them. -/
def callAll {σ : Type} (call : σ → ComebackCall → σ × ComebackAnswer) : σ → List ComebackCall → σ × List ComebackAnswer
  | s, [] => (s, [])
  | s, c :: cs =>
    let (s, answer) := call s c
    let (s, answers) := callAll call s cs
    (s, answer :: answers)

/-- The state of the access point after the calls. -/
def Comeback.after (calls : List ComebackCall) : Comeback := (callAll (Comeback.call H) {} calls).1

end Runs

/-! ## Refinement -/

/-- The indices are 1 at the outstanding hash values and 0 elsewhere. -/
structure Comeback.Represents (c : Comeback) (o : Outstanding) : Prop where
  key : c.key = o.key
  since : c.lastUpdate = o.since
  idx : c.idx = 0
  pending : ∀ i, c.pending i = if i ∈ o.hashes then 1 else 0

section Refinement

variable {H : HashFns} {c : Comeback} {o : Outstanding}

theorem length_tokenFor (key : Bytes) (addr : MacAddr) (i : ℕ) : (tokenFor H key addr i).length = 32 := by
  simp [tokenFor, H.length_hmac]

/-- A token with the index `i` and the right digest is the one of the address. -/
theorem eq_tokenFor_iff {key token : Bytes} {addr : MacAddr} {i : ℕ} (hi : i < 2 ^ 16) :
    token = tokenFor H key addr i ↔ token.length = 32 ∧ Bytes.ofBe (token.take 2) = i ∧
      token.drop 2 = (H.hmac 32 key (addr.1 ++ token.take 2)).drop 2 := by
  constructor
  · rintro rfl
    have htake : (tokenFor H key addr i).take 2 = Bytes.toBe 2 i := by simp [tokenFor]
    refine ⟨length_tokenFor key addr i, ?_, ?_⟩
    · rw [htake, Bytes.ofBe_toBe (by simpa using hi)]
    · rw [htake]
      simp [tokenFor]
  · rintro ⟨hlen, hidx, hmac⟩
    have hlen2 : (token.take 2).length = 2 := by simp [hlen]
    have htake : token.take 2 = Bytes.toBe 2 i := by
      rw [← hidx]
      exact (hlen2 ▸ Bytes.toBe_ofBe (token.take 2)).symm
    rw [← List.take_append_drop 2 token, hmac, htake, tokenFor]

/-- `check_comeback_token` accepts the token with the index that it remembers, and forgets the index. -/
theorem checkComebackToken_eq {addr : MacAddr} {token : Bytes}
    (hi : c.pending (comebackTokenHash H c.key addr) < 2 ^ 16) :
    checkComebackToken H c addr token =
      if c.pending (comebackTokenHash H c.key addr) ≠ 0 ∧
          token = tokenFor H c.key addr (c.pending (comebackTokenHash H c.key addr)) then
        ({ c with pending := Function.update c.pending (comebackTokenHash H c.key addr) 0 }, true)
      else (c, false) := by
  simp only [eq_tokenFor_iff hi]
  unfold checkComebackToken
  by_cases hlen : token.length = 32
  · by_cases hidx : c.pending (comebackTokenHash H c.key addr) = Bytes.ofBe (token.take 2)
    · by_cases h0 : c.pending (comebackTokenHash H c.key addr) = 0 <;> simp [hlen, ← hidx, h0, ite_not]
    · simp [hlen, hidx, Ne.symm hidx]
  · simp [hlen]

theorem Comeback.Represents.check (h : c.Represents o) (addr : MacAddr) (token : Bytes) :
    ((c.call H (.check addr token)).1.Represents (o.call H (.check addr token)).1) ∧
      (c.call H (.check addr token)).2 = (o.call H (.check addr token)).2 := by
  have hpending := h.pending (comebackTokenHash H o.key addr)
  have hi : c.pending (comebackTokenHash H c.key addr) < 2 ^ 16 := by
    rw [h.key, hpending]
    split <;> norm_num
  simp only [Comeback.call, Outstanding.call, checkComebackToken_eq hi, h.key, hpending, Outstanding.token]
  by_cases hmem : comebackTokenHash H o.key addr ∈ o.hashes
  · by_cases ht : token = tokenFor H o.key addr 1
    · refine ⟨?_, by simp [hmem, ht]⟩
      simp only [hmem, ht, if_true, ne_eq, one_ne_zero, not_false_eq_true, and_self]
      refine ⟨rfl, h.since, h.idx, fun i => ?_⟩
      by_cases hhash : i = comebackTokenHash H o.key addr
      · simp [hhash]
      · simp [hhash, h.pending i]
    · simp [hmem, ht, h]
  · simp [hmem, h]

theorem Comeback.Represents.renew (h : c.Represents o) (now : ℕ) (freshKey : Option Bytes) :
    (renewKey c now freshKey = none ∧ o.renew now freshKey = none) ∨
      ∃ c' o', renewKey c now freshKey = some (c', 0) ∧ o.renew now freshKey = some o' ∧ c'.Represents o' := by
  have hexpired : c.expired now = true ↔ o.since = 0 ∨ now - o.since > 60 := by
    simp [Comeback.expired, h.since, h.idx]
  unfold renewKey Outstanding.renew
  by_cases hexp : o.since = 0 ∨ now - o.since > 60
  · rw [if_pos (hexpired.2 hexp), if_pos hexp]
    cases freshKey with
    | none => exact .inl ⟨rfl, rfl⟩
    | some key => exact .inr ⟨_, _, rfl, rfl, rfl, rfl, h.idx, fun i => by simp⟩
  · rw [if_neg (mt hexpired.1 hexp), if_neg hexp, h.idx]
    exact .inr ⟨c, o, rfl, rfl, h⟩

theorem Comeback.Represents.request (h : c.Represents o) (now : ℕ) (freshKey : Option Bytes) (group : ℕ)
    (addr : MacAddr) (h2e : Bool) :
    ((c.call H (.request now freshKey group addr h2e)).1.Represents (o.call H (.request now freshKey group addr h2e)).1) ∧
      (c.call H (.request now freshKey group addr h2e)).2 = (o.call H (.request now freshKey group addr h2e)).2 := by
  simp only [Comeback.call, Outstanding.call, authBuildTokenReq]
  rcases h.renew now freshKey with ⟨hc, ho⟩ | ⟨c', o', hc, ho, h'⟩
  · rw [hc, ho]
    exact ⟨h, rfl⟩
  · rw [hc, ho]
    have hidx : (if c'.pending (comebackTokenHash H c'.key addr) = 0 then 0 + 1
        else c'.pending (comebackTokenHash H c'.key addr)) = 1 := by
      rw [h'.pending]
      split <;> simp_all
    dsimp only
    rw [hidx, h'.key]
    refine ⟨⟨rfl, h'.since, h'.idx, fun i => ?_⟩, rfl⟩
    by_cases hi : i = comebackTokenHash H o'.key addr
    · simp [Outstanding.request, hi]
    · simp [Outstanding.request, hi, h'.pending i]

theorem Comeback.Represents.call (h : c.Represents o) (call : ComebackCall) :
    (c.call H call).1.Represents (o.call H call).1 ∧ (c.call H call).2 = (o.call H call).2 := by
  cases call with
  | request now freshKey group addr h2e => exact h.request now freshKey group addr h2e
  | check addr token => exact h.check addr token

theorem Comeback.Represents.callAll : ∀ {c : Comeback} {o : Outstanding} (_ : c.Represents o) (calls : List ComebackCall),
    (DecoyAuth.callAll (Comeback.call H) c calls).1.Represents (DecoyAuth.callAll (Outstanding.call H) o calls).1 ∧
      (DecoyAuth.callAll (Comeback.call H) c calls).2 = (DecoyAuth.callAll (Outstanding.call H) o calls).2
  | _, _, h, [] => ⟨h, rfl⟩
  | c, o, h, call :: calls => by
    obtain ⟨hstep, hanswer⟩ := h.call (H := H) call
    obtain ⟨hrun, hanswers⟩ := hstep.callAll calls
    exact ⟨hrun, congrArg₂ List.cons hanswer hanswers⟩

theorem represents_new : Comeback.Represents {} {} := ⟨rfl, rfl, rfl, fun _ => by simp⟩

/-- **The indices are redundant**: to every list of calls the code answers as the mechanism without them. -/
theorem comeback_refines (H : HashFns) (calls : List ComebackCall) :
    (callAll (Comeback.call H) {} calls).2 = (callAll (Outstanding.call H) {} calls).2 :=
  (represents_new.callAll calls).2

/-- After any calls there are outstanding hash values that the indices represent. -/
theorem exists_represents (H : HashFns) (calls : List ComebackCall) : ∃ o, (Comeback.after H calls).Represents o :=
  ⟨_, (represents_new.callAll calls).1⟩

end Refinement

/-! ## Used tokens -/

section Used

variable {H : HashFns}

theorem callAll_append {σ : Type} {call : σ → ComebackCall → σ × ComebackAnswer} (s : σ) (cs cs' : List ComebackCall) :
    (callAll call s (cs ++ cs')).1 = (callAll call (callAll call s cs).1 cs').1 := by
  induction cs generalizing s with
  | nil => rfl
  | cons c cs ih => exact ih (call s c).1

theorem Comeback.after_concat (calls : List ComebackCall) (c : ComebackCall) :
    Comeback.after H (calls ++ [c]) = ((Comeback.after H calls).call H c).1 := callAll_append _ calls [c]

theorem Comeback.Represents.check_iff {c : Comeback} {o : Outstanding} (h : c.Represents o) {addr : MacAddr}
    {token : Bytes} : (checkComebackToken H c addr token).2 = true ↔
      comebackTokenHash H o.key addr ∈ o.hashes ∧ token = o.token H addr := by
  have hans := (h.check (H := H) addr token).2
  simp only [Comeback.call, Outstanding.call] at hans
  split at hans
  · next hmem => exact iff_of_true (ComebackAnswer.check.inj hans) hmem
  · next hmem => exact iff_of_false (by simp [ComebackAnswer.check.inj hans]) hmem

/-- A request that is answered leaves the hash value of its address outstanding. -/
theorem Comeback.Represents.requested {c : Comeback} {o : Outstanding} (h : c.Represents o) {now : ℕ}
    {freshKey : Option Bytes} {group : ℕ} {addr : MacAddr} {h2e : Bool}
    (hsome : (authBuildTokenReq H c now freshKey group addr h2e).2.isSome) :
    ∃ o', (c.call H (.request now freshKey group addr h2e)).1.Represents o' ∧
      comebackTokenHash H o'.key addr ∈ o'.hashes := by
  refine ⟨_, (h.request now freshKey group addr h2e).1, ?_⟩
  rcases h.renew now freshKey with ⟨hc, -⟩ | ⟨-, o', -, ho, -⟩
  · simp [authBuildTokenReq, hc] at hsome
  · simp [Outstanding.call, ho, Outstanding.request]

/-- **A token that was used is accepted again**, as soon as a token is requested for an address with the same hash value
under the same key, whatever happened in between. -/
theorem used_token_accepted_again {calls calls' : List ComebackCall} {addr addr' : MacAddr} {token : Bytes} {now : ℕ}
    {freshKey : Option Bytes} {group : ℕ} {h2e : Bool}
    (hused : (checkComebackToken H (Comeback.after H calls) addr token).2 = true)
    (hrequest : (authBuildTokenReq H (Comeback.after H (calls ++ .check addr token :: calls')) now freshKey group addr'
      h2e).2.isSome)
    (hkey : (Comeback.after H (calls ++ .check addr token :: calls' ++ [.request now freshKey group addr' h2e])).key =
      (Comeback.after H calls).key)
    (hhash : comebackTokenHash H (Comeback.after H calls).key addr' = comebackTokenHash H (Comeback.after H calls).key addr) :
    (checkComebackToken H
      (Comeback.after H (calls ++ .check addr token :: calls' ++ [.request now freshKey group addr' h2e]))
      addr token).2 = true := by
  obtain ⟨o, ho⟩ := exists_represents H calls
  obtain ⟨-, htoken⟩ := ho.check_iff.1 hused
  obtain ⟨o₁, ho₁⟩ := exists_represents H (calls ++ .check addr token :: calls')
  obtain ⟨o', ho', hmem⟩ := ho₁.requested hrequest
  rw [← Comeback.after_concat] at ho'
  have hkey' : o'.key = o.key := by rw [← ho'.key, hkey, ho.key]
  rw [ho'.check_iff, Outstanding.token, hkey', ← ho.key, ← hhash]
  refine ⟨?_, by rw [htoken, Outstanding.token, ho.key]⟩
  rwa [hkey', ← ho.key] at hmem

end Used

/-- A station gets a token and uses it, asks again under the same key, and uses it again. -/
theorem used_token_accepted_again_small :
    let token := tokenFor Small.hash [1, 2, 3, 4, 5, 6, 7, 8] (Small.addr 2) 1
    let first := ComebackCall.request 10 (some [1, 2, 3, 4, 5, 6, 7, 8]) 19 (Small.addr 2) false
    let second := ComebackCall.request 20 none 19 (Small.addr 2) false
    (checkComebackToken Small.hash (Comeback.after Small.hash ([first] ++ .check (Small.addr 2) token :: [] ++ [second]))
      (Small.addr 2) token).2 = true :=
  used_token_accepted_again (by decide +kernel) (by decide +kernel) (by decide +kernel) rfl

end DecoyAuth
