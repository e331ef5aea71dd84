import DecoyAuth.Sae.Parse

/-!
# What a received commit leaves alone

A received commit changes few fields of an instance: `forgetPeer` erases them, and `saeParseCommit_frame` says that the
rest is as before, unless a new group was selected, which starts the instance afresh (`Fresh`). Before that come the facts
about tables that every later module reads.
-/

namespace DecoyAuth

/-! ## Tables -/

namespace Table

variable {α : Type} {id : TableId} {t t' : Table α} {i : ℕ}

/-- The value of an entry, if the table is live and the entry is set. -/
def entry (t : Table α) (i : ℕ) : Option α :=
  match t with
  | .live entries => (entries[i]?).join
  | _ => none

theorem slot_ok {a : α} (h : t.slot id i = .ok (some a)) : t.entry i = some a := by
  cases t with
  | unset => cases h
  | released => cases h
  | live es =>
    simp only [slot] at h
    split at h
    · cases h
    · next he => cases h; simp [entry, he]

theorem slot_of_entry (id : TableId) {a : α} (h : t.entry i = some a) : t.slot id i = .ok (some a) := by
  cases t with
  | unset => cases h
  | released => cases h
  | live es =>
    simp only [entry, Option.join_eq_some_iff] at h
    simp only [slot, h]

theorem read_of_entry (id : TableId) {a : α} (h : t.entry i = some a) : t.read id i = .ok a := by
  simp only [read, slot_of_entry id h]

theorem read_ok {a : α} (h : t.read id i = .ok a) : t.entry i = some a := by
  unfold read at h
  split at h
  · cases h
  · cases h
  · next hs => cases h; exact slot_ok hs

theorem write_ok {a : Option α} (h : t.write id i a = .ok t') :
    ∃ es, t = .live es ∧ i < es.length ∧ t' = .live (es.set i a) := by
  cases t with
  | unset => cases h
  | released => cases h
  | live es =>
    simp only [write] at h
    split at h
    · next hi => cases h; exact ⟨es, rfl, hi, rfl⟩
    · cases h

theorem entry_set (es : List (Option α)) (i j : ℕ) (a : Option α) (hi : i < es.length) :
    (Table.live (es.set i a)).entry j = if j = i then a else (Table.live es).entry j := by
  simp only [entry, List.getElem?_set]
  by_cases h : j = i
  · simp [h, hi]
  · simp [h, Ne.symm h]

theorem entry_write {a : Option α} (h : t.write id i a = .ok t') (j : ℕ) :
    t'.entry j = if j = i then a else t.entry j := by
  obtain ⟨es, rfl, hi, rfl⟩ := write_ok h
  exact entry_set es i j a hi

/-- Following a pointer that is not dangling is never a use of freed memory. -/
theorem slot_error {f : Fault} (h : t.slot id i = .error f) (ht : t ≠ .released) :
    f = .unset id ∨ f = .outOfBounds id := by
  cases t with
  | unset => cases h; exact .inl rfl
  | released => exact absurd rfl ht
  | live es =>
    simp only [slot] at h
    split at h
    · cases h; exact .inr rfl
    · cases h

theorem read_error {f : Fault} (h : t.read id i = .error f) (ht : t ≠ .released) :
    f = .unset id ∨ f = .outOfBounds id := by
  unfold read at h
  split at h
  · next hs => cases h; exact slot_error hs ht
  · cases h; exact .inl rfl
  · cases h

theorem write_error {a : Option α} {f : Fault} (h : t.write id i a = .error f) (ht : t ≠ .released) :
    f = .unset id ∨ f = .outOfBounds id := by
  cases t with
  | unset => cases h; exact .inl rfl
  | released => exact absurd rfl ht
  | live es =>
    simp only [write] at h
    split at h
    · cases h
    · cases h; exact .inr rfl

end Table

/-! ## Selecting a group -/

/-- The numbers of the ECC group, if there is one, are those that `sae_set_group` stores with it. -/
structure SaeTmp.HoldsGroup (tmp : SaeTmp) : Prop where
  order : ∀ ec, tmp.ec = some ec → tmp.order = ec.order
  orderLen : ∀ ec, tmp.ec = some ec → tmp.orderLen = Bytes.numBytes ec.order
  primeLen : ∀ ec, tmp.ec = some ec → tmp.primeLen = Bytes.numBytes ec.prime

/-- Temporary data as `sae_set_group` leaves it. -/
structure FreshTmp (host : Host) (tmp : SaeTmp) : Prop where
  numPasswords : tmp.numPasswords = host.passwords.length
  keys : tmp.keys = .unset
  uCoefficients : tmp.uCoefficients = .unset
  pweEccs : tmp.pweEccs = .alloc host.passwords.length
  ownCommitElementEccs : tmp.ownCommitElementEccs = .alloc host.passwords.length
  pwId : tmp.pwId = none
  disabledUntil : tmp.disabledUntil = none
  holdsGroup : tmp.HoldsGroup

/-- An instance without temporary data, or with fresh ones. -/
structure Fresh (host : Host) (sae : SaeData) : Prop where
  state : sae.state = .nothing
  processed : sae.processed = false
  tmp : ∀ tmp, sae.tmp = some tmp → FreshTmp host tmp

variable {host : Host} {sae sae' : SaeData} {tmp tmp' : SaeTmp}

theorem fresh_of_tmp_none (hs : sae.state = .nothing) (hp : sae.processed = false) (ht : sae.tmp = none) :
    Fresh host sae := ⟨hs, hp, fun tmp h => by rw [ht] at h; cases h⟩

theorem fresh_clearData : Fresh host sae.clearData := fresh_of_tmp_none rfl rfl rfl

theorem saeSetGroup_cases (group : ℕ) :
    (saeSetGroup host sae group).1 = sae ∨ Fresh host (saeSetGroup host sae group).1 := by
  unfold saeSetGroup
  split
  · exact .inl rfl
  · refine .inr ?_
    dsimp only
    split
    · refine ⟨rfl, rfl, fun tmp h => ?_⟩
      cases h
      exact ⟨rfl, rfl, rfl, rfl, rfl, rfl, rfl, by rintro _ ⟨⟩; rfl, by rintro _ ⟨⟩; rfl, by rintro _ ⟨⟩; rfl⟩
    · split
      · split
        · exact fresh_clearData
        · refine ⟨rfl, rfl, fun tmp h => ?_⟩
          cases h
          exact ⟨rfl, rfl, rfl, rfl, rfl, rfl, rfl, nofun, nofun, nofun⟩
      · refine ⟨rfl, rfl, fun tmp h => ?_⟩
        cases h
        exact ⟨rfl, rfl, rfl, rfl, rfl, rfl, rfl, nofun, nofun, nofun⟩

theorem saeGroupAllowed_cases (allowed : Option (List ℤ)) (group : ℕ) :
    (saeGroupAllowed host sae allowed group).1 = sae ∨ Fresh host (saeGroupAllowed host sae allowed group).1 := by
  unfold saeGroupAllowed
  split
  · exact .inl rfl
  · split
    · exact .inl rfl
    · have hset : (if group ≠ sae.group then saeSetGroup host sae group else (sae, true)).1 = sae ∨
          Fresh host (if group ≠ sae.group then saeSetGroup host sae group else (sae, true)).1 := by
        split
        · exact saeSetGroup_cases group
        · exact .inl rfl
      generalize (if group ≠ sae.group then saeSetGroup host sae group else (sae, true)) = r at hset ⊢
      dsimp only
      split
      · exact hset
      · split
        · exact hset
        · split <;> exact hset

/-! ## Parsing a commit -/

/-- The temporary data without what a received commit can change. -/
def SaeTmp.forgetPeer (tmp : SaeTmp) : SaeTmp :=
  { tmp with
    peerCommitElementFfc := none
    peerCommitElementEcc := none
    parsedPwId := none
    peerRejectedGroups := none }

/-- The instance without what a received commit can change. -/
def SaeData.forgetPeer (sae : SaeData) : SaeData :=
  { sae with
    peerCommitScalar := none
    peerAkmSuiteSelector := 0
    akmp := .unset
    tmp := sae.tmp.map SaeTmp.forgetPeer }

/-- A parser was started on the instance and changed only what a received commit can change. -/
structure Parsed.From (p : Parsed) (sae : SaeData) (tmp : SaeTmp) : Prop where
  sae : p.sae.forgetPeer = sae.forgetPeer
  tmp : p.tmp.forgetPeer = tmp.forgetPeer

theorem Parsed.From.trans {p q : Parsed} (hp : p.From sae tmp) (hq : q.From p.sae p.tmp) : q.From sae tmp :=
  ⟨hq.sae.trans hp.sae, hq.tmp.trans hp.tmp⟩

theorem Parsed.From.andThen {p : Parsed} {next : SaeData → SaeTmp → Bytes → Parsed} (hp : p.From sae tmp)
    (hnext : ∀ sae tmp rest, (next sae tmp rest).From sae tmp) : (p.andThen next).From sae tmp := by
  unfold Parsed.andThen
  split
  · exact hp.trans (hnext _ _ _)
  · exact hp

theorem saeParseCommitScalar_from (rest : Bytes) : (saeParseCommitScalar sae tmp rest).From sae tmp := by
  unfold saeParseCommitScalar
  split
  · exact ⟨rfl, rfl⟩
  · dsimp only
    split
    · exact ⟨rfl, rfl⟩
    · split <;> exact ⟨rfl, rfl⟩

theorem saeParseCommitElement_from (sae : SaeData) (tmp : SaeTmp) (rest : Bytes) :
    (saeParseCommitElement sae tmp rest).From sae tmp := by
  unfold saeParseCommitElement
  split
  · unfold saeParseCommitElementFfc
    split
    · exact ⟨rfl, rfl⟩
    · dsimp only
      split <;> exact ⟨rfl, rfl⟩
  · split
    · unfold saeParseCommitElementEcc
      split
      · exact ⟨rfl, rfl⟩
      · split
        · exact ⟨rfl, rfl⟩
        · dsimp only
          split <;> exact ⟨rfl, rfl⟩
    · exact ⟨rfl, rfl⟩

theorem saeParsePasswordIdentifier_from (h2e : Bool) (rest : Bytes) :
    (saeParsePasswordIdentifier h2e sae tmp rest).From sae tmp := by
  unfold saeParsePasswordIdentifier
  split
  · split <;> exact ⟨rfl, rfl⟩
  · split <;> exact ⟨rfl, rfl⟩

theorem saeParseRejectedGroups_from (rest : Bytes) : (saeParseRejectedGroups sae tmp rest).From sae tmp := by
  unfold saeParseRejectedGroups
  split
  · exact ⟨rfl, rfl⟩
  · split <;> exact ⟨rfl, rfl⟩

theorem noteAkmp_forgetPeer : sae.noteAkmp.forgetPeer = sae.forgetPeer := by
  unfold SaeData.noteAkmp
  split
  · rfl
  · split
    · rfl
    · split <;> rfl

theorem finishCommit_from (sae : SaeData) (tmp : SaeTmp) (rest : Bytes) : (finishCommit sae tmp rest).From sae tmp := by
  unfold finishCommit
  split
  · exact ⟨rfl, rfl⟩
  · exact ⟨noteAkmp_forgetPeer, rfl⟩

theorem parseElements_from (h2e : Bool) (rest : Bytes) : (parseElements h2e sae tmp rest).From sae tmp := by
  refine (((saeParsePasswordIdentifier_from h2e rest).andThen ?_).andThen ?_).andThen finishCommit_from
  · intro sae tmp rest
    split
    · exact saeParseRejectedGroups_from rest
    · exact ⟨rfl, rfl⟩
  · intro sae tmp rest
    split
    · unfold saeParseAkmSuiteSelector
      split <;> exact ⟨rfl, rfl⟩
    · exact ⟨rfl, rfl⟩

theorem Parsed.From.forgetPeer {p : Parsed} (hp : p.From sae tmp) (ht : sae.tmp = some tmp) :
    ({ p.sae with tmp := some p.tmp } : SaeData).forgetPeer = sae.forgetPeer := by
  have hs := hp.sae
  simp only [SaeData.forgetPeer, SaeData.mk.injEq, Option.map_some, ht, hp.tmp, true_and] at hs ⊢
  tauto

/-- **A received commit** changes only the peer's fields, of the instance or of a fresh one. -/
theorem saeParseCommit_frame (data : Bytes) (allowed : Option (List ℤ)) (h2e : Bool) :
    ∃ s, (s = sae ∨ Fresh host s) ∧ (saeParseCommit host sae data allowed h2e).sae.forgetPeer = s.forgetPeer := by
  unfold saeParseCommit
  split
  · exact ⟨sae, .inl rfl, rfl⟩
  · refine ⟨(saeGroupAllowed host sae allowed (Bytes.getLe16 data)).1, saeGroupAllowed_cases allowed _, ?_⟩
    generalize saeGroupAllowed host sae allowed (Bytes.getLe16 data) = r
    obtain ⟨s, status⟩ := r
    dsimp only
    split
    · next tmp ht =>
      have hp : ((saeParseCommitScalar s tmp (saeParseCommitToken tmp h2e (data.drop 2)).2).andThen
          saeParseCommitElement).From s tmp := (saeParseCommitScalar_from _).andThen saeParseCommitElement_from
      split
      · exact hp.forgetPeer ht
      · exact (hp.trans (parseElements_from h2e _)).forgetPeer ht
    · rfl

end DecoyAuth
