import DecoyAuth.Ap.Answers

/-!
# What a commit can do to the keys

The results about keys read only `keyView` of an instance, and most of what a commit changes is outside of it
(`Relabels`). So a commit either leaves the keys alone (`Unprocessed`), or `sae_ap_process_commit` was called
(`Processes`).
-/

namespace DecoyAuth

variable {sae sae' s : SaeData} {tmp tmp' : SaeTmp}

/-! ## What the results about keys read -/

/-- The tables of keys, the group with its numbers and the number of passwords. -/
def SaeTmp.keyView (tmp : SaeTmp) : Table KeyEntry × Option EcGroup × ℤ × ℤ × ℕ × ℕ :=
  (tmp.keys, tmp.ec, tmp.numPasswords, tmp.order, tmp.orderLen, tmp.primeLen)

/-- The history variable, and what the results read of the temporary data. -/
def SaeData.keyView (sae : SaeData) : Bool × Option (Table KeyEntry × Option EcGroup × ℤ × ℤ × ℕ × ℕ) :=
  (sae.processed, sae.tmp.map SaeTmp.keyView)

theorem keyView_forgetCommit : sae.forgetCommit.keyView = sae.keyView := by
  simp only [SaeData.keyView, SaeData.forgetCommit, Option.map_map]
  rfl

theorem SendKeeps.keyView (h : SendKeeps sae sae') : sae'.keyView = sae.keyView := by
  rw [← keyView_forgetCommit, h.forget, keyView_forgetCommit]

theorem exists_keyView_eq (h : sae'.keyView = sae.keyView) (ht' : sae'.tmp = some tmp') :
    ∃ tmp, sae.tmp = some tmp ∧ tmp'.keyView = tmp.keyView := by
  have hv := congrArg Prod.snd h
  simp only [SaeData.keyView, ht', Option.map_some] at hv
  obtain ⟨tmp, ht, hv⟩ := Option.map_eq_some_iff.1 hv.symm
  exact ⟨tmp, ht, hv.symm⟩

theorem exists_tmp_of_keyView (h : sae'.keyView = sae.keyView) (ht' : sae'.tmp = some tmp') :
    ∃ tmp, sae.tmp = some tmp ∧ tmp'.keys = tmp.keys ∧ tmp'.ec = tmp.ec ∧ tmp'.numPasswords = tmp.numPasswords := by
  obtain ⟨tmp, ht, hv⟩ := exists_keyView_eq h ht'
  simp only [SaeTmp.keyView, Prod.mk.injEq] at hv
  exact ⟨tmp, ht, hv.1, hv.2.1, hv.2.2.1⟩

/-- The numbers of the group are those that `sae_set_group` stored. -/
def SaeData.HoldsGroup (sae : SaeData) : Prop := ∀ tmp, sae.tmp = some tmp → tmp.HoldsGroup

theorem holdsGroup_of_keyView (h : sae'.keyView = sae.keyView) (hg : sae.HoldsGroup) : sae'.HoldsGroup := by
  intro tmp' ht'
  obtain ⟨tmp, ht, hv⟩ := exists_keyView_eq h ht'
  simp only [SaeTmp.keyView, Prod.mk.injEq] at hv
  obtain ⟨-, hec, -, horder, horderLen, hprimeLen⟩ := hv
  refine ⟨fun ec h => ?_, fun ec h => ?_, fun ec h => ?_⟩
  · rw [horder]
    exact (hg tmp ht).order ec (hec.symm.trans h)
  · rw [horderLen]
    exact (hg tmp ht).orderLen ec (hec.symm.trans h)
  · rw [hprimeLen]
    exact (hg tmp ht).primeLen ec (hec.symm.trans h)

/-- The tables of keys have not been freed. -/
def SaeData.KeysHeld (sae : SaeData) : Prop := ∀ tmp, sae.tmp = some tmp → tmp.keys ≠ .released

theorem keysHeld_of_keyView (h : sae'.keyView = sae.keyView) (hk : sae.KeysHeld) : sae'.KeysHeld := by
  intro tmp' ht'
  obtain ⟨tmp, ht, hkeys, -⟩ := exists_tmp_of_keyView h ht'
  rw [hkeys]
  exact hk tmp ht

/-! ## Changes that keep the tables -/

/-- A change of the instance that does not touch its tables. -/
structure KeepsTables (sae sae' : SaeData) : Prop where
  keyView : sae'.keyView = sae.keyView
  held : sae.Held → sae'.Held
  coefficientsEcc : sae.CoefficientsEcc → sae'.CoefficientsEcc

theorem keepsTables_of_tmp_eq (htmp : sae'.tmp = sae.tmp) (hp : sae'.processed = sae.processed) : KeepsTables sae sae' where
  keyView := by simp only [SaeData.keyView, htmp, hp]
  held h tmp ht := h tmp (htmp ▸ ht)
  coefficientsEcc h tmp ht := h tmp (htmp ▸ ht)

theorem KeepsTables.trans {a b c : SaeData} (h : KeepsTables a b) (h' : KeepsTables b c) : KeepsTables a c :=
  ⟨h'.keyView.trans h.keyView, fun hh => h'.held (h.held hh), fun hh => h'.coefficientsEcc (h.coefficientsEcc hh)⟩

theorem KeepsTables.sized {host : Host} (h : KeepsTables sae sae') (hn : sae.Sized host) : sae'.Sized host := by
  intro tmp' ht'
  obtain ⟨tmp, ht, -, -, hnum⟩ := exists_tmp_of_keyView h.keyView ht'
  rw [hnum]
  exact hn tmp ht

/-- Such a change that does not accept the station either. -/
structure Relabels (sae sae' : SaeData) : Prop extends KeepsTables sae sae' where
  accepted : sae'.state = .accepted → sae.state = .accepted

theorem relabels_of_tmp_eq (htmp : sae'.tmp = sae.tmp) (hp : sae'.processed = sae.processed)
    (hs : sae'.state = .accepted → sae.state = .accepted) : Relabels sae sae' :=
  ⟨keepsTables_of_tmp_eq htmp hp, hs⟩

theorem Relabels.trans {a b c : SaeData} (h : Relabels a b) (h' : Relabels b c) : Relabels a c :=
  ⟨h.toKeepsTables.trans h'.toKeepsTables, fun hs => h.accepted (h'.accepted hs)⟩

theorem SendKeeps.relabels (h : SendKeeps sae sae') : Relabels sae sae' where
  keyView := h.keyView
  held := h.held
  coefficientsEcc := h.coefficientsEcc
  accepted hs := by
    have := congrArg SaeData.state h.forget
    exact this.symm.trans hs

theorem SendsFrom.relabels (h : SendsFrom sae s) : Relabels sae s :=
  relabels_of_tmp_eq h.tmp_eq h.processed fun hs => h.state.symm.trans hs

/-- The identifier is bound in fields that no table depends on. -/
theorem relabels_bindPwId : Relabels sae (bindPwId sae) := by
  cases ht : sae.tmp with
  | none => exact relabels_of_tmp_eq (by simp [bindPwId, ht]) rfl id
  | some tmp =>
    have hb : ∃ pwId parsedPwId, (bindPwId sae).tmp = some { tmp with pwId := pwId, parsedPwId := parsedPwId } := by
      simp only [bindPwId, ht, Option.map_some, Option.some.injEq]
      split
      · exact ⟨_, _, rfl⟩
      · exact ⟨tmp.pwId, tmp.parsedPwId, rfl⟩
    obtain ⟨pwId, parsedPwId, hb⟩ := hb
    refine ⟨⟨?_, fun h t h' => ?_, fun h t h' => ?_⟩, id⟩
    · rw [SaeData.keyView, hb, SaeData.keyView, ht]
      rfl
    · rw [hb] at h'
      cases h'
      exact ⟨(h tmp ht).1, (h tmp ht).2⟩
    · rw [hb] at h'
      cases h'
      exact h tmp ht

/-- Nor does a shared point. -/
theorem apSecret_bindPwId : (bindPwId sae).apSecret = sae.apSecret := by
  refine apSecret_congr rfl ?_
  cases ht : sae.tmp with
  | none => simp [bindPwId, ht]
  | some tmp =>
    simp only [bindPwId, ht, Option.map_some, Option.some.injEq]
    split <;> rfl

/-! ## Commits and keys -/

/-- A confirm can make the station accepted. -/
def SaeData.isWaiting (sae : SaeData) : Bool := sae.state = .committed || sae.state = .confirmed

/-- No commit was processed. -/
structure Unprocessed (sae : SaeData) (log : List Event) (sae' : SaeData) : Prop where
  keyView : sae'.keyView = sae.keyView
  log : ∀ ok, Event.processCommit ok ∉ log

/-- A commit was processed, in the instance `s`. -/
structure Processes (host : Host) (sae : SaeData) (log : List Event) (sae' s : SaeData) (tmp tmp' : SaeTmp) (ok : Bool) :
    Prop where
  start : s.keyView = sae.keyView
  start_tmp : s.tmp = some tmp
  ec : tmp.ec.isSome
  stores : Stores host s tmp.numPasswords.toNat 0 tmp tmp' ok
  final_tmp : sae'.tmp = some tmp'
  processed : sae'.processed = (s.processed || ok)
  inputs : keyInputs sae' tmp' = keyInputs s tmp
  log : ∀ b, Event.processCommit b ∈ log ↔ b = ok

end DecoyAuth
