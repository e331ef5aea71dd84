import DecoyAuth.Sae.Client

/-!
# The bounds of the client's parser

`sae_ap_parse_commit` copies the count from the frame without looking at the length of the frame or at the count, stores
the coefficients into arrays whose allocation it does not check, and prints each slot before it looks at the status of the
coefficient. `parse_inBounds_iff` says which frames keep its reads inside the frame, its stores and loads inside the arrays,
what it prints allocated and its polynomials nonempty (`Sufficient`). The reads before the count and after the coefficients
are always inside.
-/

namespace DecoyAuth

/-- A read stays inside the frame, a store and a load inside their array, a printed slot points to a coefficient, and a
polynomial has a coefficient. -/
def Access.InBounds (data : Bytes) : Access → Prop
  | .read off len => off + len ≤ data.length
  | .store size index => index < size
  | .load size index => index < size
  | .print slot => slot = .stored
  | .evaluate count => 1 ≤ count

instance (data : Bytes) (a : Access) : Decidable (a.InBounds data) := by
  cases a <;> unfold Access.InBounds <;> infer_instance

variable {host : Host} {env : Surroundings} {password data rest : Bytes} {sae : SaeData} {tmp : SaeTmp}
  {allowed : Option (List ℤ)} {h2e : Bool}

theorem readAt_inBounds_iff (hrest : rest.length ≤ data.length) (len : ℕ) :
    (readAt data rest len).InBounds data ↔ len ≤ rest.length := by
  simp only [readAt, Access.InBounds]
  omega

/-! ## The coefficients -/

section Loop

variable {primeLen size count : ℕ} {order : ℤ} {array : Bool}

/-- The accesses to one slot stay in bounds exactly if it is filled. -/
theorem parseSlot_inBounds_iff {index : ℕ} (hrest : rest.length ≤ data.length) (hindex : index < size) :
    (∀ a ∈ (parseSlot data primeLen order size array index rest).log, a.InBounds data) ↔
      ∃ c, (parseSlot data primeLen order size array index rest).result = .ok (some c) := by
  unfold parseSlot
  cases hc : saeParseCoefficient primeLen order rest with
  | none => cases array <;> simp [Access.InBounds]
  | some r =>
    obtain ⟨c, ok⟩ := r
    have hlen : primeLen ≤ rest.length := by
      by_contra hlt
      rw [saeParseCoefficient, if_pos (not_le.1 hlt)] at hc
      cases hc
    have hread := (readAt_inBounds_iff hrest primeLen).2 hlen
    cases array with
    | false => simp [Access.InBounds]
    | true =>
      cases ok with
      | false => simp [Access.InBounds]
      | true => exact iff_of_true (by simpa [Access.InBounds, hindex] using hread) ⟨c, rfl⟩

/-- A count that the code can hold does not wrap the size of the allocation. -/
theorem arrayEntries_of_lt (h : count < 2 ^ 61) : arrayEntries count = count := by
  unfold arrayEntries
  omega

/-- **One loop stays in bounds** exactly if it ends with success. -/
theorem parseCoefficients_inBounds_iff (hcount : count < 2 ^ 61) : ∀ {left : ℕ} {rest : Bytes} {acc : List ℤ},
    left ≤ count → rest.length ≤ data.length →
      ((∀ a ∈ (parseCoefficients data primeLen order count array left rest acc).log, a.InBounds data) ↔
        ∃ out rest', (parseCoefficients data primeLen order count array left rest acc).result =
          .ok (out, .success, rest'))
  | 0, _, _, _, _ => by simp [parseCoefficients]
  | left + 1, rest, acc, hleft, hrest => by
    have hdrop : (rest.drop primeLen).length ≤ data.length := by
      rw [List.length_drop]
      omega
    have hindex : count - (left + 1) < arrayEntries count := by
      rw [arrayEntries_of_lt hcount]
      omega
    unfold parseCoefficients
    rw [Run.forall_mem_bind_log, parseSlot_inBounds_iff hrest hindex]
    constructor
    · rintro ⟨⟨c, hslot⟩, h⟩
      rw [Run.bind_of_ok hslot]
      exact (parseCoefficients_inBounds_iff hcount (by omega) hdrop).1 (h _ hslot)
    · rintro ⟨out, rest', h⟩
      obtain ⟨slot, hslot, h⟩ := Run.bind_result_ok.1 h
      cases slot with
      | none => cases h
      | some c =>
        refine ⟨⟨c, hslot⟩, fun slot hslot' => ?_⟩
        cases hslot.symm.trans hslot'
        exact (parseCoefficients_inBounds_iff hcount (by omega) hdrop).2 ⟨out, rest', h⟩

end Loop

/-! ## The reads around the coefficients -/

theorem headAccesses_inBounds : ∀ a ∈ headAccesses host sae data allowed, a.InBounds data := by
  unfold headAccesses
  split
  · simp
  · next hlen =>
    have hdrop : (data.drop 2).length ≤ data.length := by
      rw [List.length_drop]
      omega
    have hread : (Access.read 0 2).InBounds data := by
      simp only [Access.InBounds]
      omega
    dsimp only
    refine List.forall_mem_cons.2 ⟨hread, ?_⟩
    split
    · split
      · next h => simpa using (readAt_inBounds_iff hdrop _).2 h
      · simp
    · simp

theorem length_elemContent_le : (elemContent rest).length ≤ (rest.drop 3).length := by
  unfold elemContent
  rw [List.length_take]
  exact min_le_right _ _

theorem elemAccesses_inBounds {need : ℕ} {test : Bytes → Bool} (hneed : 3 ≤ need) (hrest : rest.length ≤ data.length) :
    ∀ a ∈ elemAccesses data need test rest, a.InBounds data := by
  have hdrop : (rest.drop 3).length ≤ data.length := by
    rw [List.length_drop]
    omega
  unfold elemAccesses
  intro a ha
  rcases List.mem_append.1 ha with ha | ha
  · split at ha
    · next h =>
      obtain rfl := List.mem_singleton.1 ha
      exact (readAt_inBounds_iff hrest 3).2 (by omega)
    · cases ha
  · split at ha
    · obtain rfl := List.mem_singleton.1 ha
      exact (readAt_inBounds_iff hdrop _).2 length_elemContent_le
    · cases ha

theorem length_afterElem_le : (afterElem rest).length ≤ rest.length := by
  unfold afterElem
  rw [List.length_drop]
  omega

theorem saeParsePasswordIdentifier_rest : (saeParsePasswordIdentifier h2e sae tmp rest).rest.length ≤ rest.length := by
  unfold saeParsePasswordIdentifier
  split
  · split <;> exact le_rfl
  · split
    · exact le_rfl
    · exact length_afterElem_le

theorem saeParseRejectedGroups_rest : (saeParseRejectedGroups sae tmp rest).rest.length ≤ rest.length := by
  unfold saeParseRejectedGroups
  split
  · exact le_rfl
  · split
    · exact le_rfl
    · exact length_afterElem_le

theorem elementsAccesses_inBounds (hrest : rest.length ≤ data.length) :
    ∀ a ∈ elementsAccesses h2e data sae tmp rest, a.InBounds data := by
  have hid : (saeParsePasswordIdentifier h2e sae tmp rest).rest.length ≤ rest.length := saeParsePasswordIdentifier_rest
  unfold elementsAccesses
  generalize saeParsePasswordIdentifier h2e sae tmp rest = id at hid
  have hgroups : (saeParseRejectedGroups id.sae id.tmp id.rest).rest.length ≤ id.rest.length :=
    saeParseRejectedGroups_rest
  dsimp only
  generalize saeParseRejectedGroups id.sae id.tmp id.rest = groups at hgroups
  refine List.forall_mem_append.2 ⟨elemAccesses_inBounds le_rfl hrest, ?_⟩
  split
  · simp
  · refine List.forall_mem_append.2 ⟨elemAccesses_inBounds le_rfl (hid.trans hrest), ?_⟩
    have hle : groups.rest.length ≤ data.length := (hgroups.trans hid).trans hrest
    split
    · simp
    · exact List.forall_mem_append.2 ⟨elemAccesses_inBounds le_rfl hle, elemAccesses_inBounds (by omega) hle⟩

/-! ## The whole parser -/

/-- What the parser needs and does not check before it uses it: the count and both lists of coefficients lie in the frame,
the count is positive, all coefficients are scalars, and the two arrays were allocated. -/
structure Sufficient (host : Host) (env : Surroundings) (tmp : SaeTmp) (data : Bytes) : Prop where
  count_pos : 1 ≤ frameCount host env tmp.primeLen data
  inside : 2 + tmp.primeLen + 4 + 2 * ((frameCount host env tmp.primeLen data).toNat * tmp.primeLen) ≤ data.length
  u_isScalar : ∀ c ∈ frameU host env tmp.primeLen data, IsScalar tmp.order c
  v_isScalar : ∀ c ∈ frameV host env tmp.primeLen data, IsScalar tmp.order c
  mallocU : env.mallocU = true
  mallocV : env.mallocV = true

theorem frameCount_lt (primeLen : ℕ) : frameCount host env primeLen data < 2 ^ 31 :=
  Bytes.toInt32_lt _ (List.length_take_le _ _)

theorem cryptoEvaluate_inBounds_iff {ec : EcParams} {cs : List ℤ} {x count : ℤ} :
    (∀ a ∈ (cryptoEvaluate ec cs x count).log, a.InBounds data) ↔ 1 ≤ count := by
  unfold cryptoEvaluate
  rw [Run.forall_mem_bind_log]
  by_cases h : count < 1
  · simp [h, Access.InBounds]
  · simp [h, Access.InBounds]

/-- The decoding stays in bounds exactly if the count is positive. -/
theorem decodeApCommit_inBounds_iff {ec : EcGroup} {u v : List ℤ} (hec : tmp.ec = some ec)
    (hrest : rest.length ≤ data.length) :
    (∀ a ∈ (decodeApCommit host password data h2e sae tmp u v rest).log, a.InBounds data) ↔ 1 ≤ tmp.numPasswords := by
  unfold decodeApCommit
  split
  · next h => rw [h] at hec; cases hec
  · rw [Run.forall_mem_bind_log, decodeElement, Run.forall_mem_bind_log, cryptoEvaluate_inBounds_iff]
    constructor
    · exact fun h => h.1.1
    · intro h
      refine ⟨⟨h, fun _ _ => ?_⟩, fun _ _ => ?_⟩
      · rw [Run.forall_mem_bind_log, cryptoEvaluate_inBounds_iff]
        exact ⟨h, fun _ _ => by simp⟩
      · rw [Run.forall_mem_bind_log]
        exact ⟨elementsAccesses_inBounds hrest, fun _ _ => by simp⟩

theorem parseApCommitBody_inBounds_iff (hec : tmp.ec.isSome) :
    (∀ a ∈ (parseApCommitBody host env password data h2e sae tmp (countField tmp.primeLen data)).log, a.InBounds data) ↔
      Sufficient host env tmp data := by
  obtain ⟨ec, hec⟩ := Option.isSome_iff_exists.1 hec
  have hec' : ∀ u v, (withCoefficients (frameCount host env tmp.primeLen data) u v tmp).ec = some ec := fun _ _ => hec
  have hcount : (frameCount host env tmp.primeLen data).toNat < 2 ^ 61 := by
    have : frameCount host env tmp.primeLen data < 2 ^ 31 := frameCount_lt tmp.primeLen
    omega
  have hlength : (countField tmp.primeLen data).length = data.length - (2 + tmp.primeLen) := List.length_drop
  have hread := readAt_inBounds_iff (length_countField_le tmp.primeLen data) 4
  have hdrop : ((countField tmp.primeLen data).drop 4).length ≤ data.length := by
    rw [List.length_drop]
    omega
  unfold parseApCommitBody
  rw [Run.forall_mem_bind_log]
  constructor
  · rintro ⟨hcountField, h⟩
    have hinside := hread.1 (hcountField _ (List.mem_singleton_self _))
    obtain ⟨hu, h⟩ := Run.forall_mem_bind_log.1 (h () rfl)
    obtain ⟨u, restU, hu⟩ := (parseCoefficients_inBounds_iff hcount le_rfl hdrop).1 hu
    obtain ⟨rfl, rfl, hlenU, hus, hmallocU⟩ := parseCoefficients_success_iff.1 hu
    obtain ⟨hv, h⟩ := Run.forall_mem_bind_log.1 (h _ hu)
    obtain ⟨v, restV, hv⟩ := (parseCoefficients_inBounds_iff hcount le_rfl (by rw [List.length_drop]; omega)).1 hv
    obtain ⟨rfl, rfl, hlenV, hvs, hmallocV⟩ := parseCoefficients_success_iff.1 hv
    have hpos := (decodeApCommit_inBounds_iff (hec' _ _) (by simp only [List.length_drop]; omega)).1 (h _ hv)
    have hpos : 1 ≤ frameCount host env tmp.primeLen data := hpos
    have hposNat : 0 < (frameCount host env tmp.primeLen data).toNat := by omega
    have hinsideV : (frameCount host env tmp.primeLen data).toNat * tmp.primeLen ≤
        (((countField tmp.primeLen data).drop 4).drop ((frameCount host env tmp.primeLen data).toNat *
          tmp.primeLen)).length := hlenV
    simp only [List.length_drop, hlength] at hinside hinsideV
    exact ⟨hpos, by omega, hus, hvs, hmallocU hposNat, hmallocV hposNat⟩
  · intro hs
    have hinside := hs.inside
    have hcountField : 4 ≤ (countField tmp.primeLen data).length := by omega
    have hu : (parseCoefficients data tmp.primeLen tmp.order (frameCount host env tmp.primeLen data).toNat env.mallocU
        (frameCount host env tmp.primeLen data).toNat ((countField tmp.primeLen data).drop 4) []).result =
          .ok (frameU host env tmp.primeLen data, .success, _) :=
      parseCoefficients_success_iff.2
        ⟨rfl, rfl, by rw [List.length_drop]; omega, hs.u_isScalar, fun _ => hs.mallocU⟩
    have hv : (parseCoefficients data tmp.primeLen tmp.order (frameCount host env tmp.primeLen data).toNat env.mallocV
        (frameCount host env tmp.primeLen data).toNat (((countField tmp.primeLen data).drop 4).drop
          ((frameCount host env tmp.primeLen data).toNat * tmp.primeLen)) []).result =
          .ok (frameV host env tmp.primeLen data, .success, _) :=
      parseCoefficients_success_iff.2
        ⟨rfl, rfl, by simp only [List.length_drop]; omega, hs.v_isScalar, fun _ => hs.mallocV⟩
    refine ⟨by simpa using hread.2 hcountField, fun _ _ => Run.forall_mem_bind_log.2
      ⟨(parseCoefficients_inBounds_iff hcount le_rfl hdrop).2 ⟨_, _, hu⟩, fun r hr => ?_⟩⟩
    cases hu.symm.trans hr
    refine Run.forall_mem_bind_log.2 ⟨(parseCoefficients_inBounds_iff hcount le_rfl (by
      rw [List.length_drop]; omega)).2 ⟨_, _, hv⟩, fun r hr => ?_⟩
    cases hv.symm.trans hr
    exact (decodeApCommit_inBounds_iff (hec' _ _) (by simp only [List.length_drop]; omega)).2 hs.count_pos

/-- **Where the client's parser stays in bounds**, for a frame that names an ECC group: exactly where the frame is refused
before the count, or holds a positive count and as many scalars for both polynomials, with the arrays allocated. -/
theorem parse_inBounds_iff
    (hec : ∀ s tmp rest, parseApCommitHead host sae data allowed = .ok (s, tmp, rest) → tmp.ec.isSome) :
    (∀ a ∈ (saeApParseCommit host env password sae data allowed h2e).log, a.InBounds data) ↔
      ∀ s tmp rest, parseApCommitHead host sae data allowed = .ok (s, tmp, rest) → Sufficient host env tmp data := by
  have haccesses : ∀ a ∈ (accesses (headAccesses host sae data allowed)).log, a.InBounds data := headAccesses_inBounds
  unfold saeApParseCommit
  rw [Run.forall_mem_bind_log, and_iff_right haccesses]
  cases hhead : parseApCommitHead host sae data allowed with
  | error r => simp
  | ok r =>
    obtain ⟨s, tmp, rest⟩ := r
    obtain ⟨-, rfl⟩ := parseApCommitHead_ok hhead
    have hbody : (∀ a ∈ (parseApCommitBody host env password data h2e s tmp (countField tmp.primeLen data)).log,
      a.InBounds data) ↔ _ := parseApCommitBody_inBounds_iff (hec s tmp _ hhead)
    constructor
    · intro h _ _ _ heq
      cases heq
      exact hbody.1 (h () rfl)
    · exact fun h _ _ => hbody.2 (h s tmp _ rfl)

/-- The frame names an ECC group, or is refused before the count. -/
def Small.namesEcc (frame : Bytes) : Bool :=
  match parseApCommitHead Small.host Small.client frame none with
  | .ok (_, tmp, _) => tmp.ec.isSome
  | .error _ => true

theorem Small.isSome_of_namesEcc {frame : Bytes} (h : Small.namesEcc frame = true) (s : SaeData) (tmp : SaeTmp)
    (rest : Bytes) (hhead : parseApCommitHead Small.host Small.client frame none = .ok (s, tmp, rest)) :
    tmp.ec.isSome := by
  simpa [Small.namesEcc, hhead] using h

theorem parse_inBounds_small : (Small.parse [19, 0, 8, 2, 0, 0, 0, 9, 13, 22, 3]).log.length = 21 ∧
    ∀ s tmp rest, parseApCommitHead Small.host Small.client [19, 0, 8, 2, 0, 0, 0, 9, 13, 22, 3] none =
      .ok (s, tmp, rest) → Sufficient Small.host ⟨[], true, true⟩ tmp [19, 0, 8, 2, 0, 0, 0, 9, 13, 22, 3] :=
  ⟨by decide +kernel, (parse_inBounds_iff (Small.isSome_of_namesEcc (by decide +kernel))).1
    (show ∀ a ∈ (Small.parse [19, 0, 8, 2, 0, 0, 0, 9, 13, 22, 3]).log, a.InBounds _ by decide +kernel)⟩

/-- A frame that ends after the scalar, a frame with the count zero, a frame for whose count there was no memory, a frame
that ends after the first of its two coefficients, so that the slot of the second is printed without having been stored,
and a frame with a coefficient that is freed before it is printed. -/
theorem parse_not_inBounds :
    (¬∀ a ∈ (Small.parse [19, 0, 8]).log, a.InBounds [19, 0, 8]) ∧
    (¬∀ a ∈ (Small.parse [19, 0, 8, 0, 0, 0, 0]).log, a.InBounds [19, 0, 8, 0, 0, 0, 0]) ∧
    (¬∀ a ∈ (saeApParseCommit Small.host ⟨[], false, false⟩ (ascii "PASSWORD_0") Small.client
      [19, 0, 8, 255, 255, 255, 127, 9] none false).log, a.InBounds [19, 0, 8, 255, 255, 255, 127, 9]) ∧
    (¬∀ a ∈ (Small.parse [19, 0, 8, 1, 0, 0, 0, 6]).log, a.InBounds [19, 0, 8, 1, 0, 0, 0, 6]) ∧
    ¬∀ a ∈ (Small.parse [19, 0, 8, 1, 0, 0, 0, 1, 6]).log, a.InBounds [19, 0, 8, 1, 0, 0, 0, 1, 6] := by
  decide +kernel

end DecoyAuth
