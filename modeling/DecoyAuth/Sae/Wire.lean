import DecoyAuth.Sae.Frames
import DecoyAuth.Weaver.RoundTrip

/-!
# The commit of the access point on the wire

The two loops over the coefficients, each with the other's bytes in between: `writeCoefficients_live` says which bytes
`sae_ap_write_commit` appends for a list of coefficients (`coefficientBytes`), and `parseCoefficients_bytes` says how far
`sae_ap_parse_commit` gets on these bytes. The parser accepts a coefficient only if it is a scalar, above one and below
the group order (`IsScalar`), while the writer sends any field element.
-/

namespace DecoyAuth

/-! ## Coefficients as bytes -/

/-- The bytes of a list of coefficients. -/
def coefficientBytes (primeLen : ℕ) (cs : List ℤ) : Bytes := cs.flatMap fun c => Bytes.toBe primeLen c.toNat

@[simp] theorem coefficientBytes_cons (primeLen : ℕ) (c : ℤ) (cs : List ℤ) :
    coefficientBytes primeLen (c :: cs) = Bytes.toBe primeLen c.toNat ++ coefficientBytes primeLen cs := rfl

theorem length_coefficientBytes (primeLen : ℕ) (cs : List ℤ) :
    (coefficientBytes primeLen cs).length = cs.length * primeLen := by
  induction cs with
  | nil => simp [coefficientBytes]
  | cons c cs ih =>
    rw [coefficientBytes_cons, List.length_append, Bytes.length_toBe, ih, List.length_cons, Nat.succ_mul, Nat.add_comm]

/-- The numbers in the next `n` fields. -/
def coefficientFields (primeLen : ℕ) : ℕ → Bytes → List ℤ
  | 0, _ => []
  | n + 1, rest => (Bytes.ofBe (rest.take primeLen) : ℤ) :: coefficientFields primeLen n (rest.drop primeLen)

theorem length_coefficientFields (primeLen : ℕ) : ∀ (n : ℕ) (rest : Bytes), (coefficientFields primeLen n rest).length = n
  | 0, _ => rfl
  | n + 1, rest => by rw [coefficientFields, List.length_cons, length_coefficientFields primeLen n]

/-- What `sae_parse_coefficient` accepts. -/
def IsScalar (order c : ℤ) : Prop := 1 < c ∧ c < order

instance (order c : ℤ) : Decidable (IsScalar order c) := inferInstanceAs (Decidable (_ ∧ _))

section Bin

variable {a : ℤ} {len : ℕ} {bin : Bytes}

theorem bnToBin_some (h : bnToBin a len = some bin) : a < 256 ^ len ∧ bin = Bytes.toBe len a.toNat := by
  unfold bnToBin at h
  split at h
  · next ha => cases h; exact ⟨ha, rfl⟩
  · cases h

theorem bnToBin_of_lt (h : a < 256 ^ len) : bnToBin a len = some (Bytes.toBe len a.toNat) := if_pos h

theorem ofBe_toBe_toNat (h0 : 0 ≤ a) (h : a < 256 ^ len) : ((Bytes.ofBe (Bytes.toBe len a.toNat) : ℕ) : ℤ) = a := by
  rw [Bytes.ofBe_toBe (by zify; rwa [Int.toNat_of_nonneg h0]), Int.toNat_of_nonneg h0]

theorem lt_pow_numBytes_of_lt {p : ℕ} (h : a < p) : a < 256 ^ Bytes.numBytes p :=
  h.trans (by exact_mod_cast Bytes.lt_pow_numBytes p)

/-- The fields hold the coefficients that were written into them. -/
theorem coefficientFields_bytes (tail : Bytes) : ∀ {cs : List ℤ}, (∀ c ∈ cs, 0 ≤ c ∧ c < 256 ^ len) →
    coefficientFields len cs.length (coefficientBytes len cs ++ tail) = cs
  | [], _ => rfl
  | c :: cs, h => by
    obtain ⟨⟨h0, hlt⟩, hcs⟩ := List.forall_mem_cons.1 h
    have hlen : (Bytes.toBe len c.toNat).length = len := Bytes.length_toBe _ _
    rw [coefficientBytes_cons, List.append_assoc, List.length_cons, coefficientFields, List.take_left' hlen,
      List.drop_left' hlen, ofBe_toBe_toNat h0 hlt, coefficientFields_bytes tail hcs]

end Bin

/-! ## Points as bytes -/

section Points

variable {G : EcParams}

/-- The bytes of the coordinates of a point. -/
def pointBytes (G : EcParams) (x y : ℤ) : Bytes × Bytes :=
  (Bytes.toBe (Bytes.numBytes G.prime) x.toNat, Bytes.toBe (Bytes.numBytes G.prime) y.toNat)

theorem pointToBin_valid {x y : ℤ} (h : G.Valid (.affine x y)) : pointToBin G (.affine x y) = some (pointBytes G x y) := by
  obtain ⟨-, hx, hy⟩ := EcParams.valid_affine.1 h
  simp [pointToBin, EcPoint.getAffine, pointBytes, bnToBin_of_lt (lt_pow_numBytes_of_lt hx.2),
    bnToBin_of_lt (lt_pow_numBytes_of_lt hy.2)]

theorem pointFromBin_pointBytes {x y : ℤ} (h : G.Valid (.affine x y)) (tail : Bytes) :
    pointFromBin G ((pointBytes G x y).1 ++ ((pointBytes G x y).2 ++ tail)) = some (.affine x y) := by
  obtain ⟨hc, hx, hy⟩ := EcParams.valid_affine.1 h
  simp only [pointFromBin, pointBytes]
  rw [List.take_left' (Bytes.length_toBe _ _), List.drop_left' (Bytes.length_toBe _ _),
    List.take_left' (Bytes.length_toBe _ _), ofBe_toBe_toNat hx.1 (lt_pow_numBytes_of_lt hx.2),
    ofBe_toBe_toNat hy.1 (lt_pow_numBytes_of_lt hy.2), EcParams.pointSetAffine_of_onCurve hc,
    ← EcParams.toPoint_affine hc, h]

/-- A copy of a point of the curve is that point. -/
theorem clonePoint_valid {ec : EcGroup} {P : EcPoint} (h : ec.Valid P) : clonePoint ec.toEcParams (some P) = P := by
  have hlen : ¬Bytes.numBytes ec.prime > saeMaxEccPrimeLen := not_lt.2 ec.numBytes_prime_le
  cases P with
  | infinity => simp [clonePoint, pointToBin, EcPoint.getAffine]
  | affine x y =>
    have hfrom := pointFromBin_pointBytes h []
    rw [List.append_nil] at hfrom
    simp only [clonePoint, if_neg hlen, pointToBin_valid h, hfrom, Option.isSome_some, if_true]

end Points

/-! ## Writing -/

/-- What a loop of `sae_ap_write_commit` appends to the buffer. -/
theorem writeCoefficients_live {size primeLen : ℕ} {id : TableId} {cs : List ℤ} : ∀ {left i : ℕ} {buf out : Bytes},
    i + left = cs.length → writeCoefficients size primeLen id (.live (cs.map some)) left i buf = .ok (some out) →
      out = buf ++ coefficientBytes primeLen (cs.drop i) ∧ ∀ c ∈ cs.drop i, c < 256 ^ primeLen
  | 0, i, buf, out, hi, h => by
    cases h
    rw [List.drop_eq_nil_of_le (by omega)]
    simp [coefficientBytes]
  | left + 1, i, buf, out, hi, h => by
    have hlt : i < cs.length := by omega
    unfold writeCoefficients at h
    obtain ⟨_, -, h⟩ := except_bind_ok h
    obtain ⟨c, hc, h⟩ := except_bind_ok h
    have hentry := Table.read_ok hc
    simp only [Table.entry, List.getElem?_map, List.getElem?_eq_getElem hlt, Option.map_some, Option.join_some,
      Option.some.injEq] at hentry
    cases hb : bnToBin c primeLen with
    | none => rw [hb] at h; cases h
    | some bin =>
      rw [hb] at h
      obtain ⟨hc, rfl⟩ := bnToBin_some hb
      obtain ⟨rfl, hrest⟩ := writeCoefficients_live (i := i + 1) (by omega) h
      rw [List.drop_eq_getElem_cons hlt, hentry]
      exact ⟨by simp, List.forall_mem_cons.2 ⟨hc, hrest⟩⟩

theorem wpabufPut_ok {size len : ℕ} {buf : Bytes} {u : Unit} (h : wpabufPut size buf len = .ok u) :
    buf.length + len ≤ size := by
  unfold wpabufPut at h
  split at h
  · assumption
  · cases h

/-- The commit of an access point as bytes. -/
structure ApCommitBytes (byteOrder : Bytes.ByteOrder) (primeLen group : ℕ) (scalar count : ℤ) (u v : List ℤ)
    (elements frame : Bytes) : Prop where
  scalar_lt : scalar < 256 ^ primeLen
  u_lt : ∀ c ∈ u, c < 256 ^ primeLen
  v_lt : ∀ c ∈ v, c < 256 ^ primeLen
  eq : frame = Bytes.le16 group ++ (Bytes.toBe primeLen scalar.toNat ++ (Bytes.ofInt32 byteOrder count ++
    (coefficientBytes primeLen u ++ (coefficientBytes primeLen v ++ elements))))

/-- **What `sae_ap_write_commit` writes** from live coefficients, which it frees. -/
theorem saeApWriteCommit_bytes {host : Host} {size : ℕ} {identifier : Option Bytes} {sae sae' : SaeData} {tmp : SaeTmp}
    {scalar : ℤ} {u v : List ℤ} {frame : Bytes} (ht : sae.tmp = some tmp) (hs : tmp.ownCommitScalar = some scalar)
    (hu : tmp.uCoefficients = .live (u.map some)) (hv : tmp.vCoefficients = .live (v.map some))
    (hul : u.length = tmp.numPasswords.toNat) (hvl : v.length = tmp.numPasswords.toNat)
    (h : (saeApWriteCommit host size identifier sae).result = .ok (sae', some frame)) :
    ApCommitBytes host.byteOrder tmp.primeLen sae.group scalar tmp.numPasswords u v
        (commitElements sae tmp none identifier) frame ∧ frame.length ≤ size ∧
      sae' = { sae.noteAkmSuite with
        tmp := some { tmp with uCoefficients := .released, vCoefficients := .released } } := by
  unfold saeApWriteCommit at h
  simp only [ht] at h
  obtain ⟨_, -, h⟩ := Run.bind_result_ok.1 h
  cases hb : bnToBin (tmp.ownCommitScalar.getD 0) tmp.primeLen with
  | none => rw [hb] at h; cases h
  | some bin =>
    simp only [hb] at h
    rw [hs, Option.getD_some] at hb
    obtain ⟨hlt, rfl⟩ := bnToBin_some hb
    obtain ⟨_, -, h⟩ := Run.bind_result_ok.1 h
    obtain ⟨bufU, hwu, h⟩ := Run.bind_result_ok.1 h
    cases bufU with
    | none => cases h
    | some bufU =>
      obtain ⟨bufV, hwv, h⟩ := Run.bind_result_ok.1 h
      cases bufV with
      | none => cases h
      | some bufV =>
        obtain ⟨_, hput, h⟩ := Run.bind_result_ok.1 h
        cases h
        rw [Run.lift_result, hu] at hwu
        rw [Run.lift_result, hv] at hwv
        obtain ⟨rfl, hult⟩ := writeCoefficients_live (by omega) hwu
        obtain ⟨rfl, hvlt⟩ := writeCoefficients_live (by omega) hwv
        refine ⟨⟨hlt, hult, hvlt, ?_⟩, ?_, rfl⟩
        · simp only [List.append_assoc, List.drop_zero]
          rfl
        · rw [List.length_append]
          exact wpabufPut_ok hput

/-! ## Parsing -/

section Parse

variable {data : Bytes} {primeLen size count : ℕ} {order : ℤ}

theorem not_rejected_iff {c : ℤ} (h0 : 0 ≤ c) : (!(c = 0 || c = 1 || c ≥ order)) = true ↔ IsScalar order c := by
  simp only [IsScalar, Bool.not_eq_true', Bool.or_eq_false_iff, decide_eq_false_iff_not]
  omega

/-- A slot is filled from the bytes of a coefficient, if that is a scalar. -/
theorem parseSlot_bytes {c : ℤ} {index : ℕ} (h0 : 0 ≤ c) (hc : c < 256 ^ primeLen) (tail : Bytes) :
    (parseSlot data primeLen order size true index (Bytes.toBe primeLen c.toNat ++ tail)).result =
      .ok (if IsScalar order c then some c else none) := by
  have hlen : (Bytes.toBe primeLen c.toNat).length = primeLen := Bytes.length_toBe _ _
  unfold parseSlot saeParseCoefficient
  rw [if_neg (by simp), List.take_left' hlen]
  simp only [ofBe_toBe_toNat h0 hc, not_rejected_iff h0]

/-- **A loop of `sae_ap_parse_commit` on the bytes of a list of coefficients** accepts them all if all are scalars, and
otherwise stops at the first that is not. -/
theorem parseCoefficients_bytes (data : Bytes) (order : ℤ) (count : ℕ) (tail : Bytes) : ∀ (cs acc : List ℤ),
    (∀ c ∈ cs, 0 ≤ c ∧ c < 256 ^ primeLen) →
    ((∀ c ∈ cs, IsScalar order c) → (parseCoefficients data primeLen order count true cs.length
      (coefficientBytes primeLen cs ++ tail) acc).result = .ok (acc ++ cs, .success, tail)) ∧
    ((¬∀ c ∈ cs, IsScalar order c) → ∃ init rest, init.length < cs.length ∧
      (parseCoefficients data primeLen order count true cs.length (coefficientBytes primeLen cs ++ tail) acc).result =
        .ok (acc ++ init, .unspecifiedFailure, rest))
  | [], acc, _ => ⟨fun _ => by simp [coefficientBytes, parseCoefficients], fun h => absurd (by simp) h⟩
  | c :: cs, acc, hcs => by
    obtain ⟨hc, hrest⟩ := List.forall_mem_cons.1 hcs
    obtain ⟨ihok, ihfail⟩ := parseCoefficients_bytes data order count tail cs (acc ++ [c]) hrest
    have hslot : (parseSlot data primeLen order (arrayEntries count) true (count - (cs.length + 1))
        (Bytes.toBe primeLen c.toNat ++ (coefficientBytes primeLen cs ++ tail))).result =
          .ok (if IsScalar order c then some c else none) := parseSlot_bytes hc.1 hc.2 _
    have hdrop : (Bytes.toBe primeLen c.toNat ++ (coefficientBytes primeLen cs ++ tail)).drop primeLen =
        coefficientBytes primeLen cs ++ tail := List.drop_left' (Bytes.length_toBe _ _)
    rw [List.length_cons, parseCoefficients, coefficientBytes_cons, List.append_assoc, Run.bind_of_ok hslot]
    by_cases hs : IsScalar order c
    · simp only [if_pos hs, hdrop]
      refine ⟨fun h => ?_, fun h => ?_⟩
      · rw [ihok (List.forall_mem_cons.1 h).2, List.append_assoc, List.singleton_append]
      · obtain ⟨init, rest, hlt, heq⟩ := ihfail fun h' => h (List.forall_mem_cons.2 ⟨hs, h'⟩)
        exact ⟨c :: init, rest, by simpa using hlt, by rw [heq, List.append_assoc, List.singleton_append]⟩
    · simp only [if_neg hs]
      exact ⟨fun h => absurd (List.forall_mem_cons.1 h).1 hs, fun _ => ⟨[], _, by simp, by rw [List.append_nil]; rfl⟩⟩

theorem parseSlot_some {array : Bool} {index : ℕ} {rest : Bytes} {c : ℤ}
    (h : (parseSlot data primeLen order size array index rest).result = .ok (some c)) :
    array = true ∧ primeLen ≤ rest.length ∧ IsScalar order c ∧ c = Bytes.ofBe (rest.take primeLen) := by
  unfold parseSlot saeParseCoefficient at h
  by_cases hlen : primeLen > rest.length
  · rw [if_pos hlen] at h
    cases array <;> cases h
  · rw [if_neg hlen] at h
    cases array with
    | false => cases h
    | true =>
      simp only [Except.ok.injEq, Option.ite_none_right_eq_some, Option.some.injEq] at h
      obtain ⟨hok, rfl⟩ := h
      exact ⟨rfl, not_lt.1 hlen, (not_rejected_iff (Int.natCast_nonneg _)).1 hok, rfl⟩

theorem parseSlot_field {index : ℕ} {rest : Bytes} (hlen : primeLen ≤ rest.length)
    (hc : IsScalar order (Bytes.ofBe (rest.take primeLen))) :
    (parseSlot data primeLen order size true index rest).result = .ok (some (Bytes.ofBe (rest.take primeLen) : ℤ)) := by
  have hok := (not_rejected_iff (Int.natCast_nonneg _)).2 hc
  unfold parseSlot saeParseCoefficient
  rw [if_neg (not_lt.2 hlen)]
  simp only [hok, if_true]

/-- **A loop ends with success** exactly when there are enough fields and they hold scalars, and then it has read these. -/
theorem parseCoefficients_success_iff {array : Bool} : ∀ {left : ℕ} {rest rest' : Bytes} {acc out : List ℤ},
    (parseCoefficients data primeLen order count array left rest acc).result = .ok (out, .success, rest') ↔
      out = acc ++ coefficientFields primeLen left rest ∧ rest' = rest.drop (left * primeLen) ∧
        left * primeLen ≤ rest.length ∧ (∀ c ∈ coefficientFields primeLen left rest, IsScalar order c) ∧
        (0 < left → array = true)
  | 0, rest, rest', acc, out => by
    simp [parseCoefficients, coefficientFields, eq_comm]
  | left + 1, rest, rest', acc, out => by
    unfold parseCoefficients coefficientFields
    rw [Run.bind_result_ok, List.forall_mem_cons, Nat.succ_mul]
    constructor
    · rintro ⟨slot, hslot, h⟩
      cases slot with
      | none => cases h
      | some c =>
        obtain ⟨rfl, hlen, hc, rfl⟩ := parseSlot_some hslot
        obtain ⟨rfl, rfl, hread, hcs, -⟩ := parseCoefficients_success_iff.1 h
        rw [List.length_drop] at hread
        exact ⟨by simp, by rw [List.drop_drop, Nat.add_comm], by omega, ⟨hc, hcs⟩, fun _ => rfl⟩
    · rintro ⟨rfl, rfl, hlen, ⟨hc, hcs⟩, harray⟩
      obtain rfl : array = true := harray left.succ_pos
      refine ⟨_, parseSlot_field (by omega) hc, parseCoefficients_success_iff.2 ⟨by simp, ?_, ?_, hcs, fun _ => rfl⟩⟩
      · rw [List.drop_drop, Nat.add_comm]
      · rw [List.length_drop]
        omega

theorem parseCoefficients_status {array : Bool} {status : Status} : ∀ {left : ℕ} {rest rest' : Bytes} {acc out : List ℤ},
    (parseCoefficients data primeLen order count array left rest acc).result = .ok (out, status, rest') →
      status = .success ∨ status = .unspecifiedFailure
  | 0, rest, rest', acc, out, h => by
    cases h
    exact .inl rfl
  | left + 1, rest, rest', acc, out, h => by
    unfold parseCoefficients at h
    obtain ⟨slot, -, h⟩ := Run.bind_result_ok.1 h
    cases slot with
    | none =>
      cases h
      exact .inr rfl
    | some c => exact parseCoefficients_status h

end Parse

end DecoyAuth
