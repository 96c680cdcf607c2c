import Acfqp.Library.FlatJson
import Acfqp.OutputBytes.Convergence

/-!
# Least fixed points

Where the totals respect the order of the candidates, the result of the solver is their least fixed
point. Where the total grows with the decimal digits of the candidate alone, a few rounds reach it;
renderers that pad their bytes to such a total show how many.
-/

namespace Acfqp.OutputBytes

open Library
open OperationalArtifactRole (registered)

variable {codec : Codec} {profile : OutputBytesFixedPointProfile} {renderer : Renderer}

/-! ## Rendering in full -/

def entriesOf (raw : OperationalArtifactRole → Bytes) : List (Option String × Option Bytes) :=
  registered.map fun role => (some role.value, some (raw role))

theorem lookup_entriesOf (raw : OperationalArtifactRole → Bytes) (role : OperationalArtifactRole) :
    (entriesOf raw).lookup (some role.value) = some (some (raw role)) := by
  cases role <;> rfl

theorem RenderedOperationalArtifact.make_of {profileId : ContentId} {candidate : ℕ}
    {role : OperationalArtifactRole} {raw : Bytes}
    (h : checkArtifact codec candidate role raw = .ok ()) :
    RenderedOperationalArtifact.make codec profileId candidate role raw =
      .ok ⟨profileId, candidate, role, raw, h⟩ := by
  unfold RenderedOperationalArtifact.make
  split
  · rfl
  · simp_all

theorem renderRoles_of {raw : OperationalArtifactRole → Bytes} {candidate : ℕ}
    (hchecked : ∀ role, checkArtifact codec candidate role (raw role) = .ok ())
    (hcap : ∀ role, (raw role).length ≤ profile.capByRole role)
    {roles : List OperationalArtifactRole} {total : ℕ}
    {artifacts : List (RenderedOperationalArtifact codec)}
    (htotal : total + (roles.map fun role => (raw role).length).sum ≤ profile.maxTotalBytes) :
    roles.foldlM (renderRole codec profile candidate (entriesOf raw)) (total, artifacts) =
      .ok (total + (roles.map fun role => (raw role).length).sum,
        artifacts ++ roles.map fun role =>
          ⟨codec.profileId profile, candidate, role, raw role, hchecked role⟩) := by
  induction roles generalizing total artifacts with
  | nil => simp
  | cons role roles ih =>
    simp only [List.map_cons, List.sum_cons] at htotal
    have hlookup : ((entriesOf raw).lookup (some role.value)).join = some (raw role) := by
      rw [lookup_entriesOf]
      rfl
    have hrunning : total + (raw role).length ≤ profile.maxTotalBytes := by omega
    have hrole : renderRole codec profile candidate (entriesOf raw) (total, artifacts) role =
        .ok (total + (raw role).length, artifacts ++
          [⟨codec.profileId profile, candidate, role, raw role, hchecked role⟩]) := by
      rw [renderRole, bind_of_ok (orRaise_eq_ok.mpr hlookup),
        bind_of_ok (require_eq_ok (u := ()).mpr (hcap role)),
        bind_of_ok (require_eq_ok (u := ()).mpr hrunning),
        bind_of_ok (RenderedOperationalArtifact.make_of (hchecked role))]
      rfl
    rw [List.foldlM_cons, bind_of_ok hrole, ih (by omega)]
    simp [Nat.add_assoc]

theorem materialize_of {raw : OperationalArtifactRole → Bytes} {candidate : ℕ}
    (hchecked : ∀ role, checkArtifact codec candidate role (raw role) = .ok ())
    (hcap : ∀ role, (raw role).length ≤ profile.capByRole role)
    (htotal : (registered.map fun role => (raw role).length).sum ≤ profile.maxTotalBytes) :
    ∃ set, materialize codec profile candidate (.dict (entriesOf raw)) = .ok set ∧
      set.totalBytes = (registered.map fun role => (raw role).length).sum := by
  let artifacts : List (RenderedOperationalArtifact codec) := registered.map fun role =>
    ⟨codec.profileId profile, candidate, role, raw role, hchecked role⟩
  have hroles : artifacts.map (·.role) = registered := by
    simp [artifacts, Function.comp_def]
  have hbound : ∀ item ∈ artifacts,
      item.profileId = codec.profileId profile ∧ item.candidateOutputBytes = candidate := by
    intro item hitem
    obtain ⟨role, -, rfl⟩ := List.mem_map.mp hitem
    exact ⟨rfl, rfl⟩
  let set : RenderedOperationalArtifactSet codec :=
    ⟨codec.profileId profile, candidate, artifacts, hroles, hbound⟩
  have hsum : set.totalBytes = (registered.map fun role => (raw role).length).sum := by
    simp [set, artifacts, RenderedOperationalArtifactSet.totalBytes,
      RenderedOperationalArtifactSet.roleByteCounts, RenderedOperationalArtifact.byteCount,
      Function.comp_def]
  have hkeys : (entriesOf raw).map Prod.fst = registered.map fun role => some role.value := by
    simp [entriesOf]
  have hrender : registered.foldlM (renderRole codec profile candidate (entriesOf raw)) (0, []) =
      .ok (set.totalBytes, artifacts) := by
    rw [renderRoles_of hchecked hcap (by simpa using htotal), hsum]
    simp [artifacts]
  have hmake : RenderedOperationalArtifactSet.make (codec.profileId profile) candidate artifacts =
      .ok set := by
    rw [RenderedOperationalArtifactSet.make, dif_pos hroles, dif_pos hbound]
  have hpos : 0 < set.totalBytes :=
    List.sum_pos _ set.roleByteCounts_pos (List.ne_nil_of_length_pos (by
      rw [set.roleByteCounts_length]
      decide))
  refine ⟨set, ?_, hsum⟩
  rw [materialize, bind_of_ok (require_eq_ok (u := ()).mpr hkeys), bind_of_ok hrender,
    bind_of_ok hmake, bind_of_ok (require_eq_ok (u := ()).mpr ⟨rfl, hpos⟩)]
  rfl

theorem total_of_renderRoles {raw : OperationalArtifactRole → Bytes} {candidate : ℕ}
    {roles : List OperationalArtifactRole}
    {start rendered : ℕ × List (RenderedOperationalArtifact codec)}
    (h : roles.foldlM (renderRole codec profile candidate (entriesOf raw)) start = .ok rendered) :
    rendered.1 = start.1 + (roles.map fun role => (raw role).length).sum := by
  induction roles generalizing start with
  | nil =>
    cases pure_eq_ok.mp h
    simp
  | cons role roles ih =>
    rw [List.foldlM_cons] at h
    obtain ⟨next, hnext, h⟩ := bind_eq_ok.mp h
    obtain ⟨bytes, hbytes, hnext⟩ := bind_eq_ok.mp hnext
    obtain ⟨_, -, hnext⟩ := bind_eq_ok.mp hnext
    obtain ⟨_, -, hnext⟩ := bind_eq_ok.mp hnext
    obtain ⟨artifact, -, hnext⟩ := bind_eq_ok.mp hnext
    cases pure_eq_ok.mp hnext
    rw [orRaise_eq_ok, lookup_entriesOf] at hbytes
    cases hbytes
    rw [ih h, List.map_cons, List.sum_cons]
    omega

theorem total_of_materialize {raw : OperationalArtifactRole → Bytes} {candidate : ℕ}
    {set : RenderedOperationalArtifactSet codec}
    (h : materialize codec profile candidate (.dict (entriesOf raw)) = .ok set) :
    set.totalBytes = (registered.map fun role => (raw role).length).sum := by
  obtain ⟨_, -, h⟩ := bind_eq_ok.mp h
  obtain ⟨rendered, hrendered, h⟩ := bind_eq_ok.mp h
  obtain ⟨result, -, h⟩ := bind_eq_ok.mp h
  obtain ⟨_, htotal, h⟩ := bind_eq_ok.mp h
  cases pure_eq_ok.mp h
  rw [(require_eq_ok.mp htotal).1, total_of_renderRoles hrendered]
  simp

/-! ## Padded renderers -/

open FlatJson (Fields showObject readObject)

/-- The bytes of plain characters. -/
def encode (chars : List Char) : Bytes := chars.map fun c => UInt8.ofNat c.toNat

def decode (bytes : Bytes) : List Char := bytes.map fun b => Char.ofNat b.toNat

def fieldValue : FlatJson.Scalar → FieldValue
  | .natural n => .integer n
  | .text s => .text (String.ofList s)

def documentFields (fields : Fields) : List (String × FieldValue) :=
  fields.map fun field => (String.ofList field.1, fieldValue field.2)

/-- Canonical JSON as far as flat objects of plain texts and natural numbers go. -/
def loadsFlat (bytes : Bytes) : Loaded :=
  match readObject (decode bytes) with
  | none => .refused
  | some fields => .document (.object (documentFields fields))

def flatCodec : Codec where
  loadsCanonicalJson := loadsFlat
  profileId _ := ContentId.ofNat 1
  artifactSetId _ _ _ := ContentId.ofNat 2

/-- The manifest embeds the candidate and the business result carries the padding. -/
def paddedFields (padding candidate : ℕ) (role : OperationalArtifactRole) : Fields :=
  ("artifact_role".toList, .text role.value.toList) ::
    match role with
    | .outputManifest => [("io.output_bytes".toList, .natural candidate)]
    | .businessResult => [("payload".toList, .text (List.replicate padding 'x'))]
    | _ => []

def paddedBytes (padding candidate : ℕ) (role : OperationalArtifactRole) : Bytes :=
  encode (showObject (paddedFields padding candidate role))

/-- The bytes of the eight roles without padding and without the digits of the candidate. -/
def emptyBytes : ℕ := 325

def paddedRenderer (total : ℕ → ℕ) : Renderer := fun _ candidate =>
  .dict (entriesOf (paddedBytes (total candidate - emptyBytes - decimalLength candidate) candidate))

theorem deterministic_paddedRenderer (total : ℕ → ℕ) : Deterministic (paddedRenderer total) :=
  fun _ _ _ => rfl

theorem sum_paddedBytes (padding candidate : ℕ) :
    (registered.map fun role => (paddedBytes padding candidate role).length).sum =
      emptyBytes + padding + decimalLength candidate := by
  simp [registered, paddedBytes, paddedFields, encode, showObject, FlatJson.showField,
    FlatJson.showFields, FlatJson.showText, FlatJson.showScalar, OperationalArtifactRole.value,
    emptyBytes, decimalLength]
  omega

theorem decode_encode {chars : List Char} (h : ∀ c ∈ chars, c.toNat < 128) :
    decode (encode chars) = chars := by
  rw [decode, encode, List.map_map]
  refine (List.map_congr_left fun c hc => ?_).trans (List.map_id chars)
  have hbyte : (UInt8.ofNat c.toNat).toNat = c.toNat := by
    have := h c hc
    simp only [UInt8.toNat_ofNat']
    omega
  rw [Function.comp_apply, hbyte, id, Char.ofNat_toNat]

theorem isPlain_paddedFields (padding candidate : ℕ) (role : OperationalArtifactRole) :
    FlatJson.IsPlain (paddedFields padding candidate role) := by
  have hkey : "artifact_role".toList.all FlatJson.isPlain = true := by decide
  have hvalue : role.value.toList.all FlatJson.isPlain = true := by cases role <;> decide
  have hpayload : "payload".toList.all FlatJson.isPlain = true := by decide
  have hbytes : "io.output_bytes".toList.all FlatJson.isPlain = true := by decide
  have hpadding : (List.replicate padding 'x').all FlatJson.isPlain = true := by
    rw [List.all_replicate]
    split <;> decide
  rw [List.all_eq_true] at hkey hvalue hpayload hbytes hpadding
  intro field hfield
  rcases List.mem_cons.mp hfield with rfl | htail
  · exact ⟨hkey, hvalue⟩
  · cases role <;> simp only [List.mem_singleton, List.not_mem_nil] at htail
    case businessResult => rw [htail]; exact ⟨hpayload, hpadding⟩
    case outputManifest => rw [htail]; exact ⟨hbytes, trivial⟩

theorem ordered_paddedFields (padding candidate : ℕ) (role : OperationalArtifactRole) :
    FlatJson.Ordered (paddedFields padding candidate role) := by
  cases role <;> simp [FlatJson.Ordered, paddedFields] <;> decide

theorem checkArtifact_paddedBytes (padding candidate : ℕ) (role : OperationalArtifactRole) :
    checkArtifact flatCodec candidate role (paddedBytes padding candidate role) = .ok () := by
  have hplain := isPlain_paddedFields padding candidate role
  have hread : readObject (decode (paddedBytes padding candidate role)) =
      some (paddedFields padding candidate role) := by
    rw [paddedBytes, decode_encode (FlatJson.ascii_showObject hplain),
      FlatJson.readObject_showObject hplain (ordered_paddedFields padding candidate role)]
  have hne : paddedBytes padding candidate role ≠ [] := by
    simp [paddedBytes, encode, paddedFields, showObject]
  rw [checkArtifact, bind_of_ok (require_eq_ok (u := ()).mpr hne)]
  simp only [flatCodec, loadsFlat, hread]
  cases role
  case outputManifest =>
    have hrole : (documentFields (paddedFields padding candidate .outputManifest)).lookup
        "artifact_role" = some (.text (OperationalArtifactRole.value .outputManifest)) := rfl
    rw [checkLoaded, checkFields, bind_of_ok (require_eq_ok (u := ()).mpr hrole), if_pos rfl,
      require_eq_ok]
    rfl
  all_goals rfl

def paddedLimit : ℕ := 400000

def paddedCaps : List OperationalArtifactRoleCap :=
  registered.map fun role => ⟨role, paddedLimit, by decide⟩

theorem le_of_mem_paddedCaps : ∀ item ∈ paddedCaps, item.maxBytes ≤ paddedLimit := by
  intro item hitem
  obtain ⟨role, -, rfl⟩ := List.mem_map.mp hitem
  exact le_rfl

def paddedProfile (maxIterations : ℕ) (h : WithinCap maxIterations hardMaxIterations) :
    OutputBytesFixedPointProfile where
  rendererId := ContentId.ofNat 3
  executionIdentityId := ContentId.ofNat 4
  roleCaps := paddedCaps
  maxTotalBytes := paddedLimit
  maxIterations := maxIterations
  exactRoles := rfl
  totalWithinCap := by decide
  iterationsWithinCap := h
  capsWithinTotal := le_of_mem_paddedCaps

section

variable {maxIterations : ℕ} {hmax : WithinCap maxIterations hardMaxIterations} {total : ℕ → ℕ}

theorem capByRole_paddedProfile (role : OperationalArtifactRole) :
    (paddedProfile maxIterations hmax).capByRole role = paddedLimit := by
  cases role <;> rfl

theorem rendersTo_padded {candidate : ℕ}
    (hroom : emptyBytes + decimalLength candidate ≤ total candidate)
    (hlimit : total candidate ≤ paddedLimit) :
    RendersTo flatCodec (paddedProfile maxIterations hmax) (paddedRenderer total) candidate
      (total candidate) := by
  let padding := total candidate - emptyBytes - decimalLength candidate
  have hsum : (registered.map fun role => (paddedBytes padding candidate role).length).sum =
      total candidate := by
    rw [sum_paddedBytes]
    omega
  have hcap : ∀ role, (paddedBytes padding candidate role).length ≤
      (paddedProfile maxIterations hmax).capByRole role := by
    intro role
    rw [capByRole_paddedProfile]
    refine le_trans ?_ (hsum.trans_le hlimit)
    exact List.le_sum_of_mem (List.mem_map_of_mem (OperationalArtifactRole.mem_registered role))
  obtain ⟨set, hset, htotal⟩ := materialize_of (checkArtifact_paddedBytes padding candidate) hcap
    (hsum.trans_le hlimit)
  exact ⟨set, hset, htotal.trans hsum⟩

theorem ascending_padded (htotal : Monotone total) :
    Ascending (RendersTo flatCodec (paddedProfile maxIterations hmax) (paddedRenderer total)) := by
  rintro a b _ _ ⟨first, hfirst, rfl⟩ ⟨second, hsecond, rfl⟩ hle
  rw [total_of_materialize hfirst, total_of_materialize hsecond, sum_paddedBytes, sum_paddedBytes]
  have := htotal hle
  have := decimalLength_mono hle
  omega

end

def digitTotal (base perDigit : ℤ) (candidate : ℕ) : ℕ :=
  (base + perDigit * decimalLength candidate).toNat

theorem monotone_digitTotal {base perDigit : ℤ} (hpos : 0 ≤ perDigit) :
    Monotone (digitTotal base perDigit) := by
  intro a b hle
  have hlength : (decimalLength a : ℤ) ≤ decimalLength b := by
    exact_mod_cast decimalLength_mono hle
  have := mul_le_mul_of_nonneg_left hlength hpos
  exact Int.toNat_le_toNat (by omega)

/-- The totals of up to six digits fit the limits. -/
def Fits (base perDigit : ℤ) : Prop :=
  0 ≤ perDigit ∧ emptyBytes + 6 ≤ base + perDigit ∧ base + perDigit * 6 ≤ paddedLimit

instance (base perDigit : ℤ) : Decidable (Fits base perDigit) :=
  inferInstanceAs (Decidable (_ ∧ _))

theorem growsWithDigits_padded {base perDigit : ℤ} (h : Fits base perDigit) {maxIterations : ℕ}
    {hmax : WithinCap maxIterations hardMaxIterations} :
    GrowsWithDigits flatCodec (paddedProfile maxIterations hmax)
      (paddedRenderer (digitTotal base perDigit)) base perDigit := by
  intro candidate hcandidate
  obtain ⟨hpos, hroom, hlimit⟩ := h
  have hsix : decimalLength candidate ≤ 6 := by
    have hle : candidate ≤ 400000 := hcandidate
    exact (decimalLength_le_iff (by omega)).mpr (by omega)
  have hone := decimalLength_pos candidate
  have hlow : perDigit * 1 ≤ perDigit * decimalLength candidate :=
    mul_le_mul_of_nonneg_left (by omega) hpos
  have hhigh : perDigit * decimalLength candidate ≤ perDigit * 6 :=
    mul_le_mul_of_nonneg_left (by omega) hpos
  have htotal : (digitTotal base perDigit candidate : ℤ) =
      base + perDigit * decimalLength candidate := Int.toNat_of_nonneg (by omega)
  exact ⟨_, rendersTo_padded (by omega) (by omega), htotal⟩

/-! ## The solver -/

/-- What a deterministic renderer with ascending totals is solved to embeds its own total, which is
the least fixed point; and where the total grows with the digits alone, five rounds are enough, and
four where the base is not negative. -/
theorem solveOutputBytesFixedPoint_least_and_converges (codec : Codec)
    (profile : OutputBytesFixedPointProfile) (renderer : Renderer)
    (hdet : Deterministic renderer) (hascends : Ascending (RendersTo codec profile renderer)) :
    (∀ result, solveOutputBytesFixedPoint codec profile renderer = .ok result →
      Embeds result.fixedArtifacts result.outputBytes ∧
        IsLeast {x | RendersTo codec profile renderer x x} result.outputBytes) ∧
    ∀ base perDigit, GrowsWithDigits codec profile renderer base perDigit →
      5 ≤ profile.maxIterations ∨ 0 ≤ base ∧ 4 ≤ profile.maxIterations →
      ∃ result, solveOutputBytesFixedPoint codec profile renderer = .ok result := by
  constructor
  · intro result hresult
    obtain ⟨-, hrun, hfixed⟩ := iterate_eq_ok hdet hresult
    constructor
    · have hcandidate := (renderOnce_eq_ok hfixed).2.1
      simpa [hcandidate] using result.fixedArtifacts.embeds
    · exact hascends.isLeast_fixed hrun ⟨_, hfixed, rfl⟩
  · intro base perDigit hgrows hlimit
    obtain ⟨c, hdigits, hrun⟩ := hgrows.exists_run
    have hmono := monotone_run hascends hdigits.start hrun
    have hbound : ∀ i, c i < 10 ^ 10 := by
      intro i
      have hcap : profile.maxTotalBytes ≤ 1024 * 1024 * 1024 := profile.totalWithinCap.2
      have := (hmono i).trans (hrun i).le_maxTotalBytes
      omega
    obtain ⟨k, hk, hrepeat⟩ : ∃ k < profile.maxIterations, c (k + 1) = c k := by
      rcases hlimit with hfive | ⟨hbase, hfour⟩
      · obtain ⟨k, hk, hrepeat⟩ := hdigits.repeats (hmono 1) hbound
        exact ⟨k, by omega, hrepeat⟩
      · obtain ⟨k, hk, hrepeat⟩ := hdigits.repeats_of_base_nonneg hbase (hmono 1) hbound
        exact ⟨k, by omega, hrepeat⟩
    have htraced : Traced codec profile (c 0) [] := by
      rw [hdigits.start]
      exact .nil
    have hreturns := iterate_returns hdet hrun hmono hrepeat hk htraced (by simp)
    rw [hdigits.start] at hreturns
    exact hreturns

theorem fits_units : Fits 998 1 := by decide

theorem fits_copies : Fits (-49399) 49799 := by decide

/-- Three rounds are not enough for the totals 999, 1001 and 1002, nor four for the totals 400,
99998, 199596 and 249395. -/
theorem solveOutputBytesFixedPoint_limited :
    (Deterministic (paddedRenderer (digitTotal 998 1)) ∧
      Ascending (RendersTo flatCodec (paddedProfile 3 (by decide))
        (paddedRenderer (digitTotal 998 1))) ∧
      GrowsWithDigits flatCodec (paddedProfile 3 (by decide))
        (paddedRenderer (digitTotal 998 1)) 998 1 ∧
      solveOutputBytesFixedPoint flatCodec (paddedProfile 3 (by decide))
          (paddedRenderer (digitTotal 998 1)) =
        .error (.failed "output-byte fixed point did not converge within the iteration cap")) ∧
    (Deterministic (paddedRenderer (digitTotal (-49399) 49799)) ∧
      Ascending (RendersTo flatCodec (paddedProfile 4 (by decide))
        (paddedRenderer (digitTotal (-49399) 49799))) ∧
      GrowsWithDigits flatCodec (paddedProfile 4 (by decide))
        (paddedRenderer (digitTotal (-49399) 49799)) (-49399) 49799 ∧
      solveOutputBytesFixedPoint flatCodec (paddedProfile 4 (by decide))
          (paddedRenderer (digitTotal (-49399) 49799)) =
        .error (.failed "output-byte fixed point did not converge within the iteration cap")) := by
  constructor
  · have hascends : Ascending (RendersTo flatCodec (paddedProfile 3 (by decide))
        (paddedRenderer (digitTotal 998 1))) :=
      ascending_padded (monotone_digitTotal fits_units.1)
    have hgrows : GrowsWithDigits flatCodec (paddedProfile 3 (by decide))
        (paddedRenderer (digitTotal 998 1)) 998 1 := growsWithDigits_padded fits_units
    obtain ⟨c, hdigits, hrun⟩ := hgrows.exists_run
    have h1 : c 1 = 999 := hdigits.value_succ hdigits.start (by decide)
    have h2 : c 2 = 1001 := hdigits.value_succ h1 (by decide)
    have h3 : c 3 = 1002 := hdigits.value_succ h2 (by decide)
    refine ⟨deterministic_paddedRenderer _, hascends, hgrows, ?_⟩
    refine solve_of_open (deterministic_paddedRenderer _) hascends hdigits.start hrun ?_
    intro k hk
    have hk : k < 3 := hk
    interval_cases k <;> simp [hdigits.start, h1, h2, h3]
  · have hascends : Ascending (RendersTo flatCodec (paddedProfile 4 (by decide))
        (paddedRenderer (digitTotal (-49399) 49799))) :=
      ascending_padded (monotone_digitTotal fits_copies.1)
    have hgrows : GrowsWithDigits flatCodec (paddedProfile 4 (by decide))
        (paddedRenderer (digitTotal (-49399) 49799)) (-49399) 49799 :=
      growsWithDigits_padded fits_copies
    obtain ⟨c, hdigits, hrun⟩ := hgrows.exists_run
    have h1 : c 1 = 400 := hdigits.value_succ hdigits.start (by decide)
    have h2 : c 2 = 99998 := hdigits.value_succ h1 (by decide)
    have h3 : c 3 = 199596 := hdigits.value_succ h2 (by decide)
    have h4 : c 4 = 249395 := hdigits.value_succ h3 (by decide)
    refine ⟨deterministic_paddedRenderer _, hascends, hgrows, ?_⟩
    refine solve_of_open (deterministic_paddedRenderer _) hascends hdigits.start hrun ?_
    intro k hk
    have hk : k < 4 := hk
    interval_cases k <;> simp [hdigits.start, h1, h2, h3, h4]

/-- Four rounds solve the first of them. -/
theorem solveOutputBytesFixedPoint_padded :
    ∃ result, solveOutputBytesFixedPoint flatCodec (paddedProfile 4 (by decide))
        (paddedRenderer (digitTotal 998 1)) = .ok result ∧
      Embeds result.fixedArtifacts result.outputBytes ∧
      IsLeast {x | RendersTo flatCodec (paddedProfile 4 (by decide))
        (paddedRenderer (digitTotal 998 1)) x x} result.outputBytes := by
  obtain ⟨hleast, hconverges⟩ := solveOutputBytesFixedPoint_least_and_converges flatCodec
    (paddedProfile 4 (by decide)) (paddedRenderer (digitTotal 998 1))
    (deterministic_paddedRenderer _) (ascending_padded (monotone_digitTotal fits_units.1))
  obtain ⟨result, hresult⟩ := hconverges 998 1 (growsWithDigits_padded fits_units)
    (.inr ⟨by decide, by decide⟩)
  exact ⟨result, hresult, hleast result hresult⟩

end Acfqp.OutputBytes
