import ByteBattles.Api.CreateProblem.Integrity

/-!
# What an accepted request stores

The uploads of a request that is accepted, file by file.
-/

namespace ByteBattles.Api.CreateProblem

open ByteBattles.Lib

variable {categories : List Str} {env : Environment} {id : Str} {zip : ZipFile} {n : Nat}
  {files : List (Str × Str)} {bucket stored : Bucket (List Byte)} {testcases : List TestCase}

theorem generateObjectKey_uuid {filename filename' : Str} {u v : Uuid}
    (h : generateObjectKey id filename u = generateObjectKey id filename' v) : u = v := by
  have hrest : u.hex ++ '-' :: filename = v.hex ++ '-' :: filename' := by
    simpa [generateObjectKey] using h
  have hhex : u.hex = v.hex :=
    (List.append_inj hrest (u.length_hex.trans v.length_hex.symm)).1
  cases u
  cases v
  exact (Uuid.mk.injEq ..).mpr hhex

def Distinct (env : Environment) (first last : Nat) : Prop :=
  ∀ i j, first ≤ i → i < j → j < last → env.uuid i ≠ env.uuid j

theorem upload_stored (h : upload env id zip n files bucket = (stored, some testcases)) :
    ∀ tc ∈ testcases, Stored id stored tc := by
  have hstored := (upload_spec env id zip n files bucket).stored
  rw [h] at hstored
  exact hstored testcases rfl

/-- The first pair of files is stored, then the rest. -/
theorem upload_cons {input_path output_path : Str}
    (h : upload env id zip n ((input_path, output_path) :: files) bucket =
      (stored, some testcases)) :
    ∃ input_data output_data rest, zip.read input_path = some input_data ∧
      zip.read output_path = some output_data ∧
      testcases = ⟨id, generateObjectKey id (Str.lastSegment '/' input_path) (env.uuid (2 * n)),
        generateObjectKey id (Str.lastSegment '/' output_path) (env.uuid (2 * n + 1))⟩ :: rest ∧
      upload env id zip (n + 1) files
        ((bucket.putObject (generateObjectKey id (Str.lastSegment '/' input_path)
          (env.uuid (2 * n))) input_data).putObject
            (generateObjectKey id (Str.lastSegment '/' output_path)
              (env.uuid (2 * n + 1))) output_data) = (stored, some rest) := by
  unfold upload at h
  split at h
  case h_2 => cases h
  case h_1 input_data output_data hinput houtput =>
    dsimp only at h
    split at h
    case isTrue => cases h
    case isFalse =>
      split at h
      case isTrue => cases h
      case isFalse =>
        split at h
        case h_2 => cases h
        case h_1 bucket' rest heq =>
          obtain ⟨rfl, htestcases⟩ := Prod.mk.inj h
          exact ⟨input_data, output_data, rest, hinput, houtput,
            (Option.some.inj htestcases).symm, heq⟩

/-- Objects with other identifiers stay. -/
theorem upload_keeps (h : upload env id zip n files bucket = (stored, some testcases)) {key : Str}
    (hkey : ∀ j, 2 * n ≤ j → j < 2 * (n + files.length) →
      ∀ filename, key ≠ generateObjectKey id filename (env.uuid j)) :
    stored.getObject key = bucket.getObject key := by
  induction files generalizing n bucket testcases with
  | nil =>
      obtain ⟨rfl, -⟩ := Prod.mk.inj h
      rfl
  | cons file files ih =>
      obtain ⟨input_path, output_path⟩ := file
      obtain ⟨input_data, output_data, rest, -, -, -, hrest⟩ := upload_cons h
      rw [List.length_cons] at hkey
      rw [ih hrest fun j hj hlt => hkey j (by omega) (by omega),
        Bucket.getObject_putObject_of_ne _ (hkey (2 * n + 1) (by omega) (by omega) _),
        Bucket.getObject_putObject_of_ne _ (hkey (2 * n) (by omega) (by omega) _)]

structure Holds (zip : ZipFile) (stored : Bucket (List Byte)) (file : Str × Str)
    (tc : TestCase) : Prop where
  input : ∃ data, zip.read file.1 = some data ∧ stored.getObject tc.input_key = some data
  output : ∃ data, zip.read file.2 = some data ∧ stored.getObject tc.output_key = some data

/-- **Every file is stored** under the key of its testcase, if the identifiers differ. -/
theorem upload_holds (h : upload env id zip n files bucket = (stored, some testcases))
    (hdistinct : Distinct env (2 * n) (2 * (n + files.length))) :
    List.Forall₂ (Holds zip stored) files testcases := by
  induction files generalizing n bucket testcases with
  | nil =>
      obtain ⟨-, htestcases⟩ := Prod.mk.inj h
      obtain rfl := Option.some.inj htestcases
      exact .nil
  | cons file files ih =>
      obtain ⟨input_path, output_path⟩ := file
      obtain ⟨input_data, output_data, rest, hinput, houtput, rfl, hrest⟩ := upload_cons h
      rw [List.length_cons] at hdistinct
      have hkey {i j : Nat} (hi : 2 * n ≤ i) (hij : i < j) (hj : j < 2 * (n + (files.length + 1)))
          (filename filename' : Str) : generateObjectKey id filename (env.uuid i) ≠
            generateObjectKey id filename' (env.uuid j) :=
        fun heq => hdistinct i j hi hij hj (generateObjectKey_uuid heq)
      refine .cons ⟨⟨input_data, hinput, ?_⟩, ⟨output_data, houtput, ?_⟩⟩
        (ih hrest fun i j hi hij hj => hdistinct i j (by omega) hij (by omega))
      · dsimp only
        rw [upload_keeps hrest fun j hj hlt filename =>
            hkey (Nat.le_refl _) (by omega) (by omega) _ filename,
          Bucket.getObject_putObject_of_ne _ (hkey (Nat.le_refl _) (by omega) (by omega) _ _),
          Bucket.getObject_putObject]
      · dsimp only
        rw [upload_keeps hrest fun j hj hlt filename =>
            hkey (by omega) (by omega) (by omega) _ filename,
          Bucket.getObject_putObject]

/-! ## Accepted requests -/

/-- Once the files are paired, the tags are checked. -/
theorem validate_of_files {req : Request} (hzip : req.zip = some zip)
    (hfiles : pairedFiles req.filename zip = .ok files) :
    validate categories req = (knownTags categories req.tags).map fun tags => ⟨zip, files, tags⟩ := by
  simp only [validate, hzip, hfiles]
  cases knownTags categories req.tags with
  | error detail => rfl
  | ok tags => rfl

theorem validate_eq_ok {req : Request} {v : Validated} :
    validate categories req = .ok v ↔ req.zip = some v.zip ∧
      pairedFiles req.filename v.zip = .ok v.files ∧ knownTags categories req.tags = .ok v.tags := by
  constructor
  · intro h
    cases hzip : req.zip with
    | none => simp [validate, hzip] at h
    | some zip =>
        cases hfiles : pairedFiles req.filename zip with
        | error detail => simp [validate, hzip, hfiles, bind, Except.bind] at h
        | ok files =>
            rw [validate_of_files hzip hfiles] at h
            cases htags : knownTags categories req.tags with
            | error detail => simp [htags, Except.map] at h
            | ok tags =>
                rw [htags] at h
                obtain rfl := Except.ok.inj h
                exact ⟨rfl, hfiles, rfl⟩
  · intro h
    obtain ⟨hzip, hfiles, htags⟩ := h
    rw [validate_of_files hzip hfiles, htags]
    rfl

/-- A bundle that is accepted has files. -/
theorem pairedFiles_ne_nil {filename : Str} (h : pairedFiles filename zip = .ok files) :
    files ≠ [] := by
  unfold pairedFiles at h
  dsimp only at h
  split at h
  case isTrue => cases h
  case isFalse hnone =>
    split at h
    case isTrue => cases h
    case isFalse =>
      split at h
      case isTrue => cases h
      case isFalse =>
        rw [← Except.ok.inj h]
        rw [not_or] at hnone
        intro hnil
        exact (List.zip_eq_nil_iff.mp hnil).elim hnone.1 hnone.2

theorem resume_created {s t : State} {req : Request} {tags : List Str} {count : Nat}
    (h : resume categories env s req = (t, .created id tags count)) :
    ∃ v testcases, validate categories req = .ok v ∧ tags = v.tags ∧
      upload env req.id v.zip 0 v.files s.bucket = (t.bucket, some testcases) ∧
      t.testcases = s.testcases ++ testcases := by
  unfold resume at h
  cases hv : validate categories req with
  | error detail => simp [hv] at h
  | ok v =>
      simp only [hv] at h
      unfold tryBlock at h
      split at h
      case h_2 =>
        unfold handler at h
        split at h
        · cases congrArg Prod.snd h
        · cases congrArg Prod.snd h
      case h_1 bucket testcases htry =>
        split at htry
        case isTrue => cases htry
        case isFalse =>
          split at htry
          case h_2 => cases htry
          case h_1 bucket' testcases' hupload =>
            split at htry
            case isTrue => cases htry
            case isFalse =>
              obtain ⟨rfl, htestcases⟩ := Prod.mk.inj htry
              obtain rfl := Option.some.inj htestcases
              obtain ⟨rfl, hresponse⟩ := Prod.mk.inj h
              injection hresponse with _ htags _
              exact ⟨v, testcases', rfl, htags.symm, hupload, rfl⟩

/-- Once the checks have passed, only the `try` block fails. -/
theorem resume_of_validate {s t : State} {req : Request} {v : Validated} {status_code : Nat}
    {detail : String} (hv : validate categories req = .ok v)
    (h : resume categories env s req = (t, .error status_code detail)) : status_code = 500 := by
  unfold resume at h
  rw [hv] at h
  dsimp only at h
  split at h
  case h_1 => cases congrArg Prod.snd h
  case h_2 =>
    unfold handler at h
    split at h
    · cases congrArg Prod.snd h
      rfl
    · cases congrArg Prod.snd h
      rfl

end ByteBattles.Api.CreateProblem
