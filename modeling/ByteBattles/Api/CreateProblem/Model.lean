import ByteBattles.Api.Storage
import ByteBattles.Lib.Transition

/-!
# Interleaved `create_problem` requests

The coroutine of `api/app/routes/problems.py` is suspended only while it reads the
uploaded archive: the check for a problem with the same id stands before that
point, and the validation, the flush, the uploads, the commit and the failure
handler after it.  Each of the two parts is one step.
-/

namespace ByteBattles.Api.CreateProblem

open ByteBattles.Lib

/-- The entries of an archive in their order; reading a damaged entry raises. -/
structure ZipFile where
  entries : List (Str × Option (List Byte))

def ZipFile.namelist (zip : ZipFile) : List Str := zip.entries.map Prod.fst

/-- `zip_file.read`: the last entry of a name counts. -/
def ZipFile.read (zip : ZipFile) (name : Str) : Option (List Byte) :=
  (zip.entries.reverse.find? (·.1 == name)).bind Prod.snd

/-- The form fields on which the coroutine branches. -/
structure Request where
  id : Str
  /-- `tests_zip.filename`. -/
  filename : Str
  /-- `none` when the bytes are not an archive. -/
  zip : Option ZipFile
  /-- The tags of `ProblemArrayDataValidator`, `none` when the parser or the validator raises. -/
  tags : Option (List Str)

inductive Response
  | error (status_code : Nat) (detail : String)
  | created (id : Str) (tags : List Str) (testcases : Nat)
  deriving DecidableEq, Repr

/-! ## Validation -/

def zipSuffix : Str := ".zip".toList

def inputsFolder : Str := "/inputs/".toList

def outputsFolder : Str := "/outputs/".toList

def ZipFile.files (zip : ZipFile) (folder : Str) : List Str :=
  Str.sorted (zip.namelist.filter fun f => folder.isPrefixOf f && f.getLast? != some '/')

def pairedFiles (filename : Str) (zip : ZipFile) : Except String (List (Str × Str)) :=
  let folder := Str.firstSegment '.' filename
  let input_files := zip.files (folder ++ inputsFolder)
  let output_files := zip.files (folder ++ outputsFolder)
  if input_files = [] ∨ output_files = [] then
    .error "ZIP must contain inputs/ and outputs/"
  else if input_files.length ≠ output_files.length then
    .error "Mismatch between input and output files"
  else if (input_files.zip output_files).any fun (i, o) =>
      Str.lastSegment '/' i != Str.lastSegment '/' o then
    .error ("Mismatch in input and output file name. " ++
      "Each input file should have a corespoinding output file")
  else .ok (input_files.zip output_files)

def knownTags (categories : List Str) (tags : Option (List Str)) : Except String (List Str) :=
  match tags with
  | none => .error "Invalid format for tags, constraints, or sample_io"
  | some tags =>
      let found := categories.filter fun slug => slug ∈ tags
      if found.length ≠ tags.length then .error "One or more tags are invalid" else .ok found

structure Validated where
  zip : ZipFile
  files : List (Str × Str)
  tags : List Str

/-- The checks between the suspension point and the `try` block. -/
def validate (categories : List Str) (req : Request) : Except String Validated := do
  match req.zip with
  | none => .error "Invalid ZIP file"
  | some zip =>
      let files ← pairedFiles req.filename zip
      let tags ← knownTags categories req.tags
      .ok ⟨zip, files, tags⟩

/-! ## The store -/

structure TestCase where
  problem_id : Str
  input_key : Str
  output_key : Str
  deriving DecidableEq, Repr

inductive Position
  | received (req : Request)
  /-- Suspended in `await tests_zip.read()`. -/
  | reading (req : Request)
  | responded (res : Response)

structure State where
  /-- The primary keys of the committed problems. -/
  problems : List Str
  /-- The committed testcases. -/
  testcases : List TestCase
  bucket : Bucket (List Byte)
  requests : List Position

inductive Call
  | flush
  | put (n : Nat)
  | commit
  | deleteFolder
  deriving DecidableEq, Repr

/-- What a request meets: which calls raise, and the identifiers drawn for its uploads. -/
structure Environment where
  raises : Call → Bool
  uuid : Nat → Uuid

/-- `db.flush()` of the new problem: a second row with its primary key is rejected. -/
def FlushRaises (env : Environment) (s : State) (id : Str) : Prop :=
  env.raises .flush = true ∨ id ∈ s.problems

instance (env : Environment) (s : State) (id : Str) : Decidable (FlushRaises env s id) :=
  inferInstanceAs (Decidable (_ ∨ _))

/-- The upload loop from file `n` on.  When a call raises, what has been stored stays. -/
def upload (env : Environment) (id : Str) (zip : ZipFile) :
    Nat → List (Str × Str) → Bucket (List Byte) → Bucket (List Byte) × Option (List TestCase)
  | _, [], bucket => (bucket, some [])
  | n, (input_path, output_path) :: files, bucket =>
      match zip.read input_path, zip.read output_path with
      | some input_data, some output_data =>
          let input_key :=
            generateObjectKey id (Str.lastSegment '/' input_path) (env.uuid (2 * n))
          let output_key :=
            generateObjectKey id (Str.lastSegment '/' output_path) (env.uuid (2 * n + 1))
          if env.raises (.put (2 * n)) then (bucket, none)
          else if env.raises (.put (2 * n + 1)) then (bucket.putObject input_key input_data, none)
          else
            let stored := (bucket.putObject input_key input_data).putObject output_key output_data
            match upload env id zip (n + 1) files stored with
            | (bucket, some testcases) =>
                (bucket, some (⟨id, input_key, output_key⟩ :: testcases))
            | (bucket, none) => (bucket, none)
      | _, _ => (bucket, none)

/-- The `try` block: the bucket after it, and the testcases if nothing raised. -/
def tryBlock (env : Environment) (s : State) (id : Str) (v : Validated) :
    Bucket (List Byte) × Option (List TestCase) :=
  if FlushRaises env s id then (s.bucket, none)
  else
    match upload env id v.zip 0 v.files s.bucket with
    | (bucket, some testcases) =>
        if env.raises .commit then (bucket, none) else (bucket, some testcases)
    | (bucket, none) => (bucket, none)

/-- The failure handler, after the rollback. -/
def handler (env : Environment) (s : State) (id : Str) (bucket : Bucket (List Byte)) :
    State × Response :=
  if env.raises .deleteFolder then
    ({ s with bucket := bucket }, .error 500 "Internal Server Error")
  else
    ({ s with bucket := deleteProblemFolder bucket id }, .error 500 "Unknown Error Occurred")

/-- From the suspension point to the response. -/
def resume (categories : List Str) (env : Environment) (s : State) (req : Request) :
    State × Response :=
  match validate categories req with
  | .error detail => (s, .error 400 detail)
  | .ok v =>
      match tryBlock env s req.id v with
      | (bucket, some testcases) =>
          ({ s with
              problems := s.problems ++ [req.id]
              testcases := s.testcases ++ testcases
              bucket := bucket },
            .created req.id v.tags v.files.length)
      | (bucket, none) => handler env s req.id bucket

/-- Up to the suspension point. -/
def check (s : State) (req : Request) : Position :=
  if req.id ∈ s.problems then .responded (.error 400 "Problem with key already exists")
  else if ¬ zipSuffix <:+ req.filename then .responded (.error 400 "Only ZIP files are allowed")
  else .reading req

inductive Action
  | arrive (req : Request)
  | check (i : Nat)
  | resume (i : Nat) (env : Environment)

def step (categories : List Str) (s : State) : Action → Option State
  | .arrive req => some { s with requests := s.requests ++ [.received req] }
  | .check i =>
      match s.requests[i]? with
      | some (.received req) => some { s with requests := s.requests.set i (check s req) }
      | _ => none
  | .resume i env =>
      match s.requests[i]? with
      | some (.reading req) =>
          let (t, res) := resume categories env s req
          some { t with requests := s.requests.set i (.responded res) }
      | _ => none

def start : State where
  problems := []
  testcases := []
  bucket := []
  requests := []

def system (categories : List Str) : System State Action where
  init := fun s => s = start
  step := step categories

end ByteBattles.Api.CreateProblem
