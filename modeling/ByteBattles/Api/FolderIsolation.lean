import ByteBattles.Api.Effects

/-!
# One folder for each problem

`delete_problem_folder` removes what begins with the folder of a problem.  An id may
contain a slash, and then its folder may lie within that of another problem.
-/

namespace ByteBattles.Api

open ByteBattles.Lib

open CreateProblem (KeyOf Within)

variable {lib : Libraries} {cfg : Config} {env : Environment} {s t : Store} {st st' : State}
  {p q key : Str}

structure ProblemId where
  text : Str
  text_ne : text ≠ []
  length_le : text.length ≤ 6

def Request.IsOn (p : Str) : Request → Prop
  | .deleteProblem _ problem_id => problem_id = p
  | .createProblem _ form => form.id = p
  | _ => False

def Isolated (p q : Str) : Prop :=
  ∀ lib cfg st st' env request, (system lib cfg).Reachable st → request.IsOn p →
    step lib cfg st (.request env request) = some st' →
      ∀ key data, KeyOf q key → st.store.testcaseFiles.getObject key = some data →
        st'.store.testcaseFiles.getObject key = some data

/-! ## Ids that keep apart -/

theorem deleteProblemFolder_getObject (bucket : Bucket (List Byte)) (hkey : KeyOf q key)
    (hout : ¬ Within p q) : (deleteProblemFolder bucket p).getObject key = bucket.getObject key :=
  Bucket.getObject_deleteObjects fun hmem =>
    hout (hkey.within (Bucket.prefix_of_mem_listObjects hmem))

theorem keyOf_ne (hkey : KeyOf q key) (hout : ¬ Within p q) (path : Str) (u : Uuid) :
    key ≠ generateObjectKey p (Str.lastSegment '/' path) u := by
  rintro rfl
  exact hout (hkey.within (key_mem_folder (.inl rfl)))

theorem upload_getObject (bundle : CreateProblem.Environment) (zip : CreateProblem.ZipFile)
    (n : Nat) (files : List (Str × Str)) (bucket : Bucket (List Byte)) (hkey : KeyOf q key)
    (hout : ¬ Within p q) :
    (CreateProblem.upload bundle p zip n files bucket).1.getObject key = bucket.getObject key := by
  induction files generalizing n bucket with
  | nil => rfl
  | cons file files ih =>
      obtain ⟨input_path, output_path⟩ := file
      unfold CreateProblem.upload
      split
      case h_2 => rfl
      case h_1 input_data output_data _ _ =>
        simp only
        have hinput := Bucket.getObject_putObject_of_ne (b := bucket) input_data
          (keyOf_ne hkey hout input_path (bundle.uuid (2 * n)))
        split
        case isTrue => rfl
        case isFalse =>
          split
          case isTrue => exact hinput
          case isFalse =>
            generalize hstored : Bucket.putObject (bucket.putObject _ input_data) _ output_data =
              stored
            have hsame : stored.getObject key = bucket.getObject key := by
              rw [← hstored, Bucket.getObject_putObject_of_ne output_data
                (keyOf_ne hkey hout output_path (bundle.uuid (2 * n + 1))), hinput]
            have hrest := ih (n + 1) stored
            split
            case h_1 heq =>
              rw [heq] at hrest
              exact hrest.trans hsame
            case h_2 heq =>
              rw [heq] at hrest
              exact hrest.trans hsame

theorem tryBlock_getObject (bundle : CreateProblem.Environment) (c : CreateProblem.State)
    (v : CreateProblem.Validated) (hkey : KeyOf q key) (hout : ¬ Within p q) :
    (CreateProblem.tryBlock bundle c p v).1.getObject key = c.bucket.getObject key := by
  have hup := upload_getObject bundle v.zip 0 v.files c.bucket hkey hout
  unfold CreateProblem.tryBlock
  split
  case isTrue => rfl
  case isFalse =>
    split
    case h_1 heq =>
      rw [heq] at hup
      split
      case isTrue => exact hup
      case isFalse => exact hup
    case h_2 heq =>
      rw [heq] at hup
      exact hup

theorem resume_getObject (categories : List Str) (bundle : CreateProblem.Environment)
    (c : CreateProblem.State) (request : CreateProblem.Request) (hkey : KeyOf q key)
    (hout : ¬ Within request.id q) :
    (CreateProblem.resume categories bundle c request).1.bucket.getObject key =
      c.bucket.getObject key := by
  unfold CreateProblem.resume
  cases CreateProblem.validate categories request with
  | error detail => rfl
  | ok v =>
      have htry := tryBlock_getObject bundle c v hkey hout
      cases hresult : CreateProblem.tryBlock bundle c request.id v with
      | mk bucket testcases =>
          rw [hresult] at htry
          simp only [hresult]
          cases testcases with
          | some testcases => exact htry
          | none =>
              simp only [CreateProblem.handler]
              split
              case isTrue => exact htry
              case isFalse => exact (deleteProblemFolder_getObject bucket hkey hout).trans htry

theorem effect_getObject {request : Request} (heffect : Effect lib env s request t)
    (hon : request.IsOn p) (hkey : KeyOf q key) (hout : ¬ Within p q) :
    t.testcaseFiles.getObject key = s.testcaseFiles.getObject key := by
  cases heffect with
  | unchanged => rfl
  | @creationFailed token form c status_code detail hresume =>
      obtain rfl := hon
      have hsame := resume_getObject s.categories env.bundle s.creation form.toRequest hkey hout
      rw [hresume] at hsame
      exact hsame
  | @created token form c id tags testcases hnew hresume =>
      obtain rfl := hon
      have hsame := resume_getObject s.categories env.bundle s.creation form.toRequest hkey hout
      rw [hresume] at hsame
      exact hsame
  | filesDeleted => rfl
  | allFilesDeleted => rfl
  | folderDeleted =>
      obtain rfl := hon
      exact deleteProblemFolder_getObject _ hkey hout
  | problemDeleted =>
      obtain rfl := hon
      exact deleteProblemFolder_getObject _ hkey hout
  | registered => cases hon
  | updated => cases hon
  | userDeleted => cases hon
  | tagged => cases hon
  | submission => cases hon

theorem isolated_of_not_within (hout : ¬ Within p q) : Isolated p q := by
  intro lib cfg st st' env request _ hon hstep key data hkey hdata
  cases moves_of_step hstep with
  | request hnow htoken hserve heffect =>
      rw [effect_getObject heffect hon hkey hout]
      exact hdata

/-! ## Ids that do not -/

def flushFails (now : Nat) : Environment :=
  { quiet now CreateProblem.zeros with
    bundle := { CreateProblem.calm with raises := fun c => c = .flush } }

theorem complete_sumForm (hp : p ≠ []) : (sumForm p true).Complete := by
  simp [ProblemForm.Complete, sumForm, hp.symm]

theorem check_sumForm (hnew : p ∉ s.problems.map (·.id)) :
    CreateProblem.check s.creation (sumForm p true).toRequest =
      .reading (sumForm p true).toRequest := by
  have hzip : CreateProblem.zipSuffix <:+ (sumForm p true).filename := by
    show CreateProblem.zipSuffix <:+ CreateProblem.twoSum.filename
    decide
  exact ProblemForm.check_reading hnew hzip

def firstKey (p : Str) : Str := generateObjectKey p ['1'] CreateProblem.zeros

def secondKey (p : Str) : Str := generateObjectKey p ['1'] CreateProblem.ones

theorem keyOf_firstKey (p : Str) : KeyOf p (firstKey p) := ⟨['1'], _, by decide, rfl⟩

def bundled (bucket : Bucket (List Byte)) (p : Str) : Bucket (List Byte) :=
  (bucket.putObject (firstKey p) [49]).putObject (secondKey p) [50]

theorem resume_calm {c : CreateProblem.State} (hnew : p ∉ c.problems) :
    CreateProblem.resume [] CreateProblem.calm c (sumForm p true).toRequest =
      ({ c with
          problems := c.problems ++ [p]
          testcases := c.testcases ++ [⟨p, firstKey p, secondKey p⟩]
          bucket := bundled c.bucket p },
        .created p [] 1) := by
  have hflush : ¬ CreateProblem.FlushRaises CreateProblem.calm c p := by
    simp [CreateProblem.FlushRaises, CreateProblem.calm, hnew]
  have htry : CreateProblem.tryBlock CreateProblem.calm c p
      ⟨⟨[("t/inputs/1".toList, some [49]), ("t/outputs/1".toList, some [50])]⟩,
        [("t/inputs/1".toList, "t/outputs/1".toList)], []⟩ =
      (bundled c.bucket p, some [⟨p, firstKey p, secondKey p⟩]) := by
    rw [CreateProblem.tryBlock, if_neg hflush]
    rfl
  have hvalidate : CreateProblem.validate [] (sumForm p true).toRequest =
      .ok ⟨⟨[("t/inputs/1".toList, some [49]), ("t/outputs/1".toList, some [50])]⟩,
        [("t/inputs/1".toList, "t/outputs/1".toList)], []⟩ := rfl
  rw [CreateProblem.resume, hvalidate]
  simp only [show (sumForm p true).toRequest.id = p from rfl, htry]
  rfl

theorem resume_flushFails (now : Nat) (c : CreateProblem.State) (p : Str) :
    CreateProblem.resume [] (flushFails now).bundle c (sumForm p true).toRequest =
      ({ c with bucket := deleteProblemFolder c.bucket p },
        .error 500 "Unknown Error Occurred") := rfl

theorem createProblem_quiet {now : Nat} (hp : p ≠ []) (hcategories : s.categories = [])
    (hnew : p ∉ s.problems.map (·.id)) :
    (createProblem (quiet now CreateProblem.zeros) (sumForm p true)).Ends s fun _ t =>
      t.users = s.users ∧ t.categories = s.categories ∧
        t.problems.map (·.id) = s.problems.map (·.id) ++ [p] ∧
        t.testcaseFiles = bundled s.testcaseFiles p := by
  unfold createProblem
  refine Handler.Ends.refuseIf_bind (fun h => absurd (complete_sumForm hp) h) fun _ => ?_
  apply Handler.Ends.read_bind
  have hresume : CreateProblem.resume s.categories (quiet now CreateProblem.zeros).bundle s.creation
      (sumForm p true).toRequest = _ := hcategories ▸ resume_calm hnew
  rw [check_sumForm hnew, hresume]
  apply Handler.Ends.write_bind
  apply Handler.Ends.write_bind
  apply Handler.Ends.pure
  refine ⟨rfl, rfl, ?_, rfl⟩
  rw [Store.addProblem, List.map_append]
  rfl

/-- The failure handler removes the folder. -/
theorem createProblem_flushFails {now : Nat} (hp : p ≠ []) (hcategories : s.categories = [])
    (hnew : p ∉ s.problems.map (·.id)) :
    (createProblem (flushFails now) (sumForm p true)).Ends s fun _ t =>
      t.testcaseFiles = deleteProblemFolder s.testcaseFiles p := by
  unfold createProblem
  refine Handler.Ends.refuseIf_bind (fun h => absurd (complete_sumForm hp) h) fun _ => ?_
  apply Handler.Ends.read_bind
  rw [check_sumForm hnew, hcategories, resume_flushFails]
  apply Handler.Ends.write_bind
  exact Handler.Ends.raise rfl

/-- An administrator asks for a problem. -/
theorem step_createProblem {form : ProblemForm} {token : Option Token} {P : Store → Prop}
    (hnow : st.now ≤ env.now) (htoken : st.CanPresent token) (hquery : env.raises .query = false)
    (hadmin : (getCurrentAdmin st.store.users env.now token).isOk = true)
    (hroute : (createProblem env form).Ends st.store fun _ t => P t) :
    ∃ st', step lib cfg st (.request env (.createProblem token form)) = some st' ∧
      P st'.store ∧ st'.now = env.now ∧ st.issued ⊆ st'.issued := by
  have hserve : (serve lib cfg env (.createProblem token form)).Ends st.store fun _ t => P t := by
    apply ends_respond
    refine ends_withCurrentAdmin (fun h => by simp [hquery] at h) (fun e herror => ?_)
      fun _ _ _ => hroute
    simp [herror, Except.isOk, Except.toBool] at hadmin
  refine ⟨_, if_pos ⟨hnow, htoken⟩, hserve, rfl, ?_⟩
  rw [State.issued, State.issued, List.flatMap_append]
  exact List.subset_append_left _ _

theorem State.CanPresent.mono {token : Option Token} (h : st.CanPresent token)
    (hsub : st.issued ⊆ st'.issued) : st'.CanPresent token := by
  cases token with
  | none => trivial
  | some token =>
      cases token with
      | signed claims => exact hsub h
      | other text => trivial

def adminRun : List Action :=
  [.request (quiet 1 CreateProblem.zeros) (.register ann),
    .promote 1,
    .request (quiet 5 CreateProblem.zeros) (.login ann.username ann.password)]

structure SignedIn (st : State) : Prop where
  now : st.now ≤ 6
  token : st.CanPresent (some annToken)
  first : (getCurrentAdmin st.store.users 6 (some annToken)).isOk = true
  second : (getCurrentAdmin st.store.users 7 (some annToken)).isOk = true
  problems : st.store.problems = []
  categories : st.store.categories = []
  testcaseFiles : st.store.testcaseFiles = []

theorem exists_signedIn : ∃ st, (system plain halfHour).Reachable st ∧ SignedIn st := by
  obtain ⟨st, hpath, hnow, htoken, hfirst, hsecond, hproblems, hcategories, hfiles⟩ :=
    System.exists_path (system plain halfHour) (fun _ _ => True) start adminRun
      (fun st => st.now ≤ 6 ∧ st.CanPresent (some annToken) ∧
        (getCurrentAdmin st.store.users 6 (some annToken)).isOk = true ∧
        (getCurrentAdmin st.store.users 7 (some annToken)).isOk = true ∧
        st.store.problems.isEmpty = true ∧ st.store.categories.isEmpty = true ∧
        st.store.testcaseFiles.isEmpty = true) (by decide)
  exact ⟨st, ⟨_, rfl, hpath⟩, hnow, htoken, hfirst, hsecond, List.isEmpty_iff.mp hproblems,
    List.isEmpty_iff.mp hcategories, List.isEmpty_iff.mp hfiles⟩

theorem firstKey_deleted (h : Within p q) :
    (deleteProblemFolder (bundled [] q) p).getObject (firstKey q) = none := by
  have hlisted : firstKey q ∈ (bundled [] q).listObjects maxKeys (problemFolder p) := by
    apply Bucket.mem_listObjects
    · have hlen := List.length_filter_le (fun o : Str × List Byte => o.1 != secondKey q)
        (Bucket.putObject [] (firstKey q) [49])
      exact (Nat.succ_le_succ hlen).trans (show 2 ≤ 1000 by decide)
    · simp [bundled]
    · exact key_mem_folder h
  by_contra hfound
  obtain ⟨data, hdata⟩ := Option.ne_none_iff_exists'.mp hfound
  have hmem := Bucket.mem_keys_iff_getObject.mpr ⟨data, hdata⟩
  exact (Bucket.mem_keys_deleteObjects.mp hmem).2 hlisted

/-- A problem is created, and then the creation of one around it fails. -/
theorem not_isolated_of_within {p q : ProblemId} (hne : p.text ≠ q.text)
    (hwithin : Within p.text q.text) : ¬ Isolated p.text q.text := by
  intro hisolated
  obtain ⟨st, hst, hadmin⟩ := exists_signedIn
  obtain ⟨st₁, hstep₁, ⟨husers, hcategories, hproblems, hfiles⟩, hnow, hissued⟩ :=
    @step_createProblem plain halfHour (quiet 6 CreateProblem.zeros) _ _ _ _
      hadmin.now hadmin.token rfl hadmin.first
      (createProblem_quiet q.text_ne hadmin.categories (by simp [hadmin.problems]))
  have hnew : p.text ∉ st₁.store.problems.map (·.id) := by
    rw [hproblems, hadmin.problems]
    simpa using hne
  obtain ⟨st₂, hstep₂, hdeleted, -⟩ :=
    @step_createProblem plain halfHour (flushFails 7) _ _ _ _
      (hnow.trans_le (by decide)) (hadmin.token.mono hissued) rfl
      (by rw [husers]; exact hadmin.second)
      (createProblem_flushFails p.text_ne (hcategories.trans hadmin.categories) hnew)
  have hreach := reachable_step hst hstep₁
  have hstored : ∃ data, st₁.store.testcaseFiles.getObject (firstKey q.text) = some data := by
    apply Bucket.mem_keys_iff_getObject.mp
    simp [hfiles, bundled]
  obtain ⟨data, hdata⟩ := hstored
  have hon : (Request.createProblem (some annToken) (sumForm p.text true)).IsOn p.text := rfl
  have hkept := hisolated plain halfHour st₁ st₂ _ _ hreach hon hstep₂ _ _
    (keyOf_firstKey q.text) hdata
  rw [hdeleted, hfiles, hadmin.testcaseFiles, firstKey_deleted hwithin] at hkept
  cases hkept

/-! ## The result -/

theorem not_isolated_nested : ¬ ∀ p q : ProblemId, p.text ≠ q.text → Isolated p.text q.text := by
  intro h
  let p : ProblemId := ⟨['a'], by decide, by decide⟩
  let q : ProblemId := ⟨['a', '/', 'b'], by decide, by decide⟩
  have hne : p.text ≠ q.text := by decide
  exact not_isolated_of_within hne (.inr (by decide)) (h p q hne)

/-- **Two problems keep apart** unless the one id begins with the other one and a slash. -/
theorem isolated_iff (p q : ProblemId) (hne : p.text ≠ q.text) :
    Isolated p.text q.text ↔ ¬ p.text ++ ['/'] <+: q.text := by
  constructor
  · intro hisolated hprefix
    exact not_isolated_of_within hne (.inr hprefix) hisolated
  · intro hprefix
    apply isolated_of_not_within
    rintro (heq | hwithin)
    · exact hne heq.symm
    · exact hprefix hwithin

theorem isolated_apart : Isolated ['a'] ['a', '1'] :=
  (isolated_iff ⟨['a'], by decide, by decide⟩ ⟨['a', '1'], by decide, by decide⟩
    (by decide)).mpr (by decide)

end ByteBattles.Api
