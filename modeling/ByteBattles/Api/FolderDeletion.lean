import ByteBattles.Api.Effects

/-!
# What is left of the folder of a problem

`delete_problem_folder` lists the folder once.  It runs when a problem is deleted, and
after a `create_problem` that has raised.
-/

namespace ByteBattles.Api

open ByteBattles.Lib

variable {lib : Libraries} {cfg : Config} {env : Environment} {s t : Store}
  {bucket before after : Bucket (List Byte)} {p : Str}

structure FolderEmptied (p : Str) (before after : Bucket (List Byte)) : Prop where
  emptied : after.under (problemFolder p) = []
  elsewhere : ∀ key, ¬ problemFolder p <+: key → after.getObject key = before.getObject key

theorem deleteProblemFolder_elsewhere {key : Str} (h : ¬ problemFolder p <+: key) :
    (deleteProblemFolder bucket p).getObject key = bucket.getObject key :=
  Bucket.getObject_deleteObjects fun hmem => h (Bucket.prefix_of_mem_listObjects hmem)

/-- One page is enough for the folder, or something is left. -/
theorem folderEmptied_iff_of_nodup (hkeys : bucket.keys.Nodup)
    (helsewhere : ∀ key, ¬ problemFolder p <+: key →
      bucket.getObject key = before.getObject key) :
    FolderEmptied p before (deleteProblemFolder bucket p) ↔
      (bucket.under (problemFolder p)).length ≤ maxKeys := by
  rw [← Bucket.under_deleted_iff hkeys]
  constructor
  · intro h
    exact h.emptied
  · intro h
    refine ⟨h, fun key hkey => ?_⟩
    rw [deleteProblemFolder_elsewhere hkey, helsewhere key hkey]

/-! ## After a problem is deleted -/

theorem deleteProblem_ok {token : Option Token} {response : Response}
    (h : serve lib cfg env (.deleteProblem token p) s = (.ok response, t)) :
    t = (s.emptied p).removeProblem p := by
  have hends : (serve lib cfg env (.deleteProblem token p) s).2 = (s.emptied p).removeProblem p ∨
      ∃ e, (serve lib cfg env (.deleteProblem token p) s).1 = .error e := by
    refine ends_respond (P := fun r t => t = (s.emptied p).removeProblem p ∨ ∃ e, r = .error e)
      (ends_withCurrentAdmin (fun _ => .inr ⟨_, rfl⟩) (fun e _ => .inr ⟨e, rfl⟩) ?_)
    intro _ admin _
    refine (deleteProblem_outcome p).mono fun result t houtcome => ?_
    cases houtcome with
    | deleted => exact .inl rfl
    | _ => exact .inr ⟨_, rfl⟩
  rw [h] at hends
  rcases hends with heq | ⟨e, he⟩
  · exact heq
  · cases he

/-! ## After a creation has raised -/

namespace CreateProblem

variable {categories : List Str} {env : Environment} {c c' : State} {zip : ZipFile} {id : Str}

/-- What the upload loop stores before a call raises. -/
def puts (env : Environment) (id : Str) (zip : ZipFile) :
    Nat → List (Str × Str) → List (Str × List Byte)
  | _, [] => []
  | n, (input_path, output_path) :: files =>
      match zip.read input_path, zip.read output_path with
      | some input_data, some output_data =>
          let input_key :=
            generateObjectKey id (Str.lastSegment '/' input_path) (env.uuid (2 * n))
          let output_key :=
            generateObjectKey id (Str.lastSegment '/' output_path) (env.uuid (2 * n + 1))
          if env.raises (.put (2 * n)) then []
          else if env.raises (.put (2 * n + 1)) then [(input_key, input_data)]
          else (input_key, input_data) :: (output_key, output_data) ::
            puts env id zip (n + 1) files
      | _, _ => []

/-- What the `try` block stores before a call raises. -/
def stores (env : Environment) (c : State) (id : Str) (v : Validated) :
    List (Str × List Byte) :=
  if FlushRaises env c id then [] else puts env id v.zip 0 v.files

theorem upload_bucket (n : Nat) (files : List (Str × Str)) (bucket : Bucket (List Byte)) :
    (upload env id zip n files bucket).1 = bucket.putObjects (puts env id zip n files) := by
  induction files generalizing n bucket with
  | nil => rfl
  | cons file files ih =>
      obtain ⟨input_path, output_path⟩ := file
      unfold upload puts
      cases zip.read input_path with
      | none => rfl
      | some input_data =>
          cases zip.read output_path with
          | none => rfl
          | some output_data =>
              dsimp only
              split
              case isTrue => rfl
              case isFalse =>
                split
                case isTrue => rfl
                case isFalse =>
                  split
                  case h_1 heq => exact (congrArg Prod.fst heq).symm.trans (ih (n + 1) _)
                  case h_2 heq => exact (congrArg Prod.fst heq).symm.trans (ih (n + 1) _)

theorem puts_under (n : Nat) (files : List (Str × Str)) :
    ∀ o ∈ puts env id zip n files, problemFolder id <+: o.1 := by
  have hkey : ∀ filename u, problemFolder id <+: generateObjectKey id filename u :=
    fun _ _ => key_mem_folder (.inl rfl)
  induction files generalizing n with
  | nil => simp [puts]
  | cons file files ih =>
      obtain ⟨input_path, output_path⟩ := file
      unfold puts
      cases zip.read input_path with
      | none => simp
      | some input_data =>
          cases zip.read output_path with
          | none => simp
          | some output_data =>
              dsimp only
              split
              case isTrue => simp
              case isFalse =>
                split
                case isTrue => simpa using hkey _ _
                case isFalse =>
                  rw [List.forall_mem_cons, List.forall_mem_cons]
                  exact ⟨hkey _ _, hkey _ _, ih (n + 1)⟩

theorem stores_under (c : State) (id : Str) (v : Validated) :
    ∀ o ∈ stores env c id v, problemFolder id <+: o.1 := by
  unfold stores
  split
  · simp
  · exact puts_under 0 v.files

theorem tryBlock_bucket (c : State) (id : Str) (v : Validated) :
    (tryBlock env c id v).1 = c.bucket.putObjects (stores env c id v) := by
  unfold tryBlock stores
  split
  case isTrue => rfl
  case isFalse =>
    have hupload : (upload env id v.zip 0 v.files c.bucket).1 =
        c.bucket.putObjects (puts env id v.zip 0 v.files) := upload_bucket 0 v.files c.bucket
    rw [← hupload]
    cases hrun : upload env id v.zip 0 v.files c.bucket with
    | mk bucket testcases =>
        cases testcases with
        | none => rfl
        | some testcases =>
            dsimp only
            split <;> rfl

/-- The handler has run, and has reached the bucket. -/
theorem resume_cleaned {req : Request}
    (h : resume categories env c req = (c', .error 500 "Unknown Error Occurred")) :
    ∃ v, validate categories req = .ok v ∧
      c'.bucket = deleteProblemFolder (c.bucket.putObjects (stores env c req.id v)) req.id := by
  unfold resume at h
  cases hv : validate categories req with
  | error detail => simp [hv] at h
  | ok v =>
      refine ⟨v, rfl, ?_⟩
      simp only [hv] at h
      rw [← tryBlock_bucket]
      cases hrun : tryBlock env c req.id v with
      | mk bucket testcases =>
          rw [hrun] at h
          cases testcases with
          | some testcases => simp at h
          | none =>
              simp only [handler] at h
              split at h
              · simp at h
              · rw [← (Prod.mk.inj h).1]

end CreateProblem

/-! ## Bundles of any size -/

/-- **The folder is emptied exactly if it holds no more than one page**: what was in it, for
a problem that is deleted; with what the request has stored, for a creation that has
raised. -/
theorem folder_emptied_iff (hkeys : bucket.keys.Nodup) (p : Str) :
    (FolderEmptied p bucket (deleteProblemFolder bucket p) ↔
      (bucket.under (problemFolder p)).length ≤ maxKeys) ∧
    (∀ lib cfg env s token response t, s.testcaseFiles = bucket →
      serve lib cfg env (.deleteProblem token p) s = (.ok response, t) →
        (FolderEmptied p bucket t.testcaseFiles ↔
          (bucket.under (problemFolder p)).length ≤ maxKeys)) ∧
    (∀ categories env c c' req, c.bucket = bucket → req.id = p →
      CreateProblem.resume categories env c req = (c', .error 500 "Unknown Error Occurred") →
        ∃ v, CreateProblem.validate categories req = .ok v ∧
          (FolderEmptied p bucket c'.bucket ↔
            (bucket.under (problemFolder p) ++
              (CreateProblem.stores env c p v).map Prod.fst).dedup.length ≤ maxKeys)) := by
  have hfolder : FolderEmptied p bucket (deleteProblemFolder bucket p) ↔
      (bucket.under (problemFolder p)).length ≤ maxKeys :=
    folderEmptied_iff_of_nodup hkeys fun _ _ => rfl
  refine ⟨hfolder, ?_, ?_⟩
  · rintro lib cfg env s token response t rfl hserve
    rw [deleteProblem_ok hserve]
    exact hfolder
  · rintro categories env c c' req rfl rfl hresume
    obtain ⟨v, hv, hbucket⟩ := CreateProblem.resume_cleaned hresume
    have hunder : ∀ o ∈ CreateProblem.stores env c req.id v, problemFolder req.id <+: o.1 :=
      CreateProblem.stores_under c req.id v
    refine ⟨v, hv, ?_⟩
    rw [hbucket, ← Bucket.length_under_putObjects hkeys hunder]
    refine folderEmptied_iff_of_nodup (Bucket.nodup_keys_putObjects hkeys _) fun key hkey => ?_
    apply Bucket.getObject_putObjects
    rintro o ho rfl
    exact hkey (hunder o ho)

def mixedObjects : Bucket (List Byte) :=
  [(generateObjectKey ['p'] ['1'] CreateProblem.zeros, [49]),
    (generateObjectKey ['q'] ['1'] CreateProblem.zeros, [50]),
    (generateObjectKey ['p'] ['1'] CreateProblem.ones, [51]),
    (generateObjectKey ['p', 'p'] ['1'] CreateProblem.zeros, [52])]

theorem folder_emptied_mixedObjects :
    (mixedObjects.under (problemFolder ['p'])).length = 2 ∧
      (deleteProblemFolder mixedObjects ['p']).length = 2 ∧
      FolderEmptied ['p'] mixedObjects (deleteProblemFolder mixedObjects ['p']) := by
  have hkeys : mixedObjects.keys.Nodup := by decide
  refine ⟨by decide, by decide, ?_⟩
  exact (folder_emptied_iff hkeys ['p']).1.mpr (by decide)

def files (n : Nat) : Bucket (List Byte) :=
  (List.range n).map fun i =>
    (generateObjectKey ['p'] (List.replicate (i + 1) '1') CreateProblem.zeros, [])

theorem nodup_keys_files (n : Nat) : (files n).keys.Nodup := by
  rw [files, Bucket.keys, List.map_map]
  refine List.nodup_range.map fun i j hij => ?_
  have hlength := congrArg List.length hij
  simp only [Function.comp_apply, generateObjectKey, List.length_append, List.length_cons,
    List.length_replicate] at hlength
  omega

theorem under_files (n : Nat) : (files n).under (problemFolder ['p']) = (files n).keys := by
  rw [Bucket.under, List.filter_eq_self]
  intro k hk
  simp only [files, Bucket.keys, List.map_map, List.mem_map] at hk
  obtain ⟨i, -, rfl⟩ := hk
  exact List.isPrefixOf_iff_prefix.mpr (key_mem_folder (.inl rfl))

theorem not_folder_emptied_files :
    ¬ ∀ (bucket : Bucket (List Byte)) (p : Str), bucket.keys.Nodup →
      FolderEmptied p bucket (deleteProblemFolder bucket p) := by
  intro hall
  have hkeys := nodup_keys_files (maxKeys + 1)
  have hemptied := (hall (files (maxKeys + 1)) ['p'] hkeys).emptied
  have hle := (Bucket.under_deleted_iff hkeys).mp hemptied
  rw [under_files] at hle
  simp only [files, Bucket.keys, List.length_map, List.length_range] at hle
  omega

end ByteBattles.Api
