import ByteBattles.Api.Effects

/-!
# A problem deletion that fails

`delete_problem` deletes objects one after the other before it commits.  When a call
raises, the rows are all there, and what was deleted before is not.
-/

namespace ByteBattles.Api

open ByteBattles.Lib

variable {lib : Libraries} {cfg : Config} {env : Environment} {s t : Store}
  {token : Option Token} {p : Str}

/-- Every row that is there in `t` refers to what it referred to in `s`. -/
structure StillRefers (s t : Store) : Prop where
  code : ∀ r ∈ t.submissions, r.code_object_key ∈ s.submissionFiles.keys →
    r.code_object_key ∈ t.submissionFiles.keys
  input : ∀ tc ∈ t.testcases, tc.input_key ∈ s.testcaseFiles.keys →
    tc.input_key ∈ t.testcaseFiles.keys
  output : ∀ tc ∈ t.testcases, tc.output_key ∈ s.testcaseFiles.keys →
    tc.output_key ∈ t.testcaseFiles.keys

/-- The request gets past its checks. -/
def DeletionBegins (env : Environment) (s : Store) (token : Option Token) (p : Str) : Prop :=
  env.raises .query = false ∧ (∃ admin, getCurrentAdmin s.users env.now token = .ok admin) ∧
    ∃ problem, s.problemById p = some problem

/-- The first call that raises comes before the deletion of any object that is there and
belongs to a row. -/
structure RaisesInTime (env : Environment) (s : Store) (p : Str) : Prop where
  code : ∀ k key, (s.codeKeysOf p)[k]? = some key → key ∈ s.submissionFiles.keys →
    ∃ i ≤ k, env.raises (.deleteFile i) = true
  folder : ∀ tc ∈ s.testcases, ∀ key ∈ [tc.input_key, tc.output_key],
    key ∈ s.testcaseFiles.listObjects maxKeys (problemFolder p) →
      (∃ i < (s.codeKeysOf p).length, env.raises (.deleteFile i) = true) ∨
        env.raises .deleteFolder = true

/-! ## What was deleted -/

theorem stillRefers_refl (s : Store) : StillRefers s s :=
  ⟨fun _ _ h => h, fun _ _ h => h, fun _ _ h => h⟩

theorem mem_codeKeysOf {key : Str} (h : key ∈ s.codeKeysOf p) :
    ∃ r ∈ s.submissions, r.code_object_key = key := by
  obtain ⟨r, hr, rfl⟩ := List.mem_map.mp h
  exact ⟨r, List.mem_of_mem_filter hr, rfl⟩

/-- Code keys of `p` are deleted and no other object. -/
theorem stillRefers_deleteCodes_iff {keys : List Str} (hkeys : keys ⊆ s.codeKeysOf p) :
    StillRefers s (s.deleteCodes keys) ↔ ∀ key ∈ keys, key ∉ s.submissionFiles.keys := by
  constructor
  · intro h key hkey hmem
    obtain ⟨r, hr, rfl⟩ := mem_codeKeysOf (hkeys hkey)
    exact (Bucket.mem_keys_deleteObjects.mp (h.code r hr hmem)).2 hkey
  · intro h
    refine ⟨fun r _ hmem => ?_, fun _ _ hmem => hmem, fun _ _ hmem => hmem⟩
    exact Bucket.mem_keys_deleteObjects.mpr ⟨hmem, fun hkey => h _ hkey hmem⟩

theorem mem_keys_emptied {key : Str} : key ∈ (s.emptied p).testcaseFiles.keys ↔
    key ∈ s.testcaseFiles.keys ∧
      key ∉ s.testcaseFiles.listObjects maxKeys (problemFolder p) :=
  Bucket.mem_keys_deleteObjects

theorem mem_keys_of_listed {key : Str}
    (h : key ∈ s.testcaseFiles.listObjects maxKeys (problemFolder p)) :
    key ∈ s.testcaseFiles.keys :=
  List.mem_of_mem_filter (Str.mem_sorted.mp (List.mem_of_mem_take h))

/-- The folder is deleted as well. -/
theorem stillRefers_emptied_iff : StillRefers s (s.emptied p) ↔
    (∀ key ∈ s.codeKeysOf p, key ∉ s.submissionFiles.keys) ∧
      ∀ tc ∈ s.testcases, ∀ key ∈ [tc.input_key, tc.output_key],
        key ∉ s.testcaseFiles.listObjects maxKeys (problemFolder p) := by
  have hcodes := stillRefers_deleteCodes_iff (s := s) (p := p) (List.Subset.refl _)
  constructor
  · intro h
    refine ⟨hcodes.mp ⟨h.code, fun _ _ hmem => hmem, fun _ _ hmem => hmem⟩, ?_⟩
    intro tc htc key hkey hlisted
    simp only [List.mem_cons, List.not_mem_nil, or_false] at hkey
    rcases hkey with rfl | rfl
    · exact (mem_keys_emptied.mp (h.input tc htc (mem_keys_of_listed hlisted))).2 hlisted
    · exact (mem_keys_emptied.mp (h.output tc htc (mem_keys_of_listed hlisted))).2 hlisted
  · rintro ⟨hcode, hlisted⟩
    refine ⟨(hcodes.mpr hcode).code, fun tc htc hmem => ?_, fun tc htc hmem => ?_⟩
    · exact mem_keys_emptied.mpr ⟨hmem, hlisted tc htc _ (by simp)⟩
    · exact mem_keys_emptied.mpr ⟨hmem, hlisted tc htc _ (by simp)⟩

/-- After each error the rows refer to their objects if and only if the call that raised
came in time. -/
theorem DeletionOutcome.stillRefers_iff {e : Error} {problem : Problem}
    (h : DeletionOutcome env s p (.error e) t) (hproblem : s.problemById p = some problem) :
    StillRefers s t ↔ RaisesInTime env s p := by
  cases h with
  | missing hmissing => simp [hmissing] at hproblem
  | @file _ _ k _ hlt hbefore hraises =>
      rw [stillRefers_deleteCodes_iff (List.take_subset _ _)]
      constructor
      · intro hspared
        refine ⟨fun n key hkey hmem => ?_, fun _ _ _ _ _ => .inl ⟨k, hlt, hraises⟩⟩
        by_contra hnone
        have hn : n < k := by
          by_contra hn
          exact hnone ⟨k, by omega, hraises⟩
        have htake : ((s.codeKeysOf p).take k)[n]? = some key := by
          rw [List.getElem?_take_of_lt hn, hkey]
        exact hspared key (List.mem_of_getElem? htake) hmem
      · intro hin key hkey hmem
        obtain ⟨n, hn⟩ := List.mem_iff_getElem?.mp hkey
        have hlt' : n < k := by
          have := (List.getElem?_eq_some_iff.mp hn).1
          simp only [List.length_take] at this
          omega
        rw [List.getElem?_take_of_lt hlt'] at hn
        obtain ⟨i, hi, hraised⟩ := hin.code n key hn hmem
        rw [hbefore i (by omega)] at hraised
        cases hraised
  | folder _ hfiles hraises =>
      rw [stillRefers_deleteCodes_iff (List.Subset.refl _)]
      constructor
      · intro hspared
        refine ⟨fun n key hkey hmem => ?_, fun _ _ _ _ _ => .inr hraises⟩
        exact absurd hmem (hspared key (List.mem_of_getElem? hkey))
      · intro hin key hkey hmem
        obtain ⟨n, hn⟩ := List.mem_iff_getElem?.mp hkey
        obtain ⟨i, hi, hraised⟩ := hin.code n key hn hmem
        have hlt := (List.getElem?_eq_some_iff.mp hn).1
        rw [hfiles i (by omega)] at hraised
        cases hraised
  | row _ hfiles hfolder hraises =>
      rw [stillRefers_emptied_iff]
      constructor
      · rintro ⟨hspared, hlisted⟩
        refine ⟨fun n key hkey hmem => ?_, fun tc htc key hkey hmem => ?_⟩
        · exact absurd hmem (hspared key (List.mem_of_getElem? hkey))
        · exact absurd hmem (hlisted tc htc key hkey)
      · intro hin
        refine ⟨fun key hkey hmem => ?_, fun tc htc key hkey hmem => ?_⟩
        · obtain ⟨n, hn⟩ := List.mem_iff_getElem?.mp hkey
          obtain ⟨i, hi, hraised⟩ := hin.code n key hn hmem
          have hlt := (List.getElem?_eq_some_iff.mp hn).1
          rw [hfiles i (by omega)] at hraised
          cases hraised
        · rcases hin.folder tc htc key hkey hmem with ⟨i, hi, hraised⟩ | hraised
          · rw [hfiles i hi] at hraised
            cases hraised
          · rw [hfolder] at hraised
            cases hraised

/-- **After a problem deletion that fails, every row still refers to its objects** if and
only if the first call that raises comes before the deletion of any of these objects. -/
theorem failed_deletion_iff {e : Error}
    (h : serve lib cfg env (.deleteProblem token p) s = (.error e, t)) :
    StillRefers s t ↔ (DeletionBegins env s token p → RaisesInTime env s p) := by
  have hrefused : ¬ DeletionBegins env s token p →
      (StillRefers s s ↔ (DeletionBegins env s token p → RaisesInTime env s p)) := fun hnot =>
    ⟨fun _ hbegins => absurd hbegins hnot, fun _ => stillRefers_refl s⟩
  have hends : (serve lib cfg env (.deleteProblem token p) s).1 = .error e →
      (StillRefers s (serve lib cfg env (.deleteProblem token p) s).2 ↔
        (DeletionBegins env s token p → RaisesInTime env s p)) := by
    refine ends_respond (P := fun r t => r = .error e → (StillRefers s t ↔ _))
      (ends_withCurrentAdmin (fun hquery _ => ?_) (fun e' hauth _ => ?_) ?_)
    · exact hrefused fun hbegins => by simp [hbegins.1] at hquery
    · refine hrefused fun hbegins => ?_
      obtain ⟨-, ⟨admin, hadmin⟩, -⟩ := hbegins
      rw [hadmin] at hauth
      cases hauth
    · intro hquery admin hadmin
      refine (deleteProblem_outcome p).mono fun result t houtcome hresult => ?_
      cases result with
      | ok u => cases hresult
      | error e' =>
          cases hproblem : s.problemById p with
          | none =>
              cases houtcome with
              | missing =>
                  refine hrefused fun hbegins => ?_
                  obtain ⟨-, -, problem, hsome⟩ := hbegins
                  rw [hproblem] at hsome
                  cases hsome
              | file hsome | folder hsome | row hsome =>
                  rw [hproblem] at hsome
                  cases hsome
          | some problem =>
              rw [houtcome.stillRefers_iff hproblem]
              constructor
              · intro hin _
                exact hin
              · intro hin
                exact hin ⟨hquery, ⟨admin, hadmin⟩, problem, hproblem⟩
  rw [h] at hends
  exact hends rfl

/-! ## A problem with one submission -/

def annAdmin : User where
  id := 1
  username := ann.username
  email := ann.email
  password_hash := ann.password
  is_verified := false
  created_at := 0
  user_type := .ADMIN

def soleKey : Str := codeObjectKey (EXTENSIONS .PYTHON) CreateProblem.zeros

def soleStore : Store :=
  let s := { Store.empty with users := [annAdmin], problems := [(sumForm ['p'] true).problem []] }
  (s.putCode soleKey []).addSubmission
    (s.newSubmission 5 annAdmin ⟨['p'], [], .PYTHON⟩ soleKey)

def failing (c : Call) : Environment :=
  { quiet 6 CreateProblem.ones with raises := fun c' => c' = c }

def soleDeletion (c : Call) : Except Error Response × Store :=
  serve plain halfHour (failing c) (.deleteProblem (some annToken) ['p']) soleStore

def fullStore : Store :=
  { soleStore with
    submissions := ⟨⟨['p'], .C, ['a'], pendingRow⟩, 2, 4, 1⟩ :: soleStore.submissions
    testcases := [⟨1, ['p'], ['p', '/', 'i'], ['p', '/', 'o']⟩]
    testcaseFiles := [(['p', '/', 'i'], [49]), (['p', '/', 'o'], [50])] }

def fullDeletion (c : Call) : Except Error Response × Store :=
  serve plain halfHour (failing c) (.deleteProblem (some annToken) ['p']) fullStore

theorem failed_deletion_second : StillRefers fullStore (fullDeletion (.deleteFile 1)).2 := by
  have herror : (fullDeletion (.deleteFile 1)).1 = .error .server := by decide
  have hserve : serve plain halfHour (failing (.deleteFile 1))
      (.deleteProblem (some annToken) ['p']) fullStore =
        (.error .server, (fullDeletion (.deleteFile 1)).2) := Prod.ext herror rfl
  refine (failed_deletion_iff hserve).mpr fun _ => ⟨?_, ?_⟩
  · intro k key hk hkey
    cases k with
    | zero =>
        obtain rfl : ['a'] = key := Option.some.inj hk
        exact absurd hkey (by decide)
    | succ k => exact ⟨1, Nat.le_add_left 1 k, rfl⟩
  · intro tc _ key _ _
    exact .inl ⟨1, by decide, rfl⟩

/-- The commit raises: the submission is still there, and its code is not. -/
theorem not_stillRefers_commit : ¬ ∀ lib cfg env s token p e t,
    serve lib cfg env (.deleteProblem token p) s = (.error e, t) → StillRefers s t := by
  intro hall
  have herror : (soleDeletion .commit).1 = .error .server := by decide
  have hrefers := hall plain halfHour (failing .commit) soleStore (some annToken) ['p'] .server
    (soleDeletion .commit).2 (Prod.ext herror rfl)
  have hcode := hrefers.code _ (List.mem_singleton_self _) (by decide)
  revert hcode
  decide

end ByteBattles.Api
